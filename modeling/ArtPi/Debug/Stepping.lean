import ArtPi.Debug.Commands

set_option autoImplicit false

/-! # Stepping (`src/agent/agent_debug.cpp`)

One thread under the debugger. The body of a hooked method that carries a breakpoint interprets the
method, and the callbacks of the interpreter decide at every instruction whether the thread stops, by
two variables of the thread: the run mode and the depth a `FINISH` goes to. A callee is interpreted too
when the user steps in and the interpreter takes it, native code is stepped instruction by instruction,
and any other callee runs outside. There, below native code, or in a class initialiser that an
instruction runs, the thread may come to another method with a breakpoint, whose body sets the two
variables for itself and does not put them back.

An execution is a list of events in the order of the thread, so that calls and returns nest as they
like. Each body remembers the last stop of its frames: the run mode the user chose there, and the
depth. -/

namespace ArtPi.Debug

open ArtPi.Lib

/-- Where the code of a body is. -/
inductive Phase where
  /-- the next instruction is to come -/
  | ready
  /-- an instruction was dispatched -/
  | dispatched
  /-- a callee runs outside -/
  | away
  /-- `RunNativeStepped` -/
  | native
  deriving DecidableEq

/-- A hook body that interprets its method. -/
structure Body where
  /-- of the innermost interpreted frame -/
  depth : Nat := 0
  phase : Phase := .ready
  last : Option (DebugStepCommand × Nat) := none
  /-- the variables when the body was entered -/
  entry : DebugStepCommand × Int
  deriving DecidableEq

inductive Event where
  /-- an instruction, with the last stop in its body and whether the thread stops at it -/
  | insn (last : Option (DebugStepCommand × Nat)) (depth : Nat) (stops : Bool)
  /-- a body is left below another one: the variables before and behind it -/
  | back (before after : DebugStepCommand × Int)
  deriving DecidableEq

structure Thread where
  runMode : DebugStepCommand := .NONE
  targetDepth : Int := -1
  /-- the innermost body first -/
  bodies : List Body := []
  /-- the newest event first -/
  events : List Event := []

/-- What an invoke calls, and whether the interpreter takes a callee that is to be stepped into. -/
inductive Callee where
  | java (taken : Bool)
  | native

namespace Thread

variable (t : Thread)

/-- The hook body up to `invokeInterpretedWith`. Below another body it may begin anywhere: in a callee, in
    a class initialiser that an instruction runs, or where a class is loaded for a handler. -/
def enter : Thread :=
  { t with
    runMode := .NONE
    targetDepth := -1
    bodies := { entry := (t.runMode, t.targetDepth) } :: t.bodies }

/-- The hook body behind `invokeInterpretedWith`. -/
def leave : Thread :=
  match t.bodies with
  | [] => t
  | b :: rest =>
    if b.phase = .away ∨ b.phase = .native then t
    else
      { t with
        runMode := .NONE
        bodies := rest
        events := if rest = [] then t.events else .back b.entry (.NONE, t.targetDepth) :: t.events }

/-- The thread stops, and the user answers. -/
def stop (b : Body) (rest : List Body) (depth : Nat) (mode : DebugStepCommand) (phase : Phase) :
    Thread :=
  { t with
    runMode := mode
    bodies := { b with last := some (mode, depth), phase := phase } :: rest
    events := .insn b.last depth true :: t.events }

/-- The thread does not stop. -/
def pass (b : Body) (rest : List Body) (depth : Nat) (phase : Phase) : Thread :=
  { t with
    bodies := { b with phase := phase } :: rest
    events := .insn b.last depth false :: t.events }

/-- `onInsn`; the user would answer a stop with `c`. -/
def onInsn (c : Command) : Thread :=
  match t.bodies with
  | [] => t
  | b :: rest =>
    if b.phase = .away ∨ b.phase = .native then t
    else if t.runMode = .CONTINUE then t.pass b rest b.depth .dispatched
    else if t.runMode = .FINISH ∧ (b.depth : Int) > t.targetDepth then
      t.pass b rest b.depth .dispatched
    else
      let mode := c.mode b.depth
      let t' := t.stop b rest b.depth mode .dispatched
      if mode = .FINISH then
        { t' with targetDepth := if b.depth > 0 then (b.depth : Int) - 1 else -1 }
      else t'

/-- `onInvoke` for the instruction that was dispatched, and how the interpreter follows it. -/
def onInvoke (callee : Callee) : Thread :=
  match t.bodies with
  | [] => t
  | b :: rest =>
    if b.phase ≠ .dispatched then t
    else if t.runMode ≠ .STEP_IN then { t with bodies := { b with phase := .away } :: rest }
    else
      match callee with
      | .native => { t with runMode := .NONE, bodies := { b with phase := .native } :: rest }
      | .java true =>
        { t with
          runMode := .NONE
          bodies := { b with phase := .ready, depth := b.depth + 1 } :: rest }
      | .java false => { t with runMode := .NONE, bodies := { b with phase := .away } :: rest }

/-- The instruction callback of `RunNativeStepped`. The registers saved there have depth 0. -/
def onNativeInsn (c : Command) : Thread :=
  match t.bodies with
  | [] => t
  | b :: rest =>
    if b.phase ≠ .native then t
    else if t.runMode = .CONTINUE ∨ t.runMode = .FINISH then t.pass b rest (b.depth + 1) .native
    else t.stop b rest (b.depth + 1) (c.mode 0) .native

/-- A callee that was not interpreted returns. -/
def back : Thread :=
  match t.bodies with
  | [] => t
  | b :: rest =>
    if b.phase = .away ∨ b.phase = .native then
      { t with bodies := { b with phase := .ready } :: rest }
    else t

/-- An interpreted callee ends. One that throws is called once more, outside. -/
def ret (again : Bool) : Thread :=
  match t.bodies with
  | [] => t
  | b :: rest =>
    if b.phase = .away ∨ b.phase = .native ∨ b.depth = 0 then t
    else
      { t with bodies :=
          { b with depth := b.depth - 1, phase := if again then .away else .ready } :: rest }

end Thread

inductive Move where
  | enter
  | leave
  | insn (c : Command)
  | invoke (callee : Callee)
  | nativeInsn (c : Command)
  | back
  | ret (again : Bool)

def Thread.step (t : Thread) : Move → Thread
  | .enter => t.enter
  | .leave => t.leave
  | .insn c => t.onInsn c
  | .invoke callee => t.onInvoke callee
  | .nativeInsn c => t.onNativeInsn c
  | .back => t.back
  | .ret again => t.ret again

/-! ## What the commands mean -/

/-- Whether a thread is to stop at an instruction, by the last stop in the same body: always at the
    first one and behind `STEP_IN`, at the depth of the stop or above it behind `STEP_OVER`, above it
    behind `FINISH`, and never again behind `CONTINUE`. -/
def stopsAt (depth : Nat) : Option (DebugStepCommand × Nat) → Bool
  | none | some (.NONE, _) | some (.STEP_IN, _) => true
  | some (.STEP_OVER, d) => depth ≤ d
  | some (.FINISH, d) => depth < d
  | some (.CONTINUE, _) => false

def Event.Meant : Event → Prop
  | .insn last depth stops => stops = stopsAt depth last
  | .back before after => before = after

instance : ∀ e : Event, Decidable e.Meant
  | .insn last depth stops => inferInstanceAs (Decidable (stops = stopsAt depth last))
  | .back before after => inferInstanceAs (Decidable (before = after))

/-- The thread stops exactly where the commands say, and no body changes the variables of another. -/
def StepsAsTold (t : Thread) : Prop := ∀ e ∈ t.events, e.Meant

instance (t : Thread) : Decidable (StepsAsTold t) :=
  inferInstanceAs (Decidable (∀ e ∈ t.events, e.Meant))

/-- Below another body, a body is entered with the variables as it sets them, and is left with the
    target depth it set. -/
def Move.untouched (t : Thread) : Move → Prop
  | .enter => t.bodies ≠ [] → t.runMode = .NONE ∧ t.targetDepth = -1
  | .leave => (∃ b ∈ t.bodies.head?, b.phase ≠ .away ∧ b.phase ≠ .native) → t.bodies.tail ≠ [] →
      t.targetDepth = -1
  | _ => True

instance Move.decidableUntouched (t : Thread) : ∀ m : Move, Decidable (m.untouched t)
  | .enter => inferInstanceAs (Decidable (t.bodies ≠ [] → t.runMode = .NONE ∧ t.targetDepth = -1))
  | .leave => inferInstanceAs (Decidable ((∃ b ∈ t.bodies.head?, b.phase ≠ .away ∧ b.phase ≠ .native) →
      t.bodies.tail ≠ [] → t.targetDepth = -1))
  | .insn _ | .invoke _ | .nativeInsn _ | .back | .ret _ => inferInstanceAs (Decidable True)

/-! ## The invariant -/

/-- The depth of the code a body is in. -/
def Body.current (b : Body) : Nat := if b.phase = .native then b.depth + 1 else b.depth

/-- The variables of the thread say what the last stop in a body does. -/
def Agrees (mode : DebugStepCommand) (target : Int) (b : Body) : Prop :=
  match b.last with
  | none => mode = .NONE
  | some (.NONE, _) => False
  | some (.STEP_IN, _) => mode = .STEP_IN ∨ mode = .NONE
  | some (.STEP_OVER, d) => mode = .STEP_OVER ∧ b.current ≤ d
  | some (.FINISH, d) => mode = .FINISH ∧ target = (d : Int) - 1 ∧ b.phase ≠ .native
  | some (.CONTINUE, _) => mode = .CONTINUE

/-- A body below another one has nothing pending, and the one above it found that. -/
def Stacked : List Body → Prop
  | [] => True
  | b :: rest => (rest ≠ [] → b.entry = (.NONE, -1)) ∧ (∀ b' ∈ rest.head?, Agrees .NONE (-1) b') ∧
      Stacked rest

structure Thread.Inv (t : Thread) : Prop where
  told : StepsAsTold t
  stacked : Stacked t.bodies
  agrees : ∀ b ∈ t.bodies.head?, Agrees t.runMode t.targetDepth b

theorem Thread.Inv.init : Thread.Inv {} := ⟨fun e he => by simp at he, trivial, by simp⟩

section

variable {t : Thread} {b b' : Body} {rest : List Body}

theorem Thread.Inv.top (h : t.Inv) (hb : t.bodies = b :: rest) (hentry : b'.entry = b.entry)
    {mode : DebugStepCommand} {target : Int} (hagrees : Agrees mode target b') {events : List Event}
    (hevents : ∀ e ∈ events, e.Meant) : Thread.Inv ⟨mode, target, b' :: rest, events⟩ where
  told := hevents
  stacked := by
    have hstacked := h.stacked
    rw [hb] at hstacked
    exact ⟨by rw [hentry]; exact hstacked.1, hstacked.2⟩
  agrees := by
    intro x hx
    obtain rfl := Option.some.inj hx
    exact hagrees

theorem Thread.Inv.agrees_top (h : t.Inv) (hb : t.bodies = b :: rest) :
    Agrees t.runMode t.targetDepth b := h.agrees b (by simp [hb])

theorem agrees_stop {mode : DebugStepCommand} (hmode : mode ≠ .NONE) (depth : Nat) {target : Int}
    (hlast : b.last = some (mode, depth)) (hcurrent : b.current ≤ depth)
    (hfinish : mode = .FINISH → target = (depth : Int) - 1 ∧ b.phase ≠ .native) :
    Agrees mode target b := by
  unfold Agrees
  rw [hlast]
  cases mode with
  | NONE => exact absurd rfl hmode
  | STEP_IN => exact .inl rfl
  | STEP_OVER => exact ⟨rfl, hcurrent⟩
  | CONTINUE => rfl
  | FINISH => exact ⟨rfl, hfinish rfl⟩

theorem Agrees.stopsAt_current {mode : DebugStepCommand} {target : Int} (h : Agrees mode target b) :
    stopsAt b.current b.last = true ↔
      ¬ mode = .CONTINUE ∧ ¬ (mode = .FINISH ∧ (b.current : Int) > target) := by
  unfold Agrees at h
  cases hlast : b.last with
  | none =>
    rw [hlast] at h
    simp [stopsAt, h]
  | some last =>
    obtain ⟨chosen, d⟩ := last
    rw [hlast] at h
    cases chosen with
    | NONE => exact absurd h id
    | STEP_IN => rcases h with h | h <;> simp [stopsAt, h]
    | STEP_OVER => simp [stopsAt, h.1, h.2]
    | CONTINUE => simp [stopsAt, h]
    | FINISH =>
      obtain ⟨hmode, htarget, -⟩ := h
      have hstop : stopsAt b.current (some (.FINISH, d)) = true ↔ b.current < d := by simp [stopsAt]
      have hdepth : b.current < d ↔ ¬ (b.current : Int) > (d : Int) - 1 := by omega
      rw [hstop, hdepth, hmode, htarget]
      simp only [reduceCtorEq, not_false_eq_true, true_and]

/-- `FINISH` is not pending where native code is stepped. -/
theorem Agrees.ne_finish {mode : DebugStepCommand} {target : Int} (h : Agrees mode target b)
    (hphase : b.phase = .native) : mode ≠ .FINISH := by
  rintro rfl
  unfold Agrees at h
  split at h
  · exact absurd h (by simp)
  · exact h
  · exact absurd h (by simp)
  · exact absurd h.1 (by simp)
  · exact h.2.2 hphase
  · exact absurd h (by simp)

theorem Agrees.stopsAt_depth {mode : DebugStepCommand} {target : Int} (h : Agrees mode target b)
    (hphase : b.phase ≠ .native) :
    stopsAt b.depth b.last = true ↔
      ¬ mode = .CONTINUE ∧ ¬ (mode = .FINISH ∧ (b.depth : Int) > target) := by
  have hcurrent : b.current = b.depth := by rw [Body.current, if_neg hphase]
  rw [← hcurrent]
  exact h.stopsAt_current

theorem Agrees.stopsAt_native {mode : DebugStepCommand} {target : Int} (h : Agrees mode target b)
    (hphase : b.phase = .native) :
    stopsAt (b.depth + 1) b.last = true ↔ ¬ (mode = .CONTINUE ∨ mode = .FINISH) := by
  have hcurrent : b.current = b.depth + 1 := by rw [Body.current, if_pos hphase]
  have hstops := h.stopsAt_current
  rw [hcurrent] at hstops
  simp [hstops, h.ne_finish hphase]

/-- A body that goes on to code that is not deeper, and not native, agrees as before. -/
theorem Agrees.move {mode : DebugStepCommand} {target : Int} (h : Agrees mode target b)
    (hlast : b'.last = b.last) (hcurrent : b'.current ≤ b.current) (hphase : b'.phase ≠ .native) :
    Agrees mode target b' := by
  unfold Agrees at h ⊢
  rw [hlast]
  cases hb : b.last with
  | none => simpa [hb] using h
  | some last =>
    obtain ⟨chosen, d⟩ := last
    rw [hb] at h
    cases chosen with
    | STEP_OVER => exact ⟨h.1, Nat.le_trans hcurrent h.2⟩
    | FINISH => exact ⟨h.1, h.2.1, hphase⟩
    | _ => exact h

/-- Behind `STEP_IN` an invoke has used the run mode up, wherever it leads. -/
theorem Agrees.stepIn {target : Int} (h : Agrees .STEP_IN target b) (hlast : b'.last = b.last) :
    Agrees .NONE target b' := by
  unfold Agrees at h ⊢
  rw [hlast]
  cases hb : b.last with
  | none => rfl
  | some last =>
    obtain ⟨chosen, d⟩ := last
    rw [hb] at h
    cases chosen with
    | NONE => exact h
    | STEP_IN => exact .inr rfl
    | STEP_OVER => exact absurd h.1 (by simp)
    | FINISH => exact absurd h.1 (by simp)
    | CONTINUE => exact absurd h (by simp)

/-! ## One event -/

theorem meant_cons {e : Event} {events : List Event} (he : e.Meant) (h : ∀ e ∈ events, e.Meant) :
    ∀ x ∈ e :: events, x.Meant := by
  intro x hx
  rcases List.mem_cons.mp hx with rfl | hx
  · exact he
  · exact h x hx

theorem Thread.Inv.enter (h : t.Inv) (hok : Move.untouched t .enter) : t.enter.Inv := by
  cases hb : t.bodies with
  | nil => exact ⟨h.told, ⟨by simp [hb], by simp [hb], by rw [hb]; trivial⟩, by simp [Thread.enter, Agrees]⟩
  | cons b rest =>
    obtain ⟨hmode, htarget⟩ := hok (by simp [hb])
    have hagrees := h.agrees_top hb
    rw [hmode, htarget] at hagrees
    refine ⟨h.told, ⟨fun _ => by simp [hmode, htarget], ?_, h.stacked⟩, by simp [Thread.enter, Agrees]⟩
    intro x hx
    rw [hb] at hx
    obtain rfl := Option.some.inj hx
    exact hagrees

theorem Thread.Inv.leave (h : t.Inv) (hok : Move.untouched t .leave) : t.leave.Inv := by
  unfold Thread.leave
  cases hb : t.bodies with
  | nil => exact h
  | cons b rest =>
    dsimp only
    split
    · exact h
    · rename_i hphase
      rw [not_or] at hphase
      have hstacked := h.stacked
      rw [hb] at hstacked
      obtain ⟨hentry, hbelow, hrest⟩ := hstacked
      have htarget : rest ≠ [] → t.targetDepth = -1 := by
        intro hne
        exact hok ⟨b, by simp [hb], hphase⟩ (by simpa [hb] using hne)
      refine ⟨?_, hrest, ?_⟩
      · split
        · exact h.told
        · rename_i hne
          exact meant_cons (by rw [Event.Meant, hentry hne, htarget hne]) h.told
      · intro x hx
        have hne : rest ≠ [] := by
          rintro rfl
          exact absurd hx (by simp)
        rw [htarget hne]
        exact hbelow x hx

theorem Thread.Inv.onInsn (h : t.Inv) (c : Command) : (t.onInsn c).Inv := by
  unfold Thread.onInsn
  cases hb : t.bodies with
  | nil => exact h
  | cons b rest =>
    dsimp only
    split
    · exact h
    rename_i hphase
    rw [not_or] at hphase
    have hagrees := h.agrees_top hb
    have hstops := hagrees.stopsAt_depth hphase.2
    have hpass : stopsAt b.depth b.last = false → (t.pass b rest b.depth .dispatched).Inv := by
      intro hfalse
      refine h.top hb ?_ (hagrees.move ?_ ?_ ?_) (meant_cons hfalse.symm h.told)
      · rfl
      · rfl
      · simp [Body.current, hphase.2]
      · simp
    split
    · rename_i hcont
      exact hpass (by simpa [hcont] using hstops)
    split
    · rename_i hfin
      exact hpass (by simpa [hfin] using hstops)
    · rename_i hcont hfin
      -- the thread stops, and a `FINISH` sets the depth it goes to
      have hmeant : (Event.insn b.last b.depth true).Meant := (hstops.mpr ⟨hcont, hfin⟩).symm
      have hne := c.mode_ne_none b.depth
      by_cases hmode : c.mode b.depth = .FINISH
      · have hpos : b.depth > 0 := by
          by_contra hzero
          cases c with
          | ret => simp [Command.mode, Nat.eq_zero_of_not_pos hzero] at hmode
          | _ => exact absurd hmode (by simp [Command.mode])
        simp only [hmode, if_true, hpos]
        refine h.top hb ?_ (agrees_stop ?_ b.depth ?_ ?_ ?_)
          (meant_cons hmeant h.told)
        · rfl
        · exact (by simp : DebugStepCommand.FINISH ≠ .NONE)
        · rfl
        · simp [Body.current]
        · simp
      · simp only [hmode, if_false]
        refine h.top hb ?_ (agrees_stop hne b.depth ?_ ?_ ?_) (meant_cons hmeant h.told)
        · rfl
        · rfl
        · simp [Body.current]
        · exact fun heq => absurd heq hmode

theorem Thread.Inv.onInvoke (h : t.Inv) (callee : Callee) : (t.onInvoke callee).Inv := by
  unfold Thread.onInvoke
  cases hb : t.bodies with
  | nil => exact h
  | cons b rest =>
    dsimp only
    split
    · exact h
    rename_i hphase
    rw [not_not] at hphase
    have hagrees := h.agrees_top hb
    split
    · refine h.top hb ?_ (hagrees.move ?_ ?_ ?_) h.told
      · rfl
      · rfl
      · simp [Body.current, hphase]
      · simp
    · rename_i hmode
      rw [not_not] at hmode
      rw [hmode] at hagrees
      cases callee with
      | native => exact h.top hb (by rfl) (hagrees.stepIn (by rfl)) h.told
      | java taken =>
        cases taken with
        | true => exact h.top hb (by rfl) (hagrees.stepIn (by rfl)) h.told
        | false => exact h.top hb (by rfl) (hagrees.stepIn (by rfl)) h.told

theorem Thread.Inv.onNativeInsn (h : t.Inv) (c : Command) : (t.onNativeInsn c).Inv := by
  unfold Thread.onNativeInsn
  cases hb : t.bodies with
  | nil => exact h
  | cons b rest =>
    dsimp only
    split
    · exact h
    rename_i hphase
    rw [not_not] at hphase
    have hagrees := h.agrees_top hb
    have hstops := hagrees.stopsAt_native hphase
    split
    · rename_i hpass
      have hfalse : stopsAt (b.depth + 1) b.last = false := by
        rw [← Bool.not_eq_true, hstops]
        exact fun hnot => hnot hpass
      have hsame : { b with phase := Phase.native } = b := by rw [← hphase]
      unfold Thread.pass
      rw [hsame]
      exact h.top hb rfl hagrees (meant_cons hfalse.symm h.told)
    · rename_i hstop
      -- at depth 0 the command is never `FINISH`
      have hfinish : c.mode 0 ≠ .FINISH := by cases c <;> simp [Command.mode]
      refine h.top hb ?_ (agrees_stop (c.mode_ne_none 0) (b.depth + 1) ?_ ?_ ?_)
        (meant_cons (hstops.mpr hstop).symm h.told)
      · rfl
      · rfl
      · simp [Body.current]
      · exact fun heq => absurd heq hfinish

theorem Thread.Inv.back (h : t.Inv) : t.back.Inv := by
  unfold Thread.back
  cases hb : t.bodies with
  | nil => exact h
  | cons b rest =>
    dsimp only
    split
    · refine h.top hb ?_ ((h.agrees_top hb).move ?_ ?_ ?_) h.told
      · rfl
      · rfl
      · simp only [Body.current, reduceCtorEq, if_false]
        split <;> simp
      · simp
    · exact h

theorem Thread.Inv.ret (h : t.Inv) (again : Bool) : (t.ret again).Inv := by
  unfold Thread.ret
  cases hb : t.bodies with
  | nil => exact h
  | cons b rest =>
    dsimp only
    split
    · exact h
    rename_i hphase
    have hnative : (if again = true then Phase.away else Phase.ready) ≠ .native := by
      cases again <;> simp
    have hcurrent : b.current = b.depth := by
      unfold Body.current
      rw [if_neg (fun heq => hphase (.inr (.inl heq)))]
    refine h.top hb ?_ ((h.agrees_top hb).move ?_ ?_ hnative) h.told
    · rfl
    · rfl
    · rw [hcurrent, Body.current, if_neg hnative]
      exact Nat.sub_le _ _

theorem Thread.Inv.step (m : Move) (h : t.Inv) (hok : m.untouched t) : (t.step m).Inv := by
  cases m with
  | enter => exact h.enter hok
  | leave => exact h.leave hok
  | insn c => exact h.onInsn c
  | invoke callee => exact h.onInvoke callee
  | nativeInsn c => exact h.onNativeInsn c
  | back => exact h.back
  | ret again => exact h.ret again

end

/-! ## Every execution -/

/-- In every execution in which the bodies below other ones find and leave the variables as they set
    them, the thread stops exactly where the commands say. -/
theorem run_stepsAsTold (moves : List Move)
    (hmoves : Along Thread.step (fun t m => m.untouched t) {} moves) :
    StepsAsTold (run Thread.step {} moves) :=
  (Along.invariant (fun _ m h hok => h.step m hok) Thread.Inv.init hmoves).told

/-- Into a callee, out of it again, over a call, and on; then a step into a callee that the
    interpreter does not take, with a breakpoint in it. -/
def walk : List Move :=
  [.enter, .insn .step, .invoke (.java true), .insn .next, .insn .step, .ret false,
    .insn .next, .invoke .native, .back, .insn .step, .invoke (.java false),
    .enter, .insn .cont, .insn .cont, .leave, .back, .insn .cont, .insn .cont, .leave]

theorem walk_stepsAsTold :
    StepsAsTold (run Thread.step {} walk) ∧ (run Thread.step {} walk).events.length = 10 :=
  ⟨run_stepsAsTold walk (by decide), by decide⟩

/-- The user continues at a call, below which there is another breakpoint. -/
def resumed : List Move :=
  [.enter, .insn .cont, .invoke (.java true), .enter, .insn .cont, .leave, .back, .insn .cont]

/-- The user finishes a callee, which comes to another breakpoint on its way. -/
def finished : List Move :=
  [.enter, .insn .step, .invoke (.java true), .insn .ret, .insn .cont, .invoke .native,
    .enter, .insn .cont, .leave, .back, .insn .cont]

/-- The frame stops again behind `CONTINUE`, and at the same depth behind `FINISH`. -/
theorem not_stepsAsTold :
    ¬ StepsAsTold (run Thread.step {} resumed) ∧
      (run Thread.step {} resumed).events.head? = some (.insn (some (.CONTINUE, 0)) 0 true) ∧
      ¬ StepsAsTold (run Thread.step {} finished) ∧
      (run Thread.step {} finished).events.head? = some (.insn (some (.FINISH, 1)) 1 true) := by
  refine ⟨?_, ?_, ?_, ?_⟩ <;> decide

end ArtPi.Debug
