import ArtPi.Lib.Runs

set_option autoImplicit false

/-! # Stops and debugger commands (`src/agent/agent_debug.cpp`)

A thread that reaches a breakpoint waits in `OnBreakpointHit` on one condition variable for all
threads, beside one flag for all threads that says that somebody is paused and one variable for the
command. Every section that holds `g_debugMutex` is one step, and so is the read of the command behind
the wait, which holds no lock. A waiting thread may wake up in any state that its predicate accepts.

Each command is remembered with the stop that had been reported last, and with the stops that went on
because of it. Commands answer the stops they were given for in every run in which threads stop one at
a time and each stop gets one command. -/

namespace ArtPi.Debug

open ArtPi.Lib

inductive DebugStepCommand where
  | NONE | STEP_IN | STEP_OVER | CONTINUE | FINISH
  deriving DecidableEq

/-- A wait of a thread in `OnBreakpointHit`. Its depth is that of the instruction it stops at, 0 in
    native code; at a breakpoint on native code itself the thread reads no run mode behind the wait,
    and there is none. -/
structure Stop where
  id : Nat
  tid : Nat
  depth : Option Int
  deriving DecidableEq

/-- What the user can say: `JsContinue`, `JsStep`, `JsNext` and `JsReturn`. -/
inductive Command where
  | cont | step | next | ret
  deriving DecidableEq

/-- The command for a stop at some depth. At depth 0 there is no frame to finish. -/
def Command.mode (depth : Int) : Command → DebugStepCommand
  | .cont => .CONTINUE
  | .step => .STEP_IN
  | .next => .STEP_OVER
  | .ret => if depth ≤ 0 then .CONTINUE else .FINISH

theorem Command.mode_ne_none (depth : Int) (c : Command) : c.mode depth ≠ .NONE := by
  cases c with
  | ret =>
    simp only [Command.mode]
    split <;> simp
  | _ => simp [Command.mode]

/-- A command that was accepted: the stop reported last, and the stops that woke up with it. -/
structure Issued where
  stop : Stop
  command : Command
  takers : List Stop := []
  deriving DecidableEq

structure Debugger where
  isThreadPaused : Bool := false
  pendingCommand : DebugStepCommand := .NONE
  /-- `g_pausedRegs.depth` -/
  pausedDepth : Int := 0
  /-- threads that have saved their registers and are on their way to `OnBreakpointHit` -/
  entering : List (Nat × Int) := []
  waiting : List Stop := []
  /-- stops that are over, whose threads have yet to read the command -/
  resumed : List Stop := []
  nextStop : Nat := 0
  reported : Option Stop := none
  /-- the newest command first -/
  issued : List Issued := []
  /-- the run modes that were read, the newest first -/
  modes : List (Stop × DebugStepCommand) := []

namespace Debugger

variable (s : Debugger)

/-- A thread does one thing at a time. -/
def idle (tid : Nat) : Bool :=
  s.entering.all (fun e => e.1 ≠ tid) && s.waiting.all (fun k => k.tid ≠ tid) &&
    s.resumed.all (fun k => k.tid ≠ tid)

/-- The locked section of `FormatSmaliStepView` and `FormatNativeStepView`. -/
def save (tid : Nat) (depth : Int) : Debugger :=
  if s.idle tid then { s with pausedDepth := depth, entering := (tid, depth) :: s.entering } else s

/-- `OnBreakpointHit` up to the wait. -/
def onBreakpointHit (tid : Nat) (depth : Option Int) : Debugger :=
  { s with
    isThreadPaused := true
    pendingCommand := .NONE
    waiting := ⟨s.nextStop, tid, depth⟩ :: s.waiting
    nextStop := s.nextStop + 1
    reported := some ⟨s.nextStop, tid, depth⟩ }

/-- The stop of a thread that has saved its registers. -/
def stop (tid : Nat) : Debugger :=
  match s.entering.find? (fun e => e.1 = tid) with
  | none => s
  | some (_, depth) =>
    { s with entering := s.entering.eraseP (fun e => e.1 = tid) }.onBreakpointHit tid (some depth)

/-- A breakpoint on a native method or address. -/
def stopNative (tid : Nat) : Debugger :=
  if s.idle tid then s.onBreakpointHit tid none else s

/-- The newest command lets a stop go on. -/
def take (stop : Stop) : List Issued → List Issued
  | [] => []
  | i :: rest => { i with takers := i.takers ++ [stop] } :: rest

/-- `OnBreakpointHit` behind the wait. -/
def wake (tid : Nat) : Debugger :=
  if s.pendingCommand = .NONE then s
  else
    match s.waiting.find? (fun k => k.tid = tid) with
    | none => s
    | some k =>
      { s with
        isThreadPaused := false
        waiting := s.waiting.eraseP (fun k => k.tid = tid)
        resumed := if k.depth.isSome then k :: s.resumed else s.resumed
        issued := take k s.issued }

/-- `t_runMode = g_pendingCommand`, with no lock held. -/
def readMode (tid : Nat) : Debugger :=
  match s.resumed.find? (fun k => k.tid = tid) with
  | none => s
  | some k =>
    { s with
      resumed := s.resumed.eraseP (fun k => k.tid = tid)
      modes := (k, s.pendingCommand) :: s.modes }

/-- `JsContinue`, `JsStep`, `JsNext` and `JsReturn`; `DebugDetachAll` and
    `BreakpointClearByArtMethod` continue in the same way. -/
def command (c : Command) : Debugger :=
  if s.isThreadPaused then
    { s with
      pendingCommand := c.mode s.pausedDepth
      issued := s.reported.toList.map (fun k => ⟨k, c, []⟩) ++ s.issued }
  else s

end Debugger

inductive Op where
  | save (tid : Nat) (depth : Int)
  | stop (tid : Nat)
  | stopNative (tid : Nat)
  | wake (tid : Nat)
  | readMode (tid : Nat)
  | command (c : Command)

def step (s : Debugger) : Op → Debugger
  | .save tid depth => s.save tid depth
  | .stop tid => s.stop tid
  | .stopNative tid => s.stopNative tid
  | .wake tid => s.wake tid
  | .readMode tid => s.readMode tid
  | .command c => s.command c

/-! ## Commands answer stops -/

/-- The run mode a command means for its stop. -/
def Issued.Fits (i : Issued) (mode : DebugStepCommand) : Prop :=
  ∀ depth ∈ i.stop.depth, mode = i.command.mode depth

/-- Every command was taken by the stop it was given for and by no other, or it is pending and this
    stop waits; and every run mode that was read is the one of the command that ended the stop. -/
structure Resumes (s : Debugger) : Prop where
  taken : ∀ i ∈ s.issued, i.takers = [i.stop] ∨
    i.takers = [] ∧ i.stop ∈ s.waiting ∧ s.pendingCommand ≠ .NONE ∧ i.Fits s.pendingCommand
  modes : ∀ x ∈ s.modes, ∃ i ∈ s.issued, i.takers = [x.1] ∧ i.stop = x.1 ∧ i.Fits x.2

instance (i : Issued) (mode : DebugStepCommand) : Decidable (i.Fits mode) :=
  inferInstanceAs (Decidable (∀ depth ∈ i.stop.depth, mode = i.command.mode depth))

instance (s : Debugger) : Decidable (Resumes s) :=
  decidable_of_iff
    ((∀ i ∈ s.issued, i.takers = [i.stop] ∨
      i.takers = [] ∧ i.stop ∈ s.waiting ∧ s.pendingCommand ≠ .NONE ∧ i.Fits s.pendingCommand) ∧
      ∀ x ∈ s.modes, ∃ i ∈ s.issued, i.takers = [x.1] ∧ i.stop = x.1 ∧ i.Fits x.2)
    ⟨fun h => ⟨h.1, h.2⟩, fun h => ⟨h.1, h.2⟩⟩

/-- A thread stops when no other stop waits for its command or for the thread to read it; a command is
    given to a stop that has none, and a frame is finished by the registers of this stop. -/
def Op.inTurn (s : Debugger) : Op → Prop
  | .stop tid => (s.entering.find? (fun e => e.1 = tid)).isSome → s.waiting = [] ∧ s.resumed = []
  | .stopNative tid => s.idle tid = true → s.waiting = [] ∧ s.resumed = []
  | .command c => s.isThreadPaused = true → s.pendingCommand = .NONE ∧
      (c = .ret → ∀ k ∈ s.reported, ∀ depth ∈ k.depth, (s.pausedDepth ≤ 0 ↔ depth ≤ 0))
  | .save .. | .wake .. | .readMode .. => True

instance Op.decidableInTurn (s : Debugger) : ∀ op : Op, Decidable (op.inTurn s)
  | .stop tid => inferInstanceAs (Decidable ((s.entering.find? (fun e => e.1 = tid)).isSome →
      s.waiting = [] ∧ s.resumed = []))
  | .stopNative tid => inferInstanceAs (Decidable (s.idle tid = true → s.waiting = [] ∧ s.resumed = []))
  | .command c => inferInstanceAs (Decidable (s.isThreadPaused = true → s.pendingCommand = .NONE ∧
      (c = .ret → ∀ k ∈ s.reported, ∀ depth ∈ k.depth, (s.pausedDepth ≤ 0 ↔ depth ≤ 0))))
  | .save .. | .wake .. | .readMode .. => inferInstanceAs (Decidable True)

/-! ## The invariant -/

def Issued.Settled (i : Issued) : Prop := i.takers = [i.stop]

/-- Where the one stop there may be stands. -/
inductive Turn (s : Debugger) : Prop where
  | nobody (hwaiting : s.waiting = []) (hresumed : s.resumed = []) (hpaused : s.isThreadPaused = false)
      (hissued : ∀ i ∈ s.issued, i.Settled)
  | asks (k : Stop) (hwaiting : s.waiting = [k]) (hresumed : s.resumed = [])
      (hreported : s.reported = some k) (hpending : s.pendingCommand = .NONE)
      (hissued : ∀ i ∈ s.issued, i.Settled)
  | answered (k : Stop) (i : Issued) (rest : List Issued) (hwaiting : s.waiting = [k])
      (hresumed : s.resumed = []) (hpaused : s.isThreadPaused = true)
      (hpending : s.pendingCommand ≠ .NONE) (hissued : s.issued = i :: rest) (hstop : i.stop = k)
      (htakers : i.takers = []) (hfits : i.Fits s.pendingCommand) (hrest : ∀ i ∈ rest, i.Settled)
  | goesOn (k : Stop) (i : Issued) (rest : List Issued) (hwaiting : s.waiting = [])
      (hresumed : s.resumed = [k]) (hpaused : s.isThreadPaused = false) (hissued : s.issued = i :: rest)
      (hstop : i.stop = k) (htakers : i.takers = [k]) (hfits : i.Fits s.pendingCommand)
      (hrest : ∀ i ∈ rest, i.Settled)

structure Inv (s : Debugger) : Prop where
  turn : Turn s
  modes : ∀ x ∈ s.modes, ∃ i ∈ s.issued, i.takers = [x.1] ∧ i.stop = x.1 ∧ i.Fits x.2

theorem Inv.init : Inv {} := ⟨.nobody rfl rfl rfl (by simp), by simp⟩

theorem Inv.resumes {s : Debugger} (h : Inv s) : Resumes s where
  taken := by
    intro i hi
    cases h.turn with
    | nobody _ _ _ hissued => exact .inl (hissued i hi)
    | asks _ _ _ _ _ hissued => exact .inl (hissued i hi)
    | answered k j rest hwaiting _ _ hpending hissued hstop htakers hfits hrest =>
      rw [hissued] at hi
      rcases List.mem_cons.mp hi with rfl | hi
      · exact .inr ⟨htakers, by simp [hwaiting, hstop], hpending, hfits⟩
      · exact .inl (hrest i hi)
    | goesOn k j rest _ _ _ hissued hstop htakers _ hrest =>
      rw [hissued] at hi
      rcases List.mem_cons.mp hi with rfl | hi
      · exact .inl (by rw [htakers, hstop])
      · exact .inl (hrest i hi)
  modes := h.modes

/-! ## One step -/

section

variable {s : Debugger}

theorem Inv.save (h : Inv s) (tid : Nat) (depth : Int) : Inv (s.save tid depth) := by
  unfold Debugger.save
  split
  · refine ⟨?_, h.modes⟩
    cases h.turn with
    | nobody h1 h2 h3 h4 => exact .nobody h1 h2 h3 h4
    | asks k h1 h2 h3 h4 h5 => exact .asks k h1 h2 h3 h4 h5
    | answered k i rest h1 h2 h3 h4 h5 h6 h7 h8 h9 => exact .answered k i rest h1 h2 h3 h4 h5 h6 h7 h8 h9
    | goesOn k i rest h1 h2 h3 h4 h5 h6 h7 h8 => exact .goesOn k i rest h1 h2 h3 h4 h5 h6 h7 h8
  · exact h

/-- With no stop that waits or has yet to read, every command is settled. -/
theorem Inv.settled (h : Inv s) (hwaiting : s.waiting = []) (hresumed : s.resumed = []) :
    ∀ i ∈ s.issued, i.Settled := by
  cases h.turn with
  | nobody _ _ _ hissued => exact hissued
  | asks _ hk => exact absurd (hwaiting.symm.trans hk) (by simp)
  | answered _ _ _ hk => exact absurd (hwaiting.symm.trans hk) (by simp)
  | goesOn _ _ _ _ hk => exact absurd (hresumed.symm.trans hk) (by simp)

theorem Inv.onBreakpointHit (h : Inv s) (hwaiting : s.waiting = []) (hresumed : s.resumed = [])
    (entering : List (Nat × Int)) (tid : Nat) (depth : Option Int) :
    Inv ({ s with entering := entering }.onBreakpointHit tid depth) where
  turn := .asks ⟨s.nextStop, tid, depth⟩ (by simp [Debugger.onBreakpointHit, hwaiting]) hresumed rfl rfl
    (h.settled hwaiting hresumed)
  modes := h.modes

theorem Inv.stop (h : Inv s) {tid : Nat} (hok : Op.inTurn s (.stop tid)) : Inv (s.stop tid) := by
  unfold Debugger.stop
  cases hfind : s.entering.find? (fun e => e.1 = tid) with
  | none => exact h
  | some e =>
    obtain ⟨hwaiting, hresumed⟩ := hok (by simp [hfind])
    exact h.onBreakpointHit hwaiting hresumed _ tid (some e.2)

theorem Inv.stopNative (h : Inv s) {tid : Nat} (hok : Op.inTurn s (.stopNative tid)) :
    Inv (s.stopNative tid) := by
  unfold Debugger.stopNative
  split
  · rename_i hidle
    obtain ⟨hwaiting, hresumed⟩ := hok hidle
    exact h.onBreakpointHit hwaiting hresumed s.entering tid none
  · exact h

/-- A run mode that was read stays one when the newest command was not taken yet and is. -/
theorem Inv.modes_take (h : Inv s) {i : Issued} {rest : List Issued} (hissued : s.issued = i :: rest)
    (htakers : i.takers = []) (k : Stop) :
    ∀ x ∈ s.modes, ∃ j ∈ Debugger.take k s.issued, j.takers = [x.1] ∧ j.stop = x.1 ∧ j.Fits x.2 := by
  intro x hx
  obtain ⟨j, hj, htaken, hstop, hfits⟩ := h.modes x hx
  rw [hissued] at hj ⊢
  rcases List.mem_cons.mp hj with rfl | hj
  · exact absurd (htakers.symm.trans htaken) (by simp)
  · exact ⟨j, List.mem_cons_of_mem _ hj, htaken, hstop, hfits⟩

theorem Inv.wake (h : Inv s) (tid : Nat) : Inv (s.wake tid) := by
  unfold Debugger.wake
  split
  · exact h
  rename_i hpending
  cases h.turn with
  | nobody hwaiting => simpa [hwaiting] using h
  | asks _ _ _ _ hnone => exact absurd hnone hpending
  | goesOn _ _ _ hwaiting => simpa [hwaiting] using h
  | answered k i rest hwaiting hresumed _ _ hissued hstop htakers hfits hrest =>
    by_cases htid : k.tid = tid
    · have hmodes := h.modes_take hissued htakers k
      have htake : Debugger.take k s.issued = { i with takers := [k] } :: rest := by
        rw [hissued]
        simp [Debugger.take, htakers]
      simp only [hwaiting, htid, List.find?_cons_of_pos, decide_true, List.eraseP_cons_of_pos,
        hresumed]
      refine ⟨?_, hmodes⟩
      cases hdepth : k.depth with
      | some depth => exact .goesOn k _ rest rfl (by simp) rfl htake hstop rfl hfits hrest
      | none =>
        -- the thread reads no run mode, and the stop is over
        refine .nobody rfl (by simp) rfl (fun j hj => ?_)
        rw [htake] at hj
        rcases List.mem_cons.mp hj with rfl | hj
        · simp [Issued.Settled, hstop]
        · exact hrest j hj
    · simpa [hwaiting, htid] using h

theorem Inv.readMode (h : Inv s) (tid : Nat) : Inv (s.readMode tid) := by
  unfold Debugger.readMode
  cases h.turn with
  | nobody _ hresumed => simpa [hresumed] using h
  | asks _ _ hresumed => simpa [hresumed] using h
  | answered _ _ _ _ hresumed => simpa [hresumed] using h
  | goesOn k i rest hwaiting hresumed hpaused hissued hstop htakers hfits hrest =>
    by_cases htid : k.tid = tid
    · simp only [hresumed, htid, List.find?_cons_of_pos, decide_true, List.eraseP_cons_of_pos]
      refine ⟨.nobody hwaiting rfl hpaused (fun j hj => ?_), fun x hx => ?_⟩
      · rw [hissued] at hj
        rcases List.mem_cons.mp hj with rfl | hj
        · rw [Issued.Settled, htakers, hstop]
        · exact hrest j hj
      · rcases List.mem_cons.mp hx with rfl | hx
        · exact ⟨i, by simp [hissued], htakers, hstop, hfits⟩
        · exact h.modes x hx
    · simpa [hresumed, htid] using h

/-- The command means the same by the registers that were saved last as by those of the stop. -/
theorem Command.mode_congr {c : Command} {depth depth' : Int}
    (h : c = .ret → (depth ≤ 0 ↔ depth' ≤ 0)) : c.mode depth = c.mode depth' := by
  cases c with
  | ret => simp [Command.mode, h rfl]
  | _ => rfl

theorem Inv.command (h : Inv s) {c : Command} (hok : Op.inTurn s (.command c)) : Inv (s.command c) := by
  unfold Debugger.command
  split
  swap
  · exact h
  rename_i hpaused
  obtain ⟨hnone, hret⟩ := hok hpaused
  cases h.turn with
  | nobody _ _ hnot => exact absurd (hpaused.symm.trans hnot) (by simp)
  | goesOn _ _ _ _ _ hnot => exact absurd (hpaused.symm.trans hnot) (by simp)
  | answered _ _ _ _ _ _ hpending => exact absurd hnone hpending
  | asks k hwaiting hresumed hreported _ hissued =>
    rw [hreported] at hret
    simp only [hreported, Option.toList_some, List.map_cons, List.map_nil, List.singleton_append]
    refine ⟨.answered k ⟨k, c, []⟩ s.issued hwaiting hresumed hpaused (c.mode_ne_none _) rfl rfl rfl
      ?_ hissued, fun x hx => ?_⟩
    · intro depth hdepth
      exact Command.mode_congr (fun hc => hret hc k rfl depth hdepth)
    · obtain ⟨i, hi, htaken⟩ := h.modes x hx
      exact ⟨i, List.mem_cons_of_mem _ hi, htaken⟩

theorem Inv.step (op : Op) (h : Inv s) (hok : op.inTurn s) : Inv (step s op) := by
  cases op with
  | save tid depth => exact h.save tid depth
  | stop tid => exact h.stop hok
  | stopNative tid => exact h.stopNative hok
  | wake tid => exact h.wake tid
  | readMode tid => exact h.readMode tid
  | command c => exact h.command hok

end

/-! ## Every run -/

/-- In every run in which threads stop one at a time, and each stop gets one command that finishes no
    frame by the registers of another stop, each command resumes the stop it was given for. -/
theorem run_resumes (ops : List Op) (hops : Along step (fun s op => op.inTurn s) {} ops) :
    Resumes (run step {} ops) :=
  (Along.invariant (fun _ op h hok => h.step op hok) Inv.init hops).resumes

/-- Two threads stop one after the other; the first steps, the second finishes its frame. -/
def inOrder : List Op :=
  [.save 1 0, .stop 1, .command .step, .wake 1, .readMode 1,
    .save 2 3, .stop 2, .command .ret, .wake 2, .readMode 2]

theorem inOrder_resumes :
    Resumes (run step {} inOrder) ∧
      (run step {} inOrder).modes = [(⟨1, 2, some 3⟩, .FINISH), (⟨0, 1, some 0⟩, .STEP_IN)] :=
  ⟨run_resumes inOrder (by decide), by decide⟩

/-- The second thread stops before the first one has woken up with its command. -/
def overtaken : List Op :=
  [.save 1 0, .stop 1, .command .step, .save 2 0, .stop 2]

/-- Both threads wait when the command is given. -/
def both : List Op :=
  [.save 1 0, .stop 1, .save 2 0, .stop 2, .command .step, .wake 1, .wake 2]

/-- The stop gets a second command before the thread has woken up. -/
def hasty : List Op := [.save 1 0, .stop 1, .command .step, .command .cont, .wake 1]

/-- The second thread has saved its registers when the first one is to finish its frame. -/
def mixedUp : List Op := [.save 1 1, .stop 1, .save 2 0, .command .ret, .wake 1, .readMode 1]

/-- The command is lost; one command resumes two threads; the first command is lost; and the thread
    goes on with a mode that its command does not mean. -/
theorem not_resumes :
    ¬ Resumes (run step {} overtaken) ∧ ¬ Resumes (run step {} both) ∧
      ¬ Resumes (run step {} hasty) ∧ ¬ Resumes (run step {} mixedUp) := by
  refine ⟨?_, ?_, ?_, ?_⟩ <;> decide

end ArtPi.Debug
