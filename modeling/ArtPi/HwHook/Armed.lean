import ArtPi.HwHook.Slots

set_option autoImplicit false

/-! # What stays armed (`engine/native/hooker/pi_hw_hook.cpp`)

The manager beside the debug registers of every thread. A thread that hits a recurring session is
disarmed for one instruction, and the session remembers which thread that is, where its next trap is
and in which slot. There is one such record for each session: a second thread that hits the session
meanwhile overwrites it, and where no slot is free there is nothing to remember and the thread stays
disarmed. A trap is raised in one step and handled in a later one, when its thread has the lock: what
another thread detaches in between is gone when `HandleException` looks for it. Setting a register of
the thread that traps does not fail; the code does not look at the result either. -/

namespace ArtPi.HwHook

open ArtPi.Lib HwHookManager

/-- An address in a debug register, and whether it is there to step over. -/
structure Register where
  addr : Nat
  stepOver : Bool := false
  deriving DecidableEq

/-- The debug registers of every thread. -/
abbrev Registers := Nat → Slot → Option Register

def HwHookSession.slot (s : HwHookSession) : Slot := (s.config.type, s.assignedSlot)

def HwHookSession.register (s : HwHookSession) : Register := { addr := s.config.address }

/-- The threads `rearmMissingThreads` arms for a session. -/
def HwHookSession.missing (s : HwHookSession) (tids armable : List Nat) : List Nat :=
  tids.filter (fun t => (s.config.threadId = 0 || s.config.threadId = t) && t ∉ s.armedThreads &&
    t ∈ armable)

/-- Where a session steps over to. -/
def HwHookSession.stepPc (s : HwHookSession) (flight : Flight) (insn : Nat) (ctx : CpuContext) : Nat :=
  match s.config.type with
  | .breakpoint =>
    nextPc (if flight.faultAddr ≥ 0x1000 then flight.faultAddr else flight.pcAddr) insn ctx
  | .watchpoint => (flight.pcAddr + 4) % 2 ^ 64

namespace Registers

variable (hw : Registers) (m : HwHookManager)

/-- `gum_thread_set_hardware_breakpoint`, `gum_thread_unset_hardware_breakpoint` and the two for
    watchpoints, on each of some threads. -/
def program (tids : List Nat) (k : Slot) (r : Option Register) : Registers :=
  fun t k' => if t ∈ tids ∧ k' = k then r else hw t k'

def attach (config : HwHookConfig) (tids armable : List Nat) : Registers :=
  if config.address = 0 || !config.onHit then hw
  else if m.sessions.any (fun s => s.active && s.config.address = config.address &&
      s.config.type = config.type) then hw
  else
    match m.allocateSlot config.type config.slot with
    | none => hw
    | some slot =>
      hw.program ((if config.threadId > 0 then [config.threadId] else tids).filter (· ∈ armable))
        (config.type, slot) (some { addr := config.address })

/-- What `detach` and `detachAll` do to the registers of a session. -/
def release (s : HwHookSession) : Registers :=
  let hw' := match s.stepOverSlot with
    | some k =>
      if s.steppingThread > 0 then hw.program [s.steppingThread] (.breakpoint, k) none else hw
    | none => hw
  hw'.program s.armedThreads s.slot none

def detach (id : Nat) : Registers :=
  match m.sessions.find? (fun s => s.id = id) with
  | none => hw
  | some s => hw.release s

def detachAll : Registers := m.sessions.foldl release hw

def rearm (tids armable : List Nat) (s : HwHookSession) : Registers :=
  if s.active then hw.program (s.missing tids armable) s.slot (some s.register) else hw

def rearmMissingThreads (tids armable : List Nat) : Registers :=
  m.sessions.foldl (fun hw s => rearm hw tids armable s) hw

/-- The thread steps over no more, and is armed again. -/
def comeBack (tid : Tid) (s : HwHookSession) : Registers :=
  let hw' := match s.stepOverSlot with
    | some k => hw.program [tid.val] (.breakpoint, k) none
    | none => hw
  hw'.program [tid.val] s.slot (some s.register)

/-- `HandleException` up to the callback. For a one-shot session on all threads the loop erases from
    `armed_threads` while it iterates over the set; what it does with the others armed is undefined. -/
def enter (tid : Tid) (faultAddr pcAddr memAddr : Nat) : Registers :=
  match m.sessions.find? (stepsOver tid faultAddr pcAddr) with
  | some s => hw.comeBack tid s
  | none =>
    match m.sessions.find? (hits faultAddr pcAddr memAddr) with
    | none => hw
    | some s =>
      if s.config.once then
        hw.program (if s.config.threadId = 0 then tid.val :: s.armedThreads else [tid.val]) s.slot
          none
      else hw

def leave (i insn : Nat) (ctx : CpuContext) : Registers :=
  match m.inFlight[i]? with
  | none => hw
  | some flight =>
    if flight.once then hw
    else
      match m.sessions.find? (fun s => s.ref = flight.ref) with
      | none => hw
      | some s =>
        if !s.active then hw
        else
          let hw' := hw.program [flight.tid.val] s.slot none
          match m.stepSlot s with
          | none => hw'
          | some slot =>
            hw'.program [flight.tid.val] (.breakpoint, slot)
              (some { addr := s.stepPc flight insn ctx, stepOver := true })

end Registers

/-- A trap to step over that a thread has taken, and that `HandleException` has not seen yet. -/
structure Trap where
  tid : Tid
  pc : Nat
  deriving DecidableEq

/-- The manager, the registers, and the threads that wait for the lock with a trap. -/
structure World where
  mgr : HwHookManager := {}
  hw : Registers := fun _ _ => none
  raised : List Trap := []

inductive Event where
  | op (op : Op)
  /-- the thread arrives where one of its registers points -/
  | trap (tid : Tid) (k : Slot)

namespace World

/-- A thread takes one trap at a time. -/
def trap (w : World) (tid : Tid) (k : Slot) : World :=
  match w.hw tid.val k with
  | some ⟨pc, true⟩ =>
    if w.raised.any (fun r => r.tid = tid) then w
    else { w with raised := w.raised ++ [⟨tid, pc⟩] }
  | _ => w

/-- One section of a thread that holds the lock. -/
def locked (w : World) (op : Op) : World where
  mgr := HwHook.step w.mgr op
  hw := match op with
    | .attach config tids armable => w.hw.attach w.mgr config tids armable
    | .detach id => w.hw.detach w.mgr id
    | .detachAll => w.hw.detachAll w.mgr
    | .refreshCapacity _ _ => w.hw
    | .rearmMissingThreads tids armable => w.hw.rearmMissingThreads w.mgr tids armable
    | .enter tid faultAddr pcAddr memAddr => w.hw.enter w.mgr tid faultAddr pcAddr memAddr
    | .leave flight insn ctx => w.hw.leave w.mgr flight insn ctx
  raised := match op with
    | .enter tid faultAddr pcAddr _ =>
      w.raised.filter (fun r => !(r.tid = tid && (r.pc = faultAddr || r.pc = pcAddr)))
    | _ => w.raised

def step (w : World) : Event → World
  | .op op => w.locked op
  | .trap tid k => w.trap tid k

/-- What `HandleException` returns. -/
def answer (w : World) (tid : Tid) (faultAddr pcAddr memAddr : Nat) : Nat :=
  if (w.mgr.sessions.find? (stepsOver tid faultAddr pcAddr)).isSome ||
      (w.mgr.sessions.find? (hits faultAddr pcAddr memAddr)).isSome then 1 else 0

/-- A trap of a thread is taken for the end of a step-over, and the thread is armed again. -/
def ComesBack (w : World) (tid : Tid) (pc : Nat) : Prop :=
  ∀ memAddr, w.answer tid pc pc memAddr = 1 ∧
    ∃ s ∈ w.mgr.sessions, stepsOver tid pc pc s = true ∧
      (w.step (.op (.enter tid pc pc memAddr))).hw tid.val s.slot = some s.register

/-- Every thread a recurring session is armed on is armed, or steps over and comes back; and no trap
    that was planted to step over is answered with 0, be it still to come or raised already. -/
structure StaysArmed (w : World) : Prop where
  armed : ∀ s ∈ w.mgr.sessions, s.active = true → s.config.once = false → ∀ t ∈ s.armedThreads,
    w.hw t s.slot = some s.register ∨
      ∃ tid k, t = tid.val ∧ s.stepOverSlot = some k ∧ s.steppingThread = t ∧
        w.hw t (.breakpoint, k) = some ⟨s.stepOverPc, true⟩ ∧ w.ComesBack tid s.stepOverPc
  planted : ∀ (tid : Tid) k pc, w.hw tid.val k = some ⟨pc, true⟩ → ∀ faultAddr pcAddr memAddr,
    pc = faultAddr ∨ pc = pcAddr → w.answer tid faultAddr pcAddr memAddr = 1
  raised : ∀ r ∈ w.raised, ∀ memAddr, w.answer r.tid r.pc r.pc memAddr = 1

end World

/-- The call of `HandleException` that goes on finds a session that does not step over yet, and a slot
    to step over with. -/
def Op.stepsFree (m : HwHookManager) : Op → Prop
  | .leave i _ _ => ∀ flight ∈ m.inFlight[i]?, flight.once = false →
      ∀ s ∈ m.sessions.find? (fun s => s.ref = flight.ref), s.active = true →
        s.stepOverSlot = none ∧ (m.stepSlot s).isSome
  | _ => True

instance Op.decidableStepsFree (m : HwHookManager) : ∀ op : Op, Decidable (op.stepsFree m)
  | .leave i _ _ => inferInstanceAs (Decidable (∀ flight ∈ m.inFlight[i]?, flight.once = false →
      ∀ s ∈ m.sessions.find? (fun s => s.ref = flight.ref), s.active = true →
        s.stepOverSlot = none ∧ (m.stepSlot s).isSome))
  | .attach .. | .detach .. | .detachAll | .refreshCapacity .. | .rearmMissingThreads .. | .enter .. =>
    inferInstanceAs (Decidable True)

/-- No session goes while a trap of it is raised that no other session waits for, and a one-shot
    session on all threads is hit only on the last thread it is armed on. -/
def Op.leavesTraps (w : World) : Op → Prop
  | .detach id => ∀ r ∈ w.raised,
      (w.mgr.sessions.eraseP (fun s => s.id = id)).any (stepsOver r.tid r.pc r.pc) = true
  | .detachAll => w.raised = []
  | .enter tid faultAddr pcAddr memAddr =>
    (w.mgr.sessions.find? (stepsOver tid faultAddr pcAddr)).isNone = true →
      ∀ s ∈ w.mgr.sessions.find? (hits faultAddr pcAddr memAddr), s.config.once = true →
        s.config.threadId = 0 → ∀ t ∈ s.armedThreads, t = tid.val
  | _ => True

instance Op.decidableLeavesTraps (w : World) : ∀ op : Op, Decidable (op.leavesTraps w)
  | .detach id => inferInstanceAs (Decidable (∀ r ∈ w.raised,
      (w.mgr.sessions.eraseP (fun s => s.id = id)).any (stepsOver r.tid r.pc r.pc) = true))
  | .detachAll => inferInstanceAs (Decidable (w.raised = []))
  | .enter tid faultAddr pcAddr memAddr => inferInstanceAs (Decidable
      ((w.mgr.sessions.find? (stepsOver tid faultAddr pcAddr)).isNone = true →
        ∀ s ∈ w.mgr.sessions.find? (hits faultAddr pcAddr memAddr), s.config.once = true →
          s.config.threadId = 0 → ∀ t ∈ s.armedThreads, t = tid.val))
  | .attach .. | .refreshCapacity .. | .rearmMissingThreads .. | .leave .. =>
    inferInstanceAs (Decidable True)

/-- A trap may come at any time. -/
def Event.orderly (w : World) : Event → Prop
  | .op o => o.stepsFree w.mgr ∧ o.leavesTraps w
  | .trap .. => True

instance Event.decidableOrderly (w : World) : ∀ e : Event, Decidable (e.orderly w)
  | .op o => inferInstanceAs (Decidable (o.stepsFree w.mgr ∧ o.leavesTraps w))
  | .trap .. => inferInstanceAs (Decidable True)

theorem Op.stepsFree.stepsOnce {m : HwHookManager} {op : Op} (h : op.stepsFree m) : op.stepsOnce m := by
  cases op with
  | leave i insn ctx =>
    intro flight hflight honce s hs hactive
    obtain ⟨hnone, hslot⟩ := h flight hflight honce s hs hactive
    exact ⟨fun _ => hnone, fun _ => hslot⟩
  | _ => trivial

/-! ## The invariant -/

/-- The session waits for a trap at `pc` on thread `t`, planted in slot `k`. -/
def HwHookSession.Plants (s : HwHookSession) (t : Nat) (k : Slot) (pc : Nat) : Prop :=
  ∃ i, s.stepOverSlot = some i ∧ k = (.breakpoint, i) ∧ s.steppingThread = t ∧ s.stepOverPc = pc

/-- The registers of a session are what its record says. -/
structure Kept (hw : Registers) (s : HwHookSession) : Prop where
  armed : ∀ t ∈ s.armedThreads,
    hw t s.slot = some s.register ∨ s.stepOverSlot.isSome ∧ s.steppingThread = t
  stepping : ∀ k, s.stepOverSlot = some k →
    hw s.steppingThread (.breakpoint, k) = some ⟨s.stepOverPc, true⟩

structure Wired (hw : Registers) (ss : List HwHookSession) : Prop where
  kept : ∀ s ∈ ss, Kept hw s
  planted : ∀ t k pc, hw t k = some ⟨pc, true⟩ → ∃ s ∈ ss, s.Plants t k pc

section

variable {hw hw' : Registers} {s : HwHookSession} {pre post mid : List HwHookSession}

theorem slot_mem_owns (s : HwHookSession) : s.slot ∈ s.owns := List.mem_cons_self

theorem HwHookSession.Plants.mem_owns {t pc : Nat} {k : Slot} (h : s.Plants t k pc) : k ∈ s.owns := by
  obtain ⟨i, hi, rfl, -, -⟩ := h
  simp [HwHookSession.owns, hi]

theorem stepOver_mem_owns {k : Nat} (h : s.stepOverSlot = some k) : (.breakpoint, k) ∈ s.owns := by
  simp [HwHookSession.owns, h]

/-- A session sees no more of the registers than the slots it owns. -/
theorem Kept.congr (h : Kept hw s) (heq : ∀ t, ∀ k ∈ s.owns, hw' t k = hw t k) : Kept hw' s where
  armed := by
    intro t ht
    rw [heq t _ (slot_mem_owns s)]
    exact h.armed t ht
  stepping := by
    intro k hk
    rw [heq _ _ (stepOver_mem_owns hk)]
    exact h.stepping k hk

/-- What stands in slots the other sessions do not own was planted by the sessions in the middle. -/
theorem Wired.planted_mid (h : Wired hw (pre ++ mid ++ post)) {k : Slot}
    (hothers : ∀ s ∈ pre ++ post, k ∉ s.owns) {t pc : Nat} (hk : hw t k = some ⟨pc, true⟩) :
    ∃ s ∈ mid, s.Plants t k pc := by
  obtain ⟨s, hs, hplants⟩ := h.planted t k pc hk
  refine ⟨s, ?_, hplants⟩
  rcases List.mem_append.mp hs with hs | hs
  · rcases List.mem_append.mp hs with hs | hs
    · exact absurd hplants.mem_owns (hothers s (List.mem_append_left _ hs))
    · exact hs
  · exact absurd hplants.mem_owns (hothers s (List.mem_append_right _ hs))

/-- The sessions in the middle and their registers change, on slots that no other session owns. -/
theorem Wired.change (h : Wired hw (pre ++ mid ++ post)) (hw' : Registers)
    (mid' : List HwHookSession) (K : List Slot)
    (hothers : ∀ s ∈ pre ++ post, ∀ k ∈ K, k ∉ s.owns)
    (howns : ∀ s ∈ mid, ∀ k ∈ s.owns, k ∈ K)
    (hoff : ∀ t k, k ∉ K → hw' t k = hw t k)
    (hkept : ∀ s ∈ mid', Kept hw' s)
    (hplanted : ∀ t, ∀ k ∈ K, ∀ pc, hw' t k = some ⟨pc, true⟩ → ∃ s ∈ mid', s.Plants t k pc) :
    Wired hw' (pre ++ mid' ++ post) where
  kept := by
    have hother : ∀ s ∈ pre ++ post, s ∈ pre ++ mid ++ post → Kept hw' s := by
      intro s hs hs'
      exact (h.kept s hs').congr (fun t k hk => hoff t k (fun hK => hothers s hs k hK hk))
    intro s hs
    rcases List.mem_append.mp hs with hs | hs
    · rcases List.mem_append.mp hs with hs | hs
      · exact hother s (by simp [hs]) (by simp [hs])
      · exact hkept s hs
    · exact hother s (by simp [hs]) (by simp [hs])
  planted := by
    intro t k pc hk
    by_cases hK : k ∈ K
    · obtain ⟨s, hs, hplants⟩ := hplanted t k hK pc hk
      exact ⟨s, by simp [hs], hplants⟩
    · rw [hoff t k hK] at hk
      obtain ⟨s, hs, hplants⟩ := h.planted t k pc hk
      refine ⟨s, ?_, hplants⟩
      rcases List.mem_append.mp hs with hs | hs
      · rcases List.mem_append.mp hs with hs | hs
        · simp [hs]
        · exact absurd (howns s hs k hplants.mem_owns) hK
      · simp [hs]

/-! ## What a step does to the registers -/

theorem program_of_ne {tids : List Nat} {k k' : Slot} (r : Option Register) (t : Nat) (h : k' ≠ k) :
    hw.program tids k r t k' = hw t k' := if_neg (fun hand => h hand.2)

theorem program_of_notMem {tids : List Nat} (k k' : Slot) (r : Option Register) {t : Nat}
    (h : t ∉ tids) : hw.program tids k r t k' = hw t k' := if_neg (fun hand => h hand.1)

theorem program_self {tids : List Nat} (k : Slot) (r : Option Register) {t : Nat} (h : t ∈ tids) :
    hw.program tids k r t k = r := if_pos ⟨h, rfl⟩

/-- A register that is set and was not set by the program was set before. -/
theorem program_eq_some {tids : List Nat} {k k' : Slot} {r : Option Register} {t : Nat} {x : Register}
    (h : hw.program tids k r t k' = some x) (hr : r ≠ some x) :
    hw t k' = some x ∧ (t ∉ tids ∨ k' ≠ k) := by
  unfold Registers.program at h
  split at h
  · exact absurd h hr
  · rename_i hnot
    refine ⟨h, ?_⟩
    by_cases ht : t ∈ tids
    · exact .inr (fun hk => hnot ⟨ht, hk⟩)
    · exact .inl ht

/-- The other sessions own nothing of what a session owns. -/
def Apart (s : HwHookSession) (others : List HwHookSession) : Prop :=
  ∀ x ∈ others, ∀ k ∈ s.owns, k ∉ x.owns

theorem apart_of_nodup {others : List HwHookSession} (h : (s.owns ++ ownedBy others).Nodup) :
    Apart s others := by
  intro x hx k hk hk'
  exact (List.nodup_append.mp h).2.2 k hk k (List.mem_flatMap.mpr ⟨x, hx, hk'⟩) rfl

/-- The slot a session is assigned is not the one it steps over with. -/
theorem not_plants_slot (h : s.owns.Nodup) {t pc : Nat} : ¬ s.Plants t s.slot pc := by
  rintro ⟨i, hi, hslot, -, -⟩
  simp only [HwHookSession.owns, hi, Option.toList_some, List.map_cons, List.map_nil,
    List.nodup_cons, List.mem_singleton] at h
  exact h.1 hslot

theorem release_off {k : Slot} (t : Nat) (h : k ∉ s.owns) : hw.release s t k = hw t k := by
  have hslot : k ≠ s.slot := fun heq => h (heq ▸ slot_mem_owns s)
  unfold Registers.release
  rw [program_of_ne _ _ hslot]
  cases hk : s.stepOverSlot with
  | none => rfl
  | some i =>
    dsimp only
    split
    · exact program_of_ne _ _ (fun heq => h (heq ▸ stepOver_mem_owns hk))
    · rfl

theorem release_eq_some {t : Nat} {k : Slot} {x : Register} (h : hw.release s t k = some x) :
    hw t k = some x ∧ ∀ pc, 0 < s.steppingThread → ¬ s.Plants t k pc := by
  unfold Registers.release at h
  obtain ⟨h, -⟩ := program_eq_some h (by simp)
  cases hk : s.stepOverSlot with
  | none =>
    rw [hk] at h
    refine ⟨h, ?_⟩
    rintro pc - ⟨i, hi, -⟩
    exact absurd (hk.symm.trans hi) (by simp)
  | some i =>
    rw [hk] at h
    dsimp only at h
    split at h
    · obtain ⟨h, hnot⟩ := program_eq_some h (by simp)
      refine ⟨h, ?_⟩
      rintro pc - ⟨j, hj, hslot, hthread, -⟩
      obtain rfl := Option.some.inj (hk.symm.trans hj)
      rcases hnot with hnot | hnot
      · exact hnot (by simp [hthread])
      · exact hnot hslot
    · rename_i hpos
      exact ⟨h, fun pc h0 => absurd h0 hpos⟩

theorem Wired.release (h : Wired hw (pre ++ [s] ++ post)) (hsound : Sound s)
    (hapart : Apart s (pre ++ post)) : Wired (hw.release s) (pre ++ post) := by
  have hall := h.change (hw.release s) [] s.owns
    (fun x hx k hk => hapart x hx k hk) (fun x hx k hk => by rwa [← List.mem_singleton.mp hx])
    (fun t k hk => release_off t hk) (by simp) ?_
  · simpa using hall
  · intro t k hk pc hset
    obtain ⟨hbefore, hgone⟩ := release_eq_some hset
    obtain ⟨x, hx, hplants⟩ := h.planted_mid (fun y hy => hapart y hy k hk) hbefore
    obtain rfl := List.mem_singleton.mp hx
    -- the session steps over, so it has a thread, and the trap on it was taken away
    obtain ⟨i, hi, -⟩ := id hplants
    exact absurd hplants (hgone pc (hsound.stepping.mpr (by simp [hi])))

theorem Wired.comeBack (h : Wired hw (pre ++ [s] ++ post)) (hapart : Apart s (pre ++ post))
    (hnodup : s.owns.Nodup) {k : Nat} (hk : s.stepOverSlot = some k) {tid : Tid}
    (htid : s.steppingThread = tid.val) :
    Wired (hw.comeBack tid s)
      (pre ++ [{ s with stepOverSlot := none, stepOverPc := 0, steppingThread := 0 }] ++ post) := by
  have hslot : s.slot ≠ (.breakpoint, k) := by
    intro heq
    exact not_plants_slot hnodup ⟨k, hk, heq, htid, rfl⟩
  have hback : hw.comeBack tid s = (hw.program [tid.val] (.breakpoint, k) none).program [tid.val]
      s.slot (some s.register) := by
    unfold Registers.comeBack
    rw [hk]
  rw [hback]
  refine h.change _ _ s.owns (fun x hx k hk => hapart x hx k hk)
    (fun x hx k hk => by rwa [← List.mem_singleton.mp hx]) ?_ ?_ ?_
  · intro t k' hoff
    have hne : k' ≠ s.slot := fun heq => hoff (heq ▸ slot_mem_owns s)
    have hne' : k' ≠ (.breakpoint, k) := fun heq => hoff (heq ▸ stepOver_mem_owns hk)
    rw [program_of_ne _ _ hne, program_of_ne _ _ hne']
  · intro x hx
    obtain rfl := List.mem_singleton.mp hx
    refine ⟨fun t ht => .inl ?_, fun i hi => absurd hi (by simp)⟩
    by_cases heq : t = tid.val
    · exact program_self _ _ (by simp [heq])
    · have hne : t ∉ [tid.val] := by simpa using heq
      rw [program_of_notMem _ _ _ hne, program_of_notMem _ _ _ hne]
      rcases (h.kept s (by simp)).armed t ht with harmed | ⟨-, hstepping⟩
      · exact harmed
      · exact absurd (hstepping.symm.trans htid) heq
  · intro t k' hk' pc hset
    obtain ⟨hset, hnot⟩ := program_eq_some hset (by simp [HwHookSession.register])
    obtain ⟨hset, hnot'⟩ := program_eq_some hset (by simp)
    obtain ⟨x, hx, hplants⟩ := h.planted_mid (fun y hy => hapart y hy k' hk') hset
    obtain rfl := List.mem_singleton.mp hx
    obtain ⟨i, hi, hk'', hthread, -⟩ := hplants
    obtain rfl := Option.some.inj (hk.symm.trans hi)
    rcases hnot' with hnot' | hnot'
    · exact absurd (by simp [← hthread, htid]) hnot'
    · exact absurd hk'' hnot'

/-- A thread of a session that does not step over yet begins to, with a slot nobody owns. -/
theorem Wired.stepOver (h : Wired hw (pre ++ [s] ++ post)) (hapart : Apart s (pre ++ post))
    (hnone : s.stepOverSlot = none) {slot : Nat}
    (hfree : ∀ x ∈ pre ++ post, (.breakpoint, slot) ∉ x.owns)
    (pc : Nat) (tid : Tid) :
    Wired ((hw.program [tid.val] s.slot none).program [tid.val] (.breakpoint, slot) (some ⟨pc, true⟩))
      (pre ++ [{ s with stepOverSlot := some slot, stepOverPc := pc, steppingThread := tid.val }] ++
        post) := by
  have hothers : ∀ x ∈ pre ++ post, ∀ k ∈ (.breakpoint, slot) :: s.owns, k ∉ x.owns := by
    intro x hx k hk
    rcases List.mem_cons.mp hk with rfl | hk
    · exact hfree x hx
    · exact hapart x hx k hk
  refine h.change _ _ ((.breakpoint, slot) :: s.owns) hothers
    (fun x hx k hk => List.mem_cons_of_mem _ (by rwa [← List.mem_singleton.mp hx])) ?_ ?_ ?_
  · intro t k' hoff
    rw [program_of_ne _ _ (fun heq => hoff (by simp [heq])),
      program_of_ne _ _ (fun heq => hoff (by simp [heq, slot_mem_owns]))]
  · intro x hx
    obtain rfl := List.mem_singleton.mp hx
    refine ⟨fun t ht => ?_, fun i hi => ?_⟩
    · by_cases heq : t = tid.val
      · exact .inr ⟨rfl, heq.symm⟩
      · have hne : t ∉ [tid.val] := by simpa using heq
        rw [program_of_notMem _ _ _ hne, program_of_notMem _ _ _ hne]
        rcases (h.kept s (by simp)).armed t ht with harmed | ⟨hsome, -⟩
        · exact .inl harmed
        · rw [hnone] at hsome
          exact absurd hsome (by simp)
    · obtain rfl := Option.some.inj hi
      exact program_self _ _ (by simp)
  · intro t k' hk' pc' hset
    by_cases hnew : (some ⟨pc, true⟩ : Option Register) = some ⟨pc', true⟩ ∧ t ∈ [tid.val] ∧
        k' = (.breakpoint, slot)
    · obtain ⟨hpc, ht, rfl⟩ := hnew
      exact ⟨_, List.mem_singleton_self _, slot, rfl, rfl, (List.mem_singleton.mp ht).symm,
        by simpa using hpc⟩
    · -- what stood there before was planted by this session, which did not step over
      have hbefore : hw t k' = some ⟨pc', true⟩ := by
        unfold Registers.program at hset
        split at hset
        · rename_i hboth
          exact absurd ⟨hset, hboth.1, hboth.2⟩ hnew
        · split at hset
          · exact absurd hset (by simp)
          · exact hset
      obtain ⟨x, hx, i, hi, -⟩ := h.planted_mid (fun y hy => hothers y hy k' hk') hbefore
      rw [List.mem_singleton.mp hx, hnone] at hi
      exact absurd hi (by simp)

theorem Wired.arm (h : Wired hw (pre ++ [s] ++ post)) (hapart : Apart s (pre ++ post))
    (hnodup : s.owns.Nodup) (tids : List Nat) :
    Wired (hw.program tids s.slot (some s.register))
      (pre ++ [{ s with armedThreads := s.armedThreads ++ tids }] ++ post) := by
  have hold := h.kept s (by simp)
  refine h.change _ _ s.owns (fun x hx k hk => hapart x hx k hk)
    (fun x hx k hk => by rwa [← List.mem_singleton.mp hx]) ?_ ?_ ?_
  · intro t k hoff
    exact program_of_ne _ _ (fun heq => hoff (heq ▸ slot_mem_owns s))
  · intro x hx
    obtain rfl := List.mem_singleton.mp hx
    refine ⟨fun t ht => ?_, fun k hk => ?_⟩
    · by_cases hnew : t ∈ tids
      · exact .inl (program_self _ _ hnew)
      · have hmem : t ∈ s.armedThreads := (List.mem_append.mp ht).resolve_right hnew
        rw [program_of_notMem _ _ _ hnew]
        exact hold.armed t hmem
    · have hne : (HwHookType.breakpoint, k) ≠ s.slot :=
        fun heq => not_plants_slot hnodup ⟨k, hk, heq.symm, rfl, rfl⟩
      rw [program_of_ne _ _ hne]
      exact hold.stepping k hk
  · intro t k hk pc hset
    obtain ⟨hset, -⟩ := program_eq_some hset (by simp [HwHookSession.register])
    obtain ⟨x, hx, hplants⟩ := h.planted_mid (fun y hy => hapart y hy k hk) hset
    obtain rfl := List.mem_singleton.mp hx
    exact ⟨_, List.mem_singleton_self _, hplants⟩

/-- A session that fires once and does not step over goes, with its registers on some threads. -/
theorem Wired.once (h : Wired hw (pre ++ [s] ++ post)) (hapart : Apart s (pre ++ post))
    (hnone : s.stepOverSlot = none) (tids : List Nat) :
    Wired (hw.program tids s.slot none) (pre ++ post) := by
  have hall := h.change (hw.program tids s.slot none) [] s.owns
    (fun x hx k hk => hapart x hx k hk) (fun x hx k hk => by rwa [← List.mem_singleton.mp hx])
    (fun t k hoff => program_of_ne _ _ (fun heq => hoff (heq ▸ slot_mem_owns s))) (by simp) ?_
  · simpa using hall
  · intro t k hk pc hset
    obtain ⟨hset, -⟩ := program_eq_some hset (by simp)
    obtain ⟨x, hx, i, hi, -⟩ := h.planted_mid (fun y hy => hapart y hy k hk) hset
    rw [List.mem_singleton.mp hx, hnone] at hi
    exact absurd hi (by simp)

theorem Wired.attach {ss : List HwHookSession} (h : Wired hw ss) (hnone : s.stepOverSlot = none)
    (hfree : ∀ x ∈ ss, s.slot ∉ x.owns) :
    Wired (hw.program s.armedThreads s.slot (some s.register)) (ss ++ [s]) := by
  have h' : Wired hw (ss ++ [] ++ []) := by simpa using h
  have hall := h'.change (hw.program s.armedThreads s.slot (some s.register)) [s] [s.slot]
    (fun x hx k hk => by
      rw [List.mem_singleton.mp hk]
      exact hfree x (by simpa using hx)) (by simp)
    (fun t k hoff => program_of_ne _ _ (by simpa using hoff)) ?_ ?_
  · simpa using hall
  · intro x hx
    obtain rfl := List.mem_singleton.mp hx
    refine ⟨fun t ht => .inl (program_self _ _ ht), fun k hk => ?_⟩
    exact absurd (hnone.symm.trans hk) (by simp)
  · intro t k hk pc hset
    obtain ⟨hset, -⟩ := program_eq_some hset (by simp [HwHookSession.register])
    have hmid := h'.planted_mid (fun x hx => by
      rw [List.mem_singleton.mp hk]
      exact hfree x (by simpa using hx)) hset
    exact absurd hmid (by simp)

/-! ## All sessions at once -/

theorem Apart.of_ownedBy_nodup (h : (ownedBy (pre ++ s :: post)).Nodup) :
    Apart s (pre ++ post) ∧ s.owns.Nodup ∧ (ownedBy (pre ++ post)).Nodup := by
  have hperm := (ownedBy_middle pre post s).nodup_iff.mp h
  exact ⟨apart_of_nodup hperm, (List.nodup_append.mp hperm).1, (List.nodup_append.mp hperm).2.1⟩

theorem Wired.releaseAll {ss : List HwHookSession} (h : Wired hw ss) (hsound : ∀ s ∈ ss, Sound s)
    (hnodup : (ownedBy ss).Nodup) : Wired (ss.foldl Registers.release hw) [] := by
  induction ss generalizing hw with
  | nil => exact h
  | cons s ss ih =>
    have hnodup' : (ownedBy ([] ++ s :: ss)).Nodup := hnodup
    have h' : Wired hw ([] ++ [s] ++ ss) := h
    obtain ⟨hapart, -, hrest⟩ := Apart.of_ownedBy_nodup hnodup'
    have hreleased := h'.release (hsound s (by simp)) hapart
    exact ih hreleased (fun x hx => hsound x (by simp [hx])) hrest

/-- The record of a session behind `rearmMissingThreads`. -/
def HwHookSession.rearmed (s : HwHookSession) (tids armable : List Nat) : HwHookSession :=
  if s.active then { s with armedThreads := s.armedThreads ++ s.missing tids armable } else s

theorem rearmed_owns (s : HwHookSession) (tids armable : List Nat) :
    (s.rearmed tids armable).owns = s.owns := by
  unfold HwHookSession.rearmed
  split <;> rfl

/-- The sessions in front are armed already, those behind not yet. -/
theorem Wired.rearmAll {ss : List HwHookSession} (tids armable : List Nat)
    (h : Wired hw (pre ++ ss)) (hnodup : (ownedBy (pre ++ ss)).Nodup) :
    Wired (ss.foldl (fun hw s => Registers.rearm hw tids armable s) hw)
      (pre ++ ss.map (fun s => s.rearmed tids armable)) := by
  induction ss generalizing hw pre with
  | nil => simpa using h
  | cons s ss ih =>
    obtain ⟨hapart, hown, -⟩ := Apart.of_ownedBy_nodup hnodup
    have h' : Wired hw (pre ++ [s] ++ ss) := by simpa using h
    have hone : Wired (Registers.rearm hw tids armable s)
        (pre ++ [s.rearmed tids armable] ++ ss) := by
      unfold Registers.rearm HwHookSession.rearmed
      split
      · exact h'.arm hapart hown _
      · exact h'
    have howned : ownedBy (pre ++ [s.rearmed tids armable] ++ ss) = ownedBy (pre ++ s :: ss) := by
      simp [ownedBy, rearmed_owns]
    have hrest := ih hone (by rwa [howned])
    simpa using hrest

end

/-! ## One step -/

/-- A session of the list waits for the trap. -/
def Awaited (ss : List HwHookSession) (r : Trap) : Prop :=
  ∃ s ∈ ss, stepsOver r.tid r.pc r.pc s = true

/-- The table of slots is right, the registers are what the records say, and the traps that are raised
    are recorded. -/
structure World.Inv (w : World) : Prop where
  mgr : HwHook.Inv w.mgr
  wired : Wired w.hw w.mgr.sessions
  raised : ∀ r ∈ w.raised, Awaited w.mgr.sessions r

theorem World.Inv.init : World.Inv {} := ⟨HwHook.Inv.init, ⟨by simp, by simp⟩, by simp⟩

section

variable {m : HwHookManager} {hw : Registers}

theorem freeSlot_sessions (type : HwHookType) (slot : Nat) :
    (m.freeSlot type slot).sessions = m.sessions := by
  unfold freeSlot
  split <;> rfl

/-- A session of the list, and that the others own nothing of what it owns. -/
theorem Inv.split_apart (h : Inv m) {s : HwHookSession} (hs : s ∈ m.sessions) :
    ∃ pre post, m.sessions = pre ++ s :: post ∧ (∀ x ∈ pre, x.ref ≠ s.ref) ∧
      Apart s (pre ++ post) ∧ s.owns.Nodup := by
  obtain ⟨pre, post, hsplit, hpre⟩ := h.split hs
  have hnodup : (ownedBy (pre ++ s :: post)).Nodup := by
    rw [← hsplit]
    exact h.accounted.nodup
  obtain ⟨hapart, hown, -⟩ := Apart.of_ownedBy_nodup hnodup
  exact ⟨pre, post, hsplit, hpre, hapart, hown⟩

theorem Inv.free (h : Inv m) {k : Slot} (hfree : m.slots k = false) : ∀ x ∈ m.sessions, k ∉ x.owns := by
  intro x hx hk
  have hmarked := (h.accounted.marked k).mpr (List.mem_flatMap.mpr ⟨x, hx, hk⟩)
  rw [hfree] at hmarked
  exact absurd hmarked (by simp)

theorem Wired.attach_step (h : Inv m) (hw' : Wired hw m.sessions) (config : HwHookConfig)
    (tids armable : List Nat) :
    Wired (hw.attach m config tids armable) (m.attach config tids armable).sessions := by
  unfold Registers.attach HwHookManager.attach
  split
  · exact hw'
  split
  · exact hw'
  cases halloc : m.allocateSlot config.type config.slot with
  | none => exact hw'
  | some slot =>
    have hfree := h.free (allocateSlot_spec halloc).1
    dsimp only
    generalize (if config.threadId > 0 then [config.threadId] else tids) = wanted
    generalize wanted.filter (· ∈ armable) = armed
    split
    · -- no thread could be armed, so no register was set
      rename_i hnobody
      rw [freeSlot_sessions, hnobody.1]
      have : hw.program [] (config.type, slot) (some { addr := config.address }) = hw := by
        funext t k
        exact program_of_notMem _ _ _ (by simp)
      rw [this]
      exact hw'
    · let s : HwHookSession := ⟨m.nextRef, m.nextId, config, slot, true, armed, none, 0, 0⟩
      have hnone : s.stepOverSlot = none := rfl
      exact hw'.attach hnone hfree

theorem Wired.detach_step (h : Inv m) (hw' : Wired hw m.sessions) (id : Nat) :
    Wired (hw.detach m id) (m.detach id).sessions := by
  unfold Registers.detach HwHookManager.detach
  cases hfind : m.sessions.find? (fun s => s.id = id) with
  | none => exact hw'
  | some s =>
    obtain ⟨hid, pre, post, hsplit, hpre⟩ := List.find?_eq_some_iff_append.mp hfind
    have hs : s ∈ m.sessions := List.mem_of_find?_eq_some hfind
    have hnodup := h.accounted.nodup
    rw [hsplit] at hnodup hw'
    dsimp only
    rw [hsplit, eraseP_split post (fun x hx => by simpa using hpre x hx) hid]
    exact Wired.release (by simpa using hw') (h.sound s hs) (Apart.of_ownedBy_nodup hnodup).1

theorem Wired.enter_step (h : Inv m) (hw' : Wired hw m.sessions) (tid : Tid)
    (faultAddr pcAddr memAddr : Nat) :
    Wired (hw.enter m tid faultAddr pcAddr memAddr) (m.enter tid faultAddr pcAddr memAddr).sessions := by
  unfold Registers.enter HwHookManager.enter
  cases hstep : m.sessions.find? (stepsOver tid faultAddr pcAddr) with
  | some s =>
    have hs : s ∈ m.sessions := List.mem_of_find?_eq_some hstep
    have hthread : s.steppingThread = tid.val := by
      have := List.find?_some hstep
      simp only [stepsOver, Bool.and_eq_true, decide_eq_true_eq] at this
      exact this.1.2
    have hsome := (h.sound s hs).stepping.mp (by rw [hthread]; exact tid.property)
    obtain ⟨k, hk⟩ := Option.isSome_iff_exists.mp hsome
    obtain ⟨pre, post, hsplit, hpre, hapart, hown⟩ := h.split_apart hs
    rw [hsplit] at hw'
    have hback := Wired.comeBack (by simpa using hw') hapart hown hk hthread
    simp only [hk, HwHookManager.update, setSlot, hsplit, updateFirst_split _ post hpre]
    simpa using hback
  | none =>
    cases hhit : m.sessions.find? (hits faultAddr pcAddr memAddr) with
    | none => exact hw'
    | some s =>
      dsimp only
      cases honce : s.config.once with
      | false => exact hw'
      | true =>
        have hs : s ∈ m.sessions := List.mem_of_find?_eq_some hhit
        obtain ⟨pre, post, hsplit, hpre, hapart, -⟩ := h.split_apart hs
        rw [hsplit] at hw'
        rw [if_pos rfl, if_pos rfl]
        dsimp only
        rw [hsplit, eraseP_split post (fun x hx => by simpa using hpre x hx) (by simp)]
        exact Wired.once (by simpa using hw') hapart ((h.sound s hs).once honce) _

theorem Wired.leave_step (h : Inv m) (hw' : Wired hw m.sessions) {i insn : Nat} {ctx : CpuContext}
    (hok : Op.stepsFree m (.leave i insn ctx)) :
    Wired (hw.leave m i insn ctx) (m.leave i insn ctx).sessions := by
  unfold Registers.leave HwHookManager.leave
  cases hflight : m.inFlight[i]? with
  | none => exact hw'
  | some flight =>
    dsimp only
    cases honce : flight.once with
    | true => exact hw'
    | false =>
      rw [if_neg (by simp), if_neg (by simp)]
      cases hfind : m.sessions.find? (fun s => s.ref = flight.ref) with
      | none => exact hw'
      | some s =>
        have hs : s ∈ m.sessions := List.mem_of_find?_eq_some hfind
        have hactive := (h.sound s hs).active
        obtain ⟨hnone, hslot⟩ := hok flight hflight honce s hfind hactive
        obtain ⟨slot, hslot⟩ := Option.isSome_iff_exists.mp hslot
        have hfree := h.free (stepSlot_spec hslot)
        obtain ⟨pre, post, hsplit, hpre, hapart, -⟩ := h.split_apart hs
        have hsame : stepSlot { m with inFlight := m.inFlight.eraseIdx i } s = some slot := hslot
        have hmid : Wired hw (pre ++ [s] ++ post) := by
          rw [hsplit] at hw'
          simpa using hw'
        have hothers : ∀ x ∈ pre ++ post, (.breakpoint, slot) ∉ x.owns := by
          intro x hx
          refine hfree x ?_
          rw [hsplit]
          rcases List.mem_append.mp hx with hx | hx <;> simp [hx]
        have hover := hmid.stepOver hapart hnone hothers (s.stepPc flight insn ctx) flight.tid
        dsimp only
        rw [hactive, if_neg (by simp), if_neg (by simp), hslot, hsame]
        -- both kinds of session step over alike, to the place `stepPc` says
        cases htype : s.config.type with
        | breakpoint =>
          simp only [HwHookManager.stepOver, HwHookManager.update, setSlot, hsplit,
            updateFirst_split _ post hpre]
          simpa [HwHookSession.stepPc, htype] using hover
        | watchpoint =>
          simp only [HwHookManager.stepOver, HwHookManager.update, setSlot, hsplit,
            updateFirst_split _ post hpre]
          simpa [HwHookSession.stepPc, htype] using hover

/-! ### The traps that are raised -/

/-- A session that waits for a trap steps over, so it is none that begins to or that fires once. -/
theorem stepsOver_isSome (h : Inv m) {s : HwHookSession} (hs : s ∈ m.sessions) {tid : Tid}
    {faultAddr pcAddr : Nat} (hover : stepsOver tid faultAddr pcAddr s = true) :
    s.stepOverSlot.isSome := by
  simp only [stepsOver, Bool.and_eq_true, decide_eq_true_eq] at hover
  refine (h.sound s hs).stepping.mp ?_
  rw [hover.1.2]
  exact tid.property

/-- It is not a session that is there and steps over nothing. -/
theorem ref_ne_of_idle (h : Inv m) {s s' : HwHookSession} (hs : s ∈ m.sessions) (hs' : s' ∈ m.sessions) {tid : Tid}
    {faultAddr pcAddr : Nat} (hover : stepsOver tid faultAddr pcAddr s = true) (hidle : s'.stepOverSlot = none) :
    s.ref ≠ s'.ref := by
  intro heq
  obtain rfl := h.ref_eq hs' hs heq
  have hsome := stepsOver_isSome h hs hover
  rw [hidle] at hsome
  exact absurd hsome (by simp)

theorem mem_updateFirst {s : HwHookSession} {ref : Nat} (f : HwHookSession → HwHookSession)
    {ss : List HwHookSession} (hs : s ∈ ss) (hne : s.ref ≠ ref) : s ∈ updateFirst ref f ss := by
  induction ss with
  | nil => exact hs
  | cons x ss ih =>
    unfold updateFirst
    rcases List.mem_cons.mp hs with rfl | hs
    · rw [if_neg hne]
      exact List.mem_cons_self
    · split
      · exact List.mem_cons_of_mem _ hs
      · exact List.mem_cons_of_mem _ (ih hs)

theorem Awaited.attach {r : Trap} (h : Awaited m.sessions r) (config : HwHookConfig)
    (tids armable : List Nat) : Awaited (m.attach config tids armable).sessions r := by
  obtain ⟨s, hs, hover⟩ := h
  refine ⟨s, ?_, hover⟩
  unfold HwHookManager.attach
  split
  · exact hs
  split
  · exact hs
  cases m.allocateSlot config.type config.slot with
  | none => exact hs
  | some slot =>
    dsimp only
    generalize (if config.threadId > 0 then [config.threadId] else tids) = wanted
    split
    · rw [freeSlot_sessions]
      exact hs
    · exact List.mem_append_left _ hs

theorem Awaited.rearm {r : Trap} (h : Awaited m.sessions r) (tids armable : List Nat) :
    Awaited (m.rearmMissingThreads tids armable).sessions r := by
  obtain ⟨s, hs, hover⟩ := h
  refine ⟨_, List.mem_map_of_mem hs, ?_⟩
  split
  · exact hover
  · exact hover

theorem Awaited.enter (h : Inv m) {r : Trap} (hr : Awaited m.sessions r) {tid : Tid}
    {faultAddr pcAddr : Nat} (memAddr : Nat)
    (hother : ¬ (r.tid = tid ∧ (r.pc = faultAddr ∨ r.pc = pcAddr))) :
    Awaited (m.enter tid faultAddr pcAddr memAddr).sessions r := by
  obtain ⟨s, hs, hover⟩ := hr
  refine ⟨s, ?_, hover⟩
  unfold HwHookManager.enter
  cases hstep : m.sessions.find? (stepsOver tid faultAddr pcAddr) with
  | some s' =>
    -- the session that comes back waited for another trap
    have hs' : s' ∈ m.sessions := List.mem_of_find?_eq_some hstep
    have hne : s.ref ≠ s'.ref := by
      intro heq
      obtain rfl := h.ref_eq hs' hs heq
      have hover' := List.find?_some hstep
      simp only [stepsOver, Bool.and_eq_true, Bool.or_eq_true, decide_eq_true_eq, or_self]
        at hover hover'
      refine hother ⟨Subtype.ext (hover.1.2.symm.trans hover'.1.2), ?_⟩
      rw [← hover.2]
      exact hover'.2
    refine mem_updateFirst _ ?_ hne
    split
    · exact hs
    · exact hs
  | none =>
    cases hhit : m.sessions.find? (hits faultAddr pcAddr memAddr) with
    | none => exact hs
    | some s' =>
      dsimp only
      cases honce : s'.config.once with
      | false => exact hs
      | true =>
        have hs' : s' ∈ m.sessions := List.mem_of_find?_eq_some hhit
        have hne := ref_ne_of_idle h hs hs' hover ((h.sound s' hs').once honce)
        exact (List.mem_eraseP_of_neg (by simpa using hne)).mpr hs

theorem Awaited.leave (h : Inv m) {r : Trap} (hr : Awaited m.sessions r) {i insn : Nat}
    {ctx : CpuContext} (hok : Op.stepsFree m (.leave i insn ctx)) :
    Awaited (m.leave i insn ctx).sessions r := by
  obtain ⟨s, hs, hover⟩ := hr
  refine ⟨s, ?_, hover⟩
  unfold HwHookManager.leave
  cases hflight : m.inFlight[i]? with
  | none => exact hs
  | some flight =>
    dsimp only
    cases honce : flight.once with
    | true => exact hs
    | false =>
      rw [if_neg (by simp)]
      cases hfind : m.sessions.find? (fun s => s.ref = flight.ref) with
      | none => exact hs
      | some s' =>
        -- the session of the call does not step over yet
        have hs' : s' ∈ m.sessions := List.mem_of_find?_eq_some hfind
        have hactive := (h.sound s' hs').active
        have hne := ref_ne_of_idle h hs hs' hover (hok flight hflight honce s' hfind hactive).1
        dsimp only
        rw [hactive, if_neg (by simp)]
        split
        · exact hs
        · exact mem_updateFirst _ hs hne
        · exact mem_updateFirst _ hs hne
        · rw [freeSlot_sessions]
          exact mem_updateFirst _ hs hne

theorem World.Inv.raised_locked {w : World} {op : Op} (h : w.Inv) (hok : op.stepsFree w.mgr)
    (htraps : op.leavesTraps w) : ∀ r ∈ (w.locked op).raised, Awaited (w.locked op).mgr.sessions r := by
  intro r hr
  cases op with
  | attach config tids armable => exact (h.raised r hr).attach config tids armable
  | detach id =>
    obtain ⟨s, hs, hover⟩ := List.any_eq_true.mp (htraps r hr)
    refine ⟨s, ?_, hover⟩
    simp only [World.locked, HwHook.step]
    rwa [detach_sessions]
  | detachAll =>
    have hnone : w.raised = [] := htraps
    have hmem : r ∈ w.raised := hr
    rw [hnone] at hmem
    exact absurd hmem (by simp)
  | refreshCapacity bp wp => exact h.raised r hr
  | rearmMissingThreads tids armable => exact (h.raised r hr).rearm tids armable
  | enter tid faultAddr pcAddr memAddr =>
    obtain ⟨hmem, hother⟩ := List.mem_filter.mp hr
    refine Awaited.enter h.mgr (h.raised r hmem) memAddr (fun hsame => ?_)
    exact absurd hsame.2 (by simpa [hsame.1] using hother)
  | leave flight insn ctx => exact (h.raised r hr).leave h.mgr hok

theorem World.Inv.locked {w : World} {op : Op} (h : w.Inv) (hok : op.stepsFree w.mgr)
    (htraps : op.leavesTraps w) : (w.locked op).Inv where
  mgr := h.mgr.step op hok.stepsOnce
  wired := by
    cases op with
    | attach config tids armable => exact h.wired.attach_step h.mgr config tids armable
    | detach id => exact h.wired.detach_step h.mgr id
    | detachAll => exact h.wired.releaseAll h.mgr.sound h.mgr.accounted.nodup
    | refreshCapacity bp wp => exact h.wired
    | rearmMissingThreads tids armable =>
      have hall : Wired w.hw ([] ++ w.mgr.sessions) := h.wired
      exact hall.rearmAll tids armable h.mgr.accounted.nodup
    | enter tid faultAddr pcAddr memAddr => exact h.wired.enter_step h.mgr tid faultAddr pcAddr memAddr
    | leave flight insn ctx => exact h.wired.leave_step h.mgr hok
  raised := h.raised_locked hok htraps

/-- What a register was planted for is recorded, so the trap it raises is. -/
theorem World.Inv.awaits {w : World} (h : w.Inv) {tid : Tid} {k : Slot} {pc : Nat}
    (hset : w.hw tid.val k = some ⟨pc, true⟩) {faultAddr pcAddr : Nat}
    (hpc : pc = faultAddr ∨ pc = pcAddr) :
    ∃ s ∈ w.mgr.sessions, stepsOver tid faultAddr pcAddr s = true := by
  obtain ⟨s, hs, i, -, -, hthread, hover⟩ := h.wired.planted tid.val k pc hset
  refine ⟨s, hs, ?_⟩
  simp only [stepsOver, (h.mgr.sound s hs).active, hthread, hover, Bool.and_eq_true,
    Bool.or_eq_true, decide_eq_true_eq, true_and]
  exact hpc

theorem World.Inv.trap {w : World} (h : w.Inv) (tid : Tid) (k : Slot) : (w.trap tid k).Inv := by
  unfold World.trap
  split
  · rename_i pc hset
    split
    · exact h
    · refine ⟨h.mgr, h.wired, fun r hr => ?_⟩
      rcases List.mem_append.mp hr with hr | hr
      · exact h.raised r hr
      · rw [List.mem_singleton.mp hr]
        exact h.awaits hset (.inl rfl)
  · exact h

theorem World.Inv.step {w : World} (e : Event) (h : w.Inv) (hok : e.orderly w) : (w.step e).Inv := by
  cases e with
  | op op => exact h.locked hok.1 hok.2
  | trap tid k => exact h.trap tid k

end

/-! ## Every run -/

/-- A session that waits for a trap on a thread is the answer to it, or another one is. -/
theorem World.comesBack {w : World} {s : HwHookSession} {tid : Tid} {faultAddr pcAddr : Nat}
    (hs : s ∈ w.mgr.sessions) (hover : stepsOver tid faultAddr pcAddr s = true) :
    ∃ s', w.mgr.sessions.find? (stepsOver tid faultAddr pcAddr) = some s' ∧
      ∀ memAddr, w.answer tid faultAddr pcAddr memAddr = 1 ∧
        (w.step (.op (.enter tid faultAddr pcAddr memAddr))).hw tid.val s'.slot = some s'.register := by
  obtain ⟨s', hs'⟩ := Option.isSome_iff_exists.mp (List.find?_isSome.mpr ⟨s, hs, hover⟩)
  refine ⟨s', hs', fun memAddr => ⟨?_, ?_⟩⟩
  · unfold World.answer
    simp [hs']
  · simp only [World.step, World.locked, Registers.enter, hs', Registers.comeBack]
    exact program_self _ _ (by simp)

theorem World.Inv.staysArmed {w : World} (h : w.Inv) : w.StaysArmed where
  armed := by
    intro s hs hactive honce t ht
    have hkept := h.wired.kept s hs
    rcases hkept.armed t ht with harmed | ⟨hsome, hthread⟩
    · exact .inl harmed
    · obtain ⟨k, hk⟩ := Option.isSome_iff_exists.mp hsome
      have hpos : 0 < t := by
        rw [← hthread]
        exact (h.mgr.sound s hs).stepping.mpr hsome
      have hset := hkept.stepping k hk
      rw [hthread] at hset
      have hover : stepsOver ⟨t, hpos⟩ s.stepOverPc s.stepOverPc s = true := by
        simp [stepsOver, hactive, hthread]
      obtain ⟨s', hfind, hback⟩ := w.comesBack hs hover
      refine .inr ⟨⟨t, hpos⟩, k, rfl, hk, hthread, hset, fun memAddr => ?_⟩
      exact ⟨(hback memAddr).1, s', List.mem_of_find?_eq_some hfind, List.find?_some hfind,
        (hback memAddr).2⟩
  planted := by
    intro tid k pc hset faultAddr pcAddr memAddr hpc
    obtain ⟨s, hs, hover⟩ := h.awaits hset hpc
    obtain ⟨s', -, hback⟩ := w.comesBack hs hover
    exact (hback memAddr).1
  raised := by
    intro r hr memAddr
    obtain ⟨s, hs, hover⟩ := h.raised r hr
    obtain ⟨s', -, hback⟩ := w.comesBack hs hover
    exact (hback memAddr).1

/-- In every run in which no session steps over twice at a time, every session finds a slot to step
    over with and none goes while a trap of it is raised, the recurring sessions stay armed. -/
theorem run_staysArmed (events : List Event)
    (hevents : Along World.step (fun w e => e.orderly w) {} events) :
    (run World.step {} events).StaysArmed :=
  (Along.invariant (fun _ e h hok => h.step e hok) World.Inv.init hevents).staysArmed

/-- Two threads take turns, and the first one waits for the lock with its trap. -/
def turnsTrapped : List Event :=
  [.op (.attach (breakAt 0x4000) [12, 13] [12, 13]), .op (.enter ⟨12, by decide⟩ 0x4000 0x4000 0),
    .op (.leave 0 0 {}), .trap ⟨12, by decide⟩ (.breakpoint, 1), .op (.enter ⟨12, by decide⟩ 0x4004 0x4004 0),
    .op (.enter ⟨13, by decide⟩ 0x4000 0x4000 0), .op (.leave 0 0 {})]

/-- One is back, and the other one steps over. -/
theorem turns_staysArmed :
    (run World.step {} turnsTrapped).StaysArmed ∧
      (run World.step {} (turnsTrapped.take 4)).raised = [⟨⟨12, by decide⟩, 0x4004⟩] ∧
      (run World.step {} turnsTrapped).hw 12 (.breakpoint, 0) = some ⟨0x4000, false⟩ ∧
      (run World.step {} turnsTrapped).hw 13 (.breakpoint, 1) = some ⟨0x4004, true⟩ :=
  ⟨run_staysArmed turnsTrapped (by decide), by decide, by decide,
    by decide⟩

/-- Six breakpoints take all slots, and the first of them is hit. -/
def crowded : List Op :=
  (List.range 6).map (fun i => .attach (breakAt (0x4000 + 4 * i)) [12] [12]) ++
    [.enter ⟨12, by decide⟩ 0x4000 0x4000 0, .leave 0 0 {}]

/-- A thread steps over, and its session is detached while the trap waits for the lock. -/
def detachedRaised : List Event :=
  [.op (.attach (breakAt 0x4000) [12] [12]), .op (.enter ⟨12, by decide⟩ 0x4000 0x4000 0),
    .op (.leave 0 0 {}), .trap ⟨12, by decide⟩ (.breakpoint, 1), .op (.detach 1)]

/-- The trap of the first of two threads is answered with 0; with no slot to step over with, the
    thread stays disarmed; and a trap that was raised before its session went is answered with 0. -/
theorem not_staysArmed :
    ¬ (run World.step {} (together.map .op)).StaysArmed ∧
      (run World.step {} (together.map .op)).answer ⟨10, by decide⟩ 0x4004 0x4004 0 = 0 ∧
      ¬ (run World.step {} (crowded.map .op)).StaysArmed ∧
      ¬ (run World.step {} detachedRaised).StaysArmed := by
  refine ⟨fun h => ?_, by decide, fun h => ?_, fun h => ?_⟩
  · have hset : (run World.step {} (together.map .op)).hw 10 (.breakpoint, 1) =
        some ⟨0x4004, true⟩ := by decide
    have hanswer := h.planted ⟨10, by decide⟩ _ _ hset 0x4004 0x4004 0 (.inl rfl)
    exact absurd hanswer (by decide)
  · -- the session is the first of the list, and remembers no step-over
    obtain ⟨s, hs⟩ : ∃ s, (run World.step {} (crowded.map .op)).mgr.sessions.head? = some s :=
      Option.isSome_iff_exists.mp (by decide)
    have hfacts : ∀ s ∈ (run World.step {} (crowded.map .op)).mgr.sessions.head?, s.active = true ∧
        s.config.once = false ∧ 12 ∈ s.armedThreads ∧ s.stepOverSlot = none ∧
          s.slot = (.breakpoint, 0) := by decide
    obtain ⟨hactive, honce, hthread, hnone, hslot⟩ := hfacts s hs
    rcases h.armed s (List.mem_of_mem_head? hs) hactive honce 12 hthread with hset | ⟨_, k, -, hk, -⟩
    · rw [hslot] at hset
      have hunset : (run World.step {} (crowded.map .op)).hw 12 (.breakpoint, 0) = none := by
        decide
      exact absurd (hunset.symm.trans hset) (by simp)
    · exact absurd (hnone.symm.trans hk) (by simp)
  · have hraised : ⟨⟨12, by decide⟩, 0x4004⟩ ∈ (run World.step {} detachedRaised).raised := by decide
    have hanswer := h.raised _ hraised 0
    exact absurd hanswer (by decide)

end ArtPi.HwHook
