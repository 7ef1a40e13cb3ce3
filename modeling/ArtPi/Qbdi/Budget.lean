import ArtPi.Jni.Dispatch
import ArtPi.Lib.Runs

set_option autoImplicit false

/-! # The budget of the emulator (`engine/native/qbdi/pi_qbdi_engine.cpp`)

A thread has one engine, with one counter, one budget and one flag for all its runs. The counter is kept in a callback
that is registered with the first instruction callback, and a callback may itself start a run.

One thread configures its engine and runs code here, the runs nested in each other. Every run has a record of what it
really does, which no step reads. -/

namespace ArtPi.Qbdi

open Lib
open Jni.Bridge (Status)

/-- Where a run is: in the code, in the instruction callback, in another callback, or stopped by the first one. -/
inductive Phase where
  | code
  | callback
  | observer
  | stopped
  deriving DecidableEq

/-- A run: the budget at its start, and the instrumented instructions that it has come to and those that it has
    executed. -/
structure Frame where
  budget : Nat
  met : Nat
  executed : Nat
  phase : Phase
  deriving DecidableEq

/-- The result of a run, with the run and what `vm.run` has returned. -/
structure Report where
  status : Status
  instructionsExecuted : Nat
  frame : Frame
  vmOk : Bool

/-- `Impl`, with the runs in progress, the innermost first, and the results so far. -/
structure QBDIEngine where
  budget : Nat
  executed : Nat
  aborted : Bool
  insnCb : Bool
  insnCbRegistered : Bool
  frames : List Frame
  reports : List Report

def QBDIEngine.init : QBDIEngine := ⟨0, 0, false, false, false, [], []⟩

namespace QBDIEngine

variable (s : QBDIEngine)

/-! ## Calls -/

/-- The thread is in its own code or in a callback. -/
def canCall : Bool :=
  match s.frames with
  | [] => true
  | f :: _ => f.phase = .callback || f.phase = .observer

def setInstructionBudget (maxInsns : Nat) : QBDIEngine := { s with budget := maxInsns }

def setInstructionCallback (cb : Bool) : QBDIEngine :=
  { s with insnCb := cb, insnCbRegistered := s.insnCbRegistered || cb }

def clearCallbacks : QBDIEngine := { s with insnCb := false }

/-- `run` up to `vm.run`, or to its end without a state or a stack. -/
def startRun (hasState hasStack : Bool) : QBDIEngine :=
  let s := { s with executed := 0, aborted := false }
  let f : Frame := ⟨s.budget, 0, 0, .code⟩
  if hasState && hasStack then { s with frames := f :: s.frames }
  else { s with reports := s.reports ++ [⟨.executionError, 0, f, false⟩] }

/-- `run` behind `vm.run`. -/
def endRun (f : Frame) (fs : List Frame) (ok : Bool) : QBDIEngine :=
  let status : Status :=
    if s.aborted then .maxInstructionsReached else if ¬ ok then .executionError else .ok
  { s with frames := fs, reports := s.reports ++ [⟨status, s.executed, f, ok⟩] }

/-! ## Instructions -/

/-- `budgetAndInsnTrampoline` up to the call of the callback. -/
def budgetAndInsnTrampoline (f : Frame) (fs : List Frame) : QBDIEngine :=
  let s := { s with executed := s.executed + 1 }
  let f := { f with met := f.met + 1 }
  if s.budget ≠ 0 ∧ s.budget < s.executed then
    { s with aborted := true, frames := { f with phase := .stopped } :: fs }
  else if s.insnCb then { s with frames := { f with phase := .callback } :: fs }
  else { s with frames := { f with executed := f.executed + 1 } :: fs }

/-- An instrumented instruction. -/
def insn (f : Frame) (fs : List Frame) : QBDIEngine :=
  if s.insnCbRegistered then s.budgetAndInsnTrampoline f fs
  else { s with frames := { f with met := f.met + 1, executed := f.executed + 1 } :: fs }

/-- The instruction callback returns. -/
def insnReturn (f : Frame) (fs : List Frame) (action : Int) : QBDIEngine :=
  if action ≠ 0 then { s with aborted := true, frames := { f with phase := .stopped } :: fs }
  else { s with frames := { f with executed := f.executed + 1, phase := .code } :: fs }

end QBDIEngine

inductive Event where
  | setInstructionBudget (maxInsns : Nat)
  | setInstructionCallback (cb : Bool)
  | clearCallbacks
  | run (hasState hasStack : Bool)
  | insn
  | insnReturn (action : Int)
  /-- a callback for memory accesses or behind an instruction -/
  | observe
  | observed
  /-- `vm.run` returns -/
  | finish (ok : Bool)

/-- What cannot happen in a state leaves it. -/
def QBDIEngine.step (s : QBDIEngine) : Event → QBDIEngine
  | .setInstructionBudget b => if s.canCall then s.setInstructionBudget b else s
  | .setInstructionCallback cb => if s.canCall then s.setInstructionCallback cb else s
  | .clearCallbacks => if s.canCall then s.clearCallbacks else s
  | .run hasState hasStack => if s.canCall then s.startRun hasState hasStack else s
  | .insn =>
    match s.frames with
    | [] => s
    | f :: fs => if f.phase = .code then s.insn f fs else s
  | .insnReturn action =>
    match s.frames with
    | [] => s
    | f :: fs => if f.phase = .callback then s.insnReturn f fs action else s
  | .observe =>
    match s.frames with
    | [] => s
    | f :: fs => if f.phase = .code then { s with frames := { f with phase := .observer } :: fs } else s
  | .observed =>
    match s.frames with
    | [] => s
    | f :: fs => if f.phase = .observer then { s with frames := { f with phase := .code } :: fs } else s
  | .finish ok =>
    match s.frames with
    | [] => s
    | f :: fs => if f.phase = .code ∨ f.phase = .stopped then s.endRun f fs ok else s

/-! ## The property and the condition -/

def Frame.Bounded (f : Frame) : Prop := f.budget ≠ 0 → f.executed ≤ f.budget

/-- The status and the number are those of the run. -/
def Report.Own (r : Report) : Prop :=
  r.instructionsExecuted = r.frame.met ∧
    r.status = if r.frame.phase = .stopped then .maxInstructionsReached
      else if ¬ r.vmOk then .executionError else .ok

structure QBDIEngine.Right (s : QBDIEngine) : Prop where
  bounded : ∀ f ∈ s.frames, f.Bounded
  reported : ∀ r ∈ s.reports, r.frame.Bounded ∧ r.Own

/-- Instrumented code runs with the counting callback in place, no run is started in another one, and the budget of a
    run is neither raised nor taken away while it goes on. -/
def Undisturbed (s : QBDIEngine) : Event → Prop
  | .insn => s.frames ≠ [] → s.insnCbRegistered
  | .run _ _ => s.canCall → s.frames = []
  | .setInstructionBudget b => ∀ f ∈ s.frames, f.budget ≠ 0 → b ≠ 0 ∧ b ≤ f.budget
  | _ => True

instance (s : QBDIEngine) (e : Event) : Decidable (Undisturbed s e) :=
  match e with
  | .insn => inferInstanceAs (Decidable (s.frames ≠ [] → s.insnCbRegistered = true))
  | .run _ _ => inferInstanceAs (Decidable (s.canCall = true → s.frames = []))
  | .setInstructionBudget b =>
    inferInstanceAs (Decidable (∀ f ∈ s.frames, f.budget ≠ 0 → b ≠ 0 ∧ b ≤ f.budget))
  | .setInstructionCallback _ => inferInstanceAs (Decidable True)
  | .clearCallbacks => inferInstanceAs (Decidable True)
  | .insnReturn _ => inferInstanceAs (Decidable True)
  | .observe => inferInstanceAs (Decidable True)
  | .observed => inferInstanceAs (Decidable True)
  | .finish _ => inferInstanceAs (Decidable True)

/-! ## The invariant -/

/-- The counter and the flag are those of the run, and the budget in force is no larger than its own. -/
structure Tracks (s : QBDIEngine) (f : Frame) : Prop where
  counted : s.executed = f.met
  aborted : s.aborted = decide (f.phase = .stopped)
  limit : f.budget ≠ 0 → s.budget ≠ 0 ∧ s.budget ≤ f.budget
  bounded : f.Bounded
  running : f.phase = .code ∨ f.phase = .observer → f.met = f.executed
  calling : f.phase = .callback → f.met = f.executed + 1 ∧ (f.budget ≠ 0 → f.met ≤ f.budget)

structure Inv (s : QBDIEngine) : Prop where
  reported : ∀ r ∈ s.reports, r.frame.Bounded ∧ r.Own
  tracks : ∀ f ∈ s.frames, s.frames = [f] ∧ Tracks s f

variable {s : QBDIEngine}

theorem Inv.right (h : Inv s) : s.Right where
  bounded f hf := (h.tracks f hf).2.bounded
  reported := h.reported

theorem inv_init : Inv QBDIEngine.init where
  reported _ hr := nomatch hr
  tracks _ hf := nomatch hf

theorem Inv.top (h : Inv s) {f : Frame} {fs : List Frame} (hframes : s.frames = f :: fs) : fs = [] ∧ Tracks s f := by
  obtain ⟨hone, htracks⟩ := h.tracks f (hframes ▸ List.mem_cons_self)
  rw [hframes] at hone
  exact ⟨(List.cons.inj hone).2, htracks⟩

theorem Inv.go (h : Inv s) {t : QBDIEngine} {f : Frame} (hreports : t.reports = s.reports) (hframes : t.frames = [f])
    (htracks : Tracks t f) : Inv t where
  reported := hreports ▸ h.reported
  tracks g hg := by
    rw [hframes] at hg ⊢
    rw [List.mem_singleton.1 hg]
    exact ⟨rfl, htracks⟩

theorem Inv.insn (h : Inv s) {f : Frame} {fs : List Frame} (hframes : s.frames = f :: fs) (hphase : f.phase = .code)
    (hregistered : s.insnCbRegistered) : Inv (s.insn f fs) := by
  obtain ⟨rfl, htracks⟩ := h.top hframes
  have hmet := htracks.running (.inl hphase)
  have hcounted := htracks.counted
  have habort := htracks.aborted
  rw [hphase] at habort
  unfold QBDIEngine.insn QBDIEngine.budgetAndInsnTrampoline
  dsimp only
  rw [if_pos hregistered]
  split
  · exact h.go rfl rfl ⟨by simp [hcounted], rfl, htracks.limit, htracks.bounded, by simp, by simp⟩
  next hbudget =>
    -- the counter is the number of this run, so that the budget of the run has room for the instruction
    have hroom (hb : f.budget ≠ 0) : f.met + 1 ≤ f.budget := by
      obtain ⟨hne, hle⟩ := htracks.limit hb
      have hlt : ¬ s.budget < s.executed + 1 := fun hlt => hbudget ⟨hne, hlt⟩
      omega
    split
    · exact h.go rfl rfl ⟨by simp [hcounted], habort, htracks.limit, htracks.bounded, by simp,
        fun _ => ⟨by simp [hmet], hroom⟩⟩
    · refine h.go rfl rfl ⟨by simp [hcounted], habort.trans (by simp [hphase]), htracks.limit, fun hb => ?_,
        fun _ => by simp [hmet], fun hcall => absurd (hphase.symm.trans hcall) (by decide)⟩
      exact hmet ▸ hroom hb

theorem Inv.insnReturn (h : Inv s) {f : Frame} {fs : List Frame} (hframes : s.frames = f :: fs)
    (hphase : f.phase = .callback) (action : Int) : Inv (s.insnReturn f fs action) := by
  obtain ⟨rfl, htracks⟩ := h.top hframes
  obtain ⟨hmet, hroom⟩ := htracks.calling hphase
  unfold QBDIEngine.insnReturn
  split
  · exact h.go rfl rfl ⟨htracks.counted, rfl, htracks.limit, htracks.bounded, by simp, by simp⟩
  · have habort : s.aborted = false := by rw [htracks.aborted, hphase]; rfl
    refine h.go rfl rfl ⟨htracks.counted, habort, htracks.limit, fun hb => ?_, fun _ => hmet, by simp⟩
    exact hmet ▸ hroom hb

/-- Between the code and a callback that only looks on nothing is counted. -/
theorem Inv.setPhase (h : Inv s) {f : Frame} {fs : List Frame} (hframes : s.frames = f :: fs) {p : Phase}
    (hphase : f.phase = .code ∨ f.phase = .observer) (hp : p = .code ∨ p = .observer) :
    Inv { s with frames := { f with phase := p } :: fs } := by
  obtain ⟨rfl, htracks⟩ := h.top hframes
  have habort : s.aborted = false := by
    rw [htracks.aborted]
    rcases hphase with hphase | hphase <;> rw [hphase] <;> rfl
  refine h.go rfl rfl ⟨htracks.counted, habort.trans ?_, htracks.limit, htracks.bounded,
    fun _ => htracks.running hphase, fun hcall => ?_⟩
  · rcases hp with rfl | rfl <;> rfl
  · rcases hp with rfl | rfl <;> cases hcall

theorem Inv.endRun (h : Inv s) {f : Frame} {fs : List Frame} (hframes : s.frames = f :: fs) (ok : Bool) :
    Inv (s.endRun f fs ok) := by
  obtain ⟨rfl, htracks⟩ := h.top hframes
  refine ⟨fun r hr => ?_, fun g hg => nomatch hg⟩
  rcases List.mem_append.1 hr with hr | hr
  · exact h.reported r hr
  · rw [List.mem_singleton.1 hr]
    refine ⟨htracks.bounded, htracks.counted, ?_⟩
    simp [htracks.aborted]

theorem Inv.startRun (h : Inv s) (hnone : s.frames = []) (hasState hasStack : Bool) :
    Inv (s.startRun hasState hasStack) := by
  unfold QBDIEngine.startRun
  dsimp only
  split
  · rw [hnone]
    exact h.go rfl rfl ⟨rfl, rfl, fun hb => ⟨hb, Nat.le_refl _⟩, fun _ => Nat.zero_le _, fun _ => rfl, by simp⟩
  · refine ⟨fun r hr => ?_, fun g hg => ?_⟩
    · rcases List.mem_append.1 hr with hr | hr
      · exact h.reported r hr
      · rw [List.mem_singleton.1 hr]
        exact ⟨fun _ => Nat.zero_le _, rfl, rfl⟩
    · rw [hnone] at hg
      cases hg

theorem Inv.configure (h : Inv s) {t : QBDIEngine} (hframes : t.frames = s.frames) (hreports : t.reports = s.reports)
    (hexecuted : t.executed = s.executed) (haborted : t.aborted = s.aborted)
    (hlimit : ∀ f ∈ s.frames, f.budget ≠ 0 → t.budget ≠ 0 ∧ t.budget ≤ f.budget) : Inv t := by
  refine ⟨hreports ▸ h.reported, fun f hf => ?_⟩
  rw [hframes] at hf ⊢
  obtain ⟨hone, htracks⟩ := h.tracks f hf
  exact ⟨hone, hexecuted.trans htracks.counted, haborted.trans htracks.aborted, hlimit f hf, htracks.bounded,
    htracks.running, htracks.calling⟩

theorem Inv.step (h : Inv s) {e : Event} (he : Undisturbed s e) : Inv (s.step e) := by
  have hlimit (f : Frame) (hf : f ∈ s.frames) := (h.tracks f hf).2.limit
  unfold QBDIEngine.step
  cases e with
  | setInstructionBudget b =>
    dsimp only
    split
    · exact h.configure rfl rfl rfl rfl he
    · exact h
  | setInstructionCallback cb =>
    dsimp only
    split
    · exact h.configure rfl rfl rfl rfl hlimit
    · exact h
  | clearCallbacks =>
    dsimp only
    split
    · exact h.configure rfl rfl rfl rfl hlimit
    · exact h
  | run hasState hasStack =>
    dsimp only
    split
    next hcan => exact h.startRun (he hcan) hasState hasStack
    · exact h
  | insn =>
    dsimp only
    split
    · exact h
    next f fs hframes =>
      split
      next hphase => exact h.insn hframes hphase (he (by rw [hframes]; exact List.cons_ne_nil f fs))
      · exact h
  | insnReturn action =>
    dsimp only
    split
    · exact h
    next f fs hframes =>
      split
      next hphase => exact h.insnReturn hframes hphase action
      · exact h
  | observe =>
    dsimp only
    split
    · exact h
    next f fs hframes =>
      split
      next hphase => exact h.setPhase hframes (.inl hphase) (.inr rfl)
      · exact h
  | observed =>
    dsimp only
    split
    · exact h
    next f fs hframes =>
      split
      next hphase => exact h.setPhase hframes (.inr hphase) (.inl rfl)
      · exact h
  | finish ok =>
    dsimp only
    split
    · exact h
    next f fs hframes =>
      split
      · exact h.endRun hframes ok
      · exact h

/-! ## Runs -/

/-- In a run of the thread in which nothing disturbs the count, every run of the engine keeps to its budget and reports
    its own result, at all times. -/
theorem right_of_undisturbed {events : List Event}
    (h : Along QBDIEngine.step Undisturbed QBDIEngine.init events) (k : Nat) :
    (run QBDIEngine.step QBDIEngine.init (events.take k)).Right :=
  have hstep (s : QBDIEngine) (e : Event) (hs : Inv s) (he : Undisturbed s e) : Inv (s.step e) := hs.step he
  (Along.invariant hstep inv_init (h.take k)).right

/-- A run with a budget of two, which is stopped at its third instruction. -/
def counted : List Event :=
  [.setInstructionCallback true, .clearCallbacks, .setInstructionBudget 2, .run true true, .insn, .insn, .insn,
    .finish true]

theorem right_counted : (run QBDIEngine.step QBDIEngine.init (counted.take 8)).Right :=
  right_of_undisturbed (by decide) 8

/-- Two instructions on a budget of one, which no callback counts. -/
theorem not_right_uncounted :
    ¬ ∀ (events : List Event) (k : Nat), (run QBDIEngine.step QBDIEngine.init (events.take k)).Right := by
  intro h
  have hbounded := (h [.setInstructionBudget 1, .run true true, .insn, .insn] 4).bounded
  exact absurd (hbounded ⟨1, 2, 2, .code⟩ List.mem_cons_self (by decide)) (by decide)

end ArtPi.Qbdi
