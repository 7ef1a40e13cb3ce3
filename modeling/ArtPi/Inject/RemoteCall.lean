import ArtPi.Lib.Arm64
import ArtPi.Lib.Runs
import Mathlib.Logic.Function.Basic

set_option autoImplicit false

/-! # Remote calls (`cli/injector/ptrace_inject.cpp`)

`RemoteCall` points the registers of a stopped target at a function with a null return address, lets it run and waits
for one stop: the fault at address 0 says that the function has returned, every other stop or none in time ends the call
as well. The old registers are put back at the end. `InjectLibrary` attaches, makes such calls and detaches; it never
passes a signal on.

The target is one thread. What the kernel and the function do is the input; where a stop finds the function is known to
the model only. -/

namespace ArtPi.Inject.Remote

open Lib

structure Arm64Regs where
  x : Fin 31 → UInt64
  sp : UInt64
  pc : UInt64
  pstate : UInt64

def sigsegv : Nat := 11

/-- Where the called function is. -/
inductive Place where
  | notStarted
  | inside
  | returned
  deriving DecidableEq

/-- A stop of the target: the signal that `waitpid` shows, whether it is one that the target is about to get, the
    registers, and the place of the function; it comes to address 0 by returning. -/
structure Stop where
  sig : Nat
  own : Bool
  regs : Arm64Regs
  place : Place
  returned : sig = sigsegv → regs.pc = 0 → place = .returned

def Stop.held (s : Stop) : Option Nat := if s.own then some s.sig else none

def Stop.Unexpected (s : Stop) : Prop := s.sig ≠ sigsegv ∨ s.regs.pc ≠ 0

instance (s : Stop) : Decidable s.Unexpected := instDecidableOr

/-! ## `WaitStop` -/

/-- What `waitpid` says; `running` is everything that keeps the loop going. -/
inductive Polled where
  | running
  | stopped (s : Stop)
  | exited
  | error (text : String)

/-- A turn of the loop, and whether the deadline has passed at its end. -/
structure Poll where
  status : Polled
  late : Bool

inductive Waited where
  | stopped (s : Stop)
  | died
  | failed (err : String)

/-- The deadline passes at last. -/
def waitStop : List Poll → Waited
  | [] => .failed "remote call timed out waiting for traced stop"
  | p :: ps =>
    match p.status with
    | .stopped s => .stopped s
    | .exited => .died
    | .error text => .failed ("waitpid: " ++ text)
    | .running => if p.late then .failed "remote call timed out waiting for traced stop" else waitStop ps

/-! ## `RemoteCall` -/

/-- `x0` is one of the kernel's restart codes. -/
def IsRestart (r : Arm64Regs) : Prop := (r.x 0).toInt64 ≤ -512 ∧ -516 ≤ (r.x 0).toInt64

instance (r : Arm64Regs) : Decidable (IsRestart r) := instDecidableAnd

/-- `-EINTR` -/
def eintr : UInt64 := (-4 : Int64).toUInt64

def interrupt (r : Arm64Regs) : Arm64Regs := { r with x := Function.update r.x 0 eintr }

def sanitize (r : Arm64Regs) : Arm64Regs := if IsRestart r then interrupt r else r

/-- The registers for the call. -/
def arm (saved : Arm64Regs) (func : UInt64) (args : List UInt64) : Arm64Regs :=
  { saved with
    x := fun i => if i.val < 8 then args.getD i.val 0 else if i.val = 30 then 0 else saved.x i
    sp := (saved.sp - 0x1000) &&& ~~~0xF
    pc := func }

/-- The result, `ret` as far as it is set, and `err`. -/
structure Result where
  ok : Bool
  ret : Option UInt64
  err : Option String

/-- A call that has come back, with the registers before and after it. -/
structure Call where
  before : Arm64Regs
  after : Arm64Regs
  armed : Bool
  place : Place
  result : Result

/-- The target: whether `x0` is what an interrupted system call has left, the signal at whose delivery it is stopped, the
    signals that it never got, and the calls. -/
structure Target where
  alive : Bool
  traced : Bool
  regs : Arm64Regs
  interrupted : Bool
  held : Option Nat
  lost : List Nat
  calls : List Call

/-- What a call is made with, and meets: the answers of `ptrace`, the polls, and the stop behind `SIGSTOP`, if the
    target lives. -/
structure CallEnv where
  func : UInt64
  args : List UInt64
  getOk : Bool
  armOk : Bool
  contError : Option String
  polls : List Poll
  second : Option Stop
  getAfterOk : Bool

namespace Target

variable (t : Target)

/-- The target goes on without the signal that it is stopped at. -/
def resume : Target := { t with held := none, lost := t.lost ++ t.held.toList }

def record (before : Arm64Regs) (armed : Bool) (after : Arm64Regs) (place : Place) (result : Result) : Target :=
  { t with regs := after, calls := t.calls ++ [⟨before, after, armed, place, result⟩] }

end Target

def hex (n : Nat) : String := String.ofList (Nat.toDigits 16 n)

/-- The end of a call, behind the stop. -/
def finish (t : Target) (before saved : Arm64Regs) (getAfterOk : Bool) (s : Stop) : Target :=
  let t := { t with held := s.held }
  if ¬ getAfterOk then t.record before true saved s.place ⟨false, none, some "GETREGSET(after call) failed"⟩
  else if s.Unexpected then
    t.record before true saved s.place ⟨false, some (s.regs.x 0),
      some s!"unexpected stop: sig={s.sig} pc=0x{hex s.regs.pc.toNat} (expected SIGSEGV @ pc=0)"⟩
  else t.record before true saved s.place ⟨true, some (s.regs.x 0), none⟩

def remoteCall (t : Target) (e : CallEnv) : Target :=
  if ¬ e.getOk then t.record t.regs false t.regs .notStarted ⟨false, none, some "GETREGSET failed"⟩
  else
    let saved := sanitize t.regs
    if ¬ e.armOk then t.record t.regs false t.regs .notStarted ⟨false, none, some "SETREGSET(arm) failed"⟩
    else
      match e.contError with
      | some text => t.record t.regs true saved .notStarted ⟨false, none, some ("PTRACE_CONT: " ++ text)⟩
      | none =>
        let u := { t.resume with regs := arm saved e.func e.args }
        match waitStop e.polls with
        | .stopped s => finish u t.regs saved e.getAfterOk s
        | .died => { u with alive := false }
        | .failed err =>
          match e.second with
          | none => { u with alive := false }
          | some s =>
            { u with held := s.held }.record t.regs true saved s.place ⟨false, none, some err⟩

/-! ## `InjectLibrary` -/

/-- The target at the stop that `InjectLibrary` waits for. -/
def Target.attached (s : Stop) (interrupted : Bool) : Target :=
  { alive := true, traced := true, regs := s.regs, interrupted := interrupted, held := s.held, lost := [],
    calls := [] }

inductive Op where
  | remoteCall (e : CallEnv)
  | detach

def Target.step (t : Target) (op : Op) : Target :=
  if t.alive ∧ t.traced then
    match op with
    | .remoteCall e => Remote.remoteCall t e
    | .detach => { t.resume with traced := false }
  else t

/-! ## The property and the condition -/

/-- The registers that a call has to leave. -/
def expected (interrupted : Bool) (r : Arm64Regs) : Arm64Regs := if interrupted then sanitize r else r

/-- The function was not begun or has returned, and the registers are as before. -/
def Call.Right (interrupted : Bool) (c : Call) : Prop :=
  c.place ≠ .inside ∧ c.after = if c.armed then expected interrupted c.before else c.before

/-- All calls were all or nothing, and no signal was lost. -/
def Target.Right (t : Target) : Prop := t.alive → (∀ c ∈ t.calls, c.Right t.interrupted) ∧ t.lost = []

/-- The stop with which a call ends, if the target lives. -/
def CallEnv.ending (e : CallEnv) : Option Stop :=
  match waitStop e.polls with
  | .stopped s => some s
  | .died => none
  | .failed _ => e.second

/-- What looks like a restart code is one. -/
def RestartTrue (t : Target) : Prop := IsRestart t.regs → t.interrupted

/-- The target is not stopped at a signal of its own when it is let go, and if it survives the call: a stop that is not
    the expected one does not find the function at work, and what looks like a restart code is one. -/
def Undisturbed (t : Target) : Op → Prop
  | .detach => t.alive → t.traced → t.held = none
  | .remoteCall e => t.alive → t.traced → e.getOk → e.armOk →
      (e.contError ≠ none → RestartTrue t) ∧
        (e.contError = none → ∀ s, e.ending = some s →
          t.held = none ∧ (s.Unexpected → s.place ≠ .inside) ∧ RestartTrue t)

/-! ## Registers -/

theorem not_isRestart_interrupt (r : Arm64Regs) : ¬ IsRestart (interrupt r) := by
  unfold IsRestart interrupt eintr
  dsimp only
  rw [Function.update_self]
  decide

/-- The registers are right exactly if no ordinary number was taken for a restart code. -/
theorem sanitize_eq_expected_iff (i : Bool) (r : Arm64Regs) : sanitize r = expected i r ↔ (IsRestart r → i) := by
  unfold expected
  cases i with
  | true => simp
  | false =>
    rw [if_neg (by decide)]
    unfold sanitize
    by_cases hr : IsRestart r
    · rw [if_pos hr]
      refine iff_of_false (fun heq => not_isRestart_interrupt r ?_) fun h => absurd (h hr) (by decide)
      rw [heq]
      exact hr
    · rw [if_neg hr]
      exact iff_of_true rfl fun hr' => absurd hr' hr

/-! ## One call -/

variable {t : Target}

theorem record_right (halive : t.alive) {before after : Arm64Regs} {armed : Bool} {place : Place} {result : Result} :
    (t.record before armed after place result).Right ↔
      t.Right ∧ Call.Right t.interrupted ⟨before, after, armed, place, result⟩ := by
  unfold Target.Right Target.record
  dsimp only
  rw [forall_prop_of_true halive, forall_prop_of_true halive, List.forall_mem_append, List.forall_mem_singleton]
  exact and_right_comm

theorem resume_right (halive : t.alive) (ht : t.Right) : t.resume.Right ↔ t.held = none := by
  obtain ⟨hcalls, hlost⟩ := ht halive
  unfold Target.Right Target.resume
  dsimp only
  rw [forall_prop_of_true halive, and_iff_right hcalls, hlost, List.nil_append]
  cases t.held <;> simp

/-- The held signal and the registers have no part in what was right so far. -/
theorem right_congr {u : Target} (halive : u.alive = t.alive) (hinterrupted : u.interrupted = t.interrupted)
    (hlost : u.lost = t.lost) (hcalls : u.calls = t.calls) : u.Right ↔ t.Right := by
  unfold Target.Right
  rw [halive, hinterrupted, hlost, hcalls]

theorem call_right_iff {i : Bool} {r : Arm64Regs} {s : Stop} {result : Result} :
    Call.Right i ⟨r, sanitize r, true, s.place, result⟩ ↔
      (s.Unexpected → s.place ≠ .inside) ∧ (IsRestart r → i) := by
  unfold Call.Right
  dsimp only
  rw [if_pos rfl, sanitize_eq_expected_iff]
  refine and_congr_left fun _ => ⟨fun h _ => h, fun h => ?_⟩
  by_cases hs : s.Unexpected
  · exact h hs
  · unfold Stop.Unexpected at hs
    rw [not_or, not_not, not_not] at hs
    rw [s.returned hs.1 hs.2]
    decide

theorem ended_right {before : Arm64Regs} {s : Stop} {result : Result} (halive : t.alive) :
    (Target.record { t with held := s.held } before true (sanitize before) s.place result).Right ↔
      t.Right ∧ (s.Unexpected → s.place ≠ .inside) ∧ (IsRestart before → t.interrupted) :=
  (record_right (t := { t with held := s.held }) halive).trans
    (and_congr (right_congr rfl rfl rfl rfl) call_right_iff)

theorem finish_right {before : Arm64Regs} {getAfterOk : Bool} {s : Stop} (halive : t.alive) :
    (finish t before (sanitize before) getAfterOk s).Right ↔
      t.Right ∧ (s.Unexpected → s.place ≠ .inside) ∧ (IsRestart before → t.interrupted) := by
  unfold finish
  dsimp only
  split
  · exact ended_right halive
  · split
    · exact ended_right halive
    · exact ended_right halive

theorem right_of_dead (hdead : t.alive = false) : t.Right := by
  intro halive
  rw [hdead] at halive
  cases halive

theorem untouched_right (ht : t.Right) (halive : t.alive) (result : Result) :
    (t.record t.regs false t.regs .notStarted result).Right :=
  (record_right halive).2 ⟨ht, nofun, rfl⟩

theorem remoteCall_right (ht : t.Right) (halive : t.alive) (e : CallEnv) :
    (remoteCall t e).Right ↔
      (e.getOk → e.armOk → (e.contError ≠ none → RestartTrue t) ∧
        (e.contError = none → ∀ s, e.ending = some s →
          t.held = none ∧ (s.Unexpected → s.place ≠ .inside) ∧ RestartTrue t)) := by
  unfold remoteCall
  by_cases hget : e.getOk
  · rw [if_neg (not_not.2 hget), forall_prop_of_true hget]
    dsimp only
    by_cases harm : e.armOk
    · rw [if_neg (not_not.2 harm), forall_prop_of_true harm]
      cases hcont : e.contError with
      | some text =>
        rw [and_iff_left nofun, forall_prop_of_true nofun]
        refine (record_right halive).trans ((and_iff_right ht).trans ?_)
        exact (and_iff_right nofun).trans (sanitize_eq_expected_iff t.interrupted t.regs)
      | none =>
        rw [and_iff_right fun hsome => absurd rfl hsome, forall_prop_of_true rfl]
        -- the target goes on, so that the held signal is lost, and then it stops or dies
        have hgone : Target.Right { t.resume with regs := arm (sanitize t.regs) e.func e.args } ↔ t.held = none :=
          (right_congr rfl rfl rfl rfl).trans (resume_right halive ht)
        unfold CallEnv.ending
        cases waitStop e.polls with
        | stopped s =>
          refine (@finish_right { t.resume with regs := arm (sanitize t.regs) e.func e.args } _ _ _ halive).trans
            ((and_congr_left fun _ => hgone).trans ?_)
          simp [RestartTrue, Target.resume]
        | died =>
          exact iff_of_true (right_of_dead rfl) nofun
        | failed err =>
          dsimp only
          cases e.second with
          | none => exact iff_of_true (right_of_dead rfl) nofun
          | some s =>
            refine (@ended_right { t.resume with regs := arm (sanitize t.regs) e.func e.args } _ _ _
              halive).trans ((and_congr_left fun _ => hgone).trans ?_)
            simp [RestartTrue, Target.resume]
    · rw [if_pos harm]
      exact iff_of_true (untouched_right ht halive _) fun harm' => absurd harm' harm
  · rw [if_pos hget]
    exact iff_of_true (untouched_right ht halive _) fun hget' => absurd hget' hget

/-! ## Runs -/

theorem step_right (t : Target) (op : Op) (ht : t.Right) : Undisturbed t op ↔ (t.step op).Right := by
  unfold Target.step
  by_cases hlive : t.alive ∧ t.traced
  · rw [if_pos hlive]
    cases op with
    | detach =>
      unfold Undisturbed
      dsimp only
      rw [forall_prop_of_true hlive.1, forall_prop_of_true hlive.2, ← resume_right hlive.1 ht]
      exact right_congr rfl rfl rfl rfl
    | remoteCall e =>
      unfold Undisturbed
      dsimp only
      rw [forall_prop_of_true hlive.1, forall_prop_of_true hlive.2]
      exact (remoteCall_right ht hlive.1 e).symm
  · rw [if_neg hlive]
    refine iff_of_true ?_ ht
    cases op with
    | detach => exact fun halive htraced => absurd ⟨halive, htraced⟩ hlive
    | remoteCall e => exact fun halive htraced => absurd ⟨halive, htraced⟩ hlive

theorem attached_right (s : Stop) (interrupted : Bool) : (Target.attached s interrupted).Right :=
  fun _ => ⟨List.forall_mem_nil _, rfl⟩

/-- Every remote call of an injection is all or nothing exactly if nothing comes in between. -/
theorem right_iff_undisturbed (s : Stop) (interrupted : Bool) (ops : List Op) :
    (∀ k, (run Target.step (Target.attached s interrupted) (ops.take k)).Right) ↔
      Along Target.step Undisturbed (Target.attached s interrupted) ops :=
  (Along.iff_forall_take step_right (attached_right s interrupted)).symm

def regs : Arm64Regs := ⟨fun _ => 0, 0x7ff0000000, 0x7100002000, 0⟩

/-- The stop of `PTRACE_INTERRUPT`. -/
def interrupted : Stop := ⟨5, false, regs, .notStarted, fun h => absurd h (by decide)⟩

/-- `SIGCHLD` comes while the function runs. -/
def childExited : Stop := ⟨17, true, regs, .inside, fun h => absurd h (by decide)⟩

def disturbedCall : CallEnv :=
  { func := 0x7100001000, args := [0, 0x4000], getOk := true, armOk := true, contError := none,
    polls := [⟨.running, false⟩, ⟨.stopped childExited, false⟩], second := none, getAfterOk := true }

theorem not_right_disturbedCall :
    ¬ ∀ (s : Stop) (interrupted : Bool) (ops : List Op) (k : Nat),
      (run Target.step (Target.attached s interrupted) (ops.take k)).Right := by
  intro h
  have hcalls := (h interrupted false [.remoteCall disturbedCall] 1 rfl).1
  exact (hcalls _ List.mem_cons_self).1 rfl

end ArtPi.Inject.Remote
