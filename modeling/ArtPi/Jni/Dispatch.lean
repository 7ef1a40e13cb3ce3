import ArtPi.Jni.Bridge

set_option autoImplicit false

/-! # The result of a native body (`pi_jni_bridge.cpp`, `pi_interp_tracer.cpp`)

`dispatchToNative` makes a `jvalue` of the registers the body ends with and says whether it has been dispatched;
where it says no, `trStepIn` leaves the call to the interpreter, which makes it through JNI. What the engine does with
the body is a parameter. -/

namespace ArtPi.Jni.Bridge

open Lib.Aapcs

/-! ## The engine -/

inductive Status where
  | ok
  | maxInstructionsReached
  | crashProtected
  | executionError
  deriving DecidableEq

/-- The contents of `d0` are its bits. -/
structure NativeRunResult where
  status : Status
  gprResult : UInt64
  fprResult : UInt64

/-- What `QBDIEngine::run` meets: the register state and the stack of the emulated processor, whether a callback or
    the budget has stopped it, what `vm.run` returns, whether the body has run at all, and `x0` and `d0` at
    the end. -/
structure VmRun where
  hasState : Bool
  hasStack : Bool
  aborted : Bool
  ok : Bool
  ran : Bool
  x0 : UInt64
  d0 : UInt64

def VmRun.result (q : VmRun) : NativeRunResult :=
  if !q.hasState || !q.hasStack then ⟨.executionError, 0, 0⟩
  else ⟨if q.aborted then .maxInstructionsReached else if !q.ok then .executionError else .ok, q.x0, q.d0⟩

/-- The native body has been executed, in part at least. -/
def VmRun.Executed (q : VmRun) : Prop := q.hasState = true ∧ q.hasStack = true ∧ q.ran = true

/-- The run has come to its end. -/
def VmRun.Finished (q : VmRun) : Prop := q.aborted = false ∧ q.ok = true

instance instDecidableExecuted (q : VmRun) : Decidable q.Executed := inferInstanceAs (Decidable (_ ∧ _ ∧ _))

instance instDecidableFinished (q : VmRun) : Decidable q.Finished := inferInstanceAs (Decidable (_ ∧ _))

/-! ## The bridge -/

/-- The method: `am` is null or has a static flag and an entry point. -/
structure ArtMethod where
  isStatic : Bool
  entryPointFromJni : UInt64

/-- A call of the bridge, with `isDlsymLookupStub`, the vector registers of the engine, what becomes of a run from
    given registers and whether an exception is pending behind it. -/
structure Call where
  env : UInt64
  am : Option ArtMethod
  receiver : UInt64
  argc : Nat
  args : List UInt64
  shorty : List Char
  targetFunc : UInt64
  isStub : UInt64 → Bool
  v : Nat → UInt64
  vm : UInt64 → Regs → VmRun
  exceptionPending : Bool

/-- The `jvalue` and the flag. -/
structure Dispatch where
  ret : UInt64
  dispatched : Bool

/-- The function that is run, unless there is only the stub that looks it up. -/
def target (c : Call) (am : ArtMethod) : Option UInt64 :=
  if c.targetFunc = 0 then
    if am.entryPointFromJni = 0 ∨ c.isStub am.entryPointFromJni then none else some am.entryPointFromJni
  else some c.targetFunc

/-- `dispatchToNative` up to `engine->run`. -/
def nativeRun (c : Call) : Option VmRun := do
  let am ← c.am
  if c.shorty = [] then none
  else
    let fn ← target c am
    let packed ← packArgs c.shorty c.env (if am.isStatic then 0 else c.receiver)
      (if am.isStatic then c.receiver else 0) c.argc c.args false am.isStatic
    return c.vm fn (engineStart (eight packed.x) (eight packed.d) c.v)

/-- 6., by the first character of the shorty. -/
def returned (t : Char) (rr : NativeRunResult) : UInt64 :=
  if t = 'V' then 0
  else if t = 'J' then rr.gprResult
  else if t = 'D' then rr.fprResult
  else if t = 'F' then low rr.gprResult
  else if t = 'L' then rr.gprResult
  else low rr.gprResult

def dispatchToNative (c : Call) : Dispatch :=
  match nativeRun c with
  | none => ⟨0, false⟩
  | some q =>
    if c.exceptionPending then ⟨0, true⟩
    else if q.result.status ≠ .ok then ⟨0, false⟩
    else ⟨returned (c.shorty.headD 'V') q.result, true⟩

/-! ## The caller -/

/-- What `trStepIn` checks in front of the bridge: the method reference, `kAccAbstract`, the depth, and the option. -/
structure StepInGate where
  valid : Bool
  isAbstract : Bool
  depth : Int
  maxDepth : Int
  enableNativeStepIn : Bool

def StepInGate.passes (g : StepInGate) (c : Call) : Bool :=
  g.valid && c.am.isSome && !g.isAbstract && g.depth < g.maxDepth && g.enableNativeStepIn

/-- `trStepIn` for a native method: 0 where the call has been handled. -/
def trStepIn (g : StepInGate) (c : Call) : Nat × Dispatch :=
  if g.passes c then
    let d := dispatchToNative c
    (if d.dispatched then 0 else 1, d)
  else (1, ⟨0, false⟩)

/-- How often the body is executed for one invocation: in the engine, and through JNI where `trStepIn` has not
    handled the call. -/
def executions (g : StepInGate) (c : Call) : Nat :=
  (if g.passes c ∧ ∃ q ∈ nativeRun c, q.Executed then 1 else 0) + if (trStepIn g c).1 = 0 then 0 else 1

/-! ## What the result says -/

/-- The member of the `jvalue` for the type has the value of the register that the type is returned in. -/
def Returns (t : Char) (ret : UInt64) (q : VmRun) : Prop :=
  Agree (param t).width ret (if IsFp t then q.d0 else q.x0)

/-- Whenever the body has been executed the call is dispatched, and if it has come to its end without an exception
    its result is the one that is returned. -/
structure Right (c : Call) (q : VmRun) : Prop where
  dispatched : q.Executed → (dispatchToNative c).dispatched = true
  value : q.Executed → q.Finished → c.exceptionPending = false → ∀ t ∈ c.shorty.head?, t ∈ kinds →
    Returns t (dispatchToNative c).ret q

theorem result_status {q : VmRun} (h : q.Executed) : q.result.status = .ok ↔ q.Finished := by
  obtain ⟨hstate, hstack, -⟩ := h
  rw [VmRun.result, hstate, hstack, VmRun.Finished]
  cases q.aborted <;> cases q.ok <;> simp

theorem dispatched_iff {c : Call} {q : VmRun} (hq : nativeRun c = some q) (h : q.Executed) :
    (dispatchToNative c).dispatched = true ↔ c.exceptionPending = true ∨ q.Finished := by
  rw [dispatchToNative, hq, ← result_status h]
  cases c.exceptionPending
  · by_cases hok : q.result.status = .ok <;> simp [hok]
  · simp

/-- The result of every type but `F` is taken from its register. -/
theorem returns_returned {t : Char} (ht : t ∈ kinds) {q : VmRun} (h : q.Executed) :
    Returns t (returned t q.result) q ↔ (t = 'F' → Agree 32 q.x0 q.d0) := by
  obtain ⟨hstate, hstack, -⟩ := h
  have hgpr : q.result.gprResult = q.x0 := by simp [VmRun.result, hstate, hstack]
  have hfpr : q.result.fprResult = q.d0 := by simp [VmRun.result, hstate, hstack]
  rw [Returns, returned, hgpr, hfpr]
  by_cases hF : t = 'F'
  · subst hF
    have hlow : Agree 32 (low q.x0) q.x0 := agree_low (Nat.le_refl 32) q.x0
    rw [Agree] at hlow
    simp only [Char.reduceEq, if_false, if_true, forall_const, param, IsFp, or_true, Agree, or_self, hlow]
  · have hcases : t = 'D' ∨ t ∈ kinds ∧ ¬ IsFp t := by
      by_cases hD : t = 'D'
      · exact .inl hD
      · exact .inr ⟨ht, not_or.2 ⟨hD, hF⟩⟩
    rcases hcases with rfl | ⟨-, hfp⟩
    · exact iff_of_true (.refl _ _) fun h => absurd h (by decide)
    · have hagree := agree_general ht hfp q.x0
      have hD : t ≠ 'D' := fun h => hfp (.inl h)
      have hV : t ≠ 'V' := by
        rintro rfl
        exact absurd ht (by decide)
      rw [if_neg hfp, if_neg hV, if_neg hD, if_neg hF]
      refine iff_of_true ?_ fun h => absurd h hF
      by_cases hJ : t = 'J'
      · rw [if_pos hJ]
        exact .refl _ _
      · rw [if_neg hJ]
        by_cases hL : t = 'L'
        · rw [if_pos hL]
          exact .refl _ _
        · rw [if_neg hL]
          rwa [if_neg (not_or.2 ⟨hJ, hL⟩)] at hagree

theorem right_iff {c : Call} {q : VmRun} (hq : nativeRun c = some q) :
    Right c q ↔ (q.Executed → (c.exceptionPending = true ∨ q.Finished) ∧
      (q.Finished → c.exceptionPending = false → c.shorty.head? = some 'F' → Agree 32 q.x0 q.d0)) := by
  have hret (hx : q.Executed) (hf : q.Finished) (he : c.exceptionPending = false) :
      (dispatchToNative c).ret = returned (c.shorty.headD 'V') q.result := by
    rw [dispatchToNative, hq]
    simp [he, (result_status hx).2 hf]
  constructor
  · intro h hx
    refine ⟨(dispatched_iff hq hx).1 (h.dispatched hx), fun hf he hF => ?_⟩
    have hvalue := h.value hx hf he 'F' hF (by decide)
    rw [hret hx hf he, List.headD_eq_head?_getD, hF] at hvalue
    exact (returns_returned (by decide) hx).1 hvalue rfl
  · intro h
    refine ⟨fun hx => (dispatched_iff hq hx).2 (h hx).1, fun hx hf he t hhead ht => ?_⟩
    rw [hret hx hf he, List.headD_eq_head?_getD, hhead]
    refine (returns_returned ht hx).2 fun hF => (h hx).2 hf he ?_
    rw [hhead, hF]

theorem executions_le {g : StepInGate} {c : Call} :
    executions g c ≤ 1 ↔ ∀ q, nativeRun c = some q → g.passes c = true → q.Executed →
      c.exceptionPending = true ∨ q.Finished := by
  rw [executions, trStepIn]
  by_cases hg : g.passes c = true
  · rw [if_pos hg]
    cases hq : nativeRun c with
    | none => simp [dispatchToNative, hq]
    | some q =>
      by_cases hx : q.Executed
      · have hiff := dispatched_iff hq hx
        by_cases hd : (dispatchToNative c).dispatched = true
        · simp [hg, hx, hd, hiff.1 hd]
        · simp [hg, hx, hd, mt hiff.2 hd]
      · by_cases hd : (dispatchToNative c).dispatched = true <;> simp [hx, hd]
  · simp [hg]

/-- In a call that the engine runs, flag and value are right just if the run has come to its end or left an exception,
    and a `float` has the same bits in `x0` as in `s0`. The body is executed once just if the first holds. -/
theorem dispatchToNative_right (g : StepInGate) (c : Call) :
    (∀ q, nativeRun c = some q → (Right c q ↔
      (q.Executed → (c.exceptionPending = true ∨ q.Finished) ∧
        (q.Finished → c.exceptionPending = false → c.shorty.head? = some 'F' → Agree 32 q.x0 q.d0)))) ∧
    (executions g c ≤ 1 ↔ ∀ q, nativeRun c = some q → g.passes c = true → q.Executed →
      c.exceptionPending = true ∨ q.Finished) :=
  ⟨fun _ hq => right_iff hq, executions_le⟩

/-! ## Two calls that go wrong -/

/-- A static method without parameters, and what becomes of its body. -/
def noArguments (shorty : List Char) (q : VmRun) : Call where
  env := 0x7100
  am := some ⟨true, 0x9000⟩
  receiver := 0x15
  argc := 0
  args := []
  shorty := shorty
  targetFunc := 0
  isStub _ := false
  v _ := 0
  vm _ _ := q
  exceptionPending := false

def gate : StepInGate := ⟨true, false, 0, 8, true⟩

/-- The `float` 1.5 in `s0` comes back as the zero of `x0`; a body that exceeds the budget is executed twice. -/
theorem float_and_budget :
    ¬ Right (noArguments ['F'] ⟨true, true, false, true, true, 0, 0x3FC00000⟩)
        ⟨true, true, false, true, true, 0, 0x3FC00000⟩ ∧
    ¬ Right (noArguments ['V'] ⟨true, true, true, true, true, 0, 0⟩) ⟨true, true, true, true, true, 0, 0⟩ ∧
    executions gate (noArguments ['V'] ⟨true, true, true, true, true, 0, 0⟩) = 2 := by
  refine ⟨fun h => ?_, fun h => ?_, by decide⟩
  · have hvalue := h.value (by decide) (by decide) rfl 'F' rfl (by decide)
    rw [Returns] at hvalue
    revert hvalue
    decide
  · have hflag := h.dispatched (by decide)
    revert hflag
    decide

end ArtPi.Jni.Bridge
