import ArtPi.Dex.Scanners
import ArtPi.Lib.Aapcs

set_option autoImplicit false

/-! # From Java to native code (`src/engine/tracer/unified/pi_jni_bridge.cpp`)

`dispatchToNative` packs the arguments of a native method into registers, has the emulated processor run its body
and makes a `jvalue` of the result. A `jvalue` is its 64 bits, of which a narrower member is the low ones. -/

namespace ArtPi.Jni.Bridge

open Lib.Aapcs Dex

/-- A type that goes to the vector registers. -/
def IsFp (t : Char) : Prop := t = 'D' ∨ t = 'F'

instance instDecidableIsFp (t : Char) : Decidable (IsFp t) := inferInstanceAs (Decidable (_ ∨ _))

/-- A parameter of a type as a shorty has it. -/
def param (t : Char) : Param where
  isFp := IsFp t
  width :=
    if t = 'Z' ∨ t = 'B' then 8 else if t = 'C' ∨ t = 'S' then 16 else if t = 'I' ∨ t = 'F' then 32 else 64

/-- The types of a shorty. -/
def kinds : List Char := ['Z', 'B', 'C', 'S', 'I', 'J', 'F', 'D', 'L']

/-- The low half of a `jvalue`, as `v.i` and `v.f`. -/
def low (v : UInt64) : UInt64 := v &&& 0xFFFFFFFF

/-- The arrays `x` and `d`, and how many of them are in use. -/
structure Packed where
  xi : Nat
  di : Nat
  x : Nat → UInt64
  d : Nat → UInt64

/-- One round of the loop of `packArgs`. -/
def packArg (s : Packed) : Char × UInt64 → Option Packed
  | (t, v) =>
    if IsFp t then
      if 8 ≤ s.di then none
      else some { s with
        di := s.di + 1
        d := Function.update s.d s.di (if t = 'F' then (s.d s.di &&& 0xFFFFFFFF00000000) ||| low v else v) }
    else if 8 ≤ s.xi then none
    else some { s with
      xi := s.xi + 1
      x := Function.update s.x s.xi (if t = 'J' ∨ t = 'L' then v else low v) }

/-- `X0` and `X1`, unless the method has neither. -/
def packStart (env receiver staticClazz : UInt64) (isCritical isStatic : Bool) : Packed :=
  if isCritical then ⟨0, 0, fun _ => 0, fun _ => 0⟩
  else
    ⟨2, 0, Function.update (Function.update (fun _ => 0) 0 env) 1 (if isStatic then staticClazz else receiver),
      fun _ => 0⟩

def packArgs (shorty : List Char) (env receiver staticClazz : UInt64) (argc : Nat) (args : List UInt64)
    (isCritical isStatic : Bool) : Option Packed :=
  ((shorty.tail.take argc).zip args).foldlM packArg (packStart env receiver staticClazz isCritical isStatic)

/-- The registers in which `QBDIEngine::run` starts a function: vector registers without a value for them keep what
    they have. -/
def engineStart (gprs fprs : List UInt64) (v : Nat → UInt64) : Regs where
  x n := gprs.getD n 0
  v n := fprs.getD n (v n)

def eight (reg : Nat → UInt64) : List UInt64 := (List.range 8).map reg

theorem engineStart_x (x : Nat → UInt64) (fprs : List UInt64) (v : Nat → UInt64) {n : Nat} (h : n < 8) :
    (engineStart (eight x) fprs v).x n = x n := by
  simp [engineStart, eight, h]

theorem engineStart_v (gprs : List UInt64) (d v : Nat → UInt64) {n : Nat} (h : n < 8) :
    (engineStart gprs (eight d) v).v n = d n := by
  simp [engineStart, eight, h]

/-! ## What is packed -/

/-- The arguments with their parameters. -/
def typed (ts : List Char) (args : List UInt64) : List (Param × UInt64) :=
  (ts.zip args).map fun a => (param a.1, a.2)

theorem isFp_param {t : Char} : (param t).isFp = true ↔ IsFp t := decide_eq_true_iff

theorem isFp_param_false {t : Char} : (param t).isFp = false ↔ ¬ IsFp t := by
  rw [← isFp_param, Bool.not_eq_true]

/-- The value that is packed for a general register agrees with the argument. -/
theorem agree_general {t : Char} (ht : t ∈ kinds) (hfp : ¬ IsFp t) (v : UInt64) :
    Agree (param t).width (if t = 'J' ∨ t = 'L' then v else low v) v := by
  by_cases h : t = 'J' ∨ t = 'L'
  · rw [if_pos h]
    exact .refl _ v
  · rw [if_neg h]
    refine agree_low ?_ v
    simp only [kinds, List.mem_cons, List.not_mem_nil, or_false] at ht
    rcases ht with rfl | rfl | rfl | rfl | rfl | rfl | rfl | rfl | rfl
    all_goals first
      | decide
      | exact absurd (by decide) hfp
      | exact absurd (by decide) h

/-- A `float` is in the low half of its register, whatever is in the other one. -/
theorem agree_floating {t : Char} (hfp : IsFp t) (old v : UInt64) :
    Agree (param t).width (if t = 'F' then (old &&& 0xFFFFFFFF00000000) ||| low v else v) v := by
  by_cases h : t = 'F'
  · subst h
    rw [if_pos rfl]
    have hhigh : (old &&& 0xFFFFFFFF00000000).toNat % 2 ^ 32 = 0 := by
      rw [UInt64.toNat_and, Nat.and_mod_two_pow]
      exact Nat.and_zero _
    have hlow : (low v).toNat % 2 ^ 32 = v.toNat % 2 ^ 32 := agree_low (Nat.le_refl 32) v
    change (_ ||| low v).toNat % 2 ^ 32 = v.toNat % 2 ^ 32
    rw [UInt64.toNat_or, Nat.or_mod_two_pow, hhigh, hlow, Nat.zero_or]
  · rw [if_neg h]
    exact .refl _ v

theorem packArg_cases {s s' : Packed} {t : Char} {v : UInt64} (h : packArg s (t, v) = some s') :
    (IsFp t ∧ s.di < 8 ∧ s' = { s with
      di := s.di + 1
      d := Function.update s.d s.di (if t = 'F' then (s.d s.di &&& 0xFFFFFFFF00000000) ||| low v else v) }) ∨
    (¬ IsFp t ∧ s.xi < 8 ∧ s' = { s with
      xi := s.xi + 1
      x := Function.update s.x s.xi (if t = 'J' ∨ t = 'L' then v else low v) }) := by
  rw [packArg] at h
  by_cases hfp : IsFp t
  · rw [if_pos hfp] at h
    by_cases hdi : 8 ≤ s.di
    · rw [if_pos hdi] at h
      cases h
    · rw [if_neg hdi] at h
      exact .inl ⟨hfp, Nat.not_le.1 hdi, (Option.some.inj h).symm⟩
  · rw [if_neg hfp] at h
    by_cases hxi : 8 ≤ s.xi
    · rw [if_pos hxi] at h
      cases h
    · rw [if_neg hxi] at h
      exact .inr ⟨hfp, Nat.not_le.1 hxi, (Option.some.inj h).symm⟩

/-- The loop fills registers from those in use on, in the order of the arguments. -/
theorem packArgs_loop {ts : List Char} (hts : ∀ t ∈ ts, t ∈ kinds) {args : List UInt64} {s s' : Packed}
    (h : (ts.zip args).foldlM packArg s = some s') :
    (∀ n, n < s.xi → s'.x n = s.x n) ∧ (∀ n, n < s.di → s'.d n = s.d n) ∧
      InOrder s'.x s.xi (general (typed ts args)) ∧ InOrder s'.d s.di (floating (typed ts args)) := by
  induction ts generalizing args s with
  | nil =>
    cases h
    exact ⟨fun _ _ => rfl, fun _ _ => rfl, trivial, trivial⟩
  | cons t ts ih =>
    cases args with
    | nil =>
      cases h
      exact ⟨fun _ _ => rfl, fun _ _ => rfl, trivial, trivial⟩
    | cons v args =>
      rw [List.zip_cons_cons, List.foldlM_cons] at h
      obtain ⟨s1, hround, h⟩ := Option.bind_eq_some_iff.1 h
      obtain ⟨hx, hd, hgen, hflo⟩ := ih (fun t ht => hts t (List.mem_cons_of_mem _ ht)) h
      have htyped : typed (t :: ts) (v :: args) = (param t, v) :: typed ts args := rfl
      rw [htyped]
      rcases packArg_cases hround with ⟨hfp, hdi, rfl⟩ | ⟨hfp, hxi, rfl⟩
      · have hp := isFp_param.2 hfp
        rw [general_cons_fp hp, floating_cons_fp hp]
        refine ⟨hx, fun n hn => ?_, hgen, hdi, ?_, hflo⟩
        · rw [hd n (by simp only; omega)]
          exact Function.update_of_ne (by omega) _ _
        · rw [hd s.di (Nat.lt_succ_self _)]
          change Agree _ (Function.update s.d s.di _ s.di) v
          rw [Function.update_self]
          exact agree_floating hfp _ v
      · have hp := isFp_param_false.2 hfp
        rw [general_cons_gp hp, floating_cons_gp hp]
        refine ⟨fun n hn => ?_, hd, ⟨hxi, ?_, hgen⟩, hflo⟩
        · rw [hx n (by simp only; omega)]
          exact Function.update_of_ne (by omega) _ _
        · rw [hx s.xi (Nat.lt_succ_self _)]
          change Agree _ (Function.update s.x s.xi _ s.xi) v
          rw [Function.update_self]
          exact agree_general (hts t List.mem_cons_self) hfp v

/-! ## The registers of a signature -/

theorem kindOf_mem_kinds {t : List Char} (ht : FieldType t) : kindOf t ∈ kinds := by
  cases ht with
  | @primitive c hc =>
    rw [kindOf_primitive hc]
    simp only [fieldPrimitives, List.mem_cons, List.not_mem_nil, or_false] at hc
    rcases hc with rfl | rfl | rfl | rfl | rfl | rfl | rfl | rfl <;> simp [kinds]
  | object => exact show 'L' ∈ kinds by decide
  | array => exact show 'L' ∈ kinds by decide

def generalParams (params : List (List Char)) : Nat := (params.filter fun t => ¬ IsFp (kindOf t)).length

def floatingParams (params : List (List Char)) : Nat := (params.filter fun t => IsFp (kindOf t)).length

theorem generalParams_cons (t : List Char) (params : List (List Char)) :
    generalParams (t :: params) = generalParams params + if IsFp (kindOf t) then 0 else 1 := by
  unfold generalParams
  by_cases hfp : IsFp (kindOf t) <;> simp [hfp]

theorem floatingParams_cons (t : List Char) (params : List (List Char)) :
    floatingParams (t :: params) = floatingParams params + if IsFp (kindOf t) then 1 else 0 := by
  unfold floatingParams
  by_cases hfp : IsFp (kindOf t) <;> simp [hfp]

theorem length_general_typed {params : List (List Char)} {args : List UInt64} (hargs : args.length = params.length) :
    (general (typed (params.map kindOf) args)).length = generalParams params := by
  induction params generalizing args with
  | nil =>
    obtain rfl := List.length_eq_zero_iff.1 hargs
    rfl
  | cons t params ih =>
    cases args with
    | nil => cases hargs
    | cons v args =>
      have hrest := ih (Nat.succ_inj.1 hargs)
      have htyped : typed ((t :: params).map kindOf) (v :: args) =
        (param (kindOf t), v) :: typed (params.map kindOf) args := rfl
      rw [htyped, generalParams_cons]
      by_cases hfp : IsFp (kindOf t)
      · rw [general_cons_fp (isFp_param.2 hfp), hrest, if_pos hfp, Nat.add_zero]
      · rw [general_cons_gp (isFp_param_false.2 hfp), List.length_cons, hrest, if_neg hfp]

/-- The shorty of a method is its return type and the types of its parameters. -/
theorem packArgs_placed {ret : Char} {ts : List Char} (hts : ∀ t ∈ ts, t ∈ kinds) {args : List UInt64}
    {env receiver staticClazz : UInt64} {isStatic : Bool} {s : Packed}
    (h : packArgs (ret :: ts) env receiver staticClazz ts.length args false isStatic = some s)
    (v : Nat → UInt64) :
    let r := engineStart (eight s.x) (eight s.d) v
    r.x 0 = env ∧ r.x 1 = (if isStatic then staticClazz else receiver) ∧ r.Placed 2 0 (typed ts args) := by
  rw [packArgs, List.tail_cons, List.take_length] at h
  obtain ⟨hx, -, hgen, hflo⟩ := packArgs_loop hts h
  refine ⟨?_, ?_, ?_, ?_⟩
  · rw [engineStart_x _ _ _ (by decide), hx 0 (show 0 < 2 by decide)]
    rfl
  · rw [engineStart_x _ _ _ (by decide), hx 1 (show 1 < 2 by decide)]
    rfl
  · exact hgen.congr fun n hn => (engineStart_x _ _ _ hn).symm
  · exact hflo.congr fun n hn => (engineStart_v _ _ _ hn).symm

end ArtPi.Jni.Bridge
