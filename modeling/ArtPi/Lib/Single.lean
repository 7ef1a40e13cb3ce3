import Mathlib.Algebra.Order.Ring.Int
import Mathlib.Data.Nat.Basic

set_option autoImplicit false

/-! # Between double and single precision

`doubleToSingle` is the conversion of IEEE 754 binary64 to binary32 on the bits of both, rounding to
the nearest value and to the even one of two, as the hardware converts: a NaN keeps its sign and the
upper part of its payload and is made quiet.

A double whose bits are those of a number below `2 ^ 32` is smaller than every single but zero, so
bits of a single that are taken for the bits of a double do not survive (`doubleToSingle_of_lt`).

`singleToDouble` is the conversion the other way. Every single is a double, so that it comes back as it was, but for the
NaNs that are made quiet (`doubleToSingle_singleToDouble_iff`). -/

namespace ArtPi.Lib

/-- `n / 2 ^ k`, rounded to the nearest number, in the middle to the even one. -/
def roundHalfEven (n k : Nat) : Nat :=
  let q := n / 2 ^ k
  let r := n % 2 ^ k
  if 2 ^ k < 2 * r ∨ 2 ^ k = 2 * r ∧ q % 2 = 1 then q + 1 else q

/-- The magnitude of a finite double with exponent field `e` and fraction `m`, as a single: the
    exponent field and the fraction together, where a fraction that is rounded up to `2 ^ 23` carries
    into the exponent. -/
def finiteToSingle (e m : Nat) : Nat :=
  let significand := if e = 0 then m else 2 ^ 52 + m
  let exponent := max e 1
  min 0x7F800000
    ((exponent - 897) * 2 ^ 23 + roundHalfEven significand (max 29 (926 - exponent)))

/-- The bits of the single that the double with bits `d` is converted to. -/
def doubleToSingle (d : Nat) : Nat :=
  let sign := d / 2 ^ 63 % 2
  let e := d / 2 ^ 52 % 2 ^ 11
  let m := d % 2 ^ 52
  sign * 2 ^ 31 +
    if e = 2047 then
      if m = 0 then 0x7F800000 else 0x7FC00000 + m % 2 ^ 51 / 2 ^ 29
    else finiteToSingle e m

theorem roundHalfEven_eq_zero {n k : Nat} (h : 2 * n < 2 ^ k) : roundHalfEven n k = 0 := by
  have hq : n / 2 ^ k = 0 := Nat.div_eq_of_lt (by omega)
  have hr : n % 2 ^ k = n := Nat.mod_eq_of_lt (by omega)
  unfold roundHalfEven
  simp only [hq, hr]
  rw [if_neg (by omega)]

theorem roundHalfEven_mul (q k : Nat) : roundHalfEven (q * 2 ^ k) k = q := by
  have hpos : 0 < 2 ^ k := Nat.two_pow_pos k
  unfold roundHalfEven
  simp only [Nat.mul_div_cancel _ hpos, Nat.mul_mod_left]
  exact if_neg (by omega)

theorem doubleToSingle_lt (d : Nat) : doubleToSingle d < 2 ^ 32 := by
  have hfinite : ∀ e m, finiteToSingle e m ≤ 0x7F800000 := fun e m => Nat.min_le_left _ _
  have hsign : d / 2 ^ 63 % 2 < 2 := Nat.mod_lt _ (by omega)
  unfold doubleToSingle
  simp only
  split
  · split <;> omega
  · have := hfinite (d / 2 ^ 52 % 2 ^ 11) (d % 2 ^ 52)
    omega

/-- The bits of a single, taken for those of a double, are converted to zero. -/
theorem doubleToSingle_of_lt {d : Nat} (h : d < 2 ^ 32) : doubleToSingle d = 0 := by
  have hsign : d / 2 ^ 63 = 0 := Nat.div_eq_of_lt (by omega)
  have hexp : d / 2 ^ 52 = 0 := Nat.div_eq_of_lt (by omega)
  have hfrac : d % 2 ^ 52 = d := Nat.mod_eq_of_lt (by omega)
  have hround : finiteToSingle 0 d = 0 := by
    have hpow : 2 ^ 33 ≤ 2 ^ (max 29 (926 - max 0 1)) := Nat.pow_le_pow_right (by omega) (by omega)
    unfold finiteToSingle
    simp only [if_true]
    rw [roundHalfEven_eq_zero (Nat.lt_of_lt_of_le (by omega) hpow)]
    rfl
  unfold doubleToSingle
  simp only [hsign, hexp, hfrac, hround, Nat.zero_mod, Nat.zero_mul]
  rfl

/-! ## The way back -/

/-- The bits of the double that the single with bits `b` is converted to. A subnormal single is a normal double, whose
leading bit is the leading bit of the fraction. -/
def singleToDouble (b : Nat) : Nat :=
  let sign := b / 2 ^ 31 % 2
  let e := b / 2 ^ 23 % 2 ^ 8
  let m := b % 2 ^ 23
  sign * 2 ^ 63 +
    if e = 255 then
      if m = 0 then 2047 * 2 ^ 52 else 2047 * 2 ^ 52 + 2 ^ 51 + m % 2 ^ 22 * 2 ^ 29
    else if e = 0 then
      if m = 0 then 0 else (m.log2 + 874) * 2 ^ 52 + (m - 2 ^ m.log2) * 2 ^ (52 - m.log2)
    else (e + 896) * 2 ^ 52 + m * 2 ^ 29

theorem subnormal_fraction_lt {m : Nat} (hpos : 0 < m) (hm : m < 2 ^ 23) :
    (m - 2 ^ m.log2) * 2 ^ (52 - m.log2) < 2 ^ 52 := by
  have hlog : m.log2 < 23 := (Nat.log2_lt (by omega)).2 hm
  have hlt : m < 2 ^ (m.log2 + 1) := Nat.lt_log2_self
  have hpow : 2 ^ m.log2 * 2 ^ (52 - m.log2) = 2 ^ 52 := by
    rw [← Nat.pow_add, Nat.add_sub_cancel' (by omega)]
  rw [← hpow]
  refine Nat.mul_lt_mul_of_pos_right ?_ (Nat.two_pow_pos _)
  rw [Nat.pow_succ] at hlt
  omega

/-- The exponent field and the fraction of a single, and those of the double it becomes. -/
inductive Widened : Nat → Nat → Nat → Nat → Prop where
  | infinite : Widened 255 0 2047 0
  | nan {m : Nat} (hpos : 0 < m) : Widened 255 m 2047 (2 ^ 51 + m % 2 ^ 22 * 2 ^ 29)
  | zero : Widened 0 0 0 0
  | subnormal {m : Nat} (hpos : 0 < m) : Widened 0 m (m.log2 + 874) ((m - 2 ^ m.log2) * 2 ^ (52 - m.log2))
  | normal {e m : Nat} (hpos : 0 < e) (hlt : e < 255) : Widened e m (e + 896) (m * 2 ^ 29)

theorem Widened.lt {e m e' m' : Nat} (h : Widened e m e' m') (hm : m < 2 ^ 23) : e' < 2 ^ 11 ∧ m' < 2 ^ 52 := by
  cases h with
  | infinite | zero => exact ⟨by omega, by omega⟩
  | nan hpos => exact ⟨by omega, by omega⟩
  | subnormal hpos =>
    have hlog : m.log2 < 23 := (Nat.log2_lt (Nat.ne_of_gt hpos)).2 hm
    exact ⟨by omega, subnormal_fraction_lt hpos hm⟩
  | normal hpos hlt => exact ⟨by omega, by omega⟩

theorem exists_widened (b : Nat) :
    ∃ e' m', Widened (b / 2 ^ 23 % 2 ^ 8) (b % 2 ^ 23) e' m' ∧
      singleToDouble b = b / 2 ^ 31 % 2 * 2 ^ 63 + (e' * 2 ^ 52 + m') := by
  have he : b / 2 ^ 23 % 2 ^ 8 < 2 ^ 8 := Nat.mod_lt _ (by omega)
  unfold singleToDouble
  generalize b / 2 ^ 31 % 2 = sign
  generalize b / 2 ^ 23 % 2 ^ 8 = e at he ⊢
  generalize b % 2 ^ 23 = m
  by_cases hmax : e = 255
  · subst hmax
    by_cases hzero : m = 0
    · subst hzero
      exact ⟨_, _, .infinite, rfl⟩
    · refine ⟨_, _, .nan (Nat.pos_of_ne_zero hzero), ?_⟩
      simp only [if_true, if_neg hzero]
      rw [Nat.add_assoc (2047 * 2 ^ 52)]
  · by_cases hnormal : e = 0
    · subst hnormal
      by_cases hzero : m = 0
      · subst hzero
        exact ⟨_, _, .zero, rfl⟩
      · refine ⟨_, _, .subnormal (Nat.pos_of_ne_zero hzero), ?_⟩
        simp only [if_neg hmax, if_true, if_neg hzero]
    · refine ⟨_, _, .normal (Nat.pos_of_ne_zero hnormal) (by omega), ?_⟩
      simp only [if_neg hmax, if_neg hnormal]

theorem singleToDouble_lt (b : Nat) : singleToDouble b < 2 ^ 64 := by
  have hm : b % 2 ^ 23 < 2 ^ 23 := Nat.mod_lt _ (by omega)
  have hsign : b / 2 ^ 31 % 2 < 2 := Nat.mod_lt _ (by omega)
  obtain ⟨e', m', hwidened, heq⟩ := exists_widened b
  obtain ⟨he', hm'⟩ := hwidened.lt hm
  omega

/-- A NaN whose payload begins with a zero. -/
def IsSignalingSingle (b : Nat) : Prop := b / 2 ^ 23 % 2 ^ 8 = 255 ∧ 0 < b % 2 ^ 23 ∧ b % 2 ^ 23 < 2 ^ 22

instance decidableIsSignalingSingle (b : Nat) : Decidable (IsSignalingSingle b) :=
  inferInstanceAs (Decidable (_ ∧ _ ∧ _))

theorem doubleToSingle_fields {sign e m : Nat} (hsign : sign < 2) (he : e < 2 ^ 11) (hm : m < 2 ^ 52) :
    doubleToSingle (sign * 2 ^ 63 + (e * 2 ^ 52 + m)) =
      sign * 2 ^ 31 +
        if e = 2047 then
          if m = 0 then 0x7F800000 else 0x7FC00000 + m % 2 ^ 51 / 2 ^ 29
        else finiteToSingle e m := by
  have h63 : (sign * 2 ^ 63 + (e * 2 ^ 52 + m)) / 2 ^ 63 % 2 = sign := by omega
  have h52 : (sign * 2 ^ 63 + (e * 2 ^ 52 + m)) / 2 ^ 52 % 2 ^ 11 = e := by omega
  have h0 : (sign * 2 ^ 63 + (e * 2 ^ 52 + m)) % 2 ^ 52 = m := by omega
  unfold doubleToSingle
  simp only [h63, h52, h0]

theorem finiteToSingle_normal {e m : Nat} (hpos : 0 < e) (he : e < 255) (hm : m < 2 ^ 23) :
    finiteToSingle (e + 896) (m * 2 ^ 29) = e * 2 ^ 23 + m := by
  have hmax : max (e + 896) 1 = e + 896 := by omega
  have hshift : max 29 (926 - (e + 896)) = 29 := by omega
  have hsignificand : 2 ^ 52 + m * 2 ^ 29 = (2 ^ 23 + m) * 2 ^ 29 := by omega
  unfold finiteToSingle
  simp only [if_neg (show ¬ e + 896 = 0 by omega), hmax, hshift, hsignificand, roundHalfEven_mul]
  omega

theorem finiteToSingle_subnormal {m : Nat} (hpos : 0 < m) (hm : m < 2 ^ 23) :
    finiteToSingle (m.log2 + 874) ((m - 2 ^ m.log2) * 2 ^ (52 - m.log2)) = m := by
  have hlog : m.log2 < 23 := (Nat.log2_lt (by omega)).2 hm
  have hle : 2 ^ m.log2 ≤ m := Nat.log2_self_le (by omega)
  have hmax : max (m.log2 + 874) 1 = m.log2 + 874 := by omega
  have hshift : max 29 (926 - (m.log2 + 874)) = 52 - m.log2 := by omega
  have hsignificand : 2 ^ 52 + (m - 2 ^ m.log2) * 2 ^ (52 - m.log2) = m * 2 ^ (52 - m.log2) := by
    have hpow : 2 ^ 52 = 2 ^ m.log2 * 2 ^ (52 - m.log2) := by
      rw [← Nat.pow_add, Nat.add_sub_cancel' (by omega)]
    rw [hpow, ← Nat.add_mul, Nat.add_sub_cancel' hle]
  unfold finiteToSingle
  simp only [if_neg (show ¬ m.log2 + 874 = 0 by omega), hmax, hshift, hsignificand, roundHalfEven_mul]
  omega

/-- The fields of the single that the double becomes: a NaN comes back with its payload begun by a one. -/
theorem Widened.back {e m e' m' : Nat} (h : Widened e m e' m') (hm : m < 2 ^ 23) :
    (if e' = 2047 then if m' = 0 then 0x7F800000 else 0x7FC00000 + m' % 2 ^ 51 / 2 ^ 29 else finiteToSingle e' m') =
      e * 2 ^ 23 + if e = 255 ∧ 0 < m then 2 ^ 22 + m % 2 ^ 22 else m := by
  cases h with
  | infinite | zero => decide +kernel
  | nan hpos =>
    have hne : ¬ 2 ^ 51 + m % 2 ^ 22 * 2 ^ 29 = 0 := by omega
    have hpayload : (2 ^ 51 + m % 2 ^ 22 * 2 ^ 29) % 2 ^ 51 = m % 2 ^ 22 * 2 ^ 29 := by omega
    rw [if_pos rfl, if_neg hne, hpayload, Nat.mul_div_cancel _ (Nat.two_pow_pos 29), if_pos ⟨rfl, hpos⟩]
    omega
  | subnormal hpos =>
    have hlog : m.log2 < 23 := (Nat.log2_lt (Nat.ne_of_gt hpos)).2 hm
    rw [if_neg (by omega), finiteToSingle_subnormal hpos hm, if_neg (by omega)]
    omega
  | normal hpos hlt =>
    rw [if_neg (by omega), finiteToSingle_normal hpos hlt hm, if_neg (by omega)]

/-- A single comes back from double precision iff it is not a signaling NaN. -/
theorem doubleToSingle_singleToDouble_iff {b : Nat} (hb : b < 2 ^ 32) :
    doubleToSingle (singleToDouble b) = b ↔ ¬ IsSignalingSingle b := by
  have hsign : b / 2 ^ 31 % 2 < 2 := Nat.mod_lt _ (by omega)
  have hm : b % 2 ^ 23 < 2 ^ 23 := Nat.mod_lt _ (by omega)
  have hfields : b = b / 2 ^ 31 % 2 * 2 ^ 31 + (b / 2 ^ 23 % 2 ^ 8 * 2 ^ 23 + b % 2 ^ 23) := by omega
  obtain ⟨e', m', hwidened, heq⟩ := exists_widened b
  obtain ⟨he', hm'⟩ := hwidened.lt hm
  rw [heq, doubleToSingle_fields hsign he' hm', hwidened.back hm]
  unfold IsSignalingSingle
  generalize b / 2 ^ 31 % 2 = sign at hfields
  generalize b / 2 ^ 23 % 2 ^ 8 = e at hfields
  generalize b % 2 ^ 23 = m at hm hfields
  split <;> omega

/-! ## Integers in double precision -/

/-- A number with 53 significant bits. -/
def Representable (n : Nat) : Prop := ∃ m k, m < 2 ^ 53 ∧ n = m * 2 ^ k

/-- The double that is nearest to a number, below the largest ones. -/
def natToDouble (n : Nat) : Nat :=
  let k := n.log2 + 1 - 53
  roundHalfEven n k * 2 ^ k

def intToDouble (x : Int) : Int := if x < 0 then -natToDouble x.natAbs else natToDouble x.natAbs

theorem representable_of_lt {n : Nat} (h : n < 2 ^ 53) : Representable n := ⟨n, 0, h, by omega⟩

theorem natToDouble_eq_iff (n : Nat) : natToDouble n = n ↔ Representable n := by
  unfold natToDouble
  constructor
  · intro h
    have hdvd : 2 ^ (n.log2 + 1 - 53) ∣ n := Dvd.intro_left _ h
    refine ⟨n / 2 ^ (n.log2 + 1 - 53), n.log2 + 1 - 53, ?_, (Nat.div_mul_cancel hdvd).symm⟩
    rw [Nat.div_lt_iff_lt_mul (Nat.two_pow_pos _), ← Nat.pow_add]
    exact Nat.lt_of_lt_of_le Nat.lt_log2_self (Nat.pow_le_pow_right (by omega) (by omega))
  · rintro ⟨m, k, hm, rfl⟩
    by_cases hzero : m = 0
    · subst hzero
      rw [Nat.zero_mul]
      rfl
    · have hne : m * 2 ^ k ≠ 0 := Nat.mul_ne_zero hzero (Nat.ne_of_gt (Nat.two_pow_pos k))
      have hlog : (m * 2 ^ k).log2 < 53 + k := by
        rw [Nat.log2_lt hne, Nat.pow_add]
        exact Nat.mul_lt_mul_of_pos_right hm (Nat.two_pow_pos k)
      obtain ⟨q, hq⟩ : 2 ^ ((m * 2 ^ k).log2 + 1 - 53) ∣ m * 2 ^ k :=
        Dvd.dvd.mul_left (Nat.pow_dvd_pow 2 (by omega)) m
      generalize (m * 2 ^ k).log2 + 1 - 53 = shift at hq ⊢
      rw [hq, Nat.mul_comm (2 ^ shift) q]
      exact congrArg (· * 2 ^ shift) (roundHalfEven_mul q shift)

theorem roundHalfEven_le (n k : Nat) : roundHalfEven n k ≤ n / 2 ^ k + 1 := by
  unfold roundHalfEven
  simp only
  split <;> omega

theorem natToDouble_le {n j : Nat} (h : n ≤ 2 ^ j) : natToDouble n ≤ 2 ^ j := by
  rcases Nat.eq_or_lt_of_le h with heq | hlt
  · have hpow : Representable n := ⟨1, j, by decide, by rw [heq, Nat.one_mul]⟩
    rwa [(natToDouble_eq_iff n).2 hpow]
  · by_cases hsmall : n < 2 ^ 53
    · rwa [(natToDouble_eq_iff n).2 (representable_of_lt hsmall)]
    · have hne : n ≠ 0 := by omega
      have hlog : n.log2 < j := (Nat.log2_lt hne).2 hlt
      have h53 : 53 ≤ n.log2 := by
        by_contra hno
        exact hsmall ((Nat.log2_lt hne).1 (by omega))
      have hq : n / 2 ^ (n.log2 + 1 - 53) < 2 ^ 53 := by
        rw [Nat.div_lt_iff_lt_mul (Nat.two_pow_pos _), ← Nat.pow_add]
        exact Nat.lt_of_lt_of_le Nat.lt_log2_self (Nat.pow_le_pow_right (by omega) (by omega))
      have hround := roundHalfEven_le n (n.log2 + 1 - 53)
      calc natToDouble n ≤ 2 ^ 53 * 2 ^ (n.log2 + 1 - 53) := Nat.mul_le_mul_right _ (by omega)
        _ = 2 ^ (53 + (n.log2 + 1 - 53)) := (Nat.pow_add 2 53 _).symm
        _ ≤ 2 ^ j := Nat.pow_le_pow_right (by omega) (by omega)

theorem intToDouble_eq_iff (x : Int) : intToDouble x = x ↔ Representable x.natAbs := by
  rw [← natToDouble_eq_iff]
  unfold intToDouble
  split <;> omega

theorem intToDouble_bounds {x : Int} {j : Nat} (h : x.natAbs ≤ 2 ^ j) :
    -2 ^ j ≤ intToDouble x ∧ intToDouble x ≤ 2 ^ j := by
  have hle : (natToDouble x.natAbs : Int) ≤ 2 ^ j := by exact_mod_cast natToDouble_le h
  unfold intToDouble
  split <;> omega

theorem intToDouble_of_lt {x : Int} (h : x.natAbs < 2 ^ 53) : intToDouble x = x :=
  (intToDouble_eq_iff x).2 (representable_of_lt h)

/-! ## Between integers and bits -/

/-- The bits of the number that is nearest to `n`, with a significand of `p` bits. One that is rounded up to `2 ^ p`
carries into the exponent. -/
def natBits (p bias n : Nat) : Nat :=
  if n = 0 then 0
  else
    min ((2 * bias + 1) * 2 ^ (p - 1))
      ((n.log2 + bias - 1) * 2 ^ (p - 1) + roundHalfEven (n * 2 ^ (p - 1)) n.log2)

/-- The bits of the single that is nearest to an integer. -/
def intToSingleBits (x : Int) : Nat := (if x < 0 then 2 ^ 31 else 0) + natBits 24 127 x.natAbs

/-- The bits of the double that is nearest to an integer. -/
def intToDoubleBits (x : Int) : Nat := (if x < 0 then 2 ^ 63 else 0) + natBits 53 1023 x.natAbs

/-- The integer of `w` bits that the double with bits `d` is truncated to, the last one where there is none, and zero
for a NaN. -/
def doubleToInt (w d : Nat) : Int :=
  let e := d / 2 ^ 52 % 2 ^ 11
  let m := d % 2 ^ 52
  let magnitude : Nat :=
    if e = 0 then 0
    else if e < 1075 then (2 ^ 52 + m) / 2 ^ (1075 - e)
    else (2 ^ 52 + m) * 2 ^ (e - 1075)
  if e = 2047 ∧ m ≠ 0 then 0
  else if d / 2 ^ 63 % 2 = 1 then max (-2 ^ (w - 1)) (-magnitude)
  else min (2 ^ (w - 1) - 1) magnitude

example : intToDoubleBits (-3) = 0xC008000000000000 ∧ intToSingleBits 16777217 = 0x4B800000 ∧
    doubleToInt 32 0xC00C000000000000 = -3 := by decide

/-- The lower half of a single in double precision is the single itself only for zero: of the single it has three bits,
those at its lower end, and has them at its upper end. -/
theorem singleToDouble_mod_eq_iff {b : Nat} (hb : b < 2 ^ 32) : singleToDouble b % 2 ^ 32 = b ↔ b = 0 := by
  have hm : b % 2 ^ 23 < 2 ^ 23 := Nat.mod_lt _ (by omega)
  have hfields : b = b / 2 ^ 31 % 2 * 2 ^ 31 + (b / 2 ^ 23 % 2 ^ 8 * 2 ^ 23 + b % 2 ^ 23) := by omega
  obtain ⟨e', m', hwidened, heq⟩ := exists_widened b
  have hlow : singleToDouble b % 2 ^ 32 = m' % 2 ^ 32 := by omega
  rw [hlow]
  clear heq hlow
  generalize b / 2 ^ 31 % 2 = sign at hfields
  generalize b / 2 ^ 23 % 2 ^ 8 = e at hfields hwidened
  generalize b % 2 ^ 23 = m at hm hfields hwidened
  cases hwidened with
  | infinite | zero => omega
  | nan hpos => omega
  | subnormal hpos =>
    -- the fraction of a subnormal is moved up by at least thirty bits
    have hlog : m.log2 < 23 := (Nat.log2_lt (Nat.ne_of_gt hpos)).2 hm
    have hshift : 2 ^ (52 - m.log2) = 2 ^ 30 * 2 ^ (22 - m.log2) := by
      rw [← Nat.pow_add]
      congr 1
      omega
    obtain ⟨q, hq⟩ : 2 ^ 30 ∣ (m - 2 ^ m.log2) * 2 ^ (52 - m.log2) :=
      Dvd.dvd.mul_left (Dvd.intro _ hshift.symm) _
    rw [hq]
    clear hshift hq
    omega
  | normal hpos hlt => omega

end ArtPi.Lib
