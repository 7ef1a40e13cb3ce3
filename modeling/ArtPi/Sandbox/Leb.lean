import ArtPi.Lib.Leb128
import ArtPi.Sandbox.Catch

set_option autoImplicit false

/-! # What the LEB128 readers read

The code has two readers of unsigned and two of signed numbers: loops in `measureCatchHandlerList`
and unrolled ones in `vm/Leb128.h`. On numbers as dex files have them the two of each kind agree. -/

namespace ArtPi.Sandbox

open Leb128

/-- A LEB128 number as dex files have them: at most five bytes, not necessarily the shortest. -/
structure Leb where
  bytes : List UInt8
  spelled : Spelled bytes
  length_le : bytes.length ≤ 5

namespace Leb

def toU32 (l : Leb) : Nat := value l.bytes % 2 ^ 32

def toI32 (l : Leb) : Int := i32 (signed l.bytes % 2 ^ 32).toNat

theorem readUlebLoop_append {bs : List UInt8} (h : Spelled bs) {rounds : Nat} (hlen : bs.length ≤ rounds)
    (shift result : Nat) (rest : List UInt8) :
    readUlebLoop rounds shift result (bs ++ rest) = some (result ||| (value bs <<< shift) % 2 ^ 32, rest) := by
  induction bs generalizing rounds shift result with
  | nil => exact h.elim
  | cons b bs ih =>
    cases rounds with
    | zero => exact absurd hlen (by simp)
    | succ rounds =>
      rw [List.cons_append, readUlebLoop, or_value_cons]
      cases bs with
      | nil =>
        rw [if_pos ((high_bit b).2 h)]
        simp
      | cons c bs =>
        have hhigh : ¬ b.toNat &&& 0x80 = 0 := fun hlow => absurd ((high_bit b).1 hlow) (Nat.not_lt.2 h.1)
        rw [if_neg hhigh]
        exact ih h.2 (Nat.le_of_succ_le_succ hlen) _ _

theorem readUleb_append (l : Leb) (rest : List UInt8) :
    readUleb (l.bytes ++ rest) = some (l.toU32, rest) := by
  rw [readUleb, readUlebLoop_append l.spelled l.length_le, Nat.zero_or, Nat.shiftLeft_zero]
  rfl

theorem and_low7 {n : Nat} (h : n < 128) : n &&& 0x7f = n := by
  rw [low7, Nat.mod_eq_of_lt h]

theorem readUnsignedLeb128_append (l : Leb) (rest : List UInt8) :
    readUnsignedLeb128 (l.bytes ++ rest) = some (l.toU32, rest) := by
  rcases l.spelled.shapes l.length_le with ⟨a, h, ha⟩ | ⟨a, b, h, ha, hb⟩ |
    ⟨a, b, c, h, ha, hb, hc⟩ | ⟨a, b, c, d, h, ha, hb, hc, hd⟩ |
    ⟨a, b, c, d, e, h, ha, hb, hc, hd, he⟩
  all_goals
    simp only [toU32, h, readUnsignedLeb128, nextByte, List.cons_append, List.nil_append, Option.bind_eq_bind,
      Option.bind_some, value_cons_mod, or_value_cons]
    simp (disch := omega) only [if_pos, if_neg, and_low7, value_nil, Nat.zero_shiftLeft, Nat.zero_mod, Nat.or_zero]

theorem i32_emod {x : Int} (hlo : -2 ^ 31 ≤ x) (hhi : x < 2 ^ 31) :
    i32 (x % 2 ^ 32).toNat = x := by
  rw [i32]
  split <;> omega

theorem toI32_of_short (l : Leb) (h : l.bytes.length ≤ 4) : l.toI32 = signed l.bytes := by
  have hpow : 128 ^ l.bytes.length ≤ 2 ^ 28 :=
    Nat.pow_le_pow_right (show 0 < 128 by omega) h
  have hlt := value_lt l.bytes
  rw [toI32, i32_emod]
  all_goals
    rw [signed]
    split <;> omega

/-- A fifth byte fills the word, so there is nothing to extend. -/
theorem toI32_of_five (l : Leb) (h : l.bytes.length = 5) : l.toI32 = i32 l.toU32 := by
  have hsigned : (signed l.bytes % 2 ^ 32).toNat = value l.bytes % 2 ^ 32 := by
    rw [signed, h]
    split <;> omega
  rw [toI32, hsigned, toU32]

theorem signExtend_value {bs : List UInt8} (h : bs.length ≤ 4) :
    signExtend (value bs) (32 - 7 * bs.length) = signed bs := by
  obtain ⟨p, hp⟩ : ∃ p, p = 2 ^ (32 - 7 * bs.length) := ⟨_, rfl⟩
  have hprod : 128 ^ bs.length * p = 2 ^ 32 := by
    rw [hp, show 128 = 2 ^ 7 from rfl, ← pow_mul, ← pow_add]
    congr 1
    omega
  have hpos : 0 < p := by
    rw [hp]
    exact Nat.pow_pos (by omega)
  have hlt : value bs * p < 2 ^ 32 := by
    rw [← hprod]
    exact Nat.mul_lt_mul_of_pos_right (value_lt bs) hpos
  have hhalf : value bs * p < 2 ^ 31 ↔ 2 * value bs < 128 ^ bs.length := by
    have hmul : 2 * value bs * p < 128 ^ bs.length * p ↔ 2 * value bs < 128 ^ bs.length :=
      Nat.mul_lt_mul_right hpos
    rw [← hmul, hprod, Nat.mul_assoc]
    omega
  rw [signExtend, Nat.shiftLeft_eq, Int.shiftRight_eq_div_pow, ← hp, Nat.mod_eq_of_lt hlt, i32,
    signed]
  by_cases hv : 2 * value bs < 128 ^ bs.length
  · rw [if_pos (hhalf.mpr hv), if_pos hv, Nat.cast_mul, Int.mul_ediv_cancel _ (by omega)]
  · have hneg : ((value bs * p : Nat) : Int) - 2 ^ 32
        = ((value bs : Int) - (128 ^ bs.length : Nat)) * p := by
      rw [Int.sub_mul, ← Nat.cast_mul, ← Nat.cast_mul, hprod]
      rfl
    rw [if_neg (fun hlt => hv (hhalf.mp hlt)), if_neg hv, hneg, Int.mul_ediv_cancel _ (by omega)]

theorem readSignedLeb128_append (l : Leb) (rest : List UInt8) :
    readSignedLeb128 (l.bytes ++ rest) = some (l.toI32, rest) := by
  have hshort (n k : Nat) (hn : value l.bytes % 2 ^ 32 = n) (hk : k = 32 - 7 * l.bytes.length)
      (h : l.bytes.length ≤ 4) : signExtend n k = l.toI32 := by
    have hpow : 128 ^ l.bytes.length ≤ 2 ^ 28 := Nat.pow_le_pow_right (show 0 < 128 by omega) h
    have hlt := value_lt l.bytes
    rw [← hn, Nat.mod_eq_of_lt (by omega), hk, signExtend_value h, toI32_of_short l h]
  have hlong (n : Nat) (hn : value l.bytes % 2 ^ 32 = n) (h : l.bytes.length = 5) : i32 n = l.toI32 := by
    rw [toI32_of_five l h, toU32, hn]
  rcases l.spelled.shapes l.length_le with ⟨a, h, ha⟩ | ⟨a, b, h, ha, hb⟩ |
    ⟨a, b, c, h, ha, hb, hc⟩ | ⟨a, b, c, d, h, ha, hb, hc, hd⟩ |
    ⟨a, b, c, d, e, h, ha, hb, hc, hd, he⟩
  all_goals
    rw [h] at hshort hlong
    simp only [h, readSignedLeb128, nextByte, List.cons_append, List.nil_append, Option.bind_eq_bind,
      Option.bind_some]
    simp (disch := omega) only [if_pos, if_neg, and_low7]
    simp (disch := omega) only [value_cons_mod, or_value_cons, and_low7, value_nil, Nat.zero_shiftLeft,
      Nat.zero_mod, Nat.or_zero, Nat.reduceAdd] at hshort hlong
  case inr.inr.inr.inr => rw [hlong _ rfl rfl]
  all_goals rw [hshort _ _ rfl (by rfl) (by simp)]

theorem readSlebLoop_append {bs : List UInt8} (h : Spelled bs) {shift : Nat} (hshift : shift + 7 * bs.length < 39)
    (result : Nat) (rest : List UInt8) :
    readSlebLoop shift result (bs ++ rest) = some (i32 (
      if shift + 7 * bs.length < 32 ∧ 128 ^ bs.length ≤ 2 * value bs
      then result ||| (value bs <<< shift) % 2 ^ 32 ||| (2 ^ 32 - 2 ^ (shift + 7 * bs.length))
      else result ||| (value bs <<< shift) % 2 ^ 32), rest) := by
  induction bs generalizing shift result with
  | nil => exact h.elim
  | cons b bs ih =>
    rw [List.length_cons] at hshift
    rw [List.cons_append, readSlebLoop, if_neg (by omega), or_value_cons]
    cases bs with
    | nil =>
      have hhigh : ¬ b.toNat &&& 0x80 ≠ 0 := not_not.2 ((high_bit b).2 h)
      simp only [if_neg hhigh, sign_singleton h]
      simp only [List.length_singleton, Nat.mul_one, List.nil_append, value_nil, Nat.zero_shiftLeft, Nat.zero_mod,
        Nat.or_zero]
      split_ifs <;> rfl
    | cons c bs =>
      have hhigh : b.toNat &&& 0x80 ≠ 0 := fun hlow => absurd ((high_bit b).1 hlow) (Nat.not_lt.2 h.1)
      have htop : shift + 7 * (b :: c :: bs).length = shift + 7 + 7 * (c :: bs).length := by
        rw [List.length_cons, Nat.mul_succ]
        omega
      simp only [if_pos hhigh, sign_cons b (List.cons_ne_nil c bs), htop]
      exact ih h.2 (by omega) _

theorem readSleb_append (l : Leb) (rest : List UInt8) :
    readSleb (l.bytes ++ rest) = some (l.toI32, rest) := by
  have hlen := l.length_le
  rw [readSleb, readSlebLoop_append l.spelled (by omega), Nat.zero_or, Nat.shiftLeft_zero, Nat.zero_add]
  congr 2
  rcases Nat.lt_or_ge l.bytes.length 5 with h | h
  · have hpow : 128 ^ l.bytes.length = 2 ^ (7 * l.bytes.length) := by
      rw [show 128 = 2 ^ 7 from rfl, ← pow_mul]
    have hle : 2 ^ (7 * l.bytes.length) ≤ 2 ^ 28 := Nat.pow_le_pow_right (show 0 < 2 by omega) (by omega)
    have hlt := value_lt l.bytes
    rw [hpow] at hlt ⊢
    rw [Nat.mod_eq_of_lt (by omega), toI32_of_short l (by omega), signed, hpow]
    by_cases hsign : 2 ^ (7 * l.bytes.length) ≤ 2 * value l.bytes
    · rw [if_pos ⟨by omega, hsign⟩, or_ones hlt (by omega), i32, if_neg (by omega), if_neg (by omega)]
      omega
    · rw [if_neg (fun h => hsign h.2), i32, if_pos (by omega), if_pos (by omega)]
  · rw [if_neg (by omega), toI32_of_five l (by omega), toU32]

end Leb

end ArtPi.Sandbox
