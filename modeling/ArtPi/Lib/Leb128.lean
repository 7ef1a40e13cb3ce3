import Mathlib.Data.Nat.Bitwise
import Mathlib.Tactic.Ring

set_option autoImplicit false

/-! # LEB128 numbers

Groups of seven bits, the lowest first; every byte but the last has its high bit set. A spelling
need not be the shortest one. `or_value_cons` says what a reader has that ors the groups into a word
of `w` bits, one after the other; spellings longer than the word end up modulo `2 ^ w`. -/

namespace ArtPi.Leb128

/-- A complete spelling: exactly the last byte has its high bit clear. -/
def Spelled : List UInt8 → Prop
  | [] => False
  | [b] => b.toNat < 128
  | b :: bs => 128 ≤ b.toNat ∧ Spelled bs

instance decidableSpelled : (bs : List UInt8) → Decidable (Spelled bs)
  | [] => isFalse id
  | [b] => inferInstanceAs (Decidable (b.toNat < 128))
  | b :: c :: bs =>
    have := decidableSpelled (c :: bs)
    inferInstanceAs (Decidable (128 ≤ b.toNat ∧ Spelled (c :: bs)))

/-- The unsigned number that is spelled. -/
def value : List UInt8 → Nat
  | [] => 0
  | b :: bs => b.toNat % 128 + 128 * value bs

/-- The signed number that is spelled: the highest bit of the last group is the sign. -/
def signed (bs : List UInt8) : Int :=
  if 2 * value bs < 128 ^ bs.length then value bs
  else (value bs : Int) - (128 ^ bs.length : Nat)

theorem value_lt (bs : List UInt8) : value bs < 128 ^ bs.length := by
  induction bs with
  | nil => simp [value]
  | cons b bs ih =>
    have := Nat.mod_lt b.toNat (show 0 < 128 by omega)
    rw [value, List.length_cons, pow_succ]
    omega

theorem Spelled.shapes {bs : List UInt8} (h : Spelled bs) (hlen : bs.length ≤ 5) :
    (∃ a, bs = [a] ∧ a.toNat < 128) ∨
    (∃ a b, bs = [a, b] ∧ 128 ≤ a.toNat ∧ b.toNat < 128) ∨
    (∃ a b c, bs = [a, b, c] ∧ 128 ≤ a.toNat ∧ 128 ≤ b.toNat ∧ c.toNat < 128) ∨
    (∃ a b c d, bs = [a, b, c, d] ∧ 128 ≤ a.toNat ∧ 128 ≤ b.toNat ∧ 128 ≤ c.toNat ∧
      d.toNat < 128) ∨
    (∃ a b c d e, bs = [a, b, c, d, e] ∧ 128 ≤ a.toNat ∧ 128 ≤ b.toNat ∧ 128 ≤ c.toNat ∧
      128 ≤ d.toNat ∧ e.toNat < 128) := by
  match bs, h, hlen with
  | [], h, _ => exact h.elim
  | [a], h, _ => exact .inl ⟨a, rfl, h⟩
  | [a, b], h, _ => exact .inr (.inl ⟨a, b, rfl, h.1, h.2⟩)
  | [a, b, c], h, _ => exact .inr (.inr (.inl ⟨a, b, c, rfl, h.1, h.2.1, h.2.2⟩))
  | [a, b, c, d], h, _ =>
    exact .inr (.inr (.inr (.inl ⟨a, b, c, d, rfl, h.1, h.2.1, h.2.2.1, h.2.2.2⟩)))
  | [a, b, c, d, e], h, _ =>
    exact .inr (.inr (.inr (.inr
      ⟨a, b, c, d, e, rfl, h.1, h.2.1, h.2.2.1, h.2.2.2.1, h.2.2.2.2⟩)))
  | _ :: _ :: _ :: _ :: _ :: _ :: _, _, hlen =>
    simp only [List.length_cons] at hlen
    omega

/-- Or-ing a shifted number into a word whose bits are all below it is adding it modulo the word. -/
theorem or_shift {w k x : Nat} (y : Nat) (hx : x < 2 ^ k) (hk : k ≤ w) :
    x ||| (y <<< k) % 2 ^ w = x + (y * 2 ^ k) % 2 ^ w := by
  have hmod : (y * 2 ^ k) % 2 ^ w = (y % 2 ^ (w - k)) * 2 ^ k := by
    rw [← Nat.mul_mod_mul_right, ← pow_add, Nat.sub_add_cancel hk]
  rw [Nat.shiftLeft_eq, hmod, Nat.or_comm, ← Nat.shiftLeft_eq,
    ← Nat.shiftLeft_add_eq_or_of_lt hx, Nat.add_comm]

theorem or_ones {w k x : Nat} (hx : x < 2 ^ k) (hk : k ≤ w) :
    x ||| (2 ^ w - 2 ^ k) = x + (2 ^ w - 2 ^ k) := by
  have hones : 2 ^ w - 2 ^ k = (2 ^ (w - k) - 1) * 2 ^ k := by
    rw [Nat.sub_mul, ← pow_add, Nat.sub_add_cancel hk, Nat.one_mul]
  have hlt : (2 ^ (w - k) - 1) * 2 ^ k < 2 ^ w := by
    have := Nat.pow_pos (n := k) (show 0 < 2 by omega)
    have := Nat.pow_pos (n := w) (show 0 < 2 by omega)
    omega
  have h := or_shift (w := w) (2 ^ (w - k) - 1) hx hk
  rwa [Nat.shiftLeft_eq, Nat.mod_eq_of_lt hlt, ← hones] at h

theorem and_bit (n k : Nat) : n &&& 2 ^ k = n / 2 ^ k % 2 * 2 ^ k := by
  rw [Nat.and_two_pow, Nat.testBit_eq_decide_div_mod_eq]
  rcases Nat.mod_two_eq_zero_or_one (n / 2 ^ k) with h | h
  · simp [h]
  · simp [h]

theorem high_bit (b : UInt8) : b.toNat &&& 0x80 = 0 ↔ b.toNat < 128 := by
  have := b.toNat_lt
  rw [show (0x80 : Nat) = 2 ^ 7 from rfl, and_bit]
  omega

theorem sign_bit (n : Nat) : n &&& 0x40 = 0 ↔ n / 64 % 2 = 0 := by
  rw [show (0x40 : Nat) = 2 ^ 6 from rfl, and_bit]
  omega

theorem low7 (n : Nat) : n &&& 0x7f = n % 128 := Nat.and_two_pow_sub_one_eq_mod n 7

/-! ## The groups in a word -/

/-- A reader that ors the groups into a word, one behind the other, ends with the value in the word. -/
theorem or_value_cons (w k r : Nat) (b : UInt8) (bs : List UInt8) :
    r ||| (value (b :: bs) <<< k) % 2 ^ w =
      r ||| ((b.toNat &&& 0x7f) <<< k) % 2 ^ w ||| (value bs <<< (k + 7)) % 2 ^ w := by
  have hgroup : value (b :: bs) = (b.toNat &&& 0x7f) ||| value bs <<< 7 := by
    have hlt : b.toNat % 128 < 2 ^ 7 := Nat.mod_lt _ (by omega)
    rw [value, low7, Nat.or_comm, ← Nat.shiftLeft_add_eq_or_of_lt hlt, Nat.shiftLeft_eq]
    omega
  rw [hgroup, Nat.shiftLeft_or_distrib, Nat.or_mod_two_pow, ← Nat.shiftLeft_add, Nat.add_comm 7 k, Nat.or_assoc]

@[simp] theorem value_nil : value [] = 0 := rfl

theorem value_cons_mod (b : UInt8) (bs : List UInt8) :
    value (b :: bs) % 2 ^ 32 = (b.toNat &&& 0x7f) ||| (value bs <<< 7) % 2 ^ 32 := by
  have hlow : (b.toNat &&& 0x7f) % 2 ^ 32 = b.toNat &&& 0x7f := by
    rw [low7]
    omega
  have h := or_value_cons 32 0 0 b bs
  simp only [Nat.shiftLeft_zero, Nat.zero_or, Nat.zero_add, hlow] at h
  exact h

theorem sign_singleton {b : UInt8} (h : b.toNat < 128) :
    128 ^ [b].length ≤ 2 * value [b] ↔ b.toNat &&& 0x40 ≠ 0 := by
  rw [ne_eq, sign_bit, show value [b] = b.toNat % 128 + 128 * 0 from rfl, Nat.mod_eq_of_lt h, List.length_singleton,
    pow_one]
  omega

theorem sign_cons (b : UInt8) {bs : List UInt8} (h : bs ≠ []) :
    128 ^ (b :: bs).length ≤ 2 * value (b :: bs) ↔ 128 ^ bs.length ≤ 2 * value bs := by
  obtain ⟨c, bs, rfl⟩ := List.exists_cons_of_ne_nil h
  have hlow := Nat.mod_lt b.toNat (show 0 < 128 by omega)
  rw [show value (b :: c :: bs) = b.toNat % 128 + 128 * value (c :: bs) from rfl]
  simp only [List.length_cons, pow_succ]
  omega

end ArtPi.Leb128
