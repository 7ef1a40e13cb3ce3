import Mathlib.Data.List.Basic
import Mathlib.Data.Nat.Bitwise
import Mathlib.Algebra.Order.Ring.Int

set_option autoImplicit false

/-! # Bit streams

The bits of a byte list, those of a byte from its lowest on, and the number that a list of bits spells in the same
order. -/

namespace ArtPi.Lib.Bits

/-- The `n` low bits of a number, the lowest first. -/
def spell (n v : Nat) : List Bool := (List.range n).map (v.testBit ·)

/-- The number a list of bits spells. -/
def number : List Bool → Nat
  | [] => 0
  | b :: bits => b.toNat + 2 * number bits

/-- The bits of a byte list. -/
def ofBytes (bytes : List UInt8) : List Bool := bytes.flatMap (fun b => spell 8 b.toNat)

@[simp] theorem length_spell (n v : Nat) : (spell n v).length = n := by
  rw [spell, List.length_map, List.length_range]

@[simp] theorem length_ofBytes (bytes : List UInt8) : (ofBytes bytes).length = 8 * bytes.length := by
  induction bytes with
  | nil => rfl
  | cons b bytes ih =>
    rw [ofBytes, List.flatMap_cons, List.length_append, length_spell, List.length_cons]
    rw [ofBytes] at ih
    omega

theorem getElem?_ofBytes (bytes : List UInt8) (i : Nat) :
    (ofBytes bytes)[i]? = bytes[i / 8]?.map (fun b => b.toNat.testBit (i % 8)) := by
  induction bytes generalizing i with
  | nil => rfl
  | cons b bytes ih =>
    rw [ofBytes, List.flatMap_cons]
    by_cases hi : i < 8
    · have hdiv : i / 8 = 0 := by omega
      have hmod : i % 8 = i := by omega
      rw [List.getElem?_append_left (by rwa [length_spell]), hdiv, hmod]
      simp [spell, hi]
    · have hdiv : i / 8 = (i - 8) / 8 + 1 := by omega
      have hmod : i % 8 = (i - 8) % 8 := by omega
      rw [List.getElem?_append_right (by rw [length_spell]; omega), length_spell, hdiv, hmod,
        List.getElem?_cons_succ]
      exact ih (i - 8)

theorem number_lt (bits : List Bool) : number bits < 2 ^ bits.length := by
  induction bits with
  | nil => decide
  | cons b bits ih =>
    have hb := b.toNat_lt
    rw [number, List.length_cons, Nat.pow_succ]
    omega

theorem number_append (bits rest : List Bool) :
    number (bits ++ rest) = number bits + 2 ^ bits.length * number rest := by
  induction bits with
  | nil => simp [number]
  | cons b bits ih =>
    rw [List.cons_append, number, number, ih, List.length_cons, Nat.pow_succ, Nat.mul_add]
    rw [Nat.mul_right_comm, Nat.mul_comm _ 2]
    omega

theorem number_split (bits : List Bool) (k : Nat) :
    number bits = number (bits.take k) + 2 ^ k * number (bits.drop k) ∧ number (bits.take k) < 2 ^ k := by
  by_cases hk : k ≤ bits.length
  · have hlen : (bits.take k).length = k := List.length_take_of_le hk
    have hsplit := number_append (bits.take k) (bits.drop k)
    have hlt := number_lt (bits.take k)
    rw [List.take_append_drop, hlen] at hsplit
    rw [hlen] at hlt
    exact ⟨hsplit, hlt⟩
  · have hpow : 2 ^ bits.length ≤ 2 ^ k := Nat.pow_le_pow_right (by omega) (by omega)
    rw [List.take_of_length_le (by omega), List.drop_of_length_le (by omega)]
    exact ⟨rfl, Nat.lt_of_lt_of_le (number_lt bits) hpow⟩

theorem number_drop (bits : List Bool) (k : Nat) : number (bits.drop k) = number bits >>> k := by
  obtain ⟨hsplit, hlt⟩ := number_split bits k
  rw [hsplit, Nat.shiftRight_eq_div_pow, Nat.add_mul_div_left _ _ (Nat.two_pow_pos k), Nat.div_eq_of_lt hlt,
    Nat.zero_add]

theorem number_take (bits : List Bool) (k : Nat) : number (bits.take k) = number bits % 2 ^ k := by
  obtain ⟨hsplit, hlt⟩ := number_split bits k
  rw [hsplit, Nat.add_mul_mod_self_left, Nat.mod_eq_of_lt hlt]

theorem number_spell (n v : Nat) : number (spell n v) = v % 2 ^ n := by
  induction n with
  | zero => rw [Nat.pow_zero, Nat.mod_one]; rfl
  | succ n ih =>
    have hspell : spell (n + 1) v = spell n v ++ [v.testBit n] := by
      rw [spell, List.range_succ, List.map_append]
      rfl
    rw [hspell, number_append, ih, length_spell, Nat.pow_succ, Nat.mod_mul]
    rw [number, number, Nat.mul_zero, Nat.add_zero, Nat.toNat_testBit]

theorem number_append_or (bits rest : List Bool) :
    number bits ||| number rest <<< bits.length = number (bits ++ rest) := by
  rw [number_append, Nat.add_comm, Nat.shiftLeft_eq, Nat.mul_comm, Nat.or_comm]
  exact (Nat.two_pow_add_eq_or_of_lt (number_lt bits) (number rest)).symm

end ArtPi.Lib.Bits
