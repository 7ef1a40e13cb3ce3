import Mathlib.Data.List.Basic

set_option autoImplicit false

/-! # UTF-16

A text is a list of units. A character above the first plane is a pair of them; a half without the other half stands
for no character. -/

namespace ArtPi.Lib.Utf16

def isHigh (u : UInt16) : Bool := 0xD800 ≤ u && u ≤ 0xDBFF

def isLow (u : UInt16) : Bool := 0xDC00 ≤ u && u ≤ 0xDFFF

def encodeChar (c : Char) : List UInt16 :=
  if c.toNat < 0x10000 then [UInt16.ofNat c.toNat]
  else [UInt16.ofNat (0xD800 + (c.toNat - 0x10000) / 0x400), UInt16.ofNat (0xDC00 + (c.toNat - 0x10000) % 0x400)]

def encode (cs : List Char) : List UInt16 := cs.flatMap encodeChar

def replacement : Char := Char.ofNat 0xFFFD

/-- The character of a pair. -/
def pair (hi lo : UInt16) : Char := Char.ofNat (0x10000 + (hi.toNat - 0xD800) * 0x400 + (lo.toNat - 0xDC00))

/-- The characters of a text, with one in place of each half that is alone. -/
def decode : List UInt16 → List Char
  | [] => []
  | [u] => [if isHigh u = true ∨ isLow u = true then replacement else Char.ofNat u.toNat]
  | u :: v :: rest =>
    if isHigh u = true then
      if isLow v = true then pair u v :: decode rest else replacement :: decode (v :: rest)
    else (if isLow u = true then replacement else Char.ofNat u.toNat) :: decode (v :: rest)

theorem encode_cons (c : Char) (cs : List Char) : encode (c :: cs) = encodeChar c ++ encode cs := List.flatMap_cons

theorem toNat_lt (c : Char) : c.toNat < 0xD800 ∨ (0xDFFF < c.toNat ∧ c.toNat < 0x110000) := c.valid

theorem isHigh_iff {u : UInt16} : isHigh u = true ↔ 0xD800 ≤ u.toNat ∧ u.toNat ≤ 0xDBFF := by
  unfold isHigh
  rw [Bool.and_eq_true, decide_eq_true_iff, decide_eq_true_iff, UInt16.le_iff_toNat_le, UInt16.le_iff_toNat_le]
  rfl

theorem isLow_iff {u : UInt16} : isLow u = true ↔ 0xDC00 ≤ u.toNat ∧ u.toNat ≤ 0xDFFF := by
  unfold isLow
  rw [Bool.and_eq_true, decide_eq_true_iff, decide_eq_true_iff, UInt16.le_iff_toNat_le, UInt16.le_iff_toNat_le]
  rfl

theorem decode_cons_of_single {u : UInt16} (hhigh : isHigh u = false) (hlow : isLow u = false) (rest : List UInt16) :
    decode (u :: rest) = Char.ofNat u.toNat :: decode rest := by
  cases rest with
  | nil => simp [decode, hhigh, hlow]
  | cons v rest =>
    rw [decode, hhigh, hlow]
    rfl

theorem decode_cons_of_pair {u v : UInt16} (hhigh : isHigh u = true) (hlow : isLow v = true) (rest : List UInt16) :
    decode (u :: v :: rest) = pair u v :: decode rest := by
  rw [decode, if_pos hhigh, if_pos hlow]

theorem decode_encodeChar (c : Char) (rest : List UInt16) : decode (encodeChar c ++ rest) = c :: decode rest := by
  have hvalid := toNat_lt c
  unfold encodeChar
  split_ifs with hplane
  · have hunit : (UInt16.ofNat c.toNat).toNat = c.toNat := UInt16.toNat_ofNat_of_lt' hplane
    have hhigh : isHigh (UInt16.ofNat c.toNat) = false := by
      rw [← Bool.not_eq_true, isHigh_iff, hunit]
      omega
    have hlow : isLow (UInt16.ofNat c.toNat) = false := by
      rw [← Bool.not_eq_true, isLow_iff, hunit]
      omega
    rw [List.singleton_append, decode_cons_of_single hhigh hlow, hunit, Char.ofNat_toNat]
  · have hhi : (UInt16.ofNat (0xD800 + (c.toNat - 0x10000) / 0x400)).toNat = 0xD800 + (c.toNat - 0x10000) / 0x400 :=
      UInt16.toNat_ofNat_of_lt' (by simp only [UInt16.size]; omega)
    have hlo : (UInt16.ofNat (0xDC00 + (c.toNat - 0x10000) % 0x400)).toNat = 0xDC00 + (c.toNat - 0x10000) % 0x400 :=
      UInt16.toNat_ofNat_of_lt' (by simp only [UInt16.size]; omega)
    have hchar : pair (UInt16.ofNat (0xD800 + (c.toNat - 0x10000) / 0x400))
        (UInt16.ofNat (0xDC00 + (c.toNat - 0x10000) % 0x400)) = c := by
      unfold pair
      rw [hhi, hlo]
      have hsum : 0x10000 + (0xD800 + (c.toNat - 0x10000) / 0x400 - 0xD800) * 0x400 +
          (0xDC00 + (c.toNat - 0x10000) % 0x400 - 0xDC00) = c.toNat := by omega
      rw [hsum, Char.ofNat_toNat]
    rw [List.cons_append, List.singleton_append,
      decode_cons_of_pair (isHigh_iff.mpr (by omega)) (isLow_iff.mpr (by omega)), hchar]

theorem decode_encode (cs : List Char) : decode (encode cs) = cs := by
  induction cs with
  | nil => rfl
  | cons c cs ih => rw [encode_cons, decode_encodeChar, ih]

end ArtPi.Lib.Utf16
