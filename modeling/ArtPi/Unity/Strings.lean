import ArtPi.Lib.Utf16
import Mathlib.Algebra.Order.Ring.Int
import Mathlib.Data.List.TakeWhile

set_option autoImplicit false

/-! # Strings of the runtime (`src/agent/agent_unity.cpp`)

A string of the runtime is UTF-16, one of the engine too, and between them goes UTF-8 that ends at the first zero.
`UnityStringToUtf8` decodes the units and encodes the characters. -/

namespace ArtPi.Unity

open Lib

/-- The code points of the loop in `UnityStringToUtf8`. -/
def codePoints : List UInt16 → List Nat
  | [] => []
  | [u] => [if (0xD800 ≤ u.toNat ∧ u.toNat ≤ 0xDBFF) ∨ (0xDC00 ≤ u.toNat ∧ u.toNat ≤ 0xDFFF) then 0xFFFD else u.toNat]
  | u :: lo :: rest =>
    if 0xD800 ≤ u.toNat ∧ u.toNat ≤ 0xDBFF then
      if 0xDC00 ≤ lo.toNat ∧ lo.toNat ≤ 0xDFFF then
        (0x10000 + ((u.toNat - 0xD800) <<< 10) + (lo.toNat - 0xDC00)) :: codePoints rest
      else 0xFFFD :: codePoints (lo :: rest)
    else (if 0xDC00 ≤ u.toNat ∧ u.toNat ≤ 0xDFFF then 0xFFFD else u.toNat) :: codePoints (lo :: rest)

def pushUtf8 (cp : Nat) : List UInt8 :=
  if cp < 0x80 then [UInt8.ofNat cp]
  else if cp < 0x800 then [UInt8.ofNat (0xC0 ||| (cp >>> 6)), UInt8.ofNat (0x80 ||| (cp &&& 0x3F))]
  else if cp < 0x10000 then
    [UInt8.ofNat (0xE0 ||| (cp >>> 12)), UInt8.ofNat (0x80 ||| ((cp >>> 6) &&& 0x3F)), UInt8.ofNat (0x80 ||| (cp &&& 0x3F))]
  else
    [UInt8.ofNat (0xF0 ||| (cp >>> 18)), UInt8.ofNat (0x80 ||| ((cp >>> 12) &&& 0x3F)),
      UInt8.ofNat (0x80 ||| ((cp >>> 6) &&& 0x3F)), UInt8.ofNat (0x80 ||| (cp &&& 0x3F))]

/-- `UnityStringToUtf8` -/
def unityStringToUtf8 (units : List UInt16) : List UInt8 :=
  if units = [] ∨ 2 ^ 20 < units.length then [] else (codePoints units).flatMap pushUtf8

/-- Bytes as a C string. -/
def cstr (bytes : List UInt8) : List UInt8 := bytes.takeWhile (· ≠ 0)

def utf8 (cs : List Char) : List UInt8 := cs.flatMap String.utf8EncodeChar

/-- The bytes of characters; `malformed` is made of units that are no characters. -/
def bytesOf (malformed : List UInt16 → List UInt8) (units : List UInt16) : List UInt8 :=
  if Utf16.encode (Utf16.decode units) = units then utf8 (Utf16.decode units) else malformed units

/-- The units of what bytes say in UTF-8; `malformed` is made of others. -/
def unitsOf (malformed : List UInt8 → List UInt16) (bytes : List UInt8) : List UInt16 :=
  match bytes.toByteArray.utf8Decode? with
  | some cs => Utf16.encode cs.toList
  | none => malformed bytes

/-- Text that comes back from the runtime: characters, none of them zero, and not more than 2^20 units. -/
def PlainUnits (units : List UInt16) : Prop :=
  ∃ cs : List Char, '\x00' ∉ cs ∧ units = Utf16.encode cs ∧ units.length ≤ 2 ^ 20

/-! ## Characters -/

theorem toNat_replacement : Utf16.replacement.toNat = 0xFFFD := by decide

theorem toNat_ofNat {n : Nat} (h : n < 0xD800 ∨ (0xDFFF < n ∧ n < 0x110000)) : (Char.ofNat n).toNat = n := by
  unfold Char.ofNat
  rw [dif_pos h]
  rfl

theorem toNat_pair {hi lo : UInt16} (hhi : Utf16.isHigh hi = true) (hlo : Utf16.isLow lo = true) :
    (Utf16.pair hi lo).toNat = 0x10000 + ((hi.toNat - 0xD800) <<< 10) + (lo.toNat - 0xDC00) := by
  rw [Utf16.isHigh_iff] at hhi
  rw [Utf16.isLow_iff] at hlo
  unfold Utf16.pair
  rw [toNat_ofNat (by omega), Nat.shiftLeft_eq]

theorem toNat_unit {u : UInt16} (hhigh : ¬ (0xD800 ≤ u.toNat ∧ u.toNat ≤ 0xDBFF)) :
    (if Utf16.isLow u = true then Utf16.replacement else Char.ofNat u.toNat).toNat =
      if 0xDC00 ≤ u.toNat ∧ u.toNat ≤ 0xDFFF then 0xFFFD else u.toNat := by
  have hlt := u.toNat_lt
  split_ifs with hlow hrange hrange
  · exact toNat_replacement
  · exact absurd (Utf16.isLow_iff.mp hlow) hrange
  · exact absurd (Utf16.isLow_iff.mpr hrange) hlow
  · exact toNat_ofNat (by omega)

theorem codePoints_eq (units : List UInt16) : codePoints units = (Utf16.decode units).map Char.toNat := by
  induction units using codePoints.induct with
  | case1 => rfl
  | case2 u =>
    have hlt := u.toNat_lt
    have halone := or_congr (Utf16.isHigh_iff (u := u)) (Utf16.isLow_iff (u := u))
    rw [codePoints, Utf16.decode, List.map_singleton]
    split_ifs with hrange half half
    · rw [toNat_replacement]
    · exact absurd (halone.mpr hrange) half
    · exact absurd (halone.mp half) hrange
    · rw [toNat_ofNat (by omega)]
  | case3 u lo rest hhi hlo ih =>
    rw [codePoints, if_pos hhi, if_pos hlo, Utf16.decode_cons_of_pair (Utf16.isHigh_iff.mpr hhi)
      (Utf16.isLow_iff.mpr hlo), List.map_cons, ih, toNat_pair (Utf16.isHigh_iff.mpr hhi) (Utf16.isLow_iff.mpr hlo)]
  | case4 u lo rest hhi hlo ih =>
    have hlow : ¬ Utf16.isLow lo = true := fun h => hlo (Utf16.isLow_iff.mp h)
    rw [codePoints, if_pos hhi, if_neg hlo, Utf16.decode, if_pos (Utf16.isHigh_iff.mpr hhi), if_neg hlow,
      List.map_cons, ih, toNat_replacement]
  | case5 u lo rest hhi ih =>
    have hhigh : ¬ Utf16.isHigh u = true := fun h => hhi (Utf16.isHigh_iff.mp h)
    rw [codePoints, if_neg hhi, Utf16.decode, if_neg hhigh, List.map_cons, ih, toNat_unit hhi]

theorem ofNat_or {mark i x : Nat} (hx : x < 2 ^ i) (hmark : mark % 2 ^ i = 0) :
    UInt8.ofNat (mark ||| x) = UInt8.ofNat (x + mark) := by
  have hmul : mark = 2 ^ i * (mark / 2 ^ i) := (Nat.mul_div_cancel' (Nat.dvd_of_mod_eq_zero hmark)).symm
  rw [hmul, ← Nat.two_pow_add_eq_or_of_lt hx, Nat.add_comm]

theorem and_63 (n : Nat) : n &&& 0x3F = n % 64 := Nat.and_two_pow_sub_one_eq_mod n 6

theorem pushUtf8_toNat (c : Char) : pushUtf8 c.toNat = String.utf8EncodeChar c := by
  have hvalid := Utf16.toNat_lt c
  have hlast : UInt8.ofNat (0x80 ||| (c.toNat &&& 0x3F)) = UInt8.ofNat (c.toNat % 64 + 0x80) := by
    rw [and_63, ofNat_or (i := 6) (by omega) (by decide)]
  have hmid (k d : Nat) (hd : 2 ^ k = d) : UInt8.ofNat (0x80 ||| ((c.toNat >>> k) &&& 0x3F)) =
      UInt8.ofNat (c.toNat / d % 64 + 0x80) := by
    rw [and_63, Nat.shiftRight_eq_div_pow, hd, ofNat_or (i := 6) (by omega) (by decide)]
  have hfirst (mark k i d m : Nat) (hd : 2 ^ k = d) (hm : 2 ^ i = m) (hlt : c.toNat / d < m) (hmark : mark % m = 0) :
      UInt8.ofNat (mark ||| (c.toNat >>> k)) = UInt8.ofNat (c.toNat / d % m + mark) := by
    subst hm
    rw [Nat.shiftRight_eq_div_pow, hd, ofNat_or hlt hmark, Nat.mod_eq_of_lt hlt]
  unfold pushUtf8 String.utf8EncodeChar
  have hval : c.val.toNat = c.toNat := rfl
  dsimp only
  rw [hval]
  by_cases h1 : c.toNat < 0x80
  · rw [if_pos h1, if_pos (show c.toNat ≤ 0x7f by omega)]
  · rw [if_neg h1, if_neg (show ¬ c.toNat ≤ 0x7f by omega)]
    by_cases h2 : c.toNat < 0x800
    · rw [if_pos h2, if_pos (show c.toNat ≤ 0x7ff by omega), hlast, hfirst 0xC0 6 5 64 32 rfl rfl (by omega) rfl]
    · rw [if_neg h2, if_neg (show ¬ c.toNat ≤ 0x7ff by omega)]
      by_cases h3 : c.toNat < 0x10000
      · rw [if_pos h3, if_pos (show c.toNat ≤ 0xffff by omega), hlast, hmid 6 64 rfl,
          hfirst 0xE0 12 4 4096 16 rfl rfl (by omega) rfl]
      · rw [if_neg h3, if_neg (show ¬ c.toNat ≤ 0xffff by omega), hlast, hmid 6 64 rfl, hmid 12 4096 rfl,
          hfirst 0xF0 18 3 262144 8 rfl rfl (by omega) rfl]

theorem unityStringToUtf8_eq {units : List UInt16} (h : units.length ≤ 2 ^ 20) :
    unityStringToUtf8 units = utf8 (Utf16.decode units) := by
  unfold unityStringToUtf8
  by_cases hnil : units = []
  · rw [if_pos (.inl hnil), hnil]
    rfl
  · rw [if_neg (by rintro (h' | h') <;> [exact hnil h'; omega]), codePoints_eq, List.flatMap_map]
    exact List.flatMap_congr fun c _ => pushUtf8_toNat c

/-! ## Zeros -/

theorem zero_mem_utf8EncodeChar {c : Char} : 0 ∈ String.utf8EncodeChar c ↔ c = '\x00' := by
  constructor
  · intro h
    rw [← pushUtf8_toNat] at h
    have hvalid := Utf16.toNat_lt c
    have hne {n : Nat} (hlo : 0 < n) (hhi : n < 256) : (0 : UInt8) ≠ UInt8.ofNat n := fun heq => by
      have hnat := congrArg UInt8.toNat heq
      rw [UInt8.toNat_ofNat_of_lt' hhi] at hnat
      exact absurd hnat (Nat.ne_of_lt hlo)
    have hor (mark x : Nat) (hmark : 0 < mark) : 0 < mark ||| x := Nat.lt_of_lt_of_le hmark Nat.left_le_or
    have hlt {a b : Nat} (ha : a < 2 ^ 8) (hb : b < 2 ^ 8) : a ||| b < 256 := Nat.or_lt_two_pow ha hb
    have hand (x : Nat) : x &&& 0x3F < 2 ^ 8 := by
      rw [and_63]
      omega
    unfold pushUtf8 at h
    have hshr (k : Nat) (hk : c.toNat / 2 ^ k < 2 ^ 8) : c.toNat >>> k < 2 ^ 8 := by
      rw [Nat.shiftRight_eq_div_pow]
      exact hk
    have hrest (x : Nat) : (0 : UInt8) ≠ UInt8.ofNat (0x80 ||| (x &&& 0x3F)) :=
      hne (hor _ _ (by decide)) (hlt (by decide) (hand x))
    have hfirst (mark k : Nat) (hpos : 0 < mark) (hmark : mark < 2 ^ 8) (hk : c.toNat / 2 ^ k < 2 ^ 8) :
        (0 : UInt8) ≠ UInt8.ofNat (mark ||| (c.toNat >>> k)) := hne (hor _ _ hpos) (hlt hmark (hshr k hk))
    split_ifs at h with h1 h2 h3
    · rw [List.mem_singleton] at h
      have hzero := congrArg UInt8.toNat h
      rw [UInt8.toNat_ofNat_of_lt' (show c.toNat < 256 by omega)] at hzero
      exact Char.ext (UInt32.toNat_inj.mp hzero.symm)
    · simp only [List.mem_cons, List.not_mem_nil, or_false, hrest,
        hfirst 0xC0 6 (by decide) (by decide) (by omega)] at h
    · simp only [List.mem_cons, List.not_mem_nil, or_false, hrest,
        hfirst 0xE0 12 (by decide) (by decide) (by omega)] at h
    · simp only [List.mem_cons, List.not_mem_nil, or_false, hrest,
        hfirst 0xF0 18 (by decide) (by decide) (by omega)] at h
  · rintro rfl
    decide

theorem utf8_cons (c : Char) (cs : List Char) : utf8 (c :: cs) = String.utf8EncodeChar c ++ utf8 cs := List.flatMap_cons

theorem cstr_utf8 (cs : List Char) : cstr (utf8 cs) = utf8 (cs.takeWhile (· ≠ '\x00')) := by
  induction cs with
  | nil => rfl
  | cons c cs ih =>
    rw [utf8_cons]
    by_cases hc : c = '\x00'
    · rw [List.takeWhile_cons_of_neg (by simpa using hc), hc]
      rfl
    · have hpos : ∀ b ∈ String.utf8EncodeChar c, decide (b ≠ 0) = true := fun b hb =>
        decide_eq_true fun hzero => hc (zero_mem_utf8EncodeChar.mp (hzero ▸ hb))
      rw [List.takeWhile_cons_of_pos (by simpa using hc), utf8_cons, ← ih]
      exact List.takeWhile_append_of_pos hpos

theorem takeWhile_of_zero_notMem {cs : List Char} (h : '\x00' ∉ cs) : cs.takeWhile (· ≠ '\x00') = cs :=
  List.takeWhile_eq_self_iff.mpr fun _ hc => decide_eq_true fun hzero => h (hzero ▸ hc)

theorem zero_notMem_takeWhile (cs : List Char) : '\x00' ∉ cs.takeWhile (· ≠ '\x00') := fun h =>
  absurd (List.mem_takeWhile_imp h) (by decide)

/-! ## There and back -/

theorem unitsOf_utf8 (malformed : List UInt8 → List UInt16) (cs : List Char) :
    unitsOf malformed (utf8 cs) = Utf16.encode cs := by
  have hdecode : (utf8 cs).toByteArray.utf8Decode? = some cs.toArray := List.utf8Decode?_utf8Encode
  unfold unitsOf
  rw [hdecode]

theorem bytesOf_encode (malformed : List UInt16 → List UInt8) (cs : List Char) :
    bytesOf malformed (Utf16.encode cs) = utf8 cs := by
  unfold bytesOf
  rw [Utf16.decode_encode, if_pos rfl]

section RoundTrip

variable (toBytes : List UInt16 → List UInt8) (runtime engine : List UInt8 → List UInt16)

/-- The text of a string of the runtime, as the engine has it. -/
def textOf (units : List UInt16) : List UInt16 := unitsOf engine (cstr (unityStringToUtf8 units))

/-- The units of the string that is made of a text. -/
def newUnits (text : List UInt16) : List UInt16 := unitsOf runtime (cstr (bytesOf toBytes text))

theorem textOf_eq {units : List UInt16} (h : units.length ≤ 2 ^ 20) :
    textOf engine units = Utf16.encode ((Utf16.decode units).takeWhile (· ≠ '\x00')) := by
  unfold textOf
  rw [unityStringToUtf8_eq h, cstr_utf8, unitsOf_utf8]

theorem textOf_long {units : List UInt16} (h : 2 ^ 20 < units.length) : textOf engine units = [] := by
  unfold textOf unityStringToUtf8
  rw [if_pos (.inr h)]
  exact unitsOf_utf8 engine []

theorem newUnits_encode {cs : List Char} (h : '\x00' ∉ cs) : newUnits toBytes runtime (Utf16.encode cs) = Utf16.encode cs := by
  unfold newUnits
  rw [bytesOf_encode, cstr_utf8, takeWhile_of_zero_notMem h, unitsOf_utf8]

theorem textOf_newUnits_iff {text : List UInt16} :
    textOf engine (newUnits toBytes runtime text) = text ↔ PlainUnits text := by
  constructor
  · intro h
    rcases Nat.lt_or_ge (2 ^ 20) (newUnits toBytes runtime text).length with hlong | hshort
    · rw [textOf_long engine hlong] at h
      exact ⟨[], by simp, h.symm, by simp [← h]⟩
    · rw [textOf_eq engine hshort] at h
      have hzero := zero_notMem_takeWhile (Utf16.decode (newUnits toBytes runtime text))
      refine ⟨_, hzero, h.symm, ?_⟩
      rw [← h, newUnits_encode toBytes runtime hzero] at hshort
      rw [← h]
      exact hshort
  · rintro ⟨cs, hzero, rfl, hlen⟩
    rw [newUnits_encode toBytes runtime hzero, textOf_eq engine hlen, Utf16.decode_encode,
      takeWhile_of_zero_notMem hzero]

end RoundTrip

end ArtPi.Unity
