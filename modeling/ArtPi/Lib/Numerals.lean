import Mathlib.Algebra.Order.Ring.Int
import Mathlib.Data.List.TakeWhile
import Mathlib.Order.MinMax

set_option autoImplicit false

/-! # Numbers at the start of a text

What the `strto` functions read: blanks, a sign, the mark of the base, and digits. -/

namespace ArtPi.Lib.Numerals

/-- `isspace` -/
def isSpace (b : UInt8) : Bool := b.toNat = 0x20 || (9 ≤ b.toNat && b.toNat ≤ 13)

/-- The value of a digit, 36 for what is none. -/
def digitValue (b : UInt8) : Nat :=
  if 0x30 ≤ b.toNat ∧ b.toNat ≤ 0x39 then b.toNat - 0x30
  else if 0x61 ≤ b.toNat ∧ b.toNat ≤ 0x7a then b.toNat - 0x61 + 10
  else if 0x41 ≤ b.toNat ∧ b.toNat ≤ 0x5a then b.toNat - 0x41 + 10
  else 36

def isDigit (base : Nat) (b : UInt8) : Bool := decide (digitValue b < base)

def ofDigits (base : Nat) (ds : List UInt8) : Nat := ds.foldl (fun n b => n * base + digitValue b) 0

/-- `0x` in front of a digit. -/
def hasHexMark (t : List UInt8) : Bool :=
  t.head? = some 0x30 && ((t.drop 1).head? = some 0x78 || (t.drop 1).head? = some 0x58) &&
    ((t.drop 2).head?.any (isDigit 16))

/-- The base of the digits, and where they start; a base of 0 is taken from the text. -/
def baseOf (base : Nat) (t : List UInt8) : Nat × List UInt8 :=
  if (base = 0 || base = 16) && hasHexMark t then (16, t.drop 2)
  else if base = 0 then (if t.head? = some 0x30 then 8 else 10, t)
  else (base, t)

structure Reading where
  negative : Bool
  magnitude : Nat
  rest : List UInt8

def Reading.toInt (r : Reading) : Int := if r.negative then -(r.magnitude : Int) else r.magnitude

def read (base : Nat) (t : List UInt8) : Option Reading :=
  let t := t.dropWhile isSpace
  let signed := t.head? = some 0x2d || t.head? = some 0x2b
  let (b, digits) := baseOf base (if signed then t.drop 1 else t)
  if digits.takeWhile (isDigit b) = [] then none
  else some ⟨t.head? = some 0x2d, ofDigits b (digits.takeWhile (isDigit b)), digits.dropWhile (isDigit b)⟩

/-- The ends of `long`. -/
def clampLong (v : Int) : Int := max (-2 ^ 63) (min v (2 ^ 63 - 1))

/-- `strtol(t, &end, 0)`: the number, and what is left at `end`. -/
def strtol (t : List UInt8) : Int × List UInt8 :=
  match read 0 t with
  | none => (0, t)
  | some r => (clampLong r.toInt, r.rest)

/-- `strtoull(t, nullptr, base)` -/
def strtoull (base : Nat) (t : List UInt8) : UInt64 :=
  match read base t with
  | none => 0
  | some r =>
    if 2 ^ 64 ≤ r.magnitude then UInt64.ofNat (2 ^ 64 - 1)
    else if r.negative then 0 - UInt64.ofNat r.magnitude
    else UInt64.ofNat r.magnitude

/-- The number that a text is, whatever its size. -/
def number (base : Nat) (t : List UInt8) : Option Int :=
  match read base t with
  | none => none
  | some r => if r.rest = [] then some r.toInt else none

/-- The value of hexadecimal digits, with or without the mark in front. -/
def hexNumber (t : List UInt8) : Option Nat :=
  let ds := if hasHexMark t then t.drop 2 else t
  if ds ≠ [] ∧ ds.all (isDigit 16) = true then some (ofDigits 16 ds) else none

/-- `strtol` gets to the end exactly of what is a number. -/
theorem strtol_of_number {t : List UInt8} {n : Int} (h : number 0 t = some n) : strtol t = (clampLong n, []) := by
  unfold number at h
  unfold strtol
  cases hr : read 0 t with
  | none => simp [hr] at h
  | some r =>
    simp only [hr, Option.ite_none_right_eq_some, Option.some.injEq] at h
    obtain ⟨hrest, hn⟩ := h
    simp [hrest, hn]

theorem strtol_of_number_none {t : List UInt8} (ht : t ≠ []) (h : number 0 t = none) : (strtol t).2 ≠ [] := by
  unfold number at h
  unfold strtol
  cases hr : read 0 t with
  | none => exact ht
  | some r =>
    simp only [hr, ite_eq_right_iff, reduceCtorEq, imp_false] at h
    exact h

/-- Where the number is not that of a small index, neither is the one it is cut to. -/
theorem clampLong_eq_iff {n : Int} {i : Nat} (h : i < 2 ^ 63 - 1) : (i : Int) = clampLong n ↔ (i : Int) = n := by
  unfold clampLong
  omega

theorem isDigit_not_isSpace {b : UInt8} (h : isDigit 16 b = true) : isSpace b = false := by
  unfold isDigit digitValue at h
  unfold isSpace
  rw [decide_eq_true_eq] at h
  rw [Bool.or_eq_false_iff, Bool.and_eq_false_iff, decide_eq_false_iff_not, decide_eq_false_iff_not,
    decide_eq_false_iff_not]
  split at h
  · omega
  · split at h
    · omega
    · split at h
      · omega
      · omega

theorem isDigit_not_sign {b : UInt8} (h : isDigit 16 b = true) : b ≠ 0x2d ∧ b ≠ 0x2b := by
  constructor
  · rintro rfl
    revert h
    decide
  · rintro rfl
    revert h
    decide

theorem hexNumber_head {t : List UInt8} {v : Nat} (h : hexNumber t = some v) :
    ∃ b rest, t = b :: rest ∧ isDigit 16 b = true := by
  unfold hexNumber at h
  dsimp only at h
  cases t with
  | nil => simp [hasHexMark] at h
  | cons b rest =>
    refine ⟨b, rest, rfl, ?_⟩
    by_cases hmark : hasHexMark (b :: rest) = true
    · have hzero : b = 0x30 := by
        unfold hasHexMark at hmark
        simp only [List.head?_cons, Option.some.injEq, Bool.and_eq_true, decide_eq_true_eq] at hmark
        exact hmark.1.1
      rw [hzero]
      decide
    · rw [if_neg hmark] at h
      simp only [Option.ite_none_right_eq_some, List.all_cons, Bool.and_eq_true] at h
      exact h.1.2.1

theorem takeWhile_append_of_stop {p : UInt8 → Bool} {ds rest : List UInt8} (hall : ds.all p = true)
    (hrest : ∀ b ∈ rest.head?, p b = false) :
    (ds ++ rest).takeWhile p = ds ∧ (ds ++ rest).dropWhile p = rest := by
  have hds : ∀ x ∈ ds, p x = true := fun x hx => List.all_eq_true.mp hall x hx
  cases rest with
  | nil =>
    rw [List.append_nil]
    exact ⟨List.takeWhile_eq_self_iff.mpr hds, List.dropWhile_eq_nil_iff.mpr hds⟩
  | cons b rest =>
    have hb : ¬ p b = true := by simp [hrest b rfl]
    rw [List.takeWhile_append_of_pos hds, List.dropWhile_append_of_pos hds, List.takeWhile_cons_of_neg hb,
      List.dropWhile_cons_of_neg hb, List.append_nil]
    exact ⟨rfl, rfl⟩

/-- What is read where there is no sign: all digits that follow the mark. -/
theorem read_of_base {base b : Nat} {d : UInt8} {t ds rest : List UInt8} (hd : isDigit 16 d = true)
    (hbase : baseOf base (d :: t) = (b, ds ++ rest)) (hne : ds ≠ []) (hall : ds.all (isDigit b) = true)
    (hrest : ∀ c ∈ rest.head?, isDigit b c = false) :
    read base (d :: t) = some ⟨false, ofDigits b ds, rest⟩ := by
  have hspace : (d :: t).dropWhile isSpace = d :: t := by
    rw [List.dropWhile_cons_of_neg (by rw [isDigit_not_isSpace hd]; exact Bool.false_ne_true)]
  have hsign := isDigit_not_sign hd
  obtain ⟨htake, hdrop⟩ := takeWhile_append_of_stop hall hrest
  unfold read
  dsimp only
  rw [hspace]
  simp only [List.head?_cons, Option.some.injEq, hsign.1, hsign.2, decide_false, Bool.or_self, Bool.false_eq_true,
    if_false]
  rw [hbase]
  dsimp only
  rw [htake, hdrop, if_neg hne]

/-- What `strtoull` reads where there is no sign. -/
theorem strtoull_of_read {base : Nat} {t rest : List UInt8} {n : Nat} (h : read base t = some ⟨false, n, rest⟩)
    (hlt : n < 2 ^ 64) : (strtoull base t).toNat = n := by
  unfold strtoull
  rw [h]
  dsimp only
  rw [if_neg (by omega), if_neg Bool.false_ne_true, UInt64.toNat_ofNat', Nat.mod_eq_of_lt hlt]

theorem strtoull_of_base {base b : Nat} {d : UInt8} {t ds : List UInt8} (hd : isDigit 16 d = true)
    (hbase : baseOf base (d :: t) = (b, ds)) (hne : ds ≠ []) (hall : ds.all (isDigit b) = true)
    (hlt : ofDigits b ds < 2 ^ 64) : (strtoull base (d :: t)).toNat = ofDigits b ds := by
  rw [← List.append_nil ds] at hbase
  exact strtoull_of_read (read_of_base hd hbase hne hall (by simp)) hlt

theorem strtoull_hexNumber {t : List UInt8} {v : Nat} (h : hexNumber t = some v) (hlt : v < 2 ^ 64) :
    (strtoull 16 t).toNat = v := by
  obtain ⟨b, rest, rfl, hdigit⟩ := hexNumber_head h
  unfold hexNumber at h
  simp only [Option.ite_none_right_eq_some, Option.some.injEq] at h
  obtain ⟨⟨hne, hall⟩, rfl⟩ := h
  refine strtoull_of_base hdigit ?_ hne hall hlt
  unfold baseOf
  by_cases hmark : hasHexMark (b :: rest) = true <;> simp [hmark]

/-! ## Digits of a number -/

/-- The digits of a number, of one that is not zero without zeros in front. -/
def spell (base n : Nat) : List UInt8 := (Nat.toDigits base n).map (fun c => UInt8.ofNat c.toNat)

/-- The decimal digits of a number. -/
def decimal (n : Nat) : List UInt8 := spell 10 n

theorem digitValue_digitChar : ∀ d < 16, digitValue (UInt8.ofNat (Nat.digitChar d).toNat) = d := by
  decide

theorem digitChar_ne_zero : ∀ d < 16, d ≠ 0 → UInt8.ofNat (Nat.digitChar d).toNat ≠ 0x30 := by
  decide

theorem spell_of_lt {base n : Nat} (h : n < base) : spell base n = [UInt8.ofNat (Nat.digitChar n).toNat] := by
  unfold spell
  rw [Nat.toDigits_of_lt_base h]
  rfl

theorem spell_of_le {base n : Nat} (hbase : 1 < base) (h : base ≤ n) :
    spell base n = spell base (n / base) ++ [UInt8.ofNat (Nat.digitChar (n % base)).toNat] := by
  unfold spell
  rw [Nat.toDigits_of_base_le hbase h, List.map_append]
  rfl

theorem foldl_digits (base n : Nat) (ds : List UInt8) :
    ds.foldl (fun n b => n * base + digitValue b) n = n * base ^ ds.length + ofDigits base ds := by
  induction ds generalizing n with
  | nil => simp [ofDigits]
  | cons b ds ih =>
    have hcons : ofDigits base (b :: ds) = digitValue b * base ^ ds.length + ofDigits base ds := by
      have hfirst := ih (0 * base + digitValue b)
      rw [Nat.zero_mul, Nat.zero_add] at hfirst
      rw [← hfirst]
      unfold ofDigits
      rw [List.foldl_cons, Nat.zero_mul, Nat.zero_add]
    rw [List.foldl_cons, ih, hcons, List.length_cons, Nat.add_mul, Nat.pow_succ, Nat.mul_comm (base ^ ds.length),
      Nat.mul_assoc, Nat.add_assoc]

theorem ofDigits_append (base : Nat) (xs ys : List UInt8) :
    ofDigits base (xs ++ ys) = ofDigits base xs * base ^ ys.length + ofDigits base ys := by
  have hfold := foldl_digits base (ofDigits base xs) ys
  rw [← hfold]
  unfold ofDigits
  rw [List.foldl_append]

/-- The digits of a number are digits, are its value, and begin with a zero for zero only. -/
theorem spell_spec (base : Nat) (hbase : 1 < base) (hle : base ≤ 16) (n : Nat) :
    (spell base n).all (isDigit base) = true ∧ ofDigits base (spell base n) = n ∧
      (n = 0 ∨ ∃ b bs, spell base n = b :: bs ∧ b ≠ 0x30) := by
  induction n using Nat.strongRecOn with
  | ind n ih =>
    have hdigit (d : Nat) (hd : d < base) : isDigit base (UInt8.ofNat (Nat.digitChar d).toNat) = true := by
      unfold isDigit
      rw [digitValue_digitChar d (by omega)]
      exact decide_eq_true hd
    have hone (d : Nat) (hd : d < base) : ofDigits base [UInt8.ofNat (Nat.digitChar d).toNat] = d := by
      have hvalue := digitValue_digitChar d (by omega)
      simp [ofDigits, hvalue]
    by_cases hn : n < base
    · rw [spell_of_lt hn]
      refine ⟨?_, hone n hn, ?_⟩
      · rw [List.all_cons, hdigit n hn]
        rfl
      · by_cases hzero : n = 0
        · exact .inl hzero
        · exact .inr ⟨_, [], rfl, digitChar_ne_zero n (by omega) hzero⟩
    · have hlast : n % base < base := Nat.mod_lt n (by omega)
      obtain ⟨hall, hvalue, hhead⟩ := ih (n / base) (Nat.div_lt_self (by omega) hbase)
      rw [spell_of_le hbase (Nat.le_of_not_lt hn)]
      refine ⟨?_, ?_, ?_⟩
      · rw [List.all_append, hall, List.all_cons, hdigit _ hlast]
        rfl
      · rw [ofDigits_append, hvalue, hone _ hlast, List.length_singleton, Nat.pow_one, Nat.mul_comm,
          Nat.div_add_mod]
      · rcases hhead with hzero | ⟨b, bs, hspell, hb⟩
        · have hpos := Nat.div_pos (Nat.le_of_not_lt hn) (by omega)
          omega
        · exact .inr ⟨b, bs ++ [UInt8.ofNat (Nat.digitChar (n % base)).toNat], by rw [hspell]; rfl, hb⟩

theorem decimal_spec (n : Nat) : (decimal n).all (isDigit 10) = true ∧ ofDigits 10 (decimal n) = n ∧
    (n = 0 ∨ ∃ b bs, decimal n = b :: bs ∧ b ≠ 0x30) := spell_spec 10 (by decide) (by decide) n

theorem spell_ne_nil (base : Nat) (hbase : 1 < base) (hle : base ≤ 16) (n : Nat) : spell base n ≠ [] := by
  intro h
  obtain ⟨-, hvalue, hzero | ⟨b, bs, hspell, -⟩⟩ := spell_spec base hbase hle n
  · rw [hzero, spell_of_lt (by omega)] at h
    cases h
  · rw [h] at hspell
    cases hspell

/-- Digits with zeros in front, up to a width. -/
def padded (base width n : Nat) : List UInt8 := List.replicate (width - (spell base n).length) 0x30 ++ spell base n

theorem padded_spec (base : Nat) (hbase : 1 < base) (hle : base ≤ 16) (width n : Nat) :
    (padded base width n).all (isDigit base) = true ∧ ofDigits base (padded base width n) = n := by
  obtain ⟨hall, hvalue, -⟩ := spell_spec base hbase hle n
  have hzeros (k : Nat) : (List.replicate k 0x30).all (isDigit base) = true ∧
      ofDigits base (List.replicate k 0x30) = 0 := by
    induction k with
    | zero => exact ⟨rfl, rfl⟩
    | succ k ih =>
      have hzero : isDigit base 0x30 = true := decide_eq_true (by
        rw [show digitValue 0x30 = 0 from rfl]
        omega)
      refine ⟨by rw [List.replicate_succ, List.all_cons, hzero, ih.1]; rfl, ?_⟩
      rw [List.replicate_succ', ofDigits_append, ih.2, Nat.zero_mul, Nat.zero_add]
      exact Nat.zero_mul base
  unfold padded
  rw [List.all_append, (hzeros _).1, hall, ofDigits_append, (hzeros _).2, hvalue, Nat.zero_mul, Nat.zero_add]
  exact ⟨rfl, rfl⟩

theorem padded_inj {base : Nat} (hbase : 1 < base) (hle : base ≤ 16) {width n n' : Nat}
    (h : padded base width n = padded base width n') : n = n' := by
  rw [← (padded_spec base hbase hle width n).2, h, (padded_spec base hbase hle width n').2]

theorem decimal_ne_nil (n : Nat) : decimal n ≠ [] := spell_ne_nil 10 (by decide) (by decide) n

/-- Digits that do not begin with a zero are read as what they say. -/
theorem strtoull_of_digits {b : UInt8} {bs : List UInt8} (hall : (b :: bs).all (isDigit 10) = true) (hb : b ≠ 0x30)
    (hlt : ofDigits 10 (b :: bs) < 2 ^ 64) : (strtoull 0 (b :: bs)).toNat = ofDigits 10 (b :: bs) := by
  have hdigit := List.all_eq_true.mp hall b List.mem_cons_self
  have hhex : isDigit 16 b = true := by
    unfold isDigit at hdigit ⊢
    rw [decide_eq_true_eq] at hdigit ⊢
    omega
  have hhead : ¬ (b :: bs).head? = some 0x30 := fun h => hb (Option.some.inj h)
  have hmark : hasHexMark (b :: bs) = false := by
    unfold hasHexMark
    rw [decide_eq_false hhead]
    rfl
  refine strtoull_of_base hhex ?_ (List.cons_ne_nil b bs) hall hlt
  unfold baseOf
  rw [hmark, Bool.and_false, if_neg Bool.false_ne_true, if_pos (by rfl), if_neg hhead]

theorem decimal_lt_of_take {n j : Nat} (hpos : 0 < n) (hj : j < (decimal n).length) :
    ofDigits 10 ((decimal n).take j) < n := by
  obtain ⟨-, hvalue, -⟩ := decimal_spec n
  have hsplit := ofDigits_append 10 ((decimal n).take j) ((decimal n).drop j)
  rw [List.take_append_drop, hvalue, List.length_drop] at hsplit
  have hpow : 10 ≤ 10 ^ ((decimal n).length - j) :=
    Nat.le_self_pow (by omega) 10
  have hmul : ofDigits 10 ((decimal n).take j) * 10 ≤
      ofDigits 10 ((decimal n).take j) * 10 ^ ((decimal n).length - j) := Nat.mul_le_mul_left _ hpow
  omega

/-- The start of the digits of a number is read as the number where it is all of them. -/
theorem strtoull_take_decimal (m : UInt64) {j : Nat} (hj : 0 < j) :
    strtoull 0 ((decimal m.toNat).take j) = m ↔ (decimal m.toNat).length ≤ j := by
  have hlt := m.toNat_lt
  obtain ⟨hall, hvalue, hzero | ⟨b, bs, hdecimal, hb⟩⟩ := decimal_spec m.toNat
  · have hm : m = 0 := UInt64.toNat_inj.mp hzero
    subst hm
    have hone : decimal (0 : UInt64).toNat = [0x30] := by decide
    rw [hone, List.take_of_length_le hj]
    exact ⟨fun _ => hj, fun _ => by decide⟩
  · obtain ⟨j, rfl⟩ := Nat.exists_eq_succ_of_ne_zero (Nat.pos_iff_ne_zero.mp hj)
    have hpos : 0 < m.toNat := by
      refine Nat.pos_of_ne_zero (fun hm => ?_)
      rw [hm] at hdecimal
      exact hb (List.cons.inj (hdecimal.symm.trans (by decide : decimal 0 = [0x30]))).1
    have hle : ofDigits 10 ((decimal m.toNat).take (j + 1)) ≤ m.toNat := by
      by_cases hshort : j + 1 < (decimal m.toNat).length
      · exact Nat.le_of_lt (decimal_lt_of_take hpos hshort)
      · rw [List.take_of_length_le (Nat.le_of_not_lt hshort), hvalue]
    have htake : (decimal m.toNat).take (j + 1) = b :: bs.take j := by rw [hdecimal, List.take_succ_cons]
    have hread :
        (strtoull 0 ((decimal m.toNat).take (j + 1))).toNat = ofDigits 10 ((decimal m.toNat).take (j + 1)) := by
      have hdigits : ((decimal m.toNat).take (j + 1)).all (isDigit 10) = true :=
        List.all_eq_true.mpr (fun x hx => List.all_eq_true.mp hall x (List.mem_of_mem_take hx))
      rw [htake] at hdigits hle ⊢
      exact strtoull_of_digits hdigits hb (Nat.lt_of_le_of_lt hle hlt)
    rw [← UInt64.toNat_inj, hread]
    constructor
    · intro heq
      refine Nat.le_of_not_lt (fun hshort => ?_)
      exact absurd heq (Nat.ne_of_lt (decimal_lt_of_take hpos hshort))
    · intro hlong
      rw [List.take_of_length_le hlong, hvalue]

end ArtPi.Lib.Numerals
