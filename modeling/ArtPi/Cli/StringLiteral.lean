import ArtPi.Lib.Utf8
import ArtPi.Unity.Verbatim

set_option autoImplicit false

/-! # String literals of a script (`engine/qjs/quickjs/quickjs.c`, `libregexp.c`, `cutils.c`)

A literal in double quotes is read up to the quote that closes it: `js_parse_string` in sloppy mode, with the escapes of
`lre_parse_escape`. Its value comes out as bytes with `JS_ToCString`. -/

namespace ArtPi.Cli.StringLiteral

open Lib.Utf8
open Unity (dquote backslash lf cr Inert step run_inert)
open Lib.Scan (run run_one run_two)

def isTail (lower upper : Nat) (b : UInt8) : Bool := lower ≤ b.toNat && b.toNat ≤ upper

/-- `utf8_decode` of a byte that is not ASCII: the code point and what is left, none for an error. -/
def utf8Decode : List UInt8 → Option (Nat × List UInt8)
  | a :: b :: rest =>
    if 0xC2 ≤ a.toNat ∧ a.toNat ≤ 0xDF then
      if isTail 0x80 0xBF b then some ((a.toNat - 0xC0) * 64 + (b.toNat - 0x80), rest) else none
    else if 0xE0 ≤ a.toNat ∧ a.toNat ≤ 0xEF then
      match rest with
      | c :: rest =>
        if isTail (if a.toNat = 0xE0 then 0xA0 else 0x80) 0xBF b && isTail 0x80 0xBF c then
          some ((a.toNat - 0xE0) * 4096 + (b.toNat - 0x80) * 64 + (c.toNat - 0x80), rest)
        else none
      | [] => none
    else if 0xF0 ≤ a.toNat ∧ a.toNat ≤ 0xF4 then
      match rest with
      | c :: d :: rest =>
        if isTail (if a.toNat = 0xF0 then 0x90 else 0x80) (if a.toNat = 0xF4 then 0x8F else 0xBF) b &&
            isTail 0x80 0xBF c && isTail 0x80 0xBF d then
          some ((a.toNat - 0xF0) * 262144 + (b.toNat - 0x80) * 4096 + (c.toNat - 0x80) * 64 + (d.toNat - 0x80),
            rest)
        else none
      | _ => none
    else none
  | _ => none

/-! ## Escapes -/

def fromHex (b : UInt8) : Option Nat :=
  if 0x30 ≤ b.toNat ∧ b.toNat ≤ 0x39 then some (b.toNat - 0x30)
  else if 0x41 ≤ b.toNat ∧ b.toNat ≤ 0x46 then some (b.toNat - 0x41 + 10)
  else if 0x61 ≤ b.toNat ∧ b.toNat ≤ 0x66 then some (b.toNat - 0x61 + 10)
  else none

/-- As many digits as the first argument says. -/
def hexDigits : Nat → Nat → List UInt8 → Option (Nat × List UInt8)
  | 0, c, t => some (c, t)
  | _ + 1, _, [] => none
  | n + 1, c, b :: t => (fromHex b).bind (fun h => hexDigits n (c * 16 + h) t)

/-- Digits up to a closing brace. -/
def hexBraced (c : Nat) : List UInt8 → Option (Nat × List UInt8)
  | [] => none
  | b :: t =>
    match fromHex b with
    | none => none
    | some h =>
      if 0x10FFFF < c * 16 + h then none
      else if t.head? = some 0x7d then some (c * 16 + h, t.drop 1)
      else hexBraced (c * 16 + h) t

def octalValue (b : UInt8) : Option Nat := if 0x30 ≤ b.toNat ∧ b.toNat ≤ 0x37 then some (b.toNat - 0x30) else none

/-- Up to three octal digits, the third where the first two are below 32. -/
def octal (c : Nat) : List UInt8 → Nat × List UInt8
  | [] => (c, [])
  | a :: t =>
    match octalValue a with
    | none => (c, a :: t)
    | some v =>
      if 32 ≤ c * 8 + v then (c * 8 + v, t)
      else
        match t with
        | [] => (c * 8 + v, [])
        | b :: t =>
          match octalValue b with
          | none => (c * 8 + v, b :: t)
          | some w => ((c * 8 + v) * 8 + w, t)

/-- `\b`, `\f`, `\n`, `\r`, `\t` and `\v` -/
def control (c : UInt8) : Option Nat :=
  if c = 0x62 then some 8
  else if c = 0x66 then some 12
  else if c = 0x6e then some 10
  else if c = 0x72 then some 13
  else if c = 0x74 then some 9
  else if c = 0x76 then some 11
  else none

/-- Behind a backslash: the code point, if the escape stands for one, and what is left. -/
def escape : List UInt8 → Option (List Nat × List UInt8)
  | [] => none
  | c :: t =>
    if c = cr then some ([], if t.head? = some lf then t.drop 1 else t)
    else if c = lf then some ([], t)
    else if 0x80 ≤ c.toNat then
      match utf8Decode (c :: t) with
      | none => none
      -- the line separators of Unicode are skipped
      | some (cp, rest) => some (if cp = 0x2028 ∨ cp = 0x2029 then [] else [cp], rest)
    else
      match control c with
      | some cp => some ([cp], t)
      | none =>
        if c = 0x78 ∨ c = 0x75 then
          let digits := if t.head? = some 0x7b then hexBraced 0 (t.drop 1)
            else hexDigits (if c = 0x78 then 2 else 4) 0 t
          digits.map (fun d => ([d.1], d.2))
        else
          match octalValue c with
          | some v => some ([(octal v t).1], (octal v t).2)
          | none => some ([c.toNat], t)

/-! ## Literals -/

/-- The code points of a literal and what stands behind it; the first argument only bounds the recursion. -/
def parseString : Nat → List UInt8 → Option (List Nat × List UInt8)
  | 0, _ => none
  | _ + 1, [] => none
  | n + 1, c :: t =>
    if c = lf ∨ c = cr then none
    else if c = dquote then some ([], t)
    else if c = backslash then
      match escape t with
      | none => none
      | some (cps, rest) => (parseString n rest).map (fun r => (cps ++ r.1, r.2))
    else if 0x80 ≤ c.toNat then
      match utf8Decode (c :: t) with
      | none => none
      | some (cp, rest) => (parseString n rest).map (fun r => (cp :: r.1, r.2))
    else (parseString n t).map (fun r => (c.toNat :: r.1, r.2))

/-- The bytes of the value of a literal, and what stands behind it. -/
def literal (t : List UInt8) : Option (List UInt8 × List UInt8) :=
  (parseString (t.length + 1) t).map (fun r => (encode (r.1.flatMap units), r.2))

/-- Without what a literal reads in another way. -/
def IsPlain (s : List UInt8) : Prop := ∀ b ∈ s, b ≠ dquote ∧ b ≠ backslash ∧ b ≠ lf ∧ b ≠ cr

/-- The form in UTF-8 of a string of a script; surrogates may stand alone, but no two of them that are a pair. -/
def IsText (s : List UInt8) : Prop := ∃ us : List UInt16, s = encode us

/-! ## What a literal reads -/

section

variable {t rest : List UInt8} {cp : Nat}

theorem ofNat_eq {n : Nat} {b : UInt8} (h : n = b.toNat) : UInt8.ofNat n = b := by
  rw [h, UInt8.ofNat_toNat]

theorem isTail_iff {lower upper : Nat} {b : UInt8} :
    isTail lower upper b = true ↔ lower ≤ b.toNat ∧ b.toNat ≤ upper := by
  unfold isTail
  rw [Bool.and_eq_true, decide_eq_true_eq, decide_eq_true_eq]

theorem utf8Decode_spec (h : utf8Decode t = some (cp, rest)) :
    t = encodePoint cp ++ rest ∧ 0x7f < cp ∧ cp ≤ 0x10FFFF := by
  unfold utf8Decode at h
  split at h
  · rename_i a b tail
    split at h
    · rename_i ha
      rw [Option.ite_none_right_eq_some, isTail_iff, Option.some.injEq, Prod.mk.injEq] at h
      obtain ⟨hb, hcp, rfl⟩ := h
      refine ⟨?_, by omega, by omega⟩
      unfold encodePoint
      rw [if_neg (by omega), if_pos (by omega), ofNat_eq (b := a) (by omega), ofNat_eq (b := b) (by omega)]
      rfl
    · split at h
      · rename_i ha
        split at h
        · rename_i c tail
          rw [Option.ite_none_right_eq_some, Bool.and_eq_true, isTail_iff, isTail_iff, Option.some.injEq,
            Prod.mk.injEq] at h
          obtain ⟨⟨hb, hc⟩, hcp, rfl⟩ := h
          have hlow : (if a.toNat = 0xE0 then 0xA0 else 0x80) ≤ b.toNat := hb.1
          have hcases : 0x80 ≤ b.toNat ∧ (a.toNat = 0xE0 → 0xA0 ≤ b.toNat) := by
            split at hlow <;> omega
          refine ⟨?_, by omega, by omega⟩
          unfold encodePoint
          rw [if_neg (by omega), if_neg (by omega), if_pos (by omega), ofNat_eq (b := a) (by omega),
            ofNat_eq (b := b) (by omega), ofNat_eq (b := c) (by omega)]
          rfl
        · cases h
      · split at h
        · rename_i ha
          split at h
          · rename_i c d tail
            rw [Option.ite_none_right_eq_some, Bool.and_eq_true, Bool.and_eq_true, isTail_iff, isTail_iff, isTail_iff,
              Option.some.injEq, Prod.mk.injEq] at h
            obtain ⟨⟨⟨hb, hc⟩, hd⟩, hcp, rfl⟩ := h
            have hlow : (if a.toNat = 0xF0 then 0x90 else 0x80) ≤ b.toNat := hb.1
            have hhigh : b.toNat ≤ (if a.toNat = 0xF4 then 0x8F else 0xBF) := hb.2
            have hcases : 0x80 ≤ b.toNat ∧ b.toNat ≤ 0xBF ∧ (a.toNat = 0xF0 → 0x90 ≤ b.toNat) ∧
                (a.toNat = 0xF4 → b.toNat ≤ 0x8F) := by
              split at hlow <;> split at hhigh <;> omega
            refine ⟨?_, by omega, by omega⟩
            unfold encodePoint
            rw [if_neg (by omega), if_neg (by omega), if_neg (by omega), ofNat_eq (b := a) (by omega),
              ofNat_eq (b := b) (by omega), ofNat_eq (b := c) (by omega), ofNat_eq (b := d) (by omega)]
            rfl
          · cases h
        · cases h
  · cases h

theorem utf8Decode_encodePoint (hlo : 0x7f < cp) (hhi : cp ≤ 0x10FFFF) (rest : List UInt8) :
    utf8Decode (encodePoint cp ++ rest) = some (cp, rest) := by
  have hof : ∀ n, n < 256 → (UInt8.ofNat n).toNat = n := fun n hn => toNat_ofNat hn
  unfold encodePoint
  rw [if_neg (by omega)]
  split_ifs with htwo hthree
  · have ha := hof (cp / 64 % 0x20 + 0xc0) (by omega)
    have hb := hof (cp % 0x40 + 0x80) (by omega)
    have htail : isTail 0x80 0xBF (UInt8.ofNat (cp % 0x40 + 0x80)) = true := isTail_iff.mpr (by omega)
    have hcp : (cp / 64 % 0x20 + 0xc0 - 0xC0) * 64 + (cp % 0x40 + 0x80 - 0x80) = cp := by omega
    have hlead : 0xC2 ≤ cp / 64 % 0x20 + 0xc0 ∧ cp / 64 % 0x20 + 0xc0 ≤ 0xDF := by omega
    simp only [List.cons_append, List.nil_append, utf8Decode, htail, ha, hb, hcp, hlead, and_self, if_true]
  · have ha := hof (cp / 4096 % 0x10 + 0xe0) (by omega)
    have hb := hof (cp / 64 % 0x40 + 0x80) (by omega)
    have hc := hof (cp % 0x40 + 0x80) (by omega)
    have htail : (isTail (if (UInt8.ofNat (cp / 4096 % 0x10 + 0xe0)).toNat = 0xE0 then 0xA0 else 0x80) 0xBF
        (UInt8.ofNat (cp / 64 % 0x40 + 0x80)) && isTail 0x80 0xBF (UInt8.ofNat (cp % 0x40 + 0x80))) = true := by
      rw [Bool.and_eq_true, isTail_iff, isTail_iff]
      split <;> omega
    have hcp : (cp / 4096 % 0x10 + 0xe0 - 0xE0) * 4096 + (cp / 64 % 0x40 + 0x80 - 0x80) * 64 +
        (cp % 0x40 + 0x80 - 0x80) = cp := by omega
    have htwo : ¬ (0xC2 ≤ cp / 4096 % 0x10 + 0xe0 ∧ cp / 4096 % 0x10 + 0xe0 ≤ 0xDF) := by omega
    have hlead : 0xE0 ≤ cp / 4096 % 0x10 + 0xe0 ∧ cp / 4096 % 0x10 + 0xe0 ≤ 0xEF := by omega
    rw [ha] at htail
    simp only [List.cons_append, List.nil_append, utf8Decode, ha, hb, hc, hcp, htwo, hlead, htail, and_self, if_true,
      if_false]
  · have ha := hof (cp / 262144 % 0x08 + 0xf0) (by omega)
    have hb := hof (cp / 4096 % 0x40 + 0x80) (by omega)
    have hc := hof (cp / 64 % 0x40 + 0x80) (by omega)
    have hd := hof (cp % 0x40 + 0x80) (by omega)
    have htail : (isTail (if (UInt8.ofNat (cp / 262144 % 0x08 + 0xf0)).toNat = 0xF0 then 0x90 else 0x80)
        (if (UInt8.ofNat (cp / 262144 % 0x08 + 0xf0)).toNat = 0xF4 then 0x8F else 0xBF)
        (UInt8.ofNat (cp / 4096 % 0x40 + 0x80)) && isTail 0x80 0xBF (UInt8.ofNat (cp / 64 % 0x40 + 0x80)) &&
        isTail 0x80 0xBF (UInt8.ofNat (cp % 0x40 + 0x80))) = true := by
      rw [Bool.and_eq_true, Bool.and_eq_true, isTail_iff, isTail_iff, isTail_iff]
      split <;> split <;> omega
    have hcp : (cp / 262144 % 0x08 + 0xf0 - 0xF0) * 262144 + (cp / 4096 % 0x40 + 0x80 - 0x80) * 4096 +
        (cp / 64 % 0x40 + 0x80 - 0x80) * 64 + (cp % 0x40 + 0x80 - 0x80) = cp := by omega
    have htwo : ¬ (0xC2 ≤ cp / 262144 % 0x08 + 0xf0 ∧ cp / 262144 % 0x08 + 0xf0 ≤ 0xDF) := by omega
    have hthree : ¬ (0xE0 ≤ cp / 262144 % 0x08 + 0xf0 ∧ cp / 262144 % 0x08 + 0xf0 ≤ 0xEF) := by omega
    have hlead : 0xF0 ≤ cp / 262144 % 0x08 + 0xf0 ∧ cp / 262144 % 0x08 + 0xf0 ≤ 0xF4 := by omega
    rw [ha] at htail
    simp only [List.cons_append, List.nil_append, utf8Decode, ha, hb, hc, hd, hcp, htwo, hthree, hlead, htail, and_self,
      if_true, if_false]

theorem length_encodePoint_le (n : Nat) : (encodePoint n).length ≤ 4 := by
  rw [length_encodePoint]
  split_ifs <;> omega

theorem fromHex_lt {b : UInt8} {h : Nat} (hb : fromHex b = some h) : h < 16 := by
  unfold fromHex at hb
  split_ifs at hb
  all_goals
    rw [Option.some.injEq] at hb
    omega

theorem fromHex_ne {b : UInt8} {h : Nat} (hb : fromHex b = some h) : b ≠ dquote ∧ b ≠ backslash := by
  constructor
  · rintro rfl
    cases hb
  · rintro rfl
    cases hb

theorem hexDigits_spec {n c v : Nat} (h : hexDigits n c t = some (v, rest)) :
    ∃ ds, t = ds ++ rest ∧ ds.length = n ∧ v < (c + 1) * 16 ^ n ∧ Inert dquote ds := by
  induction n generalizing c t with
  | zero =>
    unfold hexDigits at h
    rw [Option.some.injEq, Prod.mk.injEq] at h
    obtain ⟨rfl, rfl⟩ := h
    exact ⟨[], rfl, rfl, by omega, .nil⟩
  | succ n ih =>
    cases t with
    | nil =>
      unfold hexDigits at h
      cases h
    | cons b t =>
      unfold hexDigits at h
      obtain ⟨d, hd, hrest⟩ := Option.bind_eq_some_iff.mp h
      obtain ⟨ds, rfl, hlen, hlt, hinert⟩ := ih hrest
      have hsmall := fromHex_lt hd
      obtain ⟨hquote, hbackslash⟩ := fromHex_ne hd
      refine ⟨b :: ds, rfl, by rw [List.length_cons, hlen], Nat.lt_of_lt_of_le hlt ?_,
        .char hquote hbackslash hinert⟩
      have hmul : (c * 16 + d + 1) * 16 ^ n ≤ (c + 1) * 16 * 16 ^ n := Nat.mul_le_mul_right _ (by omega)
      rw [Nat.pow_succ]
      calc (c * 16 + d + 1) * 16 ^ n ≤ (c + 1) * 16 * 16 ^ n := hmul
        _ = (c + 1) * (16 ^ n * 16) := by rw [Nat.mul_assoc, Nat.mul_comm 16]

theorem hexBraced_spec {c v : Nat} (h : hexBraced c t = some (v, rest)) :
    ∃ used, t = used ++ rest ∧ 2 ≤ used.length ∧ v ≤ 0x10FFFF ∧ Inert dquote used := by
  induction t generalizing c with
  | nil => cases h
  | cons b t ih =>
    unfold hexBraced at h
    split at h
    · cases h
    · rename_i d hd
      obtain ⟨hquote, hbackslash⟩ := fromHex_ne hd
      split at h
      · cases h
      · rename_i hle
        split at h
        · rename_i hclose
          cases t with
          | nil => cases hclose
          | cons a t =>
            rw [Option.some.injEq, Prod.mk.injEq] at h
            obtain ⟨rfl, rfl⟩ := h
            obtain rfl : a = 0x7d := Option.some.inj hclose
            exact ⟨[b, 0x7d], rfl, Nat.le_refl 2, by omega,
              .char hquote hbackslash (.char (by decide) (by decide) .nil)⟩
        · obtain ⟨used, rfl, hlen, hv, hinert⟩ := ih h
          exact ⟨b :: used, rfl, by rw [List.length_cons]; omega, hv, .char hquote hbackslash hinert⟩

theorem octalValue_le {b : UInt8} {v : Nat} (h : octalValue b = some v) : v ≤ 7 := by
  unfold octalValue at h
  rw [Option.ite_none_right_eq_some, Option.some.injEq] at h
  omega

theorem octalValue_ne {b : UInt8} {v : Nat} (h : octalValue b = some v) : b ≠ dquote ∧ b ≠ backslash := by
  constructor
  · rintro rfl
    cases h
  · rintro rfl
    cases h

theorem octal_spec {c : Nat} (hc : c ≤ 7) (t : List UInt8) :
    ∃ used, t = used ++ (octal c t).2 ∧ (encodePoint (octal c t).1).length ≤ 1 + used.length ∧
      (octal c t).1 ≤ 0x10FFFF ∧ Inert dquote used := by
  have hlen : ∀ n, n ≤ 0x7ff → (encodePoint n).length ≤ 2 := by
    intro n hn
    rw [length_encodePoint]
    split_ifs <;> omega
  have hone : ∀ n, n ≤ 0x7f → (encodePoint n).length ≤ 1 := by
    intro n hn
    rw [length_encodePoint, if_pos hn]
  cases t with
  | nil => exact ⟨[], rfl, hone c (by omega), Nat.le_trans hc (by omega), .nil⟩
  | cons a t =>
    cases hv : octalValue a with
    | none =>
      have heq : octal c (a :: t) = (c, a :: t) := by simp only [octal, hv]
      rw [heq]
      exact ⟨[], rfl, hone c (by omega), Nat.le_trans hc (by omega), .nil⟩
    | some v =>
      have hv' := octalValue_le hv
      have hinert : Inert dquote [a] := .char (octalValue_ne hv).1 (octalValue_ne hv).2 .nil
      by_cases hlarge : 32 ≤ c * 8 + v
      · have heq : octal c (a :: t) = (c * 8 + v, t) := by simp only [octal, hv, hlarge, if_true]
        rw [heq]
        exact ⟨[a], rfl, hlen _ (by omega), by dsimp only; omega, hinert⟩
      · cases t with
        | nil =>
          have heq : octal c [a] = (c * 8 + v, []) := by simp only [octal, hv, hlarge, if_false]
          rw [heq]
          exact ⟨[a], rfl, hlen _ (by omega), by dsimp only; omega, hinert⟩
        | cons b t =>
          cases hw : octalValue b with
          | none =>
            have heq : octal c (a :: b :: t) = (c * 8 + v, b :: t) := by
              simp only [octal, hv, hw, hlarge, if_false]
            rw [heq]
            exact ⟨[a], rfl, hlen _ (by omega), by dsimp only; omega, hinert⟩
          | some w =>
            have hw' := octalValue_le hw
            have heq : octal c (a :: b :: t) = ((c * 8 + v) * 8 + w, t) := by
              simp only [octal, hv, hw, hlarge, if_false]
            rw [heq]
            refine ⟨[a, b], rfl, Nat.le_trans (hlen _ (by omega)) (Nat.le_add_right 2 1), ?_, ?_⟩
            · dsimp only
              omega
            · exact .char (octalValue_ne hv).1 (octalValue_ne hv).2
                (.char (octalValue_ne hw).1 (octalValue_ne hw).2 .nil)

theorem control_le {c : UInt8} {n : Nat} (h : control c = some n) : n ≤ 13 := by
  unfold control at h
  split_ifs at h
  all_goals
    rw [Option.some.injEq] at h
    omega

theorem plain_of_le {b : UInt8} (h : 0x80 ≤ b.toNat) : b ≠ dquote ∧ b ≠ backslash ∧ b ≠ lf ∧ b ≠ cr := by
  refine ⟨?_, ?_, ?_, ?_⟩
  all_goals
    rintro rfl
    exact absurd h (by decide)

theorem inert_of_le {bs : List UInt8} (h : ∀ b ∈ bs, 0x80 ≤ b.toNat) : Inert dquote bs := by
  induction bs with
  | nil => exact .nil
  | cons b bs ih =>
    obtain ⟨hb, hbs⟩ := List.forall_mem_cons.mp h
    obtain ⟨hquote, hbackslash, -, -⟩ := plain_of_le hb
    exact .char hquote hbackslash (ih hbs)

theorem inert_encodePoint {n : Nat} (h : 0x7f < n) : Inert dquote (encodePoint n) :=
  inert_of_le (fun _ hb => le_of_mem_encodePoint h hb)

theorem inert_escape_encodePoint {n : Nat} (h : 0x7f < n) : Inert dquote (backslash :: encodePoint n) := by
  cases hbytes : encodePoint n with
  | nil =>
    have hlen := length_encodePoint n
    rw [hbytes, List.length_nil] at hlen
    split_ifs at hlen
  | cons c cs =>
    refine .pair (inert_of_le (fun b hb => le_of_mem_encodePoint h ?_))
    rw [hbytes]
    exact List.mem_cons_of_mem c hb

/-- An escape stands for no more bytes than it has behind the backslash. -/
theorem escape_spec {cps : List Nat} (h : escape t = some (cps, rest)) :
    ∃ used, t = used ++ rest ∧ (cps.flatMap encodePoint).length ≤ used.length ∧ (∀ n ∈ cps, n ≤ 0x10FFFF) ∧
      Inert dquote (backslash :: used) := by
  have hone : ∀ n, n ≤ 0x7f → (encodePoint n).length = 1 := by
    intro n hn
    rw [length_encodePoint, if_pos hn]
  cases t with
  | nil => cases h
  | cons c t =>
    rw [escape] at h
    split at h
    · rw [Option.some.injEq, Prod.mk.injEq] at h
      obtain ⟨rfl, hrest⟩ := h
      split at hrest
      · rename_i hlf
        cases t with
        | nil => exact ⟨[c], by rw [← hrest]; rfl, Nat.zero_le _, by simp, .pair .nil⟩
        | cons a t =>
          obtain rfl : a = lf := Option.some.inj hlf
          exact ⟨[c, lf], by rw [← hrest]; rfl, Nat.zero_le _, by simp, .pair (.char (by decide) (by decide) .nil)⟩
      · exact ⟨[c], by rw [← hrest]; rfl, Nat.zero_le _, by simp, .pair .nil⟩
    split at h
    · rw [Option.some.injEq, Prod.mk.injEq] at h
      obtain ⟨rfl, rfl⟩ := h
      exact ⟨[c], rfl, Nat.zero_le _, by simp, .pair .nil⟩
    split at h
    · split at h
      · cases h
      · rename_i cp tail hdecode
        obtain ⟨hbytes, hlo, hle⟩ := utf8Decode_spec hdecode
        rw [Option.some.injEq, Prod.mk.injEq] at h
        obtain ⟨rfl, rfl⟩ := h
        refine ⟨encodePoint cp, hbytes, ?_, ?_, inert_escape_encodePoint hlo⟩
        · split <;> simp
        · split
          · simp
          · simpa using hle
    rename_i hascii
    split at h
    · rename_i n hcontrol
      have hle := control_le hcontrol
      rw [Option.some.injEq, Prod.mk.injEq] at h
      obtain ⟨rfl, rfl⟩ := h
      refine ⟨[c], rfl, ?_, by simp; omega, .pair .nil⟩
      rw [List.flatMap_singleton, hone n (by omega)]
      exact Nat.le_refl 1
    split at h
    · obtain ⟨d, hd, heq⟩ := Option.map_eq_some_iff.mp h
      rw [Prod.mk.injEq] at heq
      obtain ⟨rfl, rfl⟩ := heq
      rw [List.flatMap_singleton]
      split at hd
      · rename_i hbrace
        have hbraced : hexBraced 0 (t.drop 1) = some (d.1, d.2) := hd
        obtain ⟨used, hused, hlen, hle, hinert⟩ := hexBraced_spec hbraced
        cases t with
        | nil => cases hbrace
        | cons a t =>
          have hfour := length_encodePoint_le d.1
          obtain rfl : a = 0x7b := Option.some.inj hbrace
          refine ⟨c :: 0x7b :: used, ?_, ?_, by simpa using hle, .pair (.char (by decide) (by decide) hinert)⟩
          · rw [List.drop_one, List.tail_cons] at hused
            rw [hused]
            rfl
          · rw [List.length_cons, List.length_cons]
            omega
      · have hdigits : hexDigits (if c = 0x78 then 2 else 4) 0 t = some (d.1, d.2) := hd
        obtain ⟨ds, hds, hlen, hlt, hinert⟩ := hexDigits_spec hdigits
        refine ⟨c :: ds, by rw [hds]; rfl, ?_, ?_, .pair hinert⟩
        · rw [List.length_cons, hlen, length_encodePoint]
          split at hlt
          · rename_i hx
            rw [if_pos hx]
            split_ifs <;> omega
          · rename_i hx
            rw [if_neg hx]
            split_ifs <;> omega
        · intro n hn
          rw [List.mem_singleton.mp hn]
          split at hlt <;> omega
    split at h
    · rename_i v hv
      obtain ⟨used, hused, hlen, hle, hinert⟩ := octal_spec (octalValue_le hv) t
      rw [Option.some.injEq, Prod.mk.injEq] at h
      obtain ⟨rfl, rfl⟩ := h
      refine ⟨c :: used, ?_, ?_, by simpa using hle, .pair hinert⟩
      · rw [List.cons_append, ← hused]
      · rw [List.flatMap_singleton, List.length_cons]
        omega
    · rw [Option.some.injEq, Prod.mk.injEq] at h
      obtain ⟨rfl, rfl⟩ := h
      refine ⟨[c], rfl, ?_, by simp; omega, .pair .nil⟩
      rw [List.flatMap_singleton, hone _ (by omega)]
      exact Nat.le_refl 1

/-- The value of a literal takes no more bytes than the literal, and less where that has an escape. -/
theorem parseString_spec {n : Nat} {cps : List Nat} (h : parseString n t = some (cps, rest)) :
    ∃ body, t = body ++ dquote :: rest ∧ Inert dquote body ∧ (cps.flatMap encodePoint).length ≤ body.length ∧
      ((cps.flatMap encodePoint).length = body.length → IsPlain body) ∧ ∀ n ∈ cps, n ≤ 0x10FFFF := by
  induction n generalizing t cps with
  | zero => cases h
  | succ n ih =>
    cases t with
    | nil => cases h
    | cons c t =>
      rw [parseString] at h
      split at h
      · cases h
      rename_i hline
      split at h
      · rename_i hquote
        rw [Option.some.injEq, Prod.mk.injEq] at h
        obtain ⟨rfl, rfl⟩ := h
        refine ⟨[], by rw [hquote]; rfl, .nil, Nat.le_refl 0, ?_, by simp⟩
        intro _ b hb
        cases hb
      rename_i hquote
      split at h
      · rename_i hbackslash
        split at h
        · cases h
        · rename_i ns tail hescape
          obtain ⟨used, rfl, hlen, hns, hescaped⟩ := escape_spec hescape
          obtain ⟨r, hr, heq⟩ := Option.map_eq_some_iff.mp h
          rw [Prod.mk.injEq] at heq
          obtain ⟨rfl, rfl⟩ := heq
          obtain ⟨body, rfl, hinert, hle, -, hcps⟩ := ih hr
          refine ⟨c :: (used ++ body), by simp, ?_, ?_, ?_, ?_⟩
          · rw [hbackslash]
            exact hescaped.append hinert
          · rw [List.flatMap_append, List.length_append, List.length_cons, List.length_append]
            omega
          · -- the backslash is lost
            intro hall
            rw [List.flatMap_append, List.length_append, List.length_cons, List.length_append] at hall
            omega
          · intro m hm
            rcases List.mem_append.mp hm with hm | hm
            · exact hns m hm
            · exact hcps m hm
      rename_i hbackslash
      split at h
      · rename_i hhigh
        split at h
        · cases h
        · rename_i cp tail hdecode
          obtain ⟨hbytes, hlo, hhi⟩ := utf8Decode_spec hdecode
          obtain ⟨r, hr, heq⟩ := Option.map_eq_some_iff.mp h
          rw [Prod.mk.injEq] at heq
          obtain ⟨rfl, rfl⟩ := heq
          obtain ⟨body, rfl, hinert, hle, hplain, hcps⟩ := ih hr
          refine ⟨encodePoint cp ++ body, by rw [hbytes, List.append_assoc], ?_, ?_, ?_, ?_⟩
          · exact (inert_encodePoint hlo).append hinert
          · rw [List.flatMap_cons, List.length_append, List.length_append]
            omega
          · intro hall
            rw [List.flatMap_cons, List.length_append, List.length_append] at hall
            intro b hb
            rcases List.mem_append.mp hb with hb | hb
            · exact plain_of_le (le_of_mem_encodePoint hlo hb)
            · exact hplain (by omega) b hb
          · intro m hm
            rcases List.mem_cons.mp hm with rfl | hm
            · exact hhi
            · exact hcps m hm
      · rename_i hascii
        obtain ⟨r, hr, heq⟩ := Option.map_eq_some_iff.mp h
        rw [Prod.mk.injEq] at heq
        obtain ⟨rfl, rfl⟩ := heq
        obtain ⟨body, rfl, hinert, hle, hplain, hcps⟩ := ih hr
        have hone : (encodePoint c.toNat).length = 1 := by
          rw [length_encodePoint, if_pos (by omega)]
        refine ⟨c :: body, rfl, .char hquote hbackslash hinert, ?_, ?_, ?_⟩
        · rw [List.flatMap_cons, List.length_append, List.length_cons]
          omega
        · intro hall
          rw [List.flatMap_cons, List.length_append, List.length_cons] at hall
          intro b hb
          rcases List.mem_cons.mp hb with rfl | hb
          · exact ⟨hquote, hbackslash, fun hlf => hline (.inl hlf), fun hcr => hline (.inr hcr)⟩
          · exact hplain (by omega) b hb
        · intro m hm
          rcases List.mem_cons.mp hm with rfl | hm
          · omega
          · exact hcps m hm

/-- Without what is read in another way, the bytes of code points are read as these. -/
theorem parseString_flatMap {cps : List Nat} (hplain : IsPlain (cps.flatMap encodePoint))
    (hcps : ∀ n ∈ cps, n ≤ 0x10FFFF) {n : Nat} (hn : (cps.flatMap encodePoint).length < n) (tail : List UInt8) :
    parseString n (cps.flatMap encodePoint ++ dquote :: tail) = some (cps, tail) := by
  induction cps generalizing n with
  | nil =>
    obtain ⟨n, rfl⟩ := Nat.exists_eq_succ_of_ne_zero (Nat.pos_iff_ne_zero.mp (Nat.zero_lt_of_lt hn))
    rw [List.flatMap_nil, List.nil_append, parseString, if_neg (by decide), if_pos rfl]
  | cons cp cps ih =>
    obtain ⟨hcp, hcps⟩ := List.forall_mem_cons.mp hcps
    obtain ⟨n, rfl⟩ := Nat.exists_eq_succ_of_ne_zero (Nat.pos_iff_ne_zero.mp (Nat.zero_lt_of_lt hn))
    rw [List.flatMap_cons] at hplain hn ⊢
    rw [List.length_append] at hn
    have hpos : 1 ≤ (encodePoint cp).length := by
      rw [length_encodePoint]
      split_ifs <;> omega
    have htail := ih (fun b hb => hplain b (List.mem_append_right _ hb)) hcps (n := n) (by omega)
    obtain ⟨c, cs, hbytes⟩ := List.exists_cons_of_length_pos hpos
    obtain ⟨hquote, hbackslash, hlf, hcr⟩ := hplain c (by rw [hbytes]; exact List.mem_cons_self)
    by_cases hascii : cp ≤ 0x7f
    · have hself : encodePoint cp = [UInt8.ofNat cp] := by
        unfold encodePoint
        rw [if_pos hascii]
      rw [hself, List.cons.injEq] at hbytes
      obtain ⟨rfl, rfl⟩ := hbytes
      have hval := toNat_ofNat (n := cp) (by omega)
      rw [hself, List.append_assoc, List.singleton_append, parseString, if_neg (not_or.mpr ⟨hlf, hcr⟩),
        if_neg hquote, if_neg hbackslash, if_neg (by omega), htail, hval]
      rfl
    · have hhigh := le_of_mem_encodePoint (n := cp) (by omega) (b := c) (by rw [hbytes]; exact List.mem_cons_self)
      have hlo : 0x7f < cp := Nat.lt_of_not_le hascii
      have hdecode := utf8Decode_encodePoint hlo hcp (cps.flatMap encodePoint ++ dquote :: tail)
      rw [hbytes, List.cons_append] at hdecode
      rw [hbytes, List.append_assoc, List.cons_append, parseString, if_neg (not_or.mpr ⟨hlf, hcr⟩),
        if_neg hquote, if_neg hbackslash, if_pos hhigh, hdecode]
      dsimp only
      rw [htail]
      rfl

end

/-- A literal is a string's, and takes no more bytes than stand between the quotes. -/
theorem literal_spec {t v rest : List UInt8} (h : literal t = some (v, rest)) :
    ∃ body, t = body ++ dquote :: rest ∧ Inert dquote body ∧ v.length ≤ body.length ∧
      (v.length = body.length → IsPlain body) ∧ IsText v := by
  obtain ⟨r, hr, heq⟩ := Option.map_eq_some_iff.mp h
  rw [Prod.mk.injEq] at heq
  obtain ⟨rfl, rfl⟩ := heq
  obtain ⟨body, hbody, hinert, hle, hplain, hcps⟩ := parseString_spec hr
  have hshort := length_encode_flatMap_units_le hcps
  refine ⟨body, hbody, hinert, Nat.le_trans hshort hle, ?_, r.1.flatMap units, rfl⟩
  intro hall
  rw [hall] at hshort
  exact hplain (Nat.le_antisymm hle hshort)

/-- A text of a string is read as itself where no byte of it is read in another way. -/
theorem literal_of_plain {s : List UInt8} (hplain : IsPlain s) (htext : IsText s) (tail : List UInt8) :
    literal (s ++ dquote :: tail) = some (s, tail) := by
  obtain ⟨us, rfl⟩ := htext
  have hself : encode us = (points us).flatMap encodePoint := rfl
  have hlen : (encode us).length < (encode us ++ dquote :: tail).length + 1 := by
    rw [List.length_append]
    exact Nat.lt_succ_of_le (Nat.le_add_right _ _)
  rw [hself] at hplain hlen
  have hread := parseString_flatMap hplain (fun n hn => points_le hn) hlen tail
  rw [← hself] at hread
  unfold literal
  rw [hread, Option.map_some, flatMap_units_points]

/-! ## Literals behind the scanner of chains -/

/-- The quote that closes a literal is the first one without a backslash. -/
theorem inert_unique {xs ys as bs : List UInt8} (hxs : Inert dquote xs) (hys : Inert dquote ys)
    (h : xs ++ dquote :: as = ys ++ dquote :: bs) : xs = ys := by
  induction hxs generalizing ys with
  | nil =>
    cases hys with
    | nil => rfl
    | char hquote hbackslash hys => exact absurd (List.cons.inj h).1.symm hquote
    | pair hys => exact absurd (List.cons.inj h).1 (by decide)
  | @char c xs hquote hbackslash hxs ih =>
    cases hys with
    | nil => exact absurd (List.cons.inj h).1 hquote
    | char _ _ hys =>
      obtain ⟨rfl, htail⟩ := List.cons.inj h
      rw [ih hys htail]
    | pair hys => exact absurd (List.cons.inj h).1 hbackslash
  | @pair c xs hxs ih =>
    cases hys with
    | nil => exact absurd (List.cons.inj h).1 (by decide)
    | char _ hbackslash _ => exact absurd (List.cons.inj h).1.symm hbackslash
    | pair hys =>
      obtain ⟨rfl, htail⟩ := List.cons.inj (List.cons.inj h).2
      rw [ih hys htail]

/-- In a literal, the scanner copies up to the quote that closes it, or all there is. -/
theorem run_doubleQuote (before t : List UInt8) :
    (∃ body rest after, t = body ++ dquote :: rest ∧ Inert dquote body ∧
      run step .doubleQuote before t = body ++ dquote :: after) ∨ run step .doubleQuote before t = t := by
  induction hn : t.length using Nat.strongRecOn generalizing t before with
  | ind n ih =>
    subst hn
    have hquoted : ∀ before c rest, step .doubleQuote before c rest = Unity.quotedStep dquote .doubleQuote c rest :=
      fun _ _ _ => rfl
    cases t with
    | nil => exact .inr rfl
    | cons c t =>
      by_cases hquote : c = dquote
      · subst hquote
        exact .inl ⟨[], t, _, rfl, .nil, run_inert hquoted (by decide) .nil before t⟩
      by_cases hescape : c = backslash ∧ t ≠ []
      · obtain ⟨rfl, ht⟩ := hescape
        obtain ⟨d, t, rfl⟩ := List.exists_cons_of_ne_nil ht
        have hstep : step .doubleQuote before backslash (d :: t) = ⟨1, [backslash, d], .doubleQuote⟩ := by
          rw [hquoted, Unity.quotedStep, if_pos ⟨rfl, ht⟩]
          rfl
        rw [run_two hstep]
        rcases ih t.length (by simp only [List.length_cons]; omega) (d :: backslash :: before) t rfl with
          ⟨body, rest, after, hbody, hinert, hrun⟩ | hrun
        · exact .inl ⟨backslash :: d :: body, rest, after, by rw [hbody]; rfl, .pair hinert, by rw [hrun]; rfl⟩
        · exact .inr (by rw [hrun]; rfl)
      · have hstep : step .doubleQuote before c t = ⟨0, [c], .doubleQuote⟩ := by
          rw [hquoted, Unity.quotedStep, if_neg hescape, if_neg hquote]
        rw [run_one hstep]
        rcases ih t.length (by simp) (c :: before) t rfl with ⟨body, rest, after, hbody, hinert, hrun⟩ | hrun
        · by_cases hbackslash : c = backslash
          · -- a backslash at the end of the text
            have ht : t = [] := Classical.byContradiction (fun hne => hescape ⟨hbackslash, hne⟩)
            rw [ht] at hbody
            exact absurd hbody (by simp)
          · exact .inl ⟨c :: body, rest, after, by rw [hbody]; rfl, .char hquote hbackslash hinert,
              by rw [hrun]; rfl⟩
        · exact .inr (by rw [hrun]; rfl)

theorem length_le_of_notMem {xs ys as bs : List UInt8} (has : dquote ∉ as)
    (h : xs ++ dquote :: as = ys ++ dquote :: bs) : ys.length ≤ xs.length := by
  refine Nat.le_of_not_lt (fun hlt => ?_)
  have hbegins : xs ++ [dquote] <+: ys := by
    have hxs : xs ++ [dquote] <+: ys ++ dquote :: bs := by
      refine ⟨as, ?_⟩
      rw [← h, List.append_assoc]
      rfl
    refine List.prefix_of_prefix_length_le hxs (List.prefix_append ys _) ?_
    rw [List.length_append]
    exact hlt
  obtain ⟨zs, rfl⟩ := hbegins
  rw [List.append_assoc, List.append_assoc] at h
  have htail : as = zs ++ dquote :: bs := (List.cons.inj (List.append_cancel_left h)).2
  rw [htail] at has
  exact has (List.mem_append_right zs List.mem_cons_self)

theorem IsPlain.inert {s : List UInt8} (h : IsPlain s) : Inert dquote s := by
  induction s with
  | nil => exact .nil
  | cons b s ih =>
    obtain ⟨⟨hquote, hbackslash, -, -⟩, hs⟩ := List.forall_mem_cons.mp h
    exact .char hquote hbackslash (ih hs)

/-- Between quotes, a text is read as itself exactly where it is plain. -/
theorem literal_run_iff {tail : List UInt8} (htail : dquote ∉ tail) (before s : List UInt8) :
    (literal (run step .doubleQuote before (s ++ dquote :: tail))).map Prod.fst = some s ↔ IsPlain s ∧ IsText s := by
  constructor
  · intro h
    obtain ⟨⟨v, rest⟩, hread, hv⟩ := Option.map_eq_some_iff.mp h
    obtain rfl : v = s := hv
    obtain ⟨body, hbody, hinert, hle, hplain, htext⟩ := literal_spec hread
    have hclosed : ∃ after, v ++ dquote :: tail = body ++ dquote :: after := by
      rcases run_doubleQuote before (v ++ dquote :: tail) with ⟨closed, after, copied, hclosed, hinert', hrun⟩ | hrun
      · rw [hrun] at hbody
        rw [← inert_unique hinert' hinert hbody]
        exact ⟨after, hclosed⟩
      · rw [hrun] at hbody
        exact ⟨rest, hbody⟩
    obtain ⟨after, hclosed⟩ := hclosed
    have hlen := Nat.le_antisymm hle (length_le_of_notMem htail hclosed)
    obtain rfl : v = body := List.append_inj_left hclosed hlen
    exact ⟨hplain rfl, htext⟩
  · rintro ⟨hplain, htext⟩
    rw [run_inert (fun _ _ _ => rfl) (by decide) hplain.inert before tail, literal_of_plain hplain htext]
    rfl

end ArtPi.Cli.StringLiteral
