import ArtPi.Lib.Quoted
import ArtPi.Lib.Utf8

set_option autoImplicit false

/-! # Lists of strings from the agent (`cli/injector/repl_client.cpp`, `engine/qjs/quickjs/quickjs.c`)

The candidates for a completion come as the JSON of an array of strings. `ExtractJsonStringArray` looks for the
brackets and for the quotes of each string, and `JsonUnescape` takes the escapes back. -/

namespace ArtPi.Cli.JsonList

open Lib.Quoted Lib.Utf8

/-! ## The client -/

def hexValue (h : UInt8) : Option Nat :=
  if 0x30 ≤ h ∧ h ≤ 0x39 then some (h.toNat - 0x30)
  else if 0x61 ≤ h ∧ h ≤ 0x66 then some (h.toNat - 0x61 + 10)
  else if 0x41 ≤ h ∧ h ≤ 0x46 then some (h.toNat - 0x41 + 10)
  else none

/-- The four digits behind `\u`. -/
def readHex (s : List UInt8) : Option Nat :=
  if s.length < 4 then none
  else (s.take 4).foldlM (fun cp h => (hexValue h).map fun v => cp <<< 4 ||| v) 0

/-- The bytes that are put out for the number behind `\u`. -/
def encodeUnicode (cp : Nat) : List UInt8 :=
  if cp < 0x80 then [UInt8.ofNat cp]
  else if cp < 0x800 then [UInt8.ofNat (0xC0 ||| cp >>> 6), UInt8.ofNat (0x80 ||| cp &&& 0x3F)]
  else
    [UInt8.ofNat (0xE0 ||| cp >>> 12), UInt8.ofNat (0x80 ||| cp >>> 6 &&& 0x3F), UInt8.ofNat (0x80 ||| cp &&& 0x3F)]

/-- The escapes with one character. -/
def shortEscape (n : UInt8) : Option UInt8 :=
  if n = 0x22 then some 0x22
  else if n = 0x5C then some 0x5C
  else if n = 0x2F then some 0x2F
  else if n = 0x62 then some 0x08
  else if n = 0x66 then some 0x0C
  else if n = 0x6E then some 0x0A
  else if n = 0x72 then some 0x0D
  else if n = 0x74 then some 0x09
  else none

/-- `JsonUnescape`: an escape that is none stays as it is. -/
def jsonUnescape (s : List UInt8) : List UInt8 :=
  match s with
  | [] => []
  | [c] => [c]
  | c :: n :: rest =>
    if c ≠ 0x5C then c :: jsonUnescape (n :: rest)
    else
      match shortEscape n with
      | some b => b :: jsonUnescape rest
      | none =>
        if n = 0x75 then
          match readHex rest with
          | some cp => encodeUnicode cp ++ jsonUnescape (rest.drop 4)
          | none => 0x5C :: 0x75 :: jsonUnescape rest
        else 0x5C :: n :: jsonUnescape rest
termination_by s.length
decreasing_by all_goals simp only [List.length_cons, List.length_drop]; omega

/-- `"` and `\`. -/
def marks : Marks UInt8 := ⟨0x22, 0x5C, by decide⟩

/-- The loop for the closing bracket, with `inQuote` and `esc`. -/
def bracketClose : Bool → Bool → List UInt8 → Option Nat
  | _, _, [] => none
  | inQuote, true, _ :: rest => (bracketClose inQuote false rest).map (· + 1)
  | inQuote, false, c :: rest =>
    if c = 0x5C then (bracketClose inQuote true rest).map (· + 1)
    else if c = 0x22 then (bracketClose (!inQuote) false rest).map (· + 1)
    else if c = 0x5D ∧ inQuote = false then some 0
    else (bracketClose inQuote false rest).map (· + 1)

/-- The loop over the strings, in what stands between the brackets. -/
def elements (s : List UInt8) : List (List UInt8) :=
  match _h : s.dropWhile (· ≠ 0x22) with
  | [] => []
  | _ :: rest =>
    match closing marks false rest with
    | none => []
    | some q2 => jsonUnescape (rest.take q2) :: elements (rest.drop (q2 + 1))
termination_by s.length
decreasing_by
  have hle := (List.dropWhile_suffix (fun c : UInt8 => decide (c ≠ 0x22)) (l := s)).length_le
  rw [_h, List.length_cons] at hle
  rw [List.length_drop]
  omega

/-- `std::string::find` of a string. -/
def find (pat s : List UInt8) : Option Nat := (List.range (s.length + 1)).find? fun i => pat.isPrefixOf (s.drop i)

def extractJsonStringArray (json key : List UInt8) : List (List UInt8) :=
  match (if key = [] then some 0 else find (0x22 :: (key ++ [0x22])) json) with
  | none => []
  | some start =>
    match (json.drop start).dropWhile (· ≠ 0x5B) with
    | [] => []
    | _ :: rest =>
      match bracketClose false false rest with
      | none => []
      | some close => elements (rest.take close)

/-! ## The agent -/

/-- A digit of `%04x`. -/
def hexDigit (d : Nat) : UInt8 := if d < 10 then UInt8.ofNat (0x30 + d) else UInt8.ofNat (0x61 + (d - 10))

def escapeUnicode (c : Nat) : List UInt8 :=
  [0x5C, 0x75, hexDigit (c / 4096 % 16), hexDigit (c / 256 % 16), hexDigit (c / 16 % 16), hexDigit (c % 16)]

/-- The `switch` of `JS_ToQuotedString`. -/
def quoteLetter (c : Nat) : Option UInt8 :=
  if c = 0x09 then some 0x74
  else if c = 0x0D then some 0x72
  else if c = 0x0A then some 0x6E
  else if c = 0x08 then some 0x62
  else if c = 0x0C then some 0x66
  else if c = 0x22 then some 0x22
  else if c = 0x5C then some 0x5C
  else none

def quotePoint (c : Nat) : List UInt8 :=
  match quoteLetter c with
  | some n => [0x5C, n]
  | none => if c < 32 ∨ (0xD800 ≤ c ∧ c < 0xE000) then escapeUnicode c else encodePoint c

/-- `JS_ToQuotedString`, with the JSON in UTF-8. -/
def toQuotedString (s : List UInt16) : List UInt8 := 0x22 :: ((points s).flatMap quotePoint ++ [0x22])

/-- The elements of an array, with commas. -/
def joined : List (List UInt16) → List UInt8
  | [] => []
  | [s] => toQuotedString s
  | s :: t :: rest => toQuotedString s ++ 0x2C :: joined (t :: rest)

/-- `JSON.stringify` of a list of strings. -/
def stringify (l : List (List UInt16)) : List UInt8 := 0x5B :: (joined l ++ [0x5D])

/-! ## One code point -/

theorem jsonUnescape_plain {c : UInt8} (h : c ≠ 0x5C) (t : List UInt8) :
    jsonUnescape (c :: t) = c :: jsonUnescape t := by
  cases t with
  | nil => simp [jsonUnescape]
  | cons n t => rw [jsonUnescape, if_pos h]

theorem jsonUnescape_append {s : List UInt8} (h : ∀ b ∈ s, b ≠ 0x5C) (t : List UInt8) :
    jsonUnescape (s ++ t) = s ++ jsonUnescape t := by
  induction s with
  | nil => rfl
  | cons b s ih =>
    obtain ⟨hb, hs⟩ := List.forall_mem_cons.1 h
    rw [List.cons_append, jsonUnescape_plain hb, ih hs]
    rfl

theorem hexValue_hexDigit {d : Nat} (h : d < 16) : hexValue (hexDigit d) = some d := by
  revert d
  decide

theorem hexDigit_plain {d : Nat} (h : d < 16) : hexDigit d ≠ 0x22 ∧ hexDigit d ≠ 0x5C := by
  revert d
  decide

theorem readHex_digits {c : Nat} (h : c < 0x10000) (t : List UInt8) :
    readHex (hexDigit (c / 4096 % 16) :: hexDigit (c / 256 % 16) :: hexDigit (c / 16 % 16) ::
      hexDigit (c % 16) :: t) = some c := by
  have hdigit : ∀ n, hexValue (hexDigit (n % 16)) = some (n % 16) :=
    fun n => hexValue_hexDigit (Nat.mod_lt n (by decide))
  have hor : ∀ a n, a <<< 4 ||| n % 16 = a * 16 + n % 16 := by
    intro a n
    rw [← Nat.shiftLeft_add_eq_or_of_lt (show n % 16 < 2 ^ 4 from Nat.mod_lt n (by decide)), Nat.shiftLeft_eq]
  unfold readHex
  rw [if_neg (by simp)]
  simp only [List.take_succ_cons, List.take_zero, List.foldlM_cons, List.foldlM_nil, hdigit, Option.map_some,
    Option.bind_eq_bind, Option.bind_some, hor]
  rw [Option.pure_def, Option.some_inj]
  omega

theorem encodeUnicode_eq {c : Nat} (h : c < 0x10000) : encodeUnicode c = encodePoint c := by
  have hlow : ∀ n, 0x80 ||| n &&& 0x3F = n % 64 + 0x80 := by
    intro n
    have hmod : n &&& 0x3F = n % 64 := Nat.and_two_pow_sub_one_eq_mod n 6
    rw [hmod, Nat.add_comm]
    exact (Nat.two_pow_add_eq_or_of_lt (show n % 64 < 2 ^ 7 by omega) 1).symm
  unfold encodeUnicode encodePoint
  by_cases hone : c < 0x80
  · rw [if_pos hone, if_pos (Nat.le_of_lt_succ hone)]
  · rw [if_neg hone, if_neg (show ¬ c ≤ 0x7f by omega)]
    by_cases htwo : c < 0x800
    · have hlead : 0xC0 ||| c >>> 6 = c / 64 % 0x20 + 0xc0 := by
        have hshift : c >>> 6 = c / 64 := Nat.shiftRight_eq_div_pow c 6
        rw [hshift, Nat.mod_eq_of_lt (by omega), Nat.add_comm]
        exact (Nat.two_pow_add_eq_or_of_lt (show c / 64 < 2 ^ 6 by omega) 3).symm
      rw [if_pos htwo, if_pos (Nat.le_of_lt_succ htwo), hlead, hlow]
    · have hlead : 0xE0 ||| c >>> 12 = c / 4096 % 0x10 + 0xe0 := by
        have hshift : c >>> 12 = c / 4096 := Nat.shiftRight_eq_div_pow c 12
        rw [hshift, Nat.mod_eq_of_lt (by omega), Nat.add_comm]
        exact (Nat.two_pow_add_eq_or_of_lt (show c / 4096 < 2 ^ 5 by omega) 7).symm
      have hshift : c >>> 6 = c / 64 := Nat.shiftRight_eq_div_pow c 6
      rw [if_neg htwo, if_neg (show ¬ c ≤ 0x7ff by omega), if_pos (Nat.le_of_lt_succ h), hlead, hlow, hlow, hshift]

theorem quoteLetter_cases {c : Nat} {n : UInt8} (h : quoteLetter c = some n) :
    shortEscape n = some (UInt8.ofNat c) ∧ c < 0x80 := by
  unfold quoteLetter at h
  split_ifs at h with h1 h2 h3 h4 h5 h6 h7
  all_goals
    cases h
    subst c
    exact ⟨rfl, by decide⟩

theorem quoteLetter_none {c : Nat} (h : quoteLetter c = none) : c ≠ 0x22 ∧ c ≠ 0x5C := by
  unfold quoteLetter at h
  split_ifs at h with h1 h2 h3 h4 h5 h6 h7
  exact ⟨h6, h7⟩

/-- Neither a quote nor an escape is in the bytes of another code point. -/
theorem encodePoint_plain {c : Nat} (h : quoteLetter c = none) : ∀ b ∈ encodePoint c, b ≠ 0x22 ∧ b ≠ 0x5C := by
  intro b hb
  by_cases hascii : c ≤ 0x7f
  · obtain ⟨hquote, hescape⟩ := quoteLetter_none h
    rw [encodePoint, if_pos hascii, List.mem_singleton] at hb
    have hnat : b.toNat = c := by
      rw [hb]
      exact toNat_ofNat (by omega)
    constructor
    · rintro rfl
      exact hquote hnat.symm
    · rintro rfl
      exact hescape hnat.symm
  · have hle := le_of_mem_encodePoint (Nat.not_le.1 hascii) hb
    constructor
    · rintro rfl
      exact absurd hle (by decide)
    · rintro rfl
      exact absurd hle (by decide)

theorem body_quotePoint (c : Nat) : Body marks (quotePoint c) := by
  unfold quotePoint
  cases h : quoteLetter c with
  | some n => exact .escaped .nil
  | none =>
    have hdigit : ∀ n, hexDigit (n % 16) ≠ 0x22 ∧ hexDigit (n % 16) ≠ 0x5C :=
      fun n => hexDigit_plain (Nat.mod_lt n (by decide))
    change Body marks (if c < 32 ∨ (0xD800 ≤ c ∧ c < 0xE000) then escapeUnicode c else encodePoint c)
    split_ifs
    · refine .escaped (.of_forall fun b hb => ?_)
      simp only [List.mem_cons, List.not_mem_nil, or_false] at hb
      rcases hb with rfl | rfl | rfl | rfl <;> exact hdigit _
    · exact .of_forall (encodePoint_plain h)

theorem jsonUnescape_quotePoint (c : Nat) (t : List UInt8) :
    jsonUnescape (quotePoint c ++ t) = encodePoint c ++ jsonUnescape t := by
  unfold quotePoint
  cases h : quoteLetter c with
  | some n =>
    obtain ⟨hshort, hascii⟩ := quoteLetter_cases h
    change jsonUnescape (0x5C :: n :: t) = _
    rw [jsonUnescape, if_neg (by decide), hshort, encodePoint, if_pos (Nat.le_of_lt_succ hascii)]
    rfl
  | none =>
    change jsonUnescape ((if c < 32 ∨ (0xD800 ≤ c ∧ c < 0xE000) then escapeUnicode c else encodePoint c) ++ t) = _
    split_ifs with hunicode
    · have hlt : c < 0x10000 := by omega
      change jsonUnescape (0x5C :: 0x75 :: (hexDigit (c / 4096 % 16) :: hexDigit (c / 256 % 16) ::
        hexDigit (c / 16 % 16) :: hexDigit (c % 16) :: t)) = _
      rw [jsonUnescape, if_neg (by decide), ← encodeUnicode_eq hlt]
      change (match readHex _ with
        | some cp => encodeUnicode cp ++ jsonUnescape _
        | none => _) = _
      rw [readHex_digits hlt]
      rfl
    · exact jsonUnescape_append (fun b hb => (encodePoint_plain h b hb).2) t

/-! ## The list -/

theorem jsonUnescape_points (ps : List Nat) : jsonUnescape (ps.flatMap quotePoint) = ps.flatMap encodePoint := by
  induction ps with
  | nil => rw [List.flatMap_nil, jsonUnescape, List.flatMap_nil]
  | cons c ps ih => rw [List.flatMap_cons, List.flatMap_cons, jsonUnescape_quotePoint, ih]

theorem bracketClose_body {s : List UInt8} (h : Body marks s) (rest : List UInt8) :
    bracketClose true false (s ++ 0x22 :: rest) = (bracketClose false false rest).map (· + (s.length + 1)) := by
  induction h with
  | nil =>
    rw [List.nil_append, bracketClose, if_neg (by decide), if_pos rfl]
    rfl
  | @plain a s hquote hescape _ ih =>
    have hquote : a ≠ 0x22 := hquote
    have hescape : a ≠ 0x5C := hescape
    rw [List.cons_append, bracketClose, if_neg hescape, if_neg hquote, if_neg (fun h => Bool.noConfusion h.2), ih,
      Option.map_map]
    rfl
  | @escaped a s _ ih =>
    change bracketClose true false (0x5C :: (a :: (s ++ 0x22 :: rest))) = _
    rw [bracketClose, if_pos rfl, bracketClose, ih, Option.map_map, Option.map_map]
    rfl

theorem bracketClose_toQuotedString (s : List UInt16) (rest : List UInt8) :
    bracketClose false false (toQuotedString s ++ rest) =
      (bracketClose false false rest).map (· + (toQuotedString s).length) := by
  have htext : toQuotedString s ++ rest = 0x22 :: ((points s).flatMap quotePoint ++ 0x22 :: rest) := by
    rw [toQuotedString, List.cons_append, List.append_assoc]
    rfl
  rw [htext, bracketClose, if_neg (by decide), if_pos rfl]
  change (bracketClose true false _).map _ = _
  rw [bracketClose_body (.flatMap body_quotePoint (points s)), Option.map_map, toQuotedString, List.length_cons,
    List.length_append]
  rfl

theorem bracketClose_joined (l : List (List UInt16)) (rest : List UInt8) :
    bracketClose false false (joined l ++ 0x5D :: rest) = some (joined l).length := by
  have hend : bracketClose false false (0x5D :: rest) = some 0 := by
    rw [bracketClose, if_neg (by decide), if_neg (by decide), if_pos ⟨rfl, rfl⟩]
  induction l with
  | nil => exact hend
  | cons s l ih =>
    cases l with
    | nil =>
      rw [joined, bracketClose_toQuotedString, hend, Option.map_some, Nat.zero_add]
    | cons t l =>
      have hcomma : bracketClose false false (0x2C :: (joined (t :: l) ++ 0x5D :: rest)) =
          some ((joined (t :: l)).length + 1) := by
        rw [bracketClose, if_neg (by decide), if_neg (by decide), if_neg (by decide), ih]
        rfl
      rw [joined, List.append_assoc, List.cons_append, bracketClose_toQuotedString, hcomma, Option.map_some,
        List.length_append, List.length_cons, Nat.add_comm]

theorem elements_of_nil {s : List UInt8} (h : s.dropWhile (· ≠ 0x22) = []) : elements s = [] := by
  rw [elements]
  split
  · rfl
  · rename_i heq
    rw [h] at heq
    cases heq

theorem elements_of_cons {s rest : List UInt8} {c : UInt8} (h : s.dropWhile (· ≠ 0x22) = c :: rest) :
    elements s = match closing marks false rest with
      | none => []
      | some q2 => jsonUnescape (rest.take q2) :: elements (rest.drop (q2 + 1)) := by
  conv_lhs => rw [elements]
  split
  · rename_i heq
    rw [h] at heq
    cases heq
  · rename_i heq
    rw [h] at heq
    obtain ⟨-, rfl⟩ := List.cons.inj heq
    rfl

theorem elements_body {s : List UInt8} (h : Body marks s) (rest : List UInt8) :
    elements (0x22 :: (s ++ 0x22 :: rest)) = jsonUnescape s :: elements rest := by
  have hclosing : closing marks false (s ++ 0x22 :: rest) = some s.length := closing_body h rest
  have hcons : elements (0x22 :: (s ++ 0x22 :: rest)) = match closing marks false (s ++ 0x22 :: rest) with
      | none => []
      | some q2 => jsonUnescape ((s ++ 0x22 :: rest).take q2) :: elements ((s ++ 0x22 :: rest).drop (q2 + 1)) :=
    elements_of_cons rfl
  rw [hcons, hclosing]
  change jsonUnescape ((s ++ 0x22 :: rest).take s.length) :: elements ((s ++ 0x22 :: rest).drop (s.length + 1)) = _
  rw [List.take_left' rfl, ← List.drop_drop, List.drop_left' rfl]
  rfl

theorem elements_comma (rest : List UInt8) : elements (0x2C :: rest) = elements rest := by
  have hdrop : (0x2C :: rest).dropWhile (· ≠ (0x22 : UInt8)) = rest.dropWhile (· ≠ 0x22) := rfl
  cases h : rest.dropWhile (· ≠ (0x22 : UInt8)) with
  | nil => rw [elements_of_nil h, elements_of_nil (hdrop.trans h)]
  | cons c t => rw [elements_of_cons h, elements_of_cons (hdrop.trans h)]

theorem elements_joined (l : List (List UInt16)) : elements (joined l) = l.map encode := by
  have hcons (s : List UInt16) (rest : List UInt8) :
      elements (toQuotedString s ++ rest) = encode s :: elements rest := by
    have htext : toQuotedString s ++ rest = 0x22 :: ((points s).flatMap quotePoint ++ 0x22 :: rest) := by
      rw [toQuotedString, List.cons_append, List.append_assoc]
      rfl
    rw [htext, elements_body (.flatMap body_quotePoint (points s)), jsonUnescape_points]
    rfl
  have hnil : elements [] = [] := elements_of_nil rfl
  induction l with
  | nil => exact hnil
  | cons s l ih =>
    cases l with
    | nil =>
      rw [joined, ← List.append_nil (toQuotedString s), hcons, hnil]
      rfl
    | cons t l =>
      rw [joined, hcons, elements_comma, ih]
      rfl

/-- A list of strings comes through as it is, whatever characters are in the strings. -/
theorem extract_stringify :
    (∀ l : List (List UInt16), extractJsonStringArray (stringify l) [] = l.map encode) ∧
      ∀ l : List (List Char), extractJsonStringArray (stringify (l.map utf16)) [] = l.map utf8 := by
  have hunits (l : List (List UInt16)) : extractJsonStringArray (stringify l) [] = l.map encode := by
    have hopen : ((stringify l).drop 0).dropWhile (fun c : UInt8 => decide (c ≠ 0x5B)) =
        0x5B :: (joined l ++ [0x5D]) := rfl
    unfold extractJsonStringArray
    rw [if_pos rfl]
    change (match ((stringify l).drop 0).dropWhile (fun c : UInt8 => decide (c ≠ 0x5B)) with
      | [] => []
      | _ :: rest => _) = _
    rw [hopen]
    change (match bracketClose false false (joined l ++ [0x5D]) with
      | none => []
      | some close => elements ((joined l ++ [0x5D]).take close)) = _
    rw [bracketClose_joined]
    change elements ((joined l ++ [0x5D]).take (joined l).length) = _
    rw [List.take_left' rfl, elements_joined]
  refine ⟨hunits, fun l => ?_⟩
  rw [hunits, List.map_map]
  exact List.map_congr_left fun s _ => encode_utf16 s

end ArtPi.Cli.JsonList
