import ArtPi.Lib.Glob

set_option autoImplicit false

/-! # The wildcard matchers

`MatchWildcard` for symbols, modules and classes, `UnityWildcardMatch` for the names of a Unity runtime. Both are
the search of `Glob` over bytes; the second runs over C strings. A `*` of the subject at a `*` of the pattern is
taken as itself, since equal characters are tried first, and then the run is not tried. -/

namespace ArtPi.Agent.Wildcard

open Lib.Glob

/-- `tolower` of the C locale. -/
def tolower (c : UInt8) : UInt8 := if 'A'.toUInt8 ≤ c ∧ c ≤ 'Z'.toUInt8 then c + 32 else c

set_option maxRecDepth 8192 in
theorem tolower_eq_star {c : UInt8} : tolower c = '*'.toUInt8 ↔ c = '*'.toUInt8 := by
  have hall : ∀ n : Fin 256, tolower (UInt8.ofNat n) = '*'.toUInt8 ↔ UInt8.ofNat n = '*'.toUInt8 := by
    decide
  have h := hall ⟨c.toNat, c.toNat_lt⟩
  rwa [UInt8.ofNat_toNat] at h

def wildcards : Letters UInt8 where
  star := '*'.toUInt8
  one := '?'.toUInt8
  same a b := tolower a = tolower b
  one_ne := by decide
  same_star c := by
    rw [decide_eq_true_iff, eq_comm, show tolower '*'.toUInt8 = '*'.toUInt8 by decide]
    exact tolower_eq_star

/-- The bytes of an ASCII text. -/
def chars (s : String) : List UInt8 := s.toList.map Char.toUInt8

def matchWildcard (str pattern : List UInt8) : Bool := (Scan.start wildcards pattern str).run

/-- The bytes of a `std::string` that its C string has. -/
def cStr (s : List UInt8) : List UInt8 := s.takeWhile (· ≠ 0)

/-- A pattern with a special character. -/
def hasWildcard (pattern : List UInt8) : Bool := '*'.toUInt8 ∈ pattern ∨ '?'.toUInt8 ∈ pattern

/-- The pattern's bytes begin the text, up to case. -/
def beginsWith : List UInt8 → List UInt8 → Bool
  | [], _ => true
  | _, [] => false
  | a :: pattern, b :: text => tolower a = tolower b && beginsWith pattern text

def unityWildcardMatch (pattern text : List UInt8) (exactWhenNoWildcard : Bool) : Bool :=
  if pattern = [] then true
  else if hasWildcard pattern then (Scan.start wildcards (cStr pattern) (cStr text)).run
  else if exactWhenNoWildcard then pattern.length = text.length && beginsWith pattern text
  else text.tails.any (beginsWith pattern)

theorem matchWildcard_iff_plain (str pattern : List UInt8) :
    matchWildcard str pattern = true ↔ Plain wildcards pattern str :=
  run_iff pattern str

theorem unityWildcardMatch_iff_plain {pattern text : List UInt8} (h : hasWildcard pattern = true)
    (exactWhenNoWildcard : Bool) :
    unityWildcardMatch pattern text exactWhenNoWildcard = true ↔
      Plain wildcards (cStr pattern) (cStr text) := by
  have hne : pattern ≠ [] := by
    rintro rfl
    cases h
  rw [unityWildcardMatch, if_neg hne, if_pos h]
  exact run_iff _ _

theorem cStr_eq {s : List UInt8} (h : 0 ∉ s) : cStr s = s := by
  induction s with
  | nil => rfl
  | cons b s ih =>
    rw [List.mem_cons, not_or] at h
    have hb : b ≠ 0 := fun hb => h.1 hb.symm
    rw [cStr, List.takeWhile_cons_of_pos (by simpa using hb)]
    rw [cStr] at ih
    rw [ih h.2]

theorem matches_iff_plain {pattern str : List UInt8} (h : '*'.toUInt8 ∉ str) :
    Matches wildcards pattern str ↔ Plain wildcards pattern str :=
  ⟨fun hm => plain_of_matches hm h, matches_of_plain⟩

/-- What the matchers find is the pattern's language just if the subject has a match in which no run goes on
    behind a `*` it begins at; for a subject without `*`, and for C strings, that is always so. -/
theorem wildcard_matchers (str pattern : List UInt8) (exactWhenNoWildcard : Bool) :
    ((matchWildcard str pattern = true ↔ Matches wildcards pattern str) ↔
      (Matches wildcards pattern str → Plain wildcards pattern str)) ∧
    (hasWildcard pattern = true →
      ((unityWildcardMatch pattern str exactWhenNoWildcard = true ↔ Matches wildcards pattern str) ↔
        (Matches wildcards pattern str ↔ Plain wildcards (cStr pattern) (cStr str)))) ∧
    ('*'.toUInt8 ∉ str → (matchWildcard str pattern = true ↔ Matches wildcards pattern str)) ∧
    (hasWildcard pattern = true → '*'.toUInt8 ∉ str → 0 ∉ str → 0 ∉ pattern →
      (unityWildcardMatch pattern str exactWhenNoWildcard = true ↔ Matches wildcards pattern str)) := by
  refine ⟨?_, fun hw => ?_, fun hs => ?_, fun hw hs h0 hp0 => ?_⟩
  · rw [matchWildcard_iff_plain]
    exact ⟨fun h => h.2, fun h => ⟨matches_of_plain, h⟩⟩
  · rw [unityWildcardMatch_iff_plain hw]
    exact ⟨Iff.symm, Iff.symm⟩
  · rw [matchWildcard_iff_plain, matches_iff_plain hs]
  · rw [unityWildcardMatch_iff_plain hw, cStr_eq h0, cStr_eq hp0, matches_iff_plain hs]

/-- A name with a special character only in the pattern. -/
theorem wildcard_matchers_nodes :
    unityWildcardMatch (chars "N*e") (chars "node") false = true ↔
      Matches wildcards (chars "N*e") (chars "node") :=
  (wildcard_matchers (chars "node") (chars "N*e") false).2.2.2 (by decide) (by decide) (by decide) (by decide)

/-- A reference to a pointer: the `*` of the subject is taken for the one of the pattern, and `&` is left. -/
theorem wildcard_matchers_pointer :
    ¬ (matchWildcard (chars "T*&") (chars "T*") = true ↔ Matches wildcards (chars "T*") (chars "T*&")) ∧
    ¬ (unityWildcardMatch (chars "T*") (chars "T*&") false = true ↔
        Matches wildcards (chars "T*") (chars "T*&")) := by
  have hmatches : Matches wildcards (chars "T*") (chars "T*&") :=
    .char (by decide) (by decide) (.star (chars "*&") .nil)
  have hplain : ¬ Plain wildcards (chars "T*") (chars "T*&") := by
    intro h
    have h1 : Plain wildcards (chars "*") (chars "*&") := ((plain_char (by decide)).1 h).2
    have h2 : Plain wildcards [] (chars "&") := plain_asterisk.1 h1
    exact absurd (plain_nil_left.1 h2) (by decide)
  refine ⟨fun h => hplain ?_, fun h => hplain ?_⟩
  · exact (matchWildcard_iff_plain _ _).1 (h.2 hmatches)
  · exact (unityWildcardMatch_iff_plain (by decide) false).1 (h.2 hmatches)

end ArtPi.Agent.Wildcard
