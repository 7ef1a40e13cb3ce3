import ArtPi.Lib.Nesting
import ArtPi.Agent.JavaText

set_option autoImplicit false

/-! # One method of a decompiled class (`src/agent/agent_java_decompile.cpp`)

`DecompileSingleClass` cuts a method out of the source of its class: it looks for the name with a parenthesis, goes back
over lines that begin like annotations and comments, and counts braces. None of it knows literals and comments. -/

namespace ArtPi.Agent.MethodExtract

open Lib Net JavaText

/-! ## The extraction -/

def openBrace : UInt8 := 0x7B
def closeBrace : UInt8 := 0x7D
def semicolonByte : UInt8 := 0x3B
def parenthesis : UInt8 := 0x28

/-- `javaCode.rfind('\n', pos)`, and behind it; the front of the text where there is none. -/
def lineStart (t : Text) (pos : Nat) : Nat :=
  match splitLast lf (t.take (pos + 1)) with
  | none => 0
  | some (front, _) => front.length + 1

/-- `javaCode.substr(pos, stop - pos)`. Where `stop` is in front of `pos` the difference wraps around, and the rest of the
text is taken. -/
def substr (t : Text) (pos stop : Nat) : Text := if pos ≤ stop then (t.drop pos).take (stop - pos) else t.drop pos

def isSpace (c : UInt8) : Bool := c = 0x20 || c = 0x09 || c = cr || c = lf

/-- A line that begins like an annotation or a comment. -/
def isMarked (line : Text) : Bool :=
  [[0x40], [slash, star], [slash, slash], [star]].any (·.isPrefixOf (line.dropWhile isSpace))

/-- The scan back over such lines, with at most `fuel` turns; `scanPos` is `lineStart` as well. -/
def scan (t : Text) : Nat → Nat → Option Nat
  | 0, _ => none
  | fuel + 1, scanPos =>
    if 0 < scanPos then
      let prevLineEnd := scanPos - 1
      let prevLineStart := lineStart t (if 0 < prevLineEnd then prevLineEnd - 1 else 0)
      if isMarked (substr t prevLineStart prevLineEnd) = true then scan t fuel prevLineStart else some scanPos
    else some scanPos

def findFrom (c : UInt8) (t : Text) (pos : Nat) : Option Nat := (Lines.find [c] (t.drop pos)).map (pos + ·)

/-- The brace that closes the one at `braceOpen`. -/
def closeFrom (t : Text) (braceOpen : Nat) : Option Nat :=
  (Nesting.closing openBrace closeBrace 1 (t.drop (braceOpen + 1))).map (braceOpen + 1 + ·)

/-- The last character of the method. -/
def lastOf (t : Text) (pos : Nat) : Option Nat :=
  match findFrom semicolonByte t pos, findFrom openBrace t pos with
  | some semiColon, none => some semiColon
  | some semiColon, some braceOpen => if semiColon < braceOpen then some semiColon else closeFrom t braceOpen
  | none, some braceOpen => closeFrom t braceOpen
  | none, none => none

/-- What is returned: the whole text, with a note that the method is not in it, or a stretch of it. -/
inductive Extract where
  | all
  | notFound
  | stretch (start length : Nat)
  deriving DecidableEq

/-- The extraction, with at most `fuel` turns of the scan. -/
def extract (t methodName : Text) (fuel : Nat) : Option Extract :=
  if methodName = [] then some .all
  else match Lines.find (methodName ++ [parenthesis]) t with
    | none => some .notFound
    | some pos =>
      (scan t fuel (lineStart t pos)).map fun start =>
        match lastOf t pos with
        | some last => .stretch start (last - start + 1)
        | none => .all

/-- The string for it. -/
def Extract.text (className methodName javaCode : Text) : Extract → Text
  | .all => javaCode
  | .notFound => ascii "// [Note: Method '" ++ methodName ++
      ascii "' not found directly (may be inlined/synthetic/obfuscated). Full class source:]\n\n" ++ javaCode
  | .stretch start length => ascii "// Decompiled " ++ className ++ ascii "." ++ methodName ++ ascii " via JADX:\n" ++
      (javaCode.drop start).take length

/-! ## The scan back -/

/-- A text is cut into lines at its line feeds. -/
def isEnd (c : UInt8) : Bool := c = lf

/-- The lines in front of the one with the place, and what of that one is in front of it. -/
def linesTo (t : Text) (pos : Nat) : List Text × Text := Lines.lines isEnd (t.take (pos + 1))

theorem lineStart_eq_behindLast (t : Text) (pos : Nat) : lineStart t pos = Lines.behindLast lf (t.take (pos + 1)) := by
  rw [lineStart, Lines.behindLast]
  cases splitLast lf (t.take (pos + 1)) with
  | none => rfl
  | some parts => rfl

theorem lineStart_eq (t : Text) (pos : Nat) : lineStart t pos = (linesTo t pos).1.flatten.length := by
  have hspec := Lines.lines_spec (p := isEnd) (t.take (pos + 1))
  have hlast : lf ∉ (linesTo t pos).2 := fun hmem => absurd (hspec.2 lf hmem) (by decide)
  rw [lineStart_eq_behindLast, ← Lines.lines_flatten (p := isEnd) (t.take (pos + 1))]
  exact Lines.behindLast_lines hspec.1 hlast

theorem isPrefixOf_append_lf {q : Text} (h : lf ∉ q) (s : Text) : q.isPrefixOf (s ++ [lf]) = q.isPrefixOf s := by
  induction q generalizing s with
  | nil => rw [List.isPrefixOf_nil_left, List.isPrefixOf_nil_left]
  | cons x q ih =>
    have hx : (x == lf) = false := by
      rw [beq_eq_false_iff_ne]
      exact fun he => h (he ▸ List.mem_cons_self ..)
    cases s with
    | nil => simp [List.isPrefixOf, hx]
    | cons y s =>
      rw [List.cons_append, List.isPrefixOf, List.isPrefixOf, ih (fun hm => h (.tail x hm))]

/-- The end of a line is no part of what makes it a marked one. -/
theorem isMarked_append_lf (body : Text) : isMarked (body ++ [lf]) = isMarked body := by
  have hpre : ∀ q ∈ [[0x40], [slash, star], [slash, slash], [star]], lf ∉ q := by decide
  rw [isMarked, isMarked, List.dropWhile_append]
  by_cases hnil : body.dropWhile isSpace = []
  · rw [hnil]
    rfl
  · rw [if_neg (by simpa using hnil), Bool.eq_iff_iff, List.any_eq_true, List.any_eq_true]
    exact exists_congr fun q => and_congr_right fun hq => by rw [isPrefixOf_append_lf (hpre q hq)]

theorem prevLine_eq {t after body : Text} {rows : List Text} (hrows : ∀ r ∈ rows, Lines.IsLine isEnd r)
    (hbody : lf ∉ body) (hne : rows.flatten ++ body ≠ []) (ht : t = rows.flatten ++ body ++ lf :: after) :
    let prevLineEnd := (rows ++ [body ++ [lf]]).flatten.length - 1
    let prevLineStart := lineStart t (if 0 < prevLineEnd then prevLineEnd - 1 else 0)
    prevLineStart = rows.flatten.length ∧ substr t prevLineStart prevLineEnd = body := by
  have hend : (rows ++ [body ++ [lf]]).flatten.length - 1 = (rows.flatten ++ body).length := by
    simp
  have hpos : 0 < (rows.flatten ++ body).length := List.length_pos_iff.mpr hne
  have htake : t.take ((rows.flatten ++ body).length - 1 + 1) = rows.flatten ++ body := by
    rw [Nat.sub_add_cancel hpos, ht, List.take_left]
  have hstart : lineStart t ((rows.flatten ++ body).length - 1) = rows.flatten.length := by
    rw [lineStart_eq_behindLast, htake]
    exact Lines.behindLast_lines hrows hbody
  simp only [hend, if_pos hpos, hstart, true_and]
  rw [substr, if_pos (by simp), ht, List.append_assoc, List.drop_left, List.length_append, Nat.add_sub_cancel_left,
    List.take_left]

/-- At the second character of a text that starts with a line feed the line in front of it is the rest of the text. -/
theorem prevLine_first {t after : Text} (ht : t = lf :: after) :
    lineStart t (if 0 < 1 - 1 then 1 - 1 - 1 else 0) = 1 ∧ substr t 1 (1 - 1) = after := by
  rw [ht]
  exact ⟨rfl, rfl⟩

/-- The scan comes to the second character, in front of which is a line feed, and takes what is behind it for a marked
line. -/
def Stuck (rows : List Text) (after : Text) : Prop :=
  ∃ lead, rows = [lf] :: lead ∧ (∀ r ∈ lead, isMarked r = true) ∧ isMarked (lead.flatten ++ after) = true

/-- A marked line behind the first one makes no difference to it. -/
theorem stuck_append_iff {rows : List Text} {body after : Text} (hne : rows ≠ [] ∨ body ≠ []) :
    Stuck (rows ++ [body ++ [lf]]) after ↔
      isMarked (body ++ [lf]) = true ∧ Stuck rows (body ++ [lf] ++ after) := by
  cases rows with
  | nil =>
    constructor
    · rintro ⟨lead, h, -⟩
      have hbody : body ++ [lf] = [lf] := (List.cons.inj h).1
      have hnil : body = [] := by simpa using hbody
      rcases hne with h | h
      · exact absurd rfl h
      · exact absurd hnil h
    · rintro ⟨-, lead, h, -⟩
      cases h
  | cons first rows =>
    constructor
    · rintro ⟨lead, h, hlead, hall⟩
      obtain ⟨rfl, rfl⟩ := List.cons.inj h
      refine ⟨hlead _ (by simp), rows, rfl, fun r hr => hlead r (by simp [hr]), ?_⟩
      simpa using hall
    · rintro ⟨hmarked, lead, h, hlead, hall⟩
      obtain ⟨rfl, rfl⟩ := List.cons.inj h
      refine ⟨rows ++ [body ++ [lf]], rfl, fun r hr => ?_, by simpa using hall⟩
      rcases List.mem_append.mp hr with hr | hr
      · exact hlead r hr
      · rw [List.mem_singleton.mp hr]
        exact hmarked

theorem scan_one {t after : Text} (ht : t = lf :: after) (hmarked : isMarked after = true) (fuel : Nat) :
    scan t fuel 1 = none := by
  induction fuel with
  | zero => rfl
  | succ fuel ih =>
    obtain ⟨hstart, hline⟩ := prevLine_first ht
    simp only [scan, if_pos Nat.one_pos, hstart, hline, if_pos hmarked, ih]

/-- The scan from behind whole lines: it does not end where it gets stuck, and elsewhere it goes back over the marked
lines. -/
theorem scan_lines {t : Text} {rows : List Text} (hrows : ∀ r ∈ rows, Lines.IsLine isEnd r) (after : Text)
    (ht : t = rows.flatten ++ after) :
    (Stuck rows after → ∀ fuel, scan t fuel rows.flatten.length = none) ∧
      (¬ Stuck rows after → ∀ fuel, rows.length < fuel →
        scan t fuel rows.flatten.length = some (rows.rdropWhile isMarked).flatten.length) := by
  induction rows using List.reverseRecOn generalizing after with
  | nil =>
    constructor
    · rintro ⟨lead, h, -⟩
      cases h
    · rintro - fuel hfuel
      cases fuel with
      | zero => cases hfuel
      | succ fuel => rfl
  | append_singleton rows r ih =>
    obtain ⟨body, x, rfl, hx, hplain⟩ := hrows r (by simp)
    obtain rfl : x = lf := of_decide_eq_true hx
    have hbody : lf ∉ body := fun hmem => absurd (hplain lf hmem) (by decide)
    have hbefore : ∀ r ∈ rows, Lines.IsLine isEnd r := fun r hr => hrows r (by simp [hr])
    have hpos : 0 < (rows ++ [body ++ [lf]]).flatten.length := by simp
    by_cases hne : rows.flatten ++ body = []
    · -- only the line feed at the front is left
      obtain ⟨hflat, rfl⟩ := List.append_eq_nil_iff.mp hne
      have hnil : rows = [] := by
        cases rows with
        | nil => rfl
        | cons r rows =>
          obtain ⟨b, y, rfl, -⟩ := hbefore r (.head rows)
          simp at hflat
      subst hnil
      have htext : t = lf :: after := ht
      obtain ⟨hstart, hline⟩ := prevLine_first htext
      constructor
      · rintro ⟨lead, h, -, hmarked⟩ fuel
        obtain ⟨-, rfl⟩ := List.cons.inj h
        exact scan_one htext hmarked fuel
      · intro hstuck fuel hfuel
        have hmarked : ¬ isMarked after = true := fun h =>
          hstuck ⟨[], rfl, fun _ hr => (List.not_mem_nil hr).elim, h⟩
        obtain ⟨fuel, rfl⟩ := Nat.exists_eq_succ_of_ne_zero (Nat.ne_of_gt (Nat.lt_of_le_of_lt (Nat.zero_le _) hfuel))
        have hscan : scan t (fuel + 1) 1 = some 1 := by
          simp only [scan, if_pos Nat.one_pos, hstart, hline, if_neg hmarked]
        exact hscan
    · have hor : rows ≠ [] ∨ body ≠ [] := by
        by_contra hall
        obtain ⟨rfl, rfl⟩ : rows = [] ∧ body = [] := by simpa [not_or] using hall
        exact hne rfl
      have htext : t = rows.flatten ++ body ++ lf :: after := by simpa using ht
      obtain ⟨hstart, hline⟩ := prevLine_eq hbefore hbody hne htext
      have hstep : ∀ fuel, scan t (fuel + 1) (rows ++ [body ++ [lf]]).flatten.length =
          if isMarked body = true then scan t fuel rows.flatten.length
          else some (rows ++ [body ++ [lf]]).flatten.length := by
        intro fuel
        simp only [scan, if_pos hpos, hstart] at hline ⊢
        rw [hline]
      rw [stuck_append_iff hor, isMarked_append_lf]
      obtain ⟨ihStuck, ihFree⟩ := ih hbefore (body ++ [lf] ++ after) (by simpa using ht)
      by_cases hmarked : isMarked body = true
      · simp only [hmarked, true_and]
        rw [List.rdropWhile_concat_pos _ _ _ (by rw [isMarked_append_lf]; exact hmarked)]
        constructor
        · intro hstuck fuel
          cases fuel with
          | zero => rfl
          | succ fuel =>
            rw [hstep, if_pos hmarked]
            exact ihStuck hstuck fuel
        · intro hstuck fuel hfuel
          cases fuel with
          | zero => cases hfuel
          | succ fuel =>
            rw [hstep, if_pos hmarked]
            exact ihFree hstuck fuel (by simp at hfuel; omega)
      · rw [List.rdropWhile_concat_neg _ _ _ (by rw [isMarked_append_lf]; exact hmarked)]
        refine ⟨fun h => absurd h.1 hmarked, fun _ fuel hfuel => ?_⟩
        cases fuel with
        | zero => cases hfuel
        | succ fuel => rw [hstep, if_neg hmarked]

theorem scan_mono {t : Text} {fuel scanPos start : Nat} (h : scan t fuel scanPos = some start) (more : Nat) :
    scan t (fuel + more) scanPos = some start := by
  induction fuel generalizing scanPos with
  | zero => cases h
  | succ fuel ih =>
    have hsum : fuel + 1 + more = fuel + more + 1 := by omega
    rw [hsum]
    simp only [scan] at h ⊢
    by_cases hpos : 0 < scanPos
    · rw [if_pos hpos] at h ⊢
      generalize lineStart t (if 0 < scanPos - 1 then scanPos - 1 - 1 else 0) = prevLineStart at h ⊢
      by_cases hmarked : isMarked (substr t prevLineStart (scanPos - 1)) = true
      · rw [if_pos hmarked] at h ⊢
        exact ih h
      · rwa [if_neg hmarked] at h ⊢
    · rwa [if_neg hpos] at h ⊢

/-! ## When the extraction ends -/

/-- The text starts with a line feed, every whole line behind it and in front of the place is marked, and what is behind
the line feed begins like an annotation or a comment. -/
def Loops (t : Text) (pos : Nat) : Prop :=
  ∃ lead, (linesTo t pos).1 = [lf] :: lead ∧ (∀ line ∈ lead, isMarked line = true) ∧ isMarked (t.drop 1) = true

theorem linesTo_split (t : Text) (pos : Nat) :
    t = (linesTo t pos).1.flatten ++ ((linesTo t pos).2 ++ t.drop (pos + 1)) := by
  rw [← List.append_assoc, linesTo, Lines.lines_flatten, List.take_append_drop]

theorem loops_iff_stuck (t : Text) (pos : Nat) :
    Loops t pos ↔ Stuck (linesTo t pos).1 ((linesTo t pos).2 ++ t.drop (pos + 1)) := by
  refine exists_congr fun lead => and_congr_right fun hlead => ?_
  have hdrop : t.drop 1 = lead.flatten ++ ((linesTo t pos).2 ++ t.drop (pos + 1)) := by
    have hsplit := linesTo_split t pos
    rw [hlead, List.flatten_cons] at hsplit
    conv_lhs => rw [hsplit]
    rfl
  rw [hdrop]

theorem scan_of_loops {t : Text} {pos : Nat} (h : Loops t pos) (fuel : Nat) : scan t fuel (lineStart t pos) = none := by
  rw [lineStart_eq]
  exact (scan_lines (Lines.lines_spec _).1 _ (linesTo_split t pos)).1 ((loops_iff_stuck t pos).mp h) fuel

theorem scan_of_not_loops {t : Text} {pos fuel : Nat} (h : ¬ Loops t pos) (hfuel : (linesTo t pos).1.length < fuel) :
    scan t fuel (lineStart t pos) = some ((linesTo t pos).1.rdropWhile isMarked).flatten.length := by
  rw [lineStart_eq]
  exact (scan_lines (Lines.lines_spec _).1 _ (linesTo_split t pos)).2 (mt (loops_iff_stuck t pos).mpr h) fuel hfuel

/-- The extraction comes to an end. -/
def Ends (t methodName : Text) : Prop := ∃ fuel, (extract t methodName fuel).isSome = true

/-- It comes to an end with this. -/
def Returns (t methodName : Text) (r : Extract) : Prop := ∃ fuel, extract t methodName fuel = some r

/-- The extraction ends unless its scan loops at the first line feed. -/
theorem ends_iff (t methodName : Text) : Ends t methodName ↔
    methodName = [] ∨ ∀ pos, Lines.find (methodName ++ [parenthesis]) t = some pos → ¬ Loops t pos := by
  by_cases hempty : methodName = []
  · exact iff_of_true ⟨0, by rw [extract, if_pos hempty]; rfl⟩ (.inl hempty)
  simp only [Ends, extract, hempty, if_false, false_or]
  cases hfind : Lines.find (methodName ++ [parenthesis]) t with
  | none => exact iff_of_true ⟨0, rfl⟩ fun _ h => absurd h (Option.some_ne_none _).symm
  | some pos =>
    simp only [Option.some_inj, forall_eq']
    constructor
    · rintro ⟨fuel, hfuel⟩ hloops
      rw [scan_of_loops hloops] at hfuel
      cases hfuel
    · intro hloops
      refine ⟨(linesTo t pos).1.length + 1, ?_⟩
      rw [scan_of_not_loops hloops (Nat.lt_succ_self _)]
      rfl

/-! ## Where the stretch ends -/

/-- The first semicolon or opening brace from the place on: the semicolon is the last character, or the brace is closed by
the last character, braces counted wherever they are. -/
def EndsAt (t : Text) (pos last : Nat) : Prop :=
  ∃ plain rest, t.drop pos = plain ++ rest ∧ semicolonByte ∉ plain ∧ openBrace ∉ plain ∧
    ((∃ more, rest = semicolonByte :: more ∧ last = pos + plain.length) ∨
      ∃ inner more, rest = openBrace :: inner ++ closeBrace :: more ∧ Nesting.Balanced openBrace closeBrace inner ∧
        last = pos + plain.length + 1 + inner.length)

section Last

variable {t plain more : Text} {pos : Nat}

theorem findFrom_eq {c : UInt8} (h : t.drop pos = plain ++ c :: more) (hc : c ∉ plain) :
    findFrom c t pos = some (pos + plain.length) := by
  rw [findFrom, h, (Lines.find_singleton_iff c _ plain.length).mpr ⟨plain, more, rfl, rfl, hc⟩]
  rfl

theorem lt_of_findFrom {c d : UInt8} (h : t.drop pos = plain ++ c :: more) (hd : d ∉ plain) (hcd : d ≠ c) {n : Nat}
    (hn : findFrom d t pos = some n) : pos + plain.length < n := by
  obtain ⟨m, hm, rfl⟩ := Option.map_eq_some_iff.mp hn
  obtain ⟨front, rest, hsplit, rfl, -⟩ := (Lines.find_singleton_iff d _ m).mp hm
  have hlt := Lines.length_lt_of_split hcd (hsplit.symm.trans h) hd
  omega

theorem lastOf_semicolon (h : t.drop pos = plain ++ semicolonByte :: more) (hs : semicolonByte ∉ plain)
    (hb : openBrace ∉ plain) : lastOf t pos = some (pos + plain.length) := by
  rw [lastOf, findFrom_eq h hs]
  cases hbrace : findFrom openBrace t pos with
  | none => rfl
  | some n => exact if_pos (lt_of_findFrom h hb (by decide) hbrace)

theorem lastOf_brace (h : t.drop pos = plain ++ openBrace :: more) (hs : semicolonByte ∉ plain) (hb : openBrace ∉ plain) :
    lastOf t pos = closeFrom t (pos + plain.length) := by
  rw [lastOf, findFrom_eq h hb]
  cases hsemi : findFrom semicolonByte t pos with
  | none => rfl
  | some n =>
    have hlt := lt_of_findFrom h hs (by decide) hsemi
    exact if_neg (by omega)

theorem lastOf_none (hs : semicolonByte ∉ t.drop pos) (hb : openBrace ∉ t.drop pos) : lastOf t pos = none := by
  rw [lastOf, findFrom, findFrom, (Lines.find_singleton_none_iff _ _).mpr hs, (Lines.find_singleton_none_iff _ _).mpr hb]
  rfl

theorem closeFrom_eq_some_iff (h : t.drop pos = plain ++ openBrace :: more) (last : Nat) :
    closeFrom t (pos + plain.length) = some last ↔
      ∃ inner rest, more = inner ++ closeBrace :: rest ∧ Nesting.Balanced openBrace closeBrace inner ∧
        last = pos + plain.length + 1 + inner.length := by
  have hdrop : t.drop (pos + plain.length + 1) = more := by
    rw [Nat.add_assoc, ← List.drop_drop, h, ← List.drop_drop, List.drop_left]
    rfl
  rw [closeFrom, hdrop, Option.map_eq_some_iff]
  constructor
  · rintro ⟨n, hn, rfl⟩
    obtain ⟨inner, rest, hmore, rfl, hin⟩ := (Nesting.closing_eq_some_iff (by decide) Nat.one_pos more n).mp hn
    exact ⟨inner, rest, hmore, hin, rfl⟩
  · rintro ⟨inner, rest, hmore, hin, rfl⟩
    exact ⟨inner.length,
      (Nesting.closing_eq_some_iff (by decide) Nat.one_pos more _).mpr ⟨inner, rest, hmore, rfl, hin⟩, rfl⟩

end Last

theorem exists_plain (xs : Text) : (semicolonByte ∉ xs ∧ openBrace ∉ xs) ∨
    ∃ plain c more, xs = plain ++ c :: more ∧ (c = semicolonByte ∨ c = openBrace) ∧ semicolonByte ∉ plain ∧
      openBrace ∉ plain := by
  induction xs with
  | nil => exact .inl ⟨List.not_mem_nil, List.not_mem_nil⟩
  | cons x xs ih =>
    by_cases hx : x = semicolonByte ∨ x = openBrace
    · exact .inr ⟨[], x, xs, rfl, hx, List.not_mem_nil, List.not_mem_nil⟩
    have hout {c : UInt8} (hc : x ≠ c) {ys : Text} (hys : c ∉ ys) : c ∉ x :: ys := by
      simp [Ne.symm hc, hys]
    obtain ⟨hsemi, hbrace⟩ := not_or.mp hx
    rcases ih with ⟨hs, hb⟩ | ⟨plain, c, more, rfl, hc, hs, hb⟩
    · exact .inl ⟨hout hsemi hs, hout hbrace hb⟩
    · exact .inr ⟨x :: plain, c, more, rfl, hc, hout hsemi hs, hout hbrace hb⟩

theorem lastOf_eq_some_iff (t : Text) (pos last : Nat) : lastOf t pos = some last ↔ EndsAt t pos last := by
  constructor
  · intro h
    rcases exists_plain (t.drop pos) with ⟨hs, hb⟩ | ⟨plain, c, more, hsplit, rfl | rfl, hs, hb⟩
    · rw [lastOf_none hs hb] at h
      cases h
    · rw [lastOf_semicolon hsplit hs hb, Option.some_inj] at h
      exact ⟨plain, _, hsplit, hs, hb, .inl ⟨more, rfl, h.symm⟩⟩
    · rw [lastOf_brace hsplit hs hb, closeFrom_eq_some_iff hsplit] at h
      obtain ⟨inner, rest, rfl, hin, hlast⟩ := h
      exact ⟨plain, _, hsplit, hs, hb, .inr ⟨inner, rest, rfl, hin, hlast⟩⟩
  · rintro ⟨plain, rest, hsplit, hs, hb, ⟨more, rfl, rfl⟩ | ⟨inner, more, rfl, hin, hlast⟩⟩
    · exact lastOf_semicolon hsplit hs hb
    · rw [lastOf_brace hsplit hs hb, closeFrom_eq_some_iff hsplit]
      exact ⟨inner, more, rfl, hin, hlast⟩

/-! ## Which stretch it is -/

/-- The whole lines from `start` to the one with the place are marked, and the one in front of `start` is not. -/
def MarkedFrom (t : Text) (start pos : Nat) : Prop :=
  ∃ above lead, (linesTo t pos).1 = above ++ lead ∧ above.flatten.length = start ∧
    (∀ line ∈ lead, isMarked line = true) ∧ ∀ line, above.getLast? = some line → isMarked line = false

/-- A line does not start behind a character that is no line feed. -/
theorem lineStart_le {t : Text} {pos : Nat} {c : UInt8} {rest : Text} (h : t.drop pos = c :: rest) (hc : c ≠ lf) :
    lineStart t pos ≤ pos := by
  have htake : t.take (pos + 1) = t.take pos ++ [c] := by
    rw [List.take_add, h]
    rfl
  rw [lineStart, htake]
  by_cases hmem : lf ∈ t.take pos ++ [c]
  · obtain ⟨front, back, -, hsplit, hlast⟩ := exists_splitLast hmem
    have hlen := congrArg List.length hsplit
    have hback : back ≠ [] := by
      rintro rfl
      exact hc (List.singleton_inj.mp (List.append_inj' hsplit rfl).2)
    have hpos : 0 < back.length := List.length_pos_iff.mpr hback
    have htaken : (t.take pos).length ≤ pos := List.length_take_le ..
    simp only [List.length_append, List.length_cons, List.length_nil] at hlen
    rw [hlast]
    show front.length + 1 ≤ pos
    omega
  · rw [splitLast_none hmem]
    exact Nat.zero_le pos

theorem EndsAt.le {t : Text} {pos last : Nat} (h : EndsAt t pos last) : pos ≤ last := by
  obtain ⟨plain, rest, -, -, -, ⟨more, -, rfl⟩ | ⟨inner, more, -, -, rfl⟩⟩ := h <;> omega

theorem returns_stretch_iff {t methodName : Text} (hname : methodName ≠ []) (hlf : lf ∉ methodName) {start length : Nat}
    (hlength : 0 < length) : Returns t methodName (.stretch start length) ↔
      ∃ pos, Lines.find (methodName ++ [parenthesis]) t = some pos ∧ ¬ Loops t pos ∧ MarkedFrom t start pos ∧
        EndsAt t pos (start + length - 1) := by
  simp only [Returns, extract, hname, if_false]
  cases hfind : Lines.find (methodName ++ [parenthesis]) t with
  | none => simp
  | some pos =>
    simp only [Option.some_inj, exists_eq_left', Option.map_eq_some_iff]
    have hle : lineStart t pos ≤ pos := by
      obtain ⟨rest, hrest⟩ := Lines.prefix_of_find hfind
      obtain ⟨c, name, rfl⟩ := List.exists_cons_of_ne_nil hname
      exact lineStart_le hrest.symm fun he => hlf (he ▸ List.mem_cons_self ..)
    have hback : ((linesTo t pos).1.rdropWhile isMarked).flatten.length ≤ pos :=
      (Lines.rdropWhile_length_le isMarked _).trans ((lineStart_eq t pos).symm.trans_le hle)
    constructor
    · rintro ⟨fuel, front, hscan, hresult⟩
      have hloops : ¬ Loops t pos := by
        intro hl
        rw [scan_of_loops hl] at hscan
        cases hscan
      have hfront : ((linesTo t pos).1.rdropWhile isMarked).flatten.length = front := by
        have hlong : (linesTo t pos).1.length < fuel + ((linesTo t pos).1.length + 1) := by omega
        have hmore := scan_of_not_loops hloops hlong
        rw [scan_mono hscan, Option.some_inj] at hmore
        exact hmore.symm
      cases hlast : lastOf t pos with
      | none =>
        rw [hlast] at hresult
        cases hresult
      | some last =>
        have hends := (lastOf_eq_some_iff t pos last).mp hlast
        have hle := hends.le
        rw [hlast] at hresult
        simp only [Extract.stretch.injEq] at hresult
        obtain ⟨rfl, rfl⟩ := hresult
        have hend : front + (last - front + 1) - 1 = last := by omega
        rw [hend]
        exact ⟨hloops, (Lines.rdropWhile_length_iff isMarked _ front).mp hfront, hends⟩
    · rintro ⟨hloops, hmarked, hends⟩
      refine ⟨(linesTo t pos).1.length + 1, _, scan_of_not_loops hloops (Nat.lt_succ_self _), ?_⟩
      rw [(Lines.rdropWhile_length_iff isMarked _ start).mpr hmarked] at hback ⊢
      rw [(lastOf_eq_some_iff t pos _).mpr hends]
      have hlast := hends.le
      simp only [Extract.stretch.injEq, true_and]
      omega

/-! ## The declaration -/

/-- The extraction ends, and where the text declares just one method of the name, with its declaration. -/
def Right (u : CompilationUnit) (methodName : Text) : Prop :=
  Ends u.text methodName ∧ ∀ p, u.declarations methodName = [p] →
    Returns u.text methodName (.stretch p.start (p.stop - p.start))

/-- The first place of the name with a parenthesis leads to the declaration: back to its first line, and on to its last
character. -/
def Leads (u : CompilationUnit) (methodName : Text) (p : Place) : Prop :=
  ∃ pos, Lines.find (methodName ++ [parenthesis]) u.text = some pos ∧ MarkedFrom u.text p.start pos ∧
    EndsAt u.text pos (p.stop - 1)

theorem extraction_right_iff (u : CompilationUnit) (methodName : Text) : Right u methodName ↔
    (methodName = [] ∨ ∀ pos, Lines.find (methodName ++ [parenthesis]) u.text = some pos → ¬ Loops u.text pos) ∧
      ∀ p, u.declarations methodName = [p] → Leads u methodName p := by
  rw [Right, ends_iff]
  refine and_congr_right fun hends => forall_congr' fun p => forall_congr' fun hp => ?_
  have hmem : p ∈ u.declarations methodName := by simp [hp]
  obtain ⟨hname, hword⟩ := CompilationUnit.name_valid hmem
  have hlf : lf ∉ methodName := fun h => absurd (hword lf h) (by decide)
  have hlt := CompilationUnit.start_lt_stop hmem
  have hlast : p.start + (p.stop - p.start) - 1 = p.stop - 1 := by omega
  rw [returns_stretch_iff hname hlf (by omega), hlast]
  refine exists_congr fun pos => and_congr_right fun hfind => ?_
  have hfree : ¬ Loops u.text pos := hends.resolve_left hname pos hfind
  exact ⟨fun h => h.2, fun h => ⟨hfree, h⟩⟩

/-- A line feed, an annotated class in one line, and its only method in the next. -/
def annotated : CompilationUnit where
  items := .token (.white lf) <| .token (.symbol 0x40) <| .token (.word (ascii "Deprecated")) <| .token (.white 0x20) <|
    .token (.word (ascii "class")) <| .token (.white 0x20) <| .token (.word (ascii "A")) <| .token (.white 0x20) <|
    .group .curly
      (.token (.white lf) <| .method (.token (.word (ascii "void")) <| .token (.white 0x20) .nil) (ascii "run") [] .nil
        (.token (.white 0x20) .nil) .nil <| .token (.white lf) .nil)
      (.token (.white lf) .nil)
  valid := by decide
  separate := by decide
  proper := by decide

example : annotated.text = ascii "\n@Deprecated class A \x7b\nvoid run() \x7b\x7d\n\x7d\n" := by decide

/-- The scan never gets past the line feed at the front. -/
theorem not_extraction_right : ¬ ∀ (u : CompilationUnit) (methodName : Text), Right u methodName := by
  intro h
  have hends := (ends_iff annotated.text (ascii "run")).mp (h annotated (ascii "run")).1
  refine (hends.resolve_left (by decide)) 28 (by decide) ?_
  exact ⟨[ascii "@Deprecated class A \x7b\n"], by decide, by decide, by decide⟩

end ArtPi.Agent.MethodExtract
