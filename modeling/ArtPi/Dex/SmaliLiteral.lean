import ArtPi.Dex.SmaliInvoke

set_option autoImplicit false

/-! # The literal of a constant (`src/dex/pi_dex_writer.cpp`)

A `const` line has its literal in the third token. `ParseLiteral` gives a number for any token, and `TokenizeLine`
keeps neither quotes nor escapes. Here the line is read with the source of each token beside it, and a literal is what
the source denotes. -/

namespace ArtPi.Dex.Smali

open Interp Interp.Constants

/-! ## Literals -/

/-- The magnitude of an integer: decimal digits, or hexadecimal digits behind the mark. -/
def magnitude (s : List Char) : Option Nat :=
  if s.take 2 = ['0', 'x'] ∨ s.take 2 = ['0', 'X'] then
    if s.drop 2 ≠ [] ∧ (s.drop 2).all isHexDigit = true then some (ofDigits 16 (s.drop 2)) else none
  else if s ≠ [] ∧ s.all Char.isDigit = true then some (ofDigits 10 s)
  else none

/-- What an integer token denotes. -/
def intValue (source : List Char) : Option Int :=
  if source.head? = some '-' then (magnitude source.tail).map fun n : Nat => -(n : Int)
  else (magnitude source).map fun n : Nat => (n : Int)

/-- The code units of a character. -/
def utf16 (c : Char) : List Nat :=
  if c.toNat < 0x10000 then [c.toNat]
  else [0xd800 + (c.toNat - 0x10000) / 0x400, 0xdc00 + (c.toNat - 0x10000) % 0x400]

/-- The escapes of one character. -/
def simpleEscape (c : Char) : Option Char :=
  if c = 'n' then some '\n' else if c = 'r' then some '\r' else if c = 't' then some '\t'
  else if c = '\'' ∨ c = quote ∨ c = backslash then some c else none

/-- The code units that a string denotes, from behind the opening quotation mark to the closing one. -/
def unitsBehind : List Char → Option (List Nat)
  | [] => none
  | c :: rest =>
    if c = quote then if rest = [] then some [] else none
    else if c = backslash then
      match rest with
      | [] => none
      | e :: rest =>
        if e = 'u' then
          match rest with
          | h₁ :: h₂ :: h₃ :: h₄ :: rest =>
            if [h₁, h₂, h₃, h₄].all isHexDigit = true then
              (unitsBehind rest).map (ofDigits 16 [h₁, h₂, h₃, h₄] :: ·)
            else none
          | _ => none
        else
          match simpleEscape e with
          | some u => (unitsBehind rest).map (u.toNat :: ·)
          | none => none
    else (unitsBehind rest).map (utf16 c ++ ·)

/-- What a string token denotes. -/
def stringValue (source : List Char) : Option (List Nat) :=
  if source.head? = some quote then unitsBehind source.tail else none

/-- How many escapes of a string are of a code unit. -/
def unicodeEscapes : List Char → Nat
  | [] => 0
  | c :: rest =>
    if c = backslash then
      match rest with
      | [] => 0
      | e :: rest => (if e = 'u' then 1 else 0) + unicodeEscapes rest
    else unicodeEscapes rest

/-! ## The sources of tokens -/

/-- Where `TokenizeLine` is within a token. -/
structure Reading where
  inQuote : Bool
  escaped : Bool
  cur : List Char
  deriving DecidableEq

def Reading.start : Reading := ⟨false, false, []⟩

/-- A character that belongs to the token. -/
def Reading.step (s : Reading) (c : Char) : Reading :=
  if s.inQuote = true then
    if s.escaped = true then ⟨true, false, s.cur ++ [unescape c]⟩
    else if c = backslash then ⟨true, true, s.cur⟩
    else if c = quote then ⟨false, false, s.cur⟩
    else ⟨true, false, s.cur ++ [c]⟩
  else if c = quote then ⟨true, false, s.cur⟩
  else ⟨false, false, s.cur ++ [c]⟩

/-- A token and how it stands in the line. -/
structure Piece where
  text : List Char
  source : List Char
  deriving DecidableEq

def flushPiece (cur source : List Char) (pieces : List Piece) : List Piece :=
  if cur = [] then pieces else ⟨cur, source⟩ :: pieces

/-- The loop of `TokenizeLine`, with the source of the token. -/
def piecesFrom (s : Reading) (source : List Char) : List Char → List Piece
  | [] => flushPiece s.cur source []
  | c :: rest =>
    if s.inQuote = true then
      if s.escaped = false ∧ c = quote then ⟨s.cur, source ++ [c]⟩ :: piecesFrom .start [] rest
      else piecesFrom (s.step c) (source ++ [c]) rest
    else if c = '#' then flushPiece s.cur source []
    else if c = quote then piecesFrom (s.step c) (source ++ [c]) rest
    else if isSpace c = true ∨ c = ',' then flushPiece s.cur source (piecesFrom .start [] rest)
    else if c = '{' ∨ c = '}' then flushPiece s.cur source (⟨[c], [c]⟩ :: piecesFrom .start [] rest)
    else piecesFrom (s.step c) (source ++ [c]) rest

def pieces (line : List Char) : List Piece := piecesFrom .start [] line

theorem map_flushPiece (cur source : List Char) (ps : List Piece) :
    (flushPiece cur source ps).map Piece.text = flush cur (ps.map Piece.text) := by
  unfold flushPiece flush
  split <;> rfl

theorem map_piecesFrom (line : List Char) (s : Reading) (source : List Char) (h : s.inQuote = false → s.escaped = false) :
    (piecesFrom s source line).map Piece.text = tokenizeFrom s.inQuote s.escaped s.cur line := by
  induction line generalizing s source with
  | nil => simp [piecesFrom, tokenizeFrom, map_flushPiece]
  | cons c rest ih =>
    obtain ⟨inQuote, escaped, cur⟩ := s
    have hstart := ih .start [] (fun _ => rfl)
    have hstep (s' : Reading) (h' : s'.inQuote = false → s'.escaped = false) := ih s' (source ++ [c]) h'
    rw [piecesFrom, tokenizeFrom]
    cases inQuote with
    | true =>
      cases escaped with
      | true => simp [Reading.step, hstep]
      | false =>
        by_cases hquote : c = quote
        · subst hquote
          simp only [Bool.false_eq_true, if_false, if_true, true_and, show quote ≠ backslash by decide,
            List.map_cons]
          exact congrArg (cur :: ·) hstart
        · by_cases hback : c = backslash
          · subst hback
            simp only [Bool.false_eq_true, if_false, if_true, hquote, and_false, Reading.step]
            exact hstep ⟨true, true, cur⟩ fun h => Bool.noConfusion h
          · simp [hquote, hback, Reading.step, hstep]
    | false =>
      obtain rfl : escaped = false := h rfl
      by_cases hquote : c = quote
      · subst hquote
        simp only [Bool.false_eq_true, if_false, if_true, show quote ≠ '#' by decide, Reading.step]
        exact hstep ⟨true, false, cur⟩ fun h => Bool.noConfusion h
      · simp only [hquote, Reading.step, if_false, Bool.false_eq_true, apply_ite (List.map Piece.text),
          map_flushPiece, List.map_cons, List.map_nil, hstart]
        simp [hstep, Reading.start]

theorem map_pieces (line : List Char) : (pieces line).map Piece.text = tokenizeLine line :=
  map_piecesFrom line .start [] (fun _ => rfl)

theorem of_mem_flushPiece {cur source : List Char} {ps : List Piece} {p : Piece} (h : p ∈ flushPiece cur source ps) :
    p = ⟨cur, source⟩ ∨ p ∈ ps := by
  unfold flushPiece at h
  split at h
  · exact .inr h
  · exact List.mem_cons.mp h

/-- What a source is read as. -/
def readSource (source : List Char) : Reading := source.foldl Reading.step .start

theorem readSource_nil : Reading.start = readSource [] := rfl

theorem readSource_concat (source : List Char) (c : Char) : readSource (source ++ [c]) = (readSource source).step c := by
  unfold readSource
  rw [List.foldl_append, List.foldl_cons, List.foldl_nil]

theorem text_of_mem_piecesFrom {line : List Char} {s : Reading} {source : List Char} (hs : s = readSource source)
    {p : Piece} (hp : p ∈ piecesFrom s source line) : p.text = (readSource p.source).cur := by
  induction line generalizing s source with
  | nil =>
    rcases of_mem_flushPiece hp with rfl | hp
    · exact congrArg Reading.cur hs
    · cases hp
  | cons c rest ih =>
    have hstep (h : p ∈ piecesFrom (s.step c) (source ++ [c]) rest) := ih (by rw [readSource_concat, hs]) h
    have hflush {ps : List Piece} (h : p ∈ flushPiece s.cur source ps)
        (hps : p ∈ ps → p.text = (readSource p.source).cur) : p.text = (readSource p.source).cur := by
      rcases of_mem_flushPiece h with rfl | h
      · exact congrArg Reading.cur hs
      · exact hps h
    rw [piecesFrom] at hp
    split_ifs at hp with hin hclose hcomment hopen hblank hbrace
    · -- the closing quotation mark ends the token
      rcases List.mem_cons.mp hp with rfl | hp
      · have hquoted : s.step c = ⟨false, false, s.cur⟩ := by
          rw [hclose.2]
          simp [Reading.step, hin, hclose.1, show quote ≠ backslash by decide]
        rw [readSource_concat, ← hs, hquoted]
      · exact ih readSource_nil hp
    · exact hstep hp
    · exact hflush hp nofun
    · exact hstep hp
    · exact hflush hp (ih readSource_nil)
    · refine hflush hp fun h => ?_
      rcases List.mem_cons.mp h with rfl | h
      · rcases hbrace with rfl | rfl <;> decide
      · exact ih readSource_nil h
    · exact hstep hp

theorem text_of_mem_pieces (line : List Char) {p : Piece} (hp : p ∈ pieces line) :
    p.text = (readSource p.source).cur := text_of_mem_piecesFrom readSource_nil hp

theorem readSource_of_notMem {source : List Char} (h : quote ∉ source) : readSource source = ⟨false, false, source⟩ := by
  have hfold (cur : List Char) : source.foldl Reading.step ⟨false, false, cur⟩ = ⟨false, false, cur ++ source⟩ := by
    induction source generalizing cur with
    | nil => simp
    | cons c rest ih =>
      rw [List.mem_cons, not_or] at h
      have hc : c ≠ quote := fun hc => h.1 hc.symm
      have hstep : Reading.step ⟨false, false, cur⟩ c = ⟨false, false, cur ++ [c]⟩ := by simp [Reading.step, hc]
      rw [List.foldl_cons, hstep, ih h.2]
      simp
  exact hfold []

/-! ## Integers -/

theorem isHexDigit_of_isDigit {c : Char} (h : c.isDigit = true) : isHexDigit c = true := by
  unfold isHexDigit
  rw [h]
  rfl

theorem isHexDigit_cases {c : Char} (h : isHexDigit c = true) :
    (48 ≤ c.toNat ∧ c.toNat ≤ 57) ∨ (97 ≤ c.toNat ∧ c.toNat ≤ 102) ∨ (65 ≤ c.toNat ∧ c.toNat ≤ 70) := by
  unfold isHexDigit Char.isDigit at h
  simp only [Bool.or_eq_true, Bool.and_eq_true, decide_eq_true_eq] at h
  rcases h with (h | h) | h
  · exact .inl ⟨UInt32.le_iff_toNat_le.mp h.1, UInt32.le_iff_toNat_le.mp h.2⟩
  · exact .inr (.inl ⟨UInt32.le_iff_toNat_le.mp h.1, UInt32.le_iff_toNat_le.mp h.2⟩)
  · exact .inr (.inr ⟨UInt32.le_iff_toNat_le.mp h.1, UInt32.le_iff_toNat_le.mp h.2⟩)

/-- The characters of an integer. -/
def isIntChar (c : Char) : Bool := isHexDigit c || c = '-' || c = 'x' || c = 'X'

theorem isIntChar_plain {c : Char} (h : isIntChar c = true) : isSpace c = false ∧ c ≠ quote := by
  have hrange : 33 ≤ c.toNat ∧ c.toNat ≠ 34 := by
    unfold isIntChar at h
    simp only [Bool.or_eq_true, decide_eq_true_eq] at h
    rcases h with ((h | rfl) | rfl) | rfl
    · have hcases := isHexDigit_cases h
      omega
    · decide
    · decide
    · decide
  constructor
  · have hblank : c ≠ ' ' := by
      rintro rfl
      exact absurd hrange (by decide)
    unfold isSpace
    rw [decide_eq_false hblank, Bool.false_or, Bool.and_eq_false_iff, decide_eq_false_iff_not, decide_eq_false_iff_not]
    omega
  · rintro rfl
    exact absurd hrange (by decide)

theorem magnitude_cases {s : List Char} {n : Nat} (h : magnitude s = some n) :
    (∃ x ds, s = '0' :: x :: ds ∧ (x = 'x' ∨ x = 'X') ∧ ds ≠ [] ∧ (∀ d ∈ ds, isHexDigit d = true) ∧
        n = ofDigits 16 ds) ∨
      (s ≠ [] ∧ (∀ d ∈ s, d.isDigit = true) ∧ n = ofDigits 10 s) := by
  unfold magnitude at h
  split_ifs at h with hmark hhex hdec
  · left
    obtain ⟨x, ds, rfl, hx⟩ : ∃ x ds, s = '0' :: x :: ds ∧ (x = 'x' ∨ x = 'X') := by
      match s with
      | [] => simp at hmark
      | [c] => simp at hmark
      | c :: x :: ds =>
        simp only [List.take_succ_cons, List.take_zero, List.cons.injEq, and_true] at hmark
        rcases hmark with ⟨rfl, rfl⟩ | ⟨rfl, rfl⟩
        · exact ⟨_, ds, rfl, .inl rfl⟩
        · exact ⟨_, ds, rfl, .inr rfl⟩
    simp only [List.drop_succ_cons, List.drop_zero, List.all_eq_true] at hhex h
    exact ⟨x, ds, rfl, hx, hhex.1, hhex.2, (Option.some.inj h).symm⟩
  · right
    rw [List.all_eq_true] at hdec
    exact ⟨hdec.1, hdec.2, (Option.some.inj h).symm⟩

theorem isIntChar_of_magnitude {s : List Char} {n : Nat} (h : magnitude s = some n) : ∀ c ∈ s, isIntChar c = true := by
  intro c hc
  unfold isIntChar
  rcases magnitude_cases h with ⟨x, ds, rfl, hx, -, hds, -⟩ | ⟨-, hds, -⟩
  · rcases List.mem_cons.mp hc with rfl | hc
    · decide
    · rcases List.mem_cons.mp hc with rfl | hc
      · rcases hx with rfl | rfl <;> decide
      · rw [hds c hc]
        rfl
  · rw [isHexDigit_of_isDigit (hds c hc)]
    rfl

theorem isIntChar_of_intValue {source : List Char} {v : Int} (h : intValue source = some v) :
    ∀ c ∈ source, isIntChar c = true := by
  unfold intValue at h
  split_ifs at h with hminus
  · obtain ⟨n, hn, -⟩ := Option.map_eq_some_iff.mp h
    obtain ⟨t, rfl⟩ := List.head?_eq_some_iff.mp hminus
    exact List.forall_mem_cons.mpr ⟨by decide, isIntChar_of_magnitude hn⟩
  · obtain ⟨n, hn, -⟩ := Option.map_eq_some_iff.mp h
    exact isIntChar_of_magnitude hn

theorem trim_eq {s : List Char} (h : ∀ c ∈ s, isSpace c = false) : trim s = s := by
  have hdrop {t : List Char} (ht : ∀ c ∈ t, isSpace c = false) : t.dropWhile isSpace = t := by
    cases t with
    | nil => rfl
    | cons c t => exact List.dropWhile_cons_of_neg (by simp [ht c List.mem_cons_self])
  unfold trim
  rw [hdrop h, hdrop (fun c hc => h c (List.mem_reverse.mp hc)), List.reverse_reverse]

/-- A minus sign in front of the mark of a hexadecimal number. -/
def negativeHex (source : List Char) : Bool := source.take 3 = ['-', '0', 'x'] || source.take 3 = ['-', '0', 'X']

theorem strtollDecimal_cons {c : Char} {rest : List Char} (h : isSpace c = false) : strtollDecimal (c :: rest) =
    if c = '-' then clampLong (-(ofDigits 10 (rest.takeWhile Char.isDigit) : Int))
    else if c = '+' then clampLong (ofDigits 10 (rest.takeWhile Char.isDigit))
    else clampLong (ofDigits 10 ((c :: rest).takeWhile Char.isDigit)) := by
  unfold strtollDecimal
  rw [List.dropWhile_cons_of_neg (by simp [h])]

/-- The number that is read: behind the minus sign a mark ends it. -/
theorem parseLiteral_of_intValue {source : List Char} {v : Int} (h : intValue source = some v) :
    parseLiteral source = if negativeHex source = true then 0 else clampLong v := by
  have hspace : ∀ c ∈ source, isSpace c = false := fun c hc => (isIntChar_plain (isIntChar_of_intValue h c hc)).1
  unfold parseLiteral
  rw [trim_eq hspace]
  dsimp only
  unfold intValue at h
  split_ifs at h with hminus
  · obtain ⟨n, hn, rfl⟩ := Option.map_eq_some_iff.mp h
    obtain ⟨t, rfl⟩ := List.head?_eq_some_iff.mp hminus
    rw [List.tail_cons] at hn
    have hmark : ¬ (('-' :: t).length > 2 ∧ (('-' :: t).take 2 = ['0', 'x'] ∨ ('-' :: t).take 2 = ['0', 'X'])) := by
      simp
    rw [if_neg hmark, strtollDecimal_cons (by decide), if_pos rfl]
    rcases magnitude_cases hn with ⟨x, ds, rfl, hx, -, -, -⟩ | ⟨hne, hds, rfl⟩
    · have hneg : negativeHex ('-' :: '0' :: x :: ds) = true := by
        rcases hx with rfl | rfl <;> simp [negativeHex]
      have hdigit : x.isDigit = false := by
        rcases hx with rfl | rfl <;> decide
      have htake : ('0' :: x :: ds).takeWhile Char.isDigit = ['0'] := by
        rw [List.takeWhile_cons_of_pos (by decide), List.takeWhile_cons_of_neg (by simp [hdigit])]
      rw [if_pos hneg, htake]
      decide
    · have hneg : negativeHex ('-' :: t) = false := by
        match t with
        | [] => simp [negativeHex]
        | [c] => simp [negativeHex]
        | c :: x :: ds =>
          have hx := hds x (by simp)
          have hne : x ≠ 'x' ∧ x ≠ 'X' := by
            constructor
            · rintro rfl
              revert hx
              decide
            · rintro rfl
              revert hx
              decide
          simp [negativeHex, hne.1, hne.2]
      rw [hneg, List.takeWhile_eq_self_iff.mpr hds]
      rfl
  · obtain ⟨n, hn, rfl⟩ := Option.map_eq_some_iff.mp h
    have hneg : negativeHex source = false := by
      cases source with
      | nil => rfl
      | cons c t =>
        have hc : c ≠ '-' := fun hc => hminus (by rw [hc]; rfl)
        simp [negativeHex, hc]
    rw [hneg, if_neg Bool.false_ne_true]
    rcases magnitude_cases hn with ⟨x, ds, rfl, hx, hne, hds, rfl⟩ | ⟨hne, hds, rfl⟩
    · have hlen : ('0' :: x :: ds).length > 2 := by
        have hpos := List.length_pos_iff.mpr hne
        simp only [List.length_cons]
        omega
      rw [if_pos ⟨hlen, by rcases hx with rfl | rfl <;> simp⟩]
      simp only [List.drop_succ_cons, List.drop_zero, List.takeWhile_eq_self_iff.mpr hds]
    · obtain ⟨d, rest, rfl⟩ := List.exists_cons_of_ne_nil hne
      obtain ⟨hd, hdminus, hdplus⟩ := isSpace_of_isDigit (hds d List.mem_cons_self)
      have hmark : ¬ ((d :: rest).take 2 = ['0', 'x'] ∨ (d :: rest).take 2 = ['0', 'X']) := by
        cases rest with
        | nil => simp
        | cons x ds =>
          have hx := hds x (by simp)
          rintro (h | h)
          · obtain rfl : x = 'x' := by simpa using (List.cons.inj h).2
            revert hx
            decide
          · obtain rfl : x = 'X' := by simpa using (List.cons.inj h).2
            revert hx
            decide
      rw [if_neg (fun h => hmark h.2), strtollDecimal_cons hd, if_neg hdminus, if_neg hdplus,
        List.takeWhile_eq_self_iff.mpr hds]

/-- The integer is one of 32 bits. -/
def Fits (v : Int) : Prop := -2 ^ 31 ≤ v ∧ v < 2 ^ 31

theorem ofInt_inj_of_fits {v v' : Int} (h : Fits v) (h' : Fits v') (heq : Int32.ofInt v = Int32.ofInt v') : v = v' := by
  have hv := Int32.toInt_ofInt_of_le h.1 h.2
  have hv' := Int32.toInt_ofInt_of_le h'.1 h'.2
  rw [← hv, ← hv', heq]

theorem ofInt_parseLiteral_iff {source : List Char} {v : Int} (h : intValue source = some v) (hfits : Fits v) :
    Int32.ofInt (parseLiteral source) = Int32.ofInt v ↔ (negativeHex source = true → v = 0) := by
  rw [parseLiteral_of_intValue h]
  split_ifs with hneg
  · constructor
    · intro heq _
      exact (ofInt_inj_of_fits ⟨by decide, by decide⟩ hfits heq).symm
    · intro hzero
      rw [hzero hneg]
  · have hclamp : clampLong v = v := by
      obtain ⟨hlow, hhigh⟩ := hfits
      unfold clampLong
      omega
    rw [hclamp]
    exact ⟨fun _ h => absurd h hneg, fun _ => rfl⟩

/-! ## Strings -/

theorem unescape_of_simpleEscape {e u : Char} (h : simpleEscape e = some u) :
    unescape e = u ∧ utf16 u = [u.toNat] := by
  unfold simpleEscape at h
  unfold unescape
  split_ifs at h ⊢ with hn hr ht hself
  · obtain rfl := Option.some.inj h
    exact ⟨rfl, by decide⟩
  · obtain rfl := Option.some.inj h
    exact ⟨rfl, by decide⟩
  · obtain rfl := Option.some.inj h
    exact ⟨rfl, by decide⟩
  · obtain rfl := Option.some.inj h
    refine ⟨rfl, ?_⟩
    rcases hself with rfl | rfl | rfl <;> decide

theorem utf16_of_isHexDigit {c : Char} (h : isHexDigit c = true) : utf16 c = [c.toNat] := by
  have hcases := isHexDigit_cases h
  exact if_pos (by omega)

theorem step_of_isHexDigit {c : Char} (h : isHexDigit c = true) (cur : List Char) :
    Reading.step ⟨true, false, cur⟩ c = ⟨true, false, cur ++ [c]⟩ := by
  have hcases := isHexDigit_cases h
  have hback : c ≠ backslash := by
    rintro rfl
    revert h
    decide
  have hquote : c ≠ quote := by
    rintro rfl
    revert h
    decide
  simp [Reading.step, hback, hquote]

theorem unitsBehind_unicode (h₁ h₂ h₃ h₄ : Char) (rest : List Char) :
    unitsBehind (backslash :: 'u' :: h₁ :: h₂ :: h₃ :: h₄ :: rest) =
      if [h₁, h₂, h₃, h₄].all isHexDigit = true then (unitsBehind rest).map (ofDigits 16 [h₁, h₂, h₃, h₄] :: ·)
      else none := by
  rw [unitsBehind.eq_def]
  rfl

theorem unitsBehind_escape {e : Char} (h : e ≠ 'u') (rest : List Char) : unitsBehind (backslash :: e :: rest) =
    (simpleEscape e).bind fun u => (unitsBehind rest).map (u.toNat :: ·) := by
  rw [unitsBehind.eq_def]
  simp only [show backslash ≠ quote by decide, if_false, if_true, h]
  cases simpleEscape e <;> rfl

theorem unitsBehind_plain {c : Char} (hquote : c ≠ quote) (hback : c ≠ backslash) (rest : List Char) :
    unitsBehind (c :: rest) = (unitsBehind rest).map (utf16 c ++ ·) := by
  rw [unitsBehind.eq_def]
  simp only [hquote, hback, if_false]

theorem unicodeEscapes_escape (e : Char) (rest : List Char) :
    unicodeEscapes (backslash :: e :: rest) = (if e = 'u' then 1 else 0) + unicodeEscapes rest := by
  rw [unicodeEscapes, if_pos rfl]

theorem unicodeEscapes_plain {c : Char} (h : c ≠ backslash) (rest : List Char) :
    unicodeEscapes (c :: rest) = unicodeEscapes rest := by
  rw [unicodeEscapes.eq_def]
  exact if_neg h

/-- A string is read as the code units that it denotes, but for an escape of a code unit, which is read as five. -/
theorem foldl_of_unitsBehind {body : List Char} {units : List Nat} (h : unitsBehind body = some units)
    (cur : List Char) : ∃ added, body.foldl Reading.step ⟨true, false, cur⟩ = ⟨false, false, cur ++ added⟩ ∧
      (added.flatMap utf16).length = units.length + 4 * unicodeEscapes body ∧
      (unicodeEscapes body = 0 → added.flatMap utf16 = units) := by
  have hstep (c : Char) : Reading.step ⟨true, true, cur⟩ c = ⟨true, false, cur ++ [unescape c]⟩ := by
    simp [Reading.step]
  have hback : Reading.step ⟨true, false, cur⟩ backslash = ⟨true, true, cur⟩ := by simp [Reading.step]
  induction body using unitsBehind.induct generalizing units cur with
  | case1 => cases h
  | case2 =>
    -- the closing quotation mark
    have hunits : units = [] := (Option.some.inj h).symm
    refine ⟨[], ?_, ?_, fun _ => hunits.symm⟩
    · simp [Reading.step, show quote ≠ backslash by decide]
    · rw [hunits, unicodeEscapes_plain (by decide)]
      rfl
  | case3 rest hrest =>
    rw [unitsBehind.eq_def] at h
    simp [hrest] at h
  | case4 => cases h
  | case5 h₁ h₂ h₃ h₄ rest hhex hne ih =>
    -- the code unit: its letter and its digits are taken as they are
    rw [unitsBehind_unicode, if_pos hhex] at h
    obtain ⟨behind, hbehind, rfl⟩ := Option.map_eq_some_iff.mp h
    simp only [List.all_cons, List.all_nil, Bool.and_true, Bool.and_eq_true] at hhex
    obtain ⟨hh₁, hh₂, hh₃, hh₄⟩ := hhex
    obtain ⟨added, hfold, hlen, -⟩ := ih hbehind (cur ++ ['u'] ++ [h₁] ++ [h₂] ++ [h₃] ++ [h₄])
      (fun c => by simp [Reading.step]) (by simp [Reading.step])
    refine ⟨'u' :: h₁ :: h₂ :: h₃ :: h₄ :: added, ?_, ?_, ?_⟩
    · simp only [List.foldl_cons, hback, hstep, show unescape 'u' = 'u' by decide, step_of_isHexDigit hh₁,
        step_of_isHexDigit hh₂, step_of_isHexDigit hh₃, step_of_isHexDigit hh₄, hfold]
      simp
    · have hplain (c : Char) (hc : isHexDigit c = true) (r : List Char) :
          unicodeEscapes (c :: r) = unicodeEscapes r := by
        refine unicodeEscapes_plain ?_ r
        rintro rfl
        revert hc
        decide
      rw [unicodeEscapes_escape, hplain h₁ hh₁, hplain h₂ hh₂, hplain h₃ hh₃, hplain h₄ hh₄]
      simp only [List.flatMap_cons, List.length_append, utf16_of_isHexDigit hh₁, utf16_of_isHexDigit hh₂,
        utf16_of_isHexDigit hh₃, utf16_of_isHexDigit hh₄, show utf16 'u' = [117] by decide, List.length_cons,
        List.length_nil, hlen, if_true]
      omega
    · rw [unicodeEscapes_escape, if_pos rfl]
      intro hzero
      omega
  | case6 h₁ h₂ h₃ h₄ rest hhex hne =>
    rw [unitsBehind_unicode, if_neg hhex] at h
    cases h
  | case7 rest hshort hne =>
    rw [unitsBehind.eq_def] at h
    simp only [hne, if_false, if_true] at h
    cases h
  | case8 e rest hu u hu' hne ih =>
    rw [unitsBehind_escape hu, hu', Option.bind_some] at h
    obtain ⟨behind, hbehind, rfl⟩ := Option.map_eq_some_iff.mp h
    obtain ⟨hunescape, hutf⟩ := unescape_of_simpleEscape hu'
    obtain ⟨added, hfold, hlen, hunits⟩ := ih hbehind (cur ++ [u]) (fun c => by simp [Reading.step])
      (by simp [Reading.step])
    refine ⟨u :: added, ?_, ?_, ?_⟩
    · rw [List.foldl_cons, hback, List.foldl_cons, hstep, hunescape, hfold]
      simp
    · rw [unicodeEscapes_escape, if_neg hu, Nat.zero_add, List.flatMap_cons, hutf, List.length_append, hlen,
        List.length_cons, List.length_cons, List.length_nil]
      omega
    · rw [unicodeEscapes_escape, if_neg hu, Nat.zero_add]
      intro hzero
      rw [List.flatMap_cons, hutf, hunits hzero]
      rfl
  | case9 e rest hu hnone hne =>
    rw [unitsBehind_escape hu, hnone] at h
    cases h
  | case10 c rest hquote hne ih =>
    rw [unitsBehind_plain hquote hne] at h
    obtain ⟨behind, hbehind, rfl⟩ := Option.map_eq_some_iff.mp h
    obtain ⟨added, hfold, hlen, hunits⟩ := ih hbehind (cur ++ [c]) (fun c => by simp [Reading.step])
      (by simp [Reading.step])
    have hplain : Reading.step ⟨true, false, cur⟩ c = ⟨true, false, cur ++ [c]⟩ := by
      simp [Reading.step, hquote, hne]
    refine ⟨c :: added, ?_, ?_, ?_⟩
    · rw [List.foldl_cons, hplain, hfold]
      simp
    · rw [unicodeEscapes_plain hne, List.flatMap_cons, List.length_append, hlen, List.length_append]
      omega
    · rw [unicodeEscapes_plain hne]
      intro hzero
      rw [List.flatMap_cons, hunits hzero]

/-- A string token is what it denotes exactly when no code unit is escaped. -/
theorem text_of_stringValue {source : List Char} {units : List Nat} (h : stringValue source = some units) :
    (readSource source).cur.flatMap utf16 = units ↔ unicodeEscapes source = 0 := by
  unfold stringValue at h
  split_ifs at h with hopen
  obtain ⟨body, rfl⟩ := List.head?_eq_some_iff.mp hopen
  rw [List.tail_cons] at h
  obtain ⟨added, hfold, hlen, hunits⟩ := foldl_of_unitsBehind h []
  have hread : (readSource (quote :: body)).cur = added := by
    have hstart : Reading.start.step quote = ⟨true, false, []⟩ := rfl
    rw [readSource, List.foldl_cons, hstart, hfold]
    rfl
  rw [hread, unicodeEscapes_plain (by decide)]
  constructor
  · rintro rfl
    omega
  · exact hunits

/-! ## Lines -/

def isConstOp (op : List Char) : Bool := op = "const/4".toList || op = "const/16".toList || op = "const".toList

def constString : List Char := "const-string".toList

/-- The line is one of the four that have a literal. -/
def isLiteralLine (line : List Char) : Bool :=
  match tokenizeLine line with
  | [] => false
  | op :: _ => isConstOp op || op = constString

/-- The instruction loads what the source denotes. -/
def Loads (op source : List Char) (i : SymbolicInstruction) : Prop :=
  if op = constString then
    ∃ units s r, stringValue source = some units ∧ s.toList.flatMap utf16 = units ∧
      i = .bytecode 0x1a [.vreg r, .string s]
  else ∃ v opcode r, intValue source = some v ∧ Fits v ∧ i = constInsn opcode r (Int32.ofInt v)

/-- If the line is accepted, the instruction it puts loads the literal of the line. -/
def LiteralFaithful (w : Writer) (line : List Char) : Prop :=
  ∀ w', emitLine w line = (w', none) → ∃ op reg literal rest i, pieces line = op :: reg :: literal :: rest ∧
    w'.instructions = w.instructions ++ [i] ∧ Loads op.text literal.source i

/-- The line is one that is refused whatever its literal is. -/
def LiteralRefused (w : Writer) (line : List Char) : Prop :=
  (tokenizeLine line).length < 3 ∨ ∃ reg ∈ (tokenizeLine line).tail.head?, parseRegister reg w.registers w.ins < 0

/-- A literal that is read as it is meant: a string with no code unit escaped, or a number of 32 bits that has not
both a minus sign and the mark, unless it is zero. -/
def WellRead (op source : List Char) : Prop :=
  if op = constString then stringValue source ≠ none ∧ unicodeEscapes source = 0
  else ∃ v, intValue source = some v ∧ Fits v ∧ (negativeHex source = true → v = 0)

/-- The third token is well read. -/
def WellReadLine (line : List Char) : Prop :=
  ∃ op reg literal rest, pieces line = op :: reg :: literal :: rest ∧ WellRead op.text literal.source

theorem rowOf_of_isConstOp {op : List Char} (h : isConstOp op = true) : ∃ put, rowOf op = some (constRow put) := by
  unfold isConstOp at h
  simp only [Bool.or_eq_true, decide_eq_true_eq] at h
  rcases h with (rfl | rfl) | rfl
  · exact ⟨putConst4Op, rfl⟩
  · exact ⟨putConst16Op, rfl⟩
  · exact ⟨putConstOp, rfl⟩

theorem constString_not_const : isConstOp constString = false := by decide

/-- The row of a line with a literal reads a register and then the literal. -/
theorem readOperands_literal {w : Writer} {op reg literal : List Char} {rest : List (List Char)} {form : Form}
    {operand : SymbolicOperand} (hform : readOperand w op literal form = (w, .ok operand)) :
    readOperands w op [checkedReg, form] (reg :: literal :: rest) =
      if parseRegister reg w.registers w.ins < 0 then (w, .error "")
      else (w, .ok [.vreg (UInt32.ofInt (parseRegister reg w.registers w.ins)), operand]) := by
  unfold readOperands checkedReg
  by_cases hneg : parseRegister reg w.registers w.ins < 0
  · simp [readOperand, hneg]
  · simp [readOperand.eq_1, hneg, readOperands, hform]

/-- A line of a row like that: it is refused, or it puts the instruction of the row. -/
theorem emitLine_row {w : Writer} {line op : List Char} {args : List (List Char)} {row : Row} {form : Form}
    (htokens : tokenizeLine line = op :: args) (hdir : isDirective op = false) (hlabel : op.head? ≠ some ':')
    (hrow : rowOf op = some row) (hforms : row.forms = [checkedReg, form])
    (hform : ∀ literal, ∃ operand, readOperand w op literal form = (w, .ok operand)) :
    (LiteralRefused w line ∧ ∃ detail, emitLine w line = (w, some detail)) ∨
      ∃ reg literal rest operand, args = reg :: literal :: rest ∧ ¬ LiteralRefused w line ∧
        readOperand w op literal form = (w, .ok operand) ∧
        emitLine w line =
          (w.append (row.instruction [.vreg (UInt32.ofInt (parseRegister reg w.registers w.ins)), operand]), none) := by
  have hline : emitLine w line = emitInsn w op args := by
    unfold emitLine
    simp only [htokens, hdir, Bool.false_eq_true, if_false, if_neg hlabel]
  unfold LiteralRefused
  rw [hline, htokens]
  unfold emitInsn
  simp only [hrow, hforms]
  match args with
  | [] => exact .inl ⟨.inl (by simp), _, if_pos (by simp)⟩
  | [reg] => exact .inl ⟨.inl (by simp), _, if_pos (by simp)⟩
  | reg :: literal :: rest =>
    obtain ⟨operand, hoperand⟩ := hform literal
    have hlen : ¬ (reg :: literal :: rest).length < [checkedReg, form].length := by simp
    rw [if_neg hlen, readOperands_literal hoperand]
    by_cases hneg : parseRegister reg w.registers w.ins < 0
    · exact .inl ⟨.inr ⟨reg, rfl, hneg⟩, "", by rw [if_pos hneg]⟩
    · refine .inr ⟨reg, literal, rest, operand, rfl, ?_, hoperand, by rw [if_neg hneg]⟩
      rintro (h | ⟨r, hr, h⟩)
      · simp only [List.length_cons] at h
        omega
      · obtain rfl : reg = r := Option.some.inj hr
        exact hneg h

theorem pieces_of_tokens {line op reg literal : List Char} {rest : List (List Char)}
    (h : tokenizeLine line = op :: reg :: literal :: rest) : ∃ opPiece regPiece piece pieceRest,
      pieces line = opPiece :: regPiece :: piece :: pieceRest ∧ opPiece.text = op ∧ piece.text = literal ∧
        literal = (readSource piece.source).cur := by
  rw [← map_pieces] at h
  obtain ⟨opPiece, t, hpieces, hop, h⟩ := List.map_eq_cons_iff.mp h
  obtain ⟨regPiece, t, rfl, -, h⟩ := List.map_eq_cons_iff.mp h
  obtain ⟨piece, t, rfl, hpiece, -⟩ := List.map_eq_cons_iff.mp h
  refine ⟨opPiece, regPiece, piece, t, hpieces, hop, hpiece, ?_⟩
  rw [← hpiece]
  exact text_of_mem_pieces line (by rw [hpieces]; simp)

/-- The instruction of a line with a literal loads it exactly when it is well read. -/
theorem loads_const_iff {op literal source : List Char} (hop : op ≠ constString)
    (hread : literal = (readSource source).cur) (opcode : Opcode) (r : UInt32) :
    Loads op source (constInsn opcode r (Int32.ofInt (parseLiteral literal))) ↔ WellRead op source := by
  unfold Loads WellRead
  rw [if_neg hop, if_neg hop]
  have hself {v : Int} (hv : intValue source = some v) : literal = source := by
    have hquote : quote ∉ source := fun hmem => (isIntChar_plain (isIntChar_of_intValue hv quote hmem)).2 rfl
    rw [hread, readSource_of_notMem hquote]
  constructor
  · rintro ⟨v, opcode', r', hv, hfits, heq⟩
    simp only [constInsn, SymbolicInstruction.bytecode.injEq, List.cons.injEq, SymbolicOperand.const32.injEq,
      and_true] at heq
    rw [hself hv] at heq
    exact ⟨v, hv, hfits, (ofInt_parseLiteral_iff hv hfits).mp heq.2.2⟩
  · rintro ⟨v, hv, hfits, hhex⟩
    refine ⟨v, opcode, r, hv, hfits, ?_⟩
    rw [hself hv, (ofInt_parseLiteral_iff hv hfits).mpr hhex]

theorem loads_string_iff {literal source : List Char} (hread : literal = (readSource source).cur) (r : UInt32) :
    Loads constString source (.bytecode 0x1a [.vreg r, .string (String.ofList literal)]) ↔
      WellRead constString source := by
  unfold Loads WellRead
  rw [if_pos rfl, if_pos rfl, hread]
  constructor
  · rintro ⟨units, s, r', hunits, hs, heq⟩
    simp only [SymbolicInstruction.bytecode.injEq, List.cons.injEq, SymbolicOperand.string.injEq, and_true,
      true_and] at heq
    rw [← heq.2, String.toList_ofList] at hs
    exact ⟨by rw [hunits]; simp, (text_of_stringValue hunits).mp hs⟩
  · rintro ⟨hunits, hzero⟩
    obtain ⟨units, hunits⟩ := Option.ne_none_iff_exists'.mp hunits
    refine ⟨units, _, r, hunits, ?_, rfl⟩
    rw [String.toList_ofList]
    exact (text_of_stringValue hunits).mpr hzero

/-- A line with a literal is treated as it says exactly when it is refused for another reason or the literal is well
read. -/
theorem literalFaithful_iff (w : Writer) {line : List Char} (h : isLiteralLine line = true) :
    LiteralFaithful w line ↔ LiteralRefused w line ∨ WellReadLine line := by
  unfold isLiteralLine at h
  cases htokens : tokenizeLine line with
  | nil => exact absurd h (by simp [htokens])
  | cons op args =>
    simp only [htokens, Bool.or_eq_true, decide_eq_true_eq] at h
    -- what either row makes of the line, and when that loads the literal
    have hmain : (LiteralRefused w line ∧ ∃ detail, emitLine w line = (w, some detail)) ∨
        ∃ reg literal rest i, args = reg :: literal :: rest ∧ ¬ LiteralRefused w line ∧
          emitLine w line = (w.append i, none) ∧
          ∀ source, literal = (readSource source).cur → (Loads op source i ↔ WellRead op source) := by
      rcases h with hop | rfl
      · obtain ⟨put, hrow⟩ := rowOf_of_isConstOp hop
        have hne : op ≠ constString := by
          rintro rfl
          exact absurd hop (by simp [constString_not_const])
        have hplain : isDirective op = false ∧ op.head? ≠ some ':' := by
          unfold isConstOp at hop
          simp only [Bool.or_eq_true, decide_eq_true_eq] at hop
          rcases hop with (rfl | rfl) | rfl <;> decide
        rcases emitLine_row htokens hplain.1 hplain.2 hrow rfl (fun _ => ⟨_, rfl⟩) with
          href | ⟨reg, literal, rest, operand, hargs, hok, hoperand, hres⟩
        · exact .inl href
        · obtain rfl : .const32 (Int32.ofInt (parseLiteral literal)) = operand := by simpa [readOperand] using hoperand
          exact .inr ⟨reg, literal, rest, _, hargs, hok, hres, fun source hread => loads_const_iff hne hread _ _⟩
      · rcases emitLine_row htokens (by decide) (by decide) rfl rfl (fun _ => ⟨_, rfl⟩) with
          href | ⟨reg, literal, rest, operand, hargs, hok, hoperand, hres⟩
        · exact .inl href
        · obtain rfl : .string (String.ofList literal) = operand := by simpa [readOperand] using hoperand
          exact .inr ⟨reg, literal, rest, _, hargs, hok, hres, fun source hread => loads_string_iff hread _⟩
    unfold LiteralFaithful
    rcases hmain with ⟨href, d, hres⟩ | ⟨reg, literal, rest, i, rfl, hok, hres, hiff⟩
    · rw [hres]
      exact ⟨fun _ => .inl href, fun _ w' heq => absurd heq (by simp)⟩
    · obtain ⟨opPiece, regPiece, piece, pieceRest, hpieces, rfl, -, hread⟩ := pieces_of_tokens htokens
      have hinsns : (w.append i).instructions = w.instructions ++ [i] := rfl
      rw [hres]
      constructor
      · intro hfaith
        obtain ⟨op', reg', literal', rest', i', hpieces', hinsns', hloads⟩ := hfaith _ rfl
        rw [hpieces] at hpieces'
        obtain ⟨rfl, rfl, rfl, rfl⟩ : opPiece = op' ∧ regPiece = reg' ∧ piece = literal' ∧ pieceRest = rest' := by
          simpa using hpieces'
        obtain rfl : i = i' := by simpa [hinsns] using hinsns'
        exact .inr ⟨opPiece, regPiece, piece, pieceRest, hpieces, (hiff piece.source hread).mp hloads⟩
      · rintro (href | ⟨op', reg', literal', rest', hpieces', hwell⟩) w' heq
        · exact absurd href hok
        · obtain rfl := (Prod.mk.inj heq).1
          rw [hpieces] at hpieces'
          obtain ⟨rfl, rfl, rfl, rfl⟩ : opPiece = op' ∧ regPiece = reg' ∧ piece = literal' ∧ pieceRest = rest' := by
            simpa using hpieces'
          exact ⟨opPiece, regPiece, piece, pieceRest, i, hpieces, hinsns, (hiff piece.source hread).mpr hwell⟩

/-! ## Texts -/

/-- Every line with a literal that a call reads is treated as it says, in the state that the lines in front of it
make. -/
def LiteralsFaithful (w : Writer) (smali_code : List Char) : Prop :=
  ∀ pre line post w', getLines smali_code = pre ++ line :: post → emitLines w 0 pre = (w', none) →
    isLiteralLine line = true → LiteralFaithful w' line

theorem emitSmali_literals_iff (w : Writer) (smali_code : List Char) :
    LiteralsFaithful w smali_code ↔
      ∀ pre line post w', getLines smali_code = pre ++ line :: post → emitLines w 0 pre = (w', none) →
        isLiteralLine line = true → LiteralRefused w' line ∨ WellReadLine line := by
  constructor
  · intro h pre line post w' hlines hpre hliteral
    exact (literalFaithful_iff w' hliteral).mp (h pre line post w' hlines hpre hliteral)
  · intro h pre line post w' hlines hpre hliteral
    exact (literalFaithful_iff w' hliteral).mpr (h pre line post w' hlines hpre hliteral)

/-- A negative number with the mark. -/
def negativeText : List Char := "const/16 v0, -0x10".toList

/-- The register gets 0. -/
theorem not_literalsFaithful_negative :
    ¬ ∀ (w : Writer) (smali_code : List Char), LiteralsFaithful w smali_code := by
  intro h
  have hlines : getLines negativeText = [] ++ negativeText :: [] := by decide
  have hfaith := h fresh negativeText [] negativeText [] fresh hlines rfl (by decide)
  have hpieces : pieces negativeText = [⟨"const/16".toList, "const/16".toList⟩, ⟨"v0".toList, "v0".toList⟩,
      ⟨"-0x10".toList, "-0x10".toList⟩] := by
    decide
  rcases (literalFaithful_iff fresh (by decide)).mp hfaith with href | ⟨op, reg, literal, rest, heq, hwell⟩
  · rcases href with hlen | ⟨reg, hreg, hneg⟩
    · exact absurd hlen (by decide)
    · have hall : ∀ reg ∈ (tokenizeLine negativeText).tail.head?, ¬ parseRegister reg fresh.registers fresh.ins < 0 := by
        decide
      exact hall reg hreg hneg
  · rw [hpieces] at heq
    simp only [List.cons.injEq] at heq
    obtain ⟨rfl, -, rfl, -⟩ := heq
    unfold WellRead at hwell
    rw [if_neg (by decide)] at hwell
    obtain ⟨v, hv, -, hzero⟩ := hwell
    have hvalue : intValue "-0x10".toList = some (-16) := by decide
    rw [hvalue] at hv
    obtain rfl := Option.some.inj hv
    exact absurd (hzero (by decide)) (by decide)

end ArtPi.Dex.Smali
