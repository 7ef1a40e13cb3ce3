import ArtPi.Lib.Lines
import ArtPi.Net.Send

set_option autoImplicit false

/-! # Java source texts

The parse of a text, as far as it takes to say where a method is declared: words, symbols, literals and comments,
brackets with what is between them, and the declarations of methods, which may stand anywhere. -/

namespace ArtPi.Agent.JavaText

open Lib Net

abbrev Text := List UInt8

abbrev lf : UInt8 := 0x0A
abbrev cr : UInt8 := 0x0D
abbrev dquote : UInt8 := 0x22
abbrev squote : UInt8 := 0x27
abbrev star : UInt8 := 0x2A
abbrev slash : UInt8 := 0x2F
abbrev backslash : UInt8 := 0x5C

/-! ## Lexemes -/

/-- Letters, digits, `_` and `$`, and whatever is not ASCII. -/
def isWordByte (c : UInt8) : Bool :=
  (0x30 ≤ c && c ≤ 0x39) || (0x41 ≤ c && c ≤ 0x5A) || (0x61 ≤ c && c ≤ 0x7A) || c = 0x5F || c = 0x24 || 0x80 ≤ c

def isWhite (c : UInt8) : Bool := c = 0x20 || c = 0x09 || c = lf || c = 0x0C || c = cr

/-- The operators and separators that are no brackets; a longer operator is one behind the other. -/
def symbols : List UInt8 := ascii ";,.=<>!~?:&|+-*/^%@"

inductive Bracket where
  | round
  | square
  | curly
  deriving DecidableEq

def Bracket.opening : Bracket → UInt8
  | .round => 0x28
  | .square => 0x5B
  | .curly => 0x7B

def Bracket.closing : Bracket → UInt8
  | .round => 0x29
  | .square => 0x5D
  | .curly => 0x7D

inductive Token where
  | white (c : UInt8)
  | word (s : Text)
  | symbol (c : UInt8)
  | stringLit (body : Text)
  | charLit (body : Text)
  | textBlock (body : Text)
  | lineComment (body : Text)
  | blockComment (body : Text)
  deriving DecidableEq

def threeQuotes : Text := [dquote, dquote, dquote]

def Token.source : Token → Text
  | .white c => [c]
  | .word s => s
  | .symbol c => [c]
  | .stringLit body => dquote :: body ++ [dquote]
  | .charLit body => squote :: body ++ [squote]
  | .textBlock body => threeQuotes ++ body ++ threeQuotes
  | .lineComment body => slash :: slash :: body
  | .blockComment body => slash :: star :: body ++ [star, slash]

/-- What is between the quotes of a literal: no end of a line, and no quote but behind a backslash. -/
def isLiteralBody (quote : UInt8) : Text → Bool
  | [] => true
  | c :: rest =>
    if c = backslash then
      match rest with
      | [] => false
      | d :: rest => d ≠ lf && d ≠ cr && isLiteralBody quote rest
    else c ≠ quote && c ≠ lf && c ≠ cr && isLiteralBody quote rest

/-- What is between the quotes of a text block: three quotes stand together in it only behind a backslash. -/
def isBlockBody : Text → Bool
  | [] => true
  | c :: rest =>
    if c = backslash then
      match rest with
      | [] => false
      | _ :: rest => isBlockBody rest
    else !threeQuotes.isPrefixOf (c :: rest ++ [dquote, dquote]) && isBlockBody rest

def Token.isValid : Token → Bool
  | .white c => isWhite c
  | .word s => s ≠ [] && s.all isWordByte
  | .symbol c => symbols.contains c
  | .stringLit body => isLiteralBody dquote body
  | .charLit body => isLiteralBody squote body
  | .textBlock body => isBlockBody body
  | .lineComment body => !body.contains lf && !body.contains cr
  | .blockComment body => Lines.find [star, slash] body = none

inductive Lexeme where
  | token (t : Token)
  | opening (b : Bracket)
  | closing (b : Bracket)
  deriving DecidableEq

def Lexeme.source : Lexeme → Text
  | .token t => t.source
  | .opening b => [b.opening]
  | .closing b => [b.closing]

/-- Two lexemes that stand together are read as the two. -/
def apart (l m : Lexeme) : Bool :=
  match l, m with
  | .token (.word _), .token (.word _) => false
  | .token (.symbol c), m => c ≠ slash || !(m.source.head? = some slash || m.source.head? = some star)
  | .token (.stringLit _), .token (.stringLit _) => false
  | .token (.stringLit _), .token (.textBlock _) => false
  | .token (.lineComment _), m => m = .token (.white lf) || m = .token (.white cr)
  | _, _ => true

/-- How a character counts when lines are told apart. -/
inductive Mark where
  | blank
  | comment
  | code
  deriving DecidableEq

def Lexeme.mark : Lexeme → Mark
  | .token (.white _) => .blank
  | .token (.lineComment _) => .comment
  | .token (.blockComment _) => .comment
  | _ => .code

def source (ls : List Lexeme) : Text := ls.flatMap Lexeme.source

/-- The characters with their marks. -/
def marks (ls : List Lexeme) : List (UInt8 × Mark) := ls.flatMap fun l => l.source.map fun c => (c, l.mark)

/-! ## The parse -/

/-- A stretch of text. A declaration ends in its body, or in a semicolon. -/
inductive Items where
  | nil
  | token (t : Token) (rest : Items)
  | group (b : Bracket) (inner rest : Items)
  | method (head : Items) (name : Text) (gap : List Token) (params tail body rest : Items)
  | signature (head : Items) (name : Text) (gap : List Token) (params tail rest : Items)

def enclosed (b : Bracket) (inner : List Lexeme) : List Lexeme := .opening b :: inner ++ [.closing b]

def semicolon : Token := .symbol 0x3B

/-- What stands between the name and the end of a declaration. -/
def behindName (gap : List Token) (params tail ending : List Lexeme) : List Lexeme :=
  gap.map .token ++ enclosed .round params ++ tail ++ ending

def Items.lexemes : Items → List Lexeme
  | .nil => []
  | .token t rest => .token t :: rest.lexemes
  | .group b inner rest => enclosed b inner.lexemes ++ rest.lexemes
  | .method head name gap params tail body rest =>
    head.lexemes ++ .token (.word name) ::
      behindName gap params.lexemes tail.lexemes (enclosed .curly body.lexemes) ++ rest.lexemes
  | .signature head name gap params tail rest =>
    head.lexemes ++ .token (.word name) :: behindName gap params.lexemes tail.lexemes [.token semicolon] ++ rest.lexemes

/-- Without braces, semicolons and declarations of its own. -/
def Items.isPlain : Items → Bool
  | .nil => true
  | .token t rest => t ≠ semicolon && rest.isPlain
  | .group b _ rest => b ≠ .curly && rest.isPlain
  | .method .. => false
  | .signature .. => false

/-- A head begins with the first annotation, modifier or type; only blanks and comments are between the name and the
parameters, and the body or the semicolon is the first there is. -/
def isDeclaration (head : Items) (gap : List Token) (tail : Items) : Bool :=
  head.lexemes.head?.any (·.mark = .code) && gap.all (fun t => (Lexeme.token t).mark ≠ .code) && tail.isPlain

def Items.isProper : Items → Bool
  | .nil => true
  | .token _ rest => rest.isProper
  | .group _ inner rest => inner.isProper && rest.isProper
  | .method head _ gap params tail body rest =>
    isDeclaration head gap tail && head.isProper && params.isProper && tail.isProper && body.isProper && rest.isProper
  | .signature head _ gap params tail rest =>
    isDeclaration head gap tail && head.isProper && params.isProper && tail.isProper && rest.isProper

def Lexeme.isValid : Lexeme → Bool
  | .token t => t.isValid
  | _ => true

/-- A declaration in a text: what is in front of it, its head with the annotations, the modifiers and the type, its name,
what is behind the name, and the rest of the text. -/
structure Place where
  front : List Lexeme
  head : List Lexeme
  name : Text
  behind : List Lexeme
  back : List Lexeme
  deriving DecidableEq

def Place.lexemes (p : Place) : List Lexeme := p.head ++ .token (.word p.name) :: p.behind

/-- The declarations of the items between `front` and `back`. -/
def Items.places (front : List Lexeme) : Items → List Lexeme → List Place
  | .nil, _ => []
  | .token t rest, back => rest.places (front ++ [.token t]) back
  | .group b inner rest, back =>
    inner.places (front ++ [.opening b]) (.closing b :: rest.lexemes ++ back) ++
      rest.places (front ++ enclosed b inner.lexemes) back
  | .method head name gap params tail body rest, back =>
    let ending := enclosed .curly body.lexemes
    let behind := behindName gap params.lexemes tail.lexemes ending
    let named := front ++ head.lexemes ++ [.token (.word name)]
    head.places front (.token (.word name) :: behind ++ rest.lexemes ++ back) ++
      ⟨front, head.lexemes, name, behind, rest.lexemes ++ back⟩ ::
      params.places (named ++ gap.map .token ++ [.opening .round])
        (.closing .round :: tail.lexemes ++ ending ++ rest.lexemes ++ back) ++
      tail.places (named ++ gap.map .token ++ enclosed .round params.lexemes) (ending ++ rest.lexemes ++ back) ++
      body.places (named ++ gap.map .token ++ enclosed .round params.lexemes ++ tail.lexemes ++ [.opening .curly])
        (.closing .curly :: rest.lexemes ++ back) ++
      rest.places (named ++ behind) back
  | .signature head name gap params tail rest, back =>
    let ending := [.token semicolon]
    let behind := behindName gap params.lexemes tail.lexemes ending
    let named := front ++ head.lexemes ++ [.token (.word name)]
    head.places front (.token (.word name) :: behind ++ rest.lexemes ++ back) ++
      ⟨front, head.lexemes, name, behind, rest.lexemes ++ back⟩ ::
      params.places (named ++ gap.map .token ++ [.opening .round])
        (.closing .round :: tail.lexemes ++ ending ++ rest.lexemes ++ back) ++
      tail.places (named ++ gap.map .token ++ enclosed .round params.lexemes) (ending ++ rest.lexemes ++ back) ++
      rest.places (named ++ behind) back

theorem Items.places_split (items : Items) {front back : List Lexeme} {p : Place} (h : p ∈ items.places front back) :
    p.front ++ p.lexemes ++ p.back = front ++ items.lexemes ++ back := by
  induction items generalizing front back with
  | nil => exact absurd h List.not_mem_nil
  | token t rest ih =>
    rw [ih h]
    simp [Items.lexemes]
  | group b inner rest ihInner ihRest =>
    rcases List.mem_append.mp h with h | h
    · rw [ihInner h]
      simp [Items.lexemes, enclosed]
    · rw [ihRest h]
      simp [Items.lexemes, enclosed]
  | method head name gap params tail body rest ihHead ihParams ihTail ihBody ihRest =>
    simp only [Items.places, List.mem_append, List.mem_cons] at h
    rcases h with (((h | rfl | h) | h) | h) | h
    · rw [ihHead h]
      simp [Items.lexemes]
    · simp [Items.lexemes, Place.lexemes]
    · rw [ihParams h]
      simp [Items.lexemes, behindName, enclosed]
    · rw [ihTail h]
      simp [Items.lexemes, behindName, enclosed]
    · rw [ihBody h]
      simp [Items.lexemes, behindName, enclosed]
    · rw [ihRest h]
      simp [Items.lexemes]
  | signature head name gap params tail rest ihHead ihParams ihTail ihRest =>
    simp only [Items.places, List.mem_append, List.mem_cons] at h
    rcases h with ((h | rfl | h) | h) | h
    · rw [ihHead h]
      simp [Items.lexemes]
    · simp [Items.lexemes, Place.lexemes]
    · rw [ihParams h]
      simp [Items.lexemes, behindName, enclosed]
    · rw [ihTail h]
      simp [Items.lexemes, behindName, enclosed]
    · rw [ihRest h]
      simp [Items.lexemes]

/-- A text with its parse. -/
structure CompilationUnit where
  items : Items
  valid : ∀ l ∈ items.lexemes, l.isValid = true
  separate : items.lexemes.IsChain fun l m => apart l m = true
  proper : items.isProper = true

def CompilationUnit.text (u : CompilationUnit) : Text := source u.items.lexemes

/-- The methods of a name that the text declares. -/
def CompilationUnit.declarations (u : CompilationUnit) (name : Text) : List Place :=
  (u.items.places [] []).filter fun p => p.name = name

/-! ## The stretch of a declaration -/

def endsLine (m : UInt8 × Mark) : Bool := m.1 = lf

/-- A line with a comment, or a part of one, and nothing else. -/
def isCommentLine (line : List (UInt8 × Mark)) : Bool :=
  line.all (fun m => m.2 ≠ .code) && line.any fun m => m.2 = .comment

/-- Where the lines of a declaration begin: at the first of the comment lines in front of its own. It begins at its first
character where something else is on the same line. -/
def Place.start (p : Place) : Nat :=
  let cut := Lines.lines endsLine (marks p.front)
  if cut.2.any (fun m => m.2 = .code) = true then (marks p.front).length
  else (cut.1.rdropWhile isCommentLine).flatten.length

/-- Behind the closing brace, or the semicolon. -/
def Place.stop (p : Place) : Nat := (source p.front).length + (source p.lexemes).length

theorem marks_length (ls : List Lexeme) : (marks ls).length = (source ls).length := by
  simp [marks, source, List.length_flatMap]

theorem Place.start_le (p : Place) : p.start ≤ (source p.front).length := by
  rw [Place.start, ← marks_length]
  split
  · exact Nat.le_refl _
  · refine (Lines.rdropWhile_length_le isCommentLine _).trans ?_
    have hlen := congrArg List.length (Lines.lines_flatten (p := endsLine) (marks p.front))
    rw [List.length_append] at hlen
    omega

theorem CompilationUnit.split {u : CompilationUnit} {name : Text} {p : Place} (h : p ∈ u.declarations name) :
    p.front ++ p.lexemes ++ p.back = u.items.lexemes := by
  have hsplit := Items.places_split u.items (List.mem_filter.mp h).1
  simpa using hsplit

theorem CompilationUnit.name_valid {u : CompilationUnit} {name : Text} {p : Place} (h : p ∈ u.declarations name) :
    name ≠ [] ∧ ∀ c ∈ name, isWordByte c = true := by
  have hname : p.name = name := of_decide_eq_true (List.mem_filter.mp h).2
  have hmem : Lexeme.token (.word name) ∈ u.items.lexemes := by
    rw [← CompilationUnit.split h, Place.lexemes, hname]
    simp
  simpa [Lexeme.isValid, Token.isValid] using u.valid _ hmem

theorem CompilationUnit.start_lt_stop {u : CompilationUnit} {name : Text} {p : Place} (h : p ∈ u.declarations name) :
    p.start < p.stop := by
  have hname : p.name = name := of_decide_eq_true (List.mem_filter.mp h).2
  have hpos : 0 < p.name.length := List.length_pos_iff.mpr (hname ▸ (CompilationUnit.name_valid h).1)
  have hle := p.start_le
  have hlexemes : p.name.length ≤ (source p.lexemes).length := by
    simp only [source, Place.lexemes, List.flatMap_append, List.flatMap_cons, List.length_append, Lexeme.source,
      Token.source]
    omega
  rw [Place.stop]
  omega

end ArtPi.Agent.JavaText
