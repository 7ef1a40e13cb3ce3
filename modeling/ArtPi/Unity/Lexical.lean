import ArtPi.Unity.Preprocess

set_option autoImplicit false

/-! # The lexical structure of a script

What `PreprocessUnityLine` should tell apart: a script is code in which strings, templates, comments and regular
expressions stand. A template has substitutions, which are code again. Whether a `/` starts a regular expression
depends on the text in front of it, as `IsUnityRegexContext` has it, so that the structure is described together with
that text. What the characters of identifiers are beyond ASCII is a parameter. -/

namespace ArtPi.Unity

open Net Cli.Complete

abbrev leftBrace : UInt8 := 0x7B
abbrev rightBrace : UInt8 := 0x7D
abbrev dollar : UInt8 := 0x24
abbrev dot : UInt8 := 0x2E
abbrev hash : UInt8 := 0x23
abbrev bang : UInt8 := 0x21

mutual

/-- Code, up to the end of the script or of a substitution. A chain is one whose name has a hyphen; in a substitution
braces stand in pairs. -/
inductive Code where
  | nil
  | char (c : UInt8) (rest : Code)
  | chain (name : List UInt8) (rest : Code)
  | braces (inner rest : Code)
  | string (quote : UInt8) (body : List UInt8) (rest : Code)
  | template (body : Template) (rest : Code)
  | lineComment (body : List UInt8) (rest : Code)
  | blockComment (body : List UInt8) (rest : Code)
  | regex (body flags : List UInt8) (rest : Code)

/-- What stands between two backticks. -/
inductive Template where
  | nil
  | char (c : UInt8) (rest : Template)
  | escape (c : UInt8) (rest : Template)
  | substitution (inner : Code) (rest : Template)

end

/-! ## Texts -/

mutual

def Code.source : Code → List UInt8
  | .nil => []
  | .char c rest => c :: rest.source
  | .chain name rest => (kPrefix ++ name) ++ rest.source
  | .braces inner rest => leftBrace :: (inner.source ++ rightBrace :: rest.source)
  | .string quote body rest => quote :: (body ++ quote :: rest.source)
  | .template body rest => backtick :: (body.source ++ backtick :: rest.source)
  | .lineComment body rest => slash :: slash :: (body ++ rest.source)
  | .blockComment body rest => slash :: star :: (body ++ star :: slash :: rest.source)
  | .regex body flags rest => slash :: (body ++ slash :: (flags ++ rest.source))

def Template.source : Template → List UInt8
  | .nil => []
  | .char c rest => c :: rest.source
  | .escape c rest => backslash :: c :: rest.source
  | .substitution inner rest => dollar :: leftBrace :: (inner.source ++ rightBrace :: rest.source)

end

/-- The text that the script should become: its chains in bracket notation, and all else as it is. -/
def Code.target : Code → List UInt8
  | .nil => []
  | .char c rest => c :: rest.target
  | .chain name rest => bracketed name ++ rest.target
  | .braces inner rest => leftBrace :: (inner.target ++ rightBrace :: rest.target)
  | .string quote body rest => quote :: (body ++ quote :: rest.target)
  | .template body rest => backtick :: (body.source ++ backtick :: rest.target)
  | .lineComment body rest => slash :: slash :: (body ++ rest.target)
  | .blockComment body rest => slash :: star :: (body ++ star :: slash :: rest.target)
  | .regex body flags rest => slash :: (body ++ slash :: (flags ++ rest.target))

/-! ## Tokens -/

/-- U+2028 and U+2029, which end a line as LF and CR do. -/
def lineSeparator : List UInt8 := [0xE2, 0x80, 0xA8]
def paragraphSeparator : List UInt8 := [0xE2, 0x80, 0xA9]

def NoTerminator (body : List UInt8) : Prop :=
  lf ∉ body ∧ cr ∉ body ∧ ¬ lineSeparator <:+: body ∧ ¬ paragraphSeparator <:+: body

/-- The line ends here. -/
def EndsLine (rest : List UInt8) : Prop :=
  rest = [] ∨ rest.head? = some lf ∨ rest.head? = some cr ∨ lineSeparator <+: rest ∨ paragraphSeparator <+: rest

/-- Characters and escapes. A backslash in front of the end of a line continues the string. -/
inductive StringBody (quote : UInt8) : List UInt8 → Prop where
  | nil : StringBody quote []
  | char {c : UInt8} {body : List UInt8} (hquote : c ≠ quote) (hbackslash : c ≠ backslash) (hlf : c ≠ lf)
      (hcr : c ≠ cr) (h : StringBody quote body) : StringBody quote (c :: body)
  | escape {c : UInt8} {body : List UInt8} (h : StringBody quote body) : StringBody quote (backslash :: c :: body)
  | crlf {body : List UInt8} (h : StringBody quote body) : StringBody quote (backslash :: cr :: lf :: body)

/-- A regular expression, from outside or from the inside of a class. -/
inductive RegexBody : Bool → List UInt8 → Prop where
  | nil : RegexBody false []
  | char {c : UInt8} {body : List UInt8} (hbackslash : c ≠ backslash) (hopen : c ≠ openBracket) (hslash : c ≠ slash)
      (h : RegexBody false body) : RegexBody false (c :: body)
  | opened {body : List UInt8} (h : RegexBody true body) : RegexBody false (openBracket :: body)
  | inside {c : UInt8} {body : List UInt8} (hbackslash : c ≠ backslash) (hclose : c ≠ closeBracket)
      (h : RegexBody true body) : RegexBody true (c :: body)
  | closed {body : List UInt8} (h : RegexBody false body) : RegexBody true (closeBracket :: body)
  | escape {k : Bool} {c : UInt8} {body : List UInt8} (h : RegexBody k body) : RegexBody k (backslash :: c :: body)

/-! ## Identifiers -/

/-- An identifier may end with an escape such as `\u{41}`; one without braces ends with a digit. -/
def endsEscape (before : List UInt8) : Bool :=
  before.head? = some rightBrace && (before.tail.dropWhile isalnum).take 3 = [leftBrace, 0x75, backslash]

/-- In JavaScript the character in front is one of an identifier. For characters beyond ASCII `wide` says so, of the
text up to them, with its last byte first. -/
def jsIdentBefore (wide : List UInt8 → Bool) (before : List UInt8) : Bool :=
  identBefore before || (before.head?.any (0x80 ≤ ·) && wide before) || endsEscape before

/-- A chain with a hyphen begins here. -/
def JsChainAt (wide : List UInt8 → Bool) (before text : List UInt8) : Prop :=
  kPrefix <+: text ∧ jsIdentBefore wide before = false ∧ hyphen ∈ chainName text

variable (wide : List UInt8 → Bool)

/-- A character of code begins no literal, no comment and no chain. -/
structure Plain (nested : Bool) (before : List UInt8) (c : UInt8) (rest : List UInt8) : Prop where
  squote : c ≠ squote
  dquote : c ≠ dquote
  backtick : c ≠ backtick
  slash : c = slash → rest.head? ≠ some slash ∧ rest.head? ≠ some star ∧ isUnityRegexContext before = false
  brace : nested = true → c ≠ leftBrace ∧ c ≠ rightBrace
  chain : ¬ JsChainAt wide before (c :: rest)

/-! ## Validity -/

mutual

/-- The code is lexically valid between the texts `before`, with its last character first, and `after`. -/
def Code.Valid (nested : Bool) (before after : List UInt8) : Code → Prop
  | .nil => True
  | .char c rest => Plain wide nested before c (rest.source ++ after) ∧ rest.Valid nested (c :: before) after
  | .chain name rest =>
    jsIdentBefore wide before = false ∧ (∀ c ∈ name, isUnityAssemblyNameChar c = true) ∧ hyphen ∈ name ∧
      (rest.source ++ after).head?.any isUnityAssemblyNameChar = false ∧
      rest.Valid nested ((kPrefix ++ name).reverse ++ before) after
  | .braces inner rest =>
    nested = true ∧ inner.Valid true (leftBrace :: before) (rightBrace :: (rest.source ++ after)) ∧
      rest.Valid nested (rightBrace :: (inner.source.reverse ++ leftBrace :: before)) after
  | .string quote body rest =>
    (quote = squote ∨ quote = dquote) ∧ StringBody quote body ∧
      rest.Valid nested (quote :: (body.reverse ++ quote :: before)) after
  | .template body rest =>
    body.Valid (backtick :: before) (backtick :: (rest.source ++ after)) ∧
      rest.Valid nested (backtick :: (body.source.reverse ++ backtick :: before)) after
  | .lineComment body rest =>
    NoTerminator body ∧ EndsLine (rest.source ++ after) ∧
      rest.Valid nested (body.reverse ++ slash :: slash :: before) after
  | .blockComment body rest =>
    ¬ [star, slash] <:+: body ++ [star] ∧
      rest.Valid nested (slash :: star :: (body.reverse ++ star :: slash :: before)) after
  | .regex body flags rest =>
    isUnityRegexContext before = true ∧ RegexBody false body ∧ NoTerminator body ∧ body ≠ [] ∧
      body.head? ≠ some star ∧ (∀ c ∈ flags, isalpha c = true) ∧
      (rest.source ++ after).head?.any isalpha = false ∧
      rest.Valid nested (flags.reverse ++ slash :: (body.reverse ++ slash :: before)) after

def Template.Valid (before after : List UInt8) : Template → Prop
  | .nil => True
  | .char c rest =>
    c ≠ backtick ∧ c ≠ backslash ∧ (c = dollar → (rest.source ++ after).head? ≠ some leftBrace) ∧
      rest.Valid (c :: before) after
  | .escape c rest => rest.Valid (c :: backslash :: before) after
  | .substitution inner rest =>
    inner.Valid true (leftBrace :: dollar :: before) (rightBrace :: (rest.source ++ after)) ∧
      rest.Valid (rightBrace :: (inner.source.reverse ++ leftBrace :: dollar :: before)) after

end

/-- A script: code, with a hashbang comment in front of it or not. -/
structure Script where
  hashbang : Option (List UInt8)
  code : Code

/-- The text of the hashbang comment. -/
def Script.header (s : Script) : List UInt8 :=
  match s.hashbang with
  | none => []
  | some body => hash :: bang :: body

def Script.source (s : Script) : List UInt8 := s.header ++ s.code.source

def Script.target (s : Script) : List UInt8 := s.header ++ s.code.target

/-- The script is lexically valid. -/
structure Script.Valid (wide : List UInt8 → Bool) (s : Script) : Prop where
  header : s.hashbang = none → ¬ [hash, bang] <+: s.code.source
  body : ∀ body ∈ s.hashbang, NoTerminator body ∧ EndsLine s.code.source
  code : s.code.Valid wide false s.header.reverse []

/-! ## What the scanner does not tell apart -/

/-- A list of characters and pairs with a backslash in front, in which the quote stands behind a backslash only. -/
inductive Inert (quote : UInt8) : List UInt8 → Prop where
  | nil : Inert quote []
  | char {c : UInt8} {body : List UInt8} (hquote : c ≠ quote) (hbackslash : c ≠ backslash) (h : Inert quote body) :
      Inert quote (c :: body)
  | pair {c : UInt8} {body : List UInt8} (h : Inert quote body) : Inert quote (backslash :: c :: body)

/-- In the substitutions a backtick stands behind a backslash only. -/
def Template.Tame : Template → Prop
  | .nil => True
  | .char _ rest => rest.Tame
  | .escape _ rest => rest.Tame
  | .substitution inner rest => Inert backtick (inner.source ++ [rightBrace]) ∧ rest.Tame

/-- A chain without a hyphen begins here whose name is the beginning of a chain with one. -/
def HidesChain (before text : List UInt8) : Prop :=
  kPrefix <+: text ∧ identBefore before = false ∧ ChainAt [dot] (text.drop kPrefix.length)

/-- The code has no such template and no such chain, nor one with a hyphen behind a character of an identifier that
`IsUnityJsIdentChar` does not know, and a line comment ends at LF, at CR LF or with the script. -/
def Code.Tame (before : List UInt8) : Code → Prop
  | .nil => True
  | .char c rest =>
    ¬ HidesChain before (c :: rest.source) ∧
      (ChainAt before (c :: rest.source) → jsIdentBefore wide before = false) ∧ rest.Tame (c :: before)
  | .chain name rest => rest.Tame ((kPrefix ++ name).reverse ++ before)
  | .braces inner rest => rest.Tame (rightBrace :: (inner.source.reverse ++ leftBrace :: before))
  | .string quote body rest => rest.Tame (quote :: (body.reverse ++ quote :: before))
  | .template body rest =>
    body.Tame ∧ rest.Tame (backtick :: (body.source.reverse ++ backtick :: before))
  | .lineComment body rest =>
    (rest.source = [] ∨ rest.source.head? = some lf ∨ [cr, lf] <+: rest.source) ∧
      rest.Tame (body.reverse ++ slash :: slash :: before)
  | .blockComment body rest => rest.Tame (slash :: star :: (body.reverse ++ star :: slash :: before))
  | .regex body flags rest => rest.Tame (flags.reverse ++ slash :: (body.reverse ++ slash :: before))

/-- And the script has no hashbang comment. -/
structure Script.Tame (wide : List UInt8 → Bool) (s : Script) : Prop where
  header : s.hashbang = none
  code : s.code.Tame wide []

end ArtPi.Unity
