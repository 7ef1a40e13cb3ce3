import ArtPi.Lib.Scan
import ArtPi.Cli.Complete
import Mathlib.Data.Bool.AllAny
import Mathlib.Data.List.TakeWhile

set_option autoImplicit false

/-! # Hyphenated Unity assembly names (`engine/utils/unity_preprocess.h`)

`PreprocessUnityLine` rewrites `dynamic.unity.assembly.Assembly-CSharp`, which is no property chain of JavaScript,
into bracket notation. It is a scanner over the bytes of the text, with a state for code and one for each kind of
literal and comment. In code it looks back for two things: whether a `/` starts a regular expression, and whether a
chain begins at the middle of an identifier. -/

namespace ArtPi.Unity

open Lib.Scan Net Cli.Complete

abbrev slash : UInt8 := 0x2F
abbrev star : UInt8 := 0x2A
abbrev squote : UInt8 := 0x27
abbrev dquote : UInt8 := 0x22
abbrev backtick : UInt8 := 0x60
abbrev backslash : UInt8 := 0x5C
abbrev hyphen : UInt8 := 0x2D
abbrev openBracket : UInt8 := 0x5B
abbrev closeBracket : UInt8 := 0x5D
abbrev lf : UInt8 := 0x0A
abbrev cr : UInt8 := 0x0D

def isUnityJsIdentChar (c : UInt8) : Bool := isalnum c || c = 0x5F || c = 0x24

def isUnityAssemblyNameChar (c : UInt8) : Bool := isalnum c || c = 0x5F || c = 0x24 || c = hyphen

/-- `isalpha` in the C locale. -/
def isalpha (c : UInt8) : Bool := (0x41 ≤ c && c ≤ 0x5A) || (0x61 ≤ c && c ≤ 0x7A)

def isBlank (c : UInt8) : Bool := c = 0x20 || c = 0x09 || c = cr || c = lf

/-- The characters behind which a `/` starts a regular expression: `= ( [`, the left brace, `, : ; ! & | ? + - * %`
and `^ ~ < >`. -/
def regexHeads : List UInt8 :=
  [0x3D, 0x28, 0x5B, 0x7B, 0x2C, 0x3A, 0x3B, 0x21, 0x26, 0x7C, 0x3F, 0x2B, hyphen, star, 0x25, 0x5E, 0x7E, 0x3C, 0x3E]

/-- `IsUnityRegexContext`: `before` is the text in front of the `/`, its last character first. -/
def isUnityRegexContext (before : List UInt8) : Bool :=
  match before.dropWhile isBlank with
  | [] => true
  | c :: _ => regexHeads.contains c

/-- The character in front is one of an identifier. -/
def identBefore (before : List UInt8) : Bool := before.head?.any isUnityJsIdentChar

inductive State where
  | code
  | singleQuote
  | doubleQuote
  | template
  | lineComment
  | blockComment
  | regex
  | regexClass
  deriving DecidableEq

def kPrefix : List UInt8 := ascii "dynamic.unity.assembly."

/-- The name behind the prefix of a chain. -/
def chainName (text : List UInt8) : List UInt8 := (text.drop kPrefix.length).takeWhile isUnityAssemblyNameChar

/-- What a chain with a hyphen becomes. -/
def bracketed (name : List UInt8) : List UInt8 :=
  ascii "dynamic.unity.assembly[\"" ++ name ++ ascii "\"]"

def codeStep (before : List UInt8) (c : UInt8) (rest : List UInt8) : Move State UInt8 :=
  if c = slash ∧ rest.head? = some slash then ⟨1, [slash, slash], .lineComment⟩
  else if c = slash ∧ rest.head? = some star then ⟨1, [slash, star], .blockComment⟩
  else if c = squote then ⟨0, [c], .singleQuote⟩
  else if c = dquote then ⟨0, [c], .doubleQuote⟩
  else if c = backtick then ⟨0, [c], .template⟩
  else if c = slash ∧ isUnityRegexContext before = true then ⟨0, [c], .regex⟩
  else if kPrefix.isPrefixOf (c :: rest) = true ∧ identBefore before = false then
    let name := chainName (c :: rest)
    ⟨kPrefix.length + name.length - 1,
      if name ≠ [] ∧ hyphen ∈ name then bracketed name else (c :: rest).take (kPrefix.length + name.length), .code⟩
  else ⟨0, [c], .code⟩

/-- A string or a template: what is behind a backslash is copied with it. -/
def quotedStep (quote : UInt8) (s : State) (c : UInt8) (rest : List UInt8) : Move State UInt8 :=
  if c = backslash ∧ rest ≠ [] then ⟨1, c :: rest.take 1, s⟩ else ⟨0, [c], if c = quote then .code else s⟩

/-- One turn of the loop of `PreprocessUnityLine`. -/
def step (s : State) (before : List UInt8) (c : UInt8) (rest : List UInt8) : Move State UInt8 :=
  match s with
  | .code => codeStep before c rest
  | .lineComment => ⟨0, [c], if c = lf then .code else .lineComment⟩
  | .blockComment =>
    if c = star ∧ rest.head? = some slash then ⟨1, [c, slash], .code⟩ else ⟨0, [c], .blockComment⟩
  | .regex =>
    if c = backslash ∧ rest ≠ [] then ⟨1, c :: rest.take 1, .regex⟩
    else if c = openBracket then ⟨0, [c], .regexClass⟩
    else if c = slash then ⟨(rest.takeWhile isalpha).length, c :: rest.takeWhile isalpha, .code⟩
    else ⟨0, [c], if c = lf then .code else .regex⟩
  | .regexClass =>
    if c = backslash ∧ rest ≠ [] then ⟨1, c :: rest.take 1, .regexClass⟩
    else ⟨0, [c], if c = closeBracket then .regex else .regexClass⟩
  | .singleQuote => quotedStep squote .singleQuote c rest
  | .doubleQuote => quotedStep dquote .doubleQuote c rest
  | .template => quotedStep backtick .template c rest

def preprocessUnityLine (input : List UInt8) : List UInt8 := run step .code [] input

example : preprocessUnityLine (ascii "dynamic.unity.assembly.A-B;") = ascii "dynamic.unity.assembly[\"A-B\"];" := by
  decide

/-! ## Steps in code -/

/-- The chain that begins at a place has a name with a hyphen, and is rewritten there. -/
def ChainAt (before : List UInt8) (text : List UInt8) : Prop :=
  kPrefix <+: text ∧ identBefore before = false ∧ hyphen ∈ chainName text

instance (before text : List UInt8) : Decidable (ChainAt before text) := instDecidableAnd

/-- The letter that a chain begins with. -/
abbrev letterD : UInt8 := 0x64

/-- A character that opens nothing, and no chain. -/
def Soft (c : UInt8) : Prop := c ≠ slash ∧ c ≠ squote ∧ c ≠ dquote ∧ c ≠ backtick ∧ c ≠ letterD

instance (c : UInt8) : Decidable (Soft c) := instDecidableAnd

theorem kPrefix_eq : kPrefix = letterD :: kPrefix.tail := by decide

theorem head_of_kPrefix {c : UInt8} {rest : List UInt8} (h : kPrefix <+: c :: rest) :
    c = letterD ∧ kPrefix.tail <+: rest := by
  rw [kPrefix_eq, List.cons_prefix_cons] at h
  exact ⟨h.1.symm, h.2⟩

/-- A character that opens no literal and no comment can begin a chain only. -/
theorem step_quiet {c : UInt8} (hslash : c ≠ slash) (hsquote : c ≠ squote) (hdquote : c ≠ dquote)
    (hbacktick : c ≠ backtick) (before rest : List UInt8) :
    step .code before c rest =
      if kPrefix <+: c :: rest ∧ identBefore before = false then
        ⟨kPrefix.length + (chainName (c :: rest)).length - 1,
          if chainName (c :: rest) ≠ [] ∧ hyphen ∈ chainName (c :: rest) then bracketed (chainName (c :: rest))
          else (c :: rest).take (kPrefix.length + (chainName (c :: rest)).length), .code⟩
      else ⟨0, [c], .code⟩ := by
  simp only [step, codeStep, hslash, hsquote, hdquote, hbacktick, false_and, if_false, List.isPrefixOf_iff_prefix]

theorem step_soft {c : UInt8} (h : Soft c) (before rest : List UInt8) :
    step .code before c rest = ⟨0, [c], .code⟩ := by
  obtain ⟨hslash, hsquote, hdquote, hbacktick, hd⟩ := h
  rw [step_quiet hslash hsquote hdquote hbacktick, if_neg]
  intro hand
  exact hd (head_of_kPrefix hand.1).1

theorem step_slash {rest : List UInt8} (hline : rest.head? ≠ some slash) (hblock : rest.head? ≠ some star)
    (before : List UInt8) :
    step .code before slash rest =
      ⟨0, [slash], if isUnityRegexContext before = true then .regex else .code⟩ := by
  have hpre : ¬ kPrefix.isPrefixOf (slash :: rest) = true := by
    rw [List.isPrefixOf_iff_prefix]
    exact fun hp => absurd (head_of_kPrefix hp).1 (by decide)
  have hsquote : slash ≠ squote := by decide
  have hdquote : slash ≠ dquote := by decide
  have hbacktick : slash ≠ backtick := by decide
  simp only [step, codeStep, hline, hblock, hsquote, hdquote, hbacktick, hpre, and_false, if_false, true_and]
  split <;> rfl

theorem run_soft {xs : List UInt8} (h : ∀ c ∈ xs, Soft c) (before rest : List UInt8) :
    run step .code before (xs ++ rest) = xs ++ run step .code (xs.reverse ++ before) rest :=
  run_copies (fun _ hc => step_soft hc) h before rest

/-- The name behind a prefix, up to a character that is none of a name. -/
theorem chainName_append {name rest : List UInt8} (hname : ∀ c ∈ name, isUnityAssemblyNameChar c = true)
    (hrest : rest.head?.any isUnityAssemblyNameChar = false) : chainName (kPrefix ++ (name ++ rest)) = name := by
  rw [chainName, List.drop_left, takeWhile_append_of_head? hname hrest]

theorem chain_split {text : List UInt8} (h : kPrefix <+: text) :
    ∃ rest, text = kPrefix ++ (chainName text ++ rest) ∧
      (∀ c ∈ chainName text, isUnityAssemblyNameChar c = true) ∧
      rest.head?.any isUnityAssemblyNameChar = false := by
  obtain ⟨tail, rfl⟩ := h
  refine ⟨tail.dropWhile isUnityAssemblyNameChar, ?_, ?_, head?_dropWhile_any isUnityAssemblyNameChar tail⟩
  · rw [chainName, List.drop_left, List.takeWhile_append_dropWhile]
  · intro c hc
    exact List.mem_takeWhile_imp hc

theorem step_chain {before name rest : List UInt8} (hbefore : identBefore before = false)
    (hname : ∀ c ∈ name, isUnityAssemblyNameChar c = true)
    (hrest : rest.head?.any isUnityAssemblyNameChar = false) :
    step .code before letterD ((kPrefix.tail ++ name) ++ rest) =
      ⟨(kPrefix.tail ++ name).length, if hyphen ∈ name then bracketed name else letterD :: (kPrefix.tail ++ name),
        .code⟩ := by
  have htext : letterD :: ((kPrefix.tail ++ name) ++ rest) = kPrefix ++ (name ++ rest) := by
    rw [List.append_assoc]
    rfl
  rw [step_quiet (by decide) (by decide) (by decide) (by decide), htext, chainName_append hname hrest,
    if_pos ⟨List.prefix_append _ _, hbefore⟩]
  have hlen : kPrefix.length + name.length - 1 = (kPrefix.tail ++ name).length := by
    rw [List.length_append, List.length_tail]
    have : 0 < kPrefix.length := by decide
    omega
  have hemit : (if name ≠ [] ∧ hyphen ∈ name then bracketed name
      else (kPrefix ++ (name ++ rest)).take (kPrefix.length + name.length)) =
      if hyphen ∈ name then bracketed name else letterD :: (kPrefix.tail ++ name) := by
    by_cases hin : hyphen ∈ name
    · rw [if_pos ⟨List.ne_nil_of_mem hin, hin⟩, if_pos hin]
    · rw [if_neg (fun hand => hin hand.2), if_neg hin, ← List.append_assoc, ← List.length_append, List.take_left]
      rfl
  rw [hlen, hemit]

theorem step_letterD {before rest : List UInt8} (h : kPrefix.tail <+: rest → identBefore before = true) :
    step .code before letterD rest = ⟨0, [letterD], .code⟩ := by
  rw [step_quiet (by decide) (by decide) (by decide) (by decide), if_neg]
  rintro ⟨hp, hbefore⟩
  rw [h (head_of_kPrefix hp).2] at hbefore
  exact absurd hbefore (by simp)

end ArtPi.Unity
