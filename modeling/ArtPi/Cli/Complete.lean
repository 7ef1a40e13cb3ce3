import ArtPi.Cli.JsonList
import ArtPi.Net.Send

set_option autoImplicit false

/-! # What the line editor reads off a line (`cli/injector/repl_client.cpp`)

`FindCompletionContext` goes backwards from the cursor to find the token that is to be completed, and
`IsJsInputComplete` decides whether Enter evaluates the input or goes on with another line. -/

namespace ArtPi.Cli.Complete

open Net (ascii)

/-- `isalnum` in the C locale. -/
def isalnum (c : UInt8) : Bool := (0x30 ≤ c && c ≤ 0x39) || (0x41 ≤ c && c ≤ 0x5A) || (0x61 ≤ c && c ≤ 0x7A)

def tolower (c : UInt8) : UInt8 := if 0x41 ≤ c ∧ c ≤ 0x5A then c + 0x20 else c

/-! ## The context of a completion -/

structure CompletionContext where
  tokenStart : Nat := 0
  pfx : List UInt8 := []
  expr : List UInt8 := []
  isMemberAccess : Bool := false
  isCallArg : Bool := false
  callFn : List UInt8 := []

/-- Letters, digits, `_` and `$`. -/
def isWordChar (c : UInt8) : Bool := isalnum c || c = 0x5F || c = 0x24

/-- A scan backwards over characters of a kind. -/
def scanBack (ok : UInt8 → Bool) (line : List UInt8) : Nat → Nat
  | 0 => 0
  | n + 1 => if ok (line.getD n 0) then scanBack ok line n else n + 1

/-- The scan backwards over an expression, with the numbers of `paren` and `bracket` that are open; `dash` says
    whether `-` is a part of it. -/
def exprStart (dash : Bool) (line : List UInt8) : Nat → Nat → Nat → Nat
  | 0, _, _ => 0
  | p + 1, paren, bracket =>
    let c := line.getD p 0
    if c = 0x29 then exprStart dash line p (paren + 1) bracket
    else if c = 0x28 then if paren = 0 then p + 1 else exprStart dash line p (paren - 1) bracket
    else if c = 0x5D then exprStart dash line p paren (bracket + 1)
    else if c = 0x5B then if bracket = 0 then p + 1 else exprStart dash line p paren (bracket - 1)
    else if 0 < paren ∨ 0 < bracket then exprStart dash line p paren bracket
    else if isWordChar c || c = 0x2E || c = 0x22 || c = 0x27 || (dash && c = 0x2D) then
      exprStart dash line p paren bracket
    else p + 1

/-- `line.substr(start, stop - start)` -/
def substr (line : List UInt8) (start stop : Nat) : List UInt8 := (line.drop start).take (stop - start)

/-- The part for a member behind a dot; `none` where it falls through. -/
def memberContext (unityAssembly : Bool) (line : List UInt8) (pos : Nat) : Option CompletionContext :=
  let memberStart := scanBack (fun c => isWordChar c || (unityAssembly && c = 0x2D)) line pos
  if 0 < memberStart ∧ line.getD (memberStart - 1) 0 = 0x2E then
    let wordStart := scanBack (fun c => isWordChar c || c = 0x2E || (unityAssembly && c = 0x2D)) line pos
    let fullWord := substr line wordStart pos
    if (ascii "dynamic.").isPrefixOf fullWord then some { tokenStart := wordStart, pfx := fullWord }
    else
      let dotPos := memberStart - 1
      let expr := substr line (exprStart unityAssembly line dotPos 0 0) dotPos
      if expr ≠ [] then
        some
          { tokenStart := memberStart
            pfx := substr line memberStart pos
            expr := expr
            isMemberAccess := true }
      else none
  else none

/-- The part for a string that is an argument of a call. -/
def callContext (unityAssembly : Bool) (line : List UInt8) (pos : Nat) : Option CompletionContext :=
  let quoteScan := scanBack (fun c => isWordChar c || c = 0x2E || (unityAssembly && c = 0x2D) || c = 0x3C || c = 0x3E ||
    c = 0x60 || c = 0x7E) line pos
  if 0 < quoteScan ∧ (line.getD (quoteScan - 1) 0 = 0x22 ∨ line.getD (quoteScan - 1) 0 = 0x27) then
    let openQuote := quoteScan - 1
    if 0 < openQuote ∧ line.getD (openQuote - 1) 0 = 0x28 then
      let openParen := openQuote - 1
      let fnStart := scanBack (fun c => isalnum c || c = 0x5F) line openParen
      if 0 < fnStart ∧ line.getD (fnStart - 1) 0 = 0x2E then
        let dotPos := fnStart - 1
        let expr := substr line (exprStart false line dotPos 0 0) dotPos
        if expr ≠ [] then
          some
            { tokenStart := quoteScan
              pfx := substr line quoteScan pos
              expr := expr
              callFn := substr line fnStart openParen
              isCallArg := true }
        else none
      else none
    else none
  else none

def findCompletionContext (line : List UInt8) (pos : Nat) : CompletionContext :=
  if pos = 0 then {}
  else
    let unityAssembly := (JsonList.find (ascii "dynamic.unity.assembly") line).isSome
    match memberContext unityAssembly line pos with
    | some ctx => ctx
    | none =>
      match callContext unityAssembly line pos with
      | some ctx => ctx
      | none =>
        let wordStart := scanBack (fun c => isWordChar c || c = 0x2E) line pos
        { tokenStart := wordStart, pfx := substr line wordStart pos }

theorem scanBack_le (ok : UInt8 → Bool) (line : List UInt8) (pos : Nat) : scanBack ok line pos ≤ pos := by
  induction pos with
  | zero => exact Nat.le_refl 0
  | succ n ih =>
    rw [scanBack]
    split_ifs
    · exact Nat.le_succ_of_le ih
    · exact Nat.le_refl _

theorem memberContext_le {unityAssembly : Bool} {line : List UInt8} {pos : Nat} {ctx : CompletionContext}
    (h : memberContext unityAssembly line pos = some ctx) : ctx.tokenStart ≤ pos := by
  unfold memberContext at h
  simp only at h
  split_ifs at h
  · cases h
    exact scanBack_le _ line pos
  · cases h
    exact scanBack_le _ line pos

theorem callContext_le {unityAssembly : Bool} {line : List UInt8} {pos : Nat} {ctx : CompletionContext}
    (h : callContext unityAssembly line pos = some ctx) : ctx.tokenStart ≤ pos := by
  unfold callContext at h
  simp only at h
  split_ifs at h
  cases h
  exact scanBack_le _ line pos

theorem tokenStart_le (line : List UInt8) (pos : Nat) : (findCompletionContext line pos).tokenStart ≤ pos := by
  unfold findCompletionContext
  split_ifs
  · exact Nat.zero_le pos
  · generalize (JsonList.find (ascii "dynamic.unity.assembly") line).isSome = unityAssembly
    cases hmember : memberContext unityAssembly line pos with
    | some ctx =>
      simp only [hmember]
      exact memberContext_le hmember
    | none =>
      cases hcall : callContext unityAssembly line pos with
      | some ctx =>
        simp only [hmember, hcall]
        exact callContext_le hcall
      | none =>
        simp only [hmember, hcall]
        exact scanBack_le _ line pos

/-! ## Candidates -/

/-- The inner loop of `FindLongestCommonPrefix`. -/
def commonPrefix : List UInt8 → List UInt8 → List UInt8
  | a :: as, b :: bs => if tolower a = tolower b then a :: commonPrefix as bs else []
  | _, _ => []

def findLongestCommonPrefix : List (List UInt8) → List UInt8
  | [] => []
  | first :: list => list.foldl commonPrefix first

/-- What is offered where there is no token. -/
def basics : List (List UInt8) :=
  ["dynamic.java.", "dynamic.native.", "dynamic.unity.", "Java.", "Native.", "Trace.", "Debug.", "Memory.",
    "findclass(\"", "artobject(", "exit"].map ascii

/-! ## Complete input -/

/-- `find_last_not_of(" \t\r")` -/
def lastNotBlank (src : List UInt8) : Option Nat :=
  (List.range src.length).reverse.find? fun i => src.getD i 0 ≠ 0x20 && src.getD i 0 ≠ 0x09 && src.getD i 0 ≠ 0x0D

def trailingBackslash (src : List UInt8) : Bool :=
  match lastNotBlank src with
  | some i => src.getD i 0 = 0x5C
  | none => false

def trimTrailingBackslash (s : List UInt8) : List UInt8 :=
  match lastNotBlank s with
  | some i => if s.getD i 0 = 0x5C then s.eraseIdx i else s
  | none => s

/-- The variables of the scan; `quote` is zero outside a string. -/
structure Scan where
  depth : Nat := 0
  inLineComment : Bool := false
  inBlockComment : Bool := false
  quote : UInt8 := 0
  escaped : Bool := false

def scanJs (src : List UInt8) (st : Scan) : Scan :=
  match src with
  | [] => st
  | c :: rest =>
    let next := rest.headD 0
    if st.inLineComment then scanJs rest (if c = 0x0A then { st with inLineComment := false } else st)
    else if st.inBlockComment then
      if c = 0x2A ∧ next = 0x2F then scanJs rest.tail { st with inBlockComment := false } else scanJs rest st
    else if st.quote ≠ 0 then
      if st.escaped then scanJs rest { st with escaped := false }
      else if c = 0x5C then scanJs rest { st with escaped := true }
      else if c = st.quote then scanJs rest { st with quote := 0 }
      else scanJs rest st
    else if c = 0x2F ∧ next = 0x2F then scanJs rest.tail { st with inLineComment := true }
    else if c = 0x2F ∧ next = 0x2A then scanJs rest.tail { st with inBlockComment := true }
    else if c = 0x27 ∨ c = 0x22 ∨ c = 0x60 then scanJs rest { st with quote := c }
    else if c = 0x28 ∨ c = 0x5B ∨ c = 0x7B then scanJs rest { st with depth := st.depth + 1 }
    else if c = 0x29 ∨ c = 0x5D ∨ c = 0x7D then scanJs rest { st with depth := st.depth - 1 }
    else scanJs rest st
termination_by src.length
decreasing_by all_goals simp only [List.length_cons, List.length_tail]; omega

def isJsInputComplete (src : List UInt8) : Bool :=
  if trailingBackslash src then false
  else
    let st := scanJs src {}
    if st.quote ≠ 0 ∨ st.inBlockComment then false else st.depth = 0

end ArtPi.Cli.Complete
