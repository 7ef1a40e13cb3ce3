import ArtPi.Dex.Assemble
import ArtPi.Dex.Signature
import ArtPi.Lib.Runs

set_option autoImplicit false

/-! # Invoke targets (`src/dex/pi_dex_writer.cpp`, `src/dex/pi_dex_gen.cpp`)

The target of an invoke is a text such as `Lcom/foo/Bar;->method(I)V`. `ParseMethodSpec` cuts it at the
arrow and at the first parenthesis and looks at nothing behind that; the signature is parsed only when
the instruction is emitted. `Builder::Proto` answers a signature that does not parse with a null
pointer, which the callback for methods hands on to `MethodDecl`. Texts are ASCII. -/

namespace ArtPi.Dex

open Lib

/-! ## The text of a target -/

/-- `std::isspace`. -/
def isSpace (c : Char) : Bool := c = ' ' || (9 ≤ c.toNat && c.toNat ≤ 13)

def trim (str : List Char) : List Char :=
  ((str.dropWhile isSpace).reverse.dropWhile isSpace).reverse

theorem length_trim_le (str : List Char) : (trim str).length ≤ str.length := by
  unfold trim
  rw [List.length_reverse]
  have hback := (List.dropWhile_sublist isSpace (l := (str.dropWhile isSpace).reverse)).length_le
  have hfront := (List.dropWhile_sublist isSpace (l := str)).length_le
  rw [List.length_reverse] at hback
  exact Nat.le_trans hback hfront

/-- The names of the primitive types, each with its descriptor. -/
def primitiveNames : List (List Char × Char) :=
  [(['v', 'o', 'i', 'd'], 'V'), (['b', 'o', 'o', 'l', 'e', 'a', 'n'], 'Z'),
    (['b', 'y', 't', 'e'], 'B'), (['s', 'h', 'o', 'r', 't'], 'S'), (['c', 'h', 'a', 'r'], 'C'),
    (['i', 'n', 't'], 'I'), (['l', 'o', 'n', 'g'], 'J'), (['f', 'l', 'o', 'a', 't'], 'F'),
    (['d', 'o', 'u', 'b', 'l', 'e'], 'D')]

def dotsToSlashes (s : List Char) : List Char := s.map (fun c => if c = '.' then '/' else c)

/-- `NormalizeType`. -/
def normalizeType (raw : List Char) : List Char :=
  match _h : trim raw with
  | [] => ['V']
  | c :: rest =>
    match primitiveNames.find? (fun p => c :: rest = p.1 || c :: rest = [p.2]) with
    | some p => [p.2]
    | none =>
      if c = '[' then '[' :: normalizeType rest
      else if c = 'L' ∧ (c :: rest).getLast? = some ';' then dotsToSlashes (c :: rest)
      else 'L' :: (dotsToSlashes (c :: rest) ++ [';'])
termination_by raw.length
decreasing_by
  have hle := length_trim_le raw
  rw [_h, List.length_cons] at hle
  exact hle

/-- `s.find("->")`: the text in front of the first arrow, and the text behind it. -/
def splitArrow : List Char → Option (List Char × List Char)
  | [] => none
  | c :: rest =>
    if c = '-' ∧ rest.head? = some '>' then some ([], rest.tail)
    else
      match splitArrow rest with
      | none => none
      | some (front, back) => some (c :: front, back)

def isSeparator (c : Char) : Bool := c = '.' || c = '/'

/-- `full_name.find_last_of("./")`. -/
def splitLast (full_name : List Char) : Option (List Char × List Char) :=
  match full_name.reverse.dropWhile (fun c => !isSeparator c) with
  | [] => none
  | _ :: front =>
    some (front.reverse, (full_name.reverse.takeWhile (fun c => !isSeparator c)).reverse)

/-- What `ParseMethodSpec` returns in `out_parent`, `out_name` and `out_sig`. -/
structure InvokeTarget where
  parent : List Char
  name : List Char
  sig : List Char
  deriving DecidableEq

def parseMethodSpec (raw : List Char) : Option InvokeTarget :=
  let s := trim raw
  match splitArrow s with
  | some (front, rest) =>
    if '(' ∉ rest then none
    else some ⟨normalizeType front, rest.takeWhile (· ≠ '('), rest.dropWhile (· ≠ '(')⟩
  | none =>
    -- the dotted form: "com.foo.Bar.method(I)V"
    if '(' ∉ s then none
    else
      match splitLast (s.takeWhile (· ≠ '(')) with
      | none => none
      | some (front, name) => some ⟨normalizeType front, name, s.dropWhile (· ≠ '(')⟩

/-! ## The instruction list -/

/-- The instructions of a `Writer`, and its `outs_`. -/
structure Written where
  instructions : List SymbolicInstruction
  outs : UInt16

def OP_INVOKE_VIRTUAL : Opcode := 0x6e
def OP_INVOKE_SUPER : Opcode := 0x6f
def OP_INVOKE_DIRECT : Opcode := 0x70
def OP_INVOKE_STATIC : Opcode := 0x71
def OP_INVOKE_INTERFACE : Opcode := 0x72

def putInvokeInternal (w : Written) (opcode : Opcode) (method_sig : List Char)
    (regs : List UInt32) : Option Written :=
  if regs.length > 5 then none
  else if regs.any (· > 15) then none
  else
    match parseMethodSpec method_sig with
    | none => none
    | some m =>
      some
        { instructions := w.instructions ++ [.bytecode opcode [.vregList regs,
            .method (String.ofList m.parent) (String.ofList m.name) (String.ofList m.sig)]]
          outs := max w.outs (UInt16.ofNat regs.length) }

def putInvokeVirtual (w : Written) (method_sig : List Char) (regs : List UInt32) : Option Written :=
  putInvokeInternal w OP_INVOKE_VIRTUAL method_sig regs

def putInvokeDirect (w : Written) (method_sig : List Char) (regs : List UInt32) : Option Written :=
  putInvokeInternal w OP_INVOKE_DIRECT method_sig regs

def putInvokeStatic (w : Written) (method_sig : List Char) (regs : List UInt32) : Option Written :=
  putInvokeInternal w OP_INVOKE_STATIC method_sig regs

def putInvokeSuper (w : Written) (method_sig : List Char) (regs : List UInt32) : Option Written :=
  putInvokeInternal w OP_INVOKE_SUPER method_sig regs

def putInvokeInterface (w : Written) (method_sig : List Char) (regs : List UInt32) :
    Option Written :=
  putInvokeInternal w OP_INVOKE_INTERFACE method_sig regs

/-- The signature of a method operand. -/
def SymbolicOperand.methodSig : SymbolicOperand → Option (List Char)
  | .method _ _ extraSig => some extraSig.toList
  | _ => none

/-- The signatures that linking an instruction asks for. -/
def SymbolicInstruction.methodSigs : SymbolicInstruction → List (List Char)
  | .bytecode _ operands => operands.filterMap SymbolicOperand.methodSig
  | _ => []

/-- A call of the writer: one of the five invokes, by its opcode, or any other instruction, which has no
    method operand. -/
inductive Call where
  | invoke (opcode : Opcode) (method_sig : List Char) (regs : List UInt32)
  | put (si : SymbolicInstruction) (noMethod : si.methodSigs = [])

/-- An invoke that `PutInvokeInternal` refuses leaves the list as it is. -/
def Written.call (w : Written) : Call → Written
  | .invoke opcode method_sig regs => (putInvokeInternal w opcode method_sig regs).getD w
  | .put si _ => { w with instructions := w.instructions ++ [si] }

def written (calls : List Call) : Written := calls.foldl Written.call ⟨[], 0⟩

/-! ## The builder -/

def toDescriptor (type : List Char) : List Char :=
  match type with
  | [] => type
  | c :: rest =>
    if c = 'L' ∧ type.getLast? = some ';' then type
    else if c = '[' then type
    else if rest = [] ∧ isPrimitiveChar c then type
    else 'L' :: (dotsToSlashes type ++ [';'])

/-- `Builder`, as far as invokes use it: every prototype in `protos_` was parsed from its key. -/
structure Builder where
  protos : List Char → Option Signature
  methodDecls : List Char → Option Nat
  methodsCount : Nat
  parsed : ∀ signature p, protos signature = some p → parseSignature signature = some p

/-- `Builder::Proto`; `none` is `nullptr`. -/
def Builder.proto (b : Builder) (signature : List Char) : Option Signature × Builder :=
  match b.protos signature with
  | some p => (some p, b)
  | none =>
    match h : parseSignature signature with
    | none => (none, b)
    | some p =>
      (some p,
        { b with
          protos := Function.update b.protos signature (some p)
          parsed := by
            intro s q hq
            by_cases hs : s = signature
            · rw [hs, Function.update_self] at hq
              rw [hs, h, hq]
            · rw [Function.update_of_ne hs] at hq
              exact b.parsed s q hq })

/-- `Builder::MethodDecl`, which reads `proto->Signature()` first: `none` is that read through a null
    pointer. -/
def Builder.methodDecl (b : Builder) (parent name : List Char) (proto : Option Signature) :
    Option (Nat × Builder) :=
  match proto with
  | none => none
  | some p =>
    let key := toDescriptor parent ++ '-' :: '>' :: (name ++ describe p)
    match b.methodDecls key with
    | some index => some (index, b)
    | none =>
      some (b.methodsCount,
        { b with
          methodDecls := Function.update b.methodDecls key (some b.methodsCount)
          methodsCount := b.methodsCount + 1 })

/-- `ctx.get_method`. -/
def Builder.getMethod (b : Builder) (parent name sig : List Char) : Option (Nat × Builder) :=
  (b.proto sig).2.methodDecl parent name (b.proto sig).1

/-- The part of pass 2 that asks for methods. -/
def linkOperand (b : Builder) : SymbolicOperand → Option Builder
  | .method strVal extraType extraSig =>
    (b.getMethod strVal.toList extraType.toList extraSig.toList).map Prod.snd
  | _ => some b

def linkInstruction (b : Builder) : SymbolicInstruction → Option Builder
  | .bytecode _ operands => operands.foldlM linkOperand b
  | _ => some b

/-- What `AssembleInto` checks before it emits. -/
def checkWriter (w : Writer) : Except AssembleError Unit := do
  require (getBytecodeInstructionCount w.instructions ≠ 0) .emptyWriter
  require (isTerminal (lastOp w.instructions)) .noTerminal
  checkRegisters w.registers.toNat w.instructions
  (simulate w.instructions).branches.forM (checkBranch (simulate w.instructions).labels)

inductive Assembly where
  | nullProto
  | returns (result : Except AssembleError Assembled) (b : Builder)

/-- `AssembleInto` with the builder behind its context. -/
def assembleWith (ctx : SymbolicOperand → Nat) (b : Builder) (w : Writer) : Assembly :=
  match checkWriter w with
  | .error e => .returns (.error e) b
  | .ok () =>
    match w.instructions.foldlM linkInstruction b with
    | none => .nullProto
    | some b' => .returns (encode (emit ctx [] w.instructions)) b'

/-! ## When the target is cut off at the right place -/

/-- The text that the signature is looked for in. -/
def targetText (spec : List Char) : List Char :=
  match splitArrow (trim spec) with
  | some (_, rest) => rest
  | none => trim spec

/-- There is an arrow, or a dot or slash in front of the parenthesis. -/
def HasName (spec : List Char) : Prop :=
  splitArrow (trim spec) ≠ none ∨ ∃ c ∈ (trim spec).takeWhile (· ≠ '('), isSeparator c = true

/-- From the first parenthesis on, the text of a target is a list of parameter types in parentheses and
    a return type, all of the kind that the parser of signatures reads. -/
def Encodes (spec : List Char) : Prop :=
  '(' ∈ targetText spec → HasName spec →
    ∃ sig : Signature, (∀ t ∈ sig.ret :: sig.params, Readable t) ∧
      (targetText spec).dropWhile (· ≠ '(') = describe sig

/-- What the parser of targets cuts off is a signature. -/
def SpecEncodable (spec : List Char) : Prop :=
  ∀ target, parseMethodSpec spec = some target → ∃ sig, parseSignature target.sig = some sig

theorem splitLast_eq_none_iff (full_name : List Char) :
    splitLast full_name = none ↔ ∀ c ∈ full_name, isSeparator c = false := by
  unfold splitLast
  split
  · next hnil =>
      rw [List.dropWhile_eq_nil_iff] at hnil
      simpa using hnil
  · next c front hcons =>
      constructor
      · exact fun h => absurd h (by simp)
      · intro h
        have hmem : c ∈ full_name := by
          have hsub := (List.dropWhile_sublist (fun c => !isSeparator c)
            (l := full_name.reverse)).subset
          rw [hcons] at hsub
          exact List.mem_reverse.1 (hsub List.mem_cons_self)
        have hsep := (eq_of_dropWhile_eq_cons hcons).2
        rw [h c hmem] at hsep
        exact absurd hsep (by simp)

/-- A target is accepted iff it has a parenthesis and a name in front of it, and its signature is the
    text from that parenthesis on. -/
theorem parseMethodSpec_cases (spec : List Char) :
    (parseMethodSpec spec = none ∧ ¬ ('(' ∈ targetText spec ∧ HasName spec)) ∨
      ∃ target, parseMethodSpec spec = some target ∧ '(' ∈ targetText spec ∧ HasName spec ∧
        target.sig = (targetText spec).dropWhile (· ≠ '(') := by
  cases harrow : splitArrow (trim spec) with
  | some parts =>
    obtain ⟨front, rest⟩ := parts
    simp only [parseMethodSpec, targetText, HasName, harrow]
    by_cases hparen : '(' ∈ rest
    · rw [if_neg (not_not.2 hparen)]
      exact Or.inr ⟨_, rfl, hparen, Or.inl (by simp), rfl⟩
    · rw [if_pos hparen]
      exact Or.inl ⟨rfl, fun h => hparen h.1⟩
  | none =>
    simp only [parseMethodSpec, targetText, HasName, harrow]
    by_cases hparen : '(' ∈ trim spec
    · rw [if_neg (not_not.2 hparen)]
      cases hlast : splitLast ((trim spec).takeWhile (· ≠ '(')) with
      | none =>
        refine Or.inl ⟨rfl, ?_⟩
        rintro ⟨-, hname | ⟨c, hc, hsep⟩⟩
        · exact hname rfl
        · rw [(splitLast_eq_none_iff _).1 hlast c hc] at hsep
          exact absurd hsep (by simp)
      | some parts =>
        refine Or.inr ⟨_, rfl, hparen, Or.inr ?_, rfl⟩
        by_contra hnone
        have hno : splitLast ((trim spec).takeWhile (· ≠ '(')) = none := by
          rw [splitLast_eq_none_iff]
          intro c hc
          exact Bool.eq_false_iff.2 (fun hsep => hnone ⟨c, hc, hsep⟩)
        exact absurd (hlast.symm.trans hno) (by simp)
    · rw [if_pos hparen]
      exact Or.inl ⟨rfl, fun h => hparen h.1⟩

theorem exists_parseSignature_iff (s : List Char) :
    (∃ sig, parseSignature s = some sig) ↔
      ∃ sig : Signature, (∀ t ∈ sig.ret :: sig.params, Readable t) ∧ s = describe sig := by
  constructor
  · rintro ⟨sig, hsig⟩
    obtain ⟨hall, hret, hs⟩ := parseSignature_eq_some_iff.1 hsig
    exact ⟨sig, List.forall_mem_cons.2 ⟨hret, hall⟩, hs⟩
  · rintro ⟨sig, hall, hs⟩
    obtain ⟨hret, hparams⟩ := List.forall_mem_cons.1 hall
    exact ⟨sig, parseSignature_eq_some_iff.2 ⟨hparams, hret, hs⟩⟩

theorem specEncodable_iff (spec : List Char) : SpecEncodable spec ↔ Encodes spec := by
  unfold SpecEncodable Encodes
  rcases parseMethodSpec_cases spec with ⟨hnone, hnot⟩ | ⟨target, hsome, hparen, hname, hsig⟩
  · rw [hnone]
    constructor
    · exact fun _ hparen hname => absurd ⟨hparen, hname⟩ hnot
    · exact fun _ target h => absurd h (by simp)
  · rw [hsome, ← hsig, ← exists_parseSignature_iff]
    constructor
    · exact fun h _ _ => h target rfl
    · rintro h target' htarget
      obtain rfl := Option.some.inj htarget
      exact h hparen hname

/-! ## Linking -/

theorem Builder.proto_fst (b : Builder) (signature : List Char) :
    (b.proto signature).1 = parseSignature signature := by
  unfold Builder.proto
  split
  · next p hp => exact (b.parsed signature p hp).symm
  · split
    · next hnone => exact hnone.symm
    · next p hsome => exact hsome.symm

theorem Builder.getMethod_isSome_iff (b : Builder) (parent name sig : List Char) :
    (b.getMethod parent name sig).isSome ↔ ∃ p, parseSignature sig = some p := by
  unfold Builder.getMethod Builder.methodDecl
  rw [b.proto_fst]
  cases parseSignature sig with
  | none => simp
  | some p =>
    simp only
    split <;> simp

theorem linkOperand_isSome_iff (b : Builder) (op : SymbolicOperand) :
    (linkOperand b op).isSome ↔
      ∀ sig ∈ op.methodSig, ∃ p, parseSignature sig = some p := by
  cases op with
  | method strVal extraType extraSig =>
    simp only [linkOperand, Option.isSome_map, Builder.getMethod_isSome_iff,
      SymbolicOperand.methodSig, Option.mem_some_iff, forall_eq']
  | _ => simp [linkOperand, SymbolicOperand.methodSig]

theorem linkInstruction_isSome_iff (b : Builder) (si : SymbolicInstruction) :
    (linkInstruction b si).isSome ↔ ∀ sig ∈ si.methodSigs, ∃ p, parseSignature sig = some p := by
  cases si with
  | bytecode opcode operands =>
    unfold linkInstruction SymbolicInstruction.methodSigs
    rw [foldlM_isSome_iff linkOperand_isSome_iff]
    constructor
    · intro h sig hsig
      obtain ⟨op, hop, heq⟩ := List.mem_filterMap.1 hsig
      exact h op hop sig heq
    · exact fun h op hop sig hsig => h sig (List.mem_filterMap.2 ⟨op, hop, hsig⟩)
  | _ => simp [linkInstruction, SymbolicInstruction.methodSigs]

/-- The registers of an invoke pass the test of `PutInvokeInternal`. -/
def Call.Fits : Call → Prop
  | .invoke _ _ regs => regs.length ≤ 5 ∧ ∀ r ∈ regs, r ≤ 15
  | .put _ _ => True

/-- The text of the target, if there is one, is one that can be encoded. -/
def Call.Encodes : Call → Prop
  | .invoke _ method_sig _ => Dex.Encodes method_sig
  | .put _ _ => True

theorem mem_instructions_call (w : Written) (c : Call) (si : SymbolicInstruction) :
    si ∈ (w.call c).instructions ↔ si ∈ w.instructions ∨ si ∈ (Written.call ⟨[], 0⟩ c).instructions := by
  cases c with
  | put si' h => simp [Written.call]
  | invoke opcode method_sig regs =>
    simp only [Written.call, putInvokeInternal]
    split_ifs
    · simp
    · simp
    · cases parseMethodSpec method_sig <;> simp

/-- The instruction of one call links iff the call does not fit or its target encodes. -/
theorem forall_methodSigs_call_iff (c : Call) :
    (∀ si ∈ (Written.call ⟨[], 0⟩ c).instructions, ∀ sig ∈ si.methodSigs,
        ∃ p, parseSignature sig = some p) ↔ (c.Fits → c.Encodes) := by
  cases c with
  | put si h => simp [Written.call, h, Call.Encodes]
  | invoke opcode method_sig regs =>
    simp only [Call.Fits, Call.Encodes, ← specEncodable_iff, Written.call, putInvokeInternal]
    split_ifs with hlen hregs
    · exact ⟨fun _ hfits => absurd hfits.1 (by omega), fun _ _ h => absurd h (by simp)⟩
    · obtain ⟨r, hr, hgt⟩ := List.any_eq_true.1 hregs
      have hgt : r > 15 := by simpa using hgt
      exact ⟨fun _ hfits => absurd (hfits.2 r hr) (UInt32.not_le.2 hgt),
        fun _ _ h => absurd h (by simp)⟩
    · have hfits : regs.length ≤ 5 ∧ ∀ r ∈ regs, r ≤ 15 := by
        refine ⟨by omega, fun r hr => UInt32.not_lt.1 (fun hgt => hregs ?_)⟩
        exact List.any_eq_true.2 ⟨r, hr, by simpa using hgt⟩
      unfold SpecEncodable
      cases parseMethodSpec method_sig with
      | none => simp
      | some m =>
        simp [hfits.1, eq_true hfits.2, SymbolicInstruction.methodSigs,
          SymbolicOperand.methodSig, String.toList_ofList]

theorem mem_instructions_foldl (calls : List Call) (w : Written) (si : SymbolicInstruction) :
    si ∈ (calls.foldl Written.call w).instructions ↔
      si ∈ w.instructions ∨ ∃ c ∈ calls, si ∈ (Written.call ⟨[], 0⟩ c).instructions := by
  induction calls generalizing w with
  | nil => simp
  | cons c calls ih =>
    rw [List.foldl_cons, ih, mem_instructions_call, or_assoc]
    simp

theorem linked_isSome_iff (b : Builder) (calls : List Call) :
    ((written calls).instructions.foldlM linkInstruction b).isSome ↔
      ∀ c ∈ calls, c.Fits → c.Encodes := by
  rw [foldlM_isSome_iff linkInstruction_isSome_iff]
  unfold written
  constructor
  · intro h c hc
    refine (forall_methodSigs_call_iff c).1 (fun si hsi => h si ?_)
    exact (mem_instructions_foldl calls _ si).2 (Or.inr ⟨c, hc, hsi⟩)
  · intro h si hsi
    rcases (mem_instructions_foldl calls _ si).1 hsi with hnil | ⟨c, hc, hsi⟩
    · exact absurd hnil (by simp)
    · exact (forall_methodSigs_call_iff c).2 (h c hc) si hsi

/-- A text that is accepted as a target gives a signature that parses iff it encodes; and whatever
    calls built the instruction list, and whatever the builder has declared already, no null pointer
    is read iff the list is refused before anything is emitted or the target of every invoke in it
    encodes. -/
theorem encodable_iff (spec : List Char) (ctx : SymbolicOperand → Nat) (b : Builder)
    (registers : UInt16) (calls : List Call) :
    (SpecEncodable spec ↔ Encodes spec) ∧
      (assembleWith ctx b ⟨registers, (written calls).instructions⟩ ≠ .nullProto ↔
        (∃ e, checkWriter ⟨registers, (written calls).instructions⟩ = .error e) ∨
          ∀ c ∈ calls, c.Fits → c.Encodes) := by
  refine ⟨specEncodable_iff spec, ?_⟩
  rw [← linked_isSome_iff b calls]
  unfold assembleWith
  cases checkWriter ⟨registers, (written calls).instructions⟩ with
  | error e => simp
  | ok u =>
    simp only
    cases (written calls).instructions.foldlM linkInstruction b with
    | none => simp
    | some b' => simp

/-- A builder that has declared nothing. -/
def Builder.empty : Builder := ⟨fun _ => none, fun _ => none, 0, fun _ _ h => absurd h (by simp)⟩

/-- `La;->m(x`. -/
def openSpec : List Char := ['L', 'a', ';', '-', '>', 'm', '(', 'x']

/-- An `invoke-static` of it, and a return. -/
def openCalls : List Call :=
  [.invoke OP_INVOKE_STATIC openSpec [], .put (.bytecode OP_RETURN_VOID []) rfl]

/-- The text is accepted with the signature `(x`, which does not parse, and assembling the invoke reads
    a null pointer. -/
theorem openSpec_not_encodable :
    ¬ SpecEncodable openSpec ∧
      assembleWith (fun _ => 0) Builder.empty ⟨1, (written openCalls).instructions⟩ = .nullProto := by
  have hparse : ∃ parent, parseMethodSpec openSpec = some ⟨parent, ['m'], ['(', 'x']⟩ :=
    ⟨normalizeType ['L', 'a', ';'], rfl⟩
  obtain ⟨parent, hparse⟩ := hparse
  have hnone : parseSignature ['(', 'x'] = none := rfl
  refine ⟨fun h => ?_, ?_⟩
  · obtain ⟨sig, hsig⟩ := h _ hparse
    exact absurd (hnone.symm.trans hsig) (by simp)
  · have hwritten : (written openCalls).instructions =
        [.bytecode OP_INVOKE_STATIC [.vregList [], .method (String.ofList parent)
            (String.ofList ['m']) (String.ofList ['(', 'x'])],
          .bytecode OP_RETURN_VOID []] := by
      simp [written, openCalls, Written.call, putInvokeInternal, hparse]
    have hlink : (written openCalls).instructions.foldlM linkInstruction Builder.empty = none := by
      rw [← Option.not_isSome_iff_eq_none, foldlM_isSome_iff linkInstruction_isSome_iff, hwritten]
      intro h
      obtain ⟨p, hp⟩ := h _ List.mem_cons_self ['(', 'x']
        (by simp [SymbolicInstruction.methodSigs, SymbolicOperand.methodSig])
      exact absurd (hnone.symm.trans hp) (by simp)
    have hcheck : checkWriter ⟨1, (written openCalls).instructions⟩ = .ok () := by
      rw [hwritten]
      rfl
    unfold assembleWith
    rw [hcheck]
    simp only [hlink]

end ArtPi.Dex
