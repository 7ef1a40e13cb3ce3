import ArtPi.Dex.Invoke
import ArtPi.Interp.Constants

set_option autoImplicit false

/-! # The smali parser (`src/dex/pi_dex_writer.cpp`)

`EmitSmali` reads a text line by line, cuts each line into tokens and appends an instruction, places a label or sets
the register count. The first line it cannot read ends the call, with an error that names the line.

The branches for the instructions differ in what their operands are and in the opcode; they are the rows of a table
here. Texts are ASCII. -/

namespace ArtPi.Dex.Smali

open Interp Interp.Constants

/-! ## Numbers -/

def digitValue (c : Char) : Nat :=
  if c.isDigit then c.toNat - '0'.toNat
  else if 'a' ≤ c ∧ c ≤ 'f' then c.toNat - 'a'.toNat + 10
  else c.toNat - 'A'.toNat + 10

def isHexDigit (c : Char) : Bool := c.isDigit || ('a' ≤ c && c ≤ 'f') || ('A' ≤ c && c ≤ 'F')

def ofDigits (base : Nat) (ds : List Char) : Nat := ds.foldl (fun n c => n * base + digitValue c) 0

/-- A number is cut at the ends of `long long`. -/
def clampLong (v : Int) : Int := max (-2 ^ 63) (min v (2 ^ 63 - 1))

/-- `strtoll(s, nullptr, 10)` -/
def strtollDecimal (s : List Char) : Int :=
  match s.dropWhile isSpace with
  | [] => 0
  | c :: rest =>
    if c = '-' then clampLong (-(ofDigits 10 (rest.takeWhile Char.isDigit) : Int))
    else if c = '+' then clampLong (ofDigits 10 (rest.takeWhile Char.isDigit))
    else clampLong (ofDigits 10 ((c :: rest).takeWhile Char.isDigit))

/-- `atoi`, which is `strtol` cut to an `int`. -/
def atoi (s : List Char) : Int := (Int32.ofInt (strtollDecimal s)).toInt

/-- `ParseLiteral` -/
def parseLiteral (token : List Char) : Int :=
  let s := trim token
  if s.length > 2 ∧ (s.take 2 = ['0', 'x'] ∨ s.take 2 = ['0', 'X']) then
    clampLong (ofDigits 16 ((s.drop 2).takeWhile isHexDigit))
  else strtollDecimal s

/-- `ParseRegister`: -1 for what is no register. -/
def parseRegister (token : List Char) (totalRegs insRegs : UInt16) : Int :=
  match token with
  | [] => -1
  | c :: rest =>
    if c ∉ ['v', 'p', 'V', 'P'] then -1
    else
      let num := atoi rest
      if num < 0 then -1
      else if c = 'v' ∨ c = 'V' then num
      -- the register of p0 is total - ins
      else (Int32.ofInt ((totalRegs.toNat - insRegs.toNat : Nat) + num)).toInt

/-! ## Tokens -/

/-- The quotation mark and the backslash. -/
def quote : Char := Char.ofNat 0x22
def backslash : Char := Char.ofNat 0x5c

def unescape (c : Char) : Char :=
  if c = 'n' then '\n' else if c = 'r' then '\r' else if c = 't' then '\t' else c

/-- A token that has been collected, if there is one. -/
def flush (cur : List Char) (tokens : List (List Char)) : List (List Char) :=
  if cur = [] then tokens else cur :: tokens

/-- The loop of `TokenizeLine`. -/
def tokenizeFrom (inQuote escaped : Bool) (cur : List Char) : List Char → List (List Char)
  | [] => flush cur []
  | c :: rest =>
    if inQuote = true then
      if escaped = true then tokenizeFrom true false (cur ++ [unescape c]) rest
      else if c = backslash then tokenizeFrom true true cur rest
      else if c = quote then cur :: tokenizeFrom false false [] rest
      else tokenizeFrom true false (cur ++ [c]) rest
    else if c = '#' then flush cur []
    else if c = quote then tokenizeFrom true false cur rest
    else if isSpace c = true ∨ c = ',' then flush cur (tokenizeFrom false false [] rest)
    else if c = '{' ∨ c = '}' then flush cur ([c] :: tokenizeFrom false false [] rest)
    else tokenizeFrom false false (cur ++ [c]) rest

def tokenizeLine (line : List Char) : List (List Char) := tokenizeFrom false false [] line

/-- The lines that `std::getline` gives. -/
def getLines : List Char → List (List Char)
  | [] => []
  | c :: rest =>
    if c = '\n' then [] :: getLines rest
    else
      match getLines rest with
      | [] => [[c]]
      | line :: lines => (c :: line) :: lines

/-! ## The writer -/

/-- `Writer` with all its fields. `SetRegisters` keeps the total at least as large as the ins. -/
structure Writer extends Dex.Writer where
  ins : UInt16
  outs : UInt16
  nextLabelId : Int
  namedLabels : List (List Char × Int)
  ins_le : ins ≤ registers

/-- `SetRegisters` with the ins and the outs it has. -/
def Writer.setRegisters (w : Writer) (total : UInt16) : Writer :=
  { w with
    registers := if total < w.ins then w.ins else total
    ins_le := by
      split
      · exact UInt16.le_refl _
      · rename_i h
        exact UInt16.not_lt.mp h }

def Writer.append (w : Writer) (i : SymbolicInstruction) : Writer :=
  { w with instructions := w.instructions ++ [i] }

/-- `getOrCreateNamedLabel` -/
def Writer.getOrCreateNamedLabel (w : Writer) (name : List Char) : Writer × Int :=
  let n := if name.head? = some ':' then name.tail else name
  match w.namedLabels.lookup n with
  | some id => (w, id)
  | none =>
    ({ w with nextLabelId := w.nextLabelId + 1, namedLabels := (n, w.nextLabelId) :: w.namedLabels },
      w.nextLabelId)

/-- `s.find_last_of(':')` -/
def splitColon (s : List Char) : Option (List Char × List Char) :=
  match s.reverse.dropWhile (· ≠ ':') with
  | [] => none
  | _ :: front => some (front.reverse, (s.reverse.takeWhile (· ≠ ':')).reverse)

/-- `ParseFieldSpec`: the parent, the name and the type. -/
def parseFieldSpec (raw : List Char) : Option (List Char × List Char × List Char) :=
  match splitColon (trim raw) with
  | none => none
  | some (front, type) =>
    match splitArrow front with
    | some (parent, name) => some (normalizeType parent, name, normalizeType type)
    | none =>
      match splitLast front with
      | none => none
      | some (parent, name) => some (normalizeType parent, name, normalizeType type)

/-! ## The instructions -/

/-- What a branch makes of a token: a register, which some branches check, a literal, a text, a type, a field or a
label. -/
inductive Form where
  | register (checked : Bool)
  | literal
  | text
  | type
  | field
  | label
  deriving DecidableEq

/-- A branch: the operands it reads from the tokens behind the first, and the instruction it puts. -/
structure Row where
  forms : List Form
  instruction : List SymbolicOperand → SymbolicInstruction

def checkedReg : Form := .register true
def anyReg : Form := .register false

def insn (opcode : Opcode) (forms : List Form) : Row := ⟨forms, .bytecode opcode⟩

/-- The opcode `PutConst4` chooses. -/
def putConst4Op (reg : UInt32) (val : Int32) : Opcode :=
  if reg > 15 ∨ val < -8 ∨ val > 7 then putConstOp reg val else OP_CONST_4

/-- The opcode `PutConst16` chooses. -/
def putConst16Op (reg : UInt32) (val : Int32) : Opcode :=
  if reg > 255 ∨ val < -32768 ∨ val > 32767 then putConstOp reg val else OP_CONST_16

def constRow (op : UInt32 → Int32 → Opcode) : Row :=
  ⟨[checkedReg, .literal], fun operands =>
    match operands with
    | [.vreg r, .const32 v] => constInsn (op r v) r v
    | _ => .bytecode OP_CONST operands⟩

/-- `PutMove` and `PutMoveObject` choose among three opcodes in a row. -/
def moveRow (narrow from16 wide : Opcode) : Row :=
  ⟨[checkedReg, checkedReg], fun operands =>
    match operands with
    | [.vreg dst, .vreg src] =>
      if dst ≤ 15 ∧ src ≤ 15 then .bytecode narrow operands
      else if dst ≤ 255 ∧ src ≤ 65535 then .bytecode from16 operands
      else .bytecode wide operands
    | _ => .bytecode wide operands⟩

def binaryRow (opcode : Opcode) : Row := insn opcode [checkedReg, checkedReg, checkedReg]

/-- The branches of `EmitSmali` but that for the invokes. -/
def rows : List (String × Row) :=
  [("return-void", insn OP_RETURN_VOID []), ("return", insn OP_RETURN [checkedReg]),
   ("return-object", insn 0x11 [checkedReg]),
   ("const/4", constRow putConst4Op), ("const/16", constRow putConst16Op), ("const", constRow putConstOp),
   ("const-string", insn 0x1a [checkedReg, .text]), ("const-class", insn 0x1c [checkedReg, .type]),
   ("move", moveRow 0x01 0x02 0x03), ("move-object", moveRow 0x07 0x08 0x09),
   ("move-result", insn 0x0a [checkedReg]), ("move-result-object", insn 0x0c [checkedReg]),
   ("goto", insn OP_GOTO [.label]),
   ("if-eqz", insn 0x38 [anyReg, .label]), ("if-nez", insn 0x39 [anyReg, .label]),
   ("if-eq", insn 0x32 [anyReg, anyReg, .label]), ("if-ne", insn 0x33 [anyReg, anyReg, .label]),
   ("if-ltz", insn 0x3a [anyReg, .label]), ("if-gez", insn 0x3b [anyReg, .label]),
   ("if-gtz", insn 0x3c [anyReg, .label]), ("if-lez", insn 0x3d [anyReg, .label]),
   ("if-lt", insn 0x34 [anyReg, anyReg, .label]), ("if-ge", insn 0x35 [anyReg, anyReg, .label]),
   ("if-gt", insn 0x36 [anyReg, anyReg, .label]), ("if-le", insn 0x37 [anyReg, anyReg, .label]),
   ("new-instance", insn 0x22 [anyReg, .type]), ("check-cast", insn 0x1f [anyReg, .type]),
   ("instance-of", insn 0x20 [anyReg, anyReg, .type]),
   ("iget", insn 0x52 [anyReg, anyReg, .field]), ("iput", insn 0x59 [anyReg, anyReg, .field]),
   ("iget-object", insn 0x54 [anyReg, anyReg, .field]), ("iput-object", insn 0x5b [anyReg, anyReg, .field]),
   ("iget-boolean", insn 0x55 [anyReg, anyReg, .field]), ("iput-boolean", insn 0x5c [anyReg, anyReg, .field]),
   ("sget", insn 0x60 [anyReg, .field]), ("sput", insn 0x67 [anyReg, .field]),
   ("sget-object", insn 0x62 [anyReg, .field]), ("sput-object", insn 0x69 [anyReg, .field]),
   ("throw", insn OP_THROW [anyReg]), ("nop", ⟨[], fun _ => .nop⟩),
   ("add-int", binaryRow 0x90), ("sub-int", binaryRow 0x91), ("mul-int", binaryRow 0x92),
   ("div-int", binaryRow 0x93), ("rem-int", binaryRow 0x94), ("and-int", binaryRow 0x95),
   ("or-int", binaryRow 0x96), ("xor-int", binaryRow 0x97), ("shl-int", binaryRow 0x98),
   ("shr-int", binaryRow 0x99), ("ushr-int", binaryRow 0x9a)]

def rowOf (op : List Char) : Option Row := rows.lookup (String.ofList op)

/-- The five invokes. -/
def invokeOps : List (String × Opcode) :=
  [("invoke-virtual", OP_INVOKE_VIRTUAL), ("invoke-direct", OP_INVOKE_DIRECT), ("invoke-static", OP_INVOKE_STATIC),
   ("invoke-super", OP_INVOKE_SUPER), ("invoke-interface", OP_INVOKE_INTERFACE)]

/-- The detail of an error where a `Put` function returns false. -/
def putFailed (op : List Char) : String :=
  "failed to encode opcode '" ++ String.ofList op ++ "' (check operands and register range)"

/-- One operand. A register that is no register has no detail in the error. -/
def readOperand (w : Writer) (op : List Char) (token : List Char) : Form → Writer × Except String SymbolicOperand
  | .register checked =>
    let r := parseRegister token w.registers w.ins
    (w, if checked = true ∧ r < 0 then .error "" else .ok (.vreg (UInt32.ofInt r)))
  | .literal => (w, .ok (.const32 (Int32.ofInt (parseLiteral token))))
  | .text => (w, .ok (.string (String.ofList token)))
  | .type => (w, .ok (.type (String.ofList (normalizeType token))))
  | .field =>
    (w, match parseFieldSpec token with
      | none => .error (putFailed op)
      | some (parent, name, type) =>
        .ok (.field (String.ofList parent) (String.ofList name) (String.ofList type)))
  | .label =>
    let r := w.getOrCreateNamedLabel token
    (r.1, .ok (.labelTarget r.2))

/-- The operands of a row, from as many tokens. -/
def readOperands (w : Writer) (op : List Char) :
    List Form → List (List Char) → Writer × Except String (List SymbolicOperand)
  | [], _ => (w, .ok [])
  | _ :: _, [] => (w, .error "")
  | form :: forms, token :: args =>
    match readOperand w op token form with
    | (w, .error detail) => (w, .error detail)
    | (w, .ok operand) =>
      match readOperands w op forms args with
      | (w, .error detail) => (w, .error detail)
      | (w, .ok operands) => (w, .ok (operand :: operands))

/-- The register list of an invoke, and the tokens behind it. What is no register is passed over. -/
def readList (w : Writer) (args : List (List Char)) : List UInt32 × List (List Char) :=
  if args.head? = some ['{'] then
    (((args.tail.takeWhile (· ≠ ['}'])).map (fun t => parseRegister t w.registers w.ins)).filterMap
        (fun r => if r < 0 then none else some (UInt32.ofInt r)),
      (args.tail.dropWhile (· ≠ ['}'])).tail)
  else ([], args)

/-- The branch for the invokes. -/
def emitInvoke (w : Writer) (op : List Char) (args : List (List Char)) : Writer × Option String :=
  let regs := (readList w args).1
  if regs.length > 5 then
    (w, some ("invoke register list exceeds DEX limit of 5 (got " ++ toString regs.length ++ ")"))
  else
    match (readList w args).2 with
    | [] => (w, some "missing target method in invoke instruction")
    | meth :: _ =>
      match invokeOps.lookup (String.ofList op) with
      | none => (w, some ("unsupported invoke opcode: " ++ String.ofList op))
      | some opcode =>
        match putInvokeInternal ⟨w.instructions, w.outs⟩ opcode meth regs with
        | none =>
          (w, some ("failed to encode " ++ String.ofList op ++ " (invalid signature or registers)"))
        | some written => ({ w with instructions := written.instructions, outs := written.outs }, none)

def isInvokeOp (op : List Char) : Bool := "invoke-".toList.isPrefixOf op

def emitInsn (w : Writer) (op : List Char) (args : List (List Char)) : Writer × Option String :=
  match rowOf op with
  | some row =>
    if args.length < row.forms.length then (w, some "")
    else
      match readOperands w op row.forms args with
      | (w, .error detail) => (w, some detail)
      | (w, .ok operands) => (w.append (row.instruction operands), none)
  | none =>
    if isInvokeOp op = true then emitInvoke w op args
    else (w, some ("unrecognized or unsupported opcode '" ++ String.ofList op ++ "'"))

/-- The register count that a directive asks for. -/
def setting (w : Writer) (op : List Char) (args : List (List Char)) : Option UInt16 :=
  args.head?.map (fun n =>
    if op = ".registers".toList then UInt16.ofInt (parseLiteral n) else UInt16.ofInt (parseLiteral n) + w.ins)

def isDirective (op : List Char) : Bool := op = ".registers".toList || op = ".locals".toList

/-- One line: the writer, and the detail of the error if there is one. -/
def emitLine (w : Writer) (raw : List Char) : Writer × Option String :=
  match tokenizeLine raw with
  | [] => (w, none)
  | op :: args =>
    if isDirective op = true then
      match setting w op args with
      | none => (w, none)
      | some total => (w.setRegisters total, none)
    else if op.head? = some ':' then
      let r := w.getOrCreateNamedLabel op
      (r.1.append (.label r.2), none)
    else emitInsn w op args

/-- The text of an error. -/
def message (line : Nat) (raw : List Char) (detail : String) : String :=
  "Smali syntax error at line " ++ toString line ++ ": " ++ String.ofList raw ++
    if detail = "" then "" else " (" ++ detail ++ ")"

/-- The loop over the lines, behind the first `n`. -/
def emitLines (w : Writer) (n : Nat) : List (List Char) → Writer × Option String
  | [] => (w, none)
  | raw :: lines =>
    match emitLine w raw with
    | (w, none) => emitLines w (n + 1) lines
    | (w, some detail) => (w, some (message (n + 1) raw detail))

/-- `EmitSmali`: the writer behind the call, and the error. -/
def emitSmali (w : Writer) (smali_code : List Char) : Writer × Option String := emitLines w 0 (getLines smali_code)

/-! ## One line -/

/-- A label is read last. -/
def labelLast : List Form → Bool
  | [] => true
  | .label :: forms => forms.isEmpty
  | _ :: forms => labelLast forms

theorem labelLast_of_rowOf {op : List Char} {row : Row} (h : rowOf op = some row) : labelLast row.forms = true := by
  have hall : ∀ p ∈ rows, labelLast p.2.forms = true := by decide
  obtain ⟨front, back, hrows, -⟩ := List.lookup_eq_some_iff.mp h
  exact hall (String.ofList op, row) (by rw [hrows]; simp)

theorem readOperand_writer (w : Writer) (op token : List Char) {form : Form} (h : form ≠ .label) :
    (readOperand w op token form).1 = w := by
  cases form with
  | label => exact absurd rfl h
  | register checked | literal | text | type | field => rfl

theorem readOperands_error {forms : List Form} {args : List (List Char)} {w w' : Writer} {op : List Char}
    {detail : String} (hlast : labelLast forms = true) (h : readOperands w op forms args = (w', .error detail)) :
    w' = w := by
  induction forms generalizing args w detail with
  | nil => exact absurd h (by simp [readOperands])
  | cons form forms ih =>
    cases args with
    | nil =>
      rw [readOperands] at h
      exact (Prod.mk.inj h).1.symm
    | cons token args =>
      rw [readOperands] at h
      by_cases hform : form = .label
      · -- the label was the last operand, and it can be read
        subst hform
        obtain rfl : forms = [] := by simpa [labelLast] using hlast
        exact absurd h (by simp [readOperand, readOperands])
      · have hlast' : labelLast forms = true := by
          cases form with
          | label => exact absurd rfl hform
          | register checked | literal | text | type | field => exact hlast
        have hw := readOperand_writer w op token hform
        cases hread : readOperand w op token form with
        | mk w₁ r =>
          rw [hread] at h hw
          obtain rfl : w₁ = w := hw
          cases r with
          | error d => exact (Prod.mk.inj h).1.symm
          | ok operand =>
            simp only at h
            cases hrest : readOperands w₁ op forms args with
            | mk w₂ r =>
              rw [hrest] at h
              cases r with
              | error d =>
                obtain rfl : w₂ = w' := (Prod.mk.inj h).1
                exact ih hlast' hrest
              | ok operands => exact absurd h (by simp)

/-- A token that does not read as an operand of that form. -/
def Unreadable (w : Writer) (token : List Char) : Form → Prop
  | .register checked => checked = true ∧ parseRegister token w.registers w.ins < 0
  | .field => parseFieldSpec token = none
  | .literal | .text | .type | .label => False

theorem readOperand_error_iff (w : Writer) (op token : List Char) (form : Form) :
    (∃ detail, (readOperand w op token form).2 = .error detail) ↔ Unreadable w token form := by
  cases form with
  | register checked =>
    simp only [readOperand, Unreadable]
    split <;> simp_all
  | field =>
    simp only [readOperand, Unreadable]
    cases parseFieldSpec token <;> simp
  | literal | text | type | label => simp [readOperand, Unreadable]

theorem readOperands_error_iff {forms : List Form} {args : List (List Char)} {w : Writer} {op : List Char}
    (hlast : labelLast forms = true) (hlen : forms.length ≤ args.length) :
    (∃ detail, (readOperands w op forms args).2 = .error detail) ↔
      ∃ p ∈ forms.zip args, Unreadable w p.2 p.1 := by
  induction forms generalizing args with
  | nil => simp [readOperands]
  | cons form forms ih =>
    cases args with
    | nil => exact absurd hlen (by simp)
    | cons token args =>
      rw [List.zip_cons_cons, List.exists_mem_cons_iff, ← readOperand_error_iff w op, readOperands]
      by_cases hform : form = .label
      · subst hform
        obtain rfl : forms = [] := by simpa [labelLast] using hlast
        simp [readOperand, readOperands]
      · have hlast' : labelLast forms = true := by
          cases form with
          | label => exact absurd rfl hform
          | register checked | literal | text | type | field => exact hlast
        have hw := readOperand_writer w op token hform
        rw [← ih hlast' (Nat.le_of_succ_le_succ hlen)]
        cases hread : readOperand w op token form with
        | mk w₁ r =>
          rw [hread] at hw
          obtain rfl : w₁ = w := hw
          cases r with
          | error d => simp
          | ok operand =>
            cases hrest : readOperands w₁ op forms args with
            | mk w₂ r => cases r <;> simp [hrest]

/-- The invoke is refused: it names too many registers, or one behind v15, or no target, or a target that does not
parse, or it is none of the five. -/
def InvokeRefused (w : Writer) (op : List Char) (args : List (List Char)) : Prop :=
  5 < (readList w args).1.length ∨ (∃ r ∈ (readList w args).1, 15 < r) ∨ (readList w args).2 = [] ∨
    (∃ meth ∈ (readList w args).2.head?, parseMethodSpec meth = none) ∨ invokeOps.lookup (String.ofList op) = none

theorem emitInvoke_cases (w : Writer) (op : List Char) (args : List (List Char)) :
    (InvokeRefused w op args ∧ ∃ detail, emitInvoke w op args = (w, some detail)) ∨
      (¬ InvokeRefused w op args ∧ ∃ w' opcode meth, emitInvoke w op args = (w', none) ∧
        w'.instructions = w.instructions ++ [.bytecode opcode [.vregList (readList w args).1, meth]]) := by
  unfold emitInvoke InvokeRefused
  by_cases hlen : (readList w args).1.length > 5
  · exact .inl ⟨.inl hlen, _, if_pos hlen⟩
  · cases hrest : (readList w args).2 with
    | nil => exact .inl ⟨.inr (.inr (.inl rfl)), _, by rw [if_neg hlen]⟩
    | cons meth rest =>
      cases hop : invokeOps.lookup (String.ofList op) with
      | none => exact .inl ⟨.inr (.inr (.inr (.inr rfl))), _, by rw [if_neg hlen]⟩
      | some opcode =>
        simp only [if_neg hlen, putInvokeInternal]
        by_cases hbig : (readList w args).1.any (· > 15) = true
        · have hexists : ∃ r ∈ (readList w args).1, 15 < r := by simpa using hbig
          exact .inl ⟨.inr (.inl hexists), _, by rw [if_pos hbig]⟩
        · rw [if_neg hbig]
          cases hmeth : parseMethodSpec meth with
          | none => exact .inl ⟨.inr (.inr (.inr (.inl ⟨meth, rfl, hmeth⟩))), _, rfl⟩
          | some m =>
            refine .inr ⟨?_, _, opcode, _, rfl, rfl⟩
            rintro (h | h | h | ⟨t, ht, hnone⟩ | h)
            · exact hlen h
            · exact hbig (by simpa using h)
            · exact absurd h (by simp)
            · obtain rfl : meth = t := by simpa using ht
              exact absurd hnone (by simp [hmeth])
            · exact absurd h (by simp)

/-! ## Atomicity -/

/-- The line is blank, a comment, or a directive. -/
def quiet (raw : List Char) : Bool :=
  match tokenizeLine raw with
  | [] => true
  | op :: _ => isDirective op

/-- The register count that a quiet line asks for. -/
def lineSetting (w : Writer) (raw : List Char) : Option UInt16 :=
  match tokenizeLine raw with
  | [] => none
  | op :: args => setting w op args

/-- What a quiet line leaves of the writer. -/
def afterQuiet (w : Writer) (raw : List Char) : Writer :=
  match lineSetting w raw with
  | none => w
  | some total => w.setRegisters total

/-- The instruction is one that cannot be read: it has no instruction's name in front, or too few operands, or an
operand that does not read as what it should be. -/
def InsnRejected (w : Writer) (op : List Char) (args : List (List Char)) : Prop :=
  match rowOf op with
  | some row => args.length < row.forms.length ∨ ∃ p ∈ row.forms.zip args, Unreadable w p.2 p.1
  | none => isInvokeOp op = true → InvokeRefused w op args

def Rejected (w : Writer) (raw : List Char) : Prop :=
  ∃ op args, tokenizeLine raw = op :: args ∧ isDirective op = false ∧ op.head? ≠ some ':' ∧ InsnRejected w op args

theorem quiet_cons {raw op : List Char} {args : List (List Char)} (h : tokenizeLine raw = op :: args) :
    quiet raw = isDirective op := by
  unfold quiet
  rw [h]

theorem afterQuiet_instructions (w : Writer) (raw : List Char) :
    (afterQuiet w raw).instructions = w.instructions := by
  unfold afterQuiet
  split <;> rfl

theorem emitLine_quiet (w : Writer) {raw : List Char} (h : quiet raw = true) :
    emitLine w raw = (afterQuiet w raw, none) := by
  unfold quiet at h
  unfold emitLine afterQuiet lineSetting
  cases htokens : tokenizeLine raw with
  | nil => rfl
  | cons op args =>
    rw [htokens] at h
    simp only [if_pos h]
    cases setting w op args <;> rfl

theorem getOrCreateNamedLabel_instructions (w : Writer) (name : List Char) :
    (w.getOrCreateNamedLabel name).1.instructions = w.instructions := by
  unfold Writer.getOrCreateNamedLabel
  dsimp only
  split <;> rfl

theorem readOperand_instructions (w : Writer) (op token : List Char) (form : Form) :
    (readOperand w op token form).1.instructions = w.instructions := by
  cases form with
  | label => exact getOrCreateNamedLabel_instructions w token
  | register checked | literal | text | type | field => rfl

theorem readOperands_instructions (w : Writer) (op : List Char) (forms : List Form) (args : List (List Char)) :
    (readOperands w op forms args).1.instructions = w.instructions := by
  induction forms generalizing w args with
  | nil => rfl
  | cons form forms ih =>
    cases args with
    | nil => rfl
    | cons token args =>
      have hone := readOperand_instructions w op token form
      rw [readOperands]
      cases hread : readOperand w op token form with
      | mk w₁ r =>
        rw [hread] at hone
        cases r with
        | error d => exact hone
        | ok operand =>
          have hrest := ih w₁ args
          rw [hone] at hrest
          cases hreads : readOperands w₁ op forms args with
          | mk w₂ r =>
            rw [hreads] at hrest
            cases r <;> simpa only [hreads] using hrest

theorem emitInsn_cases (w : Writer) (op : List Char) (args : List (List Char)) :
    (InsnRejected w op args ∧ ∃ detail, emitInsn w op args = (w, some detail)) ∨
      (¬ InsnRejected w op args ∧
        ∃ w' i, emitInsn w op args = (w', none) ∧ w'.instructions = w.instructions ++ [i]) := by
  unfold emitInsn InsnRejected
  cases hrow : rowOf op with
  | none =>
    by_cases hinv : isInvokeOp op = true
    · simp only [hinv, if_true, true_imp_iff]
      rcases emitInvoke_cases w op args with ⟨hbad, hres⟩ | ⟨hok, w', opcode, meth, hres, hinsns⟩
      · exact .inl ⟨hbad, hres⟩
      · exact .inr ⟨hok, w', _, hres, hinsns⟩
    · exact .inl ⟨fun h => absurd h hinv, _, if_neg hinv⟩
  | some row =>
    by_cases hlen : args.length < row.forms.length
    · exact .inl ⟨.inl hlen, _, if_pos hlen⟩
    · have hlast := labelLast_of_rowOf hrow
      have hinsns := readOperands_instructions w op row.forms args
      have hiff := @readOperands_error_iff row.forms args w op hlast (Nat.le_of_not_lt hlen)
      simp only [hlen, if_false, false_or, ← hiff]
      cases hread : readOperands w op row.forms args with
      | mk w₁ r =>
        rw [hread] at hinsns
        cases r with
        | error detail =>
          obtain rfl := readOperands_error hlast hread
          exact .inl ⟨⟨detail, rfl⟩, detail, rfl⟩
        | ok operands =>
          refine .inr ⟨by simp, w₁.append (row.instruction operands), row.instruction operands, rfl, ?_⟩
          rw [← hinsns]
          rfl

/-- A line that is not quiet either cannot be read, and changes nothing, or puts one item on the list. -/
theorem emitLine_cases (w : Writer) {raw : List Char} (h : quiet raw = false) :
    (Rejected w raw ∧ ∃ detail, emitLine w raw = (w, some detail)) ∨
      (¬ Rejected w raw ∧ ∃ w' i, emitLine w raw = (w', none) ∧ w'.instructions = w.instructions ++ [i]) := by
  unfold emitLine Rejected
  cases htokens : tokenizeLine raw with
  | nil => exact absurd h (by simp [quiet, htokens])
  | cons op args =>
    have hdir : isDirective op = false := (quiet_cons htokens).symm.trans h
    simp only [hdir, Bool.false_eq_true, if_false]
    by_cases hlabel : op.head? = some ':'
    · refine .inr ⟨?_, (w.getOrCreateNamedLabel op).1.append (.label (w.getOrCreateNamedLabel op).2),
        .label (w.getOrCreateNamedLabel op).2, if_pos hlabel, ?_⟩
      · rintro ⟨op', args', htok, -, hne, -⟩
        obtain ⟨rfl, rfl⟩ := List.cons.inj htok
        exact hne hlabel
      · rw [← getOrCreateNamedLabel_instructions w op]
        rfl
    · rw [if_neg hlabel]
      rcases emitInsn_cases w op args with ⟨hbad, hres⟩ | ⟨hok, hres⟩
      · exact .inl ⟨⟨op, args, rfl, hdir, hlabel, hbad⟩, hres⟩
      · refine .inr ⟨?_, hres⟩
        rintro ⟨op', args', htok, -, -, hbad⟩
        obtain ⟨rfl, rfl⟩ := List.cons.inj htok
        exact hok hbad

theorem quiet_of_rejected {w : Writer} {raw : List Char} (h : Rejected w raw) : quiet raw = false := by
  obtain ⟨op, args, htokens, hdir, -⟩ := h
  rw [quiet_cons htokens, hdir]

/-- A line for which there is an error cannot be read, and changes nothing. -/
theorem emitLine_error {w w' : Writer} {raw : List Char} {detail : String}
    (h : emitLine w raw = (w', some detail)) : w' = w ∧ Rejected w raw := by
  cases hq : quiet raw with
  | true => exact absurd (h.symm.trans (emitLine_quiet w hq)) (by simp)
  | false =>
    rcases emitLine_cases w hq with ⟨hbad, d, hres⟩ | ⟨-, w₁, i, hres, -⟩
    · exact ⟨(Prod.mk.inj (h.symm.trans hres)).1, hbad⟩
    · exact absurd (h.symm.trans hres) (by simp)

/-- The last of the directives of these lines that has a count asks for the count the writer has. -/
def Neutral (w : Writer) (lines : List (List Char)) : Prop :=
  ∀ total ∈ (lines.filterMap (lineSetting w)).getLast?, (w.setRegisters total).registers = w.registers

/-- In front of the line that cannot be read there are only quiet lines, and they set the register count to what it
was. -/
def Unmoved (w : Writer) (lines : List (List Char)) : Prop :=
  ∃ pre bad post, lines = pre ++ bad :: post ∧ (∀ raw ∈ pre, quiet raw = true) ∧ Neutral w pre ∧ Rejected w bad

theorem setRegisters_setRegisters (w : Writer) (t t' : UInt16) :
    (w.setRegisters t).setRegisters t' = w.setRegisters t' := rfl

theorem setRegisters_eq_iff (w : Writer) (total : UInt16) :
    w.setRegisters total = w ↔ (w.setRegisters total).registers = w.registers := by
  constructor
  · intro h
    rw [h]
  · intro h
    cases w with
    | mk base ins outs nextLabelId namedLabels ins_le =>
      cases base
      simp only [Writer.setRegisters] at h ⊢
      simp only [h]

/-- Of the quiet lines only the last directive with a count matters. -/
theorem foldl_afterQuiet (w : Writer) (lines : List (List Char)) :
    lines.foldl afterQuiet w =
      match (lines.filterMap (lineSetting w)).getLast? with
      | none => w
      | some total => w.setRegisters total := by
  induction lines generalizing w with
  | nil => rfl
  | cons raw lines ih =>
    rw [List.foldl_cons, ih]
    cases hset : lineSetting w raw with
    | none =>
      have hafter : afterQuiet w raw = w := by
        unfold afterQuiet
        rw [hset]
      rw [hafter, List.filterMap_cons_none hset]
    | some total =>
      have hafter : afterQuiet w raw = w.setRegisters total := by
        unfold afterQuiet
        rw [hset]
      have hsame : lines.filterMap (lineSetting (w.setRegisters total)) = lines.filterMap (lineSetting w) := rfl
      rw [hafter, hsame, List.filterMap_cons_some hset, List.getLast?_cons]
      cases (lines.filterMap (lineSetting w)).getLast? with
      | none => rfl
      | some t => exact setRegisters_setRegisters w total t

theorem foldl_afterQuiet_eq_iff (w : Writer) (lines : List (List Char)) :
    lines.foldl afterQuiet w = w ↔ Neutral w lines := by
  rw [foldl_afterQuiet]
  unfold Neutral
  cases (lines.filterMap (lineSetting w)).getLast? with
  | none => simp
  | some total => simpa using setRegisters_eq_iff w total

theorem emitLines_quiet_append {pre : List (List Char)} (h : ∀ raw ∈ pre, quiet raw = true) (w : Writer) (n : Nat)
    (rest : List (List Char)) :
    emitLines w n (pre ++ rest) = emitLines (pre.foldl afterQuiet w) (n + pre.length) rest := by
  induction pre generalizing w n with
  | nil => rfl
  | cons raw pre ih =>
    rw [List.cons_append, emitLines, emitLine_quiet w (h raw List.mem_cons_self), List.foldl_cons, List.length_cons,
      ← Nat.add_assoc, Nat.add_right_comm]
    exact ih (fun l hl => h l (List.mem_cons_of_mem raw hl)) _ _

/-- A call that fails has read the lines in front of one that cannot be read. That one changes nothing, and the error
names it. -/
theorem emitLines_error {lines : List (List Char)} {w w' : Writer} {n : Nat} {m : String}
    (h : emitLines w n lines = (w', some m)) :
    ∃ pre bad post detail, lines = pre ++ bad :: post ∧ m = message (n + pre.length + 1) bad detail ∧
      emitLines w n pre = (w', none) ∧ emitLine w' bad = (w', some detail) ∧ Rejected w' bad := by
  induction lines generalizing w n with
  | nil => exact absurd h (by simp [emitLines])
  | cons raw lines ih =>
    rw [emitLines] at h
    cases hline : emitLine w raw with
    | mk w₁ r =>
      rw [hline] at h
      cases r with
      | none =>
        obtain ⟨pre, bad, post, detail, rfl, hm, hpre, hbad⟩ := ih h
        refine ⟨raw :: pre, bad, post, detail, rfl, ?_, ?_, hbad⟩
        · rw [hm, List.length_cons, Nat.add_right_comm n 1, Nat.add_assoc n]
        · rw [emitLines, hline]
          exact hpre
      | some detail =>
        obtain ⟨rfl, hm⟩ : w₁ = w' ∧ some (message (n + 1) raw detail) = some m := Prod.mk.inj h
        obtain ⟨rfl, hbad⟩ := emitLine_error hline
        exact ⟨[], raw, lines, detail, rfl, (Option.some.inj hm).symm, rfl, hline, hbad⟩

theorem emitLines_ok {lines : List (List Char)} {w w' : Writer} {n : Nat} (h : emitLines w n lines = (w', none)) :
    ∃ is, w'.instructions = w.instructions ++ is ∧
      (is = [] → (∀ raw ∈ lines, quiet raw = true) ∧ w' = lines.foldl afterQuiet w) := by
  induction lines generalizing w n with
  | nil =>
    obtain rfl : w = w' := (Prod.mk.inj h).1
    exact ⟨[], by simp, fun _ => ⟨by simp, rfl⟩⟩
  | cons raw lines ih =>
    rw [emitLines] at h
    cases hq : quiet raw with
    | true =>
      rw [emitLine_quiet w hq] at h
      obtain ⟨is, his, hnil⟩ := ih h
      rw [afterQuiet_instructions] at his
      refine ⟨is, his, fun hempty => ?_⟩
      obtain ⟨hquiet, hw'⟩ := hnil hempty
      exact ⟨List.forall_mem_cons.mpr ⟨hq, hquiet⟩, hw'⟩
    | false =>
      rcases emitLine_cases w hq with ⟨-, d, hres⟩ | ⟨-, w₁, i, hres, hinsns⟩
      · rw [hres] at h
        exact absurd h (by simp)
      · rw [hres] at h
        obtain ⟨is, his, -⟩ := ih h
        rw [hinsns, List.append_assoc] at his
        exact ⟨[i] ++ is, his, fun hempty => absurd hempty (by simp)⟩

/-- After a call that fails the writer is what it was exactly when nothing but quiet lines, which leave the register
count as it was, stands in front of the line that cannot be read. -/
theorem emitLines_unchanged_iff {w w' : Writer} {lines : List (List Char)} {n : Nat} {m : String}
    (h : emitLines w n lines = (w', some m)) : w' = w ↔ Unmoved w lines := by
  constructor
  · rintro rfl
    obtain ⟨pre, bad, post, -, hlines, -, hpre, -, hbad⟩ := emitLines_error h
    obtain ⟨is, his, hnil⟩ := emitLines_ok hpre
    obtain ⟨hquiet, hw⟩ := hnil (by simpa using his.symm)
    exact ⟨pre, bad, post, hlines, hquiet, (foldl_afterQuiet_eq_iff w' pre).mp hw.symm, hbad⟩
  · rintro ⟨pre, bad, post, rfl, hquiet, hneutral, hbad⟩
    rw [emitLines_quiet_append hquiet, (foldl_afterQuiet_eq_iff w pre).mpr hneutral, emitLines] at h
    rcases emitLine_cases w (quiet_of_rejected hbad) with ⟨-, d, hres⟩ | ⟨hok, -⟩
    · rw [hres] at h
      exact (Prod.mk.inj h).1.symm
    · exact absurd hbad hok

/-- A call that fails leaves the writer that the lines in front of the failing one make: that line, which the error
names, changes nothing. -/
theorem emitSmali_failure {w w' : Writer} {smali_code : List Char} {m : String}
    (h : emitSmali w smali_code = (w', some m)) :
    (∃ pre bad post detail, getLines smali_code = pre ++ bad :: post ∧ m = message (pre.length + 1) bad detail ∧
      emitLines w 0 pre = (w', none) ∧ emitLine w' bad = (w', some detail)) ∧
      (w' = w ↔ Unmoved w (getLines smali_code)) := by
  refine ⟨?_, emitLines_unchanged_iff h⟩
  obtain ⟨pre, bad, post, detail, hlines, hm, hpre, hbad, -⟩ := emitLines_error h
  exact ⟨pre, bad, post, detail, hlines, by rw [hm, Nat.zero_add], hpre, hbad⟩

/-- A new writer. -/
def fresh : Writer :=
  { registers := 4, instructions := [], ins := 1, outs := 4, nextLabelId := 1, namedLabels := [], ins_le := by decide }

/-- A comment, a directive that changes nothing, and a line that cannot be read. -/
def quietText : List Char := "# three locals\n.locals 3\nreturn x".toList

theorem emitSmali_eq {w : Writer} {smali_code : List Char} {m : String} (h : (emitSmali w smali_code).2 = some m) :
    emitSmali w smali_code = ((emitSmali w smali_code).1, some m) := by
  rw [← h]

theorem emitSmali_failure_quietText :
    ∃ w' m, emitSmali fresh quietText = (w', some m) ∧
      (∃ pre bad post detail, getLines quietText = pre ++ bad :: post ∧ m = message (pre.length + 1) bad detail ∧
        emitLines fresh 0 pre = (w', none) ∧ emitLine w' bad = (w', some detail)) ∧
      (w' = fresh ↔ Unmoved fresh (getLines quietText)) := by
  have hsome : (emitSmali fresh quietText).2.isSome = true := by decide
  obtain ⟨m, hm⟩ := Option.isSome_iff_exists.mp hsome
  exact ⟨_, m, emitSmali_eq hm, emitSmali_failure (emitSmali_eq hm)⟩

/-- A `nop` in front of a line that cannot be read. -/
def nopText : List Char := "nop\nreturn".toList

/-- There is no way back behind the lines that have been read. -/
theorem not_emitSmali_unchanged_nop :
    ¬ ∀ (w w' : Writer) (smali_code : List Char) (m : String), emitSmali w smali_code = (w', some m) → w' = w := by
  intro h
  have hsome : (emitSmali fresh nopText).2.isSome = true := by decide
  obtain ⟨m, hm⟩ := Option.isSome_iff_exists.mp hsome
  have hone : (emitSmali fresh nopText).1.instructions.length = 1 := by decide
  have hsame := h fresh _ nopText m (emitSmali_eq hm)
  rw [hsame] at hone
  exact absurd hone (by decide)

end ArtPi.Dex.Smali
