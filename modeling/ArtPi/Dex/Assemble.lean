import ArtPi.Dex.Opcode
import Mathlib.Logic.Function.Basic

set_option autoImplicit false

/-! # The Dalvik assembler (`src/dex/pi_dex_writer.cpp`, `slicer/bytecode_encoder.cc`)

`Writer::AssembleInto` checks an instruction list, turns it into LIR nodes and has the slicer's
`BytecodeEncoder` write the code units. Two passes compute offsets: the writer's own simulation,
whose result is only used for checks, and the encoder's, whose result is what is emitted. A label
placed twice counts at its last placement in the first and at its first placement in the second.

Offsets are `dex::u4`, written `u4 n`. Code units are numbers below `2 ^ 16`. A `SLICER_CHECK` that
fails is trapped by `RunGuarded`, so it is an error result like the others. -/

namespace ArtPi.Dex

/-- A number as `dex::u4`. -/
def u4 (n : Nat) : Nat := n % 2 ^ 32

/-- A `dex::u4` difference. -/
def u4Sub (a b : Nat) : Nat := (a + (2 ^ 32 - b)) % 2 ^ 32

/-- `dex::s4`: the signed reading of a `dex::u4`. -/
def s4 (n : Nat) : Int := if n < 2 ^ 31 then n else (n : Int) - 2 ^ 32

/-- `dex::s2`: the signed reading of a code unit. -/
def s2 (n : Nat) : Int := if n < 2 ^ 15 then n else (n : Int) - 2 ^ 16

/-! ## The writer's instruction list -/

/-- `SymbolicOperand`, with the fields each kind uses. -/
inductive SymbolicOperand where
  | vreg (reg : UInt32)
  | vregList (regList : List UInt32)
  | const32 (const32 : Int32)
  | string (strVal : String)
  | type (strVal : String)
  | field (strVal extraType extraSig : String)
  | method (strVal extraType extraSig : String)
  | labelTarget (labelId : Int)

inductive SymbolicInstruction where
  | bytecode (opcode : Opcode) (operands : List SymbolicOperand)
  | label (labelId : Int)
  | nop

/-- The part of `Writer` that `AssembleInto` reads. -/
structure Writer where
  registers : UInt16
  instructions : List SymbolicInstruction

inductive AssembleError where
  | emptyWriter
  | noTerminal
  | registerCount (reg registers : Nat)
  | register4Bit (reg : Nat)
  | register8Bit (reg : Nat)
  | registerList
  | invokeRegister4Bit (reg : Nat)
  | unresolvedLabel
  | selfBranch
  | branchRange (relOffset : Int)
  | slicerCheck
  deriving DecidableEq

/-- The error texts of `AssembleInto`. The text of a trapped `SLICER_CHECK` names the C++ line. -/
def AssembleError.message : AssembleError → String
  | .emptyWriter => "empty bytecode writer (no instructions emitted)"
  | .noTerminal => "bytecode method must end with a return, throw, or goto instruction"
  | .registerCount reg registers =>
    "register v" ++ toString reg ++ " exceeds declared register count (" ++ toString registers
      ++ ")"
  | .register4Bit reg => "register v" ++ toString reg ++ " exceeds 4-bit limit (0..15)"
  | .register8Bit reg => "register v" ++ toString reg ++ " exceeds 8-bit limit (0..255)"
  | .registerList => "invoke instruction register list exceeds 5 registers (format 35c limit)"
  | .invokeRegister4Bit reg =>
    "invoke register v" ++ toString reg ++ " exceeds 4-bit limit (0..15)"
  | .unresolvedLabel => "unresolved label reference in bytecode"
  | .selfBranch => "branch instruction has offset 0 (branches to itself)"
  | .branchRange relOffset => "16-bit branch offset out of range: " ++ toString relOffset
  | .slicerCheck => "SLICER_CHECK failed"

def require (b : Bool) (e : AssembleError) : Except AssembleError Unit :=
  if b then .ok () else .error e

/-- Both passes widen `goto` to `goto/16`. -/
def effOp (opcode : Opcode) : Opcode := if opcode = OP_GOTO then OP_GOTO_16 else opcode

/-- The code units an instruction of the list takes. -/
def SymbolicInstruction.width : SymbolicInstruction → Nat
  | .bytecode opcode _ => getWidthFromFormat (getFormatFromOpcode (effOp opcode))
  | .label _ => 0
  | .nop => 1

def SymbolicInstruction.isBytecode : SymbolicInstruction → Bool
  | .bytecode _ _ => true
  | _ => false

def getBytecodeInstructionCount (is : List SymbolicInstruction) : Nat :=
  is.countP SymbolicInstruction.isBytecode

/-! ## Checks on the list -/

/-- The last opcode, labels and nops skipped. -/
def lastOp (is : List SymbolicInstruction) : Opcode :=
  match is.reverse.find? SymbolicInstruction.isBytecode with
  | some (.bytecode opcode _) => opcode
  | _ => OP_NOP

def isTerminal (opcode : Opcode) : Bool :=
  opcode = OP_RETURN_VOID || opcode = OP_RETURN || opcode = OP_RETURN_WIDE ||
    opcode = OP_RETURN_OBJECT || opcode = OP_THROW || opcode = OP_GOTO || opcode = OP_GOTO_16 ||
    opcode = OP_GOTO_32

def checkRegister (registers : Nat) (fmt : Format) (reg : Nat) : Except AssembleError Unit :=
  if reg ≥ registers then .error (.registerCount reg registers)
  else if fmt = .k12x ∨ fmt = .k22c ∨ fmt = .k22t then
    if reg > 15 then .error (.register4Bit reg) else .ok ()
  else if fmt = .k21c ∨ fmt = .k21t ∨ fmt = .k23x ∨ fmt = .k11x ∨ fmt = .k22b then
    if reg > 255 then .error (.register8Bit reg) else .ok ()
  else .ok ()

def checkInvokeRegister (registers : Nat) (reg : Nat) : Except AssembleError Unit :=
  if reg ≥ registers then .error (.registerCount reg registers)
  else if reg > 15 then .error (.invokeRegister4Bit reg)
  else .ok ()

def checkOperand (registers : Nat) (fmt : Format) : SymbolicOperand → Except AssembleError Unit
  | .vreg reg => checkRegister registers fmt reg.toNat
  | .vregList regList =>
    if regList.length > 5 then .error .registerList
    else regList.forM (fun r => checkInvokeRegister registers r.toNat)
  | _ => .ok ()

/-- Step 2, the register bounds. -/
def checkRegisters (registers : Nat) (is : List SymbolicInstruction) : Except AssembleError Unit :=
  is.forM (fun
    | .bytecode opcode operands =>
      operands.forM (checkOperand registers (getFormatFromOpcode (effOp opcode)))
    | _ => .ok ())

/-! ## The offset simulation -/

structure BranchCheck where
  branchOffset : Nat
  targetLabelId : Int
  opcode : Opcode

structure Sim where
  offset : Nat
  labels : Int → Option Nat
  branches : List BranchCheck

def simStep (s : Sim) : SymbolicInstruction → Sim
  | .label id => { s with labels := Function.update s.labels id (some s.offset) }
  | .nop => { s with offset := u4 (s.offset + 1) }
  | .bytecode opcode operands =>
    { s with
      offset := u4 (s.offset + getWidthFromFormat (getFormatFromOpcode (effOp opcode)))
      branches := s.branches ++ operands.filterMap (fun
        | .labelTarget id => some ⟨s.offset, id, effOp opcode⟩
        | _ => none) }

def simulate (is : List SymbolicInstruction) : Sim := is.foldl simStep ⟨0, fun _ => none, []⟩

def checkBranch (labels : Int → Option Nat) (bc : BranchCheck) : Except AssembleError Unit :=
  match labels bc.targetLabelId with
  | none => .error .unresolvedLabel
  | some target =>
    if target = bc.branchOffset then .error .selfBranch
    else
      let rel := s4 target - s4 bc.branchOffset
      if (getFormatFromOpcode bc.opcode).isBranch16 ∧ (rel < -32768 ∨ rel > 32767) then
        .error (.branchRange rel)
      else .ok ()

/-! ## LIR -/

/-- The operands the writer creates: `String`, `Type`, `Field` and `Method` are all
    `IndexedOperand`s. It never makes a `VRegPair`, `VRegRange` or `Const64`. -/
inductive Operand where
  | vreg (reg : Nat)
  | vregList (registers : List Nat)
  | const32 (u4Value : Nat)
  | indexed (index : Nat)
  | codeLocation (label : Int)

inductive Lir where
  | bytecode (opcode : Opcode) (operands : List Operand)
  | label (id : Int)

/-- `ctx` is the index of the string, type, field or method in the dex file being built. -/
def link (ctx : SymbolicOperand → Nat) : SymbolicOperand → Operand
  | .vreg reg => .vreg reg.toNat
  | .vregList regList => .vregList (regList.map UInt32.toNat)
  | .const32 c => .const32 c.toUInt32.toNat
  | .labelTarget id => .codeLocation id
  | op => .indexed (u4 (ctx op))

/-- Pass 2: a label node is emitted at its first placement only. -/
def emit (ctx : SymbolicOperand → Nat) :
    List Int → List SymbolicInstruction → List Lir
  | _, [] => []
  | emitted, .label id :: rest =>
    if id ∈ emitted then emit ctx emitted rest else .label id :: emit ctx (id :: emitted) rest
  | emitted, .nop :: rest => .bytecode OP_NOP [] :: emit ctx emitted rest
  | emitted, .bytecode opcode operands :: rest =>
    .bytecode opcode (operands.map (link ctx)) :: emit ctx emitted rest

/-! ## `BytecodeEncoder` -/

/-- `SLICER_CHECK`. -/
def check (b : Bool) : Except AssembleError Unit := require b .slicerCheck

def packZ8 (a : Nat) : Except AssembleError Nat := do
  check (a &&& 0xff = a)
  pure a

def pack88 (a b : Nat) : Except AssembleError Nat := do
  check (a &&& 0xff = a)
  check (b &&& 0xff = b)
  pure (a <<< 8 ||| b)

def pack448 (a b c : Nat) : Except AssembleError Nat := do
  check (a &&& 0xf = a)
  check (b &&& 0xf = b)
  check (c &&& 0xff = c)
  pure (a <<< 12 ||| b <<< 8 ||| c)

def pack4444 (a b c d : Nat) : Except AssembleError Nat := do
  check (a &&& 0xf = a)
  check (b &&& 0xf = b)
  check (c &&& 0xf = c)
  check (d &&& 0xf = d)
  pure (a <<< 12 ||| b <<< 8 ||| c <<< 4 ||| d)

def pack16 (a : Nat) : Except AssembleError Nat := do
  check (a &&& 0xffff = a)
  pure a

/-- `Trim_S0`, `Trim_S1` and `Trim_S2`: the low `bits` bits, if their sign extension is the value. -/
def trimS (bits : Nat) (value : Nat) : Except AssembleError Nat := do
  let trim := value % 2 ^ bits
  check ((if trim < 2 ^ (bits - 1) then trim else trim + (2 ^ 32 - 2 ^ bits)) = value)
  pure trim

/-- `GetRegA`, `GetRegB` and `GetRegC`: a wide field wants a `VRegPair`, which never comes. -/
def getReg (wide : Bool) (operands : List Operand) (index : Nat) : Except AssembleError Nat :=
  match wide, operands[index]? with
  | false, some (.vreg reg) => .ok reg
  | _, _ => .error .slicerCheck

def castConst32 (operands : List Operand) (index : Nat) : Except AssembleError Nat :=
  match operands[index]? with
  | some (.const32 v) => .ok v
  | _ => .error .slicerCheck

def castIndexed (operands : List Operand) (index : Nat) : Except AssembleError Nat :=
  match operands[index]? with
  | some (.indexed i) => .ok i
  | _ => .error .slicerCheck

def castVRegList (operands : List Operand) (index : Nat) : Except AssembleError (List Nat) :=
  match operands[index]? with
  | some (.vregList regs) => .ok regs
  | _ => .error .slicerCheck

def castLocation (operands : List Operand) (index : Nat) : Except AssembleError Int :=
  match operands[index]? with
  | some (.codeLocation label) => .ok label
  | _ => .error .slicerCheck

structure LabelFixup where
  offset : Nat
  label : Int
  shortFixup : Bool
  deriving DecidableEq

/-- The displacement of a branch to `label`, or 0 and a fixup if the label is not placed yet. -/
def resolve (labelOffset : Int → Option Nat) (offset : Nat) (label : Int) (short selfOk : Bool) :
    Except AssembleError (Nat × Option LabelFixup) :=
  match labelOffset label with
  | some target => do
    let a := u4Sub target offset
    check (selfOk || a ≠ 0)
    check (!short || a >>> 16 = 0xffff)
    pure (a, none)
  | none => pure (0, some ⟨offset, label, short⟩)

/-- What `Visit(Bytecode*)` adds to the encoder. -/
structure Encoded where
  units : List Nat
  fixup : Option LabelFixup := none
  outs : Nat := 0

/-- The `switch (format)` of `Visit(Bytecode*)`, with the opcode already widened. The wide verifier
    flags are those of the bytecode's own opcode; `goto` has none. -/
def encodeInsn (labelOffset : Int → Option Nat) (offset : Nat) (opcode : Opcode)
    (operands : List Operand) : Except AssembleError Encoded := do
  let op := opcode.toNat
  let regA (i : Nat) := getReg (regAWide opcode) operands i
  let regB (i : Nat) := getReg (regBWide opcode) operands i
  let regC (i : Nat) := getReg (regCWide opcode) operands i
  match getFormatFromOpcode opcode with
  | .k10x => do
    check (operands.length = 0)
    let u0 ← packZ8 op
    pure { units := [u0] }
  | .k12x => do
    check (operands.length = 2)
    let vA ← regA 0
    let vB ← regB 1
    let u0 ← pack448 vB vA op
    pure { units := [u0] }
  | .k22x => do
    check (operands.length = 2)
    let vA ← regA 0
    let vB ← regB 1
    let u0 ← pack88 vA op
    let u1 ← pack16 vB
    pure { units := [u0, u1] }
  | .k32x => do
    check (operands.length = 2)
    let vA ← regA 0
    let vB ← regB 1
    let u0 ← packZ8 op
    let u1 ← pack16 vA
    let u2 ← pack16 vB
    pure { units := [u0, u1, u2] }
  | .k11n => do
    check (operands.length = 2)
    let vA ← regA 0
    let c ← castConst32 operands 1
    let b ← trimS 4 c
    let u0 ← pack448 b vA op
    pure { units := [u0] }
  | .k21s => do
    check (operands.length = 2)
    let vA ← regA 0
    let c ← castConst32 operands 1
    let b ← trimS 16 c
    let u0 ← pack88 vA op
    let u1 ← pack16 b
    pure { units := [u0, u1] }
  | .k11x => do
    check (operands.length = 1)
    let vA ← regA 0
    let u0 ← pack88 vA op
    pure { units := [u0] }
  | .k31i => do
    check (operands.length = 2)
    let vA ← regA 0
    let b ← castConst32 operands 1
    let u0 ← pack88 vA op
    let u1 ← pack16 (b &&& 0xffff)
    let u2 ← pack16 (b >>> 16)
    pure { units := [u0, u1, u2] }
  | .k20t => do
    check (operands.length = 1)
    let label ← castLocation operands 0
    let (a, fixup) ← resolve labelOffset offset label true false
    let u0 ← packZ8 op
    let u1 ← pack16 (a &&& 0xffff)
    pure { units := [u0, u1], fixup }
  | .k30t => do
    check (operands.length = 1)
    let label ← castLocation operands 0
    let (a, fixup) ← resolve labelOffset offset label false true
    let u0 ← packZ8 op
    let u1 ← pack16 (a &&& 0xffff)
    let u2 ← pack16 (a >>> 16)
    pure { units := [u0, u1, u2], fixup }
  | .k21t => do
    check (operands.length = 2)
    let vA ← regA 0
    let label ← castLocation operands 1
    let (b, fixup) ← resolve labelOffset offset label true false
    let u0 ← pack88 vA op
    let u1 ← pack16 (b &&& 0xffff)
    pure { units := [u0, u1], fixup }
  | .k22t => do
    check (operands.length = 3)
    let vA ← regA 0
    let vB ← regB 1
    let label ← castLocation operands 2
    let (c, fixup) ← resolve labelOffset offset label true false
    let u0 ← pack448 vB vA op
    let u1 ← pack16 (c &&& 0xffff)
    pure { units := [u0, u1], fixup }
  | .k31t => do
    check (operands.length = 2)
    let vA ← regA 0
    let label ← castLocation operands 1
    let (b, fixup) ← resolve labelOffset offset label false false
    let u0 ← pack88 vA op
    let u1 ← pack16 (b &&& 0xffff)
    let u2 ← pack16 (b >>> 16)
    pure { units := [u0, u1, u2], fixup }
  | .k23x => do
    check (operands.length = 3)
    let vA ← regA 0
    let vB ← regB 1
    let vC ← regC 2
    let u0 ← pack88 vA op
    let u1 ← pack88 vC vB
    pure { units := [u0, u1] }
  | .k22b => do
    check (operands.length = 3)
    let vA ← regA 0
    let vB ← regB 1
    let c ← castConst32 operands 2
    let c ← trimS 8 c
    let u0 ← pack88 vA op
    let u1 ← pack88 c vB
    pure { units := [u0, u1] }
  | .k22s => do
    check (operands.length = 3)
    let vA ← regA 0
    let vB ← regB 1
    let c ← castConst32 operands 2
    let c ← trimS 16 c
    let u0 ← pack448 vB vA op
    let u1 ← pack16 c
    pure { units := [u0, u1] }
  | .k22c => do
    check (operands.length = 3)
    let vA ← regA 0
    let vB ← regB 1
    let c ← castIndexed operands 2
    let u0 ← pack448 vB vA op
    let u1 ← pack16 c
    pure { units := [u0, u1] }
  | .k21c => do
    check (operands.length = 2)
    let vA ← regA 0
    let b ← castIndexed operands 1
    let u0 ← pack88 vA op
    let u1 ← pack16 b
    pure { units := [u0, u1] }
  | .k31c => do
    check (operands.length = 2)
    let vA ← regA 0
    let b ← castIndexed operands 1
    let u0 ← pack88 vA op
    let u1 ← pack16 (b &&& 0xffff)
    let u2 ← pack16 (b >>> 16)
    pure { units := [u0, u1, u2] }
  | .k35c => do
    check (operands.length = 2)
    let regs ← castVRegList operands 0
    let b ← castIndexed operands 1
    let u0 ← pack448 regs.length (regs.getD 4 0) op
    let u1 ← pack16 b
    let u2 ← pack4444 (regs.getD 3 0) (regs.getD 2 0) (regs.getD 1 0) (regs.getD 0 0)
    pure { units := [u0, u1, u2], outs := if isInvoke opcode then regs.length else 0 }
  | .k45cc => do
    check (operands.length = 3)
    let regs ← castVRegList operands 0
    let b ← castIndexed operands 1
    let h ← castIndexed operands 2
    let u0 ← pack448 regs.length (regs.getD 4 0) op
    let u1 ← pack16 b
    let u2 ← pack4444 (regs.getD 3 0) (regs.getD 2 0) (regs.getD 1 0) (regs.getD 0 0)
    let u3 ← pack16 h
    pure { units := [u0, u1, u2, u3], outs := if isInvoke opcode then regs.length else 0 }
  | .k21h => do
    check (operands.length = 2)
    -- the other opcode of this format, const-wide/high16, casts its register to a pair
    let vA ← regA 0
    let c ← castConst32 operands 1
    let u0 ← pack88 vA op
    let u1 ← pack16 (c >>> 16)
    pure { units := [u0, u1] }
  -- 3rc, 4rcc and 51l cast an operand to `VRegRange` or `Const64`; no opcode has the other formats
  | _ => .error .slicerCheck

structure Encoder where
  bytecode : List Nat
  offset : Nat
  labelOffset : Int → Option Nat
  fixups : List LabelFixup
  outsCount : Nat

def visit (e : Encoder) : Lir → Except AssembleError Encoder
  | .label id => .ok { e with labelOffset := Function.update e.labelOffset id (some e.offset) }
  | .bytecode opcode operands => do
    let enc ← encodeInsn e.labelOffset e.offset (effOp opcode) operands
    pure { e with
      bytecode := e.bytecode ++ enc.units
      offset := u4 (e.offset + getWidthFromFormat (getFormatFromOpcode (effOp opcode)))
      fixups := e.fixups ++ enc.fixup.toList
      outsCount := max e.outsCount enc.outs }

def visitAll : Encoder → List Lir → Except AssembleError Encoder
  | e, [] => .ok e
  | e, i :: is => do
    let e' ← visit e i
    visitAll e' is

def kInvalidOffset : Nat := 2 ^ 32 - 1

/-- One round of `FixupLabels`. The byte offset `fixup.offset * 2` is a `dex::u4`. -/
def fixupLabel (labelOffset : Int → Option Nat) (code : List Nat) (fixup : LabelFixup) :
    Except AssembleError (List Nat) := do
  let rel := u4Sub ((labelOffset fixup.label).getD kInvalidOffset) fixup.offset
  check (rel ≠ 0)
  let instr := u4 (fixup.offset * 2) / 2
  check (instr < code.length)
  if fixup.shortFixup then do
    check (rel ≤ 0x7fff)
    let u1 ← pack16 rel
    pure (code.set (instr + 1) u1)
  else do
    let u1 ← pack16 (rel &&& 0xffff)
    let u2 ← pack16 (rel >>> 16)
    pure ((code.set (instr + 1) u1).set (instr + 2) u2)

def fixupLabels (labelOffset : Int → Option Nat) :
    List Nat → List LabelFixup → Except AssembleError (List Nat)
  | code, [] => .ok code
  | code, fixup :: rest => do
    let code' ← fixupLabel labelOffset code fixup
    fixupLabels labelOffset code' rest

/-- `FixupSwitchOffsets`, from `ptr` on. No payload is ever emitted, so a switch finds none and its
    check fails. -/
def fixupSwitchOffsets (code : List Nat) : Nat → Nat → Except AssembleError Unit
  | 0, _ => .error .slicerCheck
  | fuel + 1, ptr =>
    if ptr < code.length then do
      let opcode : Opcode := UInt8.ofNat (code.getD ptr 0 &&& 0xff)
      check (opcode ≠ OP_PACKED_SWITCH && opcode ≠ OP_SPARSE_SWITCH)
      let isize := getWidthFromBytecode (code.drop ptr)
      check (isize > 0)
      fixupSwitchOffsets code fuel (ptr + isize)
    else check (ptr = code.length)

/-- What `AssembleInto` leaves in `ir_code`. -/
structure Assembled where
  code : List Nat
  outsCount : Nat
  deriving DecidableEq

def encode (is : List Lir) : Except AssembleError Assembled := do
  let e ← visitAll ⟨[], 0, fun _ => none, [], 0⟩ is
  let code ← fixupLabels e.labelOffset e.bytecode e.fixups
  fixupSwitchOffsets code (code.length + 1) 0
  pure ⟨code, e.outsCount⟩

/-- `Writer::AssembleInto`. -/
def assembleInto (ctx : SymbolicOperand → Nat) (w : Writer) : Except AssembleError Assembled := do
  require (getBytecodeInstructionCount w.instructions ≠ 0) .emptyWriter
  require (isTerminal (lastOp w.instructions)) .noTerminal
  checkRegisters w.registers.toNat w.instructions
  (simulate w.instructions).branches.forM (checkBranch (simulate w.instructions).labels)
  encode (emit ctx [] w.instructions)

end ArtPi.Dex
