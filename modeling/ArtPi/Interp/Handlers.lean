import ArtPi.Interp.Payload

set_option autoImplicit false

/-! # The handlers of the interpreter (`vm/InterpC-portable.cpp`, `vm/Interp.cpp`)

The handlers in the source are made by a few macros, and those that differ in an operator or in a type are one
handler with a parameter here. A handler gets its operands decoded, and says where the interpreter goes on.
Without an argument `FINISH` goes to the next instruction. -/

namespace ArtPi.Interp.Machine

open Dex Constants

variable {σ β : Type}

/-- How a handler ends: `FINISH` with the width of the instruction, with the displacement of its branch, or
    with one from a switch table, `GOTO_exceptionThrown` and `GOTO_returnFromMethod`. An opcode without a
    handler of its own ends in whatever code stands behind its label, and a table of elements of another width
    than an array has ends in `abort`. -/
inductive Flow (β : Type) where
  | next
  | branch (target : β)
  | jump (offset : Int)
  | exceptionThrown
  | returnFromMethod
  | unhandled
  deriving DecidableEq

/-! ## Arithmetic -/

inductive BinOp where
  | add | sub | mul | div | rem | and | or | xor
  deriving DecidableEq

inductive ShiftOp where
  | shl | shr | ushr
  deriving DecidableEq

/-- The operation of `HANDLE_OP_X_INT` and `HANDLE_OP_X_LONG`, `none` for a division by zero. The sums and
    products of signed numbers are taken to wrap; C++ leaves an overflow undefined. -/
def binop {w : Nat} (op : BinOp) (firstVal secondVal : BitVec w) : Option (BitVec w) :=
  match op with
  | .add => some (firstVal + secondVal)
  | .sub => some (firstVal - secondVal)
  | .mul => some (firstVal * secondVal)
  | .and => some (firstVal &&& secondVal)
  | .or => some (firstVal ||| secondVal)
  | .xor => some (firstVal ^^^ secondVal)
  | .div =>
    if secondVal = 0 then none
    else if firstVal = BitVec.intMin w ∧ secondVal = -1 then some firstVal
    else some (firstVal.sdiv secondVal)
  | .rem =>
    if secondVal = 0 then none
    else if firstVal = BitVec.intMin w ∧ secondVal = -1 then some 0
    else some (firstVal.srem secondVal)

/-- The operation of `HANDLE_OP_SHX_INT`, with the mask `0x1f`, and of `HANDLE_OP_SHX_LONG`, with `0x3f`. -/
def shiftop {w : Nat} (op : ShiftOp) (mask : BitVec 32) (val : BitVec w) (distance : BitVec 32) : BitVec w :=
  let k := (distance &&& mask).toNat
  match op with
  | .shl => val <<< k
  | .shr => val.sshiftRight k
  | .ushr => val >>> k

inductive Cmp where
  | eq | ne | lt | ge | gt | le
  deriving DecidableEq

def Cmp.holds (c : Cmp) (a b : BitVec 32) : Bool :=
  match c with
  | .eq => a = b
  | .ne => a ≠ b
  | .lt => a.slt b
  | .ge => !a.slt b
  | .gt => b.slt a
  | .le => !b.slt a

inductive UnOp where
  | negInt | notInt | negLong | notLong | negFloat | negDouble
  | intToLong | intToFloat | intToDouble | longToInt | longToFloat | longToDouble
  | floatToInt | floatToLong | floatToDouble | doubleToInt | doubleToLong | doubleToFloat
  | intToByte | intToChar | intToShort
  deriving DecidableEq

/-- A `jboolean`, `jbyte`, `jchar` or `jshort` as an `int`. -/
def widen (c : Char) (val : BitVec 32) : BitVec 32 :=
  if c = 'Z' then (val.setWidth 8).setWidth 32
  else if c = 'B' then (val.setWidth 8).signExtend 32
  else if c = 'C' then (val.setWidth 16).setWidth 32
  else (val.setWidth 16).signExtend 32

/-- The opcodes' handlers. The macros are `HANDLE_OP_X_INT`, `HANDLE_IGET_X` and so on; a format stands
    where several opcodes differ in nothing else. -/
inductive Handler where
  | nop
  | move (fmt : Format) | moveWide (fmt : Format) | moveObject (fmt : Format)
  | moveResult | moveResultWide | moveResultObject | moveException
  | returnVoid | ret | returnWide | returnObject
  | const (fmt : Format) | constHigh16 | constWide (fmt : Format) | constWideHigh16
  | constString (fmt : Format) | constClass
  | monitorEnter | monitorExit | checkCast | instanceOf | arrayLength | newInstance | newArray
  | filledNewArray (range : Bool) | fillArrayData | throw
  | goto (fmt : Format) | packedSwitch | sparseSwitch
  | cmpFloat (nanVal : Int) | cmpDouble (nanVal : Int) | cmpLong
  | ifEq | ifNe | ifXX (cmp : Cmp) | ifXXZ (cmp : Cmp)
  | aget (wide : Bool) | agetObject | agetSmall (c : Char)
  | aput (wide : Bool) | aputObject | aputSmall (c : Char)
  | iget | igetWide | igetObject | igetSmall (c : Char)
  | iput | iputWide | iputObject | iputSmall (c : Char)
  | sget | sgetWide | sgetObject | sgetSmall (c : Char)
  | sput | sputWide | sputObject | sputSmall (c : Char)
  | invokeVirtual (range : Bool) | invokeSuper (range : Bool) | invokeDirect (range : Bool)
  | invokeStatic (range : Bool) | invokeInterface (range : Bool)
  | unop (op : UnOp)
  | xInt (op : BinOp) | shxInt (op : ShiftOp) | xLong (op : BinOp) | shxLong (op : ShiftOp)
  | xFloat (op : FloatOp) | xDouble (op : FloatOp)
  | xInt2addr (op : BinOp) | shxInt2addr (op : ShiftOp) | xLong2addr (op : BinOp) | shxLong2addr (op : ShiftOp)
  | xFloat2addr (op : FloatOp) | xDouble2addr (op : FloatOp)
  | xIntLit16 (op : BinOp) | rsubInt | xIntLit8 (op : BinOp) | rsubIntLit8 | shxIntLit8 (op : ShiftOp)
  | unhandled

def invokeForm (range : Bool) : Format := if range then .k3rc else .k35c

/-- The format in whose way a handler reads its operands. -/
def Handler.form : Handler → Format
  | .nop | .returnVoid | .unhandled => .k10x
  | .move fmt | .moveWide fmt | .moveObject fmt | .const fmt | .constWide fmt | .constString fmt | .goto fmt => fmt
  | .moveResult | .moveResultWide | .moveResultObject | .moveException | .ret | .returnWide | .returnObject
  | .monitorEnter | .monitorExit | .throw => .k11x
  | .constHigh16 | .constWideHigh16 => .k21h
  | .constClass | .checkCast | .newInstance => .k21c
  | .instanceOf | .newArray => .k22c
  | .arrayLength => .k12x
  | .filledNewArray range | .invokeVirtual range | .invokeSuper range | .invokeDirect range
  | .invokeStatic range | .invokeInterface range => invokeForm range
  | .fillArrayData | .packedSwitch | .sparseSwitch => .k31t
  | .cmpFloat _ | .cmpDouble _ | .cmpLong => .k23x
  | .ifEq | .ifNe | .ifXX _ => .k22t
  | .ifXXZ _ => .k21t
  | .aget _ | .agetObject | .agetSmall _ | .aput _ | .aputObject | .aputSmall _ => .k23x
  | .iget | .igetWide | .igetObject | .igetSmall _ | .iput | .iputWide | .iputObject | .iputSmall _ => .k22c
  | .sget | .sgetWide | .sgetObject | .sgetSmall _ | .sput | .sputWide | .sputObject | .sputSmall _ => .k21c
  | .unop _ => .k12x
  | .xInt _ | .shxInt _ | .xLong _ | .shxLong _ | .xFloat _ | .xDouble _ => .k23x
  | .xInt2addr _ | .shxInt2addr _ | .xLong2addr _ | .shxLong2addr _ | .xFloat2addr _ | .xDouble2addr _ => .k12x
  | .xIntLit16 _ | .rsubInt => .k22s
  | .xIntLit8 _ | .rsubIntLit8 | .shxIntLit8 _ => .k22b

def binOps : List BinOp := [.add, .sub, .mul, .div, .rem, .and, .or, .xor]
def shiftOps : List ShiftOp := [.shl, .shr, .ushr]
def floatOps : List FloatOp := [.add, .sub, .mul, .div, .rem]
def cmps : List Cmp := [.eq, .ne, .lt, .ge, .gt, .le]
def unOps : List UnOp :=
  [.negInt, .notInt, .negLong, .notLong, .negFloat, .negDouble, .intToLong, .intToFloat, .intToDouble,
    .longToInt, .longToFloat, .longToDouble, .floatToInt, .floatToLong, .floatToDouble, .doubleToInt,
    .doubleToLong, .doubleToFloat, .intToByte, .intToChar, .intToShort]
def smallTypes : List Char := ['Z', 'B', 'C', 'S']

/-- `DEFINE_GOTO_TABLE`, the label of each opcode with the handler that stands behind it. The unused opcodes
    in front of `aget`, of the ranges and of `neg-int` fall into the handler that follows them. -/
def handlerTable : List Handler := List.flatten
  [[.nop, .move .k12x, .move .k22x, .move .k32x, .moveWide .k12x, .moveWide .k22x, .moveWide .k32x,
      .moveObject .k12x, .moveObject .k22x, .moveObject .k32x, .moveResult, .moveResultWide, .moveResultObject,
      .moveException, .returnVoid, .ret, .returnWide, .returnObject,
      .const .k11n, .const .k21s, .const .k31i, .constHigh16, .constWide .k21s, .constWide .k31i, .constWide .k51l,
      .constWideHigh16, .constString .k21c, .constString .k31c, .constClass, .monitorEnter, .monitorExit,
      .checkCast, .instanceOf, .arrayLength, .newInstance, .newArray, .filledNewArray false, .filledNewArray true,
      .fillArrayData, .throw, .goto .k10t, .goto .k20t, .goto .k30t, .packedSwitch, .sparseSwitch,
      .cmpFloat (-1), .cmpFloat 1, .cmpDouble (-1), .cmpDouble 1, .cmpLong,
      .ifEq, .ifNe, .ifXX .lt, .ifXX .ge, .ifXX .gt, .ifXX .le],
    cmps.map Handler.ifXXZ, List.replicate 6 (.aget false),
    [.aget false, .aget true, .agetObject], smallTypes.map Handler.agetSmall,
    [.aput false, .aput true, .aputObject], smallTypes.map Handler.aputSmall,
    [.iget, .igetWide, .igetObject], smallTypes.map Handler.igetSmall,
    [.iput, .iputWide, .iputObject], smallTypes.map Handler.iputSmall,
    [.sget, .sgetWide, .sgetObject], smallTypes.map Handler.sgetSmall,
    [.sput, .sputWide, .sputObject], smallTypes.map Handler.sputSmall,
    [.invokeVirtual false, .invokeSuper false, .invokeDirect false, .invokeStatic false, .invokeInterface false,
      .invokeVirtual true,
      .invokeVirtual true, .invokeSuper true, .invokeDirect true, .invokeStatic true, .invokeInterface true,
      .unop .negInt, .unop .negInt],
    unOps.map Handler.unop,
    binOps.map Handler.xInt, shiftOps.map Handler.shxInt, binOps.map Handler.xLong, shiftOps.map Handler.shxLong,
    floatOps.map Handler.xFloat, floatOps.map Handler.xDouble,
    binOps.map Handler.xInt2addr, shiftOps.map Handler.shxInt2addr,
    binOps.map Handler.xLong2addr, shiftOps.map Handler.shxLong2addr,
    floatOps.map Handler.xFloat2addr, floatOps.map Handler.xDouble2addr,
    [.xIntLit16 .add, .rsubInt], (binOps.drop 2).map Handler.xIntLit16,
    [.xIntLit8 .add, .rsubIntLit8], (binOps.drop 2).map Handler.xIntLit8, shiftOps.map Handler.shxIntLit8]

def handlerOf (opcode : Nat) : Handler := handlerTable.getD opcode .unhandled

theorem handlerOf_cases (opcode : Nat) :
    handlerTable[opcode]? = some (handlerOf opcode) ∨ handlerOf opcode = .unhandled := by
  rw [handlerOf, List.getD_eq_getElem?_getD]
  cases handlerTable[opcode]? with
  | none => exact .inr rfl
  | some h => exact .inl rfl

def Handler.handled : Handler → Bool
  | .unhandled => false
  | _ => true

/-- The unused opcodes that fall into the handler of another one. -/
def fallsThrough (opcode : Nat) : Bool := (0x3e ≤ opcode && opcode ≤ 0x43) || [0x73, 0x79, 0x7a].contains opcode

set_option maxRecDepth 8192 in
/-- The operands of an opcode that is used are read by the format that the assembler writes. -/
theorem form_handlerOf : ∀ opcode < 256, fallsThrough opcode = false → (handlerOf opcode).handled = true →
    (handlerOf opcode).form = getFormatFromOpcode (UInt8.ofNat opcode) := by
  have hall : ∀ x ∈ (handlerTable.zip formats).zipIdx, fallsThrough x.2 = false → x.1.1.handled = true →
      x.1.1.form = x.1.2 := by decide
  intro opcode hlt hfalls hhandled
  rcases handlerOf_cases opcode with hget | hnone
  · exact hall _ (mem_zipIdx_zip hget (getElem?_formats hlt)) hfalls hhandled
  · rw [hnone] at hhandled
    cases hhandled

/-! ## Handlers -/

section Exec

variable (rt : Runtime σ) (fpu : Fpu)

/-- `GOTO_exceptionThrown` behind an exception of the interpreter's own. -/
def throwNew (vm : Vm σ) (e : Thrown) : Flow β × Vm σ :=
  (.exceptionThrown, { vm with env := rt.throwNew e vm.env })

def divideByZero (vm : Vm σ) : Flow β × Vm σ := throwNew rt vm (.arithmetic "divide by zero")

/-- The end of `HANDLE_OP_X_INT` and of its relatives. -/
def finishInt (vm : Vm σ) (vdst : Nat) : Option (BitVec 32) → Flow β × Vm σ
  | none => divideByZero rt vm
  | some result => (.next, setRegister rt vm vdst result)

def finishLong (vm : Vm σ) (vdst : Nat) : Option (BitVec 64) → Flow β × Vm σ
  | none => divideByZero rt vm
  | some result => (.next, setRegisterWide rt vm vdst result)

/-- `HANDLE_OP_CMPX`, with `none` for operands that are not ordered. -/
def cmpResult (nanVal : Int) : Option Ordering → BitVec 32
  | some .eq => 0
  | some .lt => -1
  | some .gt => 1
  | none => BitVec.ofInt 32 nanVal

def compareLong (val1 val2 : BitVec 64) : Ordering :=
  if val1 = val2 then .eq else if val1.slt val2 then .lt else .gt

/-- `HANDLE_UNOP`, `HANDLE_NUMCONV`, `HANDLE_FLOAT_TO_INT` and `HANDLE_INT_TO_SMALL`. -/
def execUnop (op : UnOp) (o : Operands β) (vm : Vm σ) : Vm σ :=
  let int : BitVec 32 := getRegister vm o.vB
  let wide : BitVec 64 := getRegisterWide vm o.vB
  match op with
  | .negInt => setRegister rt vm o.vA (-int)
  | .notInt => setRegister rt vm o.vA (int ^^^ 0xffffffff)
  | .negLong => setRegisterWide rt vm o.vA (-wide)
  | .notLong => setRegisterWide rt vm o.vA (wide ^^^ 0xffffffffffffffff)
  | .negFloat => setRegisterFloat rt vm o.vA (fpu.negFloat int)
  | .negDouble => setRegisterWide rt vm o.vA (fpu.negDouble wide)
  | .intToLong => setRegisterWide rt vm o.vA (int.signExtend 64)
  | .intToFloat => setRegisterFloat rt vm o.vA (fpu.intToFloat int)
  | .intToDouble => setRegisterWide rt vm o.vA (fpu.intToDouble int)
  | .longToInt => setRegister rt vm o.vA (wide.setWidth 32)
  | .longToFloat => setRegisterFloat rt vm o.vA (fpu.longToFloat wide)
  | .longToDouble => setRegisterWide rt vm o.vA (fpu.longToDouble wide)
  | .floatToInt => setRegister rt vm o.vA (fpu.floatToInt int)
  | .floatToLong => setRegisterWide rt vm o.vA (fpu.floatToLong int)
  | .floatToDouble => setRegisterWide rt vm o.vA (fpu.floatToDouble int)
  | .doubleToInt => setRegister rt vm o.vA (fpu.doubleToInt wide)
  | .doubleToLong => setRegisterWide rt vm o.vA (fpu.doubleToLong wide)
  | .doubleToFloat => setRegisterFloat rt vm o.vA (fpu.doubleToFloat wide)
  | .intToByte => setRegister rt vm o.vA ((int.setWidth 8).signExtend 32)
  | .intToChar => setRegister rt vm o.vA ((int.setWidth 16).setWidth 32)
  | .intToShort => setRegister rt vm o.vA ((int.setWidth 16).signExtend 32)

/-- `OP_IF_EQ` and `OP_IF_NE`: a register that holds a reference is compared as one. -/
def sameRegisters (vm : Vm σ) (vsrc1 vsrc2 : Nat) : Bool :=
  if vm.fpFlags vsrc1 then rt.isSameObject (getRegisterWide vm vsrc1) (getRegisterWide vm vsrc2) vm.env
  else getRegister vm vsrc1 = getRegister vm vsrc2

def branchIf (o : Operands β) (taken : Bool) : Flow β := if taken then .branch o.branch else .next

/-- The end of a handler that asks for an exception. -/
def checked (vm : Vm σ) : Flow β × Vm σ :=
  if rt.exceptionCheck vm.env then (.exceptionThrown, vm) else (.next, vm)

/-- The destructor of a `ScopedLocalRef`. -/
def dropRef (vm : Vm σ) (r : Ref) : Vm σ :=
  if r = 0 then vm else { vm with env := rt.deleteLocalRef r vm.env }

/-! ### Arrays -/

/-- The index check of the handlers that pin the array. -/
def boundsFailure (vm : Vm σ) (arrayObj : Ref) (idx : BitVec 32) : Option Thrown :=
  let length := rt.getArrayLength arrayObj vm.env
  if length.ule idx then some (.arrayIndexOutOfBounds length idx) else none

/-- `HANDLE_OP_AGET` and `HANDLE_OP_APUT`, up to the access. -/
def withArray (o : Operands β) (vm : Vm σ) (access : Ref → BitVec 32 → Flow β × Vm σ) : Flow β × Vm σ :=
  let arrayObj := getRegisterWide vm o.vB
  if arrayObj = 0 then throwNew rt vm .nullPointer else access arrayObj (getRegister vm o.vC)

def execAget (wide : Bool) (o : Operands β) (vm : Vm σ) : Flow β × Vm σ :=
  withArray rt o vm (fun arrayObj idx =>
    match boundsFailure rt vm arrayObj idx with
    | some e => throwNew rt vm e
    | none =>
      let val := rt.readArray wide arrayObj idx vm.env
      checked rt (if wide then setRegisterWide rt vm o.vA val else setRegister rt vm o.vA (val.setWidth 32)))

def execAgetObject (o : Operands β) (vm : Vm σ) : Flow β × Vm σ :=
  withArray rt o vm (fun arrayObj idx =>
    let (eleObj, env) := rt.getObjectArrayElement arrayObj idx vm.env
    checked rt (setRegisterAsObject rt { vm with env } o.vA eleObj))

def execAgetSmall (c : Char) (o : Operands β) (vm : Vm σ) : Flow β × Vm σ :=
  withArray rt o vm (fun arrayObj idx =>
    let (val, env) := rt.getArrayRegion c arrayObj idx vm.env
    checked rt (setRegister rt { vm with env } o.vA (widen c val)))

def execAput (wide : Bool) (o : Operands β) (vm : Vm σ) : Flow β × Vm σ :=
  withArray rt o vm (fun arrayObj idx =>
    match boundsFailure rt vm arrayObj idx with
    | some e => throwNew rt vm e
    | none =>
      let val := if wide then getRegisterWide vm o.vA else (getRegister vm o.vA).setWidth 64
      checked rt { vm with env := rt.writeArray wide arrayObj idx val vm.env })

def execAputObject (o : Operands β) (vm : Vm σ) : Flow β × Vm σ :=
  withArray rt o vm (fun arrayObj idx =>
    checked rt { vm with env := rt.setObjectArrayElement arrayObj idx (getRegisterWide vm o.vA) vm.env })

def execAputSmall (c : Char) (o : Operands β) (vm : Vm σ) : Flow β × Vm σ :=
  withArray rt o vm (fun arrayObj idx =>
    checked rt { vm with env := rt.setArrayRegion c arrayObj idx (getRegister vm o.vA) vm.env })

/-! ### Fields -/

/-- `HANDLE_IGET_X` and `HANDLE_IPUT_X`, up to the access. -/
def withField (o : Operands β) (vm : Vm σ) (access : Ref → VmField → Vm σ → Vm σ) : Flow β × Vm σ :=
  let obj := getRegisterWide vm o.vB
  if obj = 0 then throwNew rt vm .nullPointer
  else
    match rt.dvmResolveField o.ref false vm.env with
    | (none, env) => (.exceptionThrown, { vm with env })
    | (some ifield, env) => (.next, access obj ifield { vm with env })

/-- `HANDLE_SGET_X` and `HANDLE_SPUT_X`, up to the access; the reference to the class is dropped behind it. -/
def withStaticField (o : Operands β) (vm : Vm σ) (access : Ref → VmField → Vm σ → Vm σ) : Flow β × Vm σ :=
  match rt.dvmResolveField o.ref true vm.env with
  | (none, env) => (.exceptionThrown, { vm with env })
  | (some sfield, env) =>
    let (clazz, env) := rt.dvmResolveClass sfield.classIdx env
    if clazz = 0 then (.exceptionThrown, { vm with env })
    else (.next, dropRef rt (access clazz sfield { vm with env }) clazz)

/-- What a field of one word is read as: a field that is no `int` is a `float`. -/
def wordType (type : Char) : Char := if type = 'I' then 'I' else 'F'

def wideType (type : Char) : Char := if type = 'J' then 'J' else 'D'

/-- The value of a field, read into a register. -/
def readField (get : Char → Ref → Nat → σ → BitVec 64 × σ) (vdst : Nat) (obj : Ref) (field : VmField)
    (vm : Vm σ) : Vm σ :=
  let (val, env) := get (wordType field.type) obj field.fieldId vm.env
  if field.type = 'I' then setRegister rt { vm with env } vdst (val.setWidth 32)
  else setRegisterFloat rt { vm with env } vdst (val.setWidth 32)

def readFieldWide (get : Char → Ref → Nat → σ → BitVec 64 × σ) (vdst : Nat) (obj : Ref) (field : VmField)
    (vm : Vm σ) : Vm σ :=
  let (val, env) := get (wideType field.type) obj field.fieldId vm.env
  setRegisterWide rt { vm with env } vdst val

def readFieldObject (get : Char → Ref → Nat → σ → BitVec 64 × σ) (vdst : Nat) (obj : Ref) (field : VmField)
    (vm : Vm σ) : Vm σ :=
  let (val, env) := get 'L' obj field.fieldId vm.env
  setRegisterAsObject rt { vm with env } vdst val

def readFieldSmall (get : Char → Ref → Nat → σ → BitVec 64 × σ) (c : Char) (vdst : Nat) (obj : Ref)
    (field : VmField) (vm : Vm σ) : Vm σ :=
  let (val, env) := get c obj field.fieldId vm.env
  setRegister rt { vm with env } vdst (widen c (val.setWidth 32))

/-- The handlers of static fields have the call of the runtime in the macro that sets the register. -/
def readStaticField (vdst : Nat) (clazz : Ref) (sfield : VmField) (vm : Vm σ) : Vm σ :=
  if sfield.type = 'I' then
    putRegisterFrom rt vm vdst (fun env =>
      let (val, env) := rt.getStaticField 'I' clazz sfield.fieldId env
      ((val.setWidth 32).setWidth 64, env)) false
  else
    putRegisterFrom rt vm vdst (fun env =>
      let (val, env) := rt.getStaticField 'F' clazz sfield.fieldId env
      (((vm.fp vdst) >>> 32) <<< 32 ||| (val.setWidth 32).setWidth 64, env)) false

def readStaticFieldWide (vdst : Nat) (clazz : Ref) (sfield : VmField) (vm : Vm σ) : Vm σ :=
  putRegisterFrom rt vm vdst (rt.getStaticField (wideType sfield.type) clazz sfield.fieldId) false

def readStaticFieldObject (vdst : Nat) (clazz : Ref) (sfield : VmField) (vm : Vm σ) : Vm σ :=
  putRegisterFrom rt vm vdst (rt.getStaticField 'L' clazz sfield.fieldId) true

def readStaticFieldSmall (c : Char) (vdst : Nat) (clazz : Ref) (sfield : VmField) (vm : Vm σ) : Vm σ :=
  putRegisterFrom rt vm vdst (fun env =>
    let (val, env) := rt.getStaticField c clazz sfield.fieldId env
    ((widen c (val.setWidth 32)).setWidth 64, env)) false

/-- A value stored to a field: a field of another type than the two of the opcode is left alone. -/
def writeField (set : Char → Ref → Nat → BitVec 64 → σ → σ) (types : List Char) (val : BitVec 64) (obj : Ref)
    (field : VmField) (vm : Vm σ) : Vm σ :=
  if types.contains field.type then { vm with env := set field.type obj field.fieldId val vm.env } else vm

def writeFieldAs (set : Char → Ref → Nat → BitVec 64 → σ → σ) (c : Char) (val : BitVec 64) (obj : Ref)
    (field : VmField) (vm : Vm σ) : Vm σ :=
  { vm with env := set c obj field.fieldId val vm.env }

/-! ### New arrays -/

/-- `NEW_ARRAY`, for an array of a type that is given by its letter and its descriptor. `none` is the exit
    for a class that is not found. -/
def newArrayOf (typeCh : Char) (type : List Char) (len : BitVec 32) (vm : Vm σ) : Option Ref × Vm σ :=
  if ['Z', 'B', 'C', 'S', 'I', 'F', 'J', 'D'].contains typeCh then
    let (newArray, env) := rt.newPrimitiveArray typeCh len vm.env
    (some newArray, { vm with env })
  else if typeCh = 'L' ∨ typeCh = '[' then
    let (arrayClass, env) := rt.dvmFindClass type vm.env
    if arrayClass = 0 then (none, { vm with env })
    else
      let (newArray, env) := rt.newObjectArray len arrayClass env
      (some newArray, dropRef rt { vm with env } arrayClass)
  else (some 0, { vm with env := rt.throwNew (.runtime "Can't new array") vm.env })

def execNewArray (o : Operands β) (vm : Vm σ) : Flow β × Vm σ :=
  let length := getRegister vm o.vB
  if length.slt 0 then throwNew rt vm (.negativeArraySize length)
  else
    match rt.dvmResolveTypeUtf o.ref vm.env with
    | (none, env) => (.exceptionThrown, { vm with env })
    | (some type, env) =>
      match newArrayOf rt (type.getD 1 (Char.ofNat 0)) (type.drop 1) length { vm with env } with
      | (none, vm) => (.exceptionThrown, vm)
      | (some newArray, vm) =>
        if newArray = 0 then (.exceptionThrown, vm)
        else (.next, setRegisterAsObject rt vm o.vA newArray)

/-- `SET_ARRAY_ELEMENT`, for the types that `filled-new-array` takes. -/
def setArrayElement (typeCh : Char) (array : Ref) (vm : Vm σ) (idx vsrc : Nat) : Vm σ :=
  if typeCh = 'L' ∨ typeCh = '[' then
    { vm with env := rt.setObjectArrayElement array (BitVec.ofNat 32 idx) (getRegisterWide vm vsrc) vm.env }
  else
    { vm with env := rt.setArrayRegion typeCh array (BitVec.ofNat 32 idx) (getRegister vm vsrc) vm.env }

/-- The order in which the elements are stored: the fifth register comes first. -/
def fillOrder (regs : List Nat) : List (Nat × Nat) :=
  let elements := (List.range regs.length).zip regs
  elements.drop 4 ++ elements.take 4

def execFilledNewArray (range : Bool) (o : Operands β) (vm : Vm σ) : Flow β × Vm σ :=
  match rt.dvmResolveTypeUtf o.ref vm.env with
  | (none, env) => throwNew rt { vm with env } .nullPointer
  | (some type, env) =>
    let vm := { vm with env }
    let typeCh := type.getD 1 (Char.ofNat 0)
    if typeCh = 'D' ∨ typeCh = 'J' then throwNew rt vm (.runtime "bad filled array req")
    else if typeCh ≠ 'L' ∧ typeCh ≠ '[' ∧ typeCh ≠ 'I' then
      throwNew rt vm (.internal "filled-new-array not implemented for anything but 'int'")
    else
      match newArrayOf rt typeCh (type.drop 1) (BitVec.ofNat 32 o.vA) vm with
      | (none, vm) => (.exceptionThrown, vm)
      | (some newArray, vm) =>
        if newArray = 0 then (.exceptionThrown, vm)
        else
          let elements := if range then (List.range o.regs.length).zip o.regs else fillOrder o.regs
          let vm := elements.foldl (fun vm e => setArrayElement rt typeCh newArray vm e.1 e.2) vm
          (.next, { vm with retval := newArray })

/-! ### Calls -/

/-- The registers an argument takes. -/
def regwidth (typeCh : Char) : Nat := if typeCh = 'J' ∨ typeCh = 'D' then 2 else 1

/-- `SET_ARGUMENT` -/
def setArgument (vm : Vm σ) (typeCh : Char) (vsrc : Nat) : Argument :=
  if ['Z', 'B', 'S', 'C', 'I'].contains typeCh then .i (getRegister vm vsrc)
  else if typeCh = 'F' then .f (getRegister vm vsrc)
  else if typeCh = 'J' then .j (getRegisterWide vm vsrc)
  else if typeCh = 'D' then .d (getRegisterWide vm vsrc)
  else if typeCh = 'L' then .l (getRegisterWide vm vsrc)
  else .unset

/-- The loop over the argument registers of `INVOKE_METHOD` and `INVOKE_STATIC_METHOD`. A register behind the
    last type leaves its argument unset. -/
def setArguments (vm : Vm σ) : List Char → List Nat → List Argument
  | [], regs => regs.map (fun _ => .unset)
  | _ :: _, [] => []
  | typeCh :: types, vsrc :: regs =>
    setArgument vm typeCh vsrc :: setArguments vm types (regs.drop (regwidth typeCh - 1))

/-- Where the result of a call goes. -/
def setRetval (vm : Vm σ) (returnCh : Char) (val : BitVec 64) : Vm σ :=
  if ['Z', 'B', 'C', 'S', 'I', 'F'].contains returnCh then setRetvalLow vm (val.setWidth 32)
  else if ['J', 'D', 'L'].contains returnCh then { vm with retval := val }
  else vm

/-- The call of the method, with its arguments. -/
def callMethod (vm : Vm σ) (target : Dispatch) (m : VmMethod) (args : List Argument) : Vm σ :=
  let returnCh := m.shorty.getD 0 'V'
  let (val, env) := rt.callMethodA target returnCh m.methodId args vm.env
  setRetval { vm with env } returnCh val

/-- `invokeVirtual`, `invokeInterface`, `invokeSuper` and `invokeDirect`: the receiver is checked before the
    method is resolved, and the last two resolve the class of the method for the call. -/
def execInvoke (virtual : Bool) (o : Operands β) (vm : Vm σ) : Flow β × Vm σ :=
  let thisPtr := getRegisterWide vm o.vC
  if thisPtr = 0 then throwNew rt vm .nullPointer
  else
    match rt.dvmResolveMethod o.ref false vm.env with
    | (none, env) => (.exceptionThrown, { vm with env })
    | (some m, env) =>
      let args := setArguments vm (m.shorty.drop 1) (o.regs.drop 1)
      if virtual then checked rt (callMethod rt { vm with env } (.virtual thisPtr) m args)
      else
        let (clazz, env) := rt.dvmResolveClass m.classIdx env
        let vm := callMethod rt { vm with env } (.nonvirtual thisPtr clazz) m args
        checked rt { vm with env := rt.deleteLocalRef clazz vm.env }

def execInvokeStatic (o : Operands β) (vm : Vm σ) : Flow β × Vm σ :=
  match rt.dvmResolveMethod o.ref true vm.env with
  | (none, env) => (.exceptionThrown, { vm with env })
  | (some m, env) =>
    let args := setArguments vm (m.shorty.drop 1) o.regs
    let (clazz, env) := rt.dvmResolveClass m.classIdx env
    let vm := callMethod rt { vm with env } (.static clazz) m args
    checked rt { vm with env := rt.deleteLocalRef clazz vm.env }

/-! ### The rest -/

def execMonitor (act : Ref → σ → Bool × σ) (o : Operands β) (vm : Vm σ) : Flow β × Vm σ :=
  let obj := getRegisterWide vm o.vA
  if obj = 0 then throwNew rt vm .nullPointer
  else
    let (ok, env) := act obj vm.env
    (if ok then .next else .exceptionThrown, { vm with env })

def execCheckCast (o : Operands β) (vm : Vm σ) : Flow β × Vm σ :=
  let obj := getRegisterWide vm o.vA
  if obj = 0 then (.next, vm)
  else
    let (clazz, env) := rt.dvmResolveClass o.ref vm.env
    let vm := { vm with env }
    if clazz = 0 then (.exceptionThrown, vm)
    else if rt.isInstanceOf obj clazz env then (.next, dropRef rt vm clazz)
    else (.exceptionThrown, dropRef rt { vm with env := rt.throwNew .classCast env } clazz)

def execInstanceOf (o : Operands β) (vm : Vm σ) : Flow β × Vm σ :=
  let obj := getRegisterWide vm o.vB
  if obj = 0 then (.next, setRegister rt vm o.vA 0)
  else
    let (clazz, env) := rt.dvmResolveClass o.ref vm.env
    let vm := { vm with env }
    if clazz = 0 then (.exceptionThrown, vm)
    else
      let isInstanceOf := rt.isInstanceOf obj clazz env
      (.next, dropRef rt (setRegister rt vm o.vA (if isInstanceOf then 1 else 0)) clazz)

def execArrayLength (o : Operands β) (vm : Vm σ) : Flow β × Vm σ :=
  let arrayObj := getRegisterWide vm o.vB
  if arrayObj = 0 then throwNew rt vm .nullPointer
  else (.next, setRegister rt vm o.vA (rt.getArrayLength arrayObj vm.env))

def execNewInstance (o : Operands β) (vm : Vm σ) : Flow β × Vm σ :=
  let (clazz, env) := rt.dvmResolveClass o.ref vm.env
  if clazz = 0 then (.exceptionThrown, { vm with env })
  else
    let (newObj, env) := rt.allocObject clazz env
    if newObj = 0 then (.exceptionThrown, dropRef rt { vm with env } clazz)
    else (.next, dropRef rt (setRegisterAsObject rt { vm with env } o.vA newObj) clazz)

/-- `OP_CONST_STRING` and `OP_CONST_CLASS`: a reference the resolver gives, or an exception. -/
def execConstRef (resolve : BitVec 32 → σ → Ref × σ) (o : Operands β) (vm : Vm σ) : Flow β × Vm σ :=
  let (r, env) := resolve o.ref vm.env
  if r = 0 then (.exceptionThrown, { vm with env }) else (.next, setRegisterAsObject rt { vm with env } o.vA r)

def execFillArrayData (arrayData : List Nat) (o : Operands β) (vm : Vm σ) : Flow β × Vm σ :=
  let arrayObj := getRegisterWide vm o.vA
  match dvmInterpHandleFillArrayData arrayObj (rt.getArrayLength arrayObj vm.env) arrayData with
  | .error e => throwNew rt vm e
  | .ok (width, size) =>
    if [1, 2, 4, 8].contains width then
      (.next, { vm with env := rt.copyArrayData arrayObj width size (arrayData.drop 4) vm.env })
    else (.unhandled, vm)

def execThrow (o : Operands β) (vm : Vm σ) : Flow β × Vm σ :=
  let obj := getRegisterWide vm o.vA
  if obj = 0 then throwNew rt vm .nullPointer
  else (.exceptionThrown, { vm with env := rt.throw obj vm.env })

/-- A switch goes on even where its table was refused, with the exception pending. -/
def execSwitch (found : Int × Option Thrown) (vm : Vm σ) : Flow β × Vm σ :=
  match found with
  | (offset, none) => (.jump offset, vm)
  | (offset, some e) => (.jump offset, { vm with env := rt.throwNew e vm.env })

def execMoveException (o : Operands β) (vm : Vm σ) : Vm σ :=
  let vm := putRegisterFrom rt vm o.vA rt.exceptionOccurred true
  { vm with env := rt.exceptionClear vm.env }

def execMoveObject (o : Operands β) (vm : Vm σ) : Vm σ :=
  let (newRef, env) := rt.newLocalRef (getRegisterWide vm o.vB) vm.env
  setRegisterAsObject rt { vm with env } o.vA newRef

/-- A handler on its operands. `payload` is the table that an operand points to. -/
def exec (payload : β → List Nat) (h : Handler) (o : Operands β) (vm : Vm σ) : Flow β × Vm σ :=
  let int (idx : Nat) : BitVec 32 := getRegister vm idx
  let wide (idx : Nat) : BitVec 64 := getRegisterWide vm idx
  let word (idx : Nat) : BitVec 64 := (getRegister vm idx).setWidth 64
  match h with
  | .nop => (.next, vm)
  | .move _ => (.next, setRegister rt vm o.vA (int o.vB))
  | .moveWide _ => (.next, setRegisterWide rt vm o.vA (wide o.vB))
  | .moveObject _ => (.next, execMoveObject rt o vm)
  | .moveResult => (.next, setRegister rt vm o.vA (vm.retval.setWidth 32))
  | .moveResultWide => (.next, setRegisterWide rt vm o.vA vm.retval)
  | .moveResultObject => (.next, setRegisterAsObject rt vm o.vA vm.retval)
  | .moveException => (.next, execMoveException rt o vm)
  | .returnVoid => (.returnFromMethod, vm)
  | .ret => (.returnFromMethod, setRetvalLow vm (int o.vA))
  | .returnWide | .returnObject => (.returnFromMethod, { vm with retval := wide o.vA })
  | .const _ => (.next, setRegister rt vm o.vA (BitVec.ofInt 32 o.lit))
  | .constHigh16 => (.next, setRegister rt vm o.vA (BitVec.ofInt 32 o.lit <<< 16))
  | .constWide _ => (.next, setRegisterWide rt vm o.vA (BitVec.ofInt 64 o.lit))
  | .constWideHigh16 => (.next, setRegisterWide rt vm o.vA (BitVec.ofInt 64 o.lit <<< 48))
  | .constString _ => execConstRef rt rt.dvmConstantString o vm
  | .constClass => execConstRef rt rt.dvmResolveClass o vm
  | .monitorEnter => execMonitor rt rt.monitorEnter o vm
  | .monitorExit => execMonitor rt rt.monitorExit o vm
  | .checkCast => execCheckCast rt o vm
  | .instanceOf => execInstanceOf rt o vm
  | .arrayLength => execArrayLength rt o vm
  | .newInstance => execNewInstance rt o vm
  | .newArray => execNewArray rt o vm
  | .filledNewArray range => execFilledNewArray rt range o vm
  | .fillArrayData => execFillArrayData rt (payload o.branch) o vm
  | .throw => execThrow rt o vm
  | .goto _ => (.branch o.branch, vm)
  | .packedSwitch => execSwitch rt (dvmInterpHandlePackedSwitch (payload o.branch) (int o.vA)) vm
  | .sparseSwitch => execSwitch rt (dvmInterpHandleSparseSwitch (payload o.branch) (int o.vA)) vm
  | .cmpFloat nanVal =>
    (.next, setRegister rt vm o.vA (cmpResult nanVal (fpu.compareFloat (int o.vB) (int o.vC))))
  | .cmpDouble nanVal =>
    (.next, setRegister rt vm o.vA (cmpResult nanVal (fpu.compareDouble (wide o.vB) (wide o.vC))))
  | .cmpLong => (.next, setRegister rt vm o.vA (cmpResult 0 (some (compareLong (wide o.vB) (wide o.vC)))))
  | .ifEq => (branchIf o (sameRegisters rt vm o.vA o.vB), vm)
  | .ifNe => (branchIf o (!sameRegisters rt vm o.vA o.vB), vm)
  | .ifXX cmp => (branchIf o (cmp.holds (int o.vA) (int o.vB)), vm)
  | .ifXXZ cmp => (branchIf o (cmp.holds (int o.vA) 0), vm)
  | .aget w => execAget rt w o vm
  | .agetObject => execAgetObject rt o vm
  | .agetSmall c => execAgetSmall rt c o vm
  | .aput w => execAput rt w o vm
  | .aputObject => execAputObject rt o vm
  | .aputSmall c => execAputSmall rt c o vm
  | .iget => withField rt o vm (readField rt rt.getField o.vA)
  | .igetWide => withField rt o vm (readFieldWide rt rt.getField o.vA)
  | .igetObject => withField rt o vm (readFieldObject rt rt.getField o.vA)
  | .igetSmall c => withField rt o vm (readFieldSmall rt rt.getField c o.vA)
  | .iput => withField rt o vm (writeField rt.setField ['I', 'F'] (word o.vA))
  | .iputWide => withField rt o vm (writeField rt.setField ['J', 'D'] (wide o.vA))
  | .iputObject => withField rt o vm (writeFieldAs rt.setField 'L' (wide o.vA))
  | .iputSmall c => withField rt o vm (writeFieldAs rt.setField c (word o.vA))
  | .sget => withStaticField rt o vm (readStaticField rt o.vA)
  | .sgetWide => withStaticField rt o vm (readStaticFieldWide rt o.vA)
  | .sgetObject => withStaticField rt o vm (readStaticFieldObject rt o.vA)
  | .sgetSmall c => withStaticField rt o vm (readStaticFieldSmall rt c o.vA)
  | .sput => withStaticField rt o vm (writeField rt.setStaticField ['I', 'F'] (word o.vA))
  | .sputWide => withStaticField rt o vm (writeField rt.setStaticField ['J', 'D'] (wide o.vA))
  | .sputObject => withStaticField rt o vm (writeFieldAs rt.setStaticField 'L' (wide o.vA))
  | .sputSmall c => withStaticField rt o vm (writeFieldAs rt.setStaticField c (word o.vA))
  | .invokeVirtual _ | .invokeInterface _ => execInvoke rt true o vm
  | .invokeSuper _ | .invokeDirect _ => execInvoke rt false o vm
  | .invokeStatic _ => execInvokeStatic rt o vm
  | .unop op => (.next, execUnop rt fpu op o vm)
  | .xInt op => finishInt rt vm o.vA (binop op (int o.vB) (int o.vC))
  | .shxInt op => (.next, setRegister rt vm o.vA (shiftop op 0x1f (int o.vB) (int o.vC)))
  | .xLong op => finishLong rt vm o.vA (binop op (wide o.vB) (wide o.vC))
  | .shxLong op => (.next, setRegisterWide rt vm o.vA (shiftop op 0x3f (wide o.vB) (int o.vC)))
  | .xFloat op => (.next, setRegisterFloat rt vm o.vA (fpu.float op (int o.vB) (int o.vC)))
  | .xDouble op => (.next, setRegisterWide rt vm o.vA (fpu.double op (wide o.vB) (wide o.vC)))
  | .xInt2addr op => finishInt rt vm o.vA (binop op (int o.vA) (int o.vB))
  | .shxInt2addr op => (.next, setRegister rt vm o.vA (shiftop op 0x1f (int o.vA) (int o.vB)))
  | .xLong2addr op => finishLong rt vm o.vA (binop op (wide o.vA) (wide o.vB))
  | .shxLong2addr op => (.next, setRegisterWide rt vm o.vA (shiftop op 0x3f (wide o.vA) (int o.vB)))
  | .xFloat2addr op => (.next, setRegisterFloat rt vm o.vA (fpu.float op (int o.vA) (int o.vB)))
  | .xDouble2addr op => (.next, setRegisterWide rt vm o.vA (fpu.double op (wide o.vA) (wide o.vB)))
  | .xIntLit16 op | .xIntLit8 op => finishInt rt vm o.vA (binop op (int o.vB) (BitVec.ofInt 32 o.lit))
  | .rsubInt | .rsubIntLit8 => (.next, setRegister rt vm o.vA (BitVec.ofInt 32 o.lit - int o.vB))
  | .shxIntLit8 op => (.next, setRegister rt vm o.vA (shiftop op 0x1f (int o.vB) (BitVec.ofInt 32 o.lit)))
  | .unhandled => (.unhandled, vm)

end Exec

end ArtPi.Interp.Machine
