import ArtPi.Dex.Assemble
import ArtPi.Interp.Constants

set_option autoImplicit false

/-! # The machine of the interpreter (`vm/InterpC-portable.cpp`)

The state that `vmInterpret` works on: the registers of the frame with the flags that say which of them hold
a local reference, the value of the last call, and the runtime behind JNI. The runtime, the resolver and the
floating point unit are parameters.

A handler reads the operands of its instruction by the instruction's format, `decode`. What a branch leads to
is a displacement here; the type is left open, so that the same handlers also run a list that has labels. -/

namespace ArtPi.Interp.Machine

open Dex Constants

/-- `jobject`. The null reference is 0. -/
abbrev Ref : Type := BitVec 64

/-- What the interpreter throws itself, with the texts it gives. -/
inductive Thrown where
  | nullPointer
  | arithmetic (msg : String)
  | arrayIndexOutOfBounds (length index : BitVec 32)
  | negativeArraySize (size : BitVec 32)
  | classCast
  | runtime (msg : String)
  | internal (msg : String)
  deriving DecidableEq

structure VmField where
  classIdx : BitVec 32
  type : Char
  fieldId : Nat
  deriving DecidableEq

structure VmMethod where
  classIdx : BitVec 32
  shorty : List Char
  methodId : Nat
  deriving DecidableEq

/-- A `jvalue` of an argument list, by the member that was stored. -/
inductive Argument where
  | i (val : BitVec 32)
  | f (val : BitVec 32)
  | j (val : BitVec 64)
  | d (val : BitVec 64)
  | l (val : Ref)
  | unset
  deriving DecidableEq

/-- `Call<Type>MethodA`, `CallNonvirtual<Type>MethodA` and `CallStatic<Type>MethodA`. -/
inductive Dispatch where
  | virtual (thisPtr : Ref)
  | nonvirtual (thisPtr clazz : Ref)
  | static (clazz : Ref)

/-- `JNIWrapper` and `vmResolver`: what the interpreter has the runtime do. A primitive type is given by its
    letter. -/
structure Runtime (σ : Type) where
  deleteLocalRef : Ref → σ → σ
  newLocalRef : Ref → σ → Ref × σ
  isSameObject : Ref → Ref → σ → Bool
  isInstanceOf : Ref → Ref → σ → Bool
  exceptionCheck : σ → Bool
  exceptionOccurred : σ → Ref × σ
  exceptionClear : σ → σ
  throw : Ref → σ → σ
  throwNew : Thrown → σ → σ
  monitorEnter : Ref → σ → Bool × σ
  monitorExit : Ref → σ → Bool × σ
  allocObject : Ref → σ → Ref × σ
  getArrayLength : Ref → σ → BitVec 32
  newPrimitiveArray : Char → BitVec 32 → σ → Ref × σ
  newObjectArray : BitVec 32 → Ref → σ → Ref × σ
  getObjectArrayElement : Ref → BitVec 32 → σ → Ref × σ
  setObjectArrayElement : Ref → BitVec 32 → Ref → σ → σ
  /-- An element of a pinned array of words, or of double words. -/
  readArray : Bool → Ref → BitVec 32 → σ → BitVec 64
  writeArray : Bool → Ref → BitVec 32 → BitVec 64 → σ → σ
  getArrayRegion : Char → Ref → BitVec 32 → σ → BitVec 32 × σ
  setArrayRegion : Char → Ref → BitVec 32 → BitVec 32 → σ → σ
  /-- `memcpy` of so many elements of a width to the start of an array. -/
  copyArrayData : Ref → Nat → Nat → List Nat → σ → σ
  getField : Char → Ref → Nat → σ → BitVec 64 × σ
  setField : Char → Ref → Nat → BitVec 64 → σ → σ
  getStaticField : Char → Ref → Nat → σ → BitVec 64 × σ
  setStaticField : Char → Ref → Nat → BitVec 64 → σ → σ
  callMethodA : Dispatch → Char → Nat → List Argument → σ → BitVec 64 × σ
  dvmConstantString : BitVec 32 → σ → Ref × σ
  dvmResolveClass : BitVec 32 → σ → Ref × σ
  dvmResolveField : BitVec 32 → Bool → σ → Option VmField × σ
  dvmResolveMethod : BitVec 32 → Bool → σ → Option VmMethod × σ
  dvmResolveTypeUtf : BitVec 32 → σ → Option (List Char) × σ
  dvmFindClass : List Char → σ → Ref × σ

inductive FloatOp where
  | add | sub | mul | div | rem
  deriving DecidableEq

/-- Floating point, on the bits. `compare` has no result for operands that are not ordered. -/
structure Fpu where
  float : FloatOp → BitVec 32 → BitVec 32 → BitVec 32
  double : FloatOp → BitVec 64 → BitVec 64 → BitVec 64
  negFloat : BitVec 32 → BitVec 32
  negDouble : BitVec 64 → BitVec 64
  compareFloat : BitVec 32 → BitVec 32 → Option Ordering
  compareDouble : BitVec 64 → BitVec 64 → Option Ordering
  intToFloat : BitVec 32 → BitVec 32
  intToDouble : BitVec 32 → BitVec 64
  longToFloat : BitVec 64 → BitVec 32
  longToDouble : BitVec 64 → BitVec 64
  floatToInt : BitVec 32 → BitVec 32
  floatToLong : BitVec 32 → BitVec 64
  floatToDouble : BitVec 32 → BitVec 64
  doubleToInt : BitVec 64 → BitVec 32
  doubleToLong : BitVec 64 → BitVec 64
  doubleToFloat : BitVec 64 → BitVec 32

/-! ## The frame -/

/-- `fp`, `fp_flags` and `retval`, and the state of the runtime. -/
structure Vm (σ : Type) where
  fp : Nat → BitVec 64
  fpFlags : Nat → Bool
  retval : BitVec 64
  env : σ

section Macros

variable {σ : Type}

/-- `GET_REGISTER` -/
def getRegister (vm : Vm σ) (idx : Nat) : BitVec 32 := (vm.fp idx).setWidth 32

/-- `GET_REGISTER_WIDE`, `GET_REGISTER_DOUBLE` and `GET_REGISTER_AS_OBJECT` -/
def getRegisterWide (vm : Vm σ) (idx : Nat) : BitVec 64 := vm.fp idx

/-- `DELETE_LOCAL_REF` -/
def deleteLocalRef (rt : Runtime σ) (vm : Vm σ) (idx : Nat) : Vm σ :=
  if vm.fpFlags idx then { vm with env := rt.deleteLocalRef (vm.fp idx) vm.env } else vm

def storeRegister (vm : Vm σ) (idx : Nat) (val : BitVec 64) (flag : Bool) : Vm σ :=
  { vm with fp := Function.update vm.fp idx val, fpFlags := Function.update vm.fpFlags idx flag }

/-- What the `SET_REGISTER` macros have in common. -/
def putRegister (rt : Runtime σ) (vm : Vm σ) (idx : Nat) (val : BitVec 64) (flag : Bool) : Vm σ :=
  storeRegister (deleteLocalRef rt vm idx) idx val flag

/-- A macro whose value is a call of the runtime, which comes behind `DELETE_LOCAL_REF`. -/
def putRegisterFrom (rt : Runtime σ) (vm : Vm σ) (idx : Nat) (call : σ → BitVec 64 × σ) (flag : Bool) : Vm σ :=
  let vm := deleteLocalRef rt vm idx
  let (val, env) := call vm.env
  storeRegister { vm with env } idx val flag

/-- `SET_REGISTER` -/
def setRegister (rt : Runtime σ) (vm : Vm σ) (idx : Nat) (val : BitVec 32) : Vm σ :=
  putRegister rt vm idx (val.setWidth 64) false

/-- `SET_REGISTER_WIDE` and `SET_REGISTER_DOUBLE` -/
def setRegisterWide (rt : Runtime σ) (vm : Vm σ) (idx : Nat) (val : BitVec 64) : Vm σ :=
  putRegister rt vm idx val false

/-- `SET_REGISTER_FLOAT`, which stores through a `float*` and leaves the upper half alone. -/
def setRegisterFloat (rt : Runtime σ) (vm : Vm σ) (idx : Nat) (val : BitVec 32) : Vm σ :=
  putRegister rt vm idx (((vm.fp idx) >>> 32) <<< 32 ||| val.setWidth 64) false

/-- `SET_REGISTER_AS_OBJECT` -/
def setRegisterAsObject (rt : Runtime σ) (vm : Vm σ) (idx : Nat) (val : Ref) : Vm σ :=
  putRegister rt vm idx val true

/-- A store to `retval.i` or `retval.f`. -/
def setRetvalLow (vm : Vm σ) (val : BitVec 32) : Vm σ :=
  { vm with retval := (vm.retval >>> 32) <<< 32 ||| val.setWidth 64 }

end Macros

/-! ## Operands -/

/-- The operands of an instruction, under the letters of its format. Of the formats with a register list
    `vA` is the count and `vC` the first register. -/
structure Operands (β : Type) where
  vA : Nat := 0
  vB : Nat := 0
  vC : Nat := 0
  lit : Int := 0
  ref : BitVec 32 := 0
  regs : List Nat := []
  branch : β

/-- The signed reading of a byte. -/
def s1 (n : Nat) : Int := if n < 2 ^ 7 then n else (n : Int) - 2 ^ 8

/-- The registers of `{vC, vD, vE, vF, vG}`. -/
def regList (u0 u2 : UInt16) : List Nat :=
  [u2.toNat &&& 0xf, u2.toNat >>> 4 &&& 0xf, u2.toNat >>> 8 &&& 0xf, u2.toNat >>> 12, instA u0].take (instB u0)

/-- How the handlers read the operands of an instruction of a format. -/
def decode (fmt : Format) (code : List Nat) (pc : Nat) : Operands Int :=
  let u0 := fetch code pc 0
  let u (offset : Nat) : Nat := (fetch code pc offset).toNat
  match fmt with
  | .k12x => { vA := instA u0, vB := instB u0, branch := 0 }
  | .k22x => { vA := instAA u0, vB := u 1, branch := 0 }
  | .k32x => { vA := u 1, vB := u 2, branch := 0 }
  | .k11n => { vA := instA u0, lit := ((BitVec.ofNat 32 (instB u0) <<< 28).sshiftRight 28).toInt, branch := 0 }
  | .k21s => { vA := instAA u0, lit := s2 (u 1), branch := 0 }
  | .k31i => { vA := instAA u0, lit := s4 (u 1 ||| u 2 <<< 16), branch := 0 }
  | .k21h => { vA := instAA u0, lit := u 1, branch := 0 }
  | .k51l => { vA := instAA u0, lit := (u 1 ||| u 2 <<< 16 ||| u 3 <<< 32 ||| u 4 <<< 48 : Nat), branch := 0 }
  | .k11x => { vA := instAA u0, branch := 0 }
  | .k21c => { vA := instAA u0, ref := BitVec.ofNat 32 (u 1), branch := 0 }
  | .k31c => { vA := instAA u0, ref := BitVec.ofNat 32 (u 1 ||| u 2 <<< 16), branch := 0 }
  | .k22c => { vA := instA u0, vB := instB u0, ref := BitVec.ofNat 32 (u 1), branch := 0 }
  | .k23x => { vA := instAA u0, vB := u 1 &&& 0xff, vC := u 1 >>> 8, branch := 0 }
  | .k22b => { vA := instAA u0, vB := u 1 &&& 0xff, lit := s1 (u 1 >>> 8), branch := 0 }
  | .k22s => { vA := instA u0, vB := instB u0, lit := s2 (u 1), branch := 0 }
  | .k10t => { branch := s1 (instAA u0) }
  | .k20t => { branch := s2 (u 1) }
  | .k30t => { branch := s4 (u 1 ||| u 2 <<< 16) }
  | .k21t => { vA := instAA u0, branch := s2 (u 1) }
  | .k22t => { vA := instA u0, vB := instB u0, branch := s2 (u 1) }
  | .k31t => { vA := instAA u0, branch := s4 (u 1 ||| u 2 <<< 16) }
  | .k35c =>
    { vA := instB u0, vC := u 2 &&& 0xf, ref := BitVec.ofNat 32 (u 1)
      regs := regList u0 (fetch code pc 2), branch := 0 }
  | .k3rc =>
    { vA := instAA u0, vC := u 2, ref := BitVec.ofNat 32 (u 1)
      regs := (List.range (instAA u0)).map (u 2 + ·), branch := 0 }
  | _ => { branch := 0 }

end ArtPi.Interp.Machine
