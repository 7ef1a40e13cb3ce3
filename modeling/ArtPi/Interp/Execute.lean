import ArtPi.Interp.Handlers
import ArtPi.Lib.Lockstep
import ArtPi.Sandbox.Catch

set_option autoImplicit false

/-! # The loop of the interpreter (`vm/InterpC-portable.cpp`, `vm/Exception.cpp`)

`FINISH` fetches an instruction and goes to its handler; an exception goes to the handler of a `try` that
covers the instruction, or ends the run. The hooks of the tracer are left out. -/

namespace ArtPi.Interp.Machine

open Dex Constants Sandbox Lib

variable {σ : Type}

/-- `vmCode`: the units, and the handlers that the table of the method has for an address, if it has one. -/
structure VmCode where
  insns : List Nat
  triesHandlers : Option (Nat → List VmCatchHandler)

/-- How `vmInterpret` is left. The position is outside of the code, or at an opcode without a handler, where
    nothing can be said about what it does. -/
inductive Exit (σ : Type) where
  | returned (vm : Vm σ)
  | bailed (vm : Vm σ)
  | outside (vm : Vm σ)
  | unhandled (vm : Vm σ)

/-- `findCatchInMethod`, on the handlers for the address: -1 if there is none. -/
def findCatchInMethod (rt : Runtime σ) (exceptObj : Ref) : List VmCatchHandler → σ → Int × σ
  | [], env => (-1, env)
  | handler :: rest, env =>
    if handler.typeIdx = kNoIndex then (s4 (u4 handler.address), env)
    else
      let (throwable, env) := rt.dvmResolveClass (BitVec.ofNat 32 handler.typeIdx) env
      if throwable = 0 then findCatchInMethod rt exceptObj rest (rt.exceptionClear env)
      else if rt.isInstanceOf exceptObj throwable env then
        (s4 (u4 handler.address), rt.deleteLocalRef throwable env)
      else findCatchInMethod rt exceptObj rest (rt.deleteLocalRef throwable env)

def dvmFindCatchBlock (rt : Runtime σ) (triesHandlers : Option (Nat → List VmCatchHandler)) (relPc : Nat)
    (exception : Ref) (env : σ) : Int × σ :=
  match triesHandlers with
  | none => (-1, env)
  | some handlers =>
    let (catchAddr, env) := findCatchInMethod rt exception (handlers relPc) env
    (catchAddr, rt.exceptionClear env)

def OP_MOVE_EXCEPTION : Nat := 0x0d

/-- `exceptionThrown` -/
def exceptionThrown (rt : Runtime σ) (code : VmCode) (pc : Nat) (vm : Vm σ) : (Int × Vm σ) ⊕ Exit σ :=
  let (exception, env) := rt.exceptionOccurred vm.env
  let env := rt.exceptionClear env
  if exception = 0 then .inr (.bailed { vm with env })
  else
    let (catchRelPc, env) := dvmFindCatchBlock rt code.triesHandlers pc exception env
    if catchRelPc < 0 then
      .inr (.bailed { vm with env := rt.deleteLocalRef exception (rt.throw exception env) })
    else
      let moves := instInst (fetch code.insns catchRelPc.toNat 0) = OP_MOVE_EXCEPTION
      let env := if moves then rt.throw exception env else env
      .inl (catchRelPc, { vm with env := rt.deleteLocalRef exception env })

/-- `FINISH` and the `GOTO`s, behind an instruction of a width. -/
def finish (rt : Runtime σ) (code : VmCode) (pc width : Nat) : Flow Int × Vm σ → (Int × Vm σ) ⊕ Exit σ
  | (.next, vm) => .inl (pc + width, vm)
  | (.branch offset, vm) => .inl (pc + offset, vm)
  | (.jump offset, vm) => .inl (pc + offset, vm)
  | (.exceptionThrown, vm) => exceptionThrown rt code pc vm
  | (.returnFromMethod, vm) => .inr (.returned vm)
  | (.unhandled, vm) => .inr (.unhandled vm)

/-- The handler of an instruction. -/
def dispatch (rt : Runtime σ) (fpu : Fpu) (code : VmCode) (pc : Nat) (vm : Vm σ) : (Int × Vm σ) ⊕ Exit σ :=
  let h := handlerOf (instInst (fetch code.insns pc 0))
  let payload (offset : Int) : List Nat := code.insns.drop (pc + offset).toNat
  finish rt code pc (getWidthFromFormat h.form) (exec rt fpu payload h (decode h.form code.insns pc) vm)

/-- One round of the loop, from wherever the last one went. -/
def vmStep (rt : Runtime σ) (fpu : Fpu) (code : VmCode) (s : Int × Vm σ) : (Int × Vm σ) ⊕ Exit σ :=
  if 0 ≤ s.1 ∧ s.1 < code.insns.length then dispatch rt fpu code s.1.toNat s.2
  else .inr (.outside s.2)

/-- `vmInterpret`, for a number of instructions. -/
def vmInterpret (rt : Runtime σ) (fpu : Fpu) (code : VmCode) (rounds : Nat) (vm : Vm σ) :
    (Int × Vm σ) ⊕ Exit σ :=
  runFor (vmStep rt fpu code) rounds (0, vm)

end ArtPi.Interp.Machine
