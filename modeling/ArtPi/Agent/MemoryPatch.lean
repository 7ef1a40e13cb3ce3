import ArtPi.Lib.Memory
import Mathlib.Data.List.Induction

set_option autoImplicit false

/-! # Memory patches (`src/agent/agent_memory.cpp`, `KittyMemory/MemoryPatch.cpp`)

`Memory.patch` saves the bytes that it overwrites, and `Memory.restoreAll` writes them all back, in
the order in which the patches were made. Where two patches overlap, the later one has saved bytes of
the earlier one, and it is restored last. Every address is mapped and can be written. -/

namespace ArtPi.Agent

open Lib

/-! ## Hex strings -/

def isHexDigit (c : Char) : Bool :=
  ('0' ≤ c && c ≤ '9') || ('a' ≤ c && c ≤ 'f') || ('A' ≤ c && c ≤ 'F')

def hexDigit (c : Char) : Nat :=
  if c ≤ '9' then c.toNat - '0'.toNat
  else if c ≤ 'F' then c.toNat - 'A'.toNat + 10
  else c.toNat - 'a'.toNat + 10

/-- `trim_string`: all white space is removed, also between the digits. -/
def trimString (str : List Char) : List Char :=
  str.filter (fun c => !(c = ' ' || c = '\n' || c = '\r' || c = '\t' || c.toNat = 11 || c.toNat = 12))

/-- What `validateHexString` leaves in its argument: no `0x` in front, and no white space. -/
def hexDigits (hex : List Char) : List Char :=
  trimString (if hex.take 2 = ['0', 'x'] then hex.drop 2 else hex)

def validateHexString (hex : List Char) : Bool :=
  !((hexDigits hex).length < 2 || (hexDigits hex).length % 2 ≠ 0) && (hexDigits hex).all isHexDigit

def dataFromHex : List Char → List UInt8
  | a :: b :: rest => UInt8.ofNat (16 * hexDigit a + hexDigit b) :: dataFromHex rest
  | _ => []

theorem dataFromHex_pos {hex : List Char} (h : validateHexString hex = true) :
    0 < (dataFromHex (hexDigits hex)).length := by
  unfold validateHexString at h
  match hdigits : hexDigits hex with
  | a :: b :: rest => exact Nat.succ_pos _
  | [_] => exact absurd h (by simp [hdigits])
  | [] => exact absurd h (by simp [hdigits])

/-! ## Patches -/

/-- A valid `MemoryPatch`. -/
structure MemoryPatch where
  address : Nat
  origCode : List UInt8
  patchCode : List UInt8
  address_pos : 0 < address
  size_pos : 0 < patchCode.length
  size_eq : origCode.length = patchCode.length

/-- `MemoryPatch::createWithHex`; `none` is a patch that is not valid. -/
def createWithHex (m : Memory) (absolute_address : Nat) (hex : List Char) : Option MemoryPatch :=
  if h : 0 < absolute_address ∧ validateHexString hex = true then
    some
      { address := absolute_address
        origCode := m.read absolute_address (dataFromHex (hexDigits hex)).length
        patchCode := dataFromHex (hexDigits hex)
        address_pos := h.1
        size_pos := dataFromHex_pos h.2
        size_eq := Memory.length_read m _ _ }
  else none

def MemoryPatch.modify (p : MemoryPatch) (m : Memory) : Memory := m.write p.address p.patchCode

def MemoryPatch.restore (p : MemoryPatch) (m : Memory) : Memory := m.write p.address p.origCode

/-- The arguments of `Memory.patch`: an address, or a module and an offset. `base` is where the module
    is mapped, if it is. -/
inductive PatchCall where
  | address (addr : Int64) (hex : List Char)
  | module (modName : String) (base : Option UInt64) (rva : Int64) (hex : List Char)

/-- The memory of the process, and `g_activePatches`. -/
structure Patched where
  memory : Memory
  activePatches : List MemoryPatch

def createFailed : String :=
  "Memory.patch: failed to create patch (check hex format or address protection)"

/-- The address that a call is about, or the exception it throws. -/
def PatchCall.target : PatchCall → Except String (Nat × List Char)
  | .address addr hex =>
    if addr = 0 ∨ addr < 0x1000 then .error "Memory.patch: invalid address"
    else .ok (addr.toUInt64.toNat, hex)
  | .module modName none _ _ => .error ("Memory.patch: module " ++ modName ++ " not found")
  | .module _ (some base) rva hex => .ok ((base + rva.toUInt64).toNat, hex)

/-- `JsMemoryPatch`. -/
def jsMemoryPatch (s : Patched) (c : PatchCall) : Except String Patched :=
  match c.target with
  | .error e => .error e
  | .ok (absolute_address, hex) =>
    match createWithHex s.memory absolute_address hex with
    | none => .error createFailed
    | some p => .ok { memory := p.modify s.memory, activePatches := s.activePatches ++ [p] }

/-- `JsMemoryRestoreAll`, with its answer. -/
def jsMemoryRestoreAll (s : Patched) : Patched × String :=
  ({ memory := s.activePatches.foldl (fun m p => p.restore m) s.memory, activePatches := [] },
    "[+] Restored " ++ toString s.activePatches.length ++ " active memory patch(es).")

/-- A script calls `Memory.patch` and goes on when it throws. -/
def patchCalls (s : Patched) (calls : List PatchCall) : Patched :=
  calls.foldl (fun s c => (jsMemoryPatch s c).toOption.getD s) s

/-! ## Who writes where -/

/-- The byte that a call writes at an address: it depends on the arguments only. -/
def PatchCall.byteAt (c : PatchCall) (x : Nat) : Option UInt8 :=
  match c.target with
  | .error _ => none
  | .ok (absolute_address, hex) =>
    if 0 < absolute_address ∧ validateHexString hex = true then
      Memory.put absolute_address (dataFromHex (hexDigits hex)) x
    else none

/-- The bytes that the calls write at an address, in their order. -/
def writesAt (calls : List PatchCall) (x : Nat) : List UInt8 := calls.filterMap (·.byteAt x)

/-- A call throws and writes nowhere, or it makes a patch that has saved what it overwrites. -/
theorem jsMemoryPatch_cases (s : Patched) (c : PatchCall) :
    ((jsMemoryPatch s c).toOption = none ∧ ∀ x, c.byteAt x = none) ∨
      ∃ p : MemoryPatch,
        (jsMemoryPatch s c).toOption = some ⟨p.modify s.memory, s.activePatches ++ [p]⟩ ∧
        p.origCode = s.memory.read p.address p.patchCode.length ∧
        ∀ x, c.byteAt x = Memory.put p.address p.patchCode x := by
  unfold jsMemoryPatch PatchCall.byteAt
  cases c.target with
  | error e => exact Or.inl ⟨rfl, fun x => rfl⟩
  | ok at_hex =>
    obtain ⟨absolute_address, hex⟩ := at_hex
    simp only [createWithHex]
    by_cases hvalid : 0 < absolute_address ∧ validateHexString hex = true
    · rw [dif_pos hvalid]
      exact Or.inr ⟨_, rfl, rfl, fun x => if_pos hvalid⟩
    · rw [dif_neg hvalid]
      exact Or.inl ⟨rfl, fun x => if_neg hvalid⟩

/-- What is restored at an address depends only on the byte there. -/
theorem foldl_restore_congr (ps : List MemoryPatch) {m m' : Memory} {x : Nat} (h : m x = m' x) :
    ps.foldl (fun m p => p.restore m) m x = ps.foldl (fun m p => p.restore m) m' x := by
  induction ps generalizing m m' with
  | nil => exact h
  | cons p ps ih =>
    have hstep : p.restore m x = p.restore m' x := by
      unfold MemoryPatch.restore
      rw [Memory.write_apply, Memory.write_apply, h]
    exact ih hstep

/-- The byte at an address after one more call, and the byte that all patches together restore. -/
theorem patchCalls_concat (s : Patched) (calls : List PatchCall) (c : PatchCall) (x : Nat) :
    (patchCalls s (calls ++ [c])).memory x
        = (c.byteAt x).getD ((patchCalls s calls).memory x) ∧
      (jsMemoryRestoreAll (patchCalls s (calls ++ [c]))).1.memory x
        = if (c.byteAt x).isSome then (patchCalls s calls).memory x
          else (jsMemoryRestoreAll (patchCalls s calls)).1.memory x := by
  have hlast : patchCalls s (calls ++ [c])
      = (jsMemoryPatch (patchCalls s calls) c).toOption.getD (patchCalls s calls) := by
    unfold patchCalls
    rw [List.foldl_append, List.foldl_cons, List.foldl_nil]
  rw [hlast]
  generalize patchCalls s calls = s'
  rcases jsMemoryPatch_cases s' c with ⟨hthrows, hnone⟩ | ⟨p, hpatch, horig, hbyte⟩
  · rw [hthrows, hnone x]
    exact ⟨rfl, rfl⟩
  · rw [hpatch, hbyte x]
    constructor
    · exact Memory.write_apply s'.memory p.address p.patchCode x
    · -- the new patch is restored last, with the byte it found
      have hput := Memory.put_read s'.memory p.address p.patchCode x
      simp only [jsMemoryRestoreAll, Option.getD_some, List.foldl_append, List.foldl_cons,
        List.foldl_nil]
      rw [MemoryPatch.restore, Memory.write_apply, horig, hput]
      cases hb : Memory.put p.address p.patchCode x with
      | some b => rfl
      | none =>
        refine foldl_restore_congr s'.activePatches ?_
        rw [MemoryPatch.modify, Memory.write_apply, hb, Option.getD_none]

/-- After the patches an address has the last byte written there, and after restoring them the last
    but one. -/
theorem patchCalls_apply (m : Memory) (calls : List PatchCall) (x : Nat) :
    (patchCalls ⟨m, []⟩ calls).memory x = (writesAt calls x).getLast?.getD (m x) ∧
      (jsMemoryRestoreAll (patchCalls ⟨m, []⟩ calls)).1.memory x
        = (writesAt calls x).dropLast.getLast?.getD (m x) := by
  induction calls using List.reverseRecOn with
  | nil => exact ⟨rfl, rfl⟩
  | append_singleton calls c ih =>
    obtain ⟨hmemory, hrestored⟩ := ih
    obtain ⟨hmemory', hrestored'⟩ := patchCalls_concat ⟨m, []⟩ calls c x
    have hwrites : writesAt (calls ++ [c]) x = writesAt calls x ++ (c.byteAt x).toList := by
      unfold writesAt
      rw [List.filterMap_append]
      cases hb : c.byteAt x <;> simp [hb]
    rw [hmemory', hrestored', hwrites, hmemory, hrestored]
    cases c.byteAt x with
    | none => simp
    | some b => simp

/-- The patches of a list of calls are undone: no byte of memory is other than it was at first. -/
def RestoresAll (m : Memory) (calls : List PatchCall) : Prop :=
  ∀ x, (jsMemoryRestoreAll (patchCalls ⟨m, []⟩ calls)).1.memory x = m x

/-- Wherever several patches write, the last but one of them writes the byte that was there at
    first. -/
def SecondLastInitial (m : Memory) (calls : List PatchCall) : Prop :=
  ∀ x, ∀ b ∈ (writesAt calls x).dropLast.getLast?, b = m x

/-- For every memory and every list of calls, all patches are undone iff at each address the last but
    one of them writes the initial byte. -/
theorem restoresAll_iff (m : Memory) (calls : List PatchCall) :
    RestoresAll m calls ↔ SecondLastInitial m calls := by
  refine forall_congr' (fun x => ?_)
  rw [(patchCalls_apply m calls x).2]
  cases (writesAt calls x).dropLast.getLast? with
  | none => simp
  | some b => simp

/-- Two patches of one byte at the same address of a memory that is all zero. -/
def samePlace : List PatchCall := [.address 0x1000 ['0', '1'], .address 0x1000 ['0', '2']]

/-- What is restored last is the byte of the first patch. -/
theorem samePlace_not_restoresAll :
    (jsMemoryRestoreAll (patchCalls ⟨fun _ => 0, []⟩ samePlace)).1.memory 0x1000 = 1 ∧
      ¬ RestoresAll (fun _ => 0) samePlace := by
  have hone : (jsMemoryRestoreAll (patchCalls ⟨fun _ => 0, []⟩ samePlace)).1.memory 0x1000 = 1 := by
    rw [(patchCalls_apply (fun _ => 0) samePlace 0x1000).2]
    decide
  refine ⟨hone, fun h => ?_⟩
  exact absurd (hone.symm.trans (h 0x1000)) (by decide)

end ArtPi.Agent
