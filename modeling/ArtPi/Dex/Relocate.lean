import ArtPi.Dex.Units
import ArtPi.Sandbox.Catch

set_option autoImplicit false

/-! # Indexes in the image (`slicer/writer.cc`)

An instruction is assembled with the index under which its string, type, field or method was made. The writer
sorts them, and `WriteInstructions` goes through the code once more and puts the final index in the place of
each. `CodeOf.relocate` says that what comes out is the code of the same list with the final indexes. -/

namespace ArtPi.Dex

open Sandbox (kNoIndex)

/-- `InstructionIndexType`, as far as an opcode has one of them. -/
inductive IndexType where
  | unknown | none | typeRef | stringRef | methodRef | fieldRef | vtableOffset | fieldOffset
  | methodAndProtoRef | callSiteRef | methodHandleRef | protoRef
  deriving DecidableEq

/-- The index types of the opcodes, by runs. -/
def indexTypeRuns : List (Nat × IndexType) :=
  [(0x00, .none), (0x1a, .stringRef), (0x1c, .typeRef), (0x1d, .none), (0x1f, .typeRef), (0x21, .none),
   (0x22, .typeRef), (0x26, .none), (0x3e, .unknown), (0x44, .none), (0x52, .fieldRef), (0x6e, .methodRef),
   (0x73, .none), (0x74, .methodRef), (0x79, .unknown), (0x7b, .none), (0xe3, .fieldOffset),
   (0xe9, .vtableOffset), (0xeb, .fieldOffset), (0xf3, .unknown), (0xfa, .methodAndProtoRef),
   (0xfc, .callSiteRef), (0xfe, .methodHandleRef), (0xff, .protoRef)]

def getIndexTypeFromOpcode (opcode : Opcode) : IndexType := lookupRun .unknown indexTypeRuns opcode.toNat

/-! ## `WriteInstructions` -/

/-- The maps from the index under which something was made to the final one, `none` where `at` throws. -/
structure IndexMaps where
  string : Nat → Option Nat
  type : Nat → Option Nat
  field : Nat → Option Nat
  method : Nat → Option Nat
  proto : Nat → Option Nat
  methodHandle : Nat → Option Nat

/-- `MapStringIndex` and its relatives, with the check of `WriteInstructions` that there is an index. -/
def mapIndex (indexes : Nat → Option Nat) (index : Nat) : Option Nat :=
  if index = kNoIndex then none else (indexes index).filter (· ≠ kNoIndex)

def idxSize : Format → Nat
  | .k20bc | .k21c | .k35c | .k3rc | .k22c => 2
  | .k31c => 4
  | .k45cc | .k4rcc => 2
  | _ => 0

/-- An index in unit `k` of an instruction. The new one has to fit there. -/
def relocate16 (fmt : Format) (indexes : Nat → Option Nat) (k : Nat) (code : List Nat) : Option (List Nat) :=
  if idxSize fmt = 2 then
    (mapIndex indexes (code.getD k 0)).bind (fun new => if new < 2 ^ 16 then some (code.set k new) else none)
  else none

/-- `ReadU4` and `WriteU4` -/
def relocate32 (indexes : Nat → Option Nat) (code : List Nat) : Option (List Nat) :=
  (mapIndex indexes (code.getD 1 0 ||| code.getD 2 0 <<< 16)).map
    (fun new => (code.set 1 (new &&& 0xffff)).set 2 (new >>> 16))

/-- The instruction at the front. `none` is a failed check. -/
def relocateInsn (maps : IndexMaps) (code : List Nat) : Option (List Nat) :=
  let opcode : Opcode := UInt8.ofNat (code.getD 0 0 &&& 0xff)
  let fmt := getFormatFromOpcode opcode
  match getIndexTypeFromOpcode opcode with
  | .stringRef => if idxSize fmt = 4 then relocate32 maps.string code else relocate16 fmt maps.string 1 code
  | .typeRef => relocate16 fmt maps.type 1 code
  | .fieldRef => relocate16 fmt maps.field 1 code
  | .methodRef => relocate16 fmt maps.method 1 code
  | .methodAndProtoRef => (relocate16 fmt maps.method 1 code).bind (relocate16 fmt maps.proto 3)
  | .methodHandleRef => relocate16 fmt maps.methodHandle 1 code
  | _ => some code

/-- The loop, on the units from `ptr` on. The width is read behind the relocation. -/
def relocateFrom (maps : IndexMaps) : Nat → List Nat → Option (List Nat)
  | _, [] => some []
  | 0, _ :: _ => none
  | fuel + 1, code =>
    match relocateInsn maps code with
    | none => none
    | some code =>
      let isize := getWidthFromBytecode code
      if isize = 0 ∨ code.length < isize then none
      else (relocateFrom maps fuel (code.drop isize)).map (code.take isize ++ ·)

def writeInstructions (maps : IndexMaps) (instructions : List Nat) : Option (List Nat) :=
  if instructions = [] then none else relocateFrom maps instructions.length instructions

/-! ## The operands of the list -/

/-- The table that an operand of the list has its index in. -/
def SymbolicOperand.indexType : SymbolicOperand → Option IndexType
  | .string _ => some .stringRef
  | .type _ => some .typeRef
  | .field _ _ _ => some .fieldRef
  | .method _ _ _ => some .methodRef
  | _ => none

def IndexMaps.of (maps : IndexMaps) : IndexType → Nat → Option Nat
  | .stringRef => maps.string
  | .typeRef => maps.type
  | .fieldRef => maps.field
  | .methodRef => maps.method
  | _ => fun _ => none

/-- The final indexes of the operands. -/
def relink (maps : IndexMaps) (ctx : SymbolicOperand → Nat) (operand : SymbolicOperand) : Nat :=
  ((operand.indexType.map (fun t => maps.of t (u4 (ctx operand)))).getD none).getD 0

/-- The operands that have an index are of the kind that the opcode wants. -/
def IndexKinds (is : List SymbolicInstruction) : Prop :=
  ∀ opcode operands, .bytecode opcode operands ∈ is → ∀ o ∈ operands, ∀ t, o.indexType = some t →
    t = getIndexTypeFromOpcode (effOp opcode)

/-- The units of an index. -/
def indexBits (fmt : Format) : Nat := if fmt = .k31c then 32 else 16

/-- Every index has a final one, which fits into the instruction. -/
def Mapped (maps : IndexMaps) (ctx : SymbolicOperand → Nat) (is : List SymbolicInstruction) : Prop :=
  ∀ opcode operands, .bytecode opcode operands ∈ is → ∀ o ∈ operands, ∀ t, o.indexType = some t →
    u4 (ctx o) ≠ kNoIndex ∧ ∃ new, maps.of t (u4 (ctx o)) = some new ∧ new ≠ kNoIndex ∧
      new < 2 ^ indexBits (getFormatFromOpcode (effOp opcode))

/-- An operand, and the same with its final index. -/
inductive Relinked (indexes : Nat → Option Nat) (bits : Nat) : Operand → Operand → Prop where
  | vreg (reg : Nat) : Relinked indexes bits (.vreg reg) (.vreg reg)
  | vregList (registers : List Nat) : Relinked indexes bits (.vregList registers) (.vregList registers)
  | const32 (c : Nat) : Relinked indexes bits (.const32 c) (.const32 c)
  | codeLocation (label : Int) : Relinked indexes bits (.codeLocation label) (.codeLocation label)
  | indexed {index new : Nat} : mapIndex indexes index = some new → new < 2 ^ bits →
      Relinked indexes bits (.indexed index) (.indexed new)

theorem mapIndex_of_ne {indexes : Nat → Option Nat} {index new : Nat} (hindex : index ≠ kNoIndex)
    (h : indexes index = some new) (hnew : new ≠ kNoIndex) : mapIndex indexes index = some new := by
  rw [mapIndex, if_neg hindex, h, Option.filter_some, if_pos (by simpa using hnew)]

theorem relinked_link {maps : IndexMaps} {ctx : SymbolicOperand → Nat} {is : List SymbolicInstruction}
    (hkinds : IndexKinds is) (hmapped : Mapped maps ctx is) {opcode : Opcode} {operands : List SymbolicOperand}
    (hi : .bytecode opcode operands ∈ is) {o : SymbolicOperand} (ho : o ∈ operands) :
    Relinked (maps.of (getIndexTypeFromOpcode (effOp opcode))) (indexBits (getFormatFromOpcode (effOp opcode)))
      (link ctx o) (link (relink maps ctx) o) := by
  have hindexed {t : IndexType} (ht : o.indexType = some t) :
      Relinked (maps.of (getIndexTypeFromOpcode (effOp opcode))) (indexBits (getFormatFromOpcode (effOp opcode)))
        (.indexed (u4 (ctx o))) (.indexed (u4 (relink maps ctx o))) := by
    obtain ⟨hindex, new, hnew, hne, hlt⟩ := hmapped opcode operands hi o ho t ht
    have hsmall : new < 2 ^ 32 := by
      unfold indexBits at hlt
      split at hlt <;> omega
    have hrelink : u4 (relink maps ctx o) = new := by
      rw [relink, ht, Option.map_some, Option.getD_some, hnew, Option.getD_some, u4, Nat.mod_eq_of_lt hsmall]
    rw [hrelink, ← hkinds opcode operands hi o ho t ht]
    exact .indexed (mapIndex_of_ne hindex hnew hne) hlt
  cases o with
  | vreg reg => exact .vreg _
  | vregList regs => exact .vregList _
  | const32 c => exact .const32 _
  | labelTarget l => exact .codeLocation _
  | string | type | field | method => exact hindexed rfl

/-! ## One instruction -/

section Insn

variable {opcode : Opcode} {maps : IndexMaps} {u : Nat} {rest : List Nat}

set_option maxRecDepth 8192 in
/-- The opcodes without an index in their format, those with one, and the one with two. -/
theorem indexType_of_format : ∀ op < 256,
    (idxSize (getFormatFromOpcode (UInt8.ofNat op)) = 0 →
      [IndexType.stringRef, .typeRef, .fieldRef, .methodRef, .methodAndProtoRef, .methodHandleRef].contains
        (getIndexTypeFromOpcode (UInt8.ofNat op)) = false) ∧
    (getFormatFromOpcode (UInt8.ofNat op) = .k31c → getIndexTypeFromOpcode (UInt8.ofNat op) = .stringRef) ∧
    (getFormatFromOpcode (UInt8.ofNat op) = .k45cc → getIndexTypeFromOpcode (UInt8.ofNat op) = .methodAndProtoRef) := by
  have hall : ∀ x ∈ ((spreadRuns .unknown 0 indexTypeRuns 256).zip formats).zipIdx,
      (idxSize x.1.2 = 0 →
        [IndexType.stringRef, .typeRef, .fieldRef, .methodRef, .methodAndProtoRef, .methodHandleRef].contains x.1.1 =
          false) ∧
      (x.1.2 = .k31c → x.1.1 = .stringRef) ∧ (x.1.2 = .k45cc → x.1.1 = .methodAndProtoRef) := by
    decide
  intro op hlt
  exact hall _ (mem_zipIdx_zip (getElem?_spreadRuns_opcode .unknown indexTypeRuns hlt) (getElem?_formats hlt))

theorem relocateInsn_plain (hu : IsHead opcode u) (hsize : idxSize (getFormatFromOpcode opcode) = 0) :
    relocateInsn maps (u :: rest) = some (u :: rest) := by
  have hplain := (indexType_of_format _ opcode.toNat_lt).1
  rw [UInt8.ofNat_toNat] at hplain
  have hnone := hplain hsize
  simp only [relocateInsn, List.getD_cons_zero, isHead_opcode hu]
  revert hnone
  cases getIndexTypeFromOpcode opcode <;> simp

theorem indexType_of_mapIndex {t : IndexType} {index new : Nat} (h : mapIndex (maps.of t) index = some new) :
    t = .stringRef ∨ t = .typeRef ∨ t = .fieldRef ∨ t = .methodRef := by
  cases t <;> simp [mapIndex, IndexMaps.of] at h ⊢

theorem relocateInsn_16 (hu : IsHead opcode u) (hsize : idxSize (getFormatFromOpcode opcode) = 2) {index new : Nat}
    (h : mapIndex (maps.of (getIndexTypeFromOpcode opcode)) index = some new) (hnew : new < 2 ^ 16) :
    relocateInsn maps (u :: index :: rest) = some (u :: new :: rest) := by
  simp only [relocateInsn, List.getD_cons_zero, isHead_opcode hu]
  rcases indexType_of_mapIndex h with ht | ht | ht | ht <;>
    · rw [ht] at h ⊢
      simp only [IndexMaps.of] at h
      simp only [hsize, relocate16, if_true, List.getD_cons_succ, List.getD_cons_zero, h, Option.bind_some, if_pos hnew,
        List.set_cons_succ, List.set_cons_zero, Nat.reduceEqDiff, if_false]

theorem relocateInsn_32 (hu : IsHead opcode u) (hfmt : getFormatFromOpcode opcode = .k31c) {index new : Nat}
    (h : mapIndex (maps.of (getIndexTypeFromOpcode opcode)) index = some new) :
    relocateInsn maps (u :: index % 65536 :: index / 65536 :: rest) =
      some (u :: new % 65536 :: new / 65536 :: rest) := by
  have hstring := (indexType_of_format _ opcode.toNat_lt).2.1
  rw [UInt8.ofNat_toNat] at hstring
  have hread : index % 65536 ||| (index / 65536) <<< 16 = index := by
    rw [Nat.or_comm, ← Nat.shiftLeft_add_eq_or_of_lt (i := 16) (by omega), Nat.shiftLeft_eq]
    omega
  rw [hstring hfmt] at h
  simp only [relocateInsn, List.getD_cons_zero, isHead_opcode hu, hstring hfmt, hfmt, idxSize, if_true, relocate32,
    List.getD_cons_succ, hread, show mapIndex maps.string index = some new from h, Option.map_some,
    List.set_cons_succ, List.set_cons_zero, low16, high16]

theorem Units.isHead {operands : List Operand} {units : List Nat}
    (h : Units opcode.toNat (getFormatFromOpcode opcode) operands units) :
    ∃ u tail, units = u :: tail ∧ IsHead opcode u := by
  have hop := opcode.toNat_lt
  have hzero : opcode.toNat = 0 → getFormatFromOpcode opcode = .k10x := by
    intro h0
    rw [getFormatFromOpcode, h0]
    rfl
  generalize getFormatFromOpcode opcode = fmt at h hzero
  cases h <;> first
    | exact ⟨_, _, rfl, by omega, fun h0 => by simpa using hzero h0⟩
    | exact ⟨_, _, rfl, by omega, id⟩

theorem eq_of_relinked {indexes : Nat → Option Nat} {bits : Nat} {operands operands' : List Operand}
    (h : List.Forall₂ (Relinked indexes bits) operands operands') (hnone : ∀ o ∈ operands, ∀ i, o ≠ .indexed i) :
    operands' = operands := by
  induction h with
  | nil => rfl
  | cons hhead _ ih =>
    rw [ih (fun o ho => hnone o (List.mem_cons_of_mem _ ho))]
    cases hhead with
    | indexed => exact absurd rfl (hnone _ List.mem_cons_self _)
    | vreg | vregList | const32 | codeLocation => rfl

theorem relinked_two {R : Operand → Operand → Prop} {x y : Operand} {operands' : List Operand}
    (h : List.Forall₂ R [x, y] operands') : ∃ x' y', operands' = [x', y'] ∧ R x x' ∧ R y y' := by
  cases h with
  | cons hx h =>
    cases h with
    | cons hy h =>
      cases h
      exact ⟨_, _, rfl, hx, hy⟩

theorem relinked_three {R : Operand → Operand → Prop} {x y z : Operand} {operands' : List Operand}
    (h : List.Forall₂ R [x, y, z] operands') : ∃ x' y' z', operands' = [x', y', z'] ∧ R x x' ∧ R y y' ∧ R z z' := by
  cases h with
  | cons hx h =>
    obtain ⟨y', z', rfl, hy, hz⟩ := relinked_two h
    exact ⟨_, y', z', rfl, hx, hy, hz⟩

/-- The relocation of an instruction puts the final index into its units, and does not touch a displacement. -/
theorem Units.relocate {operands operands' : List Operand} {units : List Nat}
    (h : Units opcode.toNat (getFormatFromOpcode opcode) operands units)
    (hops : List.Forall₂ (Relinked (maps.of (getIndexTypeFromOpcode opcode)) (indexBits (getFormatFromOpcode opcode)))
      operands operands') (after : List Nat) :
    ∃ units', relocateInsn maps (units ++ after) = some (units' ++ after) ∧
      Units opcode.toNat (getFormatFromOpcode opcode) operands' units' ∧
      (labelIndex (getFormatFromOpcode opcode) ≠ none → units' = units) := by
  obtain ⟨u, tail, hunits, hu⟩ := h.isHead
  have hplain (hsize : idxSize (getFormatFromOpcode opcode) = 0) (hops' : ∀ o ∈ operands, ∀ i, o ≠ .indexed i) :
      ∃ units', relocateInsn maps (units ++ after) = some (units' ++ after) ∧
        Units opcode.toNat (getFormatFromOpcode opcode) operands' units' ∧
        (labelIndex (getFormatFromOpcode opcode) ≠ none → units' = units) := by
    refine ⟨units, ?_, eq_of_relinked hops hops' ▸ h, fun _ => rfl⟩
    rw [hunits]
    exact relocateInsn_plain hu hsize
  have h45 := (indexType_of_format _ opcode.toNat_lt).2.2
  rw [UInt8.ofNat_toNat] at h45
  have h16 {index new : Nat} (rest : List Nat) (hsize : idxSize (getFormatFromOpcode opcode) = 2)
      (hmap : mapIndex (maps.of (getIndexTypeFromOpcode opcode)) index = some new) (hnew : new < 2 ^ 16) :
      relocateInsn maps (u :: index :: rest) = some (u :: new :: rest) := relocateInsn_16 hu hsize hmap hnew
  have h32 {index new : Nat} (rest : List Nat) (hfmt : getFormatFromOpcode opcode = .k31c)
      (hmap : mapIndex (maps.of (getIndexTypeFromOpcode opcode)) index = some new) :
      relocateInsn maps (u :: index % 65536 :: index / 65536 :: rest) =
        some (u :: new % 65536 :: new / 65536 :: rest) := relocateInsn_32 hu hfmt hmap
  generalize getFormatFromOpcode opcode = fmt at *
  cases h with
  | @k22c a b i ha hb hi =>
    obtain ⟨_, _, _, rfl, ⟨⟩, ⟨⟩, hindexed⟩ := relinked_three hops
    cases hindexed with
    | indexed hmap hnew =>
      obtain rfl := (List.cons.inj hunits).1
      exact ⟨[_, _], h16 after rfl hmap hnew, .k22c ha hb hnew, by simp [labelIndex]⟩
  | @k21c a i ha hi =>
    obtain ⟨_, _, rfl, ⟨⟩, hindexed⟩ := relinked_two hops
    cases hindexed with
    | indexed hmap hnew =>
      obtain rfl := (List.cons.inj hunits).1
      exact ⟨[_, _], h16 after rfl hmap hnew, .k21c ha hnew, by simp [labelIndex]⟩
  | @k31c a i ha hi =>
    obtain ⟨_, _, rfl, ⟨⟩, hindexed⟩ := relinked_two hops
    cases hindexed with
    | indexed hmap hnew =>
      obtain rfl := (List.cons.inj hunits).1
      exact ⟨[_, _, _], h32 after rfl hmap, .k31c ha hnew, by simp [labelIndex]⟩
  | @k35c regs i hregs hlt hi =>
    obtain ⟨_, _, rfl, ⟨⟩, hindexed⟩ := relinked_two hops
    cases hindexed with
    | indexed hmap hnew =>
      obtain rfl := (List.cons.inj hunits).1
      exact ⟨[_, _, _], h16 (_ :: after) rfl hmap hnew, .k35c hregs hlt hnew, by simp [labelIndex]⟩
  | k45cc =>
    obtain ⟨_, _, _, rfl, -, hindexed, -⟩ := relinked_three hops
    rw [h45 rfl] at hindexed
    cases hindexed with
    | indexed hmap => exact absurd hmap (by simp [mapIndex, IndexMaps.of])
  | _ => exact hplain rfl (by simp)

theorem relocateFrom_round {code units after : List Nat} (h : relocateInsn maps code = some (units ++ after))
    (hne : code ≠ []) (hunits : ∃ u tail, units = u :: tail ∧ IsHead opcode u)
    (hlen : units.length = getWidthFromFormat (getFormatFromOpcode opcode)) (fuel : Nat) :
    relocateFrom maps (fuel + 1) code = (relocateFrom maps fuel after).map (units ++ ·) := by
  obtain ⟨u, tail, rfl, hu⟩ := hunits
  have hwidth : getWidthFromBytecode (u :: tail ++ after) = (u :: tail).length := by
    have hcases : u % 256 ≠ 0 ∨ u = 0 := by
      by_cases hz : opcode.toNat = 0
      · exact .inr (hu.2 hz)
      · exact .inl (by rw [hu.1]; exact hz)
    rw [List.cons_append, getWidthFromBytecode_insn hcases, isHead_opcode hu, hlen]
  obtain ⟨c, cs, rfl⟩ := List.exists_cons_of_ne_nil hne
  rw [relocateFrom, h]
  swap
  · exact hne
  simp only [hwidth]
  rw [if_neg (by simp), List.drop_left, List.take_left]

end Insn

/-! ## The whole code -/

theorem CodeOf.relocate {maps : IndexMaps} {ctx : SymbolicOperand → Nat} {first : Int → Option Nat} {p : Nat}
    {is : List SymbolicInstruction} {code : List Nat} (h : CodeOf ctx first p is code) (hkinds : IndexKinds is)
    (hmapped : Mapped maps ctx is) {fuel : Nat} (hfuel : code.length ≤ fuel) :
    ∃ code', relocateFrom maps fuel code = some code' ∧ CodeOf (relink maps ctx) first p is code' := by
  induction h generalizing fuel with
  | nil p => exact ⟨[], by cases fuel <;> rfl, .nil p⟩
  | label _ ih =>
    obtain ⟨code', hcode', hof⟩ := ih (fun _ _ hi => hkinds _ _ (List.mem_cons_of_mem _ hi))
      (fun _ _ hi => hmapped _ _ (List.mem_cons_of_mem _ hi)) hfuel
    exact ⟨code', hcode', .label hof⟩
  | @nop p is code _ ih =>
    obtain ⟨fuel, rfl⟩ : ∃ n, fuel = n + 1 := ⟨fuel - 1, by rw [List.length_cons] at hfuel; omega⟩
    obtain ⟨code', hcode', hof⟩ := ih (fun _ _ hi => hkinds _ _ (List.mem_cons_of_mem _ hi))
      (fun _ _ hi => hmapped _ _ (List.mem_cons_of_mem _ hi)) (Nat.le_of_succ_le_succ hfuel)
    have hhead : IsHead OP_NOP 0 := ⟨rfl, fun _ => rfl⟩
    refine ⟨0 :: code', ?_, .nop hof⟩
    have hunit : relocateInsn maps (0 :: code) = some ([0] ++ code) := relocateInsn_plain hhead rfl
    rw [relocateFrom_round hunit (by simp) ⟨0, [], rfl, hhead⟩ rfl, hcode']
    rfl
  | @insn p opcode operands units is code hunits hpoints _ ih =>
    have hlen : units.length = getWidthFromFormat (getFormatFromOpcode (effOp opcode)) := hunits.length
    have hpos := getWidthFromFormat_pos (getFormatFromOpcode (effOp opcode))
    rw [List.length_append] at hfuel
    obtain ⟨fuel, rfl⟩ : ∃ n, fuel = n + 1 := ⟨fuel - 1, by omega⟩
    obtain ⟨code', hcode', hof⟩ := ih (fun _ _ hi => hkinds _ _ (List.mem_cons_of_mem _ hi))
      (fun _ _ hi => hmapped _ _ (List.mem_cons_of_mem _ hi)) (show code.length ≤ fuel by omega)
    have hops : List.Forall₂ (Relinked (maps.of (getIndexTypeFromOpcode (effOp opcode)))
        (indexBits (getFormatFromOpcode (effOp opcode)))) (operands.map (link ctx))
        (operands.map (link (relink maps ctx))) := by
      rw [List.forall₂_map_left_iff, List.forall₂_map_right_iff, List.forall₂_same]
      exact fun o ho => relinked_link hkinds hmapped List.mem_cons_self ho
    obtain ⟨units', hunit, hunits', hsame⟩ := hunits.relocate hops code
    refine ⟨units' ++ code', ?_, .insn hunits' (fun l short hl => ?_) hof⟩
    · rw [relocateFrom_round hunit (by rw [Ne, List.append_eq_nil_iff]; rintro ⟨rfl, -⟩; simp at hlen; omega)
        hunits'.isHead hunits'.length, hcode']
      rfl
    · have hindex : labelIndex (getFormatFromOpcode (effOp opcode)) ≠ none := by
        obtain ⟨_, _, k, heq, hk⟩ := exists_of_target hl
        obtain ⟨rfl, rfl⟩ := SymbolicInstruction.bytecode.inj heq
        rw [hk]
        exact Option.some_ne_none _
      rw [hsame hindex]
      exact hpoints l short hl

/-- Relocating the code of an accepted list gives the code of the list with the final indexes. -/
theorem writeInstructions_assembled {maps : IndexMaps} {ctx : SymbolicOperand → Nat} {w : Writer} {out : Assembled}
    (hasm : assembleInto ctx w = .ok out) (hsize : size w.instructions < 2 ^ 31) (hkinds : IndexKinds w.instructions)
    (hmapped : Mapped maps ctx w.instructions) :
    ∃ code', writeInstructions maps out.code = some code' ∧
      CodeOf (relink maps ctx) (firstPlacement 0 w.instructions) 0 w.instructions code' := by
  obtain ⟨code', hcode', hof⟩ := (codeOf_of_accepted hasm hsize).relocate hkinds hmapped le_rfl
  refine ⟨code', ?_, hof⟩
  have hne : out.code ≠ [] := by
    have hlen := (codeOf_of_accepted hasm hsize).length
    simp only [assembleInto, bind_ok] at hasm
    obtain ⟨_, hcount, _⟩ := hasm
    obtain ⟨i, hi, hbytecode⟩ := List.countP_pos_iff.1 (Nat.pos_of_ne_zero (of_decide_eq_true (require_ok.1 hcount)))
    intro hnil
    rw [hnil] at hlen
    have hwidth := size_eq_zero hlen.symm i hi
    cases i with
    | label l => exact absurd hbytecode (by simp [SymbolicInstruction.isBytecode])
    | nop => exact absurd hbytecode (by simp [SymbolicInstruction.isBytecode])
    | bytecode opcode operands => exact absurd hwidth (width_bytecode_pos opcode operands).ne'
  rw [writeInstructions, if_neg hne, hcode']

end ArtPi.Dex
