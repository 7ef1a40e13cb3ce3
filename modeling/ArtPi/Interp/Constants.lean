import ArtPi.Agent.Packing
import ArtPi.Dex.Layout

set_option autoImplicit false

/-! # Constants (`pi_dex_writer.cpp`, `InterpC-portable.cpp`)

`PutConst` chooses among `const/4`, `const/16` and `const`, by the register and by the value. The assembler
checks neither field of these formats itself, but the encoder does, which refuses a method whose register or
literal does not fit. The three handlers of the interpreter read the literal back, sign-extended. -/

namespace ArtPi.Interp.Constants

open Dex Sandbox

/-! ## The writer -/

def OP_CONST_4 : Opcode := 0x12
def OP_CONST_16 : Opcode := 0x13
def OP_CONST : Opcode := 0x14

/-- The operands of all three. -/
def constInsn (opcode : Opcode) (reg : UInt32) (val : Int32) : SymbolicInstruction :=
  .bytecode opcode [.vreg reg, .const32 val]

def append (w : Writer) (i : SymbolicInstruction) : Writer :=
  { w with instructions := w.instructions ++ [i] }

/-- The opcode `PutConst` chooses. -/
def putConstOp (reg : UInt32) (val : Int32) : Opcode :=
  if reg ≤ 15 ∧ val ≥ -8 ∧ val ≤ 7 then OP_CONST_4
  else if reg ≤ 255 ∧ val ≥ -32768 ∧ val ≤ 32767 then OP_CONST_16
  else OP_CONST

def putConst (w : Writer) (reg : UInt32) (val : Int32) : Writer :=
  append w (constInsn (putConstOp reg val) reg val)

def putConst4 (w : Writer) (reg : UInt32) (val : Int32) : Writer :=
  if reg > 15 ∨ val < -8 ∨ val > 7 then putConst w reg val
  else append w (constInsn OP_CONST_4 reg val)

def putConst16 (w : Writer) (reg : UInt32) (val : Int32) : Writer :=
  if reg > 255 ∨ val < -32768 ∨ val > 32767 then putConst w reg val
  else append w (constInsn OP_CONST_16 reg val)

/-- The three functions. -/
inductive Put where
  | const
  | const4
  | const16
  deriving DecidableEq

def Put.apply : Put → Writer → UInt32 → Int32 → Writer
  | const => putConst
  | const4 => putConst4
  | const16 => putConst16

/-! ## The interpreter -/

variable {Obj : Type}

/-- The registers, and the references that `DeleteLocalRef` got. -/
structure Vm (Obj : Type) where
  fp : RegisterFile Obj
  deleted : List (Option Obj)

/-- `DELETE_LOCAL_REF` -/
def deleteLocalRef (vm : Vm Obj) (idx : Nat) : Vm Obj :=
  if vm.fp.regFlags.getD idx false then
    { vm with deleted := (vm.fp.regs.getD idx (.bits 0)).ref :: vm.deleted }
  else vm

/-- `SET_REGISTER` -/
def setRegister (vm : Vm Obj) (idx : Nat) (val : UInt32) : Vm Obj :=
  let vm := deleteLocalRef vm idx
  { vm with fp := vm.fp.putSlot idx (.bits val.toUInt64) false }

def instInst (inst : UInt16) : Nat := inst.toNat &&& 0xff
def instA (inst : UInt16) : Nat := inst.toNat >>> 8 &&& 0x0f
def instB (inst : UInt16) : Nat := inst.toNat >>> 12
def instAA (inst : UInt16) : Nat := inst.toNat >>> 8

/-- `FETCH` -/
def fetch (code : List Nat) (pc offset : Nat) : UInt16 := UInt16.ofNat (code.getD (pc + offset) 0)

/-- The handlers of the three opcodes: where the interpreter goes on, and its registers. -/
def step (code : List Nat) (pc : Nat) (vm : Vm Obj) : Option (Nat × Vm Obj) :=
  let inst := fetch code pc 0
  if instInst inst = 0x12 then
    let tmp := (UInt32.ofNat (instB inst) <<< 28).toInt32 >>> 28
    some (pc + 1, setRegister vm (instA inst) tmp.toUInt32)
  else if instInst inst = 0x13 then
    some (pc + 2, setRegister vm (instAA inst) (fetch code pc 1).toInt16.toInt32.toUInt32)
  else if instInst inst = 0x14 then
    let tmp := (fetch code pc 1).toUInt32 ||| (fetch code pc 2).toUInt32 <<< 16
    some (pc + 3, setRegister vm (instAA inst) tmp)
  else none

/-! ## What the interpreter should do -/

/-- Of all registers `reg` alone is written. -/
structure Writes (vm vm' : Vm Obj) (reg : Nat) (val : UInt32) : Prop where
  value : vm'.fp.regs[reg]? = some (.bits val.toUInt64)
  flag : vm'.fp.regFlags[reg]? = some false
  others : ∀ s ≠ reg, vm'.fp.regs[s]? = vm.fp.regs[s]? ∧ vm'.fp.regFlags[s]? = vm.fp.regFlags[s]?

/-- Wherever the units stand, the interpreter writes `val` to `reg`, and goes on behind them. -/
def Loads (units : List Nat) (registers reg : Nat) (val : UInt32) : Prop :=
  ∀ (before after : List Nat) (Obj : Type) (vm : Vm Obj), vm.fp.ic.registersSize = registers →
    ∃ vm', step (before ++ (units ++ after)) before.length vm =
        some (before.length + units.length, vm') ∧ Writes vm vm' reg val

theorem fp_deleteLocalRef (vm : Vm Obj) (idx : Nat) : (deleteLocalRef vm idx).fp = vm.fp := by
  unfold deleteLocalRef
  split <;> rfl

theorem writes_setRegister (vm : Vm Obj) {idx : Nat} (h : idx < vm.fp.ic.registersSize) (val : UInt32) :
    Writes vm (setRegister vm idx val) idx val := by
  have hfp : (setRegister vm idx val).fp = vm.fp.putSlot idx (.bits val.toUInt64) false := by
    rw [setRegister, fp_deleteLocalRef]
  refine ⟨?_, ?_, fun s hs => ?_⟩
  · rw [hfp]
    exact vm.fp.getElem?_regs_putSlot_self h _ _
  · rw [hfp]
    exact vm.fp.getElem?_regFlags_putSlot_self h _ _
  · rw [hfp]
    exact vm.fp.getElem?_putSlot_of_ne hs _ _

/-! ## The fields of the units -/

theorem pack448_fields {a b c u : Nat} (h : pack448 a b c = .ok u) :
    a < 16 ∧ b < 16 ∧ c < 256 ∧ u = a * 4096 + b * 256 + c := by
  simp only [pack448, bind_ok, pure_ok, check_ok, decide_eq_true_eq, and_0xff,
    show ∀ n, n &&& 0xf = n ↔ n < 16 from fun n => and_mask_eq n 4] at h
  obtain ⟨_, ha, _, hb, _, hc, rfl⟩ := h
  have hor : a <<< 12 ||| b <<< 8 = (a <<< 4 ||| b) <<< 8 := by
    rw [Nat.shiftLeft_or_distrib, ← Nat.shiftLeft_add]
  rw [hor, ← Nat.shiftLeft_add_eq_or_of_lt (i := 8) hc, ← Nat.shiftLeft_add_eq_or_of_lt (i := 4) hb,
    Nat.shiftLeft_eq, Nat.shiftLeft_eq]
  omega

theorem pack88_fields {a b u : Nat} (h : pack88 a b = .ok u) :
    a < 256 ∧ b < 256 ∧ u = a * 256 + b := by
  simp only [pack88, bind_ok, pure_ok, check_ok, decide_eq_true_eq, and_0xff] at h
  obtain ⟨_, ha, _, hb, rfl⟩ := h
  rw [← Nat.shiftLeft_add_eq_or_of_lt (i := 8) hb, Nat.shiftLeft_eq]
  exact ⟨ha, hb, rfl⟩

theorem trimS_ok {bits value t : Nat} (h : trimS bits value = .ok t) :
    t = value % 2 ^ bits ∧
      (if t < 2 ^ (bits - 1) then t else t + (2 ^ 32 - 2 ^ bits)) = value := by
  simp only [trimS, bind_ok, pure_ok, check_ok, decide_eq_true_eq] at h
  obtain ⟨_, hsign, rfl⟩ := h
  exact ⟨rfl, hsign⟩

theorem instInst_of_fields {hi lo : Nat} (hhi : hi < 256) (hlo : lo < 256) :
    instInst (UInt16.ofNat (hi * 256 + lo)) = lo := by
  unfold instInst
  rw [UInt16.toNat_ofNat_of_lt' (show hi * 256 + lo < 2 ^ 16 by omega)]
  exact (Nat.and_two_pow_sub_one_eq_mod _ 8).trans (by omega)

theorem instAA_of_fields {hi lo : Nat} (hhi : hi < 256) (hlo : lo < 256) :
    instAA (UInt16.ofNat (hi * 256 + lo)) = hi := by
  unfold instAA
  rw [UInt16.toNat_ofNat_of_lt' (show hi * 256 + lo < 2 ^ 16 by omega), Nat.shiftRight_eq_div_pow]
  omega

theorem instA_of_fields {b a lo : Nat} (hb : b < 16) (ha : a < 16) (hlo : lo < 256) :
    instA (UInt16.ofNat (b * 4096 + a * 256 + lo)) = a := by
  unfold instA
  rw [UInt16.toNat_ofNat_of_lt' (show b * 4096 + a * 256 + lo < 2 ^ 16 by omega),
    Nat.shiftRight_eq_div_pow]
  exact (Nat.and_two_pow_sub_one_eq_mod _ 4).trans (by omega)

theorem instB_of_fields {b a lo : Nat} (hb : b < 16) (ha : a < 16) (hlo : lo < 256) :
    instB (UInt16.ofNat (b * 4096 + a * 256 + lo)) = b := by
  unfold instB
  rw [UInt16.toNat_ofNat_of_lt' (show b * 4096 + a * 256 + lo < 2 ^ 16 by omega),
    Nat.shiftRight_eq_div_pow]
  omega

theorem fetch_append (before units after : List Nat) {offset : Nat} (h : offset < units.length) :
    fetch (before ++ (units ++ after)) before.length offset = UInt16.ofNat (units.getD offset 0) := by
  unfold fetch
  rw [List.getD_append_right _ _ _ _ (Nat.le_add_right _ _), Nat.add_sub_cancel_left,
    List.getD_append _ _ _ _ h]

/-! ## The sign of a literal -/

/-- The literal of `const/4`. -/
theorem toNat_sext4 {b : Nat} (hb : b < 16) :
    ((UInt32.ofNat b <<< 28).toInt32 >>> 28).toUInt32.toNat =
      if b < 2 ^ 3 then b else b + (2 ^ 32 - 2 ^ 4) := by
  revert b
  decide

/-- The literal of `const/16`. -/
theorem toNat_sext16 {b : Nat} (hb : b < 2 ^ 16) :
    (UInt16.ofNat b).toInt16.toInt32.toUInt32.toNat =
      if b < 2 ^ 15 then b else b + (2 ^ 32 - 2 ^ 16) := by
  have hbits : (UInt16.ofNat b).toInt16.toInt32.toUInt32.toBitVec =
      (BitVec.ofNat 16 b).signExtend 32 := by
    simp [UInt16.ofNat]
  rw [← UInt32.toNat_toBitVec, hbits, BitVec.toNat_signExtend, BitVec.toNat_setWidth,
    BitVec.msb_eq_decide, BitVec.toNat_ofNat, Nat.mod_eq_of_lt hb, Nat.mod_eq_of_lt (by omega)]
  by_cases hlow : b < 2 ^ 15
  · rw [if_pos hlow, if_neg (by simpa using hlow), Nat.add_zero]
  · rw [if_neg hlow, if_pos (by simpa using hlow)]

/-- The halves of the literal of `const`. -/
theorem halves_eq (val : UInt32) :
    (UInt16.ofNat (val.toNat &&& 0xffff)).toUInt32 |||
      (UInt16.ofNat (val.toNat >>> 16)).toUInt32 <<< 16 = val := by
  have hlt := val.toNat_lt
  have hlow : val.toNat % 65536 < 2 ^ 16 := Nat.mod_lt _ (by decide)
  have hhigh : val.toNat / 65536 < 2 ^ 16 := by omega
  rw [low16, high16, ← UInt32.toNat_inj, UInt32.toNat_or, UInt32.toNat_shiftLeft,
    UInt16.toNat_toUInt32, UInt16.toNat_toUInt32, UInt16.toNat_ofNat_of_lt' hlow,
    UInt16.toNat_ofNat_of_lt' hhigh]
  have hshift : (val.toNat / 65536) <<< 16 < 2 ^ 32 := by
    rw [Nat.shiftLeft_eq]
    omega
  have hamount : UInt32.toNat 16 % 32 = 16 := rfl
  rw [hamount, Nat.mod_eq_of_lt hshift, Nat.or_comm, ← Nat.shiftLeft_add_eq_or_of_lt hlow,
    Nat.shiftLeft_eq]
  omega

/-! ## Each of the formats -/

/-- What the encoder gets for a constant. -/
def constOperands (reg : Nat) (val : UInt32) : List Operand := [.vreg reg, .const32 val.toNat]

/-- The encoder's result on its way to the interpreter: the units are the same for all labels and at every
    offset, and load the constant. -/
structure EncodesLoad (opcode : Opcode) (registers reg : Nat) (val : UInt32) (enc : Encoded) : Prop where
  always : ∀ known offset, encodeInsn known offset opcode (constOperands reg val) = .ok enc
  length : enc.units.length = getWidthFromFormat (getFormatFromOpcode opcode)
  loads : Loads enc.units registers reg val

variable {known : Int → Option Nat} {offset registers reg : Nat} {val : UInt32} {enc : Encoded}

theorem encodesLoad_const4 (hreg : reg < registers)
    (h : encodeInsn known offset OP_CONST_4 (constOperands reg val) = .ok enc) :
    EncodesLoad OP_CONST_4 registers reg val enc := by
  have hraw : encodeInsn known offset OP_CONST_4 (constOperands reg val) =
      trimS 4 val.toNat >>= fun b => pack448 b reg 0x12 >>= fun u0 => pure { units := [u0] } := rfl
  have hlength := (encodeInsn_spec h).length
  refine ⟨fun _ _ => h, hlength, ?_⟩
  rw [hraw] at h
  simp only [bind_ok, pure_ok] at h
  obtain ⟨b, htrim, u, hpack, rfl⟩ := h
  obtain ⟨hb, ha, hop, rfl⟩ := pack448_fields hpack
  obtain ⟨-, hsign⟩ := trimS_ok htrim
  intro before after Obj vm hvm
  have hinst : fetch (before ++ ([b * 4096 + reg * 256 + 0x12] ++ after)) before.length 0 =
      UInt16.ofNat (b * 4096 + reg * 256 + 0x12) := fetch_append before _ after (Nat.succ_pos _)
  have hcode : instInst (UInt16.ofNat (b * 4096 + reg * 256 + 0x12)) = 0x12 := by
    rw [show b * 4096 + reg * 256 + 0x12 = (b * 16 + reg) * 256 + 0x12 by omega]
    exact instInst_of_fields (by omega) (by decide)
  have hval : ((UInt32.ofNat b <<< 28).toInt32 >>> 28).toUInt32 = val := by
    rw [← UInt32.toNat_inj, toNat_sext4 hb]
    exact hsign
  refine ⟨setRegister vm reg val, ?_, writes_setRegister vm (hvm ▸ hreg) val⟩
  unfold step
  simp only [hinst, hcode, if_true, instA_of_fields hb ha hop, instB_of_fields hb ha hop, hval]
  rfl

theorem encodesLoad_const16 (hreg : reg < registers)
    (h : encodeInsn known offset OP_CONST_16 (constOperands reg val) = .ok enc) :
    EncodesLoad OP_CONST_16 registers reg val enc := by
  have hraw : encodeInsn known offset OP_CONST_16 (constOperands reg val) =
      trimS 16 val.toNat >>= fun b => pack88 reg 0x13 >>= fun u0 =>
        pack16 b >>= fun u1 => pure { units := [u0, u1] } := rfl
  have hlength := (encodeInsn_spec h).length
  refine ⟨fun _ _ => h, hlength, ?_⟩
  rw [hraw] at h
  simp only [bind_ok, pure_ok] at h
  obtain ⟨b, htrim, u, hpack, u1, h16, rfl⟩ := h
  obtain ⟨ha, hop, rfl⟩ := pack88_fields hpack
  obtain rfl := pack16_ok h16
  obtain ⟨hb, hsign⟩ := trimS_ok htrim
  have hlt : u1 < 2 ^ 16 := hb ▸ Nat.mod_lt _ (by decide)
  intro before after Obj vm hvm
  have hinst : fetch (before ++ ([reg * 256 + 0x13, u1] ++ after)) before.length 0 =
      UInt16.ofNat (reg * 256 + 0x13) := fetch_append before _ after (Nat.succ_pos _)
  have hlit : fetch (before ++ ([reg * 256 + 0x13, u1] ++ after)) before.length 1 = UInt16.ofNat u1 :=
    @fetch_append before [reg * 256 + 0x13, u1] after 1 (Nat.lt_succ_self _)
  have hval : (UInt16.ofNat u1).toInt16.toInt32.toUInt32 = val := by
    rw [← UInt32.toNat_inj, toNat_sext16 hlt]
    exact hsign
  refine ⟨setRegister vm reg val, ?_, writes_setRegister vm (hvm ▸ hreg) val⟩
  unfold step
  simp only [hinst, hlit, instInst_of_fields ha hop, instAA_of_fields ha hop, hval]
  rfl

theorem encodesLoad_const (hreg : reg < registers)
    (h : encodeInsn known offset OP_CONST (constOperands reg val) = .ok enc) :
    EncodesLoad OP_CONST registers reg val enc := by
  have hraw : encodeInsn known offset OP_CONST (constOperands reg val) =
      pack88 reg 0x14 >>= fun u0 => pack16 (val.toNat &&& 0xffff) >>= fun u1 =>
        pack16 (val.toNat >>> 16) >>= fun u2 => pure { units := [u0, u1, u2] } := rfl
  have hlength := (encodeInsn_spec h).length
  refine ⟨fun _ _ => h, hlength, ?_⟩
  rw [hraw] at h
  simp only [bind_ok, pure_ok] at h
  obtain ⟨u, hpack, u1, hlow, u2, hhigh, rfl⟩ := h
  obtain ⟨ha, hop, rfl⟩ := pack88_fields hpack
  obtain rfl := pack16_ok hlow
  obtain rfl := pack16_ok hhigh
  intro before after Obj vm hvm
  have hfetch : ∀ i < 3, fetch (before ++ ([reg * 256 + 0x14, val.toNat &&& 0xffff,
      val.toNat >>> 16] ++ after)) before.length i =
      UInt16.ofNat ([reg * 256 + 0x14, val.toNat &&& 0xffff, val.toNat >>> 16].getD i 0) :=
    fun i hi => fetch_append before _ after hi
  have hval : (UInt16.ofNat (val.toNat &&& 0xffff)).toUInt32 |||
      (UInt16.ofNat (val.toNat >>> 16)).toUInt32 <<< 16 = val := halves_eq val
  refine ⟨setRegister vm reg val, ?_, writes_setRegister vm (hvm ▸ hreg) val⟩
  unfold step
  rw [hfetch 0 (by decide), hfetch 1 (by decide), hfetch 2 (by decide)]
  simp only [List.getD_cons_zero, List.getD_cons_succ, instInst_of_fields ha hop, instAA_of_fields ha hop,
    hval]
  rfl

/-! ## The units in the code -/

theorem visitAll_bytecode {is : List Lir} {e e' : Encoder} (h : visitAll e is = .ok e') :
    ∃ after, e'.bytecode = e.bytecode ++ after := by
  induction is generalizing e with
  | nil =>
    obtain rfl := Except.ok.inj h
    exact ⟨[], (List.append_nil _).symm⟩
  | cons i is ih =>
    rw [visitAll, bind_ok] at h
    obtain ⟨mid, hvisit, h⟩ := h
    obtain ⟨after, hafter⟩ := ih h
    cases i with
    | label id =>
      obtain rfl := Except.ok.inj hvisit
      exact ⟨after, hafter⟩
    | bytecode opcode operands =>
      simp only [visit, bind_ok, pure_ok] at hvisit
      obtain ⟨enc, -, rfl⟩ := hvisit
      exact ⟨enc.units ++ after, by rw [hafter, List.append_assoc]⟩

/-- An instruction of an encoded list has been encoded, and its units stand at its position. -/
theorem encodes_of_visitAll {ctx : SymbolicOperand → Nat} {opcode : Opcode}
    {operands : List SymbolicOperand} {pre post : List SymbolicInstruction} {e e' : Encoder}
    {emitted : List Int}
    (h : visitAll e (emit ctx emitted (pre ++ .bytecode opcode operands :: post)) = .ok e') :
    ∃ known offset enc before after,
      encodeInsn known offset (effOp opcode) (operands.map (link ctx)) = .ok enc ∧
        e'.bytecode = e.bytecode ++ (before ++ (enc.units ++ after)) ∧ before.length = size pre := by
  induction pre generalizing e emitted with
  | nil =>
    simp only [List.nil_append, emit, visitAll, visit, bind_ok, pure_ok] at h
    obtain ⟨_, ⟨enc, henc, rfl⟩, h⟩ := h
    obtain ⟨after, hafter⟩ := visitAll_bytecode h
    exact ⟨_, _, enc, [], after, henc, by rw [hafter, List.append_assoc, List.nil_append], rfl⟩
  | cons i pre ih =>
    cases i with
    | label l =>
      have hsize : size (.label l :: pre) = size pre := Nat.zero_add _
      simp only [List.cons_append, emit] at h
      rw [hsize]
      split at h
      · exact ih h
      · simp only [visitAll, visit, bind_ok, Except.ok.injEq, exists_eq_left'] at h
        obtain ⟨known, offset, enc, before, after, henc, hcode, hlen⟩ := ih h
        exact ⟨known, offset, enc, before, after, henc, hcode, hlen⟩
    | nop =>
      have hnop : encodeInsn e.labelOffset e.offset (effOp OP_NOP) [] = .ok { units := [0] } :=
        rfl
      simp only [List.cons_append, emit, visitAll, visit, bind_ok, pure_ok, hnop, Except.ok.injEq,
        exists_eq_left'] at h
      obtain ⟨known, offset, enc, before, after, henc, hcode, hlen⟩ := ih h
      refine ⟨known, offset, enc, 0 :: before, after, henc, ?_, ?_⟩
      · rw [hcode, List.append_assoc]
        rfl
      · rw [List.length_cons, hlen, size, SymbolicInstruction.width, Nat.add_comm]
    | bytecode op ops =>
      simp only [List.cons_append, emit, visitAll, visit, bind_ok, pure_ok] at h
      obtain ⟨_, ⟨enc', henc', rfl⟩, h⟩ := h
      obtain ⟨known, offset, enc, before, after, henc, hcode, hlen⟩ := ih h
      refine ⟨known, offset, enc, enc'.units ++ before, after, henc, ?_, ?_⟩
      · rw [hcode, List.append_assoc, List.append_assoc]
      · rw [List.length_append, hlen, (encodeInsn_spec henc').length, size,
          SymbolicInstruction.width]

theorem eq_of_resolve {known : Int → Option Nat} {p a : Nat} {l : Int} {short selfOk : Bool}
    {f : LabelFixup} (h : resolve known p l short selfOk = .ok (a, some f)) : f = ⟨p, l, short⟩ := by
  cases hl : known l with
  | none => exact Option.some.inj (resolve_none h hl).2
  | some t => exact absurd (resolve_some h hl).2.1 (Option.some_ne_none f)

theorem fixups_of_emitted {ctx : SymbolicOperand → Nat} {known known' : Int → Option Nat} {p : Nat}
    {is : List SymbolicInstruction} {code : List Nat} {fixups : List LabelFixup}
    (h : Emitted ctx known p is code fixups known') {f : LabelFixup} (hf : f ∈ fixups) :
    ∃ pre i post, is = pre ++ i :: post ∧ f.offset = p + size pre ∧
      i.target = some (f.label, f.shortFixup) := by
  induction h with
  | nil => exact absurd hf List.not_mem_nil
  | @again _ _ _ l _ _ _ _ _ ih | @place _ _ _ l _ _ _ _ _ ih =>
    obtain ⟨pre, i, post, rfl, hoff, htarget⟩ := ih hf
    exact ⟨.label l :: pre, i, post, rfl, by
      rw [hoff, size, SymbolicInstruction.width, Nat.zero_add], htarget⟩
  | nop _ ih =>
    obtain ⟨pre, i, post, rfl, hoff, htarget⟩ := ih hf
    exact ⟨.nop :: pre, i, post, rfl, by
      rw [hoff, size, SymbolicInstruction.width, Nat.add_assoc], htarget⟩
  | @insn known _ p opcode operands enc _ _ _ hspec _ ih =>
    rcases List.mem_append.1 hf with hfix | hrest
    · have hsome : enc.fixup = some f := Option.mem_toList.1 hfix
      cases hlabel : labelOf (effOp opcode) (operands.map (link ctx)) with
      | none => rw [(hspec.plain hlabel).1] at hsome; exact absurd hsome (Option.some_ne_none f).symm
      | some ls =>
        obtain ⟨l, short⟩ := ls
        obtain ⟨a, selfOk, hres, -⟩ := hspec.branch l short hlabel
        obtain rfl := eq_of_resolve (hsome ▸ hres)
        exact ⟨[], _, _, rfl, rfl, by rw [← labelOf_link, hlabel]⟩
    · obtain ⟨pre, i, post, rfl, hoff, htarget⟩ := ih hrest
      exact ⟨.bytecode opcode operands :: pre, i, post, rfl, by
        rw [hoff, size, Nat.add_assoc], htarget⟩

theorem width_of_target {i : SymbolicInstruction} {l : Int} {short : Bool}
    (h : i.target = some (l, short)) : i.width = if short then 2 else 3 := by
  obtain ⟨opcode, operands, k, rfl, hindex⟩ := exists_of_target h
  rw [SymbolicInstruction.width]
  cases hformat : getFormatFromOpcode (effOp opcode) <;> rw [hformat] at hindex <;>
    simp only [labelIndex, Option.some.injEq, Prod.mk.injEq, reduceCtorEq] at hindex <;>
    rw [← hindex.2] <;> rfl

/-- A fixup leaves all units alone but those behind its instruction's first. -/
theorem getElem?_fixupLabel {labels : Int → Option Nat} {code code' : List Nat} {f : LabelFixup}
    (h : fixupLabel labels code f = .ok code') (hoff : f.offset < 2 ^ 31) {q : Nat}
    (hq : q ≤ f.offset ∨ f.offset + (if f.shortFixup then 2 else 3) ≤ q) : code'[q]? = code[q]? := by
  have hinstr : u4 (f.offset * 2) / 2 = f.offset := by
    rw [u4, Nat.mod_eq_of_lt (by omega)]
    omega
  simp only [fixupLabel, bind_ok, hinstr] at h
  obtain ⟨_, _, _, _, h⟩ := h
  cases hshort : f.shortFixup with
  | true =>
    simp only [hshort, if_true, bind_ok, pure_ok] at h hq
    obtain ⟨_, _, u, _, rfl⟩ := h
    exact List.getElem?_set_ne (by omega)
  | false =>
    simp only [hshort, Bool.false_eq_true, if_false, bind_ok, pure_ok] at h hq
    obtain ⟨u1, _, u2, _, rfl⟩ := h
    rw [List.getElem?_set_ne (by omega), List.getElem?_set_ne (by omega)]

theorem getElem?_fixupLabels {labels : Int → Option Nat} {fixups : List LabelFixup}
    {code code' : List Nat} (h : fixupLabels labels code fixups = .ok code') {q : Nat}
    (hoff : ∀ f ∈ fixups, f.offset < 2 ^ 31)
    (hq : ∀ f ∈ fixups, q ≤ f.offset ∨ f.offset + (if f.shortFixup then 2 else 3) ≤ q) :
    code'[q]? = code[q]? := by
  induction fixups generalizing code with
  | nil =>
    obtain rfl := Except.ok.inj h
    rfl
  | cons f fixups ih =>
    rw [fixupLabels, bind_ok] at h
    obtain ⟨mid, hmid, hrest⟩ := h
    obtain ⟨hoff, hoffs⟩ := List.forall_mem_cons.1 hoff
    obtain ⟨hq, hqs⟩ := List.forall_mem_cons.1 hq
    rw [ih hrest hoffs hqs, getElem?_fixupLabel hmid hoff hq]

theorem apart_of_split {pre post pre' post' : List SymbolicInstruction} {i i' : SymbolicInstruction}
    (h : pre ++ i :: post = pre' ++ i' :: post') (hne : i ≠ i') :
    size pre + i.width ≤ size pre' ∨ size pre' + i'.width ≤ size pre := by
  rcases List.append_eq_append_iff.1 h with ⟨mid, rfl, hmid⟩ | ⟨mid, rfl, hmid⟩
  · cases mid with
    | nil => exact absurd (List.cons.inj hmid).1 hne
    | cons j mid =>
      obtain ⟨rfl, -⟩ := List.cons.inj hmid
      left
      rw [size_append, size]
      omega
  · cases mid with
    | nil => exact absurd (List.cons.inj hmid).1.symm hne
    | cons j mid =>
      obtain ⟨rfl, -⟩ := List.cons.inj hmid
      right
      rw [size_append, size]
      omega

theorem eq_append_of_getElem? {code units : List Nat} {n : Nat} (hpos : 0 < units.length)
    (h : ∀ q < units.length, code[n + q]? = units[q]?) :
    ∃ before after, code = before ++ (units ++ after) ∧ before.length = n := by
  have hlen : n < code.length := by
    have hfirst := h 0 hpos
    rw [List.getElem?_eq_getElem hpos, Nat.add_zero] at hfirst
    exact (List.getElem?_eq_some_iff.1 hfirst).1
  have hunits : (code.drop n).take units.length = units := by
    apply List.ext_getElem?
    intro q
    rw [List.getElem?_take, List.getElem?_drop]
    split
    · next hq => exact h q hq
    · next hq => exact (List.getElem?_eq_none (Nat.le_of_not_lt hq)).symm
  refine ⟨code.take n, (code.drop n).drop units.length, ?_, ?_⟩
  · conv_lhs => rw [← List.take_append_drop n code, ← List.take_append_drop units.length (code.drop n)]
    rw [hunits]
  · rw [List.length_take, Nat.min_eq_left (Nat.le_of_lt hlen)]

/-- The units that the fixups of an encoded list rewrite are not those of an instruction that is no branch. -/
theorem fixup_apart {ctx : SymbolicOperand → Nat} {known known' : Int → Option Nat}
    {is pre post : List SymbolicInstruction} {code : List Nat} {fixups : List LabelFixup}
    {j : SymbolicInstruction} (hrun : Emitted ctx known 0 is code fixups known')
    (his : is = pre ++ j :: post) (hsize : size is < 2 ^ 31) (hplain : j.target = none) {f : LabelFixup}
    (hf : f ∈ fixups) :
    f.offset < 2 ^ 31 ∧
      (size pre + j.width ≤ f.offset ∨ f.offset + (if f.shortFixup then 2 else 3) ≤ size pre) := by
  obtain ⟨pre', i, post', his', hoff, htarget⟩ := fixups_of_emitted hrun hf
  have hne : j ≠ i := by
    rintro rfl
    rw [hplain] at htarget
    exact absurd htarget (by simp)
  have hapart := apart_of_split (his.symm.trans his') hne
  have hwidth := width_of_target htarget
  rw [his', size_append, size] at hsize
  rw [Nat.zero_add] at hoff
  rw [hoff, ← hwidth]
  exact ⟨by omega, hapart⟩

/-- An instruction of an accepted list has been encoded. If it is no branch, its units are in the code, at
    its position. -/
theorem units_of_assembleInto {ctx : SymbolicOperand → Nat} {w : Writer} {out : Assembled}
    {opcode : Opcode} {operands : List SymbolicOperand} {pre post : List SymbolicInstruction}
    (h : assembleInto ctx w = .ok out)
    (his : w.instructions = pre ++ .bytecode opcode operands :: post) :
    ∃ known offset enc, encodeInsn known offset (effOp opcode) (operands.map (link ctx)) = .ok enc ∧
      (size w.instructions < 2 ^ 31 → (SymbolicInstruction.bytecode opcode operands).target = none →
        ∃ before after, out.code = before ++ (enc.units ++ after) ∧ before.length = size pre) := by
  simp only [assembleInto, encode, bind_ok, pure_ok] at h
  obtain ⟨_, _, _, _, _, _, _, _, e, hvisit, code, hfix, _, _, rfl⟩ := h
  obtain ⟨known, offset, enc, before, after, henc, hcode, hlen⟩ :=
    encodes_of_visitAll (his ▸ hvisit)
  refine ⟨known, offset, enc, henc, fun hsize hplain => ?_⟩
  have hspec := encodeInsn_spec henc
  obtain ⟨code0, fixups, -, hfixups, hrun⟩ := visitAll_emitted ctx w.instructions _ e []
    hvisit (by simp) rfl (by simpa using hsize)
  have hbranch : ∀ f ∈ e.fixups, f.offset < 2 ^ 31 ∧
      (size pre + enc.units.length ≤ f.offset ∨
        f.offset + (if f.shortFixup then 2 else 3) ≤ size pre) := by
    intro f hf
    rw [hfixups, List.nil_append] at hf
    rw [hspec.length]
    exact fixup_apart hrun his hsize hplain hf
  obtain ⟨u, us, hunits, -⟩ := hspec.head
  refine eq_append_of_getElem? (by rw [hunits]; exact Nat.succ_pos _) (fun q hq => ?_)
  have hsame := getElem?_fixupLabels hfix (q := size pre + q) (fun f hf => (hbranch f hf).1)
    (fun f hf => by
      have hapart := (hbranch f hf).2
      omega)
  rw [hsame, hcode, List.nil_append, List.getElem?_append_right (by omega), hlen,
    Nat.add_sub_cancel_left, List.getElem?_append_left hq]

/-! ## Constants -/

theorem lt_of_checkRegisters {registers : Nat} {is : List SymbolicInstruction}
    (h : checkRegisters registers is = .ok ()) {opcode : Opcode} {operands : List SymbolicOperand}
    (hi : .bytecode opcode operands ∈ is) {reg : UInt32} (hreg : .vreg reg ∈ operands) :
    reg.toNat < registers := by
  have hinsn := forM_ok h _ hi
  have hoperand := forM_ok hinsn _ hreg
  simp only [checkOperand, checkRegister] at hoperand
  by_contra hge
  rw [if_pos (Nat.le_of_not_lt hge)] at hoperand
  exact absurd hoperand (by simp)

/-- Each of the three functions appends one of the three instructions. -/
theorem instructions_put (put : Put) (w : Writer) (reg : UInt32) (val : Int32) :
    ∃ opcode, opcode ∈ [OP_CONST_4, OP_CONST_16, OP_CONST] ∧
      (put.apply w reg val).instructions = w.instructions ++ [constInsn opcode reg val] := by
  have hconst : ∃ opcode, opcode ∈ [OP_CONST_4, OP_CONST_16, OP_CONST] ∧
      (putConst w reg val).instructions = w.instructions ++ [constInsn opcode reg val] := by
    refine ⟨putConstOp reg val, ?_, rfl⟩
    unfold putConstOp
    split
    · simp
    · split <;> simp
  cases put with
  | const => exact hconst
  | const4 =>
    rw [Put.apply, putConst4]
    split
    · exact hconst
    · exact ⟨OP_CONST_4, by simp, rfl⟩
  | const16 =>
    rw [Put.apply, putConst16]
    split
    · exact hconst
    · exact ⟨OP_CONST_16, by simp, rfl⟩

/-- An accepted list with a constant in it: what the encoder has made of the instruction loads the constant
    into its register, and below `2 ^ 31` units it stands in the code at the position of the instruction. -/
theorem put_loads {ctx : SymbolicOperand → Nat} {w final : Writer} {put : Put} {reg : UInt32}
    {val : Int32} {rest : List SymbolicInstruction} {out : Assembled}
    (his : final.instructions = (put.apply w reg val).instructions ++ rest)
    (h : assembleInto ctx final = .ok out) :
    ∃ opcode enc,
      (put.apply w reg val).instructions = w.instructions ++ [constInsn opcode reg val] ∧
      EncodesLoad opcode final.registers.toNat reg.toNat val.toUInt32 enc ∧
      (size final.instructions < 2 ^ 31 →
        ∃ before after, out.code = before ++ (enc.units ++ after) ∧
          before.length = size w.instructions) := by
  obtain ⟨opcode, hop, hput⟩ := instructions_put put w reg val
  have hsplit : final.instructions = w.instructions ++ constInsn opcode reg val :: rest := by
    rw [his, hput, List.append_assoc, List.singleton_append]
  obtain ⟨known, offset, enc, henc, hcode⟩ := units_of_assembleInto h hsplit
  have hreg : reg.toNat < final.registers.toNat := by
    simp only [assembleInto, bind_ok] at h
    obtain ⟨_, _, _, _, _, hcheck, _⟩ := h
    have hmem : constInsn opcode reg val ∈ final.instructions := by
      rw [hsplit]
      exact List.mem_append_right _ List.mem_cons_self
    exact lt_of_checkRegisters hcheck hmem List.mem_cons_self
  refine ⟨opcode, enc, hput, ?_, fun hsize => hcode hsize ?_⟩
  · simp only [List.mem_cons, List.not_mem_nil, or_false] at hop
    rcases hop with rfl | rfl | rfl
    · exact encodesLoad_const4 hreg henc
    · exact encodesLoad_const16 hreg henc
    · exact encodesLoad_const hreg henc
  · simp only [List.mem_cons, List.not_mem_nil, or_false] at hop
    rcases hop with rfl | rfl | rfl <;> rfl

/-- -8 in `v0`, in a method of two units. -/
theorem put_loads_four :
    ∃ opcode enc,
      (Put.const.apply ⟨1, []⟩ 0 (-8)).instructions = [] ++ [constInsn opcode 0 (-8)] ∧
      EncodesLoad opcode 1 0 (Int32.toUInt32 (-8)) enc ∧
      (size [constInsn OP_CONST_4 0 (-8), .bytecode OP_RETURN [.vreg 0]] < 2 ^ 31 →
        ∃ before after, [0x8012, 0x000f] = before ++ (enc.units ++ after) ∧ before.length = 0) :=
  @put_loads (fun _ => 0) ⟨1, []⟩ ⟨1, [constInsn OP_CONST_4 0 (-8), .bytecode OP_RETURN [.vreg 0]]⟩
    .const 0 (-8) [.bytecode OP_RETURN [.vreg 0]] ⟨[0x8012, 0x000f], 0⟩ rfl
    (show assembleInto (fun _ => 0) _ = .ok ⟨[0x8012, 0x000f], 0⟩ from rfl)

end ArtPi.Interp.Constants
