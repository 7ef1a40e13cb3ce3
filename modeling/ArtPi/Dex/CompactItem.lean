import Mathlib.Algebra.Order.Ring.Int
import Mathlib.Data.Nat.Bitwise

set_option autoImplicit false

/-! # Code items of CompactDex

A compact code item begins with two halfwords of packed fields. What does not fit into a field is in a halfword of the
preheader, which grows downwards in front of the item: two halfwords for the number of code units, then one each for
registers, ins, outs and tries, if their flags are set. The number of registers is without the ins.

Four functions decode such an item: `dumpSmali` and `dumpSmaliInsn` (`src/dex/pi_smali.cpp`), `buildCompactCodeItem`
(`src/sandbox/pi_code_provider.cpp`) and `ArtMethodFrameSize` (`src/agent/agent_debug.cpp`). `dumpSmaliInsn` has only the
first eleven bits of the number of code units (`decoders_agree_iff`). -/

namespace ArtPi.Dex

/-- The memory around a code item, in halfwords from its beginning. -/
abbrev Halfwords := Int → UInt16

/-! ## The layout -/

/-- The fields of an item, and what extends them; the number of code units is extended by a low and a high half. -/
structure CompactItem where
  registers : Fin 16
  ins : Fin 16
  outs : Fin 16
  tries : Fin 16
  count : Fin 2048
  registersExt : Option UInt16 := none
  insExt : Option UInt16 := none
  outsExt : Option UInt16 := none
  triesExt : Option UInt16 := none
  insnsExt : Option (UInt16 × UInt16) := none

namespace CompactItem

variable (item : CompactItem)

def fields : UInt16 :=
  UInt16.ofNat (item.registers.val * 4096 + item.ins.val * 256 + item.outs.val * 16 + item.tries.val)

def flags : Nat :=
  item.registersExt.isSome.toNat + 2 * item.insExt.isSome.toNat + 4 * item.outsExt.isSome.toNat +
    8 * item.triesExt.isSome.toNat + 16 * item.insnsExt.isSome.toNat

def countAndFlags : UInt16 := UInt16.ofNat (item.count.val * 32 + item.flags)

/-- The halves of the extension of the number of code units. -/
def insnsHalves : List UInt16 :=
  match item.insnsExt with
  | none => []
  | some (low, high) => [low, high]

/-- From the item downwards. -/
def preheader : List UInt16 :=
  item.insnsHalves ++ (item.registersExt.toList ++ (item.insExt.toList ++ (item.outsExt.toList ++
    item.triesExt.toList)))

/-- The halfwords of a list are below a place. -/
def Below (h : Halfwords) (p : Int) (l : List UInt16) : Prop :=
  ∀ (i : Nat) (v : UInt16), l[i]? = some v → h (p - 1 - i) = v

/-- The item is there. -/
structure At (h : Halfwords) : Prop where
  fields_eq : h 0 = item.fields
  countAndFlags_eq : h 1 = item.countAndFlags
  preheader_below : Below h 0 item.preheader

/-- A field with its extension; the sizes are `u2`. -/
def extended (v : Nat) (ext : Option UInt16) : Nat := (v + (ext.getD 0).toNat) % 2 ^ 16

def insSize : Nat := extended item.ins.val item.insExt

def registersSize : Nat := (extended item.registers.val item.registersExt + item.insSize) % 2 ^ 16

def outsSize : Nat := extended item.outs.val item.outsExt

/-- What extends the number of code units. -/
def insnsExtension : Nat :=
  match item.insnsExt with
  | none => 0
  | some (low, high) => low.toNat + high.toNat * 2 ^ 16

/-- The number of code units is a `u4`. -/
def insnsCount : Nat := (item.count.val + item.insnsExtension) % 2 ^ 32

end CompactItem

/-! ## The decoders -/

/-- `if (flags & (1u << bit)) v += *--preheader;` -/
def extend (h : Halfwords) (flags bit v : Nat) (preheader : Int) : Nat × Int :=
  if flags &&& (1 <<< bit) ≠ 0 then ((v + (h (preheader - 1)).toNat) % 2 ^ 16, preheader - 1) else (v, preheader)

/-- The same of the number of code units. -/
def extendCount (h : Halfwords) (flags v : Nat) (preheader : Int) : Nat × Int :=
  if flags &&& (1 <<< 4) ≠ 0 then
    (((v + (h (preheader - 1)).toNat) % 2 ^ 32 + ((h (preheader - 2)).toNat <<< 16)) % 2 ^ 32, preheader - 2)
  else (v, preheader)

/-- `insns` is the place of the code units. -/
structure CodeHeader where
  registersSize : Nat
  insSize : Nat
  outsSize : Nat
  insnsCount : Nat
  insns : Int
  deriving DecidableEq

/-- The header in `dumpSmali`. -/
def dumpSmaliHeader (h : Halfwords) : CodeHeader :=
  let fields := (h 0).toNat
  let insnsCountAndFlags := (h 1).toNat
  let count := extendCount h insnsCountAndFlags (insnsCountAndFlags >>> 5) 0
  let registers := extend h insnsCountAndFlags 0 ((fields >>> 12) &&& 0xF) count.2
  let ins := extend h insnsCountAndFlags 1 ((fields >>> 8) &&& 0xF) registers.2
  let outs := extend h insnsCountAndFlags 2 ((fields >>> 4) &&& 0xF) ins.2
  { registersSize := (registers.1 + ins.1) % 2 ^ 16
    insSize := ins.1
    outsSize := outs.1
    insnsCount := count.1
    insns := 2 }

/-- The fields of `InterpCode` that `buildCompactCodeItem` fills in. -/
structure CompactCode where
  registersSize : Nat
  insSize : Nat
  outsSize : Nat
  insnsCount : Nat
  insnsBuf : List UInt16 := []
  deriving DecidableEq

def buildCompactCodeItem (h : Halfwords) : Bool × CompactCode :=
  let fields := (h 0).toNat
  let insnsCountAndFlags := (h 1).toNat
  let count := extendCount h insnsCountAndFlags (insnsCountAndFlags >>> 5) 0
  let registers := extend h insnsCountAndFlags 0 ((fields >>> 12) &&& 0xF) count.2
  let ins := extend h insnsCountAndFlags 1 ((fields >>> 8) &&& 0xF) registers.2
  let outs := extend h insnsCountAndFlags 2 ((fields >>> 4) &&& 0xF) ins.2
  let out : CompactCode :=
    { registersSize := (registers.1 + ins.1) % 2 ^ 16
      insSize := ins.1
      outsSize := outs.1
      insnsCount := count.1 }
  if out.insnsCount = 0 ∨ out.registersSize = 0 then (false, out)
  else (true, { out with insnsBuf := (List.range out.insnsCount).map (fun i : Nat => h (2 + i)) })

/-- The number of code units in `dumpSmaliInsn`. -/
def dumpSmaliInsnCount (h : Halfwords) : Nat := (h 1).toNat >>> 5

/-- The place of the instruction that `dumpSmaliInsn` formats; otherwise the text is empty. -/
def dumpSmaliInsn (h : Halfwords) (pc : Nat) : Option Int :=
  if dumpSmaliInsnCount h ≤ pc then none else some (2 + pc)

/-- `SafeReadU16` of what extends a field. -/
def safeExtend (read : Int → Option UInt16) (flags bit v : Nat) (preheader : Int) : Option (Nat × Int) :=
  if flags &&& (1 <<< bit) ≠ 0 then
    match read (preheader - 1) with
    | none => none
    | some ext => some ((v + ext.toNat) % 2 ^ 16, preheader - 1)
  else some (v, preheader)

/-- What `ArtMethodFrameSize` decodes: `num_regs`, `ins_regs` and `out_regs`. -/
def artMethodFrameFields (read : Int → Option UInt16) : Option (Nat × Nat × Nat) := do
  let fields ← read 0
  let flags ← read 1
  let preheader : Int := if flags.toNat &&& (1 <<< 4) ≠ 0 then -2 else 0
  let registers ← safeExtend read flags.toNat 0 ((fields.toNat >>> 12) &&& 0xF) preheader
  let ins ← safeExtend read flags.toNat 1 ((fields.toNat >>> 8) &&& 0xF) registers.2
  let outs ← safeExtend read flags.toNat 2 ((fields.toNat >>> 4) &&& 0xF) ins.2
  return ((registers.1 + ins.1) % 2 ^ 16, ins.1, outs.1)

/-! ## What they decode -/

namespace CompactItem

theorem below_append {h : Halfwords} {p : Int} {l l' : List UInt16} (hbelow : Below h p (l ++ l')) :
    Below h p l ∧ Below h (p - l.length) l' := by
  constructor
  · intro i v hget
    have hi := (List.getElem?_eq_some_iff.1 hget).1
    exact hbelow i v (by rwa [List.getElem?_append_left hi])
  · intro i v hget
    have hv := hbelow (l.length + i) v (by rwa [List.getElem?_append_right (by omega), Nat.add_sub_cancel_left])
    rw [← hv]
    congr 1
    push_cast
    omega

theorem and_bit_iff (n bit : Nat) : n &&& (1 <<< bit) ≠ 0 ↔ n / 2 ^ bit % 2 = 1 := by
  rw [Nat.one_shiftLeft, Nat.and_two_pow, Nat.testBit_eq_decide_div_mod_eq]
  by_cases hbit : n / 2 ^ bit % 2 = 1
  · simp [hbit]
  · simp [hbit]

theorem nibble_eq (n shift : Nat) : (n >>> shift) &&& 0xF = n / 2 ^ shift % 16 := by
  rw [Nat.shiftRight_eq_div_pow]
  exact Nat.and_two_pow_sub_one_eq_mod _ 4

variable (item : CompactItem)

theorem fields_toNat : item.fields.toNat =
    item.registers.val * 4096 + item.ins.val * 256 + item.outs.val * 16 + item.tries.val := by
  have := item.registers.isLt
  have := item.ins.isLt
  have := item.outs.isLt
  have := item.tries.isLt
  unfold fields
  rw [UInt16.toNat_ofNat', Nat.mod_eq_of_lt (by omega)]

theorem flags_lt : item.flags < 32 := by
  have hbit := Bool.toNat_lt
  have := hbit item.registersExt.isSome
  have := hbit item.insExt.isSome
  have := hbit item.outsExt.isSome
  have := hbit item.triesExt.isSome
  have := hbit item.insnsExt.isSome
  unfold flags
  omega

theorem countAndFlags_toNat : item.countAndFlags.toNat = item.count.val * 32 + item.flags := by
  have := item.count.isLt
  have := item.flags_lt
  unfold countAndFlags
  rw [UInt16.toNat_ofNat', Nat.mod_eq_of_lt (by omega)]

theorem extended_none {v : Nat} (hv : v < 2 ^ 16) : extended v none = v := Nat.mod_eq_of_lt hv

/-- A decoder at a place of the preheader takes what is there for its field, and leaves the rest. -/
theorem extend_eq {h : Halfwords} {p : Int} {flags bit v : Nat} {ext : Option UInt16} {l : List UInt16}
    (hbelow : Below h p (ext.toList ++ l)) (hflag : flags / 2 ^ bit % 2 = ext.isSome.toNat) (hv : v < 2 ^ 16) :
    extend h flags bit v p = (extended v ext, p - ext.toList.length) ∧ Below h (p - ext.toList.length) l := by
  refine ⟨?_, (below_append hbelow).2⟩
  unfold extend
  cases ext with
  | none =>
    have hclear : ¬ flags &&& (1 <<< bit) ≠ 0 := fun hset => by
      have := (and_bit_iff flags bit).1 hset
      rw [hflag] at this
      exact absurd this (by decide)
    rw [if_neg hclear, extended_none hv]
    exact congrArg (v, ·) (Int.sub_zero p).symm
  | some w =>
    have hset : flags &&& (1 <<< bit) ≠ 0 := (and_bit_iff flags bit).2 hflag
    have hword : h (p - 1) = w := by
      have := hbelow 0 w rfl
      rwa [Int.ofNat_zero, Int.sub_zero] at this
    rw [if_pos hset, hword]
    rfl

theorem extendCount_eq {h : Halfwords} {flags : Nat} {l : List UInt16} (hbelow : Below h 0 (item.insnsHalves ++ l))
    (hflag : flags / 2 ^ 4 % 2 = item.insnsExt.isSome.toNat) :
    extendCount h flags item.count.val 0 = (item.insnsCount, -(item.insnsHalves.length : Int)) := by
  have hcount := item.count.isLt
  unfold extendCount insnsCount insnsExtension
  cases hext : item.insnsExt with
  | none =>
    have hclear : ¬ flags &&& (1 <<< 4) ≠ 0 := fun hset => by
      have := (and_bit_iff flags 4).1 hset
      rw [hflag, hext] at this
      exact absurd this (by decide)
    rw [if_neg hclear, Nat.add_zero, Nat.mod_eq_of_lt (by omega)]
    simp [insnsHalves, hext]
  | some ext =>
    obtain ⟨low, high⟩ := ext
    have hset : flags &&& (1 <<< 4) ≠ 0 := (and_bit_iff flags 4).2 (by rw [hflag, hext]; rfl)
    unfold insnsHalves at hbelow ⊢
    rw [hext] at hbelow ⊢
    have hlow : h (0 - 1) = low := by simpa using hbelow 0 low rfl
    have hhigh : h (0 - 2) = high := by simpa using hbelow 1 high rfl
    rw [if_pos hset, hlow, hhigh, Nat.shiftLeft_eq]
    have hsum : ((item.count.val + low.toNat) % 2 ^ 32 + high.toNat * 2 ^ 16) % 2 ^ 32 =
        (item.count.val + (low.toNat + high.toNat * 2 ^ 16)) % 2 ^ 32 := by omega
    rw [hsum]
    rfl

theorem safeExtend_eq {read : Int → Option UInt16} {h : Halfwords} {flags bit v : Nat} {p : Int}
    (hread : flags &&& (1 <<< bit) ≠ 0 → read (p - 1) = some (h (p - 1))) :
    safeExtend read flags bit v p = some (extend h flags bit v p) := by
  unfold safeExtend extend
  by_cases hset : flags &&& (1 <<< bit) ≠ 0
  · rw [if_pos hset, if_pos hset, hread hset]
  · rw [if_neg hset, if_neg hset]

theorem flag_bits :
    item.countAndFlags.toNat / 2 ^ 0 % 2 = item.registersExt.isSome.toNat ∧
    item.countAndFlags.toNat / 2 ^ 1 % 2 = item.insExt.isSome.toNat ∧
    item.countAndFlags.toNat / 2 ^ 2 % 2 = item.outsExt.isSome.toNat ∧
    item.countAndFlags.toNat / 2 ^ 4 % 2 = item.insnsExt.isSome.toNat := by
  have hbit := Bool.toNat_lt
  have := hbit item.registersExt.isSome
  have := hbit item.insExt.isSome
  have := hbit item.outsExt.isSome
  have := hbit item.triesExt.isSome
  have := hbit item.insnsExt.isSome
  rw [countAndFlags_toNat]
  unfold flags
  omega

theorem field_nibbles :
    (item.fields.toNat >>> 12) &&& 0xF = item.registers.val ∧ (item.fields.toNat >>> 8) &&& 0xF = item.ins.val ∧
    (item.fields.toNat >>> 4) &&& 0xF = item.outs.val := by
  have := item.registers.isLt
  have := item.ins.isLt
  have := item.outs.isLt
  have := item.tries.isLt
  rw [nibble_eq, nibble_eq, nibble_eq, fields_toNat]
  omega

theorem count_eq : item.countAndFlags.toNat >>> 5 = item.count.val := by
  have := item.flags_lt
  rw [countAndFlags_toNat, Nat.shiftRight_eq_div_pow]
  omega

/-- Where the preheader has been read to, behind the number of code units, the registers and the ins. -/
def afterInsns : Int := -(item.insnsHalves.length : Int)

def afterRegisters : Int := item.afterInsns - item.registersExt.toList.length

def afterIns : Int := item.afterRegisters - item.insExt.toList.length

theorem decode_steps {h : Halfwords} (hat : item.At h) :
    extendCount h (h 1).toNat ((h 1).toNat >>> 5) 0 = (item.insnsCount, item.afterInsns) ∧
    extend h (h 1).toNat 0 (((h 0).toNat >>> 12) &&& 0xF) item.afterInsns =
      (extended item.registers.val item.registersExt, item.afterRegisters) ∧
    extend h (h 1).toNat 1 (((h 0).toNat >>> 8) &&& 0xF) item.afterRegisters = (item.insSize, item.afterIns) ∧
    extend h (h 1).toNat 2 (((h 0).toNat >>> 4) &&& 0xF) item.afterIns =
      (item.outsSize, item.afterIns - item.outsExt.toList.length) := by
  obtain ⟨hbit0, hbit1, hbit2, hbit4⟩ := item.flag_bits
  obtain ⟨hregisters, hins, houts⟩ := item.field_nibbles
  have hregistersLt := item.registers.isLt
  have hinsLt := item.ins.isLt
  have houtsLt := item.outs.isLt
  have hbelow := hat.preheader_below
  unfold preheader at hbelow
  have hrest : Below h item.afterInsns (item.registersExt.toList ++ (item.insExt.toList ++
      (item.outsExt.toList ++ item.triesExt.toList))) := by
    have hbehind := (below_append hbelow).2
    rwa [Int.zero_sub] at hbehind
  rw [hat.fields_eq, hat.countAndFlags_eq, hregisters, hins, houts, count_eq]
  obtain ⟨hone, hrest⟩ := extend_eq hrest hbit0 (show item.registers.val < 2 ^ 16 by omega)
  obtain ⟨htwo, hrest⟩ := extend_eq hrest hbit1 (show item.ins.val < 2 ^ 16 by omega)
  obtain ⟨hthree, -⟩ := extend_eq hrest hbit2 (show item.outs.val < 2 ^ 16 by omega)
  exact ⟨item.extendCount_eq hbelow hbit4, hone, htwo, hthree⟩

end CompactItem

/-! ## Agreement -/

/-- The decoders have the values of the layout, each for the fields it decodes. -/
structure DecodersAgree (item : CompactItem) (h : Halfwords) (read : Int → Option UInt16) : Prop where
  dumpSmali : dumpSmaliHeader h = ⟨item.registersSize, item.insSize, item.outsSize, item.insnsCount, 2⟩
  build : (buildCompactCodeItem h).2.registersSize = item.registersSize ∧
    (buildCompactCodeItem h).2.insSize = item.insSize ∧ (buildCompactCodeItem h).2.outsSize = item.outsSize ∧
    (buildCompactCodeItem h).2.insnsCount = item.insnsCount
  buildInsns : (buildCompactCodeItem h).1 = true →
    (buildCompactCodeItem h).2.insnsBuf = (List.range item.insnsCount).map (fun i : Nat => h (2 + i))
  frame : artMethodFrameFields read = some (item.registersSize, item.insSize, item.outsSize)
  insn : ∀ pc : Nat, dumpSmaliInsn h pc = if item.insnsCount ≤ pc then none else some (2 + (pc : Int))

theorem dumpSmaliHeader_eq {item : CompactItem} {h : Halfwords} (hat : item.At h) :
    dumpSmaliHeader h = ⟨item.registersSize, item.insSize, item.outsSize, item.insnsCount, 2⟩ := by
  obtain ⟨hcount, hregisters, hins, houts⟩ := item.decode_steps hat
  unfold dumpSmaliHeader
  simp only [hcount, hregisters, hins, houts]
  rfl

theorem buildCompactCodeItem_eq {item : CompactItem} {h : Halfwords} (hat : item.At h) :
    buildCompactCodeItem h =
      if item.insnsCount = 0 ∨ item.registersSize = 0 then
        (false, ⟨item.registersSize, item.insSize, item.outsSize, item.insnsCount, []⟩)
      else
        (true, ⟨item.registersSize, item.insSize, item.outsSize, item.insnsCount,
          (List.range item.insnsCount).map (fun i : Nat => h (2 + i))⟩) := by
  obtain ⟨hcount, hregisters, hins, houts⟩ := item.decode_steps hat
  unfold buildCompactCodeItem
  simp only [hcount, hregisters, hins, houts]
  rfl

theorem CompactItem.places (item : CompactItem) :
    item.afterInsns ≤ 0 ∧ item.afterRegisters = item.afterInsns - item.registersExt.toList.length ∧
    item.afterIns = item.afterRegisters - item.insExt.toList.length ∧
    -(item.preheader.length : Int) ≤ item.afterIns - item.outsExt.toList.length := by
  have hlength : item.preheader.length = item.insnsHalves.length + (item.registersExt.toList.length +
      (item.insExt.toList.length + (item.outsExt.toList.length + item.triesExt.toList.length))) := by
    simp only [CompactItem.preheader, List.length_append]
  refine ⟨?_, rfl, rfl, ?_⟩
  · unfold CompactItem.afterInsns
    omega
  · unfold CompactItem.afterIns CompactItem.afterRegisters CompactItem.afterInsns
    omega

/-- A flag that is set has its halfword in the preheader, where it can be read. -/
theorem safeExtend_step {item : CompactItem} {h : Halfwords} {read : Int → Option UInt16}
    (hread : ∀ i : Int, -(item.preheader.length : Int) ≤ i → i < 2 → read i = some (h i)) {bit : Nat}
    {ext : Option UInt16} (hbit : (h 1).toNat / 2 ^ bit % 2 = ext.isSome.toNat) {p : Int} (hp : p ≤ 0)
    (hplace : -(item.preheader.length : Int) ≤ p - ext.toList.length) (v : Nat) :
    safeExtend read (h 1).toNat bit v p = some (extend h (h 1).toNat bit v p) := by
  refine CompactItem.safeExtend_eq fun hset => ?_
  have hone : ext.toList.length = 1 := by
    rw [CompactItem.and_bit_iff, hbit] at hset
    cases ext with
    | none => exact absurd hset (by decide)
    | some w => rfl
  exact hread _ (by omega) (by omega)

theorem artMethodFrameFields_eq {item : CompactItem} {h : Halfwords} (hat : item.At h)
    {read : Int → Option UInt16}
    (hread : ∀ i : Int, -(item.preheader.length : Int) ≤ i → i < 2 → read i = some (h i)) :
    artMethodFrameFields read = some (item.registersSize, item.insSize, item.outsSize) := by
  obtain ⟨-, hregisters, hins, houts⟩ := item.decode_steps hat
  obtain ⟨hbit0, hbit1, hbit2, hbit4⟩ := item.flag_bits
  obtain ⟨hinsnsPlace, hregistersPlace, hinsPlace, hplace⟩ := item.places
  rw [← hat.countAndFlags_eq] at hbit0 hbit1 hbit2 hbit4
  have hstart : (if (h 1).toNat &&& (1 <<< 4) ≠ 0 then -2 else 0) = item.afterInsns := by
    unfold CompactItem.afterInsns CompactItem.insnsHalves
    simp only [CompactItem.and_bit_iff, hbit4]
    cases item.insnsExt <;> rfl
  have hread0 : read 0 = some (h 0) := hread 0 (by omega) (by omega)
  have hread1 : read 1 = some (h 1) := hread 1 (by omega) (by omega)
  have hone := safeExtend_step hread hbit0 hinsnsPlace (by omega)
  have htwo := @safeExtend_step _ _ _ hread _ _ hbit1 item.afterRegisters (by omega) (by omega)
  have hthree := @safeExtend_step _ _ _ hread _ _ hbit2 item.afterIns (by omega) hplace
  unfold artMethodFrameFields
  simp only [hread0, hread1, Option.bind_eq_bind, Option.bind_some, hstart, hone, htwo, hthree, hregisters, hins, houts]
  rfl

theorem dumpSmaliInsn_iff {item : CompactItem} {h : Halfwords} (hat : item.At h) :
    (∀ pc : Nat, dumpSmaliInsn h pc = if item.insnsCount ≤ pc then none else some (2 + (pc : Int))) ↔
      item.insnsExtension = 0 := by
  have hcount : dumpSmaliInsnCount h = item.count.val := by
    unfold dumpSmaliInsnCount
    rw [hat.countAndFlags_eq, item.count_eq]
  have hlt := item.count.isLt
  have hext : item.insnsExtension < 2 ^ 32 := by
    unfold CompactItem.insnsExtension
    split
    · omega
    · rename_i low high _
      have := low.toNat_lt
      have := high.toNat_lt
      omega
  have hiff : item.count.val = item.insnsCount ↔ item.insnsExtension = 0 := by
    unfold CompactItem.insnsCount
    omega
  rw [← hiff]
  unfold dumpSmaliInsn
  rw [hcount]
  constructor
  · intro h
    have hone := h item.count.val
    have htwo := h item.insnsCount
    rw [if_pos (Nat.le_refl _)] at hone
    rw [if_pos (Nat.le_refl item.insnsCount)] at htwo
    have hle : item.insnsCount ≤ item.count.val := by
      by_contra hno
      rw [if_neg hno] at hone
      exact absurd hone (Option.some_ne_none _).symm
    have hge : item.count.val ≤ item.insnsCount := by
      by_contra hno
      rw [if_neg hno] at htwo
      exact absurd htwo (Option.some_ne_none _)
    exact Nat.le_antisymm hge hle
  · intro heq pc
    rw [heq]

/-- All decoders agree with the layout if and only if nothing extends the number of code units. -/
theorem decoders_agree_iff {item : CompactItem} {h : Halfwords} (hat : item.At h) {read : Int → Option UInt16}
    (hread : ∀ i : Int, -(item.preheader.length : Int) ≤ i → i < 2 → read i = some (h i)) :
    DecodersAgree item h read ↔ item.insnsExtension = 0 := by
  rw [← dumpSmaliInsn_iff hat]
  have hbuild := buildCompactCodeItem_eq hat
  constructor
  · exact fun h => h.insn
  · intro hinsn
    refine ⟨dumpSmaliHeader_eq hat, ?_, ?_, artMethodFrameFields_eq hat hread, hinsn⟩
    · rw [hbuild]
      split <;> exact ⟨rfl, rfl, rfl, rfl⟩
    · rw [hbuild]
      split
      · exact fun h => absurd h Bool.false_ne_true
      · exact fun _ => rfl

/-- The item in a memory of zeros. -/
def CompactItem.halfwords (item : CompactItem) : Halfwords := fun i =>
  if i = 0 then item.fields
  else if i = 1 then item.countAndFlags
  else if i < 0 then item.preheader.getD (-i - 1).toNat 0
  else 0

theorem CompactItem.at_halfwords (item : CompactItem) : item.At item.halfwords where
  fields_eq := rfl
  countAndFlags_eq := rfl
  preheader_below := by
    intro i v hget
    have hplace : (-(0 - 1 - (i : Int)) - 1).toNat = i := by omega
    unfold halfwords
    rw [if_neg (by omega), if_neg (by omega), if_pos (by omega), hplace, List.getD_eq_getElem?_getD, hget]
    rfl

/-- A method with 40 registers, which do not fit into their field, 2 ins and 7 code units. -/
def fortyRegisters : CompactItem where
  registers := 6
  ins := 2
  outs := 0
  tries := 0
  count := 7
  registersExt := some 32

theorem decoders_agree_fortyRegisters :
    DecodersAgree fortyRegisters fortyRegisters.halfwords (fun i => some (fortyRegisters.halfwords i)) :=
  (decoders_agree_iff fortyRegisters.at_halfwords (fun _ _ _ => rfl)).2 rfl

/-- A method with 3000 code units, of which 2048 are in the preheader. -/
def longMethod : CompactItem where
  registers := 1
  ins := 1
  outs := 0
  tries := 0
  count := 952
  insnsExt := some (2048, 0)

/-- There is no text for the instruction at 1000. -/
theorem decoders_disagree :
    ¬ DecodersAgree longMethod longMethod.halfwords (fun i => some (longMethod.halfwords i)) ∧
    dumpSmaliInsn longMethod.halfwords 1000 = none ∧ (dumpSmaliHeader longMethod.halfwords).insnsCount = 3000 := by
  refine ⟨fun h => ?_, by decide, by decide⟩
  have hinsn := h.insn 1000
  exact absurd hinsn (by decide)

end ArtPi.Dex
