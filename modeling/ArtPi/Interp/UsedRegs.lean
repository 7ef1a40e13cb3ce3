import ArtPi.Dex.Opcode
import Mathlib.Data.List.Sort
import Mathlib.Algebra.Order.Ring.Int

set_option autoImplicit false

/-! # The registers of a traced instruction (`pi_interp_tracer.cpp`, `slicer/dex_bytecode.cc`)

The trace names the registers of every instruction. `collectUsedRegs` reads them from the code units by a table of
its own, `kOpcodeFmt`; which fields of an instruction are registers is said by the formats of the opcodes and by
`DecodeInstruction`. -/

namespace ArtPi.Interp.UsedRegs

open Dex

/-- The code units from the instruction on. -/
abbrev Insn : Type := Nat → UInt16

def unit (insn : Insn) (i : Nat) : Nat := (insn i).toNat

def opcodeOf (insn : Insn) : Opcode := UInt8.ofNat (unit insn 0 &&& 0xFF)

theorem unit_lt (insn : Insn) (i : Nat) : unit insn i < 2 ^ 16 := (insn i).toNat_lt

/-! ## `collectUsedRegs` -/

inductive RegFmt where
  | none | f12x | f11x | f11n | f21x | f22x | f22b | f22r | f23x | f32x | f35c | f3rc
  deriving DecidableEq

/-- `kOpcodeFmt`, by runs. -/
def regFmtRuns : List (Nat × RegFmt) :=
  [(0x00, .none), (0x01, .f12x), (0x02, .f22x), (0x03, .f32x), (0x04, .f12x), (0x05, .f22x), (0x06, .f32x),
   (0x07, .f12x), (0x08, .f22x), (0x09, .f32x), (0x0a, .f11x), (0x0e, .none), (0x0f, .f11x), (0x13, .f11n),
   (0x14, .f21x), (0x20, .f22r), (0x21, .f12x), (0x22, .f21x), (0x23, .f22r), (0x24, .f35c), (0x25, .f3rc),
   (0x26, .f21x), (0x27, .f11x), (0x28, .none), (0x2b, .f21x), (0x2d, .f23x), (0x32, .f22r), (0x38, .f21x),
   (0x3e, .none), (0x44, .f23x), (0x52, .f22r), (0x60, .f21x), (0x6e, .f35c), (0x73, .none), (0x74, .f3rc),
   (0x79, .none), (0x7b, .f12x), (0x90, .f23x), (0xb0, .f12x), (0xd0, .f22r), (0xd8, .f22b), (0xe3, .none),
   (0xfa, .f35c), (0xfb, .f3rc), (0xfc, .f35c), (0xfd, .f3rc), (0xfe, .f21x)]

def kOpcodeFmt (opcode : Opcode) : RegFmt := lookupRun .none regFmtRuns opcode.toNat

/-- The five argument fields of an instruction with a list of registers. -/
def regs5 (insn : Insn) : List Nat :=
  [unit insn 2 &&& 0xF, unit insn 2 >>> 4 &&& 0xF, unit insn 2 >>> 8 &&& 0xF, unit insn 2 >>> 12 &&& 0xF,
    unit insn 0 >>> 8 &&& 0xF]

/-- The branches of the switch, which fill `tmp`. A range gets no further than the eight places of `tmp`, whose
elements are `uint16_t`. -/
def readRegs (insn : Insn) : RegFmt → List Nat
  | .none => []
  | .f12x | .f22r => [unit insn 0 >>> 8 &&& 0xF, unit insn 0 >>> 12 &&& 0xF]
  | .f11n => [unit insn 0 >>> 8 &&& 0xF]
  | .f11x | .f21x => [unit insn 0 >>> 8 &&& 0xFF]
  | .f22x | .f22b => [unit insn 0 >>> 8 &&& 0xFF, unit insn 1 &&& 0xFF]
  | .f23x => [unit insn 0 >>> 8 &&& 0xFF, unit insn 1 &&& 0xFF, unit insn 1 >>> 8 &&& 0xFF]
  | .f32x => [unit insn 1, unit insn 2]
  | .f35c => (regs5 insn).take (unit insn 0 >>> 12 &&& 0xF)
  | .f3rc => (List.range (min (unit insn 0 >>> 8 &&& 0xFF) 8)).map (fun i => (unit insn 2 + i) % 2 ^ 16)

/-- The loop behind the sort: without repetitions and without what is no register of the frame, up to the capacity.
`prev` is the element before. -/
def emitRegs (regsSize : Nat) : Nat → Option Nat → List Nat → List Nat
  | _, _, [] => []
  | cap, prev, r :: rs =>
    if prev = some r then emitRegs regsSize cap (some r) rs
    else if regsSize ≤ r then emitRegs regsSize cap (some r) rs
    else if cap = 0 then []
    else r :: emitRegs regsSize (cap - 1) (some r) rs

def collectUsedRegs (insn : Insn) (regsSize outCap : Nat) : List Nat :=
  emitRegs regsSize outCap none ((readRegs insn (kOpcodeFmt (opcodeOf insn))).insertionSort (· ≤ ·))

/-- `kMaxRegsPerLine`, the capacity that the tracer gives. -/
def kMaxRegsPerLine : Nat := 10

/-! ## The operands of an instruction -/

def instA (u : Nat) : Nat := u >>> 8 &&& 0x0f
def instB (u : Nat) : Nat := u >>> 12
def instAA (u : Nat) : Nat := u >>> 8

/-- The register operands of a format, as `DecodeInstruction` has their fields, with whether they are wide. The
arguments of an invoke name both registers of a pair. -/
def formatOperands (insn : Insn) (opcode : Opcode) : Format → List (Nat × Bool)
  | .k10x | .k10t | .k20t | .k20bc | .k30t => []
  | .k12x | .k22c | .k22cs | .k22s | .k22t =>
    [(instA (unit insn 0), regAWide opcode), (instB (unit insn 0), regBWide opcode)]
  | .k11n => [(instA (unit insn 0), regAWide opcode)]
  | .k11x | .k21c | .k21s | .k21t | .k21h | .k31t | .k31c | .k31i | .k51l =>
    [(instAA (unit insn 0), regAWide opcode)]
  | .k22x => [(instAA (unit insn 0), regAWide opcode), (unit insn 1, regBWide opcode)]
  | .k22b => [(instAA (unit insn 0), regAWide opcode), (unit insn 1 &&& 0xff, regBWide opcode)]
  | .k23x =>
    [(instAA (unit insn 0), regAWide opcode), (unit insn 1 &&& 0xff, regBWide opcode),
      (unit insn 1 >>> 8, regCWide opcode)]
  | .k32x => [(unit insn 1, regAWide opcode), (unit insn 2, regBWide opcode)]
  | .k35c | .k35ms | .k35mi | .k45cc => ((regs5 insn).take (instB (unit insn 0))).map (fun r => (r, false))
  | .k3rc | .k3rms | .k3rmi | .k4rcc =>
    (List.range (instAA (unit insn 0))).map (fun i => (unit insn 2 + i, false))

def operands (insn : Insn) : List (Nat × Bool) :=
  formatOperands insn (opcodeOf insn) (getFormatFromOpcode (opcodeOf insn))

def isRange (opcode : Opcode) : Bool := getFormatFromOpcode opcode ∈ [Format.k3rc, Format.k4rcc]

/-- Of a range the trace shows eight registers. -/
def capped (insn : Insn) (regs : List Nat) : List Nat :=
  if isRange (opcodeOf insn) = true then regs.take 8 else regs

/-- The registers the instruction reads or writes. -/
def usedRegs (insn : Insn) : List Nat :=
  (operands insn).flatMap (fun o => if o.2 = true then [o.1, o.1 + 1] else [o.1])

/-- The registers its fields name: of a pair the first, whose slot holds the value. -/
def namedRegs (insn : Insn) : List Nat := (operands insn).map Prod.fst

/-- In ascending order, without repetitions, the result has exactly those of the registers that the frame has. -/
def Reports (regs : List Nat) (regsSize : Nat) (result : List Nat) : Prop :=
  result.Pairwise (· < ·) ∧ ∀ r, r ∈ result ↔ r ∈ regs ∧ r < regsSize

/-- The value of an opcode that only a running system has in its code (`kVerifyRuntimeOnly`). -/
def runtimeOnly : Opcode → Bool := inRanges [(0xe3, 0xf2)]

/-- The instructions that `kOpcodeFmt` reads by another format than theirs and whose fields are then different ones,
and the ranges that end behind the last register. -/
inductive Misread (insn : Insn) : Prop where
  | const4 : opcodeOf insn = 0x12 → instB (unit insn 0) ≠ 0 → Misread insn
  | const16 : opcodeOf insn = 0x13 → 16 ≤ instAA (unit insn 0) → Misread insn
  | from16 : opcodeOf insn ∈ [0x02, 0x05, 0x08] → 256 ≤ unit insn 1 → Misread insn
  | quickened : runtimeOnly (opcodeOf insn) = true → Misread insn
  | range : isRange (opcodeOf insn) = true → 2 ^ 16 < unit insn 2 + min (instAA (unit insn 0)) 8 → Misread insn

/-! ## The loop -/

theorem emitRegs_spec {regsSize cap : Nat} {prev : Option Nat} {l : List Nat} (hl : l.Pairwise (· ≤ ·))
    (hprev : ∀ p ∈ prev, ∀ r ∈ l, p ≤ r) (hcap : l.length ≤ cap) :
    (emitRegs regsSize cap prev l).Pairwise (· < ·) ∧
      ∀ r, r ∈ emitRegs regsSize cap prev l ↔ r ∈ l ∧ r < regsSize ∧ prev ≠ some r := by
  induction l generalizing cap prev with
  | nil => simp [emitRegs]
  | cons x l ih =>
    obtain ⟨hx, hl⟩ := List.pairwise_cons.mp hl
    rw [List.length_cons] at hcap
    have hnext : ∀ p ∈ some x, ∀ r ∈ l, p ≤ r := fun p hp r hr => (Option.mem_some.mp hp) ▸ hx r hr
    rw [emitRegs]
    split
    · rename_i heq
      obtain ⟨hpair, hmem⟩ := ih hl hnext (show l.length ≤ cap by omega)
      refine ⟨hpair, fun r => (hmem r).trans ?_⟩
      rw [List.mem_cons, heq]
      grind
    · rename_i hne
      split
      · rename_i hbig
        obtain ⟨hpair, hmem⟩ := ih hl hnext (show l.length ≤ cap by omega)
        refine ⟨hpair, fun r => (hmem r).trans ?_⟩
        -- an element equal to the previous one would be as large as `x`
        have hsmall : r ∈ l → r < regsSize → prev ≠ some r := fun hr hlt _ => by
          have := hx r hr
          omega
        rw [List.mem_cons]
        grind
      · rw [if_neg (show cap ≠ 0 by omega)]
        obtain ⟨hpair, hmem⟩ := ih hl hnext (show l.length ≤ cap - 1 by omega)
        have hfirst : ∀ r ∈ l, prev = some r → r = x := fun r hr heq =>
          Nat.le_antisymm (hprev r heq x List.mem_cons_self) (hx r hr)
        refine ⟨List.pairwise_cons.mpr ⟨fun r hr => ?_, hpair⟩, fun r => ?_⟩
        · obtain ⟨hr, -, hne⟩ := (hmem r).mp hr
          have hle := hx r hr
          have hne : x ≠ r := fun h => hne (congrArg some h)
          omega
        · rw [List.mem_cons, hmem, List.mem_cons]
          grind

theorem collectUsedRegs_reports_read (insn : Insn) {regsSize outCap : Nat}
    (hcap : (readRegs insn (kOpcodeFmt (opcodeOf insn))).length ≤ outCap) :
    Reports (readRegs insn (kOpcodeFmt (opcodeOf insn))) regsSize (collectUsedRegs insn regsSize outCap) := by
  have hsorted := List.pairwise_insertionSort (· ≤ ·) (readRegs insn (kOpcodeFmt (opcodeOf insn)))
  have hlen : ((readRegs insn (kOpcodeFmt (opcodeOf insn))).insertionSort (· ≤ ·)).length ≤ outCap := by
    rwa [List.length_insertionSort]
  obtain ⟨hpair, hmem⟩ := @emitRegs_spec regsSize outCap none _ hsorted (by simp) hlen
  refine ⟨hpair, fun r => (hmem r).trans ?_⟩
  simp

theorem length_readRegs_le (insn : Insn) (f : RegFmt) : (readRegs insn f).length ≤ 8 := by
  cases f <;> simp [readRegs, regs5]

/-! ## The table against the formats -/

/-- The formats whose register fields a row of the table reads. -/
def alike : RegFmt → List Format
  | .none => [.k10x, .k10t, .k20t, .k30t]
  | .f12x => [.k12x]
  | .f11x => [.k11x]
  | .f11n => []
  | .f21x => [.k11x, .k21c, .k21s, .k21t, .k21h, .k31t, .k31c, .k31i, .k51l]
  | .f22x => []
  | .f22b => [.k22b]
  | .f22r => [.k22c, .k22s, .k22t]
  | .f23x => [.k23x]
  | .f32x => [.k32x]
  | .f35c => [.k35c, .k45cc]
  | .f3rc => [.k3rc, .k4rcc]

set_option maxRecDepth 8192 in
/-- Every row is right but those of five instructions and of the runtime's own. -/
theorem kOpcodeFmt_alike (opcode : Opcode) :
    getFormatFromOpcode opcode ∈ alike (kOpcodeFmt opcode) ∨ opcode ∈ [0x12, 0x13, 0x02, 0x05, 0x08] ∨
      runtimeOnly opcode = true := by
  have hall : ∀ x ∈ ((spreadRuns .none 0 regFmtRuns 256).zip formats).zipIdx, x.1.2 ∈ alike x.1.1 ∨
      UInt8.ofNat x.2 ∈ ([0x12, 0x13, 0x02, 0x05, 0x08] : List Opcode) ∨ runtimeOnly (UInt8.ofNat x.2) = true := by
    decide
  have hop := hall _ (mem_zipIdx_zip (getElem?_spreadRuns_opcode .none regFmtRuns opcode.toNat_lt)
    (getElem?_formats opcode.toNat_lt))
  rwa [UInt8.ofNat_toNat] at hop

theorem and_low4 (n : Nat) : n &&& 0xF = n % 2 ^ 4 := Nat.and_two_pow_sub_one_eq_mod n 4

theorem and_low8 (n : Nat) : n &&& 0xFF = n % 2 ^ 8 := Nat.and_two_pow_sub_one_eq_mod n 8

theorem high4 {n : Nat} (h : n < 2 ^ 16) : n >>> 12 &&& 0xF = n >>> 12 := by
  rw [and_low4, Nat.shiftRight_eq_div_pow]
  omega

theorem high8 {n : Nat} (h : n < 2 ^ 16) : n >>> 8 &&& 0xFF = n >>> 8 := by
  rw [and_low8, Nat.shiftRight_eq_div_pow]
  omega

theorem readRegs_range (insn : Insn) (h : unit insn 2 + min (instAA (unit insn 0)) 8 ≤ 2 ^ 16) :
    readRegs insn .f3rc = ((List.range (instAA (unit insn 0))).map (fun i => unit insn 2 + i)).take 8 := by
  rw [← List.map_take, List.take_range, readRegs, high8 (unit_lt insn 0), Nat.min_comm 8]
  refine List.map_congr_left (fun i hi => Nat.mod_eq_of_lt ?_)
  have := List.mem_range.mp hi
  unfold instAA at h
  omega

/-- Where row and format are alike they read the same registers. -/
theorem readRegs_of_alike {insn : Insn} {opcode : Opcode} {f : RegFmt} {g : Format} (h : g ∈ alike f)
    (hrange : g ∈ [Format.k3rc, Format.k4rcc] → unit insn 2 + min (instAA (unit insn 0)) 8 ≤ 2 ^ 16) :
    readRegs insn f =
      if g ∈ [Format.k3rc, Format.k4rcc] then ((formatOperands insn opcode g).map Prod.fst).take 8
      else (formatOperands insn opcode g).map Prod.fst := by
  have h0 := unit_lt insn 0
  have h1 := unit_lt insn 1
  cases f with
  | f3rc =>
    rw [readRegs_range insn (hrange h), if_pos (show g ∈ [Format.k3rc, Format.k4rcc] from h)]
    simp only [alike, List.mem_cons, List.not_mem_nil, or_false] at h
    rcases h with rfl | rfl <;> simp [formatOperands, Function.comp_def]
  | f35c =>
    simp only [alike, List.mem_cons, List.not_mem_nil, or_false] at h
    rcases h with rfl | rfl <;>
      simp [formatOperands, readRegs, instB, high4 h0, Function.comp_def]
  | none | f12x | f11x | f11n | f21x | f22x | f22b | f22r | f23x | f32x =>
    cases g <;> simp only [alike, List.mem_cons, List.not_mem_nil, or_false, or_self, reduceCtorEq] at h <;>
      simp [formatOperands, readRegs, instA, instB, instAA, high4 h0, high8 h0, high8 h1]

/-- The registers of the instructions whose row is another format's, by both formats. -/
theorem reads_of_row {insn : Insn} {opcode : Opcode} {f : RegFmt} {g : Format} (hop : opcodeOf insn = opcode)
    (hf : kOpcodeFmt opcode = f) (hg : getFormatFromOpcode opcode = g) (hrange : g ∉ [Format.k3rc, Format.k4rcc])
    (hread : readRegs insn f = (formatOperands insn opcode g).map Prod.fst) :
    readRegs insn (kOpcodeFmt (opcodeOf insn)) = capped insn (namedRegs insn) := by
  rw [capped, isRange, hop, hf, hg, if_neg (by simpa using hrange), namedRegs, operands, hop, hg, hread]

/-- An instruction that is not misread has its own registers read. -/
theorem readRegs_of_not_misread {insn : Insn} (h : ¬ Misread insn) :
    readRegs insn (kOpcodeFmt (opcodeOf insn)) = capped insn (namedRegs insn) := by
  have hrange : isRange (opcodeOf insn) = true → unit insn 2 + min (instAA (unit insn 0)) 8 ≤ 2 ^ 16 :=
    fun hr => Nat.le_of_not_lt (fun hlt => h (.range hr hlt))
  rcases kOpcodeFmt_alike (opcodeOf insn) with halike | hop | hrun
  · have hread := @readRegs_of_alike insn (opcodeOf insn) _ _ halike (fun hg => hrange (decide_eq_true hg))
    simpa [capped, namedRegs, operands, isRange] using hread
  · have h0 := unit_lt insn 0
    -- the source of a move has a whole unit, of which the low byte is read
    have hfrom : opcodeOf insn ∈ [0x02, 0x05, 0x08] → readRegs insn .f22x =
        (formatOperands insn (opcodeOf insn) .k22x).map Prod.fst := by
      intro hmem
      have hlt : unit insn 1 < 256 := Nat.lt_of_not_le (fun hle => h (.from16 hmem hle))
      simp only [readRegs, formatOperands, List.map_cons, List.map_nil, instAA, high8 h0, and_low8 (unit insn 1)]
      rw [Nat.mod_eq_of_lt (show unit insn 1 < 2 ^ 8 from hlt)]
    simp only [List.mem_cons, List.not_mem_nil, or_false] at hop
    rcases hop with hop | hop | hop | hop | hop
    · have hlit : unit insn 0 >>> 12 = 0 := by
        by_contra hne
        exact h (.const4 hop hne)
      refine reads_of_row hop (f := .f11x) (g := .k11n) (by decide) (by decide) (by decide) ?_
      simp only [readRegs, formatOperands, List.map_cons, List.map_nil, instA, and_low8, and_low4, List.cons.injEq,
        and_true]
      rw [Nat.shiftRight_eq_div_pow] at hlit ⊢
      omega
    · have hAA : unit insn 0 >>> 8 < 16 := Nat.lt_of_not_le (fun hle => h (.const16 hop hle))
      refine reads_of_row hop (f := .f11n) (g := .k21s) (by decide) (by decide) (by decide) ?_
      simp only [readRegs, formatOperands, List.map_cons, List.map_nil, instAA, and_low4]
      rw [Nat.mod_eq_of_lt (show unit insn 0 >>> 8 < 2 ^ 4 from hAA)]
    · exact reads_of_row hop (by decide) (by decide) (by decide) (hop ▸ hfrom (by simp [hop]))
    · exact reads_of_row hop (by decide) (by decide) (by decide) (hop ▸ hfrom (by simp [hop]))
    · exact reads_of_row hop (by decide) (by decide) (by decide) (hop ▸ hfrom (by simp [hop]))
  · exact absurd (.quickened hrun) h

/-! ## What is shown -/

/-- Of an instruction that is not misread the result has, in ascending order and once each, the registers that its
fields name and the frame has: of a pair the first, of a range eight. -/
theorem collectUsedRegs_reports {insn : Insn} {outCap : Nat} (hread : ¬ Misread insn) (hcap : 8 ≤ outCap)
    (regsSize : Nat) :
    Reports (capped insn (namedRegs insn)) regsSize (collectUsedRegs insn regsSize outCap) := by
  rw [← readRegs_of_not_misread hread]
  exact collectUsedRegs_reports_read insn (Nat.le_trans (length_readRegs_le insn _) hcap)

/-- `add-long v4, v2, v0`, followed by zeros. -/
def addLong : Insn := fun i => [0x049b, 0x0002].getD i 0

theorem not_misread_addLong : ¬ Misread addLong := by
  intro h
  cases h with
  | const4 hop _ => exact absurd hop (by decide)
  | const16 hop _ => exact absurd hop (by decide)
  | from16 hop _ => exact absurd hop (by decide)
  | quickened hop => exact absurd hop (by decide)
  | range hop _ => exact absurd hop (by decide)

theorem collectUsedRegs_reports_addLong :
    collectUsedRegs addLong 6 kMaxRegsPerLine = [0, 2, 4] ∧
      Reports (capped addLong (namedRegs addLong)) 6 (collectUsedRegs addLong 6 kMaxRegsPerLine) :=
  ⟨by decide, collectUsedRegs_reports not_misread_addLong (by decide) 6⟩

/-- The pair of a wide operand is not shown as two registers. -/
theorem not_reports_usedRegs :
    ¬ ∀ (insn : Insn) (regsSize outCap : Nat), 8 ≤ outCap →
      Reports (capped insn (usedRegs insn)) regsSize (collectUsedRegs insn regsSize outCap) := by
  intro h
  exact absurd (((h addLong 6 kMaxRegsPerLine (by decide)).2 5).mpr (by decide)) (by decide)

end ArtPi.Interp.UsedRegs
