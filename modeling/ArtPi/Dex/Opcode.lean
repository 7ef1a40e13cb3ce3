import Mathlib.Data.Nat.Bitwise

set_option autoImplicit false

/-! # Dalvik opcodes and instruction formats

The parts of `slicer/dex_instruction_list.h` and `slicer/dex_bytecode.cc` that the assembler uses:
the format of every opcode, the width of every format, and the verifier flags that say which
register fields name a wide pair. The header has one line per opcode; here a table is given by its
runs, the first opcode of each run with the value shared by the run. -/

namespace ArtPi.Dex

/-- `dex::Opcode`, one byte. -/
abbrev Opcode : Type := UInt8

def OP_NOP : Opcode := 0x00
def OP_RETURN_VOID : Opcode := 0x0e
def OP_RETURN : Opcode := 0x0f
def OP_RETURN_WIDE : Opcode := 0x10
def OP_RETURN_OBJECT : Opcode := 0x11
def OP_THROW : Opcode := 0x27
def OP_GOTO : Opcode := 0x28
def OP_GOTO_16 : Opcode := 0x29
def OP_GOTO_32 : Opcode := 0x2a
def OP_PACKED_SWITCH : Opcode := 0x2b
def OP_SPARSE_SWITCH : Opcode := 0x2c

inductive Format where
  | k10x | k12x | k11n | k11x | k10t | k20t | k20bc | k22x | k21t | k21s | k21h | k21c | k23x | k22b
  | k22t | k22s | k22c | k22cs | k30t | k32x | k31i | k31t | k31c | k35c | k35ms | k3rc | k3rms
  | k35mi | k3rmi | k45cc | k4rcc | k51l
  deriving DecidableEq

/-- The value of the run that `n` falls into. -/
def lookupRun {α : Type} (dflt : α) : List (Nat × α) → Nat → α
  | [], _ => dflt
  | (start, a) :: rest, n => if n < start then dflt else lookupRun a rest n

/-- The values of the places from `lo` on, up to a bound. -/
def spreadRuns {α : Type} (dflt : α) (lo : Nat) : List (Nat × α) → Nat → List α
  | [], n => List.replicate (n - lo) dflt
  | (start, a) :: rest, n => List.replicate (start - lo) dflt ++ spreadRuns a (max lo start) rest n

theorem getElem?_spreadRuns {α : Type} (dflt : α) {lo bound n : Nat} (runs : List (Nat × α)) (hlo : lo ≤ n)
    (hn : n < bound) : (spreadRuns dflt lo runs bound)[n - lo]? = some (lookupRun dflt runs n) := by
  induction runs generalizing dflt lo with
  | nil => rw [spreadRuns, lookupRun, List.getElem?_replicate_of_lt (by omega)]
  | cons run rest ih =>
    obtain ⟨start, a⟩ := run
    rw [spreadRuns, lookupRun]
    by_cases hstart : n < start
    · rw [if_pos hstart, List.getElem?_append_left (by rw [List.length_replicate]; omega),
        List.getElem?_replicate_of_lt (by omega)]
    · rw [if_neg hstart, List.getElem?_append_right (by rw [List.length_replicate]; omega),
        List.length_replicate, show n - lo - (start - lo) = n - max lo start by omega]
      exact ih a (by omega)

theorem getElem?_spreadRuns_opcode {α : Type} (dflt : α) (runs : List (Nat × α)) {op : Nat} (h : op < 256) :
    (spreadRuns dflt 0 runs 256)[op]? = some (lookupRun dflt runs (UInt8.ofNat op).toNat) := by
  rw [UInt8.toNat_ofNat_of_lt' h]
  exact getElem?_spreadRuns dflt runs (Nat.zero_le op) h

/-- What stands in two tables at one place: what is true of each pair in one pass is true of it. -/
theorem mem_zipIdx_zip {α β : Type} {l : List α} {m : List β} {n : Nat} {a : α} {b : β}
    (ha : l[n]? = some a) (hb : m[n]? = some b) : ((a, b), n) ∈ (l.zip m).zipIdx :=
  List.mk_mem_zipIdx_iff_getElem?.mpr (List.getElem?_zip_eq_some.mpr ⟨ha, hb⟩)

/-- The formats of the opcodes, by runs. -/
def formatRuns : List (Nat × Format) :=
  [(0x00, .k10x), (0x01, .k12x), (0x02, .k22x), (0x03, .k32x), (0x04, .k12x), (0x05, .k22x),
   (0x06, .k32x), (0x07, .k12x), (0x08, .k22x), (0x09, .k32x), (0x0a, .k11x), (0x0e, .k10x),
   (0x0f, .k11x), (0x12, .k11n), (0x13, .k21s), (0x14, .k31i), (0x15, .k21h), (0x16, .k21s),
   (0x17, .k31i), (0x18, .k51l), (0x19, .k21h), (0x1a, .k21c), (0x1b, .k31c), (0x1c, .k21c),
   (0x1d, .k11x), (0x1f, .k21c), (0x20, .k22c), (0x21, .k12x), (0x22, .k21c), (0x23, .k22c),
   (0x24, .k35c), (0x25, .k3rc), (0x26, .k31t), (0x27, .k11x), (0x28, .k10t), (0x29, .k20t),
   (0x2a, .k30t), (0x2b, .k31t), (0x2d, .k23x), (0x32, .k22t), (0x38, .k21t), (0x3e, .k10x),
   (0x44, .k23x), (0x52, .k22c), (0x60, .k21c), (0x6e, .k35c), (0x73, .k10x), (0x74, .k3rc),
   (0x79, .k10x), (0x7b, .k12x), (0x90, .k23x), (0xb0, .k12x), (0xd0, .k22s), (0xd8, .k22b),
   (0xe3, .k22c), (0xe9, .k35c), (0xea, .k3rc), (0xeb, .k22c), (0xf3, .k10x), (0xfa, .k45cc),
   (0xfb, .k4rcc), (0xfc, .k35c), (0xfd, .k3rc), (0xfe, .k21c)]

def getFormatFromOpcode (opcode : Opcode) : Format := lookupRun .k10x formatRuns opcode.toNat

/-- The formats of all opcodes in order. -/
def formats : List Format := spreadRuns .k10x 0 formatRuns 256

theorem getElem?_formats {op : Nat} (h : op < 256) :
    formats[op]? = some (getFormatFromOpcode (UInt8.ofNat op)) :=
  getElem?_spreadRuns_opcode .k10x formatRuns h

def getWidthFromFormat : Format → Nat
  | .k10x | .k12x | .k11n | .k11x | .k10t => 1
  | .k20t | .k20bc | .k21c | .k22x | .k21s | .k21t | .k21h | .k23x | .k22b | .k22s | .k22t | .k22c
  | .k22cs => 2
  | .k30t | .k31t | .k31c | .k32x | .k31i | .k35c | .k35ms | .k35mi | .k3rc | .k3rms | .k3rmi => 3
  | .k45cc | .k4rcc => 4
  | .k51l => 5

/-- Membership in a list of closed ranges of opcodes. -/
def inRanges (ranges : List (Nat × Nat)) (opcode : Opcode) : Bool :=
  ranges.any (fun r => r.1 ≤ opcode.toNat && opcode.toNat ≤ r.2)

/-- `kVerifyRegAWide` -/
def regAWide : Opcode → Bool :=
  inRanges [(0x04, 0x06), (0x0b, 0x0b), (0x10, 0x10), (0x16, 0x19), (0x45, 0x45), (0x4c, 0x4c),
    (0x53, 0x53), (0x5a, 0x5a), (0x61, 0x61), (0x68, 0x68), (0x7d, 0x7e), (0x80, 0x81),
    (0x83, 0x83), (0x86, 0x86), (0x88, 0x89), (0x8b, 0x8b), (0x9b, 0xa5), (0xab, 0xaf),
    (0xbb, 0xc5), (0xcb, 0xcf), (0xe4, 0xe4), (0xe7, 0xe7)]

/-- `kVerifyRegBWide` -/
def regBWide : Opcode → Bool :=
  inRanges [(0x04, 0x06), (0x2f, 0x31), (0x7d, 0x7e), (0x80, 0x80), (0x84, 0x86), (0x8a, 0x8c),
    (0x9b, 0xa5), (0xab, 0xaf), (0xbb, 0xc2), (0xcb, 0xcf)]

/-- `kVerifyRegCWide` -/
def regCWide : Opcode → Bool := inRanges [(0x2f, 0x31), (0x9b, 0xa2), (0xab, 0xaf)]

/-- `kInvoke` -/
def isInvoke : Opcode → Bool :=
  inRanges [(0x6e, 0x72), (0x74, 0x78), (0xe9, 0xea), (0xfa, 0xfb)]

def kPackedSwitchSignature : Nat := 0x0100
def kSparseSwitchSignature : Nat := 0x0200
def kArrayDataSignature : Nat := 0x0300

/-- `GetWidthFromBytecode`, on the code from the instruction on. A payload says its own size. -/
def getWidthFromBytecode (code : List Nat) : Nat :=
  let unit (i : Nat) : Nat := code.getD i 0
  if unit 0 = kPackedSwitchSignature then 4 + unit 1 * 2
  else if unit 0 = kSparseSwitchSignature then 2 + unit 1 * 4
  else if unit 0 = kArrayDataSignature then
    let len := unit 2 ||| unit 3 <<< 16
    4 + (unit 1 * len + 1) % 2 ^ 32 / 2
  else getWidthFromFormat (getFormatFromOpcode (UInt8.ofNat (unit 0 &&& 0xff)))

theorem getWidthFromBytecode_insn {u : Nat} {rest : List Nat} (h : u % 256 ≠ 0 ∨ u = 0) :
    getWidthFromBytecode (u :: rest)
      = getWidthFromFormat (getFormatFromOpcode (UInt8.ofNat (u &&& 0xff))) := by
  simp only [getWidthFromBytecode, List.getD_cons_zero, kPackedSwitchSignature,
    kSparseSwitchSignature, kArrayDataSignature]
  rw [if_neg (by omega), if_neg (by omega), if_neg (by omega)]

/-- A branch of the source whose displacement field has 16 bits. -/
def Format.isBranch16 : Format → Bool
  | .k20t | .k21t | .k22t => true
  | _ => false

theorem getWidthFromFormat_pos (f : Format) : 0 < getWidthFromFormat f := by
  cases f <;> decide

end ArtPi.Dex
