import Mathlib.Logic.Basic

set_option autoImplicit false

/-! # Where an A64 instruction goes

The branches of the base instruction set: B and BL, B.cond, CBZ and CBNZ, TBZ and TBNZ, BR, BLR and RET. Every other
instruction is followed by the next one. The link registers that BL and BLR write do not matter for where they go. -/

namespace ArtPi.Lib.Arm64Branch

/-- The general registers and the flags. -/
structure Registers where
  x : BitVec 5 → BitVec 64
  n : Bool
  z : Bool
  c : Bool
  v : Bool

namespace Registers

/-- A register that an instruction names; number 31 is `xzr`. -/
def reg (s : Registers) (r : BitVec 5) : BitVec 64 := if r = 31 then 0 else s.x r

/-- `ConditionHolds`. -/
def holds (s : Registers) (cond : BitVec 4) : Bool :=
  let result := match (cond.extractLsb' 1 3).toNat with
    | 0 => s.z
    | 1 => s.c
    | 2 => s.n
    | 3 => s.v
    | 4 => s.c && !s.z
    | 5 => s.n == s.v
    | 6 => s.n == s.v && !s.z
    | _ => true
  if cond.getLsbD 0 && cond ≠ 15 then !result else result

end Registers

inductive Branch where
  | ret (rn : BitVec 5)
  | imm (imm26 : BitVec 26)
  | reg (rn : BitVec 5)
  | cond (cond : BitVec 4) (imm19 : BitVec 19)
  | compare (wide nonzero : Bool) (rt : BitVec 5) (imm19 : BitVec 19)
  | test (nonzero : Bool) (bit : BitVec 6) (rt : BitVec 5) (imm14 : BitVec 14)
  deriving DecidableEq

def decode (w : BitVec 32) : Option Branch :=
  if w &&& 0xfffffc1f = 0xd65f0000 then some (.ret (w.extractLsb' 5 5))
  else if w &&& 0x7c000000 = 0x14000000 then some (.imm (w.extractLsb' 0 26))
  else if w &&& 0xfffffc1f = 0xd61f0000 ∨ w &&& 0xfffffc1f = 0xd63f0000 then some (.reg (w.extractLsb' 5 5))
  else if w &&& 0xff000000 = 0x54000000 then some (.cond (w.extractLsb' 0 4) (w.extractLsb' 5 19))
  else if w &&& 0x7e000000 = 0x34000000 then
    some (.compare (w.getLsbD 31) (w.getLsbD 24) (w.extractLsb' 0 5) (w.extractLsb' 5 19))
  else if w &&& 0x7e000000 = 0x36000000 then
    some (.test (w.getLsbD 24) (w.extractLsb' 31 1 ++ w.extractLsb' 19 5) (w.extractLsb' 0 5) (w.extractLsb' 5 14))
  else none

namespace Branch

def taken (s : Registers) : Branch → Bool
  | .ret _ | .imm _ | .reg _ => true
  | .cond code _ => s.holds code
  | .compare wide nonzero rt _ =>
    (if wide then decide (s.reg rt = 0) else decide ((s.reg rt).extractLsb' 0 32 = 0)) != nonzero
  | .test nonzero bit rt _ => (s.reg rt).getLsbD bit.toNat == nonzero

/-- A number of instructions from `pc`. -/
def relative {n : Nat} (pc : BitVec 64) (words : BitVec n) : BitVec 64 := pc + BitVec.ofInt 64 (4 * words.toInt)

def target (s : Registers) (pc : BitVec 64) : Branch → BitVec 64
  | .ret rn | .reg rn => s.reg rn
  | .imm imm26 => relative pc imm26
  | .cond _ imm19 | .compare _ _ _ imm19 => relative pc imm19
  | .test _ _ _ imm14 => relative pc imm14

/-- It is not taken, or leads to the next instruction. -/
def GoesOn (s : Registers) (pc : BitVec 64) (b : Branch) : Prop := b.taken s = true → b.target s pc = pc + 4

end Branch

/-- The address of the instruction that is executed next. -/
def successor (s : Registers) (pc : BitVec 64) (w : BitVec 32) : BitVec 64 :=
  match decode w with
  | none => pc + 4
  | some b => if b.taken s then b.target s pc else pc + 4

theorem successor_of_none {s : Registers} {pc : BitVec 64} {w : BitVec 32} (h : decode w = none) :
    successor s pc w = pc + 4 := by
  rw [successor, h]

theorem successor_of_taken {s : Registers} {pc : BitVec 64} {w : BitVec 32} {b : Branch} (h : decode w = some b)
    (ht : b.taken s = true) : successor s pc w = b.target s pc := by
  rw [successor, h]
  exact if_pos ht

theorem successor_eq_next_iff {s : Registers} {pc : BitVec 64} {w : BitVec 32} {b : Branch} (h : decode w = some b) :
    pc + 4 = successor s pc w ↔ b.GoesOn s pc := by
  rw [successor, h]
  show pc + 4 = (if b.taken s then b.target s pc else pc + 4) ↔ (b.taken s = true → b.target s pc = pc + 4)
  by_cases ht : b.taken s = true
  · rw [if_pos ht, imp_iff_right ht]
    exact eq_comm
  · rw [if_neg ht]
    exact iff_of_true rfl (fun h => absurd h ht)

end ArtPi.Lib.Arm64Branch
