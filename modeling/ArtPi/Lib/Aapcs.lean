import Mathlib.Algebra.Order.Ring.Int
import Mathlib.Data.List.Basic

set_option autoImplicit false

/-! # Arguments in registers

The part of the AAPCS64 that a call without arguments on the stack needs: integers and addresses are in the first
general registers, floating-point numbers in the first vector registers, each file counted for itself. Of a register
only the low bits are the value; the others are of no meaning. -/

namespace ArtPi.Lib.Aapcs

/-- The file that a parameter goes to, and the bits of its value. -/
structure Param where
  isFp : Bool
  width : Nat
  deriving DecidableEq

structure Regs where
  x : Nat → UInt64
  v : Nat → UInt64

/-- The values of so many bits are the same. -/
def Agree (w : Nat) (a b : UInt64) : Prop := a.toNat % 2 ^ w = b.toNat % 2 ^ w

/-- The arguments are in registers of a file from the `n`-th on. There are eight of them. -/
def InOrder (reg : Nat → UInt64) : Nat → List (Param × UInt64) → Prop
  | _, [] => True
  | n, a :: rest => n < 8 ∧ Agree a.1.width (reg n) a.2 ∧ InOrder reg (n + 1) rest

def general (args : List (Param × UInt64)) : List (Param × UInt64) := args.filter (!·.1.isFp)

def floating (args : List (Param × UInt64)) : List (Param × UInt64) := args.filter (·.1.isFp)

/-- The arguments are where the callee expects them, with the first `gp` general and `fp` vector registers taken. -/
structure Regs.Placed (r : Regs) (gp fp : Nat) (args : List (Param × UInt64)) : Prop where
  general : InOrder r.x gp (general args)
  floating : InOrder r.v fp (floating args)

instance instDecidableAgree (w : Nat) (a b : UInt64) : Decidable (Agree w a b) :=
  inferInstanceAs (Decidable (_ = _))

instance instDecidableInOrder (reg : Nat → UInt64) : ∀ n args, Decidable (InOrder reg n args)
  | _, [] => .isTrue trivial
  | n, a :: rest =>
    haveI := instDecidableInOrder reg (n + 1) rest
    inferInstanceAs (Decidable (n < 8 ∧ Agree a.1.width (reg n) a.2 ∧ InOrder reg (n + 1) rest))

@[simp] theorem general_nil : general [] = [] := rfl

@[simp] theorem floating_nil : floating [] = [] := rfl

theorem general_cons_gp {p : Param} (h : p.isFp = false) (a : UInt64) (args : List (Param × UInt64)) :
    general ((p, a) :: args) = (p, a) :: general args := by
  simp [general, h]

theorem general_cons_fp {p : Param} (h : p.isFp = true) (a : UInt64) (args : List (Param × UInt64)) :
    general ((p, a) :: args) = general args := by
  simp [general, h]

theorem floating_cons_gp {p : Param} (h : p.isFp = false) (a : UInt64) (args : List (Param × UInt64)) :
    floating ((p, a) :: args) = floating args := by
  simp [floating, h]

theorem floating_cons_fp {p : Param} (h : p.isFp = true) (a : UInt64) (args : List (Param × UInt64)) :
    floating ((p, a) :: args) = (p, a) :: floating args := by
  simp [floating, h]

theorem Agree.refl (w : Nat) (a : UInt64) : Agree w a a := rfl

/-- The low half of a register has the value of a parameter that is not wider. -/
theorem agree_low {w : Nat} (hw : w ≤ 32) (a : UInt64) : Agree w (a &&& 0xFFFFFFFF) a := by
  have hmask : (a &&& 0xFFFFFFFF).toNat = a.toNat % 2 ^ 32 := by
    rw [UInt64.toNat_and]
    exact Nat.and_two_pow_sub_one_eq_mod a.toNat 32
  rw [Agree, hmask]
  exact Nat.mod_mod_of_dvd _ (Nat.pow_dvd_pow 2 hw)

/-- Arguments in registers are no more than there are registers. -/
theorem InOrder.length_le {reg : Nat → UInt64} {n : Nat} {args : List (Param × UInt64)} (hn : n ≤ 8)
    (h : InOrder reg n args) : n + args.length ≤ 8 := by
  induction args generalizing n with
  | nil => exact hn
  | cons a args ih =>
    have hlen := ih h.1 h.2.2
    rw [List.length_cons]
    omega

theorem InOrder.congr {reg reg' : Nat → UInt64} (hreg : ∀ n, n < 8 → reg n = reg' n) {n : Nat}
    {args : List (Param × UInt64)} (h : InOrder reg n args) : InOrder reg' n args := by
  induction args generalizing n with
  | nil => trivial
  | cons a args ih => exact ⟨h.1, hreg n h.1 ▸ h.2.1, ih h.2.2⟩

end ArtPi.Lib.Aapcs
