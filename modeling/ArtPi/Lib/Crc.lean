import Mathlib.Logic.Function.Iterate

set_option autoImplicit false

/-! # Reflected cyclic redundancy checks

`feed` is the register of a reflected CRC that takes the message bit by bit: the bit that leaves is compared with the
bit of the message, and where they differ the polynomial is added. `shift` is the register on its own. It is linear, so
that a group of `v` bits may be added first and shifted through afterwards (`foldl_feed`), and the upper bits may be
taken out of the shifting (`iterate_shift_split`), which is what a table of the `2 ^ v` groups is for. -/

namespace ArtPi.Lib.Crc

variable {w v : Nat} (poly : BitVec w)

def shift (c : BitVec w) : BitVec w :=
  (c >>> 1) ^^^ (if c.getLsbD 0 then poly else 0#w)

def feed (c : BitVec w) (b : Bool) : BitVec w :=
  (c >>> 1) ^^^ (if c.getLsbD 0 ^^ b then poly else 0#w)

/-- The bits of a group, the lowest first. -/
def bitsOf (g : BitVec v) : List Bool := (List.range v).map g.getLsbD

theorem getLsbD_ite_zero (b : Bool) (i : Nat) : (if b then poly else 0#w).getLsbD i = (b && poly.getLsbD i) := by
  cases b with
  | true => simp
  | false => simp

theorem getLsbD_shift (c : BitVec w) (i : Nat) :
    (shift poly c).getLsbD i = (c.getLsbD (i + 1) ^^ (c.getLsbD 0 && poly.getLsbD i)) := by
  rw [shift, BitVec.getLsbD_xor, BitVec.getLsbD_ushiftRight, getLsbD_ite_zero, Nat.add_comm]

theorem getLsbD_feed (c : BitVec w) (b : Bool) (i : Nat) :
    (feed poly c b).getLsbD i = (c.getLsbD (i + 1) ^^ ((c.getLsbD 0 ^^ b) && poly.getLsbD i)) := by
  rw [feed, BitVec.getLsbD_xor, BitVec.getLsbD_ushiftRight, getLsbD_ite_zero, Nat.add_comm]

theorem shift_xor (x y : BitVec w) : shift poly (x ^^^ y) = shift poly x ^^^ shift poly y := by
  apply BitVec.eq_of_getLsbD_eq
  intro i _
  rw [BitVec.getLsbD_xor, getLsbD_shift, getLsbD_shift, getLsbD_shift, BitVec.getLsbD_xor, BitVec.getLsbD_xor]
  cases x.getLsbD 0 <;> cases y.getLsbD 0 <;> cases poly.getLsbD i <;> simp

theorem iterate_shift_xor (n : Nat) (x y : BitVec w) :
    (shift poly)^[n] (x ^^^ y) = (shift poly)^[n] x ^^^ (shift poly)^[n] y := by
  induction n generalizing x y with
  | zero => rfl
  | succ n ih => rw [Function.iterate_succ_apply, shift_xor, ih, ← Function.iterate_succ_apply,
      ← Function.iterate_succ_apply]

theorem iterate_shift_of_low {n : Nat} {x : BitVec w} (h : ∀ i < n, x.getLsbD i = false) :
    (shift poly)^[n] x = x >>> n := by
  induction n generalizing x with
  | zero => rw [Function.iterate_zero, id, BitVec.ushiftRight_zero]
  | succ n ih =>
    have hshift : shift poly x = x >>> 1 := by
      rw [shift, h 0 (Nat.succ_pos n), if_neg Bool.false_ne_true, BitVec.xor_zero]
    have hlow : ∀ i < n, (x >>> 1).getLsbD i = false := by
      intro i hi
      rw [BitVec.getLsbD_ushiftRight]
      exact h (1 + i) (by omega)
    rw [Function.iterate_succ_apply, hshift, ih hlow, ← BitVec.shiftRight_add, Nat.add_comm]

/-- The upper bits are not needed to shift the lower ones out. -/
theorem iterate_shift_split (n : Nat) (x : BitVec w) :
    (shift poly)^[n] x = (shift poly)^[n] ((x.setWidth n).setWidth w) ^^^ (x >>> n) := by
  have hsplit : x = (x.setWidth n).setWidth w ^^^ ((x >>> n) <<< n) := by
    apply BitVec.eq_of_getLsbD_eq
    intro i hi
    rw [BitVec.getLsbD_xor, BitVec.getLsbD_setWidth, BitVec.getLsbD_setWidth, BitVec.getLsbD_shiftLeft,
      BitVec.getLsbD_ushiftRight]
    by_cases hlow : i < n
    · simp [hi, hlow]
    · simp [hi, hlow, Nat.add_sub_cancel' (Nat.le_of_not_lt hlow)]
  have hmoved : (shift poly)^[n] ((x >>> n) <<< n) = x >>> n := by
    rw [iterate_shift_of_low poly (fun i hi => by simp [hi])]
    apply BitVec.eq_of_getLsbD_eq
    intro i hi
    rw [BitVec.getLsbD_ushiftRight, BitVec.getLsbD_shiftLeft, BitVec.getLsbD_ushiftRight]
    by_cases hin : n + i < w
    · simp [hin]
    · simp [hin, BitVec.getLsbD_of_ge x (n + i) (Nat.le_of_not_lt hin)]
  have hshift := congrArg (shift poly)^[n] hsplit
  rw [iterate_shift_xor, hmoved] at hshift
  exact hshift

theorem foldl_feed_range (g : BitVec v) (hv : v ≤ w) (n k : Nat) (c : BitVec w) (h : k + n = v) :
    ((List.range' k n).map g.getLsbD).foldl (feed poly) c =
      (shift poly)^[n] (c ^^^ (g >>> k).setWidth w) := by
  induction n generalizing k c with
  | zero =>
    have hzero : (g >>> k).setWidth w = 0#w := by
      apply BitVec.eq_of_getLsbD_eq
      intro i _
      rw [BitVec.getLsbD_setWidth, BitVec.getLsbD_ushiftRight, BitVec.getLsbD_of_ge g (k + i) (by omega)]
      simp
    rw [hzero, BitVec.xor_zero]
    rfl
  | succ n ih =>
    rw [List.range'_succ, List.map_cons, List.foldl_cons, ih (k + 1) _ (by omega), Function.iterate_succ_apply]
    congr 1
    apply BitVec.eq_of_getLsbD_eq
    intro i hi
    rw [BitVec.getLsbD_xor, getLsbD_feed, getLsbD_shift, BitVec.getLsbD_xor, BitVec.getLsbD_xor,
      BitVec.getLsbD_setWidth, BitVec.getLsbD_setWidth, BitVec.getLsbD_setWidth, BitVec.getLsbD_ushiftRight,
      BitVec.getLsbD_ushiftRight, BitVec.getLsbD_ushiftRight]
    have hnext : k + 1 + i = k + (i + 1) := by omega
    by_cases hin : i + 1 < w
    · simp only [hi, hin, hnext, Nat.zero_lt_of_lt hi, decide_true, Bool.true_and, Nat.add_zero]
      exact Bool.xor_right_comm _ _ _
    · -- the group ends below the top of the register
      have htop : g.getLsbD (k + (i + 1)) = false := BitVec.getLsbD_of_ge g _ (by omega)
      simp [hi, hin, hnext, htop, Nat.zero_lt_of_lt hi]

/-- The bits of a group one after another are the group added and shifted through. -/
theorem foldl_feed (g : BitVec v) (hv : v ≤ w) (c : BitVec w) :
    (bitsOf g).foldl (feed poly) c = (shift poly)^[v] (c ^^^ g.setWidth w) := by
  rw [bitsOf, List.range_eq_range', foldl_feed_range poly g hv v 0 c (Nat.zero_add v), BitVec.ushiftRight_zero]

end ArtPi.Lib.Crc
