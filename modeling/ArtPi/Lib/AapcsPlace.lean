import Mathlib.Order.Basic

set_option autoImplicit false

/-! # Places of arguments

Where the AAPCS64 puts the arguments of a call. An argument is an integer or an address, or one to four members of a
floating-point type, or it is larger and the address of a copy is passed. Each file of registers has a counter, and the
stack has one. Members are in registers all together or not at all, and once they are not, the registers of their file
are used up. -/

namespace ArtPi.Lib.Aapcs

inductive ArgClass where
  | general
  /-- members of so many bytes -/
  | members (count bytes : Nat)
  /-- the address of a copy -/
  | indirect

/-- The registers of each file that an argument takes. -/
def ArgClass.gprs : ArgClass → Nat
  | .general | .indirect => 1
  | .members _ _ => 0

def ArgClass.fprs : ArgClass → Nat
  | .general | .indirect => 0
  | .members count _ => count

inductive Place where
  | x (n : Nat)
  /-- in registers from the `n`-th on -/
  | v (n : Nat)
  | stack (offset : Nat)

structure Counters where
  ngrn : Nat
  nsrn : Nat
  nsaa : Nat

namespace Counters

/-- The place of the next argument, and the counters behind it. -/
def next (c : Counters) : ArgClass → Place × Counters
  | .general | .indirect =>
    if c.ngrn < 8 then (.x c.ngrn, ⟨c.ngrn + 1, c.nsrn, c.nsaa⟩) else (.stack c.nsaa, ⟨c.ngrn, c.nsrn, c.nsaa + 8⟩)
  | .members count bytes =>
    if c.nsrn + count ≤ 8 then (.v c.nsrn, ⟨c.ngrn, c.nsrn + count, c.nsaa⟩)
    else (.stack c.nsaa, ⟨c.ngrn, 8, c.nsaa + (count * bytes + 7) / 8 * 8⟩)

/-- The next argument has its registers. -/
def Room (c : Counters) (a : ArgClass) : Prop := c.ngrn + a.gprs ≤ 8 ∧ c.nsrn + a.fprs ≤ 8

theorem next_snd_of_room {c : Counters} {a : ArgClass} (h : c.Room a) :
    (c.next a).2 = ⟨c.ngrn + a.gprs, c.nsrn + a.fprs, c.nsaa⟩ := by
  cases a with
  | general => rw [next, if_pos (Nat.lt_of_succ_le h.1)]; rfl
  | indirect => rw [next, if_pos (Nat.lt_of_succ_le h.1)]; rfl
  | members count bytes => rw [next, if_pos (show c.nsrn + count ≤ 8 from h.2)]; rfl

theorem next_general {c : Counters} (h : c.ngrn < 8) : (c.next .general).1 = .x c.ngrn := by
  rw [next, if_pos h]

theorem next_general_stack {c : Counters} (h : ¬ c.ngrn < 8) : (c.next .general).1 = .stack c.nsaa := by
  rw [next, if_neg h]

theorem next_members {c : Counters} {count bytes : Nat} (h : c.nsrn + count ≤ 8) :
    (c.next (.members count bytes)).1 = .v c.nsrn := by
  rw [next, if_pos h]

theorem next_members_stack {c : Counters} {count bytes : Nat} (h : ¬ c.nsrn + count ≤ 8) :
    (c.next (.members count bytes)).1 = .stack c.nsaa := by
  rw [next, if_neg h]

end Counters

end ArtPi.Lib.Aapcs
