import Mathlib.Data.List.Sort

set_option autoImplicit false

/-! # Ranks

Numbered items are sorted by keys that no two of them share. The rank of an item is its place in the order: ranks are
ordered as the keys are, and a table of the items in that order has every item at its rank. -/

namespace ArtPi.Ranking

variable {κ ρ : Type} [LinearOrder κ]

/-- The numbers below `n` in the order of a comparison. -/
def sortIds (n : Nat) (comp : Nat → Nat → Bool) : List Nat := (List.range n).insertionSort (fun a b => comp b a = false)

variable {n : Nat} {comp : Nat → Nat → Bool} {key : Nat → κ}

theorem perm_sortIds : (sortIds n comp).Perm (List.range n) := List.perm_insertionSort _ _

theorem mem_sortIds {a : Nat} : a ∈ sortIds n comp ↔ a < n := perm_sortIds.mem_iff.trans List.mem_range

theorem nodup_sortIds : (sortIds n comp).Nodup := perm_sortIds.nodup_iff.2 List.nodup_range

theorem length_sortIds : (sortIds n comp).length = n := perm_sortIds.length_eq.trans List.length_range

theorem rank_lt {a : Nat} (ha : a < n) : (sortIds n comp).idxOf a < n := by
  have hmem : a ∈ sortIds n comp := mem_sortIds.2 ha
  have hlt := List.idxOf_lt_length_of_mem hmem
  rwa [length_sortIds] at hlt

theorem getElem?_rank (row : Nat → ρ) {a : Nat} (ha : a < n) :
    ((sortIds n comp).map row)[(sortIds n comp).idxOf a]? = some (row a) := by
  have hmem : a ∈ sortIds n comp := mem_sortIds.2 ha
  rw [List.getElem?_map, List.getElem?_eq_getElem (List.idxOf_lt_length_of_mem hmem), List.getElem_idxOf]
  rfl

theorem rank_inj {a b : Nat} (ha : a < n) (hb : b < n) (h : (sortIds n comp).idxOf a = (sortIds n comp).idxOf b) : a = b := by
  have hrow : ((sortIds n comp).map id)[(sortIds n comp).idxOf a]? = some (id a) := getElem?_rank id ha
  rw [h, getElem?_rank id hb] at hrow
  exact (Option.some.inj hrow).symm

section Keys

variable (hcomp : ∀ a b, comp a b = true ↔ key a < key b) (hinj : ∀ a < n, ∀ b < n, key a = key b → a = b)

include hcomp hinj

theorem sorted_sortIds : (sortIds n comp).Pairwise (key · < key ·) := by
  have hle : (fun a b => comp b a = false) = fun a b => key a ≤ key b := by
    funext a b
    rw [Bool.eq_false_iff, Ne, hcomp, not_lt]
  have htotal : Std.Total (fun a b : Nat => comp b a = false) := hle ▸ ⟨fun a b => le_total (key a) (key b)⟩
  have htrans : IsTrans Nat (fun a b => comp b a = false) := hle ▸ ⟨fun _ _ _ => le_trans⟩
  have hsorted := List.pairwise_insertionSort (fun a b => comp b a = false) (List.range n)
  have hne : (sortIds n comp).Pairwise (key · ≠ key ·) :=
    List.Pairwise.imp_of_mem (fun ha hb hab h => hab (hinj _ (mem_sortIds.1 ha) _ (mem_sortIds.1 hb) h)) nodup_sortIds
  refine (hsorted.and hne).imp fun {a b} hab => ?_
  rw [Bool.eq_false_iff, Ne, hcomp, not_lt] at hab
  exact lt_of_le_of_ne hab.1 hab.2

theorem sorted_rows {row : Nat → ρ} {rowKey : ρ → κ} (hrow : ∀ a < n, rowKey (row a) = key a) :
    ((sortIds n comp).map row).Pairwise (rowKey · < rowKey ·) := by
  rw [List.pairwise_map]
  refine (sorted_sortIds hcomp hinj).imp_of_mem fun ha hb hab => ?_
  rwa [hrow _ (mem_sortIds.1 ha), hrow _ (mem_sortIds.1 hb)]

end Keys

end ArtPi.Ranking
