import Mathlib.Algebra.Order.Ring.Int
import Mathlib.Data.List.Pairwise
import Mathlib.Order.Basic

set_option autoImplicit false

/-! # Bisection

`bisect` probes the middle of a range of indices and goes on in the half that the probe names.
`bisect_eq_find?` compares it with a linear search: the two agree on a list whose elements are
ordered with respect to what is looked for, and of which at most one fits. -/

namespace ArtPi.Search

/-- The index in `[min, max]` at which `side` says `eq`; `lt` sends the search to smaller indices,
    `gt` to larger ones. -/
def bisect (side : Nat → Ordering) (min max : Int) : Option Nat :=
  if h : min ≤ max then
    let guess := (min + max) >>> (1 : Nat)
    have hguess : min ≤ guess ∧ guess ≤ max := by
      simp only [guess, Int.shiftRight_eq_div_pow]
      omega
    match side guess.toNat with
    | .lt => bisect side min (guess - 1)
    | .gt => bisect side (guess + 1) max
    | .eq => some guess.toNat
  else none
termination_by (max + 1 - min).toNat

/-- The result of a bisection over a range in which the sides are ordered. -/
theorem bisect_spec (side : Nat → Ordering) (n : Nat)
    (hlt : ∀ i j, i ≤ j → j < n → side i = .lt → side j = .lt)
    (hgt : ∀ i j, i ≤ j → j < n → side j = .gt → side i = .gt) (min max : Int)
    (hmin : 0 ≤ min) (hmax : max < n) :
    (∃ g : Nat, bisect side min max = some g ∧ min ≤ g ∧ g ≤ max ∧ side g = .eq) ∨
      (bisect side min max = none ∧ ∀ g : Nat, min ≤ g → g ≤ max → side g ≠ .eq) := by
  induction min, max using bisect.induct side with
  | case1 min max h guess hguess hside ih =>
    obtain ⟨g, hg⟩ : ∃ g : Nat, guess = g := ⟨guess.toNat, by omega⟩
    have heq : bisect side min max = bisect side min (guess - 1) := by
      rw [bisect, dif_pos h]
      simp only [guess] at hside ⊢
      rw [hside]
    rw [heq]
    rcases ih hmin (by omega) with ⟨k, hk, hlo, hhi, hfit⟩ | ⟨hnone, hall⟩
    · exact .inl ⟨k, hk, hlo, by omega, hfit⟩
    · refine .inr ⟨hnone, fun k hlo hhi hfit => ?_⟩
      by_cases hk : (k : Int) ≤ guess - 1
      · exact hall k hlo hk hfit
      · have := hlt g k (by omega) (by omega) (by rw [hg] at hside; exact hside)
        exact absurd (this.symm.trans hfit) (by simp)
  | case2 min max h guess hguess hside ih =>
    obtain ⟨g, hg⟩ : ∃ g : Nat, guess = g := ⟨guess.toNat, by omega⟩
    have heq : bisect side min max = bisect side (guess + 1) max := by
      rw [bisect, dif_pos h]
      simp only [guess] at hside ⊢
      rw [hside]
    rw [heq]
    rcases ih (by omega) hmax with ⟨k, hk, hlo, hhi, hfit⟩ | ⟨hnone, hall⟩
    · exact .inl ⟨k, hk, by omega, hhi, hfit⟩
    · refine .inr ⟨hnone, fun k hlo hhi hfit => ?_⟩
      by_cases hk : guess + 1 ≤ (k : Int)
      · exact hall k hk hhi hfit
      · have := hgt k g (by omega) (by omega) (by rw [hg] at hside; exact hside)
        exact absurd (this.symm.trans hfit) (by simp)
  | case3 min max h guess hguess hside =>
    refine .inl ⟨guess.toNat, ?_, by omega, by omega, hside⟩
    rw [bisect, dif_pos h]
    simp only [guess] at hside ⊢
    rw [hside]
  | case4 min max h =>
    refine .inr ⟨?_, fun g hlo hhi => by omega⟩
    rw [bisect, dif_neg h]

theorem bisect_congr {side side' : Nat → Ordering} {n : Nat} (h : ∀ i < n, side i = side' i) {min max : Int}
    (hmin : 0 ≤ min) (hmax : max < n) : bisect side min max = bisect side' min max := by
  induction min, max using bisect.induct side with
  | case1 min max hle guess hguess hside ih =>
    have hsame := h guess.toNat (by omega)
    rw [bisect, bisect, dif_pos hle, dif_pos hle]
    simp only [guess] at hside hsame ih ⊢
    rw [← hsame, hside]
    exact ih hmin (by omega)
  | case2 min max hle guess hguess hside ih =>
    have hsame := h guess.toNat (by omega)
    rw [bisect, bisect, dif_pos hle, dif_pos hle]
    simp only [guess] at hside hsame ih ⊢
    rw [← hsame, hside]
    exact ih (by omega) hmax
  | case3 min max hle guess hguess hside =>
    have hsame := h guess.toNat (by omega)
    rw [bisect, bisect, dif_pos hle, dif_pos hle]
    simp only [guess] at hside hsame ⊢
    rw [← hsame, hside]
  | case4 min max hle => rw [bisect, bisect, dif_neg hle, dif_neg hle]

theorem bisect_mem {side : Nat → Ordering} {min max : Int} {g : Nat} (hmin : 0 ≤ min)
    (h : bisect side min max = some g) : min ≤ g ∧ (g : Int) ≤ max := by
  induction min, max using bisect.induct side with
  | case1 min max hle guess hguess hside ih =>
    rw [bisect, dif_pos hle] at h
    simp only [guess] at hside ih h hguess
    rw [hside] at h
    have := ih hmin h
    omega
  | case2 min max hle guess hguess hside ih =>
    rw [bisect, dif_pos hle] at h
    simp only [guess] at hside ih h hguess
    rw [hside] at h
    have := ih (by omega) h
    omega
  | case3 min max hle guess hguess hside =>
    rw [bisect, dif_pos hle] at h
    simp only [guess] at hside h hguess
    rw [hside] at h
    have := Option.some.inj h
    omega
  | case4 min max hle =>
    rw [bisect, dif_neg hle] at h
    exact absurd h (by simp)

variable {α : Type} (side : α → Ordering)

/-- Two elements in their right order: what lies before the one that is looked for does not lie
    behind it, and only one of the two fits. -/
structure Ordered (a b : α) : Prop where
  lt : side a = .lt → side b = .lt
  gt : side b = .gt → side a = .gt
  eq : side a = .eq → side b ≠ .eq

theorem bisect_eq_find? {xs : List α} (h : xs.Pairwise (Ordered side)) (dflt : Ordering) :
    (bisect (fun i => (xs[i]?.map side).getD dflt) 0 ((xs.length : Int) - 1)).bind (xs[·]?)
      = xs.find? (fun x => side x = .eq) := by
  have hside : ∀ i (hi : i < xs.length), (xs[i]?.map side).getD dflt = side xs[i] := by
    intro i hi
    rw [List.getElem?_eq_getElem hi]
    rfl
  have hpair := List.pairwise_iff_getElem.mp h
  have hspec := bisect_spec (fun i => (xs[i]?.map side).getD dflt) xs.length
    (by
      intro i j hij hj hi
      rw [hside i (by omega)] at hi
      rw [hside j hj]
      rcases Nat.eq_or_lt_of_le hij with rfl | hlt
      · exact hi
      · exact (hpair i j (by omega) hj hlt).lt hi)
    (by
      intro i j hij hj hi
      rw [hside j hj] at hi
      rw [hside i (by omega)]
      rcases Nat.eq_or_lt_of_le hij with rfl | hlt
      · exact hi
      · exact (hpair i j (by omega) hj hlt).gt hi)
    0 ((xs.length : Int) - 1) (by omega) (by omega)
  rcases hspec with ⟨g, hg, _, hmax, hfit⟩ | ⟨hnone, hall⟩
  · have hlt : g < xs.length := by omega
    rw [hside g hlt] at hfit
    rw [hg, Option.bind_some, List.getElem?_eq_getElem hlt]
    symm
    rw [List.find?_eq_some_iff_getElem]
    refine ⟨by simpa using hfit, g, hlt, rfl, ?_⟩
    intro j hj
    simp only [Bool.not_eq_true', decide_eq_false_iff_not]
    exact fun hj' => (hpair j g (by omega) hlt hj).eq hj' hfit
  · rw [hnone, Option.bind_none]
    symm
    rw [List.find?_eq_none]
    intro x hx
    obtain ⟨i, hi, rfl⟩ := List.getElem_of_mem hx
    have := hall i (by omega) (by omega)
    rw [hside i hi] at this
    simpa using this

end ArtPi.Search
