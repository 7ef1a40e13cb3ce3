import Mathlib.Data.List.Basic

set_option autoImplicit false

/-! # Computations that can fault

A read outside of the memory is `none`. `Guards r v p` says what a computation gives and exactly when it faults; the
rules follow the control flow, and a search faults if one of the elements that it looks at does. -/

namespace ArtPi.Lib

universe u

variable {ι : Type*} {α β : Type u}

/-- `r` gives `v` where `p` holds, and faults elsewhere. -/
structure Guards (r : Option α) (v : α) (p : Prop) : Prop where
  runs : p → r = some v
  faults : ¬ p → r = none

namespace Guards

variable {r : Option α} {v w : α} {p q : Prop}

theorem pure (v : α) : Guards (some v) v True := ⟨fun _ => rfl, fun h => absurd trivial h⟩

theorem congr (h : Guards r v p) (hv : p → v = w) (hp : p ↔ q) : Guards r w q where
  runs hq := by rw [h.runs (hp.2 hq), hv (hp.2 hq)]
  faults hq := h.faults fun hp' => hq (hp.1 hp')

theorem eq_some_iff (h : Guards r v p) : r = some w ↔ p ∧ v = w := by
  by_cases hp : p
  · rw [h.runs hp, Option.some.injEq, and_iff_right hp]
  · rw [h.faults hp]
    exact iff_of_false nofun fun hand => hp hand.1

theorem bind {k : α → Option β} {u : β} (h : Guards r v p) (hk : p → Guards (k v) u q) :
    Guards (r >>= k) u (p ∧ q) where
  runs hpq := by
    rw [h.runs hpq.1]
    exact (hk hpq.1).runs hpq.2
  faults hpq := by
    by_cases hp : p
    · rw [h.runs hp]
      exact (hk hp).faults fun hq => hpq ⟨hp, hq⟩
    · rw [h.faults hp]
      rfl

theorem ite {c : Prop} [Decidable c] {s : Option α} (ht : c → Guards r v p) (he : ¬ c → Guards s w q) :
    Guards (if c then r else s) (if c then v else w) ((c → p) ∧ (¬ c → q)) := by
  by_cases hc : c
  · rw [if_pos hc, if_pos hc]
    exact (ht hc).congr (fun _ => rfl) ⟨fun hp => ⟨fun _ => hp, fun hnc => absurd hc hnc⟩, fun h => h.1 hc⟩
  · rw [if_neg hc, if_neg hc]
    exact (he hc).congr (fun _ => rfl) ⟨fun hq => ⟨fun hc' => absurd hc' hc, fun _ => hq⟩, fun h => h.2 hc⟩

end Guards

/-! ## Searches -/

/-- The elements that a search looks at: all up to the first hit. -/
def visited (g : ι → Option β) : List ι → List ι
  | [] => []
  | x :: xs => x :: if (g x).isSome then [] else visited g xs

theorem Guards.findSomeM? {f : ι → Option (Option β)} {g : ι → Option β} {ok : ι → Prop} {xs : List ι}
    (h : ∀ x ∈ xs, Guards (f x) (g x) (ok x)) :
    Guards (xs.findSomeM? f) (xs.findSome? g) (∀ x ∈ visited g xs, ok x) := by
  induction xs with
  | nil => exact (Guards.pure none).congr (fun _ => rfl) (by simp [visited])
  | cons x xs ih =>
    have hx := h x List.mem_cons_self
    have hrest := ih fun y hy => h y (List.mem_cons_of_mem x hy)
    rw [List.findSomeM?_cons, List.findSome?_cons]
    cases hg : g x with
    | none =>
      rw [hg] at hx
      refine (hx.bind fun _ => hrest).congr (fun _ => rfl) ?_
      rw [visited, hg, List.forall_mem_cons]
      rfl
    | some b =>
      rw [hg] at hx
      refine Guards.congr (Guards.bind hx fun _ => Guards.pure (some b)) (fun _ => rfl) ?_
      rw [visited, hg, List.forall_mem_cons]
      exact and_congr_right fun _ => iff_of_true trivial (List.forall_mem_nil _)

/-- What is asked of the hit of a search only is asked of the first hit. -/
theorem forall_visited_iff {g : ι → Option β} {c : ι → Prop} (xs : List ι) :
    (∀ x ∈ visited g xs, (g x).isSome → c x) ↔ ∀ x, xs.find? (fun x => (g x).isSome) = some x → c x := by
  induction xs with
  | nil => simp [visited]
  | cons x xs ih =>
    rw [visited, List.forall_mem_cons, List.find?_cons]
    cases hg : (g x).isSome with
    | true => simp
    | false => simpa using ih

end ArtPi.Lib
