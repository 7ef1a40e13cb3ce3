import Mathlib.Data.List.Perm.Basic
import Mathlib.Data.List.Nodup
import Mathlib.Logic.Function.Basic

set_option autoImplicit false

/-! # Marks and owners

A table of marks over any type of slots, beside the list of the slots that someone owns. The two
agree if a slot is marked exactly when it is in the list, and the list names no slot twice. -/

namespace ArtPi.Lib

variable {κ : Type} {marks : κ → Bool} {owned owned' : List κ}

/-- A slot is marked iff it has an owner, and then it has one. -/
structure Accounted (marks : κ → Bool) (owned : List κ) : Prop where
  nodup : owned.Nodup
  marked : ∀ k, marks k = true ↔ k ∈ owned

theorem Accounted.perm (h : Accounted marks owned) (hp : owned.Perm owned') :
    Accounted marks owned' where
  nodup := hp.nodup_iff.mp h.nodup
  marked := fun k => (h.marked k).trans hp.mem_iff

theorem Accounted.nil : Accounted (fun _ : κ => false) [] := ⟨List.nodup_nil, by simp⟩

variable [DecidableEq κ]

theorem Accounted.mark (h : Accounted marks owned) {k : κ} (hfree : marks k = false) :
    Accounted (Function.update marks k true) (k :: owned) where
  nodup := by
    refine List.nodup_cons.mpr ⟨fun hmem => ?_, h.nodup⟩
    rw [(h.marked k).mpr hmem] at hfree
    exact absurd hfree (by simp)
  marked := by
    intro k'
    by_cases hk : k' = k
    · subst hk
      simp
    · simp [hk, h.marked]

theorem Accounted.unmark {k : κ} (h : Accounted marks (k :: owned)) :
    Accounted (Function.update marks k false) owned where
  nodup := (List.nodup_cons.mp h.nodup).2
  marked := by
    intro k'
    by_cases hk : k' = k
    · subst hk
      simp [(List.nodup_cons.mp h.nodup).1]
    · simp [hk, h.marked]

end ArtPi.Lib
