import Mathlib.Data.List.Forall2

set_option autoImplicit false

/-! # The first of several groups

Lists are searched one behind the other for the first entry that is a hit. The entries of each list may come in any
order; what is found does not depend on it just if the first list with hits has only one kind of them. -/

namespace ArtPi.Lib.Groups

variable {α β : Type} (f : α → Option β)

/-- The first hit. -/
def pick (groups : List (List α)) : Option β := (groups.flatMap (List.filterMap f)).head?

/-- The hits of the first group that has some. -/
def front : List (List α) → List β
  | [] => []
  | g :: gs =>
    match g.filterMap f with
    | [] => front gs
    | b :: bs => b :: bs

variable {f}

theorem front_cons_of_nil {g : List α} (h : g.filterMap f = []) (gs : List (List α)) :
    front f (g :: gs) = front f gs := by
  rw [front, h]

theorem front_cons_of_ne_nil {g : List α} (h : g.filterMap f ≠ []) (gs : List (List α)) :
    front f (g :: gs) = g.filterMap f := by
  rw [front]
  cases hg : g.filterMap f with
  | nil => exact absurd hg h
  | cons b bs => rfl

theorem pick_eq_head? (gs : List (List α)) : pick f gs = (front f gs).head? := by
  induction gs with
  | nil => rfl
  | cons g gs ih =>
    rw [pick, List.flatMap_cons]
    by_cases h : g.filterMap f = []
    · rw [h, List.nil_append, front_cons_of_nil h]
      exact ih
    · rw [front_cons_of_ne_nil h, List.head?_append_of_ne_nil _ h]

theorem front_perm {gs gs' : List (List α)} (h : List.Forall₂ List.Perm gs gs') :
    (front f gs).Perm (front f gs') := by
  induction h with
  | nil => exact .refl _
  | @cons g g' gs gs' hg _ ih =>
    have hhits := hg.filterMap f
    by_cases hnil : g.filterMap f = []
    · have hnil' : g'.filterMap f = [] := (hnil ▸ hhits).nil_eq.symm
      rw [front_cons_of_nil hnil, front_cons_of_nil hnil']
      exact ih
    · have hne' : g'.filterMap f ≠ [] := fun hnil' => hnil (hnil' ▸ hhits).eq_nil
      rw [front_cons_of_ne_nil hnil, front_cons_of_ne_nil hne']
      exact hhits

theorem exists_pick {gs : List (List α)} {b : β} (h : b ∈ front f gs) :
    ∃ gs', List.Forall₂ List.Perm gs gs' ∧ pick f gs' = some b := by
  induction gs with
  | nil => cases h
  | cons g gs ih =>
    by_cases hnil : g.filterMap f = []
    · rw [front_cons_of_nil hnil] at h
      obtain ⟨gs', hperm, hpick⟩ := ih h
      refine ⟨g :: gs', .cons (.refl g) hperm, ?_⟩
      rw [pick, List.flatMap_cons, hnil, List.nil_append]
      exact hpick
    · rw [front_cons_of_ne_nil hnil] at h
      obtain ⟨a, ha, hb⟩ := List.mem_filterMap.1 h
      obtain ⟨s, t, rfl⟩ := List.append_of_mem ha
      refine ⟨(a :: (s ++ t)) :: gs, .cons List.perm_middle (List.forall₂_same.2 fun g _ => .refl g), ?_⟩
      rw [pick, List.flatMap_cons, List.filterMap_cons_some hb]
      rfl

theorem pick_independent_iff (gs : List (List α)) :
    (∀ gs', List.Forall₂ List.Perm gs gs' → pick f gs' = pick f gs) ↔
      ∀ a ∈ front f gs, ∀ b ∈ front f gs, a = b := by
  constructor
  · intro h a ha b hb
    obtain ⟨gs', hperm, hpick⟩ := exists_pick ha
    obtain ⟨gs'', hperm', hpick'⟩ := exists_pick hb
    rw [h gs' hperm] at hpick
    rw [h gs'' hperm', hpick] at hpick'
    exact Option.some.inj hpick'
  · intro h gs' hperm
    rw [pick_eq_head?, pick_eq_head?]
    have hfront := @front_perm α β f gs gs' hperm
    cases hgs : front f gs with
    | nil =>
      rw [hgs] at hfront
      rw [hfront.nil_eq]
    | cons a as =>
      cases hgs' : front f gs' with
      | nil =>
        rw [hgs, hgs'] at hfront
        exact absurd hfront.length_eq (by simp)
      | cons b bs =>
        have hb : b ∈ front f gs := hfront.mem_iff.2 (by rw [hgs']; exact List.mem_cons_self)
        have ha : a ∈ front f gs := by rw [hgs]; exact List.mem_cons_self
        exact congrArg some (h b hb a ha)

end ArtPi.Lib.Groups
