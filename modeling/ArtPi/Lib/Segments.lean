import Mathlib.Data.List.Basic
import Mathlib.Data.List.TakeWhile

set_option autoImplicit false

/-! # Segments between separators

Lists that are joined with a separator that none of them has, and the two parts of a list around the last separator in
it. -/

namespace ArtPi.Lib

variable {α β : Type}

def joinWith (sep : α) : List (List α) → List α
  | [] => []
  | [x] => x
  | x :: y :: rest => x ++ sep :: joinWith sep (y :: rest)

theorem joinWith_cons (sep : α) (x : List α) {rest : List (List α)} (h : rest ≠ []) :
    joinWith sep (x :: rest) = x ++ sep :: joinWith sep rest := by
  cases rest with
  | nil => exact absurd rfl h
  | cons y rest => rfl

theorem joinWith_concat (sep : α) (xs : List (List α)) (y : List α) (h : xs ≠ []) :
    joinWith sep (xs ++ [y]) = joinWith sep xs ++ sep :: y := by
  induction xs with
  | nil => exact absurd rfl h
  | cons x xs ih =>
    cases xs with
    | nil => rfl
    | cons z xs =>
      rw [List.cons_append, joinWith_cons sep x (by simp), ih (by simp), joinWith_cons sep x (by simp),
        List.append_assoc, List.cons_append]

theorem mem_joinWith {sep a : α} {xs : List (List α)} (h : a ∈ joinWith sep xs) : a = sep ∨ ∃ x ∈ xs, a ∈ x := by
  induction xs with
  | nil => cases h
  | cons x xs ih =>
    cases xs with
    | nil => exact .inr ⟨x, List.mem_cons_self, h⟩
    | cons y xs =>
      rw [joinWith_cons sep x (by simp), List.mem_append, List.mem_cons] at h
      rcases h with h | h | h
      · exact .inr ⟨x, List.mem_cons_self, h⟩
      · exact .inl h
      · exact (ih h).imp_right fun ⟨z, hz, ha⟩ => ⟨z, List.mem_cons_of_mem x hz, ha⟩

theorem mem_joinWith_of_mem {sep a : α} {xs : List (List α)} {x : List α} (hx : x ∈ xs) (ha : a ∈ x) :
    a ∈ joinWith sep xs := by
  induction xs with
  | nil => cases hx
  | cons y xs ih =>
    cases xs with
    | nil =>
      rw [List.mem_singleton] at hx
      exact hx ▸ ha
    | cons z xs =>
      rw [joinWith_cons sep y (by simp), List.mem_append, List.mem_cons]
      rcases List.mem_cons.mp hx with rfl | hx
      · exact .inl ha
      · exact .inr (.inr (ih hx))

/-- A code that has a separator of its own for the separator takes the segments one by one. -/
theorem flatMap_joinWith {sep : α} {sep' : β} {f : α → List β} (hsep : f sep = [sep']) (xs : List (List α)) :
    (joinWith sep xs).flatMap f = joinWith sep' (xs.map (List.flatMap f)) := by
  induction xs with
  | nil => rfl
  | cons x xs ih =>
    cases xs with
    | nil => rfl
    | cons y xs =>
      rw [joinWith_cons sep x (by simp), List.flatMap_append, List.flatMap_cons, hsep, ih, List.singleton_append]
      rfl

/-- What comes in front of a separator is not told from it by what comes behind. -/
theorem append_sep_inj {sep : α} {x y r s : List α} (hx : sep ∉ x) (hy : sep ∉ y) (h : x ++ sep :: r = y ++ sep :: s) :
    x = y ∧ r = s := by
  induction x generalizing y with
  | nil =>
    cases y with
    | nil => exact ⟨rfl, (List.cons.inj h).2⟩
    | cons b y => exact absurd (List.mem_cons.mpr (.inl (List.cons.inj h).1)) hy
  | cons a x ih =>
    cases y with
    | nil => exact absurd (List.mem_cons.mpr (.inl (List.cons.inj h).1.symm)) hx
    | cons b y =>
      obtain ⟨hab, hrest⟩ := List.cons.inj h
      obtain ⟨hxy, hrs⟩ := ih (fun hin => hx (List.mem_cons_of_mem a hin))
        (fun hin => hy (List.mem_cons_of_mem b hin)) hrest
      exact ⟨by rw [hab, hxy], hrs⟩

theorem joinWith_inj {sep : α} {xs ys : List (List α)} (hxs : ∀ x ∈ xs, sep ∉ x) (hys : ∀ y ∈ ys, sep ∉ y)
    (hx : xs ≠ []) (hy : ys ≠ []) (h : joinWith sep xs = joinWith sep ys) : xs = ys := by
  induction xs generalizing ys with
  | nil => exact absurd rfl hx
  | cons x xs ih =>
    have hx1 := hxs x List.mem_cons_self
    cases ys with
    | nil => exact absurd rfl hy
    | cons y ys =>
      have hy1 := hys y List.mem_cons_self
      cases xs with
      | nil =>
        cases ys with
        | nil => exact congrArg (· :: []) h
        | cons z ys =>
          rw [joinWith_cons sep y (by simp)] at h
          have hin : sep ∈ x := by
            change x = _ at h
            rw [h]
            simp
          exact absurd hin hx1
      | cons z xs =>
        rw [joinWith_cons sep x (by simp)] at h
        cases ys with
        | nil =>
          have hin : sep ∈ y := by
            change _ = y at h
            rw [← h]
            simp
          exact absurd hin hy1
        | cons w ys =>
          rw [joinWith_cons sep y (by simp)] at h
          obtain ⟨hxy, hrest⟩ := append_sep_inj hx1 hy1 h
          rw [hxy, ih (fun x hx => hxs x (List.mem_cons_of_mem _ hx))
            (fun y hy => hys y (List.mem_cons_of_mem _ hy)) (by simp) (by simp) hrest]

variable [DecidableEq α]

/-- The two sides of the last occurrence of an element. -/
def splitLast (a : α) (l : List α) : Option (List α × List α) :=
  if a ∈ l then
    some ((l.reverse.dropWhile (· ≠ a)).tail.reverse, (l.reverse.takeWhile (· ≠ a)).reverse)
  else none

theorem splitLast_append (a : α) (front : List α) {back : List α} (h : a ∉ back) :
    splitLast a (front ++ a :: back) = some (front, back) := by
  have hback : ∀ x ∈ back.reverse, decide (x ≠ a) = true := by
    intro x hx
    rw [List.mem_reverse] at hx
    exact decide_eq_true fun heq => h (heq ▸ hx)
  have hrev : (front ++ a :: back).reverse = back.reverse ++ a :: front.reverse := by simp
  unfold splitLast
  rw [if_pos (by simp), hrev, List.dropWhile_append_of_pos hback, List.takeWhile_append_of_pos hback,
    List.dropWhile_cons_of_neg (by simp), List.takeWhile_cons_of_neg (by simp)]
  simp

theorem splitLast_none {a : α} {l : List α} (h : a ∉ l) : splitLast a l = none := if_neg h

theorem exists_splitLast {a : α} {l : List α} (h : a ∈ l) :
    ∃ front back, a ∉ back ∧ l = front ++ a :: back ∧ splitLast a l = some (front, back) := by
  obtain ⟨back, front, hrev, hback⟩ := List.eq_append_cons_of_mem (List.mem_reverse.mpr h)
  have hl : l = front.reverse ++ a :: back.reverse := by
    rw [← List.reverse_reverse l, hrev]
    simp
  have hmem : a ∉ back.reverse := fun hin => hback (List.mem_reverse.mp hin)
  refine ⟨front.reverse, back.reverse, hmem, hl, ?_⟩
  rw [hl]
  exact splitLast_append a front.reverse hmem

end ArtPi.Lib
