import Mathlib.Algebra.BigOperators.Group.List.Basic

set_option autoImplicit false

/-! # Loops with a break

A turn of such a loop is an `Except`: `ok` goes on and `error` leaves the loop, both with the state. `leave` is the state
behind the loop. -/

namespace ArtPi.Lib

variable {α σ : Type*} {step : σ → α → Except σ σ}

def leave : Except σ σ → σ
  | .ok s => s
  | .error s => s

@[simp] theorem leave_ok (s : σ) : leave (.ok s) = s := rfl

@[simp] theorem leave_error (s : σ) : leave (.error s) = s := rfl

theorem foldlM_cons_ok {s t : σ} {x : α} {xs : List α} (h : step s x = .ok t) :
    (x :: xs).foldlM step s = xs.foldlM step t := by
  rw [List.foldlM_cons, h]
  rfl

theorem foldlM_cons_error {s t : σ} {x : α} {xs : List α} (h : step s x = .error t) :
    (x :: xs).foldlM step s = .error t := by
  rw [List.foldlM_cons, h]
  rfl

theorem exists_of_foldlM_error {s t : σ} {xs : List α} (h : xs.foldlM step s = .error t) :
    ∃ s', ∃ x ∈ xs, step s' x = .error t := by
  induction xs generalizing s with
  | nil => cases h
  | cons x xs ih =>
    cases hs : step s x with
    | ok s' =>
      rw [foldlM_cons_ok hs] at h
      obtain ⟨s'', y, hy, hbreak⟩ := ih h
      exact ⟨s'', y, List.mem_cons_of_mem x hy, hbreak⟩
    | error s' =>
      rw [foldlM_cons_error hs] at h
      exact ⟨s, x, List.mem_cons_self, hs.trans h⟩

theorem leave_invariant {inv : σ → Prop} {s : σ} {xs : List α} (h : inv s)
    (hstep : ∀ s, inv s → ∀ x ∈ xs, inv (leave (step s x))) : inv (leave (xs.foldlM step s)) := by
  induction xs generalizing s with
  | nil => exact h
  | cons x xs ih =>
    have hx := hstep s h x List.mem_cons_self
    cases hs : step s x with
    | ok t =>
      rw [foldlM_cons_ok hs]
      rw [hs] at hx
      exact ih hx fun s hs y hy => hstep s hs y (List.mem_cons_of_mem x hy)
    | error t =>
      rw [foldlM_cons_error hs]
      rw [hs] at hx
      exact hx

/-- A verdict that each turn keeps exactly if its element passes, and that no break leaves, is about all elements. -/
theorem leave_verdict {clean : σ → Prop} {pass : α → Prop} {s : σ} {xs : List α}
    (hstep : ∀ s, ∀ x ∈ xs, clean (leave (step s x)) ↔ clean s ∧ pass x)
    (hbreak : ∀ s x t, step s x = .error t → ¬ clean t) :
    clean (leave (xs.foldlM step s)) ↔ clean s ∧ ∀ x ∈ xs, pass x := by
  induction xs generalizing s with
  | nil => exact (and_iff_left (List.forall_mem_nil _)).symm
  | cons x xs ih =>
    have hx := hstep s x List.mem_cons_self
    rw [List.forall_mem_cons, ← and_assoc, ← hx]
    cases hs : step s x with
    | ok t =>
      rw [foldlM_cons_ok hs]
      exact ih fun s y hy => hstep s y (List.mem_cons_of_mem x hy)
    | error t =>
      rw [foldlM_cons_error hs]
      exact iff_of_false (hbreak s x t hs) fun h => hbreak s x t hs h.1

theorem foldlM_total {M : Type*} [AddMonoid M] {total : σ → M} {weight : α → M} {s t : σ} {xs : List α}
    (hstep : ∀ s x t, step s x = .ok t → total t = total s + weight x) (h : xs.foldlM step s = .ok t) :
    total t = total s + (xs.map weight).sum := by
  induction xs generalizing s with
  | nil =>
    cases h
    simp
  | cons x xs ih =>
    cases hs : step s x with
    | ok s' =>
      rw [foldlM_cons_ok hs] at h
      rw [ih h, hstep s x s' hs, List.map_cons, List.sum_cons, add_assoc]
    | error s' =>
      rw [foldlM_cons_error hs] at h
      cases h

end ArtPi.Lib
