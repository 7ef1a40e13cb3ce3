import Mathlib.Data.List.Basic

set_option autoImplicit false

/-! # Scanners

A scanner reads a list from the left. A step is given what has been read, the next element and what is behind it. It
takes the element and perhaps some of those behind it, emits a list and says in which state the scan goes on. -/

namespace ArtPi.Lib.Scan

/-- What a step does: how many elements it takes behind the next one, what it emits, and the state then. -/
structure Move (σ α : Type) where
  more : Nat
  emit : List α
  next : σ

/-- Where a step begins. `before` is what has been read, the last element first. -/
structure Place (σ α : Type) where
  state : σ
  before : List α
  head : α
  rest : List α

variable {σ α : Type} (step : σ → List α → α → List α → Move σ α)

/-- The places of a scan. -/
def placesFuel : Nat → σ → List α → List α → List (Place σ α)
  | 0, _, _, _ => []
  | _ + 1, _, _, [] => []
  | fuel + 1, s, before, c :: rest =>
    ⟨s, before, c, rest⟩ ::
      placesFuel fuel (step s before c rest).next ((rest.take (step s before c rest).more).reverse ++ c :: before)
        (rest.drop (step s before c rest).more)

def places (s : σ) (before rest : List α) : List (Place σ α) := placesFuel step rest.length s before rest

/-- What the scanner emits. -/
def run (s : σ) (before rest : List α) : List α :=
  (places step s before rest).flatMap (fun p => (step p.state p.before p.head p.rest).emit)

/-- Something holds wherever a step begins. -/
def Every (P : Place σ α → Prop) (s : σ) (before rest : List α) : Prop := ∀ p ∈ places step s before rest, P p

variable {step} {P : Place σ α → Prop}

theorem length_drop_le (n : Nat) (xs : List α) : (xs.drop n).length ≤ xs.length := by
  rw [List.length_drop]
  exact Nat.sub_le _ _

theorem placesFuel_eq {fuel : Nat} {rest : List α} (h : rest.length ≤ fuel) (s : σ) (before : List α) :
    placesFuel step fuel s before rest = places step s before rest := by
  induction fuel using Nat.strongRecOn generalizing rest s before with
  | ind fuel ih =>
    cases rest with
    | nil => cases fuel <;> rfl
    | cons c rest =>
      cases fuel with
      | zero => exact absurd h (by simp)
      | succ fuel =>
        have hlen := length_drop_le (step s before c rest).more rest
        have hfuel : rest.length ≤ fuel := Nat.le_of_succ_le_succ h
        have hlow := ih fuel (Nat.lt_succ_self fuel) (Nat.le_trans hlen hfuel) (step s before c rest).next
          ((rest.take (step s before c rest).more).reverse ++ c :: before)
        have hhigh := ih rest.length (Nat.lt_succ_of_le hfuel) hlen (step s before c rest).next
          ((rest.take (step s before c rest).more).reverse ++ c :: before)
        rw [places, List.length_cons, placesFuel, placesFuel, hlow, hhigh]

theorem places_cons (s : σ) (before : List α) (c : α) (rest : List α) :
    places step s before (c :: rest) =
      ⟨s, before, c, rest⟩ ::
        places step (step s before c rest).next ((rest.take (step s before c rest).more).reverse ++ c :: before)
          (rest.drop (step s before c rest).more) := by
  rw [places, List.length_cons, placesFuel, placesFuel_eq (length_drop_le _ rest)]

theorem run_cons (s : σ) (before : List α) (c : α) (rest : List α) :
    run step s before (c :: rest) =
      (step s before c rest).emit ++
        run step (step s before c rest).next ((rest.take (step s before c rest).more).reverse ++ c :: before)
          (rest.drop (step s before c rest).more) := by
  rw [run, places_cons, List.flatMap_cons]
  rfl

theorem every_cons (s : σ) (before : List α) (c : α) (rest : List α) :
    Every step P s before (c :: rest) ↔
      P ⟨s, before, c, rest⟩ ∧
        Every step P (step s before c rest).next
          ((rest.take (step s before c rest).more).reverse ++ c :: before) (rest.drop (step s before c rest).more) := by
  rw [Every, places_cons, List.forall_mem_cons]
  exact Iff.rfl

/-- To prove something of every scan, prove it from what is so behind the first step. -/
theorem induction (step : σ → List α → α → List α → Move σ α) {Q : σ → List α → List α → Prop}
    (nil : ∀ s before, Q s before [])
    (cons : ∀ s before c rest,
      Q (step s before c rest).next ((rest.take (step s before c rest).more).reverse ++ c :: before)
        (rest.drop (step s before c rest).more) → Q s before (c :: rest))
    (s : σ) (before rest : List α) : Q s before rest := by
  generalize hn : rest.length = n
  induction n using Nat.strongRecOn generalizing s before rest with
  | ind n ih =>
    cases rest with
    | nil => exact nil s before
    | cons c rest =>
      have hlen : (rest.drop (step s before c rest).more).length < n := by
        rw [← hn, List.length_cons]
        exact Nat.lt_succ_of_le (length_drop_le _ rest)
      exact cons s before c rest (ih _ hlen _ _ _ rfl)

section

variable {s t : σ} {before rest : List α} {c : α}

theorem run_one {emit : List α} (h : step s before c rest = ⟨0, emit, t⟩) :
    run step s before (c :: rest) = emit ++ run step t (c :: before) rest := by
  rw [run_cons, h]
  rfl

theorem run_two {d : α} {emit : List α} (h : step s before c (d :: rest) = ⟨1, emit, t⟩) :
    run step s before (c :: d :: rest) = emit ++ run step t (d :: c :: before) rest := by
  rw [run_cons, h]
  rfl

theorem run_more {emit xs : List α} (h : step s before c (xs ++ rest) = ⟨xs.length, emit, t⟩) :
    run step s before (c :: (xs ++ rest)) = emit ++ run step t (xs.reverse ++ c :: before) rest := by
  rw [run_cons, h, List.take_left, List.drop_left]

theorem every_more {emit xs : List α} (h : step s before c (xs ++ rest) = ⟨xs.length, emit, t⟩) :
    Every step P s before (c :: (xs ++ rest)) ↔
      P ⟨s, before, c, xs ++ rest⟩ ∧ Every step P t (xs.reverse ++ c :: before) rest := by
  rw [every_cons, h, List.take_left, List.drop_left]

end

/-- Elements that are copied one by one in a state are copied together. -/
theorem run_copies {s : σ} {C : α → Prop} (hstep : ∀ c, C c → ∀ before rest, step s before c rest = ⟨0, [c], s⟩)
    {xs : List α} (h : ∀ c ∈ xs, C c) (before rest : List α) :
    run step s before (xs ++ rest) = xs ++ run step s (xs.reverse ++ before) rest := by
  induction xs generalizing before with
  | nil => rfl
  | cons c xs ih =>
    rw [List.cons_append, run_one (hstep c (h c List.mem_cons_self) before (xs ++ rest)),
      ih (fun x hx => h x (List.mem_cons_of_mem c hx)), List.reverse_cons, List.append_assoc]
    rfl

/-! ## Runs of one kind -/

/-- What is taken from the front ends where the predicate does. -/
theorem takeWhile_append_of_head? {p : α → Bool} {xs rest : List α} (hxs : ∀ c ∈ xs, p c = true)
    (hrest : rest.head?.any p = false) : (xs ++ rest).takeWhile p = xs := by
  have hstop : rest.takeWhile p = [] := by
    cases rest with
    | nil => rfl
    | cons c rest =>
      rw [List.head?_cons, Option.any_some] at hrest
      rw [List.takeWhile_cons, hrest]
      rfl
  rw [List.takeWhile_append_of_pos hxs, hstop, List.append_nil]

theorem head?_dropWhile_any (p : α → Bool) (xs : List α) : (xs.dropWhile p).head?.any p = false := by
  have hhead := List.head?_dropWhile_not p xs
  cases hdrop : (xs.dropWhile p).head? with
  | none => rfl
  | some c =>
    rw [hdrop] at hhead
    exact hhead

end ArtPi.Lib.Scan
