import ArtPi.Lib.Segments
import Mathlib.Data.List.DropRight

set_option autoImplicit false

/-! # Lines and places in a text

A text is cut behind every end of a line: the lines have their ends, and the last one has none. A search gives the place
of what it finds as the number of characters in front. -/

namespace ArtPi.Lib.Lines

variable {α : Type}

/-! ## Lines -/

section Rows

variable (p : α → Bool)

/-- The lines, and what is behind the last end of a line. -/
def lines : List α → List (List α) × List α
  | [] => ([], [])
  | x :: xs =>
    if p x = true then ([x] :: (lines xs).1, (lines xs).2)
    else match (lines xs).1 with
      | [] => ([], x :: (lines xs).2)
      | r :: rs => ((x :: r) :: rs, (lines xs).2)

/-- A line with its end. -/
def IsLine (r : List α) : Prop := ∃ body x, r = body ++ [x] ∧ p x = true ∧ ∀ y ∈ body, p y = false

variable {p}

theorem lines_flatten (xs : List α) : (lines p xs).1.flatten ++ (lines p xs).2 = xs := by
  induction xs with
  | nil => rfl
  | cons x xs ih =>
    rw [lines]
    by_cases hx : p x = true
    · rw [if_pos hx]
      simpa using ih
    · rw [if_neg hx]
      split
      · rename_i h
        rw [h] at ih
        simpa using ih
      · rename_i r rs h
        rw [h] at ih
        simpa using ih

theorem lines_spec (xs : List α) : (∀ r ∈ (lines p xs).1, IsLine p r) ∧ ∀ y ∈ (lines p xs).2, p y = false := by
  induction xs with
  | nil => exact ⟨fun _ h => (List.not_mem_nil h).elim, fun _ h => (List.not_mem_nil h).elim⟩
  | cons x xs ih =>
    obtain ⟨hrows, hlast⟩ := ih
    rw [lines]
    by_cases hx : p x = true
    · rw [if_pos hx]
      refine ⟨fun r hr => ?_, hlast⟩
      rcases List.mem_cons.mp hr with rfl | hr
      · exact ⟨[], x, rfl, hx, fun _ h => (List.not_mem_nil h).elim⟩
      · exact hrows r hr
    · rw [if_neg hx]
      have hfalse : p x = false := by simpa using hx
      split
      · refine ⟨fun _ h => (List.not_mem_nil h).elim, fun y hy => ?_⟩
        rcases List.mem_cons.mp hy with rfl | hy
        · exact hfalse
        · exact hlast y hy
      · rename_i r rs h
        rw [h] at hrows
        refine ⟨fun s hs => ?_, hlast⟩
        rcases List.mem_cons.mp hs with rfl | hs
        · obtain ⟨body, e, rfl, he, hbody⟩ := hrows r (.head rs)
          refine ⟨x :: body, e, rfl, he, fun y hy => ?_⟩
          rcases List.mem_cons.mp hy with rfl | hy
          · exact hfalse
          · exact hbody y hy
        · exact hrows s (.tail r hs)

theorem rdropWhile_length_iff (q : List α → Bool) (rows : List (List α)) (n : Nat) :
    (rows.rdropWhile q).flatten.length = n ↔ ∃ above lead, rows = above ++ lead ∧ above.flatten.length = n ∧
      (∀ r ∈ lead, q r = true) ∧ ∀ r, above.getLast? = some r → q r = false := by
  constructor
  · intro h
    refine ⟨rows.rdropWhile q, rows.rtakeWhile q, List.rdropWhile_append_rtakeWhile.symm, h,
      fun r hr => List.mem_rtakeWhile_imp hr, fun r hr => ?_⟩
    have hne : rows.rdropWhile q ≠ [] := by
      intro he
      rw [he] at hr
      cases hr
    have hlast := List.rdropWhile_last_not q rows hne
    rw [List.getLast?_eq_some_getLast hne, Option.some_inj] at hr
    simpa [hr] using hlast
  · rintro ⟨above, lead, rfl, rfl, hlead, habove⟩
    have hdrop : (above ++ lead).rdropWhile q = above := by
      induction lead using List.reverseRecOn with
      | nil =>
        rw [List.append_nil, List.rdropWhile_eq_self_iff]
        intro hne
        have hlast := habove _ (List.getLast?_eq_some_getLast hne)
        simp [hlast]
      | append_singleton lead r ih =>
        rw [← List.append_assoc, List.rdropWhile_concat_pos _ _ _ (hlead r (by simp))]
        exact ih fun s hs => hlead s (by simp [hs])
    rw [hdrop]

theorem rdropWhile_length_le (q : List α → Bool) (rows : List (List α)) :
    (rows.rdropWhile q).flatten.length ≤ rows.flatten.length := by
  obtain ⟨rest, hrest⟩ := List.rdropWhile_prefix q rows
  conv_rhs => rw [← hrest, List.flatten_append, List.length_append]
  exact Nat.le_add_right _ _

end Rows

/-- Where a text has an element behind a stretch without it, it has it behind that stretch only. -/
theorem length_lt_of_split {x y : α} {front rest plain more : List α} (hxy : x ≠ y)
    (h : front ++ x :: rest = plain ++ y :: more) (hx : x ∉ plain) : plain.length < front.length := by
  by_contra hle
  have hat : (plain ++ y :: more)[front.length]? = some x := by
    rw [← h, List.getElem?_append_right (Nat.le_refl _), Nat.sub_self, List.getElem?_cons_zero]
  by_cases hlt : front.length < plain.length
  · rw [List.getElem?_append_left hlt] at hat
    exact hx (List.mem_of_getElem? hat)
  · have heq : front.length = plain.length := by omega
    rw [heq, List.getElem?_append_right (Nat.le_refl _), Nat.sub_self, List.getElem?_cons_zero, Option.some_inj] at hat
    exact hxy hat.symm

variable [DecidableEq α]

/-! ## Places -/

/-- The first place where the text goes on with `needle`. -/
def find (needle : List α) : List α → Option Nat
  | [] => if needle = [] then some 0 else none
  | x :: xs => if needle <+: x :: xs then some 0 else (find needle xs).map (· + 1)

/-- Behind the last `a`, or else the front of the text. -/
def behindLast (a : α) (xs : List α) : Nat :=
  match splitLast a xs with
  | none => 0
  | some (front, _) => front.length + 1

theorem find_singleton_iff (a : α) (xs : List α) (n : Nat) :
    find [a] xs = some n ↔ ∃ front rest, xs = front ++ a :: rest ∧ front.length = n ∧ a ∉ front := by
  induction xs generalizing n with
  | nil => simp [find]
  | cons x xs ih =>
    by_cases hx : a = x
    · subst hx
      have hpre : [a] <+: a :: xs := ⟨xs, rfl⟩
      rw [find, if_pos hpre, Option.some_inj]
      constructor
      · rintro rfl
        exact ⟨[], xs, rfl, rfl, List.not_mem_nil⟩
      · rintro ⟨front, rest, h, rfl, hfront⟩
        cases front with
        | nil => rfl
        | cons y front =>
          obtain ⟨rfl, -⟩ := List.cons.inj h
          exact absurd (List.mem_cons_self ..) hfront
    · have hpre : ¬[a] <+: x :: xs := by
        rintro ⟨t, ht⟩
        exact hx (List.cons.inj ht).1
      rw [find, if_neg hpre, Option.map_eq_some_iff]
      constructor
      · rintro ⟨m, hm, rfl⟩
        obtain ⟨front, rest, rfl, rfl, hfront⟩ := (ih m).mp hm
        refine ⟨x :: front, rest, rfl, rfl, fun hmem => ?_⟩
        rcases List.mem_cons.mp hmem with h | h
        · exact hx h
        · exact hfront h
      · rintro ⟨front, rest, h, rfl, hfront⟩
        cases front with
        | nil => exact absurd (List.cons.inj h).1.symm hx
        | cons y front =>
          obtain ⟨-, rfl⟩ := List.cons.inj h
          exact ⟨front.length, (ih _).mpr ⟨front, rest, rfl, rfl, fun hm => hfront (.tail y hm)⟩, rfl⟩

theorem find_singleton_none_iff (a : α) (xs : List α) : find [a] xs = none ↔ a ∉ xs := by
  constructor
  · intro h hmem
    obtain ⟨front, rest, rfl, hfront⟩ := List.eq_append_cons_of_mem hmem
    have hsome := (find_singleton_iff a (front ++ a :: rest) front.length).mpr ⟨front, rest, rfl, rfl, hfront⟩
    rw [h] at hsome
    cases hsome
  · intro h
    cases hf : find [a] xs with
    | none => rfl
    | some n =>
      obtain ⟨front, rest, rfl, -, -⟩ := (find_singleton_iff a xs n).mp hf
      exact absurd (by simp) h

theorem prefix_of_find {needle xs : List α} {n : Nat} (h : find needle xs = some n) : needle <+: xs.drop n := by
  induction xs generalizing n with
  | nil =>
    rw [find] at h
    split at h
    · rename_i hnil
      rw [hnil]
      exact List.nil_prefix
    · cases h
  | cons x xs ih =>
    rw [find] at h
    split at h
    · rename_i hpre
      obtain rfl := Option.some_inj.mp h
      exact hpre
    · obtain ⟨m, hm, rfl⟩ := Option.map_eq_some_iff.mp h
      exact ih hm

/-- Behind whole lines and a piece without an end, the last end is that of the last line. -/
theorem behindLast_lines {a : α} {rows : List (List α)} {last : List α}
    (hrows : ∀ r ∈ rows, IsLine (fun x => decide (x = a)) r) (hlast : a ∉ last) :
    behindLast a (rows.flatten ++ last) = rows.flatten.length := by
  induction rows using List.reverseRecOn with
  | nil => simp [behindLast, splitLast_none hlast]
  | append_singleton rows r _ =>
    obtain ⟨body, x, rfl, hx, -⟩ := hrows r (by simp)
    obtain rfl : x = a := of_decide_eq_true hx
    have hsplit : (rows ++ [body ++ [x]]).flatten ++ last = (rows.flatten ++ body) ++ x :: last := by simp
    rw [hsplit, behindLast, splitLast_append x _ hlast]
    simp
    omega

end ArtPi.Lib.Lines
