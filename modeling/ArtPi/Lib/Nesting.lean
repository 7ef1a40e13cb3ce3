import Mathlib.Data.List.Count
import Mathlib.Data.List.Infix

set_option autoImplicit false

/-! # The closing bracket

A counter goes up at an opening bracket and down at a closing one. It reaches zero at the first place where the text in
front has been closed as often as opened. -/

namespace ArtPi.Lib.Nesting

variable {α : Type}

theorem forall_prefix_cons {P : List α → Prop} {x : α} {xs : List α} :
    (∀ pre, pre <+: x :: xs → P pre) ↔ P [] ∧ ∀ pre, pre <+: xs → P (x :: pre) := by
  constructor
  · exact fun h => ⟨h [] List.nil_prefix, fun pre hpre => h (x :: pre) ((List.prefix_cons_inj x).mpr hpre)⟩
  · rintro ⟨hnil, hcons⟩ pre hpre
    cases pre with
    | nil => exact hnil
    | cons y pre =>
      obtain ⟨rfl, h⟩ := List.cons_prefix_cons.mp hpre
      exact hcons pre h

variable [DecidableEq α] (o c : α)

/-- Where the count of `depth` open brackets comes down to none. -/
def closing : Nat → List α → Option Nat
  | _, [] => none
  | depth, x :: xs =>
    if x = o then (closing (depth + 1) xs).map (· + 1)
    else if x = c then
      if depth = 1 then some 0 else (closing (depth - 1) xs).map (· + 1)
    else (closing depth xs).map (· + 1)

/-- With `depth` brackets open, what stands in front of the closing one: it never closes the last of them, and leaves
just one open. -/
structure Inside (depth : Nat) (inner : List α) : Prop where
  stays : ∀ pre, pre <+: inner → pre.count c < pre.count o + depth
  ends : inner.count c + 1 = inner.count o + depth

/-- Brackets that close one another. -/
def Balanced (inner : List α) : Prop := Inside o c 1 inner

variable {o c}

theorem Inside.cons_iff {depth : Nat} (hd : 0 < depth) {x : α} {inner : List α} : Inside o c depth (x :: inner) ↔
    (∀ pre, pre <+: inner → (x :: pre).count c < (x :: pre).count o + depth) ∧
      (x :: inner).count c + 1 = (x :: inner).count o + depth := by
  constructor
  · exact fun h => ⟨(forall_prefix_cons.mp h.stays).2, h.ends⟩
  · exact fun h => ⟨forall_prefix_cons.mpr ⟨by simpa using hd, h.1⟩, h.2⟩

theorem Inside.opening_iff (hoc : o ≠ c) {depth : Nat} (hd : 0 < depth) {inner : List α} :
    Inside o c depth (o :: inner) ↔ Inside o c (depth + 1) inner := by
  rw [Inside.cons_iff hd]
  simp only [List.count_cons_self, List.count_cons_of_ne hoc]
  constructor
  · rintro ⟨hstays, hends⟩
    exact ⟨fun pre hpre => by have := hstays pre hpre; omega, by omega⟩
  · rintro ⟨hstays, hends⟩
    exact ⟨fun pre hpre => by have := hstays pre hpre; omega, by omega⟩

theorem Inside.closing_iff (hoc : o ≠ c) {depth : Nat} (hd : 1 < depth) {inner : List α} :
    Inside o c depth (c :: inner) ↔ Inside o c (depth - 1) inner := by
  rw [Inside.cons_iff (by omega)]
  simp only [List.count_cons_self, List.count_cons_of_ne hoc.symm]
  constructor
  · rintro ⟨hstays, hends⟩
    exact ⟨fun pre hpre => by have := hstays pre hpre; omega, by omega⟩
  · rintro ⟨hstays, hends⟩
    exact ⟨fun pre hpre => by have := hstays pre hpre; omega, by omega⟩

theorem Inside.other_iff {depth : Nat} (hd : 0 < depth) {x : α} (ho : x ≠ o) (hc : x ≠ c) {inner : List α} :
    Inside o c depth (x :: inner) ↔ Inside o c depth inner := by
  rw [Inside.cons_iff hd]
  simp only [List.count_cons_of_ne ho, List.count_cons_of_ne hc]
  exact ⟨fun h => ⟨h.1, h.2⟩, fun h => ⟨h.stays, h.ends⟩⟩

/-- The closing bracket cannot stand behind an inside that begins with one while only one is open. -/
theorem not_inside_closing (hoc : o ≠ c) {inner : List α} : ¬ Inside o c 1 (c :: inner) := by
  intro h
  have hpre := h.stays [c] ((List.prefix_cons_inj c).mpr List.nil_prefix)
  simp [List.count_cons_of_ne hoc.symm] at hpre

theorem inside_nil_iff {depth : Nat} : Inside o c depth [] ↔ depth = 1 := by
  constructor
  · intro h
    have hends := h.ends
    simp at hends
    exact hends.symm
  · rintro rfl
    exact ⟨fun pre hpre => by simp [List.prefix_nil.mp hpre], rfl⟩

theorem closing_eq_some_iff (hoc : o ≠ c) {depth : Nat} (hd : 0 < depth) (xs : List α) (n : Nat) :
    closing o c depth xs = some n ↔
      ∃ inner rest, xs = inner ++ c :: rest ∧ inner.length = n ∧ Inside o c depth inner := by
  induction xs generalizing depth n with
  | nil => simp [closing]
  | cons x xs ih =>
    -- an inside that is not empty starts with `x`
    have split {d : Nat} (hstep : ∀ inner, Inside o c depth (x :: inner) ↔ Inside o c d inner) (hdpos : 0 < d)
        (hempty : x = c → depth ≠ 1) :
        (closing o c d xs).map (· + 1) = some n ↔
          ∃ inner rest, x :: xs = inner ++ c :: rest ∧ inner.length = n ∧ Inside o c depth inner := by
      rw [Option.map_eq_some_iff]
      constructor
      · rintro ⟨m, hm, rfl⟩
        obtain ⟨inner, rest, rfl, rfl, hin⟩ := (ih hdpos m).mp hm
        exact ⟨x :: inner, rest, rfl, rfl, (hstep inner).mpr hin⟩
      · rintro ⟨inner, rest, hsplit, rfl, hin⟩
        cases inner with
        | nil => exact absurd (inside_nil_iff.mp hin) (hempty (List.cons.inj hsplit).1)
        | cons y inner =>
          obtain ⟨rfl, rfl⟩ := List.cons.inj hsplit
          exact ⟨inner.length, (ih hdpos _).mpr ⟨inner, rest, rfl, rfl, (hstep inner).mp hin⟩, rfl⟩
    rw [closing]
    by_cases ho : x = o
    · subst ho
      rw [if_pos rfl]
      exact split (fun _ => Inside.opening_iff hoc hd) (Nat.succ_pos depth) fun h => absurd h hoc
    rw [if_neg ho]
    by_cases hc : x = c
    · subst hc
      rw [if_pos rfl]
      by_cases hone : depth = 1
      · subst hone
        rw [if_pos rfl, Option.some_inj]
        constructor
        · rintro rfl
          exact ⟨[], xs, rfl, rfl, inside_nil_iff.mpr rfl⟩
        · rintro ⟨inner, rest, hsplit, rfl, hin⟩
          cases inner with
          | nil => rfl
          | cons y inner =>
            obtain ⟨rfl, -⟩ := List.cons.inj hsplit
            exact absurd hin (not_inside_closing hoc)
      · rw [if_neg hone]
        exact split (fun _ => Inside.closing_iff hoc (by omega)) (by omega) fun _ => hone
    · rw [if_neg hc]
      exact split (fun _ => Inside.other_iff hd ho hc) hd fun h => absurd h hc

end ArtPi.Lib.Nesting
