import Mathlib.Data.List.TakeWhile

set_option autoImplicit false

/-! # Words behind each other

A kind of words is self-delimiting if the beginning of a list is at most one of them, whatever
follows. A list of such words, closed by a symbol that no word begins with, is read in one way
only. -/

namespace ArtPi.Lib

variable {α : Type}

/-- Two words at the beginning of the same list are the same word. -/
def SelfDelimiting (word : List α → Prop) : Prop :=
  ∀ t t' r r', word t → word t' → t ++ r = t' ++ r' → t = t'

/-- A word is not empty and does not begin with the symbol that closes the list. -/
def Avoids (word : List α → Prop) (stop : α) : Prop :=
  ∀ t, word t → ∃ c cs, t = c :: cs ∧ c ≠ stop

theorem SelfDelimiting.flatten_inj {word : List α → Prop} {stop : α} (hword : SelfDelimiting word)
    (hstop : Avoids word stop) {ts ts' : List (List α)} {r r' : List α}
    (hts : ∀ t ∈ ts, word t) (hts' : ∀ t ∈ ts', word t)
    (h : ts.flatten ++ stop :: r = ts'.flatten ++ stop :: r') : ts = ts' ∧ r = r' := by
  induction ts generalizing ts' with
  | nil =>
    cases ts' with
    | nil => exact ⟨rfl, List.cons.inj h |>.2⟩
    | cons t' ts' =>
      obtain ⟨c, cs, rfl, hc⟩ := hstop t' (hts' t' List.mem_cons_self)
      exact absurd (List.cons.inj h).1.symm hc
  | cons t ts ih =>
    cases ts' with
    | nil =>
      obtain ⟨c, cs, rfl, hc⟩ := hstop t (hts t List.mem_cons_self)
      exact absurd (List.cons.inj h).1 hc
    | cons t' ts' =>
      simp only [List.flatten_cons, List.append_assoc] at h
      obtain rfl := hword t t' _ _ (hts t List.mem_cons_self) (hts' t' List.mem_cons_self) h
      obtain ⟨rfl, hr⟩ := ih (fun u hu => hts u (List.mem_cons_of_mem t hu))
        (fun u hu => hts' u (List.mem_cons_of_mem t hu)) (List.append_cancel_left h)
      exact ⟨rfl, hr⟩

/-- A run of symbols with a property in front of one without it is where `takeWhile` stops. -/
theorem takeWhile_append_cons {p : α → Bool} {l : List α} (hl : ∀ c ∈ l, p c = true) {c : α}
    (hc : p c = false) (r : List α) : (l ++ c :: r).takeWhile p = l := by
  rw [List.takeWhile_append_of_pos hl, List.takeWhile_cons_of_neg (by simp [hc]), List.append_nil]

theorem dropWhile_append_cons {p : α → Bool} {l : List α} (hl : ∀ c ∈ l, p c = true) {c : α}
    (hc : p c = false) (r : List α) : (l ++ c :: r).dropWhile p = c :: r := by
  rw [List.dropWhile_append_of_pos hl, List.dropWhile_cons_of_neg (by simp [hc])]

/-- All symbols in front of the first `x` are different from it. -/
theorem forall_ne_of_notMem [DecidableEq α] {x : α} {l : List α} (h : x ∉ l) :
    ∀ c ∈ l, decide (c ≠ x) = true :=
  fun _ hc => decide_eq_true (fun heq => h (heq ▸ hc))

theorem takeWhile_ne_append_cons [DecidableEq α] {x : α} {l : List α} (h : x ∉ l) (r : List α) :
    (l ++ x :: r).takeWhile (· ≠ x) = l :=
  takeWhile_append_cons (forall_ne_of_notMem h) (decide_eq_false (not_not.2 rfl)) r

theorem dropWhile_ne_append_cons [DecidableEq α] {x : α} {l : List α} (h : x ∉ l) (r : List α) :
    (l ++ x :: r).dropWhile (· ≠ x) = x :: r :=
  dropWhile_append_cons (forall_ne_of_notMem h) (decide_eq_false (not_not.2 rfl)) r

/-- The first symbol without the property, and what is around it. -/
theorem eq_of_dropWhile_eq_cons {p : α → Bool} {l r : List α} {c : α}
    (h : l.dropWhile p = c :: r) : l = l.takeWhile p ++ c :: r ∧ p c = false := by
  have hl := List.takeWhile_append_dropWhile (p := p) (l := l)
  have hhead := List.head_dropWhile_not p (l := l) (by rw [h]; exact List.cons_ne_nil c r)
  simp only [h, List.head_cons] at hl hhead
  exact ⟨hl.symm, hhead⟩

/-- Up to its first symbol without the property a list is read in one way only. -/
theorem append_cons_inj {p : α → Bool} {l l' : List α} (hl : ∀ c ∈ l, p c = true)
    (hl' : ∀ c ∈ l', p c = true) {c c' : α} (hc : p c = false) (hc' : p c' = false)
    {r r' : List α} (h : l ++ c :: r = l' ++ c' :: r') : l = l' := by
  rw [← takeWhile_append_cons hl hc r, h, takeWhile_append_cons hl' hc' r']

end ArtPi.Lib
