import Mathlib.Data.List.Basic
import Mathlib.Data.Prod.Lex

set_option autoImplicit false

/-! # Glob patterns

Patterns in which one character stands for any run and one for any single character, and the search that takes
characters while it can and goes back to the last run only. The search tries a character of the subject as
itself before it tries it as a part of a run, so that a `star` of the subject at a `star` of the pattern is
taken as a character: `run_iff` says what is found so, and `plain_of_matches` that nothing is lost where the
subject has no such character. -/

namespace ArtPi.Lib.Glob

/-- The two special characters, and which characters are the same for the rest. -/
structure Letters (α : Type) where
  star : α
  one : α
  same : α → α → Bool
  one_ne : one ≠ star
  same_star : ∀ c, same star c = true ↔ c = star

variable {α : Type} (l : Letters α)

/-- A character of a pattern takes one of the subject. -/
def Letters.Takes (q c : α) : Prop := q = l.one ∨ l.same q c = true

theorem Letters.takes_star {c : α} : l.Takes l.star c ↔ c = l.star := by
  rw [Letters.Takes, l.same_star]
  exact or_iff_right fun h => l.one_ne h.symm

/-- The subject is of the pattern's language. -/
inductive Matches : List α → List α → Prop where
  | nil : Matches [] []
  | star (skipped : List α) {p s : List α} : Matches p s → Matches (l.star :: p) (skipped ++ s)
  | char {q c : α} {p s : List α} : q ≠ l.star → l.Takes q c → Matches p s → Matches (q :: p) (c :: s)

/-- A run that does not begin at a `star` of the subject, or that is just this character. -/
inductive Plain : List α → List α → Prop where
  | nil : Plain [] []
  | asterisk {p s : List α} : Plain p s → Plain (l.star :: p) (l.star :: s)
  | star (skipped : List α) {p s : List α} : (skipped ++ s).head? ≠ some l.star → Plain p s →
      Plain (l.star :: p) (skipped ++ s)
  | char {q c : α} {p s : List α} : q ≠ l.star → l.Takes q c → Plain p s → Plain (q :: p) (c :: s)

variable {l}

theorem matches_of_plain {p s : List α} (h : Plain l p s) : Matches l p s := by
  induction h with
  | nil => exact .nil
  | asterisk _ ih => exact .star [l.star] ih
  | star skipped _ _ ih => exact .star skipped ih
  | char hq hc _ ih => exact .char hq hc ih

theorem plain_of_matches {p s : List α} (h : Matches l p s) (hs : l.star ∉ s) : Plain l p s := by
  induction h with
  | nil => exact .nil
  | star skipped _ ih =>
    rw [List.mem_append, not_or] at hs
    refine .star skipped (fun hhead => ?_) (ih hs.2)
    have hmem := List.mem_of_mem_head? hhead
    rw [List.mem_append] at hmem
    exact hmem.elim hs.1 hs.2
  | char hq hc _ ih => exact .char hq hc (ih fun hmem => hs (List.mem_cons_of_mem _ hmem))

/-! ## One character of the pattern -/

theorem plain_char {q c : α} {p s : List α} (hq : q ≠ l.star) :
    Plain l (q :: p) (c :: s) ↔ l.Takes q c ∧ Plain l p s := by
  constructor
  · intro h
    generalize hp : q :: p = pat at h
    generalize hs : c :: s = sub at h
    cases h with
    | nil => cases hp
    | asterisk _ => exact absurd (List.cons.inj hp).1 hq
    | star _ _ _ => exact absurd (List.cons.inj hp).1 hq
    | char _ hc h =>
      cases hp
      cases hs
      exact ⟨hc, h⟩
  · intro h
    exact .char hq h.1 h.2

theorem plain_asterisk {p s : List α} : Plain l (l.star :: p) (l.star :: s) ↔ Plain l p s := by
  constructor
  · intro h
    generalize hp : l.star :: p = pat at h
    generalize hs : l.star :: s = sub at h
    cases h with
    | nil => cases hp
    | asterisk h =>
      cases hp
      cases hs
      exact h
    | star skipped hhead _ =>
      rw [← hs] at hhead
      exact absurd rfl hhead
    | char hq _ _ =>
      cases hp
      exact absurd rfl hq
  · intro h
    exact .asterisk h

/-- Away from a `star` of the subject a run may have any length. -/
theorem plain_star {p s : List α} (hs : s.head? ≠ some l.star) :
    Plain l (l.star :: p) s ↔ ∃ k, Plain l p (s.drop k) := by
  constructor
  · intro h
    generalize hp : l.star :: p = pat at h
    cases h with
    | nil => cases hp
    | asterisk _ => exact absurd rfl hs
    | star skipped _ h =>
      cases hp
      refine ⟨skipped.length, ?_⟩
      rw [List.drop_left]
      exact h
    | char hq _ _ =>
      cases hp
      exact absurd rfl hq
  · rintro ⟨k, h⟩
    have hsplit := List.take_append_drop k s
    rw [← hsplit]
    exact .star _ (by rwa [hsplit]) h

theorem plain_nil_left {s : List α} : Plain l [] s ↔ s = [] := by
  constructor
  · intro h
    cases h
    rfl
  · rintro rfl
    exact .nil

/-- Nothing is left of the subject: the rest of the pattern is runs. -/
theorem plain_nil_right {p : List α} : Plain l p [] ↔ ∀ q ∈ p, q = l.star := by
  induction p with
  | nil => simp [plain_nil_left]
  | cons q p ih =>
    by_cases hq : q = l.star
    · rw [hq, plain_star (by simp)]
      simp [ih]
    · constructor
      · intro h
        generalize hs : ([] : List α) = sub at h
        cases h with
        | star _ _ _ => exact absurd rfl hq
        | asterisk _ => cases hs
        | char _ _ _ => cases hs
      · intro h
        exact absurd (h q List.mem_cons_self) hq

/-! ## What lies behind a run

Between the last run and the search, the pattern and the subject agree character by character. -/

/-- The pattern takes the subject without a run. -/
inductive Lock (l : Letters α) : List α → List α → Prop where
  | nil : Lock l [] []
  | cons {q c : α} {u v : List α} : l.Takes q c → Lock l u v → Lock l (q :: u) (c :: v)

theorem Lock.snoc {u v : List α} {q c : α} (h : Lock l u v) (hq : l.Takes q c) :
    Lock l (u ++ [q]) (v ++ [c]) := by
  induction h with
  | nil => exact .cons hq .nil
  | cons hd _ ih => exact .cons hd ih

theorem suffix_of_cons {x t : List α} {c d : α} (h : c :: x <:+ d :: t) : x <:+ t := by
  rcases List.suffix_cons_iff.1 h with heq | hsuf
  · exact (List.cons.inj heq).2 ▸ List.suffix_rfl
  · exact (List.suffix_cons _ _).trans hsuf

/-- A later place where the locked part fits has the rest of the pattern fit at a later place too. -/
theorem Lock.later {u v : List α} (h : Lock l u v) :
    ∀ {q t x : List α}, x <:+ v ++ t → Plain l (u ++ q) x → ∃ y, y <:+ t ∧ Plain l q y := by
  induction h with
  | nil =>
    intro q t x hx hp
    exact ⟨x, hx, hp⟩
  | @cons a d u v had _ ih =>
    intro q t x hx hp
    rw [List.cons_append] at hx hp
    -- whatever the first character takes, what is left lies behind the first of the subject
    suffices h : ∃ x', x' <:+ v ++ t ∧ Plain l (u ++ q) x' from h.elim fun x' h => ih h.1 h.2
    by_cases ha : a = l.star
    · subst ha
      have hd := l.takes_star.1 had
      subst hd
      generalize hpat : l.star :: (u ++ q) = pat at hp
      cases hp with
      | nil => cases hpat
      | asterisk hp =>
        cases hpat
        exact ⟨_, suffix_of_cons hx, hp⟩
      | star skipped hhead hp =>
        cases hpat
        rcases List.suffix_cons_iff.1 hx with heq | hsuf
        · rw [heq] at hhead
          exact absurd rfl hhead
        · exact ⟨_, (List.suffix_append _ _).trans hsuf, hp⟩
      | char hq _ _ =>
        cases hpat
        exact absurd rfl hq
    · cases x with
      | nil => exact absurd (plain_nil_right.1 hp a List.mem_cons_self) ha
      | cons c x =>
        exact ⟨_, suffix_of_cons hx, ((plain_char ha).1 hp).2⟩

/-! ## The search -/

/-- The rest of the pattern and of the subject, and what is behind the last run: the pattern after it, and the
    subject at its end as tried last. -/
structure Scan (l : Letters α) where
  p : List α
  t : List α
  star : Option (List α × List α)
  locked : ∀ r ∈ star, ∃ u v, r.1 = u ++ p ∧ r.2 = v ++ t ∧ Lock l u v

def Scan.start (l : Letters α) (p t : List α) : Scan l := ⟨p, t, none, by simp⟩

/-- The first character of the pattern and that of the subject are taken together. -/
def Scan.take (s : Scan l) (q c : α) (p t : List α) (hp : s.p = q :: p) (ht : s.t = c :: t)
    (hq : l.Takes q c) : Scan l where
  p
  t
  star := s.star
  locked := by
    intro r hr
    obtain ⟨u, v, hu, hv, h⟩ := s.locked r hr
    exact ⟨u ++ [q], v ++ [c], by simp [hu, hp], by simp [hv, ht], h.snoc hq⟩

/-- A run begins here. -/
def Scan.mark (s : Scan l) (p : List α) : Scan l where
  p
  t := s.t
  star := some (p, s.t)
  locked := by
    intro r hr
    cases hr
    exact ⟨[], [], rfl, rfl, .nil⟩

/-- The last run takes one character more. -/
def Scan.retry (l : Letters α) (r : List α × List α) : Scan l where
  p := r.1
  t := r.2.tail
  star := some (r.1, r.2.tail)
  locked := by
    intro r' hr
    cases hr
    exact ⟨[], [], rfl, rfl, .nil⟩

/-- The search goes back to the last run, if there is one. -/
def Scan.back (s : Scan l) : Bool ⊕ Scan l :=
  match s.star with
  | some r => .inr (.retry l r)
  | none => .inl false

/-- What the search still has to find: the rest as it is, or with a longer last run. -/
def Scan.Finds (s : Scan l) : Prop :=
  Plain l s.p s.t ∨ ∃ r ∈ s.star, ∃ k, 1 ≤ k ∧ Plain l r.1 (r.2.drop k)

/-- What a longer last run would find, the rest of the pattern finds at a later place. -/
theorem Scan.later {s : Scan l} {r : List α × List α} (hr : r ∈ s.star) {k : Nat}
    (h : Plain l r.1 (r.2.drop k)) : ∃ y, y <:+ s.t ∧ Plain l s.p y := by
  obtain ⟨u, v, hu, hv, hlock⟩ := s.locked r hr
  rw [hu] at h
  refine hlock.later ?_ h
  rw [← hv]
  exact List.drop_suffix k r.2

theorem Scan.finds_back {s : Scan l} (hp : ¬ Plain l s.p s.t) :
    (∀ b, s.back = .inl b → (b = true ↔ s.Finds)) ∧ (∀ s', s.back = .inr s' → (s'.Finds ↔ s.Finds)) := by
  cases hs : s.star with
  | none => simp [back, hs, Finds, hp]
  | some r =>
    refine ⟨by simp [back, hs], fun s' h => ?_⟩
    simp only [back, hs, Sum.inr.injEq] at h
    subst h
    simp only [Finds, hs, hp, false_or, retry, Option.mem_def, Option.some.injEq, exists_eq_left']
    constructor
    · rintro (h | ⟨k, _, h⟩)
      · exact ⟨1, Nat.le_refl 1, by rwa [List.drop_one]⟩
      · exact ⟨k + 1, by omega, by rwa [List.drop_tail] at h⟩
    · rintro ⟨k, hk, h⟩
      by_cases h1 : k = 1
      · subst h1
        exact .inl (by rwa [List.drop_one] at h)
      · refine .inr ⟨k - 1, by omega, ?_⟩
        rw [List.drop_tail, Nat.sub_add_cancel hk]
        exact h

variable [DecidableEq α]

instance Letters.instDecidableTakes (q c : α) : Decidable (l.Takes q c) :=
  inferInstanceAs (Decidable (q = l.one ∨ l.same q c = true))

def Scan.step (s : Scan l) : Bool ⊕ Scan l :=
  match ht : s.t with
  | [] => .inl (s.p.all (· = l.star))
  | c :: t =>
    match hp : s.p with
    | [] => s.back
    | q :: p =>
      if hq : l.Takes q c then .inr (s.take q c p t hp ht hq)
      else if q = l.star then .inr (s.mark p)
      else s.back

/-- What goes down: the pattern behind the last run, the subject at its end, the subject that is left. -/
def Scan.rank (s : Scan l) : Nat ×ₗ Nat ×ₗ Nat :=
  toLex ((s.star.elim (s.p.length + 1) fun r => r.1.length),
    toLex ((s.star.elim 0 fun r => r.2.length), s.t.length))

theorem Scan.step_cases (s : Scan l) :
    (s.t = [] ∧ s.step = .inl (s.p.all (· = l.star))) ∨
    (∃ q c p t, ∃ (hp : s.p = q :: p) (ht : s.t = c :: t) (hq : l.Takes q c),
      s.step = .inr (s.take q c p t hp ht hq)) ∨
    (∃ c p t, s.p = l.star :: p ∧ s.t = c :: t ∧ c ≠ l.star ∧ s.step = .inr (s.mark p)) ∨
    (s.t ≠ [] ∧ ¬ Plain l s.p s.t ∧ s.step = s.back) := by
  unfold step
  split
  next ht => exact .inl ⟨ht, rfl⟩
  next c t ht =>
    split
    next hp => exact .inr (.inr (.inr ⟨by simp [ht], by simp [hp, ht, plain_nil_left], rfl⟩))
    next q p hp =>
      by_cases hq : l.Takes q c
      · rw [dif_pos hq]
        exact .inr (.inl ⟨q, c, p, t, hp, ht, hq, rfl⟩)
      · rw [dif_neg hq]
        by_cases hstar : q = l.star
        · rw [if_pos hstar]
          subst hstar
          exact .inr (.inr (.inl ⟨c, p, t, hp, ht, fun h => hq (l.takes_star.2 h), rfl⟩))
        · rw [if_neg hstar]
          refine .inr (.inr (.inr ⟨by simp [ht], fun h => ?_, rfl⟩))
          rw [hp, ht, plain_char hstar] at h
          exact hq h.1

theorem Scan.step_rank {s s' : Scan l} (h : s.step = .inr s') : s'.rank < s.rank := by
  rcases s.step_cases with ⟨_, hstep⟩ | ⟨q, c, p, t, hp, ht, hq, hstep⟩ | ⟨c, p, t, hp, ht, _, hstep⟩ |
    ⟨ht, _, hstep⟩
  · rw [hstep] at h
    cases h
  · rw [hstep] at h
    cases h
    simp only [rank, take, hp, ht]
    cases s.star <;> simp [Prod.Lex.toLex_lt_toLex]
  · rw [hstep] at h
    cases h
    simp only [rank, mark, hp]
    cases hs : s.star with
    | none =>
      refine Prod.Lex.toLex_lt_toLex.2 (.inl ?_)
      simp only [Option.elim_none, Option.elim_some, List.length_cons]
      omega
    | some r =>
      obtain ⟨u, v, hu, _, _⟩ := s.locked r hs
      refine Prod.Lex.toLex_lt_toLex.2 (.inl ?_)
      simp [hu, hp]
      omega
  · rw [hstep, back] at h
    cases hs : s.star with
    | none =>
      rw [hs] at h
      cases h
    | some r =>
      rw [hs] at h
      cases h
      obtain ⟨u, v, _, hv, _⟩ := s.locked r hs
      have hne : r.2 ≠ [] := by simp [hv, ht]
      refine Prod.Lex.toLex_lt_toLex.2 (.inr ⟨by simp [retry, hs], Prod.Lex.toLex_lt_toLex.2 (.inl ?_)⟩)
      have := List.length_pos_of_ne_nil hne
      simp [retry, hs]
      omega

/-- The steps until there is an answer. -/
def Scan.run (s : Scan l) : Bool :=
  match _h : s.step with
  | .inl b => b
  | .inr s' => s'.run
termination_by s.rank
decreasing_by exact step_rank _h

theorem Scan.finds_step (s : Scan l) :
    (∀ b, s.step = .inl b → (b = true ↔ s.Finds)) ∧ (∀ s', s.step = .inr s' → (s'.Finds ↔ s.Finds)) := by
  rcases s.step_cases with ⟨ht, hstep⟩ | ⟨q, c, p, t, hp, ht, hq, hstep⟩ | ⟨c, p, t, hp, ht, hc, hstep⟩ |
    ⟨_, hpl, hstep⟩
  · refine ⟨fun b h => ?_, by simp [hstep]⟩
    rw [hstep] at h
    cases h
    have hall : s.p.all (· = l.star) = true ↔ Plain l s.p s.t := by
      rw [ht, plain_nil_right]
      simp
    rw [hall]
    refine ⟨.inl, ?_⟩
    rintro (h | ⟨r, hr, k, _, h⟩)
    · exact h
    · obtain ⟨y, hy, h⟩ := later hr h
      rw [ht] at hy ⊢
      rwa [List.suffix_nil.1 hy] at h
  · refine ⟨by simp [hstep], fun s' h => ?_⟩
    rw [hstep] at h
    cases h
    have hiff : Plain l s.p s.t ↔ Plain l p t := by
      rw [hp, ht]
      by_cases hstar : q = l.star
      · subst hstar
        rw [l.takes_star.1 hq, plain_asterisk]
      · rw [plain_char hstar, and_iff_right hq]
    simp only [Finds, take, hiff]
  · refine ⟨by simp [hstep], fun s' h => ?_⟩
    rw [hstep] at h
    cases h
    have hhead : s.t.head? ≠ some l.star := by simp [ht, hc]
    simp only [Finds, mark, hp, plain_star hhead, Option.mem_def, Option.some.injEq, exists_eq_left']
    constructor
    · rintro (h | ⟨k, _, h⟩)
      · exact .inl ⟨0, h⟩
      · exact .inl ⟨k, h⟩
    · intro h
      have hlater : ∃ k, Plain l p (s.t.drop k) := by
        rcases h with h | ⟨r, hr, k, _, h⟩
        · exact h
        · obtain ⟨y, hy, h⟩ := later hr h
          rw [hp] at h
          obtain ⟨w, hw⟩ := hy
          by_cases hyhead : y.head? = some l.star
          · -- the run may take the character of the subject that the later place takes
            obtain ⟨y, rfl⟩ : ∃ z, y = l.star :: z := by
              cases y with
              | nil => cases hyhead
              | cons d y => exact ⟨y, by rw [Option.some.inj hyhead]⟩
            refine ⟨w.length + 1, ?_⟩
            rw [← hw, ← List.drop_drop, List.drop_left]
            exact plain_asterisk.1 h
          · obtain ⟨k, h⟩ := (plain_star hyhead).1 h
            refine ⟨w.length + k, ?_⟩
            rw [← hw, ← List.drop_drop, List.drop_left]
            exact h
      obtain ⟨k, h⟩ := hlater
      by_cases h0 : k = 0
      · subst h0
        exact .inl h
      · exact .inr ⟨k, by omega, h⟩
  · rw [hstep]
    exact finds_back hpl

theorem Scan.run_iff_finds (s : Scan l) : s.run = true ↔ s.Finds := by
  induction s using Scan.run.induct with
  | case1 s b h =>
    rw [run]
    split
    next b' h' => exact s.finds_step.1 b' h'
    next s' h' => simp [h] at h'
  | case2 s s' h ih =>
    rw [run]
    split
    next b h' => simp [h] at h'
    next s'' h' =>
      rw [h] at h'
      cases h'
      rw [ih]
      exact s.finds_step.2 s' h

/-- The search finds what fits with each run as `Plain` has it. -/
theorem run_iff (p t : List α) : (Scan.start l p t).run = true ↔ Plain l p t := by
  rw [Scan.run_iff_finds]
  simp [Scan.Finds, Scan.start]

end ArtPi.Lib.Glob
