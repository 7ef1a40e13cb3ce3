import Mathlib.Data.List.Basic

set_option autoImplicit false

/-! # Runs

A system is a function that takes a state and an action to the next state, and a run is a list of
actions. Threads that interleave are one list: an action says which of them moves. A property of
every state that is reached is an invariant that each action keeps, possibly under a condition on
the action and the state before it. -/

namespace ArtPi.Lib

variable {σ α : Type}

/-- The state behind a run. -/
def run (step : σ → α → σ) (s : σ) (as : List α) : σ := as.foldl step s

/-- Every action of a run meets a condition in the state before it. -/
def Along (step : σ → α → σ) (ok : σ → α → Prop) : σ → List α → Prop
  | _, [] => True
  | s, a :: as => ok s a ∧ Along step ok (step s a) as

theorem Along.invariant {step : σ → α → σ} {ok : σ → α → Prop} {inv : σ → Prop}
    (hstep : ∀ s a, inv s → ok s a → inv (step s a)) {as : List α} :
    ∀ {s : σ}, inv s → Along step ok s as → inv (run step s as) := by
  induction as with
  | nil => exact fun hs _ => hs
  | cons a as ih => exact fun hs h => ih (hstep _ a hs h.1) h.2

theorem Along.take {step : σ → α → σ} {ok : σ → α → Prop} {as : List α} (k : Nat) :
    ∀ {s : σ}, Along step ok s as → Along step ok s (as.take k) := by
  induction as generalizing k with
  | nil => exact fun _ => by rw [List.take_nil]; trivial
  | cons a as ih =>
    intro s h
    cases k with
    | zero => trivial
    | succ k => exact ⟨h.1, ih k h.2⟩

/-- Where every action that meets the condition keeps the invariant and every other one breaks the
    property, all states of a run have the property exactly when all its actions meet the
    condition. -/
theorem Along.iff_forall_take_of_breaks {step : σ → α → σ} {ok : σ → α → Prop} {inv prop : σ → Prop}
    (hprop : ∀ s, inv s → prop s) (hkeep : ∀ s a, inv s → ok s a → inv (step s a))
    (hbreak : ∀ s a, inv s → ¬ ok s a → ¬ prop (step s a)) {as : List α} :
    ∀ {s : σ}, inv s → (Along step ok s as ↔ ∀ k, prop (run step s (as.take k))) := by
  induction as with
  | nil => exact fun hs => ⟨fun _ k => by simpa [run] using hprop _ hs, fun _ => trivial⟩
  | cons a as ih =>
    intro s hs
    constructor
    · rintro ⟨ha, has⟩ k
      cases k with
      | zero => exact hprop s hs
      | succ k => exact (ih (hkeep s a hs ha)).1 has k
    · intro h
      have ha : ok s a := by
        by_contra hnot
        exact hbreak s a hs hnot (by simpa [run] using h 1)
      exact ⟨ha, (ih (hkeep s a hs ha)).2 (fun k => h (k + 1))⟩

/-- Where an action keeps the invariant exactly under the condition, all states of a run have it
    exactly when all its actions meet the condition. -/
theorem Along.iff_forall_take {step : σ → α → σ} {ok : σ → α → Prop} {inv : σ → Prop}
    (hstep : ∀ s a, inv s → (ok s a ↔ inv (step s a))) {as : List α} :
    ∀ {s : σ}, inv s → (Along step ok s as ↔ ∀ k, inv (run step s (as.take k))) := by
  intro s hs
  have hkeep : ∀ s a, inv s → ok s a → inv (step s a) := fun s a h ha => (hstep s a h).1 ha
  have hbreak : ∀ s a, inv s → ¬ ok s a → ¬ inv (step s a) :=
    fun s a h hnot hinv => hnot ((hstep s a h).2 hinv)
  exact Along.iff_forall_take_of_breaks (fun _ h => h) hkeep hbreak hs

theorem Along.of_forall {step : σ → α → σ} {ok : σ → α → Prop} (h : ∀ s a, ok s a) (as : List α) :
    ∀ s : σ, Along step ok s as := by
  induction as with
  | nil => exact fun _ => trivial
  | cons a as ih => exact fun s => ⟨h s a, ih _⟩

/-- Two conditions that agree on the states of an invariant agree along the runs in which the first of them keeps it. -/
theorem Along.iff_of_invariant {step : σ → α → σ} {guard ok ok' : σ → α → Prop} {inv : σ → Prop}
    (hstep : ∀ s a, inv s → guard s a → ok s a → inv (step s a))
    (hiff : ∀ s a, inv s → guard s a → (ok s a ↔ ok' s a)) {as : List α} :
    ∀ {s : σ}, inv s → Along step guard s as → (Along step ok s as ↔ Along step ok' s as) := by
  induction as with
  | nil => exact fun _ _ => Iff.rfl
  | cons a as ih =>
    intro s hs h
    have ha := hiff s a hs h.1
    constructor
    · rintro ⟨hok, hrest⟩
      exact ⟨ha.mp hok, (ih (hstep s a hs h.1 hok) h.2).mp hrest⟩
    · rintro ⟨hok, hrest⟩
      exact ⟨ha.mpr hok, (ih (hstep s a hs h.1 (ha.mpr hok)) h.2).mpr hrest⟩

instance Along.decidable (step : σ → α → σ) (ok : σ → α → Prop) [∀ s a, Decidable (ok s a)] :
    ∀ (s : σ) (as : List α), Decidable (Along step ok s as)
  | _, [] => inferInstanceAs (Decidable True)
  | s, a :: as =>
    have := Along.decidable step ok (step s a) as
    inferInstanceAs (Decidable (ok s a ∧ Along step ok (step s a) as))

/-- Where the state has no say in whether an action goes through, a run goes through iff each of its
    actions does. -/
theorem foldlM_isSome_iff {step : σ → α → Option σ} {ok : α → Prop}
    (hstep : ∀ s a, (step s a).isSome ↔ ok a) (as : List α) (s : σ) :
    (as.foldlM step s).isSome ↔ ∀ a ∈ as, ok a := by
  induction as generalizing s with
  | nil => simp
  | cons a as ih =>
    rw [List.foldlM_cons, List.forall_mem_cons, ← hstep s a]
    cases hs : step s a with
    | none => simp
    | some s' =>
      rw [Option.bind_eq_bind, Option.bind_some, ih s']
      simp

end ArtPi.Lib
