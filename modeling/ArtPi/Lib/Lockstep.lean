import Mathlib.Data.Sum.Basic

set_option autoImplicit false

/-! # Machines in lockstep

A machine takes a state to the next one, or stops with a result. Two machines run in lockstep if related states
go to related states, or stop with related results; then so do runs of any length. -/

namespace ArtPi.Lib

variable {σ τ ρ υ : Type}

/-- A number of steps, or fewer if the machine stops. -/
def runFor (step : σ → σ ⊕ ρ) : Nat → σ → σ ⊕ ρ
  | 0, s => .inl s
  | n + 1, s =>
    match step s with
    | .inl s' => runFor step n s'
    | .inr r => .inr r

theorem runFor_succ_of_inl {step : σ → σ ⊕ ρ} {s s' : σ} (h : step s = .inl s') (n : Nat) :
    runFor step (n + 1) s = runFor step n s' := by
  rw [runFor, h]

theorem runFor_succ_of_inr {step : σ → σ ⊕ ρ} {s : σ} {r : ρ} (h : step s = .inr r) (n : Nat) :
    runFor step (n + 1) s = .inr r := by
  rw [runFor, h]

theorem runFor_lockstep {step : σ → σ ⊕ ρ} {step' : τ → τ ⊕ υ} {state : σ → τ → Prop} {result : ρ → υ → Prop}
    (h : ∀ s t, state s t → Sum.LiftRel state result (step s) (step' t)) (n : Nat) :
    ∀ {s : σ} {t : τ}, state s t → Sum.LiftRel state result (runFor step n s) (runFor step' n t) := by
  induction n with
  | zero => exact fun hst => .inl hst
  | succ n ih =>
    intro s t hst
    have hstep := h s t hst
    cases hs : step s with
    | inl s' =>
      rw [hs] at hstep
      cases ht : step' t with
      | inl t' =>
        rw [ht] at hstep
        cases hstep with
        | inl hst' =>
          rw [runFor_succ_of_inl hs, runFor_succ_of_inl ht]
          exact ih hst'
      | inr u =>
        rw [ht] at hstep
        cases hstep
    | inr r =>
      rw [hs] at hstep
      cases ht : step' t with
      | inl t' =>
        rw [ht] at hstep
        cases hstep
      | inr u =>
        rw [ht] at hstep
        cases hstep with
        | inr hru =>
          rw [runFor_succ_of_inr hs, runFor_succ_of_inr ht]
          exact .inr hru

end ArtPi.Lib
