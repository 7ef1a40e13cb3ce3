import ArtPi.Lib.Runs
import Mathlib.Data.List.Perm.Basic

set_option autoImplicit false

/-! # The entry point while originals are called (`CallFrame::invokeOriginalInternal`)

To call the original through JNI, `invokeOriginalInternal` reads the entry point of the method,
writes the one of the original over it, makes the call and writes back what it has read. There is no
lock, so an invocation that reads while another one is in between saves the entry point of the
original, and an `unhook` in between is overwritten.

`run_settled` says when the entry point is right again once all invocations are finished: an
invocation that has saved the hooked entry point must not be the last one of its kind to write it
back while one that has saved something else is still to write, and `unhook` must not meet an
invocation that has saved the bridge. -/

namespace ArtPi.Hook

open ArtPi.Lib

variable {α : Type}

/-- How the method is hooked: with a jump in its code, where the entry point stays and the original
    is called through a backup, or with a bridge for an entry point. -/
inductive Install (α : Type) where
  | inline (original backup : α)
  | replacement (original bridge : α)

namespace Install

/-- The entry point of the hooked method. -/
def hookedEntry : Install α → α
  | .inline original _ => original
  | .replacement _ bridge => bridge

/-- `origin_entry` of the frames. -/
def originEntry : Install α → α
  | .inline _ backup => backup
  | .replacement original _ => original

def originalEntry : Install α → α
  | .inline original _ => original
  | .replacement original _ => original

end Install

/-- An invocation: not yet at its first access, with the entry point it has read, with the original
    one written, or with its own written back. -/
inductive Invocation (α : Type) where
  | started
  | saved (curEntry : α)
  | opened (curEntry : α)
  | finished
  deriving DecidableEq

def Invocation.savedEntry : Invocation α → Option α
  | .saved curEntry => some curEntry
  | .opened curEntry => some curEntry
  | .started => none
  | .finished => none

/-- The entry point of the method, whether the hook is still there, and all invocations. -/
structure Shared (α : Type) where
  entryPoint : α
  hooked : Bool := true
  invocations : List (Invocation α) := []

namespace Shared

/-- The next access of the `i`-th invocation. -/
def move (k : Install α) (s : Shared α) (i : Nat) : Shared α :=
  match s.invocations[i]? with
  | some .started =>
    { s with invocations := s.invocations.set i (.saved s.entryPoint) }
  | some (.saved curEntry) =>
    { s with
      entryPoint := k.originEntry
      invocations := s.invocations.set i (.opened curEntry) }
  | some (.opened curEntry) =>
    { s with
      entryPoint := curEntry
      invocations := s.invocations.set i .finished }
  | some .finished => s
  | none => s

/-- What `HookHandle::unhook` does to the entry point. -/
def unhook (k : Install α) (s : Shared α) : Shared α :=
  if s.hooked then
    match k with
    | .inline _ _ => { s with hooked := false }
    | .replacement original _ => { s with entryPoint := original, hooked := false }
  else s

/-- The entry points that invocations are still to write back. -/
def savedEntries (s : Shared α) : List α := s.invocations.filterMap Invocation.savedEntry

def savedByOthers (s : Shared α) (i : Nat) : List α :=
  (s.invocations.eraseIdx i).filterMap Invocation.savedEntry

end Shared

inductive EntryOp where
  | start
  | move (i : Nat)
  | unhook

def entryStep (k : Install α) (s : Shared α) : EntryOp → Shared α
  | .start => { s with invocations := s.invocations ++ [.started] }
  | .move i => s.move k i
  | .unhook => s.unhook k

/-! ## The property and its condition -/

/-- With every invocation finished, the entry point is the one of the hook or the original one. -/
def Settled (k : Install α) (s : Shared α) : Prop :=
  (∀ w ∈ s.invocations, w = .finished) →
    s.entryPoint = if s.hooked then k.hookedEntry else k.originalEntry

/-- An invocation that writes the hooked entry point back leaves no other one behind that has saved
    something else, unless there is also one that has saved the hooked entry point; and a bridge is
    removed while no invocation has saved it. -/
def EntryOp.InOrder (k : Install α) (s : Shared α) : EntryOp → Prop
  | .start => True
  | .move i => s.invocations[i]? = some (.opened k.hookedEntry) →
      (∃ curEntry ∈ s.savedByOthers i, curEntry ≠ k.hookedEntry) →
        k.hookedEntry ∈ s.savedByOthers i
  | .unhook => s.hooked = true → k.hookedEntry ≠ k.originalEntry → k.hookedEntry ∉ s.savedEntries

instance EntryOp.decidableInOrder [DecidableEq α] (k : Install α) (s : Shared α) :
    ∀ op : EntryOp, Decidable (op.InOrder k s)
  | .start => inferInstanceAs (Decidable True)
  | .move i => inferInstanceAs (Decidable (s.invocations[i]? = some (.opened k.hookedEntry) →
      (∃ curEntry ∈ s.savedByOthers i, curEntry ≠ k.hookedEntry) →
        k.hookedEntry ∈ s.savedByOthers i))
  | .unhook => inferInstanceAs (Decidable
      (s.hooked = true → k.hookedEntry ≠ k.originalEntry → k.hookedEntry ∉ s.savedEntries))

/-! ## What an access saves -/

section Saved

variable {s : Shared α} {i : Nat} {w : Invocation α}

theorem mem_savedEntries (hget : s.invocations[i]? = some w) (curEntry : α) :
    curEntry ∈ s.savedEntries ↔ w.savedEntry = some curEntry ∨ curEntry ∈ s.savedByOthers i := by
  obtain ⟨hlt, hw⟩ := List.getElem?_eq_some_iff.1 hget
  have hperm := (List.getElem_cons_eraseIdx_perm hlt).filterMap Invocation.savedEntry
  unfold Shared.savedEntries Shared.savedByOthers
  rw [← hperm.mem_iff, hw, List.mem_filterMap, List.exists_mem_cons_iff, List.mem_filterMap]

/-- The entry points saved after the `i`-th invocation has become another one. -/
theorem mem_filterMap_set (hget : s.invocations[i]? = some w) (w' : Invocation α) (curEntry : α) :
    curEntry ∈ (s.invocations.set i w').filterMap Invocation.savedEntry ↔
      w'.savedEntry = some curEntry ∨ curEntry ∈ s.savedByOthers i := by
  have hlt := (List.getElem?_eq_some_iff.1 hget).1
  have hperm := (List.set_perm_cons_eraseIdx hlt w').filterMap Invocation.savedEntry
  unfold Shared.savedByOthers
  rw [hperm.mem_iff, List.mem_filterMap, List.exists_mem_cons_iff, List.mem_filterMap]

end Saved

/-! ## The invariant -/

/-- The hooked entry point is in place or will be written back, and it will be written back if
    anything else will. -/
structure Covered (k : Install α) (s : Shared α) : Prop where
  inPlace : s.entryPoint = k.hookedEntry ∨ k.hookedEntry ∈ s.savedEntries
  last : ∀ curEntry ∈ s.savedEntries, curEntry ≠ k.hookedEntry → k.hookedEntry ∈ s.savedEntries

/-- The original entry point is in place and nothing else will be written back. -/
structure Removed (k : Install α) (s : Shared α) : Prop where
  inPlace : s.entryPoint = k.originalEntry
  saved : ∀ curEntry ∈ s.savedEntries, curEntry = k.originalEntry

theorem Covered.move {k : Install α} {s : Shared α} (h : Covered k s) (i : Nat)
    (hop : (EntryOp.move i).InOrder k s) : Covered k (s.move k i) := by
  unfold Shared.move
  cases hget : s.invocations[i]? with
  | none => exact h
  | some w =>
    have hbefore := mem_savedEntries hget
    cases w with
    | finished => exact h
    | started =>
      have hafter := mem_filterMap_set hget (.saved s.entryPoint)
      -- what is read is the hooked entry point, or there is one to be written back
      have hcover : k.hookedEntry ∈
          (s.invocations.set i (.saved s.entryPoint)).filterMap Invocation.savedEntry := by
        rw [hafter]
        rcases h.inPlace with hplace | hsaved
        · exact Or.inl (congrArg some hplace)
        · rcases (hbefore _).1 hsaved with hnone | hothers
          · exact absurd hnone (by simp [Invocation.savedEntry])
          · exact Or.inr hothers
      exact ⟨Or.inr hcover, fun _ _ _ => hcover⟩
    | saved curEntry =>
      have hafter := mem_filterMap_set hget (.opened curEntry)
      have hcover : k.hookedEntry ∈
          (s.invocations.set i (.opened curEntry)).filterMap Invocation.savedEntry := by
        refine (hafter _).2 ((hbefore _).1 ?_)
        by_cases hcur : curEntry = k.hookedEntry
        · exact (hbefore _).2 (Or.inl (congrArg some hcur))
        · exact h.last curEntry ((hbefore _).2 (Or.inl rfl)) hcur
      exact ⟨Or.inr hcover, fun _ _ _ => hcover⟩
    | opened curEntry =>
      have hafter := mem_filterMap_set hget (.finished)
      have hothers : ∀ c, c ∈ (s.invocations.set i .finished).filterMap Invocation.savedEntry ↔
          c ∈ s.savedByOthers i := by
        intro c
        rw [hafter]
        simp [Invocation.savedEntry]
      by_cases hcur : curEntry = k.hookedEntry
      · -- the hooked entry point is in place again, but others may still write over it
        subst hcur
        refine ⟨Or.inl rfl, fun c hc hne => ?_⟩
        exact (hothers _).2 (hop hget ⟨c, (hothers c).1 hc, hne⟩)
      · have hcover : k.hookedEntry ∈
            (s.invocations.set i .finished).filterMap Invocation.savedEntry := by
          have hsaved := h.last curEntry ((hbefore _).2 (Or.inl rfl)) hcur
          rcases (hbefore _).1 hsaved with hself | hother
          · exact absurd (Option.some.inj hself) hcur
          · exact (hothers _).2 hother
        exact ⟨Or.inr hcover, fun _ _ _ => hcover⟩

theorem Removed.move {k : Install α} (hk : k.originEntry = k.originalEntry) {s : Shared α}
    (h : Removed k s) (i : Nat) : Removed k (s.move k i) := by
  unfold Shared.move
  cases hget : s.invocations[i]? with
  | none => exact h
  | some w =>
    have hbefore := mem_savedEntries hget
    have hothers : ∀ c ∈ s.savedByOthers i, c = k.originalEntry :=
      fun c hc => h.saved c ((hbefore c).2 (Or.inr hc))
    cases w with
    | finished => exact h
    | started =>
      refine ⟨h.inPlace, fun c hc => ?_⟩
      rcases (mem_filterMap_set hget _ c).1 hc with hself | hother
      · exact (Option.some.inj hself).symm.trans h.inPlace
      · exact hothers c hother
    | saved curEntry =>
      refine ⟨hk, fun c hc => ?_⟩
      rcases (mem_filterMap_set hget _ c).1 hc with hself | hother
      · exact h.saved c ((hbefore c).2 (Or.inl hself))
      · exact hothers c hother
    | opened curEntry =>
      refine ⟨h.saved curEntry ((hbefore _).2 (Or.inl rfl)), fun c hc => ?_⟩
      rcases (mem_filterMap_set hget _ c).1 hc with hself | hother
      · exact absurd hself (by simp [Invocation.savedEntry])
      · exact hothers c hother

/-- While the method is hooked the hooked entry point is covered; behind an `unhook` it still is if
    it is the original one, and is gone otherwise. -/
def EntryInv (k : Install α) (s : Shared α) : Prop :=
  if s.hooked then Covered k s
  else (k.hookedEntry = k.originalEntry ∧ Covered k s) ∨
    (k.originEntry = k.originalEntry ∧ Removed k s)

/-- A step that does not change `hooked` need only carry over what the two states say. -/
theorem EntryInv.imp {k : Install α} {s s' : Shared α} (h : EntryInv k s)
    (hhooked : s'.hooked = s.hooked) (hcovered : Covered k s → Covered k s')
    (hremoved : k.originEntry = k.originalEntry → Removed k s → Removed k s') : EntryInv k s' := by
  unfold EntryInv at h ⊢
  rw [hhooked]
  by_cases hon : s.hooked = true
  · rw [if_pos hon] at h ⊢
    exact hcovered h
  · rw [if_neg hon] at h ⊢
    rcases h with ⟨hsame, hc⟩ | ⟨hk, hr⟩
    · exact Or.inl ⟨hsame, hcovered hc⟩
    · exact Or.inr ⟨hk, hremoved hk hr⟩

theorem EntryInv.unhook {k : Install α} {s : Shared α} (h : EntryInv k s)
    (hop : EntryOp.unhook.InOrder k s) : EntryInv k (s.unhook k) := by
  unfold Shared.unhook
  by_cases hhooked : s.hooked = true
  · unfold EntryInv at h
    rw [if_pos hhooked] at h ⊢
    cases k with
    | inline original backup => exact Or.inl ⟨rfl, h.inPlace, h.last⟩
    | replacement original bridge =>
      by_cases hsame : bridge = original
      · exact Or.inl ⟨hsame, Or.inl hsame.symm, h.last⟩
      · -- nobody has saved the bridge, and so nobody has saved anything
        refine Or.inr ⟨rfl, rfl, fun c hc => ?_⟩
        have hbridge : bridge ∉ s.savedEntries := hop hhooked hsame
        by_cases hc' : c = bridge
        · exact absurd (hc' ▸ hc) hbridge
        · exact absurd (h.last c hc hc') hbridge
  · rw [if_neg hhooked]
    exact h

theorem EntryInv.step {k : Install α} {s : Shared α} (op : EntryOp) (h : EntryInv k s)
    (hop : op.InOrder k s) : EntryInv k (entryStep k s op) := by
  cases op with
  | start =>
    have hsaved : ({ s with invocations := s.invocations ++ [.started] } : Shared α).savedEntries
        = s.savedEntries := by
      simp [Shared.savedEntries, Invocation.savedEntry]
    refine h.imp rfl (fun hc => ?_) (fun _ hr => ?_)
    · exact ⟨hsaved ▸ hc.inPlace, fun c => hsaved ▸ hc.last c⟩
    · exact ⟨hr.inPlace, fun c => hsaved ▸ hr.saved c⟩
  | unhook => exact h.unhook hop
  | move i =>
    have hsame : (s.move k i).hooked = s.hooked := by
      unfold Shared.move
      split <;> rfl
    exact h.imp hsame (fun hc => hc.move i hop) (fun hk hr => hr.move hk i)

theorem EntryInv.settled {k : Install α} {s : Shared α} (h : EntryInv k s) : Settled k s := by
  intro hfinished
  have hnone : s.savedEntries = [] := by
    unfold Shared.savedEntries
    rw [List.filterMap_eq_nil_iff]
    intro w hw
    rw [hfinished w hw]
    rfl
  have hcovered : Covered k s → s.entryPoint = k.hookedEntry := by
    intro hc
    rcases hc.inPlace with hplace | hsaved
    · exact hplace
    · rw [hnone] at hsaved
      exact absurd hsaved (by simp)
  unfold EntryInv at h
  split
  · rename_i hhooked
    rw [if_pos hhooked] at h
    exact hcovered h
  · rename_i hhooked
    rw [if_neg hhooked] at h
    rcases h with ⟨hsame, hc⟩ | ⟨-, hr⟩
    · exact (hcovered hc).trans hsame
    · exact hr.inPlace

/-! ## Runs -/

/-- Behind every run of invocations and unhooks in order, the entry point is right once every
    invocation is finished. -/
theorem run_settled (k : Install α) (ops : List EntryOp)
    (hops : Along (entryStep k) (EntryOp.InOrder k) { entryPoint := k.hookedEntry } ops) :
    Settled k (run (entryStep k) { entryPoint := k.hookedEntry } ops) := by
  have hinit : EntryInv k { entryPoint := k.hookedEntry } :=
    ⟨Or.inl rfl, fun c hc => absurd hc (by simp [Shared.savedEntries])⟩
  exact (Along.invariant (fun s op h hop => h.step op hop) hinit hops).settled

/-- A bridge at `2` over a method at `1`. -/
def bridgeOver : Install Nat := .replacement 1 2

/-- Two invocations, the second one inside the first one, and then the unhook. -/
def nestedInvocations : List EntryOp :=
  [.start, .start, .move 0, .move 0, .move 1, .move 1, .move 1, .move 0, .unhook]

theorem nestedInvocations_settled :
    Along (entryStep bridgeOver) (EntryOp.InOrder bridgeOver) { entryPoint := 2 } nestedInvocations ∧
      (run (entryStep bridgeOver) { entryPoint := 2 } nestedInvocations).entryPoint = 1 := by
  have hops : Along (entryStep bridgeOver) (EntryOp.InOrder bridgeOver) { entryPoint := 2 }
      nestedInvocations := by decide
  exact ⟨hops, run_settled bridgeOver nestedInvocations hops (by decide)⟩

/-- Two invocations of which the one that began first also ends first: the other one writes back the
    original, and the hook is off. And an unhook inside an invocation: the bridge is back. -/
theorem overlap_not_settled :
    ¬ Settled bridgeOver (run (entryStep bridgeOver) { entryPoint := 2 }
        [.start, .start, .move 0, .move 0, .move 1, .move 0, .move 1, .move 1]) ∧
      ¬ Settled bridgeOver (run (entryStep bridgeOver) { entryPoint := 2 }
        [.start, .move 0, .move 0, .unhook, .move 0]) := by
  constructor
  · exact fun h => absurd (h (by decide)) (by decide)
  · exact fun h => absurd (h (by decide)) (by decide)

end ArtPi.Hook
