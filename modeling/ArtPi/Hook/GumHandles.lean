import ArtPi.Lib.Runs
import Mathlib.Logic.Function.Basic

set_option autoImplicit false

/-! # Handles of native hooks (`engine/native/hooker/pi_gum_hooker.cpp`)

`GumHooker` returns a handle with the address of a session, for a listener that was attached and for a function that was
replaced. A handle that is valid when it is destroyed, assigned over or unhooked gives its session to `detach`, which
looks for the listener in it: the session of a replacement has none.

Sessions are numbered in the order of their allocation, and a listener has the number of its session. -/

namespace ArtPi.Hook.Gum

open Lib

inductive Interception where
  | attached (target listener : Nat)
  | replaced (target replacement : Nat)
  deriving DecidableEq

namespace Interception

def listener : Interception → Option Nat
  | attached _ l => some l
  | replaced _ _ => none

def replaces (t : Nat) : Interception → Bool
  | attached _ _ => false
  | replaced target _ => target = t

end Interception

/-- The member of `RawSession` that `detach` reads; `BackendSession` has it at the same place. -/
structure RawSession where
  listener : Option Nat

/-- The sessions, the interceptor and the handles. `made` is what a session was made for, and `unhooked` what `unhook`
    has returned for valid handles; no step reads them. -/
structure State where
  next : Nat
  sessions : Nat → Option RawSession
  installed : List Interception
  objects : Nat
  cookie : Nat → Option Nat
  made : Nat → Option Interception
  unhooked : List Bool

def State.init : State :=
  { next := 0, sessions := fun _ => none, installed := [], objects := 0, cookie := fun _ => none, made := fun _ => none,
    unhooked := [] }

namespace State

variable (s : State)

/-! ## The interceptor -/

/-- A session for an interception that the interceptor has accepted. -/
def accept (listener : Option Nat) (x : Interception) : State :=
  { s with
    next := s.next + 1
    sessions := Function.update s.sessions s.next (some ⟨listener⟩)
    installed := s.installed ++ [x]
    made := Function.update s.made s.next (some x) }

/-- A session that was deleted again. -/
def refuse : State := { s with next := s.next + 1 }

def isReplaced (target : Nat) : Bool := s.installed.any (Interception.replaces target)

/-- `gum_interceptor_detach`, which also frees the session through the listener. -/
def interceptorDetach (c listener : Nat) : State :=
  { s with
    installed := s.installed.filter fun x => x.listener ≠ some listener
    sessions := Function.update s.sessions c none }

/-! ## `GumHooker` -/

/-- `hook`, with what `gum_make_call_listener` and `gum_interceptor_attach` say; the result is the cookie. -/
def hook (targetAddr : Nat) (hasCallback listenerOk attachOk : Bool) : State × Option Nat :=
  if targetAddr = 0 ∨ ¬ hasCallback then (s, none)
  else if ¬ listenerOk then (s.refuse, none)
  else if ¬ attachOk then (s.refuse, none)
  else (s.accept (some s.next) (.attached targetAddr s.next), some s.next)

/-- `replace`; the interceptor does not replace a function twice. -/
def replace (targetAddr replacementFunc : Nat) (replaceOk : Bool) : State × Option Nat :=
  if targetAddr = 0 ∨ replacementFunc = 0 then (s, none)
  else if ¬ (replaceOk ∧ ¬ s.isReplaced targetAddr) then (s.refuse, none)
  else (s.accept none (.replaced targetAddr replacementFunc), some s.next)

/-! ## Handles -/

/-- `GumHookBackend::detach` -/
def detach (c : Nat) : State × Bool :=
  match (s.sessions c).bind RawSession.listener with
  | none => (s, false)
  | some listener => (s.interceptorDetach c listener, true)

/-- The object that a call returns. -/
def construct (c : Option Nat) : State :=
  { s with objects := s.objects + 1, cookie := Function.update s.cookie s.objects c }

/-- `if (cookie_ != nullptr) NativeHookManager::unhook(cookie_); cookie_ = nullptr;` -/
def release (h : Nat) : State :=
  match s.cookie h with
  | none => s
  | some c => { (s.detach c).1 with cookie := Function.update s.cookie h none }

/-- `NativeHookHandle::unhook` -/
def unhook (h : Nat) : State :=
  match s.cookie h with
  | none => s
  | some c => { s.release h with unhooked := s.unhooked ++ [(s.detach c).2] }

/-- `cookie_ = other.cookie_; other.cookie_ = nullptr;` -/
def move (dst src : Nat) : State :=
  { s with cookie := Function.update (Function.update s.cookie dst (s.cookie src)) src none }

/-- `operator=(NativeHookHandle&&)` -/
def assign (dst src : Nat) : State := if dst = src then s else (s.release dst).move dst src

end State

inductive Op where
  | hook (targetAddr : Nat) (hasCallback listenerOk attachOk : Bool)
  /-- by module and symbol; the address is 0 if there is none -/
  | hookSymbol (sym : Nat) (hasCallback listenerOk attachOk : Bool)
  | replace (targetAddr replacementFunc : Nat) (replaceOk : Bool)
  | unhook (h : Nat)
  | assign (dst src : Nat)
  | destroy (h : Nat)

def State.step (s : State) : Op → State
  | .hook t cb l a => (s.hook t cb l a).1.construct (s.hook t cb l a).2
  | .hookSymbol sym cb l a =>
    if sym = 0 then s.construct none else (s.hook sym cb l a).1.construct (s.hook sym cb l a).2
  | .replace t r ok => (s.replace t r ok).1.construct (s.replace t r ok).2
  | .unhook h => s.unhook h
  | .assign dst src => if dst < s.objects ∧ src < s.objects then s.assign dst src else s
  | .destroy h => s.release h

/-! ## The property and the condition -/

/-- The valid handle `h` has made the interception. -/
def State.Holds (s : State) (h : Nat) (x : Interception) : Prop := ∃ c, s.cookie h = some c ∧ s.made c = some x

/-- Installed is what valid handles have made, and `unhook` has always been `true` for those. -/
structure State.Matched (s : State) : Prop where
  mem_iff : ∀ x, x ∈ s.installed ↔ ∃ h, s.Holds h x
  unhooked : false ∉ s.unhooked

/-- The handle that a step detaches, if it is valid. -/
def Op.detached (s : State) : Op → Option Nat
  | .unhook h => s.cookie h
  | .destroy h => s.cookie h
  | .assign dst src => if dst < s.objects ∧ src < s.objects ∧ dst ≠ src then s.cookie dst else none
  | _ => none

/-- The step does not detach a handle of `replace`. -/
def KeepsReplaced (s : State) (op : Op) : Prop :=
  ∀ c, op.detached s = some c → ∀ t r, s.made c ≠ some (.replaced t r)

/-! ## The invariant -/

/-- A valid handle has a session of its own, with the listener of what it has made. -/
structure Inv (s : State) : Prop where
  matched : s.Matched
  fresh : ∀ h, s.objects ≤ h → s.cookie h = none
  session : ∀ h c, s.cookie h = some c → c < s.next ∧ ∃ x, s.made c = some x ∧
    s.sessions c = some ⟨x.listener⟩ ∧ ∀ l, x.listener = some l → l = c
  unique : ∀ h h' x, s.Holds h x → s.Holds h' x → h = h'

variable {s : State}

theorem inv_init : Inv State.init where
  matched := ⟨by simp [State.init, State.Holds], by simp [State.init]⟩
  fresh _ _ := rfl
  session _ _ h := nomatch h
  unique _ _ _ h := nomatch h.choose_spec.1

theorem Inv.refuse (hs : Inv s) : Inv s.refuse where
  matched := ⟨hs.matched.mem_iff, hs.matched.unhooked⟩
  fresh := hs.fresh
  session h c hc := ⟨Nat.lt_succ_of_lt (hs.session h c hc).1, (hs.session h c hc).2⟩
  unique := hs.unique

theorem holds_construct_none (hs : Inv s) (h : Nat) (x : Interception) :
    (s.construct none).Holds h x ↔ s.Holds h x := by
  unfold State.Holds State.construct
  by_cases hobj : h = s.objects
  · simp [hobj, hs.fresh s.objects (Nat.le_refl _)]
  · simp [hobj]

theorem Inv.construct_none (hs : Inv s) : Inv (s.construct none) where
  matched := by
    refine ⟨fun x => ?_, hs.matched.unhooked⟩
    simp only [holds_construct_none hs]
    exact hs.matched.mem_iff x
  fresh h hh := by
    have hlt : s.objects < h := hh
    unfold State.construct
    dsimp only
    rw [Function.update_of_ne (Nat.ne_of_gt hlt), hs.fresh h (Nat.le_of_lt hlt)]
  session h c hc := by
    by_cases hobj : h = s.objects
    · simp [State.construct, hobj] at hc
    · refine hs.session h c ?_
      simpa [State.construct, hobj] using hc
  unique h h' x hx hx' :=
    hs.unique h h' x ((holds_construct_none hs h x).1 hx) ((holds_construct_none hs h' x).1 hx')

/-- The new handle holds the new interception, the others what they held. -/
theorem holds_accept (hs : Inv s) (l : Option Nat) (y : Interception) (h : Nat) (x : Interception) :
    ((s.accept l y).construct (some s.next)).Holds h x ↔ h = s.objects ∧ x = y ∨ s.Holds h x := by
  unfold State.Holds State.construct State.accept
  dsimp only
  by_cases hobj : h = s.objects
  · have hnone := hs.fresh s.objects (Nat.le_refl _)
    rw [hobj, Function.update_self, hnone]
    constructor
    · rintro ⟨c, hc, hmade⟩
      rw [← Option.some.inj hc, Function.update_self] at hmade
      exact .inl ⟨rfl, (Option.some.inj hmade).symm⟩
    · rintro (⟨-, rfl⟩ | ⟨c, hc, -⟩)
      · exact ⟨s.next, rfl, Function.update_self ..⟩
      · cases hc
  · rw [Function.update_of_ne hobj]
    constructor
    · rintro ⟨c, hc, hmade⟩
      rw [Function.update_of_ne (Nat.ne_of_lt (hs.session h c hc).1)] at hmade
      exact .inr ⟨c, hc, hmade⟩
    · rintro (⟨hobj', -⟩ | ⟨c, hc, hmade⟩)
      · exact absurd hobj' hobj
      · refine ⟨c, hc, ?_⟩
        rw [Function.update_of_ne (Nat.ne_of_lt (hs.session h c hc).1)]
        exact hmade

theorem Inv.accept (hs : Inv s) {y : Interception} (hl : ∀ l, y.listener = some l → l = s.next)
    (hnew : ∀ h, ¬ s.Holds h y) : Inv ((s.accept y.listener y).construct (some s.next)) where
  matched := by
    refine ⟨fun x => ?_, hs.matched.unhooked⟩
    have hmem : x ∈ ((s.accept y.listener y).construct (some s.next)).installed ↔ x ∈ s.installed ∨ x = y := by
      simp [State.construct, State.accept]
    simp only [hmem, hs.matched.mem_iff, holds_accept hs, exists_or, exists_eq_left, or_comm]
  fresh h hh := by
    have hlt : s.objects < h := hh
    unfold State.construct State.accept
    dsimp only
    rw [Function.update_of_ne (Nat.ne_of_gt hlt), hs.fresh h (Nat.le_of_lt hlt)]
  session h c hc := by
    unfold State.construct State.accept at hc ⊢
    dsimp only at hc ⊢
    by_cases hobj : h = s.objects
    · rw [hobj, Function.update_self] at hc
      rw [← Option.some.inj hc, Function.update_self, Function.update_self]
      exact ⟨Nat.lt_succ_self _, y, rfl, rfl, hl⟩
    · rw [Function.update_of_ne hobj] at hc
      obtain ⟨hlt, hx⟩ := hs.session h c hc
      rw [Function.update_of_ne (Nat.ne_of_lt hlt), Function.update_of_ne (Nat.ne_of_lt hlt)]
      exact ⟨Nat.lt_succ_of_lt hlt, hx⟩
  unique h h' x hx hx' := by
    rw [holds_accept hs] at hx hx'
    rcases hx with ⟨hh, rfl⟩ | hx
    · rcases hx' with ⟨hh', -⟩ | hx'
      · rw [hh, hh']
      · exact absurd hx' (hnew h')
    · rcases hx' with ⟨-, rfl⟩ | hx'
      · exact absurd hx (hnew h)
      · exact hs.unique h h' x hx hx'

/-! ## Detaching -/

theorem holds_clear (t : State) (h h' : Nat) (x : Interception) :
    State.Holds { t with cookie := Function.update t.cookie h none } h' x ↔ h' ≠ h ∧ t.Holds h' x := by
  unfold State.Holds
  by_cases hh : h' = h
  · simp [hh]
  · simp [hh]

theorem detach_of_attached (hs : Inv s) {h c : Nat} (hc : s.cookie h = some c)
    (hkeep : ∀ t r, s.made c ≠ some (.replaced t r)) :
    s.detach c = (s.interceptorDetach c c, true) ∧ ∃ t, s.made c = some (.attached t c) := by
  obtain ⟨-, x, hmade, hsession, hlistener⟩ := hs.session h c hc
  cases x with
  | replaced t r => exact absurd hmade (hkeep t r)
  | attached t l =>
    have hl : l = c := hlistener l rfl
    refine ⟨?_, t, hl ▸ hmade⟩
    unfold State.detach
    rw [hsession, hl]
    rfl

theorem detach_of_replaced (hs : Inv s) {h c t r : Nat} (hc : s.cookie h = some c)
    (hmade : s.made c = some (.replaced t r)) : s.detach c = (s, false) := by
  obtain ⟨-, x, hx, hsession, -⟩ := hs.session h c hc
  rw [hmade] at hx
  rw [← Option.some.inj hx] at hsession
  unfold State.detach
  rw [hsession]
  rfl

theorem release_of_none {h : Nat} (hc : s.cookie h = none) : s.release h = s := by
  unfold State.release
  rw [hc]

theorem release_of_some {h c : Nat} (hc : s.cookie h = some c) :
    s.release h = { (s.detach c).1 with cookie := Function.update s.cookie h none } := by
  unfold State.release
  rw [hc]

/-- The handle of a listener is released: its interception goes, and no other one. -/
theorem Inv.release (hs : Inv s) {h : Nat} (hkeep : ∀ c, s.cookie h = some c → ∀ t r, s.made c ≠ some (.replaced t r)) :
    Inv (s.release h) := by
  cases hc : s.cookie h with
  | none =>
    rw [release_of_none hc]
    exact hs
  | some c =>
    obtain ⟨hdetach, t, hmade⟩ := detach_of_attached hs hc (hkeep c hc)
    rw [release_of_some hc, hdetach]
    have hown (h' : Nat) (x : Interception) (hx : s.Holds h' x) : h' ≠ h ↔ x.listener ≠ some c := by
      constructor
      · intro hne hl
        obtain ⟨c', hc', hmade'⟩ := hx
        obtain ⟨-, x', hx', -, hlistener⟩ := hs.session h' c' hc'
        rw [hmade'] at hx'
        have hcc : c = c' := hlistener c (Option.some.inj hx' ▸ hl)
        exact hne (hs.unique h' h x ⟨c', hc', hmade'⟩ ⟨c, hc, hcc ▸ hmade'⟩)
      · rintro hl rfl
        obtain ⟨c', hc', hmade'⟩ := hx
        rw [hc] at hc'
        rw [← Option.some.inj hc', hmade] at hmade'
        exact hl (Option.some.inj hmade' ▸ rfl)
    have hholds (h' : Nat) (x : Interception) :
        State.Holds { s.interceptorDetach c c with cookie := Function.update s.cookie h none } h' x ↔
          x.listener ≠ some c ∧ s.Holds h' x := by
      refine (holds_clear (s.interceptorDetach c c) h h' x).trans ?_
      exact and_congr_left fun hx => hown h' x hx
    refine ⟨⟨fun x => ?_, hs.matched.unhooked⟩, fun h' hh' => ?_, fun h' c' hc' => ?_, fun h₁ h₂ x hx₁ hx₂ => ?_⟩
    · refine (List.mem_filter.trans ?_).trans (exists_congr fun h' => (hholds h' x).symm)
      rw [decide_eq_true_iff, exists_and_left, ← hs.matched.mem_iff, and_comm]
    · dsimp only
      by_cases hh : h' = h
      · rw [hh, Function.update_self]
      · rw [Function.update_of_ne hh]
        exact hs.fresh h' hh'
    · dsimp only at hc'
      by_cases hh : h' = h
      · rw [hh, Function.update_self] at hc'
        cases hc'
      · rw [Function.update_of_ne hh] at hc'
        obtain ⟨hlt, x, hmade', hsession, hlistener⟩ := hs.session h' c' hc'
        have hcc : c' ≠ c := by
          rintro rfl
          exact hh (hs.unique h' h x ⟨c', hc', hmade'⟩ ⟨c', hc, hmade'⟩)
        refine ⟨hlt, x, hmade', ?_, hlistener⟩
        exact (Function.update_of_ne hcc _ _).trans hsession
    · exact hs.unique h₁ h₂ x ((hholds h₁ x).1 hx₁).2 ((hholds h₂ x).1 hx₂).2

theorem holds_move {dst src : Nat} (hne : dst ≠ src) (hdst : s.cookie dst = none) (h : Nat) (x : Interception) :
    (s.move dst src).Holds h x ↔ h = dst ∧ s.Holds src x ∨ h ≠ src ∧ s.Holds h x := by
  unfold State.Holds State.move
  dsimp only
  by_cases hsrc : h = src
  · simp [hsrc, hne.symm]
  · by_cases hd : h = dst
    · simp [hd, hne, hdst]
    · simp [hsrc, hd]

theorem exists_holds_move {dst src : Nat} (hne : dst ≠ src) (hdst : s.cookie dst = none) (x : Interception) :
    (∃ h, (s.move dst src).Holds h x) ↔ ∃ h, s.Holds h x := by
  simp only [holds_move hne hdst]
  constructor
  · rintro ⟨h, ⟨-, hx⟩ | ⟨-, hx⟩⟩
    · exact ⟨src, hx⟩
    · exact ⟨h, hx⟩
  · rintro ⟨h, hx⟩
    by_cases hsrc : h = src
    · exact ⟨dst, .inl ⟨rfl, hsrc ▸ hx⟩⟩
    · exact ⟨h, .inr ⟨hsrc, hx⟩⟩

theorem Inv.move (hs : Inv s) {dst src : Nat} (hne : dst ≠ src) (hdst : s.cookie dst = none) (hlt : dst < s.objects) :
    Inv (s.move dst src) where
  matched := ⟨fun x => by rw [exists_holds_move hne hdst]; exact hs.matched.mem_iff x, hs.matched.unhooked⟩
  fresh h hh := by
    have hd : h ≠ dst := Nat.ne_of_gt (Nat.lt_of_lt_of_le hlt hh)
    unfold State.move
    dsimp only
    by_cases hsrc : h = src
    · rw [hsrc, Function.update_self]
    · rw [Function.update_of_ne hsrc, Function.update_of_ne hd]
      exact hs.fresh h hh
  session h c hc := by
    unfold State.move at hc
    dsimp only at hc
    by_cases hsrc : h = src
    · rw [hsrc, Function.update_self] at hc
      cases hc
    · rw [Function.update_of_ne hsrc] at hc
      by_cases hd : h = dst
      · rw [hd, Function.update_self] at hc
        exact hs.session src c hc
      · rw [Function.update_of_ne hd] at hc
        exact hs.session h c hc
  unique h h' x hx hx' := by
    rw [holds_move hne hdst] at hx hx'
    rcases hx with ⟨rfl, hx⟩ | ⟨hh, hx⟩
    · rcases hx' with ⟨rfl, -⟩ | ⟨hh', hx'⟩
      · rfl
      · exact absurd (hs.unique src h' x hx hx').symm hh'
    · rcases hx' with ⟨rfl, hx'⟩ | ⟨hh', hx'⟩
      · exact absurd (hs.unique h src x hx hx') hh
      · exact hs.unique h h' x hx hx'

/-! ## Steps -/

theorem Inv.hook (hs : Inv s) (t : Nat) (cb l a : Bool) : Inv ((s.hook t cb l a).1.construct (s.hook t cb l a).2) := by
  unfold State.hook
  split
  · exact hs.construct_none
  · split
    · exact hs.refuse.construct_none
    · split
      · exact hs.refuse.construct_none
      · refine hs.accept (y := .attached t s.next) (fun l hl => (Option.some.inj hl).symm) fun h hx => ?_
        obtain ⟨c, hc, hmade⟩ := hx
        obtain ⟨hlt, x, hx, -, hlistener⟩ := hs.session h c hc
        rw [hmade] at hx
        have hcc : s.next = c := hlistener s.next (Option.some.inj hx ▸ rfl)
        exact absurd hlt (hcc ▸ Nat.lt_irrefl _)

theorem Inv.replace (hs : Inv s) (t r : Nat) (ok : Bool) :
    Inv ((s.replace t r ok).1.construct (s.replace t r ok).2) := by
  unfold State.replace
  split
  · exact hs.construct_none
  · split
    · exact hs.refuse.construct_none
    next h =>
      refine hs.accept (y := .replaced t r) (fun l hl => nomatch hl) fun h' hx => ?_
      -- the interceptor would have refused it
      rw [not_not] at h
      have hmem := (hs.matched.mem_iff _).2 ⟨h', hx⟩
      exact h.2 (List.any_eq_true.2 ⟨_, hmem, decide_eq_true rfl⟩)

theorem release_cookie_self {h : Nat} : (s.release h).cookie h = none := by
  cases hc : s.cookie h with
  | none =>
    rw [release_of_none hc]
    exact hc
  | some c =>
    rw [release_of_some hc]
    exact Function.update_self ..

theorem detach_objects (c : Nat) : (s.detach c).1.objects = s.objects := by
  unfold State.detach
  split <;> rfl

theorem release_objects (h : Nat) : (s.release h).objects = s.objects := by
  unfold State.release
  split
  · rfl
  · exact detach_objects _

theorem Inv.step (hs : Inv s) {op : Op} (hkeep : KeepsReplaced s op) : Inv (s.step op) := by
  cases op with
  | hook t cb l a => exact hs.hook t cb l a
  | hookSymbol sym cb l a =>
    unfold State.step
    dsimp only
    split
    · exact hs.construct_none
    · exact hs.hook sym cb l a
  | replace t r ok => exact hs.replace t r ok
  | unhook h =>
    have hrelease := hs.release hkeep
    unfold State.step State.unhook
    dsimp only
    split
    · exact hs
    next c hc =>
      rw [(detach_of_attached hs hc (hkeep c hc)).1]
      refine ⟨⟨hrelease.matched.mem_iff, ?_⟩, hrelease.fresh, hrelease.session, hrelease.unique⟩
      simpa using hs.matched.unhooked
  | assign dst src =>
    unfold State.step
    dsimp only
    split
    next hlt =>
      unfold State.assign
      split
      · exact hs
      next hne =>
        have hrelease := hs.release (h := dst) fun c hc => hkeep c (by simp [Op.detached, hlt, hne, hc])
        exact hrelease.move hne release_cookie_self (by rw [release_objects]; exact hlt.1)
    · exact hs
  | destroy h => exact hs.release hkeep

/-- The handle of a replacement is released: the replacement stays. -/
theorem release_not_matched (hs : Inv s) {h c t r : Nat} (hc : s.cookie h = some c)
    (hmade : s.made c = some (.replaced t r)) :
    .replaced t r ∈ (s.release h).installed ∧ ¬ ∃ h', (s.release h).Holds h' (.replaced t r) := by
  rw [release_of_some hc, detach_of_replaced hs hc hmade]
  refine ⟨(hs.matched.mem_iff _).2 ⟨h, c, hc, hmade⟩, ?_⟩
  rintro ⟨h', hx⟩
  obtain ⟨hne, hx⟩ := (holds_clear s h h' _).1 hx
  exact hne (hs.unique h' h _ hx ⟨c, hc, hmade⟩)

theorem Inv.not_matched_step (hs : Inv s) {op : Op} (hbreak : ¬ KeepsReplaced s op) : ¬ (s.step op).Matched := by
  unfold KeepsReplaced at hbreak
  push Not at hbreak
  obtain ⟨c, hdetached, t, r, hmade⟩ := hbreak
  intro hmatched
  have hmem := hmatched.mem_iff (.replaced t r)
  cases op with
  | hook => cases hdetached
  | hookSymbol => cases hdetached
  | replace => cases hdetached
  | unhook h =>
    have hc : s.cookie h = some c := hdetached
    have hlost := release_not_matched hs hc hmade
    unfold State.step State.unhook at hmem
    simp only [hc] at hmem
    exact hlost.2 (hmem.1 hlost.1)
  | assign dst src =>
    simp only [Op.detached] at hdetached
    split at hdetached
    next h =>
      obtain ⟨hdst, hsrc, hne⟩ := h
      have hlost := release_not_matched hs hdetached hmade
      unfold State.step State.assign at hmem
      dsimp only at hmem
      rw [if_pos ⟨hdst, hsrc⟩, if_neg hne, exists_holds_move hne release_cookie_self] at hmem
      exact hlost.2 (hmem.1 hlost.1)
    · cases hdetached
  | destroy h =>
    have hlost := release_not_matched hs hdetached hmade
    exact hlost.2 (hmem.1 hlost.1)

/-! ## Runs -/

/-- The handles match in every state of a run exactly if the run detaches no handle of a replacement. -/
theorem matched_iff_keepsReplaced (ops : List Op) :
    (∀ k, (run State.step State.init (ops.take k)).Matched) ↔ Along State.step KeepsReplaced State.init ops :=
  (Along.iff_forall_take_of_breaks (fun _ h => h.matched) (fun _ _ h => h.step) (fun _ _ h => h.not_matched_step)
    inv_init).symm

/-- `unhook` is `false` for a valid handle. -/
theorem not_matched_unhook_replaced :
    ¬ ∀ (ops : List Op) (k : Nat), (run State.step State.init (ops.take k)).Matched := by
  intro h
  have hfalse := (h [.replace 0x1000 0x2000 true, .unhook 0] 2).unhooked
  exact hfalse (by decide)

end ArtPi.Hook.Gum
