import ArtPi.HwHook.Manager
import Mathlib.Data.List.Nodup

set_option autoImplicit false

/-! # Return hooks (`src/agent/agent_hw_hook.cpp`, `src/agent/agent_jni.cpp`)

`JNI.hwtrace` and `HW.watchDlopen` observe a function with a breakpoint on its entry, whose callback
plants a one-shot breakpoint at the return address, on the thread of the call. The manager has one
session for an address: to attach a second one there gives the first another callback.

Of the manager a session is left as its address, its thread, whether it is a one-shot, and its
callback; slots and step-overs are those of the environment, which says whether an attach succeeds and
whether a thread stops at a breakpoint that is not a return hook. The threads call functions, at will
and also out of the callbacks, and return. -/

namespace ArtPi.HwHook.Returns

open Lib

/-- A function that is observed by `JNI.hwtrace`, or by `HW.watchDlopen`: with an `onLoaded` or a
    library to stop at, or with neither. -/
inductive Observed where
  | jni (slot : Nat)
  | dlopen (loaded : Bool)
  deriving DecidableEq

namespace Observed

/-- The callbacks of `JNI.hwtrace` do nothing inside of each other. -/
def isJni : Observed → Bool
  | jni _ => true
  | dlopen _ => false

/-- The test on the return address. -/
def plants (lr : UInt64) : Observed → Bool
  | jni _ => 0x1000 < lr
  | dlopen loaded => loaded && 0x1000 ≤ lr

end Observed

/-- What a return hook has captured: the call it was planted for. -/
structure Hook where
  tid : Tid
  id : Nat
  f : Observed
  deriving DecidableEq

inductive OnHit where
  | enter (f : Observed)
  | leave (h : Hook)
  deriving DecidableEq

structure Session where
  address : UInt64
  /-- 0 for all threads -/
  threadId : Nat
  once : Bool
  onHit : OnHit
  deriving DecidableEq

/-- `retCfg` -/
def Hook.session (h : Hook) (retAddr : UInt64) : Session :=
  { address := retAddr, threadId := h.tid.val, once := true, onHit := .leave h }

def entrySession (address : UInt64) (f : Observed) : Session :=
  { address, threadId := 0, once := false, onHit := .enter f }

/-- The first session at the address gets another callback. -/
def reuse (config : Session) : List Session → Option (List Session)
  | [] => none
  | s :: ss =>
    if s.address = config.address then some ({ s with onHit := config.onHit } :: ss)
    else (reuse config ss).map (fun ss' => s :: ss')

/-- `attach` of a breakpoint. `ok` says that there is a slot and that a thread can be armed. -/
def attach (sessions : List Session) (config : Session) (ok : Bool) : Option (List Session) :=
  if config.address = 0 then none
  else
    match reuse config sessions with
    | some sessions => some sessions
    | none => if ok then some (sessions ++ [config]) else none

/-- A call in progress, with the hooks planted for its return, or a callback that runs. -/
inductive Frame where
  | call (ret : UInt64) (hooks : List Hook)
  | onEnter (f : Observed)
  | onLeave (f : Observed)

structure State where
  sessions : List Session := []
  /-- The innermost frame first. -/
  threads : Tid → List Frame := fun _ => []
  insideJniTracer : Tid → Bool := fun _ => false
  nextHook : Nat := 0
  /-- What the return hooks have reported: the call, and `x0`. -/
  reports : List (Hook × UInt64) := []
  /-- The calls with a hook that have returned, with what they have returned. -/
  returned : List (Hook × UInt64) := []

namespace State

variable (t : State)

def setThread (tid : Tid) (frames : List Frame) (inside : Bool) : State :=
  { t with
    threads := Function.update t.threads tid frames
    insideJniTracer := Function.update t.insideJniTracer tid inside }

/-- The callback of `f` begins on the thread, under `TracerGuard` for a JNI function. -/
def enterCallback (tid : Tid) (f : Observed) (frame : Frame) : State :=
  t.setThread tid (frame :: t.threads tid) (f.isJni || t.insideJniTracer tid)

def onHit (tid : Tid) (x0 : UInt64) : OnHit → State
  | .enter f =>
    match t.threads tid with
    | .call _ _ :: _ =>
      if f.isJni && t.insideJniTracer tid then t else t.enterCallback tid f (.onEnter f)
    | _ => t
  | .leave h =>
    if h.f.isJni && t.insideJniTracer tid then t
    else
      { t.enterCallback tid h.f (.onLeave h.f) with reports := t.reports ++ [(h, x0)] }

end State

/-- The thread stops at the breakpoint. A return hook is armed on its thread until it is hit; another
    thread or session may be passed over. -/
def Session.traps (s : Session) (tid : Tid) (armed : Bool) : Bool :=
  if s.once then s.threadId = tid.val else armed && (s.threadId = 0 || s.threadId = tid.val)

namespace State

variable (t : State)

/-- The thread gets to an address, and `HandleException` runs if it stops there. -/
def arrive (tid : Tid) (pc x0 : UInt64) (armed : Bool) : State :=
  match t.sessions.find? (fun s => s.address = pc) with
  | none => t
  | some s =>
    if s.traps tid armed then
      let t' := if s.once then
          { t with sessions := t.sessions.eraseP (fun s => s.address = pc) }
        else t
      t'.onHit tid x0 s.onHit
    else t

/-- `JNI.hwtrace` or `HW.watchDlopen` with a function. -/
def watch (address : UInt64) (f : Observed) (ok : Bool) : State :=
  match attach t.sessions (entrySession address f) ok with
  | some sessions => { t with sessions }
  | none => t

def call (tid : Tid) (pc ret x0 : UInt64) (armed : Bool) : State :=
  (t.setThread tid (.call ret [] :: t.threads tid) (t.insideJniTracer tid)).arrive tid pc x0 armed

/-- A branch or a tail call. -/
def jump (tid : Tid) (pc x0 : UInt64) (armed : Bool) : State :=
  match t.threads tid with
  | .call _ _ :: _ => t.arrive tid pc x0 armed
  | _ => t

/-- The inline hook that stands in for a breakpoint on `dlopen`. -/
def fallback (tid : Tid) (loaded : Bool) : State := t.onHit tid 0 (.enter (.dlopen loaded))

/-- The callback of an entry plants the return hook, and ends. -/
def plant (tid : Tid) (ok : Bool) : State :=
  match t.threads tid with
  | .onEnter f :: .call ret hooks :: rest =>
    let h : Hook := ⟨tid, t.nextHook, f⟩
    let inside := !f.isJni && t.insideJniTracer tid
    match (if f.plants ret then attach t.sessions (h.session ret) ok else none) with
    | some sessions =>
      { t.setThread tid (.call ret (h :: hooks) :: rest) inside with
        sessions, nextHook := t.nextHook + 1 }
    | none => t.setThread tid (.call ret hooks :: rest) inside
  | _ => t

def ret (tid : Tid) (x0 : UInt64) (armed : Bool) : State :=
  match t.threads tid with
  | .call ret hooks :: rest =>
    { t.setThread tid rest (t.insideJniTracer tid) with
      returned := t.returned ++ hooks.map (fun h => (h, x0)) }.arrive tid ret x0 armed
  | _ => t

/-- The callback of a return hook ends. -/
def done (tid : Tid) : State :=
  match t.threads tid with
  | .onLeave f :: rest => t.setThread tid rest (!f.isJni && t.insideJniTracer tid)
  | _ => t

end State

inductive Event where
  | watch (address : UInt64) (f : Observed) (ok : Bool)
  | call (tid : Tid) (pc ret x0 : UInt64) (armed : Bool)
  | jump (tid : Tid) (pc x0 : UInt64) (armed : Bool)
  | fallback (tid : Tid) (loaded : Bool)
  | plant (tid : Tid) (ok : Bool)
  | ret (tid : Tid) (x0 : UInt64) (armed : Bool)
  | done (tid : Tid)

/-- An event that cannot happen in a state leaves it as it is. -/
def State.step (t : State) : Event → State
  | .watch address f ok => t.watch address f ok
  | .call tid pc ret x0 armed => t.call tid pc ret x0 armed
  | .jump tid pc x0 armed => t.jump tid pc x0 armed
  | .fallback tid loaded => t.fallback tid loaded
  | .plant tid ok => t.plant tid ok
  | .ret tid x0 armed => t.ret tid x0 armed
  | .done tid => t.done tid

/-! ## What is to hold -/

/-- The hooks planted for the calls of a stack, each with its address. -/
def planted (frames : List Frame) : List (UInt64 × Hook) :=
  frames.flatMap (fun
    | .call ret hooks => hooks.map (fun h => (ret, h))
    | _ => [])

/-- The reports are the returns of the calls with a hook, each once and with its own value, and the
    hook of a call in progress waits for it. -/
structure Attributed (t : State) : Prop where
  reported : t.reports = t.returned
  once : (t.reports.map Prod.fst).Nodup
  pending : ∀ tid, ∀ p ∈ planted (t.threads tid), p.2.session p.1 ∈ t.sessions

/-- A hook is planted where no session is, no function is observed at the address of a hook, and a
    thread gets to the address of its hook by the return that the hook waits for. -/
def Clear (t : State) : Event → Prop
  | .watch address _ _ => address ≠ 0 → ∀ s ∈ t.sessions, s.address = address → s.once = false
  | .call tid pc _ _ _ => ∀ p ∈ planted (t.threads tid), p.1 ≠ pc
  | .jump tid pc _ _ => ∀ ret hooks rest, t.threads tid = .call ret hooks :: rest →
      ∀ p ∈ planted (t.threads tid), p.1 ≠ pc
  | .plant tid _ => ∀ f ret hooks rest, t.threads tid = .onEnter f :: .call ret hooks :: rest →
      f.plants ret = true → ∀ s ∈ t.sessions, s.address ≠ ret
  | .ret tid _ _ => ∀ ret hooks rest, t.threads tid = .call ret hooks :: rest →
      ∀ p ∈ planted rest, p.1 ≠ ret
  | .fallback _ _ | .done _ => True

/-! ## The stack of a thread -/

@[simp] theorem planted_nil : planted [] = [] := rfl

@[simp] theorem planted_call (ret : UInt64) (hooks : List Hook) (rest : List Frame) :
    planted (.call ret hooks :: rest) = hooks.map (fun h => (ret, h)) ++ planted rest := rfl

@[simp] theorem planted_onEnter (f : Observed) (rest : List Frame) :
    planted (.onEnter f :: rest) = planted rest := rfl

@[simp] theorem planted_onLeave (f : Observed) (rest : List Frame) :
    planted (.onLeave f :: rest) = planted rest := rfl

/-- A thread is inside of the tracer in the callbacks of JNI functions, and these do not hold each
    other. The hook of a JNI function is planted outside. -/
inductive Stacked : List Frame → Bool → Prop where
  | nil : Stacked [] false
  | call {ret : UInt64} {hooks : List Hook} {rest : List Frame} {inside : Bool} :
      (∀ h ∈ hooks, h.f.isJni = true → inside = false) → Stacked rest inside →
      Stacked (.call ret hooks :: rest) inside
  | onEnter {f : Observed} {rest : List Frame} {inside : Bool} :
      (f.isJni = true → inside = false) → Stacked rest inside →
      Stacked (.onEnter f :: rest) (f.isJni || inside)
  | onLeave {f : Observed} {rest : List Frame} {inside : Bool} :
      (f.isJni = true → inside = false) → Stacked rest inside →
      Stacked (.onLeave f :: rest) (f.isJni || inside)

theorem Stacked.of_call {ret : UInt64} {hooks : List Hook} {rest : List Frame} {inside : Bool}
    (h : Stacked (.call ret hooks :: rest) inside) :
    (∀ h ∈ hooks, h.f.isJni = true → inside = false) ∧ Stacked rest inside := by
  cases h with
  | call hhooks hrest => exact ⟨hhooks, hrest⟩

/-- Behind a callback the thread is inside of the tracer as it was before. -/
theorem Stacked.of_onEnter {f : Observed} {rest : List Frame} {inside : Bool}
    (h : Stacked (.onEnter f :: rest) inside) :
    (f.isJni = true → (!f.isJni && inside) = false) ∧ Stacked rest (!f.isJni && inside) := by
  cases h with
  | @onEnter _ _ before hguard hrest =>
    cases hjni : f.isJni with
    | true =>
      rw [hguard hjni] at hrest
      exact ⟨fun _ => rfl, hrest⟩
    | false => exact ⟨fun habsurd => absurd habsurd (by simp), hrest⟩

theorem Stacked.of_onLeave {f : Observed} {rest : List Frame} {inside : Bool}
    (h : Stacked (.onLeave f :: rest) inside) : Stacked rest (!f.isJni && inside) := by
  cases h with
  | @onLeave _ _ before hguard hrest =>
    cases hjni : f.isJni with
    | true =>
      rw [hguard hjni] at hrest
      exact hrest
    | false => exact hrest

/-! ## The invariant -/

structure ThreadInv (t : State) (tid : Tid) (frames : List Frame) (inside : Bool) : Prop where
  stacked : Stacked frames inside
  pending : ∀ p ∈ planted frames, p.2.session p.1 ∈ t.sessions
  nodup : ((planted frames).map Prod.snd).Nodup
  tid : ∀ p ∈ planted frames, p.2.tid = tid
  fresh : ∀ p ∈ planted frames, p.2.id < t.nextHook ∧ p.2 ∉ t.returned.map Prod.fst

/-- The invariant of the runs whose events are clear. -/
structure Inv (t : State) : Prop where
  threads : ∀ tid, ThreadInv t tid (t.threads tid) (t.insideJniTracer tid)
  addresses : (t.sessions.map Session.address).Nodup
  hooks : ∀ s ∈ t.sessions, s.once = true →
    ∃ tid, ∃ p ∈ planted (t.threads tid), s = p.2.session p.1
  entries : ∀ s ∈ t.sessions, s.once = false → ∃ f, s.onHit = .enter f
  reported : t.reports = t.returned
  nodup : (t.returned.map Prod.fst).Nodup
  returned_lt : ∀ r ∈ t.returned, r.1.id < t.nextHook

theorem Inv.attributed {t : State} (h : Inv t) : Attributed t :=
  ⟨h.reported, by rw [h.reported]; exact h.nodup, fun tid => (h.threads tid).pending⟩

theorem inv_init : Inv {} where
  threads := fun _ => ⟨.nil, by simp, List.nodup_nil, by simp, by simp⟩
  addresses := List.nodup_nil
  hooks := by simp
  entries := by simp
  reported := rfl
  nodup := List.nodup_nil
  returned_lt := by simp

/-! ## Sessions by their address -/

section

variable {sessions : List Session}

theorem session_unique (hnodup : (sessions.map Session.address).Nodup) {s s' : Session}
    (hs : s ∈ sessions) (hs' : s' ∈ sessions) (haddr : s.address = s'.address) : s = s' :=
  List.inj_on_of_nodup_map hnodup hs hs' haddr

theorem find?_address (hnodup : (sessions.map Session.address).Nodup) {s : Session}
    (hs : s ∈ sessions) : sessions.find? (fun s' => s'.address = s.address) = some s := by
  cases hfind : sessions.find? (fun s' => s'.address = s.address) with
  | none =>
    have hnone := List.find?_eq_none.1 hfind s hs
    simp at hnone
  | some s' =>
    have haddr : s'.address = s.address := by simpa using List.find?_some hfind
    rw [session_unique hnodup (List.mem_of_find?_eq_some hfind) hs haddr]

theorem mem_eraseP_address (hnodup : (sessions.map Session.address).Nodup) (pc : UInt64)
    (s : Session) :
    s ∈ sessions.eraseP (fun s => s.address = pc) ↔ s ∈ sessions ∧ s.address ≠ pc := by
  induction sessions with
  | nil => simp
  | cons x sessions ih =>
    rw [List.map_cons, List.nodup_cons] at hnodup
    obtain ⟨hx, hnodup⟩ := hnodup
    by_cases hpc : x.address = pc
    · rw [List.eraseP_cons_of_pos (by simpa using hpc), List.mem_cons]
      constructor
      · intro hs
        refine ⟨Or.inr hs, fun hspc => hx ?_⟩
        rw [hpc, ← hspc]
        exact List.mem_map_of_mem hs
      · rintro ⟨rfl | hs, hne⟩
        · exact absurd hpc hne
        · exact hs
    · rw [List.eraseP_cons_of_neg (by simpa using hpc), List.mem_cons, List.mem_cons, ih hnodup]
      constructor
      · rintro (rfl | ⟨hs, hne⟩)
        · exact ⟨Or.inl rfl, hpc⟩
        · exact ⟨Or.inr hs, hne⟩
      · rintro ⟨rfl | hs, hne⟩
        · exact Or.inl rfl
        · exact Or.inr ⟨hs, hne⟩

theorem reuse_of_free {config : Session} (hfree : ∀ s ∈ sessions, s.address ≠ config.address) :
    reuse config sessions = none := by
  induction sessions with
  | nil => rfl
  | cons x sessions ih =>
    unfold reuse
    rw [if_neg (hfree x List.mem_cons_self), ih (fun s hs => hfree s (List.mem_cons_of_mem _ hs))]
    rfl

/-- The session at the address has the new callback, the others stay. -/
theorem reuse_of_mem (hnodup : (sessions.map Session.address).Nodup) (config : Session) {s : Session}
    (hs : s ∈ sessions) (haddr : s.address = config.address) :
    ∃ sessions', reuse config sessions = some sessions' ∧
      sessions'.map Session.address = sessions.map Session.address ∧
      ∀ s', s' ∈ sessions' ↔
        s' = { s with onHit := config.onHit } ∨ (s' ∈ sessions ∧ s'.address ≠ config.address) := by
  induction sessions with
  | nil => exact absurd hs (by simp)
  | cons x sessions ih =>
    rw [List.map_cons, List.nodup_cons] at hnodup
    obtain ⟨hx, hnodup⟩ := hnodup
    unfold reuse
    by_cases hpc : x.address = config.address
    · have hxs : s = x := by
        rcases List.mem_cons.1 hs with rfl | hs
        · rfl
        · rw [hpc, ← haddr] at hx
          exact absurd (List.mem_map_of_mem hs) hx
      subst hxs
      rw [if_pos hpc]
      refine ⟨_, rfl, rfl, fun s' => ?_⟩
      rw [List.mem_cons, List.mem_cons]
      constructor
      · rintro (rfl | hs')
        · exact Or.inl rfl
        · refine Or.inr ⟨Or.inr hs', fun hs'pc => hx ?_⟩
          rw [hpc, ← hs'pc]
          exact List.mem_map_of_mem hs'
      · rintro (rfl | ⟨rfl | hs', hne⟩)
        · exact Or.inl rfl
        · exact absurd hpc hne
        · exact Or.inr hs'
    · have hmem : s ∈ sessions := by
        rcases List.mem_cons.1 hs with rfl | hs
        · exact absurd haddr hpc
        · exact hs
      obtain ⟨sessions', hreuse, hmap, hiff⟩ := ih hnodup hmem
      rw [if_neg hpc, hreuse]
      refine ⟨_, rfl, by rw [List.map_cons, List.map_cons, hmap], fun s' => ?_⟩
      rw [List.mem_cons, List.mem_cons, hiff s']
      constructor
      · rintro (rfl | rfl | ⟨hs', hne⟩)
        · exact Or.inr ⟨Or.inl rfl, hpc⟩
        · exact Or.inl rfl
        · exact Or.inr ⟨Or.inr hs', hne⟩
      · rintro (rfl | ⟨rfl | hs', hne⟩)
        · exact Or.inr (Or.inl rfl)
        · exact Or.inl rfl
        · exact Or.inr (Or.inr ⟨hs', hne⟩)

theorem attach_of_free {config : Session} (hfree : ∀ s ∈ sessions, s.address ≠ config.address)
    (ok : Bool) {sessions' : List Session} (h : attach sessions config ok = some sessions') :
    config.address ≠ 0 ∧ sessions' = sessions ++ [config] := by
  unfold attach at h
  rw [reuse_of_free hfree] at h
  split at h
  · exact absurd h (by simp)
  · next hne =>
      simp only [Option.ite_none_right_eq_some, Option.some.injEq] at h
      exact ⟨hne, h.2.symm⟩

end

/-! ## One event -/

section

variable {t t' : State} {tid : Tid} {frames frames' : List Frame} {inside inside' : Bool}

theorem ThreadInv.of (h : ThreadInv t tid frames inside) (hstacked : Stacked frames' inside')
    (hplanted : planted frames' = planted frames)
    (hpending : ∀ p ∈ planted frames, p.2.session p.1 ∈ t'.sessions)
    (hnext : t.nextHook ≤ t'.nextHook)
    (hreturned : ∀ p ∈ planted frames, p.2 ∉ t'.returned.map Prod.fst) :
    ThreadInv t' tid frames' inside' := by
  refine ⟨hstacked, ?_, ?_, ?_, ?_⟩ <;> rw [hplanted]
  · exact hpending
  · exact h.nodup
  · exact h.tid
  · exact fun p hp => ⟨Nat.lt_of_lt_of_le (h.fresh p hp).1 hnext, hreturned p hp⟩

/-- What holds of the thread that goes on and of the others holds of all threads. -/
theorem forall_setThread {P : Tid → List Frame → Bool → Prop} (hself : P tid frames inside)
    (hother : ∀ tid', tid' ≠ tid → P tid' (t.threads tid') (t.insideJniTracer tid')) (tid' : Tid) :
    P tid' ((t.setThread tid frames inside).threads tid')
      ((t.setThread tid frames inside).insideJniTracer tid') := by
  unfold State.setThread
  by_cases htid : tid' = tid
  · subst htid
    simp only [Function.update_self]
    exact hself
  · simp only [Function.update_of_ne htid]
    exact hother tid' htid

theorem planted_setThread (hplanted : planted frames = planted (t.threads tid)) (tid' : Tid) :
    planted ((t.setThread tid frames inside).threads tid') = planted (t.threads tid') :=
  forall_setThread (P := fun tid' frames' _ => planted frames' = planted (t.threads tid')) hplanted
    (fun _ _ => rfl) tid'

theorem Inv.setThread (h : Inv t) (hstacked : Stacked frames inside)
    (hplanted : planted frames = planted (t.threads tid)) : Inv (t.setThread tid frames inside) := by
  have hfresh : ∀ tid', ∀ p ∈ planted (t.threads tid'), p.2 ∉ t.returned.map Prod.fst :=
    fun tid' p hp => ((h.threads tid').fresh p hp).2
  refine ⟨?_, h.addresses, fun s hs honce => ?_, h.entries, h.reported, h.nodup, h.returned_lt⟩
  · refine forall_setThread (P := ThreadInv _) ?_ (fun tid' _ => ?_)
    · have hthread := h.threads tid
      exact hthread.of hstacked hplanted hthread.pending (Nat.le_refl _) (hfresh tid)
    · have hthread := h.threads tid'
      exact hthread.of hthread.stacked rfl hthread.pending (Nat.le_refl _) (hfresh tid')
  · obtain ⟨tid', p, hp, rfl⟩ := h.hooks s hs honce
    exact ⟨tid', p, by rwa [planted_setThread hplanted], rfl⟩

theorem Inv.onHit_enter (h : Inv t) (tid : Tid) (x0 : UInt64) (f : Observed) :
    Inv (t.onHit tid x0 (.enter f)) := by
  unfold State.onHit
  split
  · next f heq =>
      obtain rfl := OnHit.enter.inj heq
      split
      · split
        · exact h
        · next htest =>
            refine h.setThread (.onEnter (fun hjni => ?_) (h.threads tid).stacked) rfl
            rw [hjni, Bool.true_and] at htest
            exact Bool.eq_false_iff.2 htest
      · exact h
  · next heq => exact absurd heq (by simp)

/-- At an address that no hook of the thread waits for, it stops for the entry of a function only. -/
theorem Inv.arrive (h : Inv t) {pc : UInt64} (hclear : ∀ p ∈ planted (t.threads tid), p.1 ≠ pc)
    (x0 : UInt64) (armed : Bool) : Inv (t.arrive tid pc x0 armed) := by
  unfold State.arrive
  split
  · exact h
  · next s hfind =>
      have hs := List.mem_of_find?_eq_some hfind
      have haddr : s.address = pc := by simpa using List.find?_some hfind
      split
      · next htraps =>
          cases honce : s.once with
          | true =>
            obtain ⟨tid', p, hp, rfl⟩ := h.hooks s hs honce
            have htid : tid' = tid := by
              have hthis : p.2.tid = tid := by
                rw [Session.traps, if_pos honce] at htraps
                exact Subtype.ext (of_decide_eq_true htraps)
              rw [← (h.threads tid').tid p hp, hthis]
            subst htid
            exact absurd haddr (hclear p hp)
          | false =>
            obtain ⟨f, hf⟩ := h.entries s hs honce
            rw [hf]
            exact h.onHit_enter tid x0 f
      · exact h

theorem Inv.call (h : Inv t) {pc : UInt64} (hclear : ∀ p ∈ planted (t.threads tid), p.1 ≠ pc)
    (ret x0 : UInt64) (armed : Bool) : Inv (t.call tid pc ret x0 armed) := by
  have hplanted : planted (.call ret [] :: t.threads tid) = planted (t.threads tid) := rfl
  have hpushed := h.setThread (.call (by simp) (h.threads tid).stacked) hplanted
  refine hpushed.arrive (fun p hp => hclear p ?_) x0 armed
  rwa [planted_setThread hplanted] at hp

theorem Inv.jump (h : Inv t) {pc x0 : UInt64} {armed : Bool} (hclear : Clear t (.jump tid pc x0 armed)) :
    Inv (t.jump tid pc x0 armed) := by
  unfold State.jump
  split
  · next ret hooks rest hframes => exact h.arrive (hclear ret hooks rest hframes) x0 armed
  · exact h

theorem Inv.done (h : Inv t) (tid : Tid) : Inv (t.done tid) := by
  unfold State.done
  split
  · next f rest hframes =>
      have hstacked := (h.threads tid).stacked
      rw [hframes] at hstacked
      exact h.setThread hstacked.of_onLeave (by rw [hframes]; rfl)
  · exact h

/-- A new session that is no hook, or that of a new hook, at a free address. -/
theorem nodup_concat {sessions : List Session} {config : Session}
    (hnodup : (sessions.map Session.address).Nodup)
    (hfree : ∀ s ∈ sessions, s.address ≠ config.address) :
    ((sessions ++ [config]).map Session.address).Nodup := by
  rw [List.map_append, List.map_singleton, ← List.concat_eq_append, List.nodup_concat]
  refine ⟨fun hmem => ?_, hnodup⟩
  obtain ⟨s, hs, haddr⟩ := List.mem_map.1 hmem
  exact hfree s hs haddr

theorem Inv.plantHook (h : Inv t) {hk : Hook} {ret : UInt64} (hid : hk.id = t.nextHook)
    (htid : hk.tid = tid) (hfree : ∀ s ∈ t.sessions, s.address ≠ ret)
    (hstacked : Stacked frames inside)
    (hplanted : planted frames = (ret, hk) :: planted (t.threads tid)) :
    Inv { t.setThread tid frames inside with
      sessions := t.sessions ++ [hk.session ret], nextHook := t.nextHook + 1 } := by
  have hpending : ∀ tid', ∀ p ∈ planted (t.threads tid'),
      p.2.session p.1 ∈ t.sessions ++ [hk.session ret] :=
    fun tid' p hp => List.mem_append_left _ ((h.threads tid').pending p hp)
  have hnotReturned : hk ∉ t.returned.map Prod.fst := by
    intro hmem
    obtain ⟨r, hr, rfl⟩ := List.mem_map.1 hmem
    exact absurd (h.returned_lt r hr) (by rw [hid]; exact Nat.lt_irrefl _)
  have hkeep : ∀ tid', ∀ p ∈ planted (t.threads tid'),
      p ∈ planted ((t.setThread tid frames inside).threads tid') := by
    refine forall_setThread
      (P := fun tid' frames' _ => ∀ p ∈ planted (t.threads tid'), p ∈ planted frames') ?_
      (fun _ _ _ hp => hp)
    intro p hp
    rw [hplanted]
    exact List.mem_cons_of_mem _ hp
  refine ⟨?_, nodup_concat h.addresses hfree, fun s hs honce => ?_, fun s hs honce => ?_,
    h.reported, h.nodup, fun r hr => Nat.lt_succ_of_lt (h.returned_lt r hr)⟩
  · refine forall_setThread (P := ThreadInv _) ?_ (fun tid' _ => ?_)
    · have hthread := h.threads tid
      refine ⟨hstacked, ?_, ?_, ?_, ?_⟩ <;> rw [hplanted]
      · exact List.forall_mem_cons.2 ⟨List.mem_append_right _ List.mem_cons_self, hpending tid⟩
      · refine List.nodup_cons.2 ⟨fun hmem => ?_, hthread.nodup⟩
        obtain ⟨p, hp, rfl⟩ := List.mem_map.1 hmem
        exact absurd (hthread.fresh p hp).1 (by rw [hid]; exact Nat.lt_irrefl _)
      · exact List.forall_mem_cons.2 ⟨htid, hthread.tid⟩
      · refine List.forall_mem_cons.2 ⟨⟨?_, hnotReturned⟩, fun p hp => ?_⟩
        · rw [hid]
          exact Nat.lt_succ_self _
        · exact ⟨Nat.lt_succ_of_lt (hthread.fresh p hp).1, (hthread.fresh p hp).2⟩
    · have hthread := h.threads tid'
      exact hthread.of hthread.stacked rfl (hpending tid') (Nat.le_succ _)
        (fun p hp => (hthread.fresh p hp).2)
  · rcases List.mem_append.1 hs with hs | hs
    · obtain ⟨tid', p, hp, hsession⟩ := h.hooks s hs honce
      exact ⟨tid', p, hkeep tid' p hp, hsession⟩
    · refine ⟨tid, (ret, hk), ?_, List.mem_singleton.1 hs⟩
      simp only [State.setThread, Function.update_self]
      rw [hplanted]
      exact List.mem_cons_self
  · rcases List.mem_append.1 hs with hs | hs
    · exact h.entries s hs honce
    · rw [List.mem_singleton.1 hs] at honce
      exact absurd honce (by simp [Hook.session])

theorem Inv.returnHook (h : Inv t) {hk : Hook} {ret : UInt64} (x0 : UInt64)
    (hstacked : Stacked frames inside)
    (hplanted : planted (t.threads tid) = (ret, hk) :: planted frames) :
    Inv { t.setThread tid frames inside with
      sessions := t.sessions.eraseP (fun s => s.address = ret)
      reports := t.reports ++ [(hk, x0)]
      returned := t.returned ++ [(hk, x0)] } := by
  have hmem := mem_eraseP_address h.addresses ret
  have hhead : (ret, hk) ∈ planted (t.threads tid) := by
    rw [hplanted]
    exact List.mem_cons_self
  have hsession := (h.threads tid).pending _ hhead
  have hnodup := (h.threads tid).nodup
  rw [hplanted, List.map_cons, List.nodup_cons] at hnodup
  -- two hooks at one address are one session, and one hook
  have hother : ∀ tid', ∀ p ∈ planted (t.threads tid'), p.2 ≠ hk →
      p.2.session p.1 ∈ t.sessions.eraseP (fun s => s.address = ret) := by
    intro tid' p hp hne
    have hpsession := (h.threads tid').pending p hp
    refine (hmem _).2 ⟨hpsession, fun haddr => hne ?_⟩
    have hsame := session_unique h.addresses hpsession hsession haddr
    exact OnHit.leave.inj (congrArg Session.onHit hsame)
  have hreturned : ∀ tid', ∀ p ∈ planted (t.threads tid'), p.2 ≠ hk →
      p.2 ∉ (t.returned ++ [(hk, x0)]).map Prod.fst := by
    intro tid' p hp hne
    rw [List.map_append, List.mem_append, not_or]
    exact ⟨((h.threads tid').fresh p hp).2, by simpa using hne⟩
  -- the hooks that stay: those below it, and those of the other threads
  have htail : ∀ p ∈ planted frames, p ∈ planted (t.threads tid) ∧ p.2 ≠ hk := by
    intro p hp
    constructor
    · rw [hplanted]
      exact List.mem_cons_of_mem _ hp
    · intro heq
      have hp2 : p.2 ∈ (planted frames).map Prod.snd := List.mem_map_of_mem hp
      rw [heq] at hp2
      exact hnodup.1 hp2
  have hforeign : ∀ tid', tid' ≠ tid → ∀ p ∈ planted (t.threads tid'), p.2 ≠ hk := by
    intro tid' htid' p hp heq
    refine htid' (((h.threads tid').tid p hp).symm.trans ?_)
    rw [heq]
    exact (h.threads tid).tid _ hhead
  have hkeep : ∀ tid', ∀ p ∈ planted (t.threads tid'), p.1 ≠ ret →
      p ∈ planted ((t.setThread tid frames inside).threads tid') := by
    refine forall_setThread
      (P := fun tid' frames' _ => ∀ p ∈ planted (t.threads tid'), p.1 ≠ ret → p ∈ planted frames') ?_
      (fun _ _ _ hp _ => hp)
    intro p hp hne
    rw [hplanted] at hp
    rcases List.mem_cons.1 hp with rfl | hp
    · exact absurd rfl hne
    · exact hp
  refine ⟨?_, h.addresses.sublist (List.eraseP_sublist.map _), fun s hs honce => ?_,
    fun s hs => h.entries s ((hmem s).1 hs).1, ?_, ?_, ?_⟩
  · refine forall_setThread (P := ThreadInv _) ?_ (fun tid' htid' => ?_)
    · have hthread := h.threads tid
      exact ⟨hstacked, fun p hp => hother tid p (htail p hp).1 (htail p hp).2, hnodup.2,
        fun p hp => hthread.tid p (htail p hp).1,
        fun p hp => ⟨(hthread.fresh p (htail p hp).1).1,
          hreturned tid p (htail p hp).1 (htail p hp).2⟩⟩
    · have hthread := h.threads tid'
      have hne := hforeign tid' htid'
      exact hthread.of hthread.stacked rfl (fun p hp => hother tid' p hp (hne p hp)) (Nat.le_refl _)
        (fun p hp => hreturned tid' p hp (hne p hp))
  · obtain ⟨hs, haddr⟩ := (hmem s).1 hs
    obtain ⟨tid', p, hp, rfl⟩ := h.hooks s hs honce
    exact ⟨tid', p, hkeep tid' p hp haddr, rfl⟩
  · rw [h.reported]
  · rw [List.map_append, List.map_singleton, ← List.concat_eq_append, List.nodup_concat]
    exact ⟨((h.threads tid).fresh _ hhead).2, h.nodup⟩
  · intro r hr
    rcases List.mem_append.1 hr with hr | hr
    · exact h.returned_lt r hr
    · rw [List.mem_singleton.1 hr]
      exact ((h.threads tid).fresh _ hhead).1

theorem Inv.plant (h : Inv t) {ok : Bool} (hclear : Clear t (.plant tid ok)) :
    Inv (t.plant tid ok) := by
  unfold State.plant
  split
  · next f ret hooks rest hframes =>
      have hthread := h.threads tid
      rw [hframes] at hthread
      obtain ⟨hguard, hstacked⟩ := hthread.stacked.of_onEnter
      obtain ⟨hhooks, hrest⟩ := hstacked.of_call
      dsimp only
      split
      · next sessions hattach =>
          have hplants : f.plants ret = true := by
            by_contra hnot
            rw [if_neg hnot] at hattach
            exact absurd hattach (by simp)
          rw [if_pos hplants] at hattach
          have hfree := hclear f ret hooks rest hframes hplants
          obtain ⟨-, rfl⟩ := attach_of_free hfree ok hattach
          exact h.plantHook rfl rfl hfree
            (.call (List.forall_mem_cons.2 ⟨hguard, hhooks⟩) hrest) (by rw [hframes]; rfl)
      · exact h.setThread hstacked (by rw [hframes]; rfl)
  · exact h

theorem Inv.hooks_of_call (h : Inv t) {ret : UInt64} {hooks : List Hook} {rest : List Frame}
    (hframes : t.threads tid = .call ret hooks :: rest) : hooks = [] ∨ ∃ hk, hooks = [hk] := by
  have hthread := h.threads tid
  rw [hframes] at hthread
  rcases hooks with _ | ⟨hk, _ | ⟨hk', hooks⟩⟩
  · exact Or.inl rfl
  · exact Or.inr ⟨hk, rfl⟩
  · have hsame := session_unique h.addresses (hthread.pending (ret, hk) (by simp))
        (hthread.pending (ret, hk') (by simp)) rfl
    obtain rfl : hk = hk' := OnHit.leave.inj (congrArg Session.onHit hsame)
    have hnodup := hthread.nodup
    simp at hnodup

theorem Inv.arrive_hook (h : Inv t) {hk : Hook} {ret : UInt64} {rest : List Frame}
    (hframes : t.threads tid = .call ret [hk] :: rest) (x0 : UInt64) (armed : Bool) :
    Inv ({ t.setThread tid rest (t.insideJniTracer tid) with
      returned := t.returned ++ [(hk, x0)] }.arrive tid ret x0 armed) := by
  have hthread := h.threads tid
  rw [hframes] at hthread
  obtain ⟨hhooks, hrest⟩ := hthread.stacked.of_call
  have hguard := hhooks hk List.mem_cons_self
  have hfind := find?_address h.addresses (hthread.pending (ret, hk) (by simp))
  have htraps : (hk.session ret).traps tid armed = true := by
    rw [Session.traps, if_pos (show (hk.session ret).once = true from rfl)]
    exact decide_eq_true (congrArg Subtype.val (hthread.tid (ret, hk) (by simp)))
  have hoff : (hk.f.isJni && t.insideJniTracer tid) = false := by
    cases hjni : hk.f.isJni with
    | true => rw [hguard hjni, Bool.true_and]
    | false => rfl
  have hhit := h.returnHook x0 (.onLeave hguard hrest) (by rw [hframes]; rfl)
  unfold State.arrive
  rw [show (State.sessions { t.setThread tid rest (t.insideJniTracer tid) with
      returned := t.returned ++ [(hk, x0)] }).find? (fun s => s.address = ret) =
    some (hk.session ret) from hfind]
  simp only [htraps]
  simpa [State.onHit, State.enterCallback, State.setThread, Hook.session, hoff] using hhit

theorem Inv.ret (h : Inv t) {x0 : UInt64} {armed : Bool} (hclear : Clear t (.ret tid x0 armed)) :
    Inv (t.ret tid x0 armed) := by
  unfold State.ret
  split
  · next ret hooks rest hframes =>
      rcases h.hooks_of_call hframes with rfl | ⟨hk, rfl⟩
      · have hplanted : planted rest = planted (t.threads tid) := by
          rw [hframes]
          rfl
        have hstacked := (h.threads tid).stacked
        rw [hframes] at hstacked
        have hpopped := h.setThread hstacked.of_call.2 hplanted
        rw [List.map_nil, List.append_nil]
        refine hpopped.arrive (fun p hp => hclear ret [] rest hframes p ?_) x0 armed
        rwa [planted_setThread hplanted, ← hplanted] at hp
      · exact h.arrive_hook hframes x0 armed
  · exact h

theorem Inv.withSessions (h : Inv t) {sessions : List Session}
    (haddresses : (sessions.map Session.address).Nodup)
    (hkeep : ∀ s ∈ t.sessions, s.once = true → s ∈ sessions)
    (hnew : ∀ s ∈ sessions, s ∈ t.sessions ∨ s.once = false ∧ ∃ f, s.onHit = .enter f) :
    Inv { t with sessions } := by
  refine ⟨fun tid => ?_, haddresses, fun s hs honce => ?_, fun s hs honce => ?_, h.reported, h.nodup,
    h.returned_lt⟩
  · have hthread := h.threads tid
    exact hthread.of hthread.stacked rfl (fun p hp => hkeep _ (hthread.pending p hp) rfl)
      (Nat.le_refl _) (fun p hp => (hthread.fresh p hp).2)
  · rcases hnew s hs with hs | ⟨hoff, -⟩
    · exact h.hooks s hs honce
    · exact absurd (hoff.symm.trans honce) (by simp)
  · rcases hnew s hs with hs | ⟨-, hf⟩
    · exact h.entries s hs honce
    · exact hf

theorem Inv.watch (h : Inv t) {address : UInt64} {f : Observed} {ok : Bool}
    (hclear : Clear t (.watch address f ok)) : Inv (t.watch address f ok) := by
  unfold State.watch
  split
  · next sessions hattach =>
      have hne : address ≠ 0 := by
        rintro rfl
        simp [attach, entrySession] at hattach
      by_cases hfree : ∀ s ∈ t.sessions, s.address ≠ (entrySession address f).address
      · obtain ⟨-, rfl⟩ := attach_of_free hfree ok hattach
        refine h.withSessions (nodup_concat h.addresses hfree)
          (fun s hs _ => List.mem_append_left _ hs) (fun s hs => ?_)
        rcases List.mem_append.1 hs with hs | hs
        · exact Or.inl hs
        · rw [List.mem_singleton.1 hs]
          exact Or.inr ⟨rfl, f, rfl⟩
      · push Not at hfree
        obtain ⟨s, hs, haddr⟩ := hfree
        have honce := hclear hne s hs haddr
        obtain ⟨sessions', hreuse, haddresses, hmem⟩ := reuse_of_mem h.addresses (entrySession address f) hs haddr
        rw [attach, if_neg (show (entrySession address f).address ≠ 0 from hne), hreuse] at hattach
        obtain rfl : sessions' = sessions := Option.some.inj hattach
        refine h.withSessions (by rw [haddresses]; exact h.addresses) (fun s' hs' honce' => ?_)
          (fun s' hs' => ?_)
        · refine (hmem s').2 (Or.inr ⟨hs', fun haddr' => ?_⟩)
          rw [session_unique h.addresses hs' hs (haddr'.trans haddr.symm), honce] at honce'
          exact absurd honce' (by simp)
        · rcases (hmem s').1 hs' with rfl | ⟨hs', -⟩
          · exact Or.inr ⟨honce, f, rfl⟩
          · exact Or.inl hs'
  · exact h

theorem Inv.step (h : Inv t) {e : Event} (hclear : Clear t e) : Inv (t.step e) := by
  cases e with
  | watch address f ok => exact h.watch hclear
  | call tid pc ret x0 armed => exact h.call hclear ret x0 armed
  | jump tid pc x0 armed => exact h.jump hclear
  | fallback tid loaded => exact h.onHit_enter tid 0 (.dlopen loaded)
  | plant tid ok => exact h.plant hclear
  | ret tid x0 armed => exact h.ret hclear
  | done tid => exact h.done tid

/-! ## Where the condition fails -/

theorem planted_enterCallback (t : State) (tid : Tid) (f : Observed) {frame : Frame}
    (hframe : planted (frame :: t.threads tid) = planted (t.threads tid)) :
    planted ((t.enterCallback tid f frame).threads tid) = planted (t.threads tid) :=
  planted_setThread hframe tid

/-- A callback that begins leaves the hooks of its thread as they are, and the sessions. -/
theorem onHit_keeps (t : State) (tid : Tid) (x0 : UInt64) (hit : OnHit) :
    (t.onHit tid x0 hit).sessions = t.sessions ∧
      planted ((t.onHit tid x0 hit).threads tid) = planted (t.threads tid) := by
  cases hit with
  | enter f =>
    simp only [State.onHit]
    split
    · split
      · exact ⟨rfl, rfl⟩
      · exact ⟨rfl, planted_enterCallback t tid f rfl⟩
    · exact ⟨rfl, rfl⟩
  | leave h =>
    simp only [State.onHit]
    split
    · exact ⟨rfl, rfl⟩
    · exact ⟨rfl, planted_enterCallback t tid h.f rfl⟩

/-- Another arrival at the address takes the session of the hook. -/
theorem not_attributed_arrive (haddresses : (t.sessions.map Session.address).Nodup)
    {p : UInt64 × Hook} (hp : p ∈ planted (t.threads tid)) (hsession : p.2.session p.1 ∈ t.sessions)
    (htid : p.2.tid = tid) (x0 : UInt64) (armed : Bool) :
    ¬ Attributed (t.arrive tid p.1 x0 armed) := by
  intro hattributed
  have hfind : t.sessions.find? (fun s => s.address = p.1) = some (p.2.session p.1) :=
    find?_address haddresses hsession
  have htraps : (p.2.session p.1).traps tid armed = true := by
    rw [Session.traps, if_pos (show (p.2.session p.1).once = true from rfl)]
    exact decide_eq_true (congrArg Subtype.val htid)
  have harrive : t.arrive tid p.1 x0 armed =
      State.onHit { t with sessions := t.sessions.eraseP (fun s => s.address = p.1) } tid x0
        (.leave p.2) := by
    unfold State.arrive
    rw [hfind]
    simp only [htraps]
    rfl
  rw [harrive] at hattributed
  obtain ⟨hsessions, hplanted⟩ := onHit_keeps
    { t with sessions := t.sessions.eraseP (fun s => s.address = p.1) } tid x0 (.leave p.2)
  have hpending := hattributed.pending tid p (by rw [hplanted]; exact hp)
  rw [hsessions, mem_eraseP_address haddresses] at hpending
  exact hpending.2 rfl

/-- The hook of a call and the hook of another one that takes its session cannot both wait. -/
theorem Inv.not_attributed_plant (h : Inv t) {f : Observed} {ret : UInt64} {hooks : List Hook}
    {rest : List Frame} (hframes : t.threads tid = .onEnter f :: .call ret hooks :: rest)
    (hplants : f.plants ret = true) {s : Session} (hs : s ∈ t.sessions) (haddr : s.address = ret)
    (ok : Bool) : ¬ Attributed (t.plant tid ok) := by
  have hne : ret ≠ 0 := by
    rintro rfl
    cases f <;> simp [Observed.plants] at hplants
  let hk : Hook := ⟨tid, t.nextHook, f⟩
  obtain ⟨sessions', hreuse, -, hmem⟩ := reuse_of_mem h.addresses (hk.session ret) hs haddr
  have hplant : t.plant tid ok =
      { t.setThread tid (.call ret (hk :: hooks) :: rest) (!f.isJni && t.insideJniTracer tid) with
        sessions := sessions', nextHook := t.nextHook + 1 } := by
    unfold State.plant
    simp only [hframes, hplants, if_true]
    rw [attach, if_neg (show (hk.session ret).address ≠ 0 from hne), hreuse]
  rw [hplant]
  intro hattributed
  have hpending : ∀ p ∈ planted (.call ret (hk :: hooks) :: rest), p.2.session p.1 ∈ sessions' := by
    have hpending := hattributed.pending tid
    simpa only [State.setThread, Function.update_self] using hpending
  have htaken : ∀ p ∈ planted (.call ret (hk :: hooks) :: rest), p.1 = ret →
      p.2.session p.1 = { s with onHit := .leave hk } := by
    intro p hp hret
    exact ((hmem _).1 (hpending p hp)).resolve_right (fun hother => hother.2 hret)
  have hhk := htaken (ret, hk) List.mem_cons_self rfl
  -- the session is that of an older hook of this thread, which is now without one
  have honce : s.once = true := (congrArg Session.once hhk).symm
  obtain ⟨tid', p, hp, rfl⟩ := h.hooks s hs honce
  have htid : tid' = tid := by
    rw [← (h.threads tid').tid p hp]
    exact Subtype.ext (congrArg Session.threadId hhk).symm
  subst htid
  have hlt := ((h.threads tid').fresh p hp).1
  rw [hframes] at hp
  have hold := htaken p (List.mem_cons_of_mem _ hp) haddr
  have heq : p.2 = hk := OnHit.leave.inj (congrArg Session.onHit hold)
  rw [heq] at hlt
  exact Nat.lt_irrefl _ hlt

/-- A function that is observed at the address of a hook takes its session. -/
theorem Inv.not_attributed_watch (h : Inv t) {address : UInt64} (hne : address ≠ 0) {s : Session}
    (hs : s ∈ t.sessions) (haddr : s.address = address) (honce : s.once = true) (f : Observed)
    (ok : Bool) : ¬ Attributed (t.watch address f ok) := by
  obtain ⟨sessions', hreuse, -, hmem⟩ :=
    reuse_of_mem h.addresses (entrySession address f) hs haddr
  have hwatch : t.watch address f ok = { t with sessions := sessions' } := by
    unfold State.watch
    rw [attach, if_neg (show (entrySession address f).address ≠ 0 from hne), hreuse]
  rw [hwatch]
  intro hattributed
  obtain ⟨tid, p, hp, rfl⟩ := h.hooks s hs honce
  have htaken := ((hmem _).1 (hattributed.pending tid p hp)).resolve_right
    (fun hother => hother.2 haddr)
  exact absurd (congrArg Session.onHit htaken) (by simp [Hook.session, entrySession])

/-- Where the condition fails, a hook has lost its session, or shares it with another call. -/
theorem Inv.not_attributed (h : Inv t) {e : Event} (hclear : ¬ Clear t e) :
    ¬ Attributed (t.step e) := by
  cases e with
  | fallback tid loaded => exact absurd trivial hclear
  | done tid => exact absurd trivial hclear
  | call tid pc ret x0 armed =>
    simp only [Clear] at hclear
    push Not at hclear
    obtain ⟨p, hp, rfl⟩ := hclear
    have hplanted : planted (.call ret [] :: t.threads tid) = planted (t.threads tid) := rfl
    have hthread := h.threads tid
    refine not_attributed_arrive
      (t := t.setThread tid (.call ret [] :: t.threads tid) (t.insideJniTracer tid))
      h.addresses ?_ (hthread.pending p hp) (hthread.tid p hp) x0 armed
    rwa [planted_setThread hplanted]
  | jump tid pc x0 armed =>
    simp only [Clear] at hclear
    push Not at hclear
    obtain ⟨ret, hooks, rest, hframes, p, hp, rfl⟩ := hclear
    have hthread := h.threads tid
    simp only [State.step, State.jump, hframes]
    exact not_attributed_arrive h.addresses hp (hthread.pending p hp) (hthread.tid p hp) x0 armed
  | ret tid x0 armed =>
    simp only [Clear] at hclear
    push Not at hclear
    obtain ⟨ret, hooks, rest, hframes, p, hp, rfl⟩ := hclear
    have hthread := h.threads tid
    rw [hframes] at hthread
    have hmem : p ∈ planted (.call p.1 hooks :: rest) := List.mem_append_right _ hp
    simp only [State.step, State.ret, hframes]
    refine not_attributed_arrive
      (t := { t.setThread tid rest (t.insideJniTracer tid) with
        returned := t.returned ++ hooks.map (fun h => (h, x0)) })
      h.addresses ?_ (hthread.pending p hmem) (hthread.tid p hmem) x0 armed
    simp only [State.setThread, Function.update_self]
    exact hp
  | plant tid ok =>
    simp only [Clear] at hclear
    push Not at hclear
    obtain ⟨f, ret, hooks, rest, hframes, hplants, s, hs, haddr⟩ := hclear
    exact h.not_attributed_plant hframes hplants hs haddr ok
  | watch address f ok =>
    simp only [Clear] at hclear
    push Not at hclear
    obtain ⟨hne, s, hs, haddr, honce⟩ := hclear
    exact h.not_attributed_watch hne hs haddr (by simpa using honce) f ok

end

/-! ## Runs -/

/-- For every run of observed functions being entered and returning on any threads: each return hook
    reports the return of its own call, once, in all states of the run iff every event is clear. -/
theorem attributed_iff_clear (events : List Event) :
    (∀ k, Attributed (run State.step {} (events.take k))) ↔ Along State.step Clear {} events :=
  (Along.iff_forall_take_of_breaks (fun _ h => h.attributed) (fun _ _ h => h.step)
    (fun _ _ h => h.not_attributed) inv_init).symm

/-- A library whose constructor loads another one, from the same call site. -/
def nestedLoad : List Event :=
  let tid : Tid := ⟨7, by decide⟩
  [.watch 0x7000 (.dlopen true) true,
    .call tid 0x7000 0x5004 0x100 true, .plant tid true,
    .call tid 0x7000 0x5004 0x200 true, .plant tid true,
    .ret tid 0xb0 true, .done tid, .ret tid 0xa0 true]

/-- The outer load has returned and is not reported. -/
theorem nestedLoad_not_attributed :
    (run State.step {} nestedLoad).returned.map (fun r => (r.1.id, r.2)) = [(1, 0xb0), (0, 0xa0)] ∧
      (run State.step {} nestedLoad).reports.map (fun r => (r.1.id, r.2)) = [(1, 0xb0)] ∧
      ¬ ∀ k, Attributed (run State.step {} (nestedLoad.take k)) := by
  have hreturned : (run State.step {} nestedLoad).returned.map (fun r => (r.1.id, r.2)) =
      [(1, 0xb0), (0, 0xa0)] := by decide
  have hreports : (run State.step {} nestedLoad).reports.map (fun r => (r.1.id, r.2)) =
      [(1, 0xb0)] := by decide
  refine ⟨hreturned, hreports, fun h => ?_⟩
  have hsame := (h nestedLoad.length).reported
  rw [List.take_length] at hsame
  rw [hsame, hreturned] at hreports
  exact absurd hreports (by decide)

end ArtPi.HwHook.Returns
