import ArtPi.HwHook.Slots

set_option autoImplicit false

/-! # The ids of hooks (`src/agent/agent_hw_hook.cpp`)

The agent hands out ids from two counters: a session of the manager has one of `next_id_`, and an inline hook that
stands in for a breakpoint one of `g_nextFallbackId`, which starts at 10000. `DetachSessionOrFallback` tells them apart
by that number. `next_id_` also moves on for every breakpoint that is set for a moment only, and for every one that
could not be set on any thread.

A hook is known by the object behind it here, and `handedOut` is what callers were told; no function reads it. -/

namespace ArtPi.HwHook

open ArtPi.Lib HwHookManager

/-- A session of the manager or an inline hook. -/
inductive Hook where
  | session (ref : Nat)
  | fallback (handle : Nat)
  deriving DecidableEq

structure FallbackHookRecord where
  id : Nat
  address : Nat
  tag : String
  /-- the listener behind the `NativeHookHandle` -/
  handle : Nat

def HwHookSession.name (s : HwHookSession) : Nat × Hook := (s.id, .session s.ref)

def FallbackHookRecord.name (f : FallbackHookRecord) : Nat × Hook := (f.id, .fallback f.handle)

@[simp] theorem HwHookSession.name_fst (s : HwHookSession) : s.name.1 = s.id := rfl

@[simp] theorem FallbackHookRecord.name_fst (f : FallbackHookRecord) : f.name.1 = f.id := rfl

namespace HwHookManager

variable (m : HwHookManager)

/-- `attach` makes a session. -/
def creates (config : HwHookConfig) (tids armable : List Nat) : Bool :=
  !(config.address = 0 || !config.onHit) &&
    !m.sessions.any (fun s => s.active && s.config.address = config.address && s.config.type = config.type) &&
    (m.allocateSlot config.type config.slot).isSome &&
    !((if config.threadId > 0 then [config.threadId] else tids).filter (· ∈ armable) = [] &&
      (if config.threadId > 0 then [config.threadId] else tids) ≠ [])

/-- The session whose id `attach` returns. Without one it returns 0. -/
def attachReturns (config : HwHookConfig) (tids armable : List Nat) : Option HwHookSession :=
  if config.address = 0 || !config.onHit then none
  else
    match m.sessions.find? (fun s => s.active && s.config.address = config.address &&
        s.config.type = config.type) with
    | some s => some s
    | none =>
      match m.allocateSlot config.type config.slot with
      | none => none
      | some slot =>
        let wanted := if config.threadId > 0 then [config.threadId] else tids
        let armed := wanted.filter (· ∈ armable)
        if armed = [] ∧ wanted ≠ [] then none
        else some { ref := m.nextRef, id := m.nextId, config, assignedSlot := slot, armedThreads := armed }

end HwHookManager

/-- The manager, the tags of its sessions, and the inline hooks. -/
structure HwAgent where
  manager : HwHookManager := {}
  tags : Nat → String := fun _ => ""
  fallbackHooks : List FallbackHookRecord := []
  nextFallbackId : Nat := 10000
  nextHandle : Nat := 0
  handedOut : List (Nat × Hook) := []

/-- What the environment says to an `ArmBreakpointOrFallback`: `init`, the threads there are and those that can be
    armed, and the two answers the inline hook needs. -/
structure Arming where
  init : Bool := true
  tids : List Nat
  armable : List Nat
  readable : Bool
  hooked : Bool

namespace HwAgent

variable (a : HwAgent)

/-- `HwHookManager::attach`, with what it returns. -/
def attach (config : HwHookConfig) (tag : String) (tids armable : List Nat) : HwAgent × Nat :=
  let returned := a.manager.attachReturns config tids armable
  ({ a with
     manager := a.manager.attach config tids armable
     tags := match returned with
       | some s => if tag = "" then a.tags else Function.update a.tags s.ref tag
       | none => a.tags
     handedOut := a.handedOut ++ returned.toList.map HwHookSession.name },
   (returned.map HwHookSession.id).getD 0)

/-- `ArmBreakpointOrFallback` behind the attach that failed, with what `gum_memory_is_readable` and `GumHooker::hook`
    say. -/
def fallback (target : Nat) (tag : String) (readable hooked : Bool) : HwAgent × Nat :=
  if !readable then (a, 0)
  else if !hooked then (a, 0)
  else
    ({ a with
       fallbackHooks := a.fallbackHooks ++
         [⟨a.nextFallbackId, target, tag ++ " (Gum Inline Fallback)", a.nextHandle⟩]
       nextFallbackId := (a.nextFallbackId + 1) % 2 ^ 32
       nextHandle := a.nextHandle + 1
       handedOut := a.handedOut ++ [(a.nextFallbackId, .fallback a.nextHandle)] },
     a.nextFallbackId)

/-- The attach of `ArmBreakpointOrFallback`. -/
def tryAttach (target : Nat) (tag : String) (env : Arming) : HwAgent × Nat :=
  if env.init then a.attach (breakAt target) tag env.tids env.armable else (a, 0)

def armBreakpointOrFallback (target : Nat) (tag : String) (env : Arming) : HwAgent × Nat :=
  let r := a.tryAttach target tag env
  if 0 < r.2 then r else r.1.fallback target tag env.readable env.hooked

def detachSessionOrFallback (id : Nat) : HwAgent × Bool :=
  if id < 10000 then
    ({ a with manager := a.manager.detach id }, (a.manager.sessions.find? (fun s => s.id = id)).isSome)
  else
    ({ a with fallbackHooks := a.fallbackHooks.eraseP (fun f => f.id = id) },
     a.fallbackHooks.any (fun f => f.id = id))

/-- An operation of the manager, which hands out an id if it attaches. -/
def manage (op : Op) (tag : String) : HwAgent :=
  match op with
  | .attach config tids armable => (a.attach config tag tids armable).1
  | op => { a with manager := HwHook.step a.manager op }

/-- The hooks that are there, with their ids. -/
def live : List (Nat × Hook) :=
  (a.manager.sessions.filter HwHookSession.active).map HwHookSession.name ++
    a.fallbackHooks.map FallbackHookRecord.name

end HwAgent

/-- What holds a lock: an operation of the manager, the push of an inline hook, the search for one, and the loop of
    `HwHookDetachAll` over them. -/
inductive Call where
  | manager (op : Op) (tag : String)
  | fallback (target : Nat) (tag : String) (readable hooked : Bool)
  | detachSessionOrFallback (id : Nat)
  | clearFallbackHooks

def HwAgent.step (a : HwAgent) : Call → HwAgent
  | .manager op tag => a.manage op tag
  | .fallback target tag readable hooked => (a.fallback target tag readable hooked).1
  | .detachSessionOrFallback id => (a.detachSessionOrFallback id).1
  | .clearFallbackHooks => { a with fallbackHooks := [] }

/-- Ids name hooks: a hook has an id that a caller was told and that is not the 0 of a failure, an id that was handed
    out is the id of no other hook, and `DetachSessionOrFallback` removes the hook an id was handed out for, if it is
    there, and nothing else. -/
structure IdsNameHooks (a : HwAgent) : Prop where
  told : ∀ q ∈ a.live, q ∈ a.handedOut ∧ 0 < q.1
  differs : ∀ p ∈ a.handedOut, ∀ q ∈ a.live, p.1 = q.1 → p = q
  detach : ∀ p ∈ a.handedOut, (a.detachSessionOrFallback p.1).1.live = a.live.erase p ∧
    (p ∈ a.live → (a.detachSessionOrFallback p.1).2 = true)

/-- An id that no caller was told yet. -/
def HwAgent.Unused (a : HwAgent) (id : Nat) : Prop := ∀ p ∈ a.handedOut, p.1 ≠ id

/-- A hook that is made gets an id that was not handed out before, on the side of 10000 that its kind has. -/
def Call.fresh (a : HwAgent) : Call → Prop
  | .manager (.attach config tids armable) _ => a.manager.creates config tids armable = true →
      0 < a.manager.nextId ∧ a.manager.nextId < 10000 ∧ a.Unused a.manager.nextId
  | .fallback _ _ readable hooked => readable = true → hooked = true →
      10000 ≤ a.nextFallbackId ∧ a.Unused a.nextFallbackId
  | _ => True

/-! ## What the manager does to its sessions -/

section

variable {m : HwHookManager} {s : HwHookSession}

theorem attach_spec (m : HwHookManager) (config : HwHookConfig) (tids armable : List Nat) :
    (m.creates config tids armable = true ∧ ∃ s, m.attachReturns config tids armable = some s ∧
      s.ref = m.nextRef ∧ s.id = m.nextId ∧ s.active = true ∧ s.config = config ∧
      (m.attach config tids armable).sessions = m.sessions ++ [s] ∧
      (m.attach config tids armable).nextRef = m.nextRef + 1) ∨
    (m.creates config tids armable = false ∧
      (∀ s, m.attachReturns config tids armable = some s →
        s ∈ m.sessions ∧ s.active = true ∧ s.config.address = config.address) ∧
      (m.attach config tids armable).sessions = m.sessions ∧
      m.nextRef ≤ (m.attach config tids armable).nextRef) := by
  unfold creates attachReturns HwHookManager.attach
  by_cases hbad : (config.address = 0 || !config.onHit) = true
  · right
    simp [hbad]
  rw [if_neg hbad, if_neg hbad]
  cases hfind : m.sessions.find? (fun s => s.active && s.config.address = config.address &&
      s.config.type = config.type) with
  | some s =>
    have hfound := List.find?_some hfind
    have hany : m.sessions.any (fun s => s.active && s.config.address = config.address &&
        s.config.type = config.type) = true :=
      List.any_eq_true.mpr ⟨s, List.mem_of_find?_eq_some hfind, hfound⟩
    right
    rw [hany, if_pos rfl]
    refine ⟨by simp, ?_, rfl, le_rfl⟩
    intro s' hs'
    obtain rfl := Option.some.inj hs'
    simp only [Bool.and_eq_true, decide_eq_true_eq] at hfound
    exact ⟨List.mem_of_find?_eq_some hfind, hfound.1.1, hfound.1.2⟩
  | none =>
    have hany : m.sessions.any (fun s => s.active && s.config.address = config.address &&
        s.config.type = config.type) = false := by
      rw [List.any_eq_false]
      exact List.find?_eq_none.mp hfind
    simp only [hany, Bool.false_eq_true, if_false]
    cases hslot : m.allocateSlot config.type config.slot with
    | none =>
      right
      simp
    | some slot =>
      dsimp only
      generalize (if config.threadId > 0 then [config.threadId] else tids) = wanted
      by_cases harm : wanted.filter (· ∈ armable) = [] ∧ wanted ≠ []
      · right
        rw [if_pos harm, if_pos harm]
        refine ⟨by simp [harm.1, harm.2], by simp, ?_, ?_⟩
        · unfold freeSlot setSlot
          split <;> rfl
        · unfold freeSlot setSlot
          split <;> exact Nat.le_succ _
      · left
        rw [if_neg harm, if_neg harm]
        refine ⟨?_, _, rfl, rfl, rfl, rfl, rfl, rfl, rfl⟩
        rw [not_and_or, not_not] at harm
        rcases harm with harm | harm <;> simp [harm, hbad]

theorem freeSlot_eq (m : HwHookManager) (type : HwHookType) (slot : Nat) :
    ∃ slots, m.freeSlot type slot = { m with slots := slots } := by
  unfold freeSlot setSlot
  split
  · exact ⟨_, rfl⟩
  · exact ⟨m.slots, rfl⟩

theorem updateFirst_names {ref : Nat} {f : HwHookSession → HwHookSession} (hf : ∀ s, (f s).name = s.name)
    (ss : List HwHookSession) :
    (updateFirst ref f ss).map HwHookSession.name = ss.map HwHookSession.name := by
  induction ss with
  | nil => rfl
  | cons s ss ih =>
    unfold updateFirst
    split
    · rw [List.map_cons, List.map_cons, hf]
    · rw [List.map_cons, List.map_cons, ih]

/-- What is no attach makes no session, and gives none another name. -/
structure Shrinks (m m' : HwHookManager) : Prop where
  names : (m'.sessions.map HwHookSession.name).Sublist (m.sessions.map HwHookSession.name)
  nextRef : m'.nextRef = m.nextRef

theorem Shrinks.of_eq {m' : HwHookManager}
    (hs : m'.sessions.map HwHookSession.name = m.sessions.map HwHookSession.name)
    (hr : m'.nextRef = m.nextRef) : Shrinks m m' :=
  ⟨hs ▸ List.Sublist.refl _, hr⟩

theorem update_shrinks (m' : HwHookManager) (ref : Nat) (f : HwHookSession → HwHookSession)
    (hf : ∀ s, (f s).name = s.name) (hs : m'.sessions = m.sessions) (hr : m'.nextRef = m.nextRef) :
    Shrinks m (m'.update ref f) := by
  refine .of_eq ?_ hr
  change (updateFirst ref f m'.sessions).map _ = _
  rw [updateFirst_names hf, hs]

theorem detach_shrinks (m : HwHookManager) (id : Nat) : Shrinks m (m.detach id) := by
  unfold HwHookManager.detach
  cases m.sessions.find? (fun s => s.id = id) with
  | none => exact .of_eq rfl rfl
  | some s =>
    obtain ⟨slots, hslots⟩ := release_eq m s
    dsimp only
    rw [hslots]
    exact ⟨List.eraseP_sublist.map _, rfl⟩

theorem enter_shrinks (m : HwHookManager) (tid : Tid) (faultAddr pcAddr memAddr : Nat) :
    Shrinks m (m.enter tid faultAddr pcAddr memAddr) := by
  unfold HwHookManager.enter
  cases m.sessions.find? (stepsOver tid faultAddr pcAddr) with
  | some s =>
    dsimp only
    split
    · exact update_shrinks _ _ _ (fun _ => rfl) rfl rfl
    · exact update_shrinks _ _ _ (fun _ => rfl) rfl rfl
  | none =>
    cases m.sessions.find? (hits faultAddr pcAddr memAddr) with
    | none => exact .of_eq rfl rfl
    | some s =>
      dsimp only
      split
      · obtain ⟨slots, hslots⟩ := freeSlot_eq m s.config.type s.assignedSlot
        rw [hslots]
        exact ⟨List.eraseP_sublist.map _, rfl⟩
      · exact .of_eq rfl rfl

theorem leave_shrinks (m : HwHookManager) (i insn : Nat) (ctx : CpuContext) :
    Shrinks m (m.leave i insn ctx) := by
  unfold HwHookManager.leave
  cases m.inFlight[i]? with
  | none => exact .of_eq rfl rfl
  | some flight =>
    dsimp only
    split
    · exact .of_eq rfl rfl
    cases m.sessions.find? (fun s => s.ref = flight.ref) with
    | none => exact .of_eq rfl rfl
    | some s =>
      dsimp only
      split
      · exact .of_eq rfl rfl
      split
      · exact .of_eq rfl rfl
      · exact update_shrinks _ _ _ (fun _ => rfl) rfl rfl
      · exact update_shrinks _ _ _ (fun _ => rfl) rfl rfl
      · have hupdate := update_shrinks (m := m) { m with inFlight := m.inFlight.eraseIdx i } s.ref
          (fun s => { s with active := false }) (fun _ => rfl) rfl rfl
        obtain ⟨slots, hslots⟩ := freeSlot_eq (HwHookManager.update
          { m with inFlight := m.inFlight.eraseIdx i } s.ref (fun s => { s with active := false }))
          s.config.type s.assignedSlot
        rw [hslots]
        exact ⟨hupdate.names, hupdate.nextRef⟩

theorem step_shrinks (m : HwHookManager) (op : Op) (hop : ∀ config tids armable, op ≠ .attach config tids armable) :
    Shrinks m (step m op) := by
  cases op with
  | attach config tids armable => exact absurd rfl (hop config tids armable)
  | detach id => exact detach_shrinks m id
  | detachAll =>
    obtain ⟨slots, hslots⟩ := foldl_release m.sessions m
    change Shrinks m m.detachAll
    unfold HwHookManager.detachAll
    rw [hslots]
    exact ⟨List.nil_sublist _, rfl⟩
  | refreshCapacity bp wp => exact .of_eq rfl rfl
  | rearmMissingThreads tids armable =>
    refine .of_eq ?_ rfl
    change ((m.sessions.map _).map HwHookSession.name) = _
    rw [List.map_map]
    refine List.map_congr_left (fun s _ => ?_)
    dsimp only [Function.comp]
    split <;> rfl
  | enter tid faultAddr pcAddr memAddr => exact enter_shrinks m tid faultAddr pcAddr memAddr
  | leave flight insn ctx => exact leave_shrinks m flight insn ctx

end

/-! ## The invariant -/

/-- The range an id is looked up in. -/
def Hook.Owns : Hook → Nat → Prop
  | .session _, id => 0 < id ∧ id < 10000
  | .fallback _, id => 10000 ≤ id

namespace HwAgent

/-- All records with their ids, those of sessions that are not active included. -/
def records (a : HwAgent) : List (Nat × Hook) :=
  a.manager.sessions.map HwHookSession.name ++ a.fallbackHooks.map FallbackHookRecord.name

/-- A number that the next hook of either kind has. -/
def Fresh (a : HwAgent) : Hook → Prop
  | .session ref => a.manager.nextRef ≤ ref
  | .fallback handle => a.nextHandle ≤ handle

structure Inv (a : HwAgent) : Prop where
  nodup : a.records.Nodup
  told : ∀ q ∈ a.records, q ∈ a.handedOut
  distinct : ∀ p ∈ a.handedOut, ∀ q ∈ a.handedOut, p.1 = q.1 → p = q
  owns : ∀ p ∈ a.handedOut, p.2.Owns p.1
  old : ∀ p ∈ a.handedOut, ¬ a.Fresh p.2

theorem Inv.init : Inv {} where
  nodup := List.nodup_nil
  told := by simp [records]
  distinct := by simp
  owns := by simp
  old := by simp

section

variable {a : HwAgent}

theorem live_sublist (a : HwAgent) : a.live.Sublist a.records :=
  (List.filter_sublist.map _).append (List.Sublist.refl _)

theorem Inv.record_eq (h : Inv a) {p q : Nat × Hook} (hp : p ∈ a.handedOut) (hq : q ∈ a.records)
    (hid : q.1 = p.1) : q = p :=
  h.distinct q (h.told q hq) p hp hid

theorem Inv.shrink (h : Inv a) {a' : HwAgent} (hrec : a'.records.Sublist a.records)
    (hout : a'.handedOut = a.handedOut) (href : a'.manager.nextRef = a.manager.nextRef)
    (hhandle : a'.nextHandle = a.nextHandle) : Inv a' := by
  have hfresh : ∀ k, a'.Fresh k ↔ a.Fresh k := by
    intro k
    cases k with
    | session r => unfold Fresh; rw [href]
    | fallback r => unfold Fresh; rw [hhandle]
  refine ⟨h.nodup.sublist hrec, ?_, ?_, ?_, ?_⟩
  · intro q hq
    rw [hout]
    exact h.told q (hrec.mem hq)
  · rw [hout]
    exact h.distinct
  · rw [hout]
    exact h.owns
  · intro p hp
    rw [hout] at hp
    rw [hfresh]
    exact h.old p hp

/-- A hook is made, with an id of its range that was not handed out. -/
theorem Inv.make (h : Inv a) {a' : HwAgent} {id : Nat} {k : Hook} (hk : a.Fresh k)
    (hrec : a'.records.Perm ((id, k) :: a.records)) (hout : a'.handedOut = a.handedOut ++ [(id, k)])
    (hold : ∀ k', a'.Fresh k' → k' ≠ k ∧ a.Fresh k') (howns : k.Owns id) (hunused : a.Unused id) : Inv a' := by
  have hnew : (id, k) ∉ a.handedOut := fun hmem => h.old _ hmem hk
  have hmem : ∀ p, p ∈ a'.handedOut ↔ p ∈ a.handedOut ∨ p = (id, k) := by
    intro p
    rw [hout, List.mem_append, List.mem_singleton]
  refine ⟨?_, ?_, ?_, ?_, ?_⟩
  · rw [hrec.nodup_iff, List.nodup_cons]
    exact ⟨fun hin => hnew (h.told _ hin), h.nodup⟩
  · intro q hq
    rw [hmem]
    rcases List.mem_cons.mp (hrec.mem_iff.mp hq) with rfl | hq
    · exact .inr rfl
    · exact .inl (h.told q hq)
  · intro p hp q hq hid
    rw [hmem] at hp hq
    rcases hp with hp | rfl <;> rcases hq with hq | rfl
    · exact h.distinct p hp q hq hid
    · exact absurd hid (hunused p hp)
    · exact absurd hid.symm (hunused q hq)
    · rfl
  · intro p hp
    rcases (hmem p).mp hp with hp | rfl
    · exact h.owns p hp
    · exact howns
  · intro p hp hfresh
    obtain ⟨hne, hfresh⟩ := hold p.2 hfresh
    rcases (hmem p).mp hp with hp | rfl
    · exact h.old p hp hfresh
    · exact hne rfl

theorem Inv.again (h : Inv a) {a' : HwAgent} (out : List (Nat × Hook)) (hrec : a'.records = a.records)
    (hout : a'.handedOut = a.handedOut ++ out) (hsub : ∀ p ∈ out, p ∈ a.records)
    (hold : ∀ k, a'.Fresh k → a.Fresh k) : Inv a' := by
  have hmem : ∀ p ∈ a'.handedOut, p ∈ a.handedOut := by
    intro p hp
    rw [hout] at hp
    rcases List.mem_append.mp hp with hp | hp
    · exact hp
    · exact h.told p (hsub p hp)
  refine ⟨hrec ▸ h.nodup, ?_, ?_, ?_, ?_⟩
  · intro q hq
    rw [hrec] at hq
    rw [hout]
    exact List.mem_append_left out (h.told q hq)
  · exact fun p hp q hq => h.distinct p (hmem p hp) q (hmem q hq)
  · exact fun p hp => h.owns p (hmem p hp)
  · exact fun p hp hfresh => h.old p (hmem p hp) (hold p.2 hfresh)

/-! ## An id that is detached -/

/-- Of sessions with different ids, one is taken out of those that are active if it is one of them. -/
theorem eraseP_active {ss : List HwHookSession} (id : Nat) (h : (ss.map HwHookSession.id).Nodup) :
    ((ss.eraseP (fun s => s.id = id)).filter HwHookSession.active).map HwHookSession.name =
      ((ss.filter HwHookSession.active).map HwHookSession.name).eraseP (fun q => q.1 = id) := by
  induction ss with
  | nil => rfl
  | cons s ss ih =>
    rw [List.map_cons, List.nodup_cons] at h
    by_cases hs : s.id = id
    · have hname : decide (s.name.1 = id) = true := decide_eq_true hs
      rw [List.eraseP_cons_of_pos (by simpa using hs)]
      cases hactive : s.active with
      | true =>
        rw [List.filter_cons_of_pos hactive, List.map_cons,
          List.eraseP_cons, hname, cond_true]
      | false =>
        rw [List.filter_cons_of_neg (by simp [hactive]), List.eraseP_of_forall_not]
        intro q hq
        obtain ⟨x, hx, rfl⟩ := List.mem_map.mp hq
        have hne : x.id ≠ s.id := fun heq =>
          h.1 (heq ▸ List.mem_map_of_mem (List.mem_of_mem_filter hx))
        exact fun heq => hne ((of_decide_eq_true heq).trans hs.symm)
    · have hname : decide (s.name.1 = id) = false := decide_eq_false hs
      rw [List.eraseP_cons_of_neg (by simpa using hs)]
      cases hactive : s.active with
      | true =>
        rw [List.filter_cons_of_pos hactive, List.filter_cons_of_pos hactive, List.map_cons, List.map_cons,
          List.eraseP_cons, hname, cond_false, ih h.2]
      | false =>
        rw [List.filter_cons_of_neg (by simp [hactive]), List.filter_cons_of_neg (by simp [hactive]), ih h.2]

/-- Where a name has an id for itself, the first name with the id is this one. -/
theorem eraseP_eq_erase {l : List (Nat × Hook)} {p : Nat × Hook} (h : ∀ q ∈ l, q.1 = p.1 → q = p) :
    l.eraseP (fun q => q.1 = p.1) = l.erase p := by
  induction l with
  | nil => rfl
  | cons q l ih =>
    by_cases hq : q = p
    · subst hq
      rw [List.eraseP_cons_of_pos (by simp), List.erase_cons_head]
    · have hid : ¬ q.1 = p.1 := fun hid => hq (h q (by simp) hid)
      rw [List.eraseP_cons_of_neg (by simpa using hid), List.erase_cons_tail (by simpa using hq),
        ih (fun q' hq' => h q' (List.mem_cons_of_mem q hq'))]

theorem Inv.ids_nodup (h : Inv a) : (a.manager.sessions.map HwHookSession.id).Nodup := by
  have hnames : (a.manager.sessions.map HwHookSession.name).Nodup := (List.nodup_append.mp h.nodup).1
  have hids : a.manager.sessions.map HwHookSession.id =
      (a.manager.sessions.map HwHookSession.name).map Prod.fst := by
    rw [List.map_map]
    rfl
  rw [hids]
  refine List.Nodup.map_on ?_ hnames
  intro p hp q hq hid
  exact h.distinct p (h.told p (List.mem_append_left _ hp)) q (h.told q (List.mem_append_left _ hq)) hid

theorem Inv.live_eq (h : Inv a) {p q : Nat × Hook} (hp : p ∈ a.handedOut) (hq : q ∈ a.live)
    (hid : q.1 = p.1) : q = p :=
  h.record_eq hp ((live_sublist a).mem hq) hid

/-- Detaching the id of a hook that is no longer there does nothing to the hooks that are. -/
theorem Inv.live_detach (h : Inv a) {p : Nat × Hook} (hp : p ∈ a.handedOut) :
    (a.detachSessionOrFallback p.1).1.live = a.live.erase p := by
  have howns := h.owns p hp
  obtain ⟨id, k⟩ := p
  unfold detachSessionOrFallback live
  cases k with
  | session ref =>
    have hother : (id, Hook.session ref) ∉ a.fallbackHooks.map FallbackHookRecord.name := by
      simp [FallbackHookRecord.name]
    rw [if_pos howns.2, List.erase_append, List.erase_of_not_mem hother]
    dsimp only
    rw [detach_sessions, eraseP_active id h.ids_nodup]
    split
    · rw [eraseP_eq_erase (p := (id, Hook.session ref))]
      exact fun q hq => h.live_eq hp (List.mem_append_left _ hq)
    · rename_i hgone
      rw [eraseP_eq_erase (p := (id, Hook.session ref)), List.erase_of_not_mem hgone]
      exact fun q hq => h.live_eq hp (List.mem_append_left _ hq)
  | fallback handle =>
    have hother : (id, Hook.fallback handle) ∉
        (a.manager.sessions.filter HwHookSession.active).map HwHookSession.name := by
      simp [HwHookSession.name]
    rw [if_neg (Nat.not_lt.mpr howns), List.erase_append, if_neg hother]
    dsimp only
    rw [← eraseP_eq_erase (p := (id, Hook.fallback handle)), List.eraseP_map]
    · rfl
    · exact fun q hq => h.live_eq hp (List.mem_append_right _ hq)

theorem Inv.detached (h : Inv a) {p : Nat × Hook} (hp : p ∈ a.live) :
    (a.detachSessionOrFallback p.1).2 = true := by
  have howns := h.owns p (h.told p ((live_sublist a).mem hp))
  unfold detachSessionOrFallback
  rcases List.mem_append.mp hp with hp | hp
  · obtain ⟨s, hs, rfl⟩ := List.mem_map.mp hp
    rw [if_pos howns.2, List.find?_isSome]
    exact ⟨s, List.mem_of_mem_filter hs, by simp⟩
  · obtain ⟨f, hf, rfl⟩ := List.mem_map.mp hp
    rw [if_neg (Nat.not_lt.mpr howns), List.any_eq_true]
    exact ⟨f, hf, by simp⟩

theorem Inv.names (h : Inv a) : IdsNameHooks a where
  told := by
    intro q hq
    have hmem := h.told q ((live_sublist a).mem hq)
    refine ⟨hmem, ?_⟩
    have howns := h.owns q hmem
    cases hk : q.2 with
    | session ref => rw [hk] at howns; exact howns.1
    | fallback handle => rw [hk] at howns; exact Nat.lt_of_lt_of_le (by decide) howns
  differs := fun p hp q hq hid => (h.live_eq hp hq hid.symm).symm
  detach := fun p hp => ⟨h.live_detach hp, h.detached⟩

/-! ## One step -/

/-- A new session, if `attach` makes one. -/
theorem attach_creates {config : HwHookConfig} {tids armable : List Nat}
    (hc : a.manager.creates config tids armable = true) (tag : String) :
    let a' := (a.attach config tag tids armable).1
    let name := (a.manager.nextId, Hook.session a.manager.nextRef)
    a'.records.Perm (name :: a.records) ∧ a'.handedOut = a.handedOut ++ [name] ∧ name ∈ a'.live ∧
      a'.manager.nextRef = a.manager.nextRef + 1 := by
  rcases attach_spec a.manager config tids armable with
    ⟨_, s, hret, href, hid, hactive, _, hsessions, hnext⟩ | ⟨hnot, _⟩
  · have hname : s.name = (a.manager.nextId, Hook.session a.manager.nextRef) := by
      unfold HwHookSession.name
      rw [href, hid]
    refine ⟨?_, ?_, ?_, hnext⟩
    · unfold records
      change ((a.manager.attach config tids armable).sessions.map _ ++ a.fallbackHooks.map _).Perm _
      rw [hsessions, List.map_append, List.map_singleton, hname, List.append_assoc]
      exact List.perm_middle
    · change a.handedOut ++ (a.manager.attachReturns config tids armable).toList.map _ = _
      rw [hret, Option.toList_some, List.map_singleton, hname]
    · rw [← hname]
      refine List.mem_append_left _ (List.mem_map_of_mem (List.mem_filter.mpr ⟨?_, hactive⟩))
      change s ∈ (a.manager.attach config tids armable).sessions
      rw [hsessions]
      simp
  · rw [hc] at hnot
    cases hnot

theorem Inv.attach (h : Inv a) {config : HwHookConfig} {tids armable : List Nat} {tag : String}
    (hok : a.manager.creates config tids armable = true →
      0 < a.manager.nextId ∧ a.manager.nextId < 10000 ∧ a.Unused a.manager.nextId) :
    Inv (a.attach config tag tids armable).1 := by
  cases hc : a.manager.creates config tids armable with
  | true =>
    obtain ⟨hpos, hlt, hunused⟩ := hok hc
    obtain ⟨hrec, hout, _, hnext⟩ := attach_creates hc tag
    refine h.make (k := .session a.manager.nextRef) (Nat.le_refl _) hrec hout ?_ ⟨hpos, hlt⟩ hunused
    intro k hk
    cases k with
    | session r =>
      unfold Fresh at hk ⊢
      rw [hnext] at hk
      exact ⟨fun heq => by simp only [Hook.session.injEq] at heq; omega, by omega⟩
    | fallback r => exact ⟨by simp, hk⟩
  | false =>
    rcases attach_spec a.manager config tids armable with ⟨hyes, _⟩ | ⟨_, hret, hsessions, hnext⟩
    · rw [hc] at hyes
      cases hyes
    · refine h.again ((a.manager.attachReturns config tids armable).toList.map HwHookSession.name) ?_ rfl ?_ ?_
      · unfold records
        change (a.manager.attach config tids armable).sessions.map _ ++ a.fallbackHooks.map _ = _
        rw [hsessions]
      · intro p hp
        obtain ⟨s, hs, rfl⟩ := List.mem_map.mp hp
        exact List.mem_append_left _ (List.mem_map_of_mem (hret s (Option.mem_toList.mp hs)).1)
      · intro k hk
        cases k with
        | session r => exact Nat.le_trans hnext hk
        | fallback r => exact hk

theorem fallback_pushes (a : HwAgent) (target : Nat) (tag : String) :
    let a' := (a.fallback target tag true true).1
    let name := (a.nextFallbackId, Hook.fallback a.nextHandle)
    a'.records.Perm (name :: a.records) ∧ name ∈ a'.live := by
  constructor
  · unfold records
    change (a.manager.sessions.map HwHookSession.name ++
      (a.fallbackHooks ++ [_]).map FallbackHookRecord.name).Perm _
    rw [List.map_append, ← List.append_assoc]
    exact List.perm_append_singleton _ _
  · refine List.mem_append_right _ (List.mem_map.mpr
      ⟨⟨a.nextFallbackId, target, tag ++ " (Gum Inline Fallback)", a.nextHandle⟩, ?_, rfl⟩)
    exact List.mem_append_right _ List.mem_cons_self

theorem Inv.fallback (h : Inv a) {target : Nat} {tag : String} {readable hooked : Bool}
    (hok : readable = true → hooked = true → 10000 ≤ a.nextFallbackId ∧ a.Unused a.nextFallbackId) :
    Inv (a.fallback target tag readable hooked).1 := by
  cases readable with
  | false => exact h
  | true =>
    cases hooked with
    | false => exact h
    | true =>
      obtain ⟨hge, hunused⟩ := hok rfl rfl
      refine h.make (k := .fallback a.nextHandle) (Nat.le_refl _) (fallback_pushes a target tag).1 rfl ?_ hge
        hunused
      intro k hk
      cases k with
      | session r => exact ⟨by simp, hk⟩
      | fallback r =>
        change a.nextHandle + 1 ≤ r at hk
        unfold Fresh
        exact ⟨fun heq => by simp only [Hook.fallback.injEq] at heq; omega, by omega⟩

theorem Inv.shrinks (h : Inv a) {m : HwHookManager} (hm : Shrinks a.manager m) : Inv { a with manager := m } :=
  h.shrink (hm.names.append (List.Sublist.refl _)) rfl hm.nextRef rfl

theorem Inv.step (h : Inv a) (c : Call) (hok : c.fresh a) : Inv (a.step c) := by
  cases c with
  | manager op tag =>
    change Inv (a.manage op tag)
    cases op with
    | attach config tids armable => exact h.attach hok
    | _ => exact h.shrinks (step_shrinks _ _ (by simp))
  | fallback target tag readable hooked => exact h.fallback hok
  | detachSessionOrFallback id =>
    change Inv (a.detachSessionOrFallback id).1
    unfold detachSessionOrFallback
    split
    · exact h.shrinks (detach_shrinks a.manager id)
    · exact h.shrink ((List.Sublist.refl _).append (List.eraseP_sublist.map _)) rfl rfl rfl
  | clearFallbackHooks => exact h.shrink ((List.Sublist.refl _).append (List.nil_sublist _)) rfl rfl rfl

/-! ## An id that is not fresh -/

/-- A hook whose id another one was given breaks the property, and so does one whose id is looked up on the other
    side. -/
theorem Inv.breaks (h : Inv a) {a' : HwAgent} {id : Nat} {k : Hook} (hk : a.Fresh k)
    (hrec : a'.records.Perm ((id, k) :: a.records)) (hout : a'.handedOut = a.handedOut ++ [(id, k)])
    (hlive : (id, k) ∈ a'.live)
    (hbad : a.Unused id → id = 0 ∨ (id, k) ∈ (a'.detachSessionOrFallback id).1.live) :
    ¬ IdsNameHooks a' := by
  intro hnames
  have hnew : (id, k) ∉ a.handedOut := fun hmem => h.old _ hmem hk
  have hin : (id, k) ∈ a'.handedOut := by
    rw [hout]
    simp
  have hunused : a.Unused id := by
    intro p hp hid
    have hp' : p ∈ a'.handedOut := by
      rw [hout]
      exact List.mem_append_left _ hp
    exact hnew (hnames.differs p hp' (id, k) hlive hid ▸ hp)
  rcases hbad hunused with hzero | hstays
  · have hpos := (hnames.told _ hlive).2
    dsimp only at hpos
    omega
  · have hnodup : a'.live.Nodup := by
      refine List.Nodup.sublist (live_sublist a') ?_
      rw [hrec.nodup_iff, List.nodup_cons]
      exact ⟨fun hmem => hnew (h.told _ hmem), h.nodup⟩
    rw [(hnames.detach _ hin).1] at hstays
    exact hnodup.not_mem_erase hstays

theorem Inv.not_names (h : Inv a) (c : Call) (hnot : ¬ c.fresh a) : ¬ IdsNameHooks (a.step c) := by
  cases c with
  | manager op tag =>
    cases op with
    | attach config tids armable =>
      change ¬ (_ → _) at hnot
      rw [Classical.not_imp] at hnot
      obtain ⟨hc, hnot⟩ := hnot
      obtain ⟨hrec, hout, hlive, _⟩ := attach_creates hc tag
      refine h.breaks (k := .session a.manager.nextRef) (Nat.le_refl _) hrec hout hlive (fun hunused => ?_)
      by_cases hzero : a.manager.nextId = 0
      · exact .inl hzero
      · -- an id from 10000 on is looked for among the inline hooks
        have hlarge : ¬ a.manager.nextId < 10000 :=
          fun hlt => hnot ⟨Nat.pos_of_ne_zero hzero, hlt, hunused⟩
        right
        unfold detachSessionOrFallback
        rw [if_neg hlarge]
        rcases List.mem_append.mp hlive with hs | hf
        · exact List.mem_append_left _ hs
        · obtain ⟨f, _, hf⟩ := List.mem_map.mp hf
          simp [FallbackHookRecord.name] at hf
    | _ => exact absurd trivial hnot
  | fallback target tag readable hooked =>
    change ¬ (_ → _ → _) at hnot
    rw [Classical.not_imp, Classical.not_imp] at hnot
    obtain ⟨rfl, rfl, hnot⟩ := hnot
    obtain ⟨hrec, hlive⟩ := fallback_pushes a target tag
    refine h.breaks (k := .fallback a.nextHandle) (Nat.le_refl _) hrec rfl hlive (fun hunused => ?_)
    -- and one below 10000 among the sessions
    have hsmall : a.nextFallbackId < 10000 := by
      by_contra hge
      exact hnot ⟨Nat.not_lt.mp hge, hunused⟩
    right
    unfold detachSessionOrFallback
    rw [if_pos hsmall]
    rcases List.mem_append.mp hlive with hs | hf
    · obtain ⟨s, _, hs⟩ := List.mem_map.mp hs
      simp [HwHookSession.name] at hs
    · exact List.mem_append_right _ hf
  | detachSessionOrFallback id => exact absurd trivial hnot
  | clearFallbackHooks => exact absurd trivial hnot

end

end HwAgent

/-! ## Every run -/

/-- Ids name hooks in every state of a run exactly if each hook of it is made with a fresh id. -/
theorem run_idsNameHooks_iff (cs : List Call) :
    Along HwAgent.step Call.fresh {} cs ↔ ∀ k, IdsNameHooks (run HwAgent.step {} (cs.take k)) :=
  Along.iff_forall_take_of_breaks (fun _ h => h.names) (fun _ c h hok => h.step c hok)
    (fun _ c h hnot => h.not_names c hnot) HwAgent.Inv.init

/-- A breakpoint that is set for one hit. -/
def oneShot : List Call :=
  [.manager (.attach { breakAt 0x4000 with once := true } [33] [33]) "",
    .manager (.enter ⟨33, by decide⟩ 0x4000 0x4000 0) "", .manager (.leave 0 0 {}) ""]

theorem run_oneShot {a : HwAgent} {n r : Nat} (h : a.manager = { nextId := n, nextRef := r }) :
    (run HwAgent.step a oneShot).manager = { nextId := (n + 1) % 2 ^ 32, nextRef := r + 1 } ∧
      (run HwAgent.step a oneShot).fallbackHooks = a.fallbackHooks ∧
      ∀ p ∈ a.handedOut, p ∈ (run HwAgent.step a oneShot).handedOut := by
  obtain ⟨m, tags, fallbackHooks, nextFallbackId, nextHandle, handedOut⟩ := a
  obtain rfl := h
  refine ⟨?_, rfl, fun p hp => List.mem_append_left _ hp⟩
  simp only [run, oneShot, List.foldl_cons, List.foldl_nil, HwAgent.step, HwAgent.manage, HwAgent.attach]
  simp [step, HwHookManager.attach, breakAt, allocateSlot, firstFree, setSlot, freeSlot, enter,
    HwHookManager.leave, hits, stepsOver, HwHookManager.capacity, List.range_succ, kMaxHwSlots]

/-- An inline hook, and then hits until `next_id_` gets to 10000. -/
def manyHits (n : Nat) : List Call :=
  .fallback 0x8000 "" true true :: (List.replicate n oneShot).flatten

theorem run_manyHits (n : Nat) (hn : n < 10000) :
    (run HwAgent.step {} (manyHits n)).manager = { nextId := n + 1, nextRef := n } ∧
      (10000, Hook.fallback 0) ∈ (run HwAgent.step {} (manyHits n)).handedOut := by
  induction n with
  | zero => exact ⟨rfl, by decide⟩
  | succ n ih =>
    obtain ⟨hm, hout⟩ := ih (by omega)
    have happend : manyHits (n + 1) = manyHits n ++ oneShot := by
      unfold manyHits
      rw [List.replicate_succ', List.flatten_append, List.flatten_singleton, List.cons_append]
    have hrun : run HwAgent.step {} (manyHits (n + 1)) =
        run HwAgent.step (run HwAgent.step {} (manyHits n)) oneShot := by
      rw [happend]
      exact List.foldl_append
    obtain ⟨hm', _, hout'⟩ := run_oneShot hm
    rw [hrun]
    refine ⟨?_, hout' _ hout⟩
    rw [hm', Nat.mod_eq_of_lt (by omega)]

/-- Then a breakpoint has the id of the inline hook. -/
theorem ids_meet :
    ¬ IdsNameHooks (run HwAgent.step {} (manyHits 9999 ++
      [.manager (.attach (breakAt 0x4000) [10] [10]) ""])) := by
  have hrun : ∀ cs : List Call, ∀ c, run HwAgent.step {} (cs ++ [c]) = (run HwAgent.step {} cs).step c :=
    fun cs c => List.foldl_append
  obtain ⟨hm, hout⟩ := run_manyHits 9999 (by decide)
  rw [hrun]
  generalize run HwAgent.step {} (manyHits 9999) = a at hm hout
  intro h
  have hlive : (10000, Hook.session 9999) ∈
      (a.step (.manager (.attach (breakAt 0x4000) [10] [10]) "")).live := by
    refine List.mem_append_left _ ?_
    change _ ∈ (((a.manager.attach (breakAt 0x4000) [10] [10]).sessions).filter _).map _
    rw [hm]
    decide
  have heq := h.differs (10000, .fallback 0) (List.mem_append_left _ hout) _ hlive rfl
  exact absurd heq (by decide)

end ArtPi.HwHook
