import ArtPi.HwHook.Ids
import Mathlib.Data.List.Infix

set_option autoImplicit false

/-! # The monitor of library loads (`src/agent/agent_hw_hook.cpp`)

`SetupDlopenHwMonitor` and `HW.watchDlopen` arm the same hooks, on `android_dlopen_ext`, on `dlopen` and, where the
caller wants constructors, on `soinfo::call_constructors`. Only the first sets `g_dlopenMonitorActive`, nothing clears
it, and both trust it. -/

namespace ArtPi.HwHook

open ArtPi.Lib HwHookManager

/-- The addresses behind `ResolveDlopenExtAddress`, `ResolveDlopenAddress` and `ResolveCallConstructorsAddress`; 0 is no
    such symbol. -/
structure Targets where
  dlopenExt : Nat
  dlopen : Nat
  callConstructors : Nat

def Targets.isDlopen (t : Targets) (address : Nat) : Bool :=
  address ≠ 0 && (address = t.dlopenExt || address = t.dlopen)

structure Monitor where
  agent : HwAgent := {}
  dlopenMonitorActive : Bool := false

/-- What the environment says during a call: to `rearmMissingThreads`, and to each of the three hooks. -/
structure Surroundings where
  tids : List Nat
  armable : List Nat
  dlopenExt : Arming
  dlopen : Arming
  callConstructors : Arming

/-- The members of the options that ask for constructors; a callback may also be the second argument. -/
structure WatchOptions where
  constructors : Option Bool := none
  qbdi : Option String := none
  traceInit : Option String := none
  onConstructor : Bool := false
  onCallConstructors : Bool := false
  callback : Bool := false

def WatchOptions.wantsConstructors (o : WatchOptions) : Bool :=
  o.constructors.getD false || o.qbdi.isSome || o.traceInit.isSome || o.onConstructor || o.onCallConstructors ||
    o.callback

/-- `sig.find(p) != npos` -/
def tagContains (tag p : String) : Bool := decide (p.toList <:+: tag.toList)

/-- The `id` of `CreateHandleObject` is an `int32_t`. -/
def handleId (id : Nat) : Int := if id % 2 ^ 32 < 2 ^ 31 then (id % 2 ^ 32 : Nat) else (id % 2 ^ 32 : Nat) - 2 ^ 32

namespace HwAgent

variable (a : HwAgent)

/-- The hooks on addresses of a kind. -/
def hooksOn (want : Nat → Bool) : List (Nat × Hook) :=
  (a.manager.sessions.filter (fun s => s.active && want s.config.address)).map HwHookSession.name ++
    (a.fallbackHooks.filter (fun f => want f.address)).map FallbackHookRecord.name

def armIf (want : Bool) (target : Nat) (tag : String) (env : Arming) : HwAgent × Nat :=
  if want then a.armBreakpointOrFallback target tag env else (a, 0)

/-- The three attempts, with `id1` and `id2`. -/
def armDlopenHooks (t : Targets) (constructors : Bool) (env : Surroundings) : HwAgent × Nat × Nat :=
  let r1 := a.armIf (t.dlopenExt ≠ 0) t.dlopenExt "android_dlopen_ext" env.dlopenExt
  let r2 := r1.1.armIf (t.dlopen ≠ 0 && t.dlopen ≠ t.dlopenExt) t.dlopen "dlopen" env.dlopen
  let r3 := r2.1.armIf (constructors && t.callConstructors ≠ 0) t.callConstructors "call_constructors"
    env.callConstructors
  (r3.1, r1.2, r2.2)

def rearmMissingThreads (env : Surroundings) : HwAgent :=
  { a with manager := a.manager.rearmMissingThreads env.tids env.armable }

/-- The first session in `listSessions` with such a tag. -/
def dlopenSession : Option HwHookSession :=
  (a.manager.sessions.filter HwHookSession.active).find? (fun s => tagContains (a.tags s.ref) "dlopen")

end HwAgent

namespace Monitor

variable (t : Targets) (s : Monitor)

def setupDlopenHwMonitor (constructors : Bool) (qbdiFilter : String) (env : Surroundings) : Monitor × Bool :=
  if s.dlopenMonitorActive then ({ s with agent := s.agent.rearmMissingThreads env }, true)
  else if t.dlopenExt = 0 ∧ t.dlopen = 0 then (s, false)
  else
    let r := s.agent.armDlopenHooks t (constructors || qbdiFilter ≠ "") env
    let ok := 0 < r.2.1 || 0 < r.2.2
    ({ agent := r.1, dlopenMonitorActive := s.dlopenMonitorActive || ok }, ok)

/-- The `id` of the handle; there is none where the call throws. -/
def jsHwWatchDlopen (options : WatchOptions) (env : Surroundings) : Monitor × Option Int :=
  if s.dlopenMonitorActive then
    let agent := s.agent.rearmMissingThreads env
    ({ s with agent }, some (handleId ((agent.dlopenSession.map HwHookSession.id).getD 1)))
  else if t.dlopenExt = 0 ∧ t.dlopen = 0 then (s, none)
  else
    let r := s.agent.armDlopenHooks t options.wantsConstructors env
    ({ s with agent := r.1 },
     if r.2.1 = 0 ∧ r.2.2 = 0 then none else some (handleId (if r.2.1 ≠ 0 then r.2.1 else r.2.2)))

def hwHookDetachAll : Monitor :=
  { s with agent := { s.agent with manager := s.agent.manager.detachAll, fallbackHooks := [] } }

end Monitor

inductive MonitorCall where
  | setupDlopenHwMonitor (constructors : Bool) (qbdiFilter : String) (env : Surroundings)
  | watchDlopen (options : WatchOptions) (env : Surroundings)
  | detach (id : Nat)
  | hwHookDetachAll

def Monitor.step (t : Targets) (s : Monitor) : MonitorCall → Monitor
  | .setupDlopenHwMonitor constructors qbdiFilter env => (s.setupDlopenHwMonitor t constructors qbdiFilter env).1
  | .watchDlopen options env => (s.jsHwWatchDlopen t options env).1
  | .detach id => { s with agent := (s.agent.detachSessionOrFallback id).1 }
  | .hwHookDetachAll => s.hwHookDetachAll

/-- A call that succeeds finds a hook on `dlopen` or `android_dlopen_ext` armed, and the handle has the id of such a
    hook; one that fails has armed nothing. -/
def MonitorCall.Reports (t : Targets) (s : Monitor) : MonitorCall → Prop
  | .setupDlopenHwMonitor constructors qbdiFilter env =>
    let r := s.setupDlopenHwMonitor t constructors qbdiFilter env
    if r.2 = true then r.1.agent.hooksOn t.isDlopen ≠ [] else ∀ p ∈ r.1.agent.live, p ∈ s.agent.live
  | .watchDlopen options env =>
    let r := s.jsHwWatchDlopen t options env
    (∀ id ∈ r.2, ∃ p ∈ r.1.agent.hooksOn t.isDlopen, (p.1 : Int) = id) ∧
      (r.2 = none → ∀ p ∈ r.1.agent.live, p ∈ s.agent.live)
  | .detach _ | .hwHookDetachAll => True

/-! ## The condition -/

namespace HwAgent

variable (a : HwAgent)

/-- The attach on a target succeeds in hardware. -/
def attaches (target : Nat) (env : Arming) : Bool :=
  env.init && (a.manager.attachReturns (breakAt target) env.tids env.armable).isSome

/-- The attach on a target succeeds, in hardware or inline. -/
def canArm (target : Nat) (env : Arming) : Bool :=
  a.attaches target env || (env.readable && env.hooked)

/-- The attach on a target succeeds, and not with a session that is there already. -/
def armsNew (target : Nat) (env : Arming) : Bool :=
  (env.init && a.manager.creates (breakAt target) env.tids env.armable) ||
    (!a.attaches target env && env.readable && env.hooked)

/-- The hook for constructors is armed in a call that arms no other one. -/
def ArmsOnlyConstructors (t : Targets) (constructors : Bool) (env : Surroundings) : Prop :=
  (t.dlopenExt ≠ 0 ∨ t.dlopen ≠ 0) ∧
    (t.dlopenExt ≠ 0 → a.canArm t.dlopenExt env.dlopenExt = false) ∧
    (t.dlopen ≠ 0 → t.dlopen ≠ t.dlopenExt → a.canArm t.dlopen env.dlopen = false) ∧
    constructors = true ∧ t.callConstructors ≠ 0 ∧
    a.armsNew t.callConstructors env.callConstructors = true

end HwAgent

/-- A call that finds the flag set finds a hook on `dlopen` or `android_dlopen_ext`, `HW.watchDlopen` one in hardware or
    with the id 1; and a call that finds it clear does not arm the hook for constructors alone. -/
def MonitorCall.Backed (t : Targets) (s : Monitor) : MonitorCall → Prop
  | .setupDlopenHwMonitor constructors qbdiFilter env =>
    if s.dlopenMonitorActive = true then s.agent.hooksOn t.isDlopen ≠ []
    else ¬ s.agent.ArmsOnlyConstructors t (constructors || qbdiFilter ≠ "") env
  | .watchDlopen options env =>
    if s.dlopenMonitorActive = true then
      s.agent.dlopenSession.isSome = true ∨ ∃ p ∈ s.agent.hooksOn t.isDlopen, p.1 = 1
    else ¬ s.agent.ArmsOnlyConstructors t options.wantsConstructors env
  | .detach _ | .hwHookDetachAll => True

/-- The three ids a call takes at most are positive as `int32_t`. -/
def HwAgent.IdsLeft (a : HwAgent) : Prop :=
  0 < a.manager.nextId ∧ a.manager.nextId + 2 < 2 ^ 31 ∧ 0 < a.nextFallbackId ∧ a.nextFallbackId + 2 < 2 ^ 31

def MonitorCall.IdsLeft (s : Monitor) : MonitorCall → Prop
  | .setupDlopenHwMonitor _ _ _ | .watchDlopen _ _ => s.dlopenMonitorActive = false → s.agent.IdsLeft
  | .detach _ | .hwHookDetachAll => True

instance (a : HwAgent) (t : Targets) (constructors : Bool) (env : Surroundings) :
    Decidable (a.ArmsOnlyConstructors t constructors env) := instDecidableAnd

instance (t : Targets) (s : Monitor) : ∀ c : MonitorCall, Decidable (c.Reports t s)
  | .setupDlopenHwMonitor _ _ _ => instDecidableIte
  | .watchDlopen _ _ => instDecidableAnd
  | .detach _ | .hwHookDetachAll => instDecidableTrue

instance (t : Targets) (s : Monitor) : ∀ c : MonitorCall, Decidable (c.Backed t s)
  | .setupDlopenHwMonitor _ _ _ | .watchDlopen _ _ => instDecidableIte
  | .detach _ | .hwHookDetachAll => instDecidableTrue

instance (s : Monitor) : ∀ c : MonitorCall, Decidable (c.IdsLeft s)
  | .setupDlopenHwMonitor _ _ _ | .watchDlopen _ _ =>
    inferInstanceAs (Decidable (s.dlopenMonitorActive = false → 0 < s.agent.manager.nextId ∧
      s.agent.manager.nextId + 2 < 2 ^ 31 ∧ 0 < s.agent.nextFallbackId ∧ s.agent.nextFallbackId + 2 < 2 ^ 31))
  | .detach _ | .hwHookDetachAll => instDecidableTrue

/-! ## The manager behind an attach that fails -/

section

variable {m : HwHookManager} {config : HwHookConfig} {tids armable : List Nat}

theorem attach_fails (h : Inv m) (hret : m.attachReturns config tids armable = none) :
    ∃ n r, m.attach config tids armable = { m with nextId := n, nextRef := r } ∧
      (n = m.nextId ∨ n = (m.nextId + 1) % 2 ^ 32) ∧ m.nextRef ≤ r := by
  unfold HwHookManager.attach
  unfold attachReturns at hret
  by_cases hbad : (config.address = 0 || !config.onHit) = true
  · rw [if_pos hbad]
    exact ⟨m.nextId, m.nextRef, rfl, .inl rfl, le_rfl⟩
  rw [if_neg hbad] at hret ⊢
  cases hany : m.sessions.any (fun s => s.active && s.config.address = config.address &&
      s.config.type = config.type) with
  | true =>
    rw [if_pos rfl]
    exact ⟨m.nextId, m.nextRef, rfl, .inl rfl, le_rfl⟩
  | false =>
    have hfind := List.find?_eq_none.mpr (List.any_eq_false.mp hany)
    rw [hfind] at hret
    rw [if_neg (by simp)]
    cases hslot : m.allocateSlot config.type config.slot with
    | none => exact ⟨m.nextId, m.nextRef, rfl, .inl rfl, le_rfl⟩
    | some slot =>
      rw [hslot] at hret
      dsimp only at hret ⊢
      generalize (if config.threadId > 0 then [config.threadId] else tids) = wanted at hret ⊢
      split at hret
      · rename_i harm
        rw [if_pos harm]
        -- the slot was free, and is again
        obtain ⟨hfree, hlt⟩ := allocateSlot_spec hslot
        rw [freeSlot_slots _ (Nat.lt_of_lt_of_le hlt (h.capacity config.type))]
        refine ⟨(m.nextId + 1) % 2 ^ 32, m.nextRef + 1, ?_, .inr rfl, Nat.le_succ _⟩
        unfold setSlot
        dsimp only
        rw [Function.update_idem, ← hfree, Function.update_eq_self]
      · cases hret

theorem attachReturns_isSome_congr (n r : Nat) :
    (HwHookManager.attachReturns { m with nextId := n, nextRef := r } config tids armable).isSome =
      (m.attachReturns config tids armable).isSome := by
  have hslot : HwHookManager.allocateSlot { m with nextId := n, nextRef := r } config.type config.slot =
      m.allocateSlot config.type config.slot := rfl
  unfold attachReturns
  rw [hslot]
  dsimp only
  split
  · rfl
  cases m.sessions.find? (fun s => s.active && s.config.address = config.address &&
      s.config.type = config.type) with
  | some s => rfl
  | none =>
    cases m.allocateSlot config.type config.slot with
    | none => rfl
    | some slot =>
      dsimp only
      generalize (if config.threadId > 0 then [config.threadId] else tids) = wanted
      split <;> rfl

end

theorem attach_nextId (m : HwHookManager) (config : HwHookConfig) (tids armable : List Nat) :
    (m.attach config tids armable).nextId = m.nextId ∨
      (m.attach config tids armable).nextId = (m.nextId + 1) % 2 ^ 32 := by
  unfold HwHookManager.attach
  split
  · exact .inl rfl
  split
  · exact .inl rfl
  cases m.allocateSlot config.type config.slot with
  | none => exact .inl rfl
  | some slot =>
    dsimp only
    generalize (if config.threadId > 0 then [config.threadId] else tids) = wanted
    split
    · obtain ⟨slots, hslots⟩ := freeSlot_eq { m.setSlot (config.type, slot) true with
        nextId := (m.nextId + 1) % 2 ^ 32, nextRef := m.nextRef + 1 } config.type slot
      rw [hslots]
      exact .inr rfl
    · exact .inr rfl

/-! ## The hooks that are armed -/

namespace HwAgent

section

variable {t : Targets} {a a' : HwAgent} {want : Nat → Bool} {target : Nat} {tag : String} {env : Arming}

/-- Sessions on `dlopen` or `android_dlopen_ext` are what has a tag for it, and no record is new. -/
structure Kept (t : Targets) (a : HwAgent) : Prop where
  manager : HwHook.Inv a.manager
  ids : ∀ s ∈ a.manager.sessions, 0 < s.id ∧ s.id < 2 ^ 31
  handles : ∀ f ∈ a.fallbackHooks, f.handle < a.nextHandle
  tagged : ∀ s ∈ a.manager.sessions, tagContains (a.tags s.ref) "dlopen" = true →
    t.isDlopen s.config.address = true

theorem mem_hooksOn {p : Nat × Hook} : p ∈ a.hooksOn want ↔
    (∃ s ∈ a.manager.sessions, s.active = true ∧ want s.config.address = true ∧ s.name = p) ∨
      ∃ f ∈ a.fallbackHooks, want f.address = true ∧ f.name = p := by
  unfold hooksOn
  rw [List.mem_append, List.mem_map, List.mem_map]
  simp only [List.mem_filter, Bool.and_eq_true, and_assoc]

theorem mem_live {p : Nat × Hook} : p ∈ a.live ↔
    (∃ s ∈ a.manager.sessions, s.active = true ∧ s.name = p) ∨ ∃ f ∈ a.fallbackHooks, f.name = p := by
  unfold live
  rw [List.mem_append, List.mem_map, List.mem_map]
  simp only [List.mem_filter, and_assoc]

/-- No hook went away. -/
structure Grows (a a' : HwAgent) : Prop where
  sessions : ∀ s ∈ a.manager.sessions, s ∈ a'.manager.sessions
  fallbacks : ∀ f ∈ a.fallbackHooks, f ∈ a'.fallbackHooks

theorem Grows.refl (a : HwAgent) : Grows a a := ⟨fun _ h => h, fun _ h => h⟩

theorem Grows.trans {a'' : HwAgent} (h : Grows a a') (h' : Grows a' a'') : Grows a a'' :=
  ⟨fun s hs => h'.sessions s (h.sessions s hs), fun f hf => h'.fallbacks f (h.fallbacks f hf)⟩

theorem Grows.hooksOn (h : Grows a a') {p : Nat × Hook} (hp : p ∈ a.hooksOn want) : p ∈ a'.hooksOn want := by
  rw [mem_hooksOn] at hp ⊢
  rcases hp with ⟨s, hs, hrest⟩ | ⟨f, hf, hrest⟩
  · exact .inl ⟨s, h.sessions s hs, hrest⟩
  · exact .inr ⟨f, h.fallbacks f hf, hrest⟩

/-- Only the counters of the manager differ. -/
structure SameHooks (a a' : HwAgent) : Prop where
  manager : ∃ n r, a'.manager = { a.manager with nextId := n, nextRef := r }
  fallbacks : a'.fallbackHooks = a.fallbackHooks

theorem SameHooks.refl (a : HwAgent) : SameHooks a a := ⟨⟨a.manager.nextId, a.manager.nextRef, rfl⟩, rfl⟩

theorem SameHooks.trans {a'' : HwAgent} (h : SameHooks a a') (h' : SameHooks a' a'') : SameHooks a a'' := by
  obtain ⟨⟨n, r, hm⟩, hf⟩ := h
  obtain ⟨⟨n', r', hm'⟩, hf'⟩ := h'
  exact ⟨⟨n', r', by rw [hm', hm]⟩, hf'.trans hf⟩

theorem SameHooks.live (h : SameHooks a a') : a'.live = a.live := by
  obtain ⟨⟨n, r, hm⟩, hf⟩ := h
  unfold HwAgent.live
  rw [hm, hf]

theorem SameHooks.attaches (h : SameHooks a a') : a'.attaches target env = a.attaches target env := by
  obtain ⟨⟨n, r, hm⟩, _⟩ := h
  unfold HwAgent.attaches
  rw [hm, attachReturns_isSome_congr]

theorem SameHooks.canArm (h : SameHooks a a') : a'.canArm target env = a.canArm target env := by
  unfold HwAgent.canArm
  rw [h.attaches]

theorem SameHooks.armsNew (h : SameHooks a a') : a'.armsNew target env = a.armsNew target env := by
  have hattaches : a'.attaches target env = a.attaches target env := h.attaches
  obtain ⟨⟨n, r, hm⟩, _⟩ := h
  unfold HwAgent.armsNew
  rw [hattaches, hm]
  rfl

/-! ## One attempt -/

theorem Kept.tryAttach_fails (h : Kept t a) (tag : String) (hno : a.attaches target env = false) :
    ∃ n r, a.tryAttach target tag env = ({ a with manager := { a.manager with nextId := n, nextRef := r } }, 0) ∧
      (n = a.manager.nextId ∨ n = (a.manager.nextId + 1) % 2 ^ 32) ∧ a.manager.nextRef ≤ r := by
  unfold tryAttach
  unfold attaches at hno
  cases hinit : env.init with
  | false => exact ⟨a.manager.nextId, a.manager.nextRef, rfl, .inl rfl, le_rfl⟩
  | true =>
    rw [hinit, Bool.true_and, Option.isSome_eq_false_iff, Option.isNone_iff_eq_none] at hno
    obtain ⟨n, r, hm, hn, hr⟩ := attach_fails h.manager hno
    refine ⟨n, r, ?_, hn, hr⟩
    rw [if_pos rfl]
    unfold attach
    rw [hno, hm]
    simp

theorem tryAttach_attaches (tag : String) (hyes : a.attaches target env = true) :
    ∃ s, s.active = true ∧ s.config.address = target ∧
      a.tryAttach target tag env = ((a.attach (breakAt target) tag env.tids env.armable).1, s.id) ∧
      ((a.manager.creates (breakAt target) env.tids env.armable = true ∧ s.ref = a.manager.nextRef ∧
          s.id = a.manager.nextId ∧
          (a.manager.attach (breakAt target) env.tids env.armable).sessions = a.manager.sessions ++ [s]) ∨
        (a.manager.creates (breakAt target) env.tids env.armable = false ∧ s ∈ a.manager.sessions ∧
          (a.manager.attach (breakAt target) env.tids env.armable).sessions = a.manager.sessions)) := by
  unfold attaches at hyes
  rw [Bool.and_eq_true, Option.isSome_iff_exists] at hyes
  obtain ⟨hinit, s, hret⟩ := hyes
  have htry : a.tryAttach target tag env = ((a.attach (breakAt target) tag env.tids env.armable).1, s.id) := by
    unfold tryAttach attach
    rw [if_pos hinit, hret]
    rfl
  rcases attach_spec a.manager (breakAt target) env.tids env.armable with
    ⟨hc, s', hret', href, hsid, hactive, hconfig, hsessions, _⟩ | ⟨hc, hret', hsessions, _⟩
  · obtain rfl := Option.some.inj (hret.symm.trans hret')
    exact ⟨s, hactive, by rw [hconfig]; rfl, htry, .inl ⟨hc, href, hsid, hsessions⟩⟩
  · obtain ⟨hmem, hactive, haddress⟩ := hret' s hret
    exact ⟨s, hactive, haddress, htry, .inr ⟨hc, hmem, hsessions⟩⟩

theorem attach_grows (a : HwAgent) (config : HwHookConfig) (tag : String) (tids armable : List Nat) :
    Grows a (a.attach config tag tids armable).1 := by
  refine ⟨fun s hs => ?_, fun f hf => hf⟩
  change s ∈ (a.manager.attach config tids armable).sessions
  rcases attach_spec a.manager config tids armable with ⟨_, s', _, _, _, _, _, hsessions, _⟩ | ⟨_, _, hsessions, _⟩
  · rw [hsessions]
    exact List.mem_append_left _ hs
  · rwa [hsessions]

theorem Kept.attach (h : Kept t a) (tids armable : List Nat) (hne : tag ≠ "")
    (htag : tagContains tag "dlopen" = true → t.isDlopen target = true)
    (hpos : 0 < a.manager.nextId) (hlt : a.manager.nextId < 2 ^ 31) :
    Kept t (a.attach (breakAt target) tag tids armable).1 := by
  have hmanager := h.manager.attach (breakAt target) tids armable
  have hnew := attach_spec a.manager (breakAt target) tids armable
  unfold HwAgent.attach
  -- a session either has its tag as before, or is the one `attach` returns
  have htags : ∀ x ∈ a.manager.sessions, ∀ s ∈ a.manager.attachReturns (breakAt target) tids armable,
      s.ref = x.ref → s = x := by
    intro x hx s hs href
    rcases hnew with ⟨_, s', hret, href', _⟩ | ⟨_, hret, _⟩
    · obtain rfl := Option.some.inj (hret.symm.trans hs)
      have := h.manager.refs_lt x hx
      omega
    · exact h.manager.ref_eq hx (hret s hs).1 href
  refine ⟨hmanager, ?_, h.handles, ?_⟩
  · intro x hx
    rcases hnew with ⟨_, s, _, _, hid, _, _, hsessions, _⟩ | ⟨_, _, hsessions, _⟩
    · rw [hsessions] at hx
      rcases List.mem_append.mp hx with hx | hx
      · exact h.ids x hx
      · rw [List.mem_singleton.mp hx, hid]
        exact ⟨hpos, hlt⟩
    · rw [hsessions] at hx
      exact h.ids x hx
  · intro x hx hcontains
    have hx' : x ∈ a.manager.sessions ∨ x ∈ a.manager.attachReturns (breakAt target) tids armable := by
      rcases hnew with ⟨_, s, hret, _, _, _, _, hsessions, _⟩ | ⟨_, _, hsessions, _⟩
      · rw [hsessions] at hx
        rcases List.mem_append.mp hx with hx | hx
        · exact .inl hx
        · rw [List.mem_singleton.mp hx]
          exact .inr hret
      · rw [hsessions] at hx
        exact .inl hx
    have haddress : ∀ s ∈ a.manager.attachReturns (breakAt target) tids armable, s.config.address = target := by
      intro s hs
      rcases hnew with ⟨_, s', hret, _, _, _, hconfig, _⟩ | ⟨_, hret, _⟩
      · obtain rfl := Option.some.inj (hret.symm.trans hs)
        rw [hconfig]
        rfl
      · exact (hret s hs).2.2
    dsimp only at hcontains
    cases hret : a.manager.attachReturns (breakAt target) tids armable with
    | none =>
      rw [hret] at hx' hcontains
      exact h.tagged x (hx'.resolve_right (by simp)) hcontains
    | some s =>
      rw [hret] at hx' hcontains htags haddress
      dsimp only at hcontains
      rw [if_neg hne] at hcontains
      by_cases href : s.ref = x.ref
      · have hs : s = x := by
          rcases hx' with hx' | hx'
          · exact htags x hx' s rfl href
          · exact Option.some.inj hx'
        rw [href, Function.update_self] at hcontains
        rw [← hs, haddress s rfl]
        exact htag hcontains
      · have hx'' : x ∈ a.manager.sessions := hx'.resolve_right (fun heq => href (by rw [Option.some.inj heq]))
        rw [Function.update_of_ne (fun heq => href heq.symm)] at hcontains
        exact h.tagged x hx'' hcontains

/-- What an attempt does: with `canArm` it gives the id of a hook on its target, without it does nothing, and with
    `armsNew` the hook is one that was not there. -/
structure ArmSpec (t : Targets) (a : HwAgent) (want canArm armsNew : Bool) (target : Nat) (r : HwAgent × Nat) :
    Prop where
  kept : Kept t r.1
  grows : Grows a r.1
  armed : (want && canArm) = true → (0 < r.2 ∧ r.2 < 2 ^ 31) ∧
    ∀ sort : Nat → Bool, sort target = true → ∃ p ∈ r.1.hooksOn sort, p.1 = r.2
  failed : (want && canArm) = false → r.2 = 0 ∧ SameHooks a r.1
  isNew : (want && armsNew) = true ↔ ∃ p ∈ r.1.live, p ∉ a.live
  nextId : a.manager.nextId ≤ r.1.manager.nextId ∧ r.1.manager.nextId ≤ a.manager.nextId + 1
  nextFallbackId : a.nextFallbackId ≤ r.1.nextFallbackId ∧ r.1.nextFallbackId ≤ a.nextFallbackId + 1

theorem Kept.live_ref_lt (h : Kept t a) {id r : Nat} (hp : (id, Hook.session r) ∈ a.live) :
    r < a.manager.nextRef := by
  rcases mem_live.mp hp with ⟨s, hs, _, hname⟩ | ⟨f, _, hname⟩
  · simp only [HwHookSession.name, Prod.mk.injEq, Hook.session.injEq] at hname
    rw [← hname.2]
    exact h.manager.refs_lt s hs
  · simp [FallbackHookRecord.name] at hname

theorem Kept.live_handle_lt (h : Kept t a) {id k : Nat} (hp : (id, Hook.fallback k) ∈ a.live) : k < a.nextHandle := by
  rcases mem_live.mp hp with ⟨s, _, _, hname⟩ | ⟨f, hf, hname⟩
  · simp [HwHookSession.name] at hname
  · simp only [FallbackHookRecord.name, Prod.mk.injEq, Hook.fallback.injEq] at hname
    rw [← hname.2]
    exact h.handles f hf

theorem Kept.arm_attaches (h : Kept t a) (hne : tag ≠ "")
    (htag : tagContains tag "dlopen" = true → t.isDlopen target = true) (hpos : 0 < a.manager.nextId)
    (hlt : a.manager.nextId < 2 ^ 31) (hyes : a.attaches target env = true) :
    ArmSpec t a true (a.canArm target env) (a.armsNew target env) target
      (a.armBreakpointOrFallback target tag env) := by
  obtain ⟨s, hactive, haddress, htry, hcases⟩ := tryAttach_attaches tag hyes
  have hkept := h.attach env.tids env.armable hne htag hpos hlt
  have hs : s ∈ (a.attach (breakAt target) tag env.tids env.armable).1.manager.sessions := by
    change s ∈ (a.manager.attach _ _ _).sessions
    rcases hcases with ⟨_, _, _, hsessions⟩ | ⟨_, hmem, hsessions⟩
    · rw [hsessions]
      simp
    · rwa [hsessions]
  have hid := hkept.ids s hs
  have harm : a.armBreakpointOrFallback target tag env =
      ((a.attach (breakAt target) tag env.tids env.armable).1, s.id) := by
    unfold armBreakpointOrFallback
    rw [htry]
    exact if_pos hid.1
  have hcan : a.canArm target env = true := by
    unfold canArm
    rw [hyes, Bool.true_or]
  have hinit : env.init = true := (Bool.and_eq_true _ _ ▸ hyes : env.init = true ∧ _).1
  have hnew : a.armsNew target env = a.manager.creates (breakAt target) env.tids env.armable := by
    unfold armsNew
    rw [hyes, hinit]
    simp
  have hnext := attach_nextId a.manager (breakAt target) env.tids env.armable
  rw [harm, hcan, hnew]
  refine ⟨hkept, attach_grows a _ tag _ _, fun _ => ⟨hid, fun sort hsort => ?_⟩, by simp, ?_, ?_, ?_⟩
  · exact ⟨s.name, mem_hooksOn.mpr (.inl ⟨s, hs, hactive, haddress ▸ hsort, rfl⟩), rfl⟩
  · rcases hcases with ⟨hc, href, _, hsessions⟩ | ⟨hc, _, hsessions⟩
    · refine iff_of_true (by rw [hc]; rfl) ⟨s.name, mem_live.mpr (.inl ⟨s, hs, hactive, rfl⟩), fun hmem => ?_⟩
      have := h.live_ref_lt hmem
      omega
    · have hlive : (a.attach (breakAt target) tag env.tids env.armable).1.live = a.live := by
        unfold live
        change ((a.manager.attach _ _ _).sessions.filter _).map _ ++ _ = _
        rw [hsessions]
        rfl
      refine iff_of_false (by rw [hc]; simp) ?_
      rintro ⟨p, hp, hnot⟩
      rw [hlive] at hp
      exact hnot hp
  · change _ ≤ (a.manager.attach _ _ _).nextId ∧ (a.manager.attach _ _ _).nextId ≤ _
    omega
  · exact ⟨le_rfl, Nat.le_succ _⟩

theorem Kept.arm_fallback (h : Kept t a) (hlt : a.manager.nextId < 2 ^ 31) (hfpos : 0 < a.nextFallbackId)
    (hflt : a.nextFallbackId < 2 ^ 31) (hno : a.attaches target env = false) :
    ArmSpec t a true (a.canArm target env) (a.armsNew target env) target
      (a.armBreakpointOrFallback target tag env) := by
  obtain ⟨n, r, htry, hn, hr⟩ := h.tryAttach_fails tag hno
  have hmanager : HwHook.Inv { a.manager with nextId := n, nextRef := r } :=
    ⟨h.manager.accounted, h.manager.sound, h.manager.refs,
      fun s hs => Nat.lt_of_lt_of_le (h.manager.refs_lt s hs) hr,
      fun flight hflight => ⟨Nat.lt_of_lt_of_le (h.manager.flights flight hflight).1 hr,
        (h.manager.flights flight hflight).2⟩, h.manager.capacity⟩
  have harm : a.armBreakpointOrFallback target tag env =
      HwAgent.fallback { a with manager := { a.manager with nextId := n, nextRef := r } } target tag env.readable
        env.hooked := by
    unfold armBreakpointOrFallback
    rw [htry]
    exact if_neg (by simp)
  have hcan : a.canArm target env = (env.readable && env.hooked) := by
    unfold canArm
    rw [hno, Bool.false_or]
  have hcreates : (env.init && a.manager.creates (breakAt target) env.tids env.armable) = false := by
    unfold attaches at hno
    cases hinit : env.init with
    | false => rfl
    | true =>
      rw [hinit, Bool.true_and] at hno
      rcases attach_spec a.manager (breakAt target) env.tids env.armable with ⟨_, s, hret, _⟩ | ⟨hc, _⟩
      · rw [hret] at hno
        cases hno
      · rw [hc]
        rfl
  have hnew : a.armsNew target env = (env.readable && env.hooked) := by
    unfold armsNew
    rw [hno, hcreates]
    simp
  have hnext : a.manager.nextId ≤ n ∧ n ≤ a.manager.nextId + 1 := by omega
  rw [harm, hcan, hnew]
  by_cases hok : env.readable = true ∧ env.hooked = true
  · rw [hok.1, hok.2]
    refine ⟨⟨hmanager, h.ids, ?_, h.tagged⟩, ⟨fun _ hs => hs, fun f hf => List.mem_append_left _ hf⟩,
      fun _ => ⟨⟨hfpos, hflt⟩, fun sort hsort => ?_⟩, by simp, ?_, hnext, ?_⟩
    · intro f hf
      rcases List.mem_append.mp hf with hf | hf
      · exact Nat.lt_succ_of_lt (h.handles f hf)
      · rw [List.mem_singleton.mp hf]
        exact Nat.lt_succ_self _
    · exact ⟨_, mem_hooksOn.mpr (.inr ⟨_, List.mem_append_right _ List.mem_cons_self, hsort, rfl⟩), rfl⟩
    · refine iff_of_true rfl ⟨(a.nextFallbackId, .fallback a.nextHandle),
        mem_live.mpr (.inr ⟨_, List.mem_append_right _ List.mem_cons_self, rfl⟩), fun hmem => ?_⟩
      exact absurd (h.live_handle_lt hmem) (Nat.lt_irrefl _)
    · change a.nextFallbackId ≤ (a.nextFallbackId + 1) % 2 ^ 32 ∧ (a.nextFallbackId + 1) % 2 ^ 32 ≤ _
      omega
  · have hboth : (env.readable && env.hooked) = false := by
      rw [← Bool.not_eq_true, Bool.and_eq_true]
      exact hok
    have hsame : HwAgent.fallback { a with manager := { a.manager with nextId := n, nextRef := r } } target tag
        env.readable env.hooked = ({ a with manager := { a.manager with nextId := n, nextRef := r } }, 0) := by
      unfold HwAgent.fallback
      rcases Bool.and_eq_false_iff.mp hboth with hnot | hnot
      · rw [hnot]
        rfl
      · rw [hnot]
        simp
    rw [hboth, hsame]
    refine ⟨⟨hmanager, h.ids, h.handles, h.tagged⟩, ⟨fun _ hs => hs, fun _ hf => hf⟩, by simp,
      fun _ => ⟨rfl, ⟨n, r, rfl⟩, rfl⟩, iff_of_false (by simp) ?_, hnext, le_rfl, Nat.le_succ _⟩
    rintro ⟨p, hp, hnot⟩
    exact hnot hp

theorem Kept.armIf (h : Kept t a) (want : Bool) (target : Nat) {tag : String} (env : Arming) (hne : tag ≠ "")
    (htag : want = true → tagContains tag "dlopen" = true → t.isDlopen target = true)
    (hpos : 0 < a.manager.nextId) (hlt : a.manager.nextId < 2 ^ 31) (hfpos : 0 < a.nextFallbackId)
    (hflt : a.nextFallbackId < 2 ^ 31) :
    ArmSpec t a want (a.canArm target env) (a.armsNew target env) target (a.armIf want target tag env) := by
  cases want with
  | true =>
    cases hattaches : a.attaches target env with
    | true => exact h.arm_attaches hne (htag rfl) hpos hlt hattaches
    | false => exact h.arm_fallback hlt hfpos hflt hattaches
  | false =>
    refine ⟨h, .refl a, by simp, fun _ => ⟨rfl, .refl a⟩, iff_of_false (by simp) ?_, ⟨le_rfl, Nat.le_succ _⟩,
      le_rfl, Nat.le_succ _⟩
    rintro ⟨p, hp, hnot⟩
    exact hnot hp

/-! ## The three attempts -/

/-- What a call that arms has to say: an id is that of a hook on `dlopen` or `android_dlopen_ext`. -/
theorem ArmSpec.id_of_pos {want can new : Bool} {r : HwAgent × Nat} (h : ArmSpec t a want can new target r)
    (hwant : want = true → t.isDlopen target = true) (hpos : 0 < r.2) :
    r.2 < 2 ^ 31 ∧ ∃ p ∈ r.1.hooksOn t.isDlopen, p.1 = r.2 := by
  cases hc : (want && can) with
  | true =>
    obtain ⟨hid, hhook⟩ := h.armed hc
    exact ⟨hid.2, hhook t.isDlopen (hwant (Bool.and_eq_true_iff.mp hc).1)⟩
  | false =>
    rw [(h.failed hc).1] at hpos
    exact absurd hpos (Nat.lt_irrefl 0)

theorem ArmSpec.eq_zero_iff {want can new : Bool} {r : HwAgent × Nat} (h : ArmSpec t a want can new target r) :
    r.2 = 0 ↔ (want && can) = false := by
  cases hc : (want && can) with
  | true =>
    have := (h.armed hc).1.1
    simp
    omega
  | false => exact iff_of_true (h.failed hc).1 rfl

structure ThreeSpec (t : Targets) (a : HwAgent) (constructors : Bool) (env : Surroundings)
    (r : HwAgent × Nat × Nat) : Prop where
  kept : Kept t r.1
  id1 : 0 < r.2.1 → r.2.1 < 2 ^ 31 ∧ ∃ p ∈ r.1.hooksOn t.isDlopen, p.1 = r.2.1
  id2 : 0 < r.2.2 → r.2.2 < 2 ^ 31 ∧ ∃ p ∈ r.1.hooksOn t.isDlopen, p.1 = r.2.2
  fails : r.2.1 = 0 → r.2.2 = 0 → (t.dlopenExt ≠ 0 ∨ t.dlopen ≠ 0) →
    ((∀ p ∈ r.1.live, p ∈ a.live) ↔ ¬ a.ArmsOnlyConstructors t constructors env)
  backed : 0 < r.2.1 ∨ 0 < r.2.2 → ¬ a.ArmsOnlyConstructors t constructors env

theorem Kept.armDlopenHooks (h : Kept t a) (hids : a.IdsLeft) (constructors : Bool) (env : Surroundings) :
    ThreeSpec t a constructors env (a.armDlopenHooks t constructors env) := by
  obtain ⟨hpos, hlt, hfpos, hflt⟩ := hids
  unfold HwAgent.armDlopenHooks
  dsimp only
  have hext : decide (t.dlopenExt ≠ 0) = true → t.isDlopen t.dlopenExt = true := fun hwant => by
    simpa [Targets.isDlopen] using hwant
  have hdl : (t.dlopen ≠ 0 && t.dlopen ≠ t.dlopenExt) = true → t.isDlopen t.dlopen = true := fun hwant => by
    simp only [Bool.and_eq_true, decide_eq_true_eq] at hwant
    simpa [Targets.isDlopen] using hwant.1
  have h1 := h.armIf (t.dlopenExt ≠ 0) t.dlopenExt env.dlopenExt (show "android_dlopen_ext" ≠ "" by decide)
    (fun hwant _ => hext hwant) hpos (by omega) hfpos (by omega)
  generalize a.armIf (t.dlopenExt ≠ 0) t.dlopenExt "android_dlopen_ext" env.dlopenExt = r1 at h1
  have hnext1 := h1.nextId
  have hfnext1 := h1.nextFallbackId
  have h2 := h1.kept.armIf (t.dlopen ≠ 0 && t.dlopen ≠ t.dlopenExt) t.dlopen env.dlopen
    (show "dlopen" ≠ "" by decide) (fun hwant _ => hdl hwant)
    (by omega) (by omega) (by omega) (by omega)
  generalize r1.1.armIf (t.dlopen ≠ 0 && t.dlopen ≠ t.dlopenExt) t.dlopen "dlopen" env.dlopen = r2 at h2
  have hnext2 := h2.nextId
  have hfnext2 := h2.nextFallbackId
  have h3 := h2.kept.armIf (constructors && t.callConstructors ≠ 0) t.callConstructors env.callConstructors
    (show "call_constructors" ≠ "" by decide)
    (fun _ htag => absurd htag (by decide)) (by omega) (by omega) (by omega) (by omega)
  generalize r2.1.armIf (constructors && t.callConstructors ≠ 0) t.callConstructors "call_constructors"
    env.callConstructors = r3 at h3
  -- without an id the state is as before up to the counters, and only the third attempt is left
  have hfirst : r1.2 = 0 → (t.dlopenExt ≠ 0 → a.canArm t.dlopenExt env.dlopenExt = false) ∧ SameHooks a r1.1 := by
    intro hzero
    have hno := h1.eq_zero_iff.mp hzero
    refine ⟨fun hne => ?_, (h1.failed hno).2⟩
    simpa [hne] using hno
  have hsecond : r1.2 = 0 → r2.2 = 0 → (t.dlopen ≠ 0 → t.dlopen ≠ t.dlopenExt →
      a.canArm t.dlopen env.dlopen = false) ∧ SameHooks a r2.1 := by
    intro hzero hzero'
    have hno := h2.eq_zero_iff.mp hzero'
    have hsame := (hfirst hzero).2
    refine ⟨fun hne hne' => ?_, hsame.trans (h2.failed hno).2⟩
    rw [← hsame.canArm]
    simpa [hne, hne'] using hno
  refine ⟨h3.kept, ?_, ?_, ?_, ?_⟩
  · intro hid
    obtain ⟨hlt', p, hp, hpid⟩ := h1.id_of_pos hext hid
    exact ⟨hlt', p, (h2.grows.trans h3.grows).hooksOn hp, hpid⟩
  · intro hid
    obtain ⟨hlt', p, hp, hpid⟩ := h2.id_of_pos hdl hid
    exact ⟨hlt', p, h3.grows.hooksOn hp, hpid⟩
  · intro hzero hzero' hresolved
    have hsame := (hsecond hzero hzero').2
    have hnew : (constructors && t.callConstructors ≠ 0 && a.armsNew t.callConstructors env.callConstructors) = true ↔
        ∃ p ∈ r3.1.live, p ∉ a.live := by
      rw [← hsame.armsNew, ← hsame.live]
      exact h3.isNew
    have hstray : a.ArmsOnlyConstructors t constructors env ↔ ∃ p ∈ r3.1.live, p ∉ a.live := by
      rw [← hnew, Bool.and_eq_true, Bool.and_eq_true, decide_eq_true_eq]
      exact ⟨fun hs => ⟨⟨hs.2.2.2.1, hs.2.2.2.2.1⟩, hs.2.2.2.2.2⟩, fun hs => ⟨hresolved, (hfirst hzero).1,
        (hsecond hzero hzero').1, hs.1.1, hs.1.2, hs.2⟩⟩
    rw [hstray]
    push Not
    rfl
  · rintro hreported ⟨_, hnoExt, hnoDl, _⟩
    have hzero : r1.2 = 0 := by
      rw [h1.eq_zero_iff]
      by_cases hne : t.dlopenExt = 0
      · simp [hne]
      · simp [hnoExt hne]
    have hzero' : r2.2 = 0 := by
      rw [h2.eq_zero_iff, (hfirst hzero).2.canArm]
      by_cases hne : t.dlopen = 0
      · simp [hne]
      · by_cases hne' : t.dlopen = t.dlopenExt
        · simp [hne']
        · simp [hnoDl hne hne']
    dsimp only at hreported
    omega

/-! ## The other steps -/

/-- Sessions that are armed on more threads are on the same addresses, under the same names. -/
theorem rearmed (a : HwAgent) (env : Surroundings) :
    ∃ f : HwHookSession → HwHookSession, (a.rearmMissingThreads env).manager.sessions = a.manager.sessions.map f ∧
      ∀ s, ∃ armed, f s = { s with armedThreads := armed } := by
  refine ⟨fun s => if s.active then { s with armedThreads := s.armedThreads ++ env.tids.filter (fun t =>
    (s.config.threadId = 0 || s.config.threadId = t) && t ∉ s.armedThreads && t ∈ env.armable) } else s, rfl, ?_⟩
  intro s
  dsimp only
  split
  · exact ⟨_, rfl⟩
  · exact ⟨s.armedThreads, rfl⟩

theorem rearm_hooksOn (a : HwAgent) (env : Surroundings) :
    (a.rearmMissingThreads env).hooksOn want = a.hooksOn want := by
  obtain ⟨f, hf, hsame⟩ := rearmed a env
  have hfilter : (fun s => s.active && want s.config.address) ∘ f = fun s => s.active && want s.config.address := by
    funext s
    obtain ⟨armed, hs⟩ := hsame s
    rw [Function.comp_apply, hs]
  have hname : ∀ s, (f s).name = s.name := by
    intro s
    obtain ⟨armed, hs⟩ := hsame s
    rw [hs]
    rfl
  unfold hooksOn
  rw [hf, List.filter_map, List.map_map, hfilter]
  refine congrArg (· ++ _) ?_
  exact List.map_congr_left (fun s _ => hname s)

theorem rearm_dlopenSession (a : HwAgent) (env : Surroundings) :
    ((a.rearmMissingThreads env).dlopenSession.map HwHookSession.id) = a.dlopenSession.map HwHookSession.id := by
  obtain ⟨f, hf, hsame⟩ := rearmed a env
  have hactive : ∀ s, (f s).active = s.active := by
    intro s
    obtain ⟨armed, hs⟩ := hsame s
    rw [hs]
  have htags : ∀ s, tagContains (a.tags (f s).ref) "dlopen" = tagContains (a.tags s.ref) "dlopen" := by
    intro s
    obtain ⟨armed, hs⟩ := hsame s
    rw [hs]
  have hid : ∀ s, (f s).id = s.id := by
    intro s
    obtain ⟨armed, hs⟩ := hsame s
    rw [hs]
  unfold dlopenSession
  rw [hf, List.filter_map, List.find?_map, Option.map_map]
  have hfilter : a.manager.sessions.filter (HwHookSession.active ∘ f) =
      a.manager.sessions.filter HwHookSession.active := List.filter_congr (fun s _ => hactive s)
  have hfind : (fun s => tagContains (a.tags s.ref) "dlopen") ∘ f =
      fun s => tagContains (a.tags s.ref) "dlopen" := funext htags
  have hids : HwHookSession.id ∘ f = HwHookSession.id := funext hid
  rw [hfilter, hids]
  exact congrArg (fun p => ((a.manager.sessions.filter HwHookSession.active).find? p).map _) hfind

theorem Kept.rearm (h : Kept t a) (env : Surroundings) : Kept t (a.rearmMissingThreads env) := by
  obtain ⟨f, hf, hsame⟩ := rearmed a env
  refine ⟨h.manager.rearmMissingThreads env.tids env.armable, ?_, h.handles, ?_⟩
  · rw [hf]
    intro s' hs'
    obtain ⟨s, hs, rfl⟩ := List.mem_map.mp hs'
    obtain ⟨armed, heq⟩ := hsame s
    rw [heq]
    exact h.ids s hs
  · rw [hf]
    intro s' hs'
    obtain ⟨s, hs, rfl⟩ := List.mem_map.mp hs'
    obtain ⟨armed, heq⟩ := hsame s
    rw [heq]
    exact h.tagged s hs

theorem Kept.detach (h : Kept t a) (id : Nat) : Kept t (a.detachSessionOrFallback id).1 := by
  unfold detachSessionOrFallback
  split
  · have hsub : ∀ s ∈ (a.manager.detach id).sessions, s ∈ a.manager.sessions := by
      intro s hs
      rw [detach_sessions] at hs
      exact List.mem_of_mem_eraseP hs
    exact ⟨h.manager.detach id, fun s hs => h.ids s (hsub s hs), h.handles, fun s hs => h.tagged s (hsub s hs)⟩
  · exact ⟨h.manager, h.ids, fun f hf => h.handles f (List.mem_of_mem_eraseP hf), h.tagged⟩

theorem Kept.dlopenSession (h : Kept t a) {s : HwHookSession} (hs : a.dlopenSession = some s) :
    handleId s.id = s.id ∧ s.name ∈ a.hooksOn t.isDlopen := by
  have hmem := List.mem_of_find?_eq_some hs
  have htag := List.find?_some hs
  rw [List.mem_filter] at hmem
  have hlt := (h.ids s hmem.1).2
  refine ⟨?_, mem_hooksOn.mpr (.inl ⟨s, hmem.1, hmem.2, h.tagged s hmem.1 htag, rfl⟩)⟩
  unfold handleId
  rw [Nat.mod_eq_of_lt (by omega), if_pos hlt]

theorem Kept.init (t : Targets) : Kept t {} := ⟨HwHook.Inv.init, by simp, by simp, by simp⟩

end

end HwAgent

namespace Monitor

variable {t : Targets} {s : Monitor}

open HwAgent

theorem step_kept (s : Monitor) (c : MonitorCall) (h : HwAgent.Kept t s.agent) (hids : c.IdsLeft s) :
    HwAgent.Kept t (s.step t c).agent := by
  cases c with
  | setupDlopenHwMonitor constructors qbdiFilter env =>
    change HwAgent.Kept t (s.setupDlopenHwMonitor t constructors qbdiFilter env).1.agent
    unfold setupDlopenHwMonitor
    split
    · exact h.rearm env
    split
    · exact h
    · rename_i hactive _
      exact (h.armDlopenHooks (hids (by simpa using hactive)) _ env).kept
  | watchDlopen options env =>
    change HwAgent.Kept t (s.jsHwWatchDlopen t options env).1.agent
    unfold jsHwWatchDlopen
    split
    · exact h.rearm env
    split
    · exact h
    · rename_i hactive _
      exact (h.armDlopenHooks (hids (by simpa using hactive)) _ env).kept
  | detach id => exact h.detach id
  | hwHookDetachAll =>
    have hsessions : s.agent.manager.detachAll.sessions = [] := rfl
    refine ⟨h.manager.detachAll, ?_, by simp [Monitor.step, hwHookDetachAll], ?_⟩
    · change ∀ x ∈ s.agent.manager.detachAll.sessions, _
      rw [hsessions]
      simp
    · change ∀ x ∈ s.agent.manager.detachAll.sessions, _
      rw [hsessions]
      simp

/-- What a call that arms reports is right, unless it arms the hook for constructors alone. -/
theorem setup_reports_iff (h : HwAgent.Kept t s.agent) {constructors : Bool} {qbdiFilter : String}
    {env : Surroundings}
    (hids : (MonitorCall.setupDlopenHwMonitor constructors qbdiFilter env).IdsLeft s) :
    (MonitorCall.setupDlopenHwMonitor constructors qbdiFilter env).Backed t s ↔
      (MonitorCall.setupDlopenHwMonitor constructors qbdiFilter env).Reports t s := by
  unfold MonitorCall.Backed MonitorCall.Reports setupDlopenHwMonitor
  dsimp only
  cases hactive : s.dlopenMonitorActive with
  | true =>
    rw [if_pos rfl, if_pos rfl, if_pos rfl, rearm_hooksOn]
  | false =>
    simp only [Bool.false_eq_true, if_false]
    by_cases hnone : t.dlopenExt = 0 ∧ t.dlopen = 0
    · rw [if_pos hnone, if_neg (by simp)]
      refine iff_of_true ?_ (fun _ hp => hp)
      rintro ⟨hresolved, _⟩
      omega
    · rw [if_neg hnone]
      have hspec := h.armDlopenHooks (hids hactive) (constructors || qbdiFilter ≠ "") env
      dsimp only
      by_cases hok : 0 < (s.agent.armDlopenHooks t (constructors || qbdiFilter ≠ "") env).2.1 ∨
          0 < (s.agent.armDlopenHooks t (constructors || qbdiFilter ≠ "") env).2.2
      · rw [if_pos (by simpa using hok)]
        refine iff_of_true (hspec.backed hok) ?_
        rcases hok with hok | hok
        · obtain ⟨_, p, hp, _⟩ := hspec.id1 hok
          exact List.ne_nil_of_mem hp
        · obtain ⟨_, p, hp, _⟩ := hspec.id2 hok
          exact List.ne_nil_of_mem hp
      · rw [if_neg (by simpa using hok)]
        exact (hspec.fails (by omega) (by omega) (by omega)).symm

theorem watch_reports_iff (h : HwAgent.Kept t s.agent) {options : WatchOptions} {env : Surroundings}
    (hids : (MonitorCall.watchDlopen options env).IdsLeft s) :
    (MonitorCall.watchDlopen options env).Backed t s ↔ (MonitorCall.watchDlopen options env).Reports t s := by
  unfold MonitorCall.Backed MonitorCall.Reports jsHwWatchDlopen
  dsimp only
  cases hactive : s.dlopenMonitorActive with
  | true =>
    rw [if_pos rfl, if_pos rfl]
    dsimp only
    rw [rearm_hooksOn, rearm_dlopenSession]
    simp only [Option.mem_def, Option.some.injEq, reduceCtorEq, false_implies, and_true, forall_eq']
    cases hs : s.agent.dlopenSession with
    | none => simp [handleId]
    | some x =>
      obtain ⟨hid, hx⟩ := h.dlopenSession hs
      refine iff_of_true (.inl rfl) ⟨x.name, hx, ?_⟩
      exact hid.symm
  | false =>
    simp only [Bool.false_eq_true, if_false]
    by_cases hnone : t.dlopenExt = 0 ∧ t.dlopen = 0
    · rw [if_pos hnone]
      refine iff_of_true ?_ ⟨by simp, fun _ _ hp => hp⟩
      rintro ⟨hresolved, _⟩
      omega
    · rw [if_neg hnone]
      have hspec := h.armDlopenHooks (hids hactive) options.wantsConstructors env
      dsimp only
      generalize s.agent.armDlopenHooks t options.wantsConstructors env = r at hspec
      by_cases hok : r.2.1 = 0 ∧ r.2.2 = 0
      · rw [if_pos hok]
        simp only [Option.not_mem_none, false_implies, implies_true, true_and, forall_const]
        exact (hspec.fails hok.1 hok.2 (by omega)).symm
      · rw [if_neg hok]
        refine iff_of_true (hspec.backed (by omega)) ⟨?_, by simp⟩
        intro id hid
        obtain rfl := Option.some.inj hid
        have hhandle : ∀ n, n < 2 ^ 31 → handleId n = n := by
          intro n hn
          unfold handleId
          rw [Nat.mod_eq_of_lt (by omega), if_pos hn]
        by_cases hfirst : r.2.1 = 0
        · obtain ⟨hlt, p, hp, hpid⟩ := hspec.id2 (by omega)
          exact ⟨p, hp, by rw [if_neg (by simpa using hfirst), hhandle _ hlt, hpid]⟩
        · obtain ⟨hlt, p, hp, hpid⟩ := hspec.id1 (by omega)
          exact ⟨p, hp, by rw [if_pos hfirst, hhandle _ hlt, hpid]⟩

end Monitor

/-! ## Every run -/

/-- As long as the counters have ids left, every call of a run reports the truth exactly if each one finds the hooks
    it relies on, and none arms the hook for constructors alone. -/
theorem run_reports_iff (t : Targets) (cs : List MonitorCall)
    (hids : Along (Monitor.step t) (fun s c => c.IdsLeft s) {} cs) :
    Along (Monitor.step t) (fun s c => c.Backed t s) {} cs ↔
      Along (Monitor.step t) (fun s c => c.Reports t s) {} cs := by
  have hkeep : ∀ s c, HwAgent.Kept t (Monitor.agent s) → MonitorCall.IdsLeft s c → MonitorCall.Backed t s c →
      HwAgent.Kept t (Monitor.step t s c).agent := fun s c h hids _ => s.step_kept c h hids
  refine Along.iff_of_invariant hkeep ?_ (HwAgent.Kept.init t) hids
  intro s c h hids
  cases c with
  | setupDlopenHwMonitor constructors qbdiFilter env => exact Monitor.setup_reports_iff h hids
  | watchDlopen options env => exact Monitor.watch_reports_iff h hids
  | detach id => exact Iff.rfl
  | hwHookDetachAll => exact Iff.rfl

/-- A process whose threads can be armed, and one in which only inline hooks are left. -/
def armedAll : Arming := { tids := [10], armable := [10], readable := true, hooked := true }

def armedInline : Arming := { tids := [10], armable := [], readable := true, hooked := true }

def armedNone : Arming := { tids := [10], armable := [], readable := true, hooked := false }

def libdl : Targets := { dlopenExt := 0x1000, dlopen := 0x2000, callConstructors := 0x3000 }

def surroundings (dlopenExt dlopen callConstructors : Arming) : Surroundings :=
  { tids := [10], armable := [10], dlopenExt, dlopen, callConstructors }

/-- The monitor is set up twice, and an id is detached in between. -/
def watching : List MonitorCall :=
  [.setupDlopenHwMonitor true "" (surroundings armedAll armedInline armedNone), .detach 10000,
    .setupDlopenHwMonitor false "" (surroundings armedNone armedNone armedNone),
    .watchDlopen {} (surroundings armedNone armedNone armedNone)]

theorem watching_reports : Along (Monitor.step libdl) (fun s c => c.Reports libdl s) {} watching :=
  (run_reports_iff libdl watching (by decide)).mp (by decide)

/-- Everything is detached in between. -/
def detached : List MonitorCall :=
  [.setupDlopenHwMonitor false "" (surroundings armedAll armedAll armedAll), .hwHookDetachAll,
    .setupDlopenHwMonitor false "" (surroundings armedAll armedAll armedAll)]

/-- Only inline hooks are left, and the handle has the id of none. -/
def inlineOnly : List MonitorCall :=
  [.setupDlopenHwMonitor false "" (surroundings armedInline armedInline armedInline),
    .watchDlopen {} (surroundings armedInline armedInline armedInline)]

/-- The hook for constructors stays behind a call that fails. -/
def constructorsOnly : List MonitorCall :=
  [.setupDlopenHwMonitor true "" (surroundings armedNone armedNone armedAll)]

theorem monitor_misreports :
    ¬ Along (Monitor.step libdl) (fun s c => c.Reports libdl s) {} detached ∧
      ¬ Along (Monitor.step libdl) (fun s c => c.Reports libdl s) {} inlineOnly ∧
      ¬ Along (Monitor.step libdl) (fun s c => c.Reports libdl s) {} constructorsOnly := by
  decide

end ArtPi.HwHook
