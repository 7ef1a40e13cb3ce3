import ArtPi.HwHook.Manager

set_option autoImplicit false

/-! # Who owns a debug slot

A session owns its assigned slot, and the breakpoint slot it steps over with. The table of used slots
is right in every state of a run in which no session is made to step over twice at a time and every
watchpoint finds a slot to step over with: the second step-over forgets the slot of the first one,
and a watchpoint without a slot gives its own away and stays in the list. -/

namespace ArtPi.HwHook

open ArtPi.Lib HwHookManager

def HwHookSession.owns (s : HwHookSession) : List Slot :=
  (s.config.type, s.assignedSlot) :: s.stepOverSlot.toList.map (fun k => (.breakpoint, k))

def ownedBy (ss : List HwHookSession) : List Slot := ss.flatMap HwHookSession.owns

/-- A slot is marked as used iff exactly one session of the list owns it. -/
def SlotsAccounted (m : HwHookManager) : Prop := Accounted m.slots (ownedBy m.sessions)

/-- The call of `HandleException` that goes on finds a session that does not step over yet, and, for
    a watchpoint, a slot to step over with. -/
def Op.stepsOnce (m : HwHookManager) : Op → Prop
  | .leave i _ _ => ∀ flight ∈ m.inFlight[i]?, flight.once = false →
      ∀ s ∈ m.sessions.find? (fun s => s.ref = flight.ref), s.active = true →
        ((m.stepSlot s).isSome → s.stepOverSlot = none) ∧
          (s.config.type = .watchpoint → (m.stepSlot s).isSome)
  | _ => True

instance Op.decidableStepsOnce (m : HwHookManager) : ∀ op : Op, Decidable (op.stepsOnce m)
  | .leave i _ _ => inferInstanceAs (Decidable (∀ flight ∈ m.inFlight[i]?, flight.once = false →
      ∀ s ∈ m.sessions.find? (fun s => s.ref = flight.ref), s.active = true →
        ((m.stepSlot s).isSome → s.stepOverSlot = none) ∧
          (s.config.type = .watchpoint → (m.stepSlot s).isSome)))
  | .attach .. | .detach .. | .detachAll | .refreshCapacity .. | .rearmMissingThreads .. | .enter .. =>
    inferInstanceAs (Decidable True)

/-! ## The invariant -/

structure Sound (s : HwHookSession) : Prop where
  active : s.active = true
  stepping : 0 < s.steppingThread ↔ s.stepOverSlot.isSome
  once : s.config.once = true → s.stepOverSlot = none
  inRange : s.assignedSlot < kMaxHwSlots

structure Inv (m : HwHookManager) : Prop where
  accounted : SlotsAccounted m
  sound : ∀ s ∈ m.sessions, Sound s
  refs : (m.sessions.map HwHookSession.ref).Nodup
  refs_lt : ∀ s ∈ m.sessions, s.ref < m.nextRef
  flights : ∀ flight ∈ m.inFlight, flight.ref < m.nextRef ∧
    (flight.once = false → ∀ s ∈ m.sessions, s.ref = flight.ref → s.config.once = false)
  capacity : ∀ type, m.capacity type ≤ kMaxHwSlots

theorem Inv.init : Inv {} where
  accounted := Accounted.nil
  sound := by simp
  refs := List.nodup_nil
  refs_lt := by simp
  flights := by simp
  capacity := by
    intro type
    cases type <;> decide

/-! ## One session among the others -/

section

variable {m : HwHookManager} {s : HwHookSession} {pre post : List HwHookSession}

theorem ownedBy_append (ss ss' : List HwHookSession) :
    ownedBy (ss ++ ss') = ownedBy ss ++ ownedBy ss' := List.flatMap_append

theorem ownedBy_middle (pre post : List HwHookSession) (s : HwHookSession) :
    (ownedBy (pre ++ s :: post)).Perm (s.owns ++ ownedBy (pre ++ post)) := by
  rw [ownedBy_append, ownedBy_append]
  exact List.perm_append_comm_assoc _ _ _

theorem updateFirst_split (f : HwHookSession → HwHookSession) (post : List HwHookSession)
    (h : ∀ x ∈ pre, x.ref ≠ s.ref) :
    updateFirst s.ref f (pre ++ s :: post) = pre ++ f s :: post := by
  induction pre with
  | nil => simp [updateFirst]
  | cons x pre ih =>
    have hx : x.ref ≠ s.ref := h x (by simp)
    simp only [List.cons_append, updateFirst, if_neg hx]
    rw [ih (fun y hy => h y (by simp [hy]))]

theorem eraseP_split {p : HwHookSession → Bool} (post : List HwHookSession)
    (h : ∀ x ∈ pre, p x = false) (hs : p s = true) :
    (pre ++ s :: post).eraseP p = pre ++ post := by
  rw [List.eraseP_append_right _ (fun x hx => by simp [h x hx]), List.eraseP_cons_of_pos hs]

/-- A session of the list, with no other session for the same object. -/
theorem Inv.split (h : Inv m) (hs : s ∈ m.sessions) :
    ∃ pre post, m.sessions = pre ++ s :: post ∧ ∀ x ∈ pre, x.ref ≠ s.ref := by
  obtain ⟨pre, post, hsplit⟩ := List.append_of_mem hs
  refine ⟨pre, post, hsplit, fun x hx heq => ?_⟩
  have hrefs := h.refs
  rw [hsplit, List.map_append, List.map_cons, List.nodup_append] at hrefs
  exact hrefs.2.2 x.ref (List.mem_map_of_mem hx) s.ref (by simp) heq

/-- The sessions but one keep the invariant, if its slots are given back. -/
theorem Inv.remove (h : Inv m) (hsplit : m.sessions = pre ++ s :: post) {slots : Slot → Bool}
    (hslots : Accounted slots (ownedBy (pre ++ post))) :
    Inv { m with slots := slots, sessions := pre ++ post } := by
  have hsub : List.Sublist (pre ++ post) m.sessions := by
    rw [hsplit]
    exact List.Sublist.append_left (List.sublist_cons_self s post) pre
  refine ⟨hslots, ?_, h.refs.sublist (hsub.map _), ?_, ?_, h.capacity⟩
  · exact fun x hx => h.sound x (hsub.mem hx)
  · exact fun x hx => h.refs_lt x (hsub.mem hx)
  · intro flight hflight
    refine ⟨(h.flights flight hflight).1, fun honce x hx => ?_⟩
    exact (h.flights flight hflight).2 honce x (hsub.mem hx)

/-- A session is replaced by one for the same object, and the slots follow. -/
theorem Inv.replace (h : Inv m) (hsplit : m.sessions = pre ++ s :: post) (s' : HwHookSession)
    (href : s'.ref = s.ref) (honce : s'.config.once = s.config.once) (hsound : Sound s')
    {slots : Slot → Bool} (hslots : Accounted slots (s'.owns ++ ownedBy (pre ++ post))) :
    Inv { m with slots := slots, sessions := pre ++ s' :: post } := by
  have hmem : ∀ x ∈ pre ++ s' :: post, x = s' ∨ x ∈ m.sessions := by
    intro x hx
    rw [hsplit]
    simp only [List.mem_append, List.mem_cons] at hx ⊢
    tauto
  have hs : s ∈ m.sessions := by
    rw [hsplit]
    simp
  refine ⟨hslots.perm (ownedBy_middle pre post s').symm, ?_, ?_, ?_, ?_, h.capacity⟩
  · intro x hx
    rcases hmem x hx with rfl | hx
    · exact hsound
    · exact h.sound x hx
  · have hrefs := h.refs
    rw [hsplit] at hrefs
    simpa [href] using hrefs
  · intro x hx
    rcases hmem x hx with rfl | hx
    · rw [href]
      exact h.refs_lt s hs
    · exact h.refs_lt x hx
  · intro flight hflight
    refine ⟨(h.flights flight hflight).1, fun hflight' x hx hxref => ?_⟩
    have hother := (h.flights flight hflight).2 hflight'
    rcases hmem x hx with rfl | hx
    · rw [honce]
      exact hother s hs (by rw [← href, hxref])
    · exact hother x hx hxref

theorem Inv.ref_eq (h : Inv m) {s' : HwHookSession} (hs : s ∈ m.sessions) (hs' : s' ∈ m.sessions)
    (heq : s'.ref = s.ref) : s' = s :=
  List.inj_on_of_nodup_map h.refs hs' hs heq

/-! ## Slots taken and given back -/

theorem firstFree_spec {type : HwHookType} {want : Nat → Bool} {i : Nat}
    (h : m.firstFree type want = some i) :
    m.slots (type, i) = false ∧ want i = true ∧ i < m.capacity type := by
  unfold firstFree at h
  have hp := List.find?_some h
  have hmem := List.mem_of_find?_eq_some h
  simp only [Bool.and_eq_true, Bool.not_eq_true'] at hp
  exact ⟨hp.1, hp.2, List.mem_range.mp hmem⟩

theorem allocateSlot_spec {type : HwHookType} {requested : Int} {i : Nat}
    (h : m.allocateSlot type requested = some i) :
    m.slots (type, i) = false ∧ i < m.capacity type := by
  unfold allocateSlot at h
  split at h
  · split at h
    · rename_i hpos hfree
      obtain rfl := Option.some.inj h
      exact ⟨hfree.2, by omega⟩
    · exact absurd h (by simp)
  · obtain ⟨hfree, _, hlt⟩ := firstFree_spec h
    exact ⟨hfree, hlt⟩

theorem stepSlot_spec {i : Nat} (h : m.stepSlot s = some i) :
    m.slots (.breakpoint, i) = false := by
  unfold stepSlot at h
  split at h
  · exact (firstFree_spec h).1
  · exact (firstFree_spec h).1

theorem freeSlot_slots (type : HwHookType) {slot : Nat} (h : slot < kMaxHwSlots) :
    m.freeSlot type slot = m.setSlot (type, slot) false := by
  unfold freeSlot
  rw [if_pos h]

theorem Sound.release (hs : Sound s) {rest : List Slot}
    (h : Accounted m.slots (s.owns ++ rest)) : Accounted (m.release s).slots rest := by
  unfold HwHookManager.release
  cases hk : s.stepOverSlot with
  | none =>
    simp only [HwHookSession.owns, hk, Option.toList_none, List.map_nil, List.cons_append,
      List.nil_append] at h
    rw [freeSlot_slots _ hs.inRange]
    exact h.unmark
  | some k =>
    simp only [HwHookSession.owns, hk, Option.toList_some, List.map_cons, List.map_nil,
      List.cons_append, List.nil_append] at h
    have hstepping : s.steppingThread > 0 := hs.stepping.mpr (by simp [hk])
    simp only [hstepping, if_true]
    rw [freeSlot_slots _ hs.inRange]
    exact (h.perm (List.Perm.swap _ _ _)).unmark.unmark

theorem release_eq (m : HwHookManager) (s : HwHookSession) :
    ∃ slots, m.release s = { m with slots := slots } := by
  unfold release freeSlot setSlot
  cases s.stepOverSlot with
  | none =>
    dsimp only
    split
    · exact ⟨_, rfl⟩
    · exact ⟨m.slots, rfl⟩
  | some k =>
    dsimp only
    split <;> split
    · exact ⟨_, rfl⟩
    · exact ⟨_, rfl⟩
    · exact ⟨_, rfl⟩
    · exact ⟨m.slots, rfl⟩

theorem foldl_release (ss : List HwHookSession) (m : HwHookManager) :
    ∃ slots, ss.foldl release m = { m with slots := slots } := by
  induction ss generalizing m with
  | nil => exact ⟨m.slots, rfl⟩
  | cons s ss ih =>
    obtain ⟨slots, hs⟩ := release_eq m s
    obtain ⟨slots', hss⟩ := ih (m.release s)
    refine ⟨slots', ?_⟩
    rw [List.foldl_cons, hss, hs]

/-! ## One step -/

theorem Inv.owned_split (h : Inv m) (hsplit : m.sessions = pre ++ s :: post) :
    Accounted m.slots (s.owns ++ ownedBy (pre ++ post)) := by
  have := h.accounted
  unfold SlotsAccounted at this
  rw [hsplit] at this
  exact this.perm (ownedBy_middle pre post s)

theorem Inv.attach (h : Inv m) (config : HwHookConfig) (tids armable : List Nat) :
    Inv (m.attach config tids armable) := by
  unfold HwHookManager.attach
  split
  · exact h
  split
  · exact h
  cases halloc : m.allocateSlot config.type config.slot with
  | none => exact h
  | some slot =>
    obtain ⟨hfree, hlt⟩ := allocateSlot_spec halloc
    have hrange : slot < kMaxHwSlots := Nat.lt_of_lt_of_le hlt (h.capacity config.type)
    have htaken := h.accounted.mark hfree
    have hrefs : ∀ s ∈ m.sessions, s.ref < m.nextRef + 1 :=
      fun s hs => Nat.lt_succ_of_lt (h.refs_lt s hs)
    have hflights : ∀ flight ∈ m.inFlight, flight.ref < m.nextRef + 1 :=
      fun flight hflight => Nat.lt_succ_of_lt (h.flights flight hflight).1
    dsimp only
    generalize (if config.threadId > 0 then [config.threadId] else tids) = wanted
    split
    · -- no thread could be armed, and the slot goes back
      rw [freeSlot_slots _ hrange]
      exact ⟨htaken.unmark, h.sound, h.refs, hrefs,
        fun flight hflight => ⟨hflights flight hflight, (h.flights flight hflight).2⟩, h.capacity⟩
    · -- the new session owns the slot, and `nextRef` is an object that nobody has yet
      refine ⟨?_, ?_, ?_, ?_, ?_, h.capacity⟩
      · refine htaken.perm ?_
        dsimp only
        rw [ownedBy_append]
        exact (List.perm_append_singleton (config.type, slot) (ownedBy m.sessions)).symm
      · intro s hs
        rcases List.mem_append.mp hs with hs | hs
        · exact h.sound s hs
        · rw [List.mem_singleton.mp hs]
          exact ⟨rfl, by simp, fun _ => rfl, hrange⟩
      · dsimp only
        rw [List.map_append, List.nodup_append]
        refine ⟨h.refs, by simp, ?_⟩
        intro r hr r' hr' heq
        obtain ⟨s, hs, rfl⟩ := List.mem_map.mp hr
        have := h.refs_lt s hs
        simp only [List.map_cons, List.map_nil, List.mem_singleton] at hr'
        omega
      · intro s hs
        rcases List.mem_append.mp hs with hs | hs
        · exact hrefs s hs
        · rw [List.mem_singleton.mp hs]
          exact Nat.lt_succ_self _
      · intro flight hflight
        refine ⟨hflights flight hflight, fun honce s hs href => ?_⟩
        rcases List.mem_append.mp hs with hs | hs
        · exact (h.flights flight hflight).2 honce s hs href
        · rw [List.mem_singleton.mp hs] at href
          have := (h.flights flight hflight).1
          dsimp only at href
          omega

theorem detach_sessions (m : HwHookManager) (id : Nat) :
    (m.detach id).sessions = m.sessions.eraseP (fun s => s.id = id) := by
  unfold HwHookManager.detach
  cases hfind : m.sessions.find? (fun s => s.id = id) with
  | none => exact (List.eraseP_of_forall_not (List.find?_eq_none.mp hfind)).symm
  | some s => rfl

theorem Inv.detach (h : Inv m) (id : Nat) : Inv (m.detach id) := by
  unfold HwHookManager.detach
  cases hfind : m.sessions.find? (fun s => s.id = id) with
  | none => exact h
  | some s =>
    obtain ⟨hid, pre, post, hsplit, hpre⟩ := List.find?_eq_some_iff_append.mp hfind
    have hs : s ∈ m.sessions := List.mem_of_find?_eq_some hfind
    have herase : m.sessions.eraseP (fun s => s.id = id) = pre ++ post := by
      rw [hsplit]
      exact eraseP_split post (fun x hx => by simpa using hpre x hx) hid
    obtain ⟨slots, hslots⟩ := release_eq m s
    have hgiven := (h.sound s hs).release (h.owned_split hsplit)
    dsimp only
    rw [hslots] at hgiven ⊢
    rw [herase]
    exact h.remove hsplit hgiven

theorem Inv.detachAll (h : Inv m) : Inv m.detachAll := by
  obtain ⟨slots, hslots⟩ := foldl_release m.sessions m
  unfold HwHookManager.detachAll
  rw [hslots]
  exact ⟨Accounted.nil, by simp, List.nodup_nil, by simp,
    fun flight hflight => ⟨(h.flights flight hflight).1, by simp⟩, h.capacity⟩

theorem Inv.refreshCapacity (h : Inv m) (bp wp : Int) : Inv (m.refreshCapacity bp wp) := by
  refine ⟨h.accounted, h.sound, h.refs, h.refs_lt, h.flights, ?_⟩
  intro type
  cases type with
  | breakpoint => exact Nat.min_le_right _ _
  | watchpoint => exact Nat.min_le_right _ _

theorem Inv.rearmMissingThreads (h : Inv m) (tids armable : List Nat) :
    Inv (m.rearmMissingThreads tids armable) := by
  unfold HwHookManager.rearmMissingThreads
  -- arming changes neither the object of a session nor what it owns
  generalize hf : (fun s : HwHookSession => if s.active then
    { s with armedThreads := s.armedThreads ++ tids.filter (fun t =>
        (s.config.threadId = 0 || s.config.threadId = t) && t ∉ s.armedThreads && t ∈ armable) }
    else s) = f
  have hsame : ∀ s, ∃ armed, f s = { s with armedThreads := armed } := by
    intro s
    rw [← hf]
    dsimp only
    split
    · exact ⟨_, rfl⟩
    · exact ⟨s.armedThreads, rfl⟩
  have howns : ∀ s, (f s).owns = s.owns := by
    intro s
    obtain ⟨armed, hs⟩ := hsame s
    rw [hs]
    rfl
  have hrefs : ∀ s, (f s).ref = s.ref := by
    intro s
    obtain ⟨armed, hs⟩ := hsame s
    rw [hs]
  have hconfig : ∀ s, (f s).config = s.config := by
    intro s
    obtain ⟨armed, hs⟩ := hsame s
    rw [hs]
  have howned : ownedBy (m.sessions.map f) = ownedBy m.sessions := by
    unfold ownedBy
    rw [List.flatMap_map]
    simp only [howns]
  refine ⟨?_, ?_, ?_, ?_, ?_, h.capacity⟩
  · unfold SlotsAccounted
    dsimp only
    rw [howned]
    exact h.accounted
  · intro s' hs'
    obtain ⟨s, hs, rfl⟩ := List.mem_map.mp hs'
    obtain ⟨armed, heq⟩ := hsame s
    rw [heq]
    exact ⟨(h.sound s hs).active, (h.sound s hs).stepping, (h.sound s hs).once,
      (h.sound s hs).inRange⟩
  · dsimp only
    have : HwHookSession.ref ∘ f = HwHookSession.ref := funext hrefs
    rw [List.map_map, this]
    exact h.refs
  · intro s' hs'
    obtain ⟨s, hs, rfl⟩ := List.mem_map.mp hs'
    rw [hrefs]
    exact h.refs_lt s hs
  · intro flight hflight
    refine ⟨(h.flights flight hflight).1, fun honce s' hs' href => ?_⟩
    obtain ⟨s, hs, rfl⟩ := List.mem_map.mp hs'
    rw [hconfig]
    exact (h.flights flight hflight).2 honce s hs (by rw [← hrefs, href])

theorem Inv.addFlight (h : Inv m) (flight : Flight) (hlt : flight.ref < m.nextRef)
    (honce : flight.once = false → ∀ s ∈ m.sessions, s.ref = flight.ref → s.config.once = false) :
    Inv { m with inFlight := m.inFlight ++ [flight] } := by
  refine ⟨h.accounted, h.sound, h.refs, h.refs_lt, ?_, h.capacity⟩
  intro flight' hflight'
  rcases List.mem_append.mp hflight' with hold | hnew
  · exact h.flights flight' hold
  · rw [List.mem_singleton.mp hnew]
    exact ⟨hlt, honce⟩

theorem Inv.enter (h : Inv m) (tid : Tid) (faultAddr pcAddr memAddr : Nat) :
    Inv (m.enter tid faultAddr pcAddr memAddr) := by
  unfold HwHookManager.enter
  cases hstep : m.sessions.find? (stepsOver tid faultAddr pcAddr) with
  | some s =>
    have hs : s ∈ m.sessions := List.mem_of_find?_eq_some hstep
    have hsound := h.sound s hs
    obtain ⟨pre, post, hsplit, hpre⟩ := h.split hs
    -- the session steps, so it has a slot to give back
    have hstepping : 0 < s.steppingThread := by
      have := List.find?_some hstep
      simp only [stepsOver, Bool.and_eq_true, decide_eq_true_eq] at this
      rw [this.1.2]
      exact tid.property
    obtain ⟨k, hk⟩ := Option.isSome_iff_exists.mp (hsound.stepping.mp hstepping)
    have howned := h.owned_split hsplit
    simp only [HwHookSession.owns, hk, Option.toList_some, List.map_cons, List.map_nil,
      List.cons_append, List.nil_append] at howned
    have hgiven := (howned.perm (List.Perm.swap _ _ _)).unmark
    simp only [hk]
    unfold HwHookManager.update setSlot
    dsimp only
    rw [hsplit, updateFirst_split _ post hpre]
    exact h.replace hsplit { s with stepOverSlot := none, stepOverPc := 0, steppingThread := 0 }
      rfl rfl ⟨hsound.active, by simp, fun _ => rfl, hsound.inRange⟩ hgiven
  | none =>
    cases hhit : m.sessions.find? (hits faultAddr pcAddr memAddr) with
    | none => exact h
    | some s =>
      have hs : s ∈ m.sessions := List.mem_of_find?_eq_some hhit
      have hsound := h.sound s hs
      have hlt := h.refs_lt s hs
      dsimp only
      cases honce : s.config.once with
      | false =>
        rw [if_neg (by simp)]
        refine h.addFlight ⟨s.ref, false, tid, faultAddr, pcAddr⟩ hlt (fun _ s' hs' href => ?_)
        rw [h.ref_eq hs hs' href]
        exact honce
      | true =>
        -- a session that fires once never steps over, so its own slot is all it owns
        obtain ⟨pre, post, hsplit, hpre⟩ := h.split hs
        have howned := h.owned_split hsplit
        simp only [HwHookSession.owns, hsound.once honce, Option.toList_none, List.map_nil,
          List.cons_append, List.nil_append] at howned
        rw [if_pos rfl, freeSlot_slots _ hsound.inRange]
        unfold setSlot
        dsimp only
        have herase : m.sessions.eraseP (fun s' => s'.ref = s.ref) = pre ++ post := by
          rw [hsplit]
          exact eraseP_split post (fun x hx => by simpa using hpre x hx) (by simp)
        rw [herase]
        exact (h.remove hsplit howned.unmark).addFlight ⟨s.ref, true, tid, faultAddr, pcAddr⟩ hlt
          (by simp)

/-- A session that does not step over yet begins to, with a free slot. -/
theorem Inv.stepOver (h : Inv m) (hs : s ∈ m.sessions) (hnone : s.stepOverSlot = none)
    (honce : s.config.once = false) {slot : Nat} (hfree : m.slots (.breakpoint, slot) = false)
    (pc : Nat) (tid : Tid) : Inv (m.stepOver s slot pc tid) := by
  obtain ⟨pre, post, hsplit, hpre⟩ := h.split hs
  have howned := (h.owned_split hsplit).mark hfree
  simp only [HwHookSession.owns, hnone, Option.toList_none, List.map_nil, List.cons_append,
    List.nil_append] at howned
  unfold HwHookManager.stepOver HwHookManager.update setSlot
  dsimp only
  rw [hsplit, updateFirst_split _ post hpre]
  refine h.replace hsplit
    { s with stepOverSlot := some slot, stepOverPc := pc, steppingThread := tid.val } rfl rfl
    ⟨(h.sound s hs).active, ?_, ?_, (h.sound s hs).inRange⟩ (howned.perm (List.Perm.swap _ _ _))
  · simpa using tid.property
  · intro hyes
    rw [honce] at hyes
    exact absurd hyes (by simp)

theorem Inv.leave (h : Inv m) {i insn : Nat} {ctx : CpuContext}
    (hok : Op.stepsOnce m (.leave i insn ctx)) : Inv (m.leave i insn ctx) := by
  unfold HwHookManager.leave
  cases hflight : m.inFlight[i]? with
  | none => exact h
  | some flight =>
    have hmem : flight ∈ m.inFlight := List.mem_of_getElem? hflight
    have h' : Inv { m with inFlight := m.inFlight.eraseIdx i } :=
      ⟨h.accounted, h.sound, h.refs, h.refs_lt,
        fun flight' hflight' => h.flights flight' (List.mem_of_mem_eraseIdx hflight'), h.capacity⟩
    dsimp only
    cases honce : flight.once with
    | true => exact h'
    | false =>
      rw [if_neg (by simp)]
      cases hfind : m.sessions.find? (fun s => s.ref = flight.ref) with
      | none => exact h'
      | some s =>
        have hs : s ∈ m.sessions := List.mem_of_find?_eq_some hfind
        have hactive := (h.sound s hs).active
        obtain ⟨hpending, hwatch⟩ := hok flight hflight honce s hfind hactive
        -- the session was read again from the list, by the object the flight holds
        have hrecurring : s.config.once = false :=
          (h.flights flight hmem).2 honce s hs (by simpa using List.find?_some hfind)
        have hslot : stepSlot { m with inFlight := m.inFlight.eraseIdx i } s = m.stepSlot s := rfl
        dsimp only
        rw [hactive, if_neg (by simp), hslot]
        cases hstep : m.stepSlot s with
        | none =>
          cases htype : s.config.type with
          | breakpoint => exact h'
          | watchpoint =>
            rw [hstep] at hwatch
            exact absurd (hwatch htype) (by simp)
        | some slot =>
          have hnone := hpending (by simp [hstep])
          have hfree := stepSlot_spec hstep
          cases s.config.type with
          | breakpoint => exact h'.stepOver hs hnone hrecurring hfree _ _
          | watchpoint => exact h'.stepOver hs hnone hrecurring hfree _ _

theorem Inv.step (op : Op) (h : Inv m) (hok : op.stepsOnce m) : Inv (step m op) := by
  cases op with
  | attach config tids armable => exact h.attach config tids armable
  | detach id => exact h.detach id
  | detachAll => exact h.detachAll
  | refreshCapacity bp wp => exact h.refreshCapacity bp wp
  | rearmMissingThreads tids armable => exact h.rearmMissingThreads tids armable
  | enter tid faultAddr pcAddr memAddr => exact h.enter tid faultAddr pcAddr memAddr
  | leave flight insn ctx => exact h.leave hok

end

/-! ## Every run -/

/-- In every run in which no session steps over twice at a time and every watchpoint finds a slot to
    step over with, a slot is marked iff exactly one session owns it. -/
theorem run_slotsAccounted (ops : List Op) (hops : Along step (fun m op => op.stepsOnce m) {} ops) :
    SlotsAccounted (run step {} ops) :=
  (Along.invariant (fun _ op h hok => h.step op hok) Inv.init hops).accounted

def breakAt (address : Nat) : HwHookConfig := { type := .breakpoint, address }

def watchAt (address : Nat) : HwHookConfig := { type := .watchpoint, address }

/-- Two threads hit a breakpoint one after the other; each steps over and comes back. -/
def turns : List Op :=
  [.attach (breakAt 0x4000) [10, 11] [10, 11], .enter ⟨10, by decide⟩ 0x4000 0x4000 0, .leave 0 0 {},
    .enter ⟨10, by decide⟩ 0x4004 0x4004 0, .enter ⟨11, by decide⟩ 0x4000 0x4000 0, .leave 0 0 {}]

theorem turns_slotsAccounted :
    SlotsAccounted (run step {} turns) ∧ (run step {} turns).slots (.breakpoint, 1) = true :=
  ⟨run_slotsAccounted turns (by decide), by decide⟩

/-- Two threads hit a breakpoint and run its callback at the same time. -/
def together : List Op :=
  [.attach (breakAt 0x4000) [10, 11] [10, 11], .enter ⟨10, by decide⟩ 0x4000 0x4000 0,
    .enter ⟨11, by decide⟩ 0x4000 0x4000 0, .leave 0 0 {}, .leave 0 0 {}]

/-- A watchpoint is hit when all breakpoint slots are in use. -/
def exhausted : List Op :=
  (List.range 6).map (fun i => .attach (breakAt (0x4000 + 4 * i)) [10] [10]) ++
    [.attach (watchAt 0x8000) [10] [10], .enter ⟨10, by decide⟩ 0x5000 0x5000 0x8000, .leave 0 0 {}]

/-- The slot of the first step-over stays marked, and the watchpoint stays in the list without its
    slot. -/
theorem slots_not_accounted :
    ¬ SlotsAccounted (run step {} together) ∧ ¬ SlotsAccounted (run step {} exhausted) := by
  constructor
  · intro h
    have hmarked : (.breakpoint, 1) ∈ ownedBy (run step {} together).sessions :=
      (h.marked (.breakpoint, 1)).mp (by decide)
    exact absurd hmarked (by decide)
  · intro h
    have hmarked : (run step {} exhausted).slots (.watchpoint, 0) = true :=
      (h.marked (.watchpoint, 0)).mpr (by decide)
    exact absurd hmarked (by decide)

end ArtPi.HwHook
