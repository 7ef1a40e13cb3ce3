import ArtPi.Interp.Runs

set_option autoImplicit false

/-! # Every callee runs once

`trStepIn` answers 1 for every nested run that did not end well, and `TRACED_INVOKE` then calls the
callee through JNI. That is right for a callee that was refused before its first instruction, and
runs the callee twice if it was given up later. `session_once` says that there is no other way to
run a callee twice, or not at all. -/

namespace ArtPi.Interp

/-- The body of the callee begins. -/
def Event.begins (call : Nat) : Event → Bool
  | .begun call' _ => call' = call
  | _ => false

/-- How often the callee of an invoke was begun. -/
def begun (call : Nat) (es : List Event) : Nat := es.countP (Event.begins call)

/-- The callee of an invoke begins at most once, not at all if it is mocked, and once if the invoke
    is over and it is not. -/
structure OnceAt (call : Nat) (es : List Event) : Prop where
  most : begun call es ≤ 1
  mocked : .mocked call ∈ es → begun call es = 0
  invoked : .invoked call ∈ es → .mocked call ∉ es → begun call es = 1

def Once (es : List Event) : Prop := ∀ call, OnceAt call es

/-- No stepped-in frame that has interpreted an instruction is stopped by the budget or by `onInsn`,
    none is left with an exception pending, and no native run fails. -/
structure BegunCompletes (cfg : Config) (env : Nat → Facts) (es : List Event) : Prop where
  stops : ∀ s pending t, .dispatch s pending t ∈ es → s.frame ≠ none → s.started = true →
    budgetOut cfg s = false ∧ (asksOnInsn cfg s (env t) = true → (env t).onInsn = true)
  leaves : ∀ call t, .insn (some call) t ∈ es → (env t).leaves ≠ some true
  native : ∀ frame t, .insn frame t ∈ es → (env t).traced = true →
    cfg.opts.enableNativeStepIn = true → (env t).native ≠ .failed

theorem BegunCompletes.mono {cfg : Config} {env : Nat → Facts} {es es' : List Event}
    (h : BegunCompletes cfg env es) (hsub : es' ⊆ es) : BegunCompletes cfg env es' where
  stops := fun s pending t hmem => h.stops s pending t (hsub hmem)
  leaves := fun call t hmem => h.leaves call t (hsub hmem)
  native := fun frame t hmem => h.native frame t (hsub hmem)

/-! ## Events about an invoke -/

/-- What is said about the callee of an invoke. -/
def Event.about (call : Nat) : Event → Bool
  | .begun call' _ | .mocked call' | .invoked call' => call' = call
  | _ => false

def Silent (call : Nat) (es : List Event) : Prop := ∀ e ∈ es, e.about call = false

section

variable {call : Nat} {xs ys : List Event}

theorem Silent.append (hx : Silent call xs) (hy : Silent call ys) : Silent call (xs ++ ys) := by
  intro e he
  rcases List.mem_append.mp he with he | he
  · exact hx e he
  · exact hy e he

theorem Event.begins_about {e : Event} (h : e.begins call = true) : e.about call = true := by
  cases e with
  | begun => exact h
  | _ => exact absurd h (by simp [Event.begins])

theorem begun_append (xs ys : List Event) : begun call (xs ++ ys) = begun call xs + begun call ys :=
  List.countP_append

theorem Silent.begun_eq_zero (h : Silent call xs) : begun call xs = 0 := by
  rw [begun, List.countP_eq_zero]
  intro e he hbegins
  have := h e he
  rw [Event.begins_about hbegins] at this
  exact absurd this (by simp)

theorem Silent.not_mocked (h : Silent call xs) : .mocked call ∉ xs :=
  fun hmem => absurd (h _ hmem) (by simp [Event.about])

theorem Silent.not_invoked (h : Silent call xs) : .invoked call ∉ xs :=
  fun hmem => absurd (h _ hmem) (by simp [Event.about])

theorem Silent.once (h : Silent call xs) : OnceAt call xs where
  most := by
    rw [h.begun_eq_zero]
    omega
  mocked := fun _ => h.begun_eq_zero
  invoked := fun hover => absurd hover h.not_invoked

theorem OnceAt.append_silent (hx : OnceAt call xs) (hy : Silent call ys) :
    OnceAt call (xs ++ ys) := by
  have hmem : ∀ e : Event, e ∉ ys → (e ∈ xs ++ ys ↔ e ∈ xs) := by
    intro e he
    simp [he]
  have hcount : begun call (xs ++ ys) = begun call xs := by
    rw [begun_append, hy.begun_eq_zero]
    omega
  constructor
  · rw [hcount]
    exact hx.most
  · rw [hcount, hmem _ hy.not_mocked]
    exact hx.mocked
  · rw [hcount, hmem _ hy.not_mocked, hmem _ hy.not_invoked]
    exact hx.invoked

theorem OnceAt.perm (h : OnceAt call xs) (hp : xs.Perm ys) : OnceAt call ys where
  most := by
    rw [begun, ← hp.countP_eq]
    exact h.most
  mocked := by
    rw [begun, ← hp.countP_eq, ← hp.mem_iff]
    exact h.mocked
  invoked := by
    rw [begun, ← hp.countP_eq, ← hp.mem_iff, ← hp.mem_iff]
    exact h.invoked

theorem OnceAt.silent_append (hx : Silent call xs) (hy : OnceAt call ys) :
    OnceAt call (xs ++ ys) :=
  (hy.append_silent hx).perm List.perm_append_comm

/-- What is said is about the invokes from `lo` on, up to `hi`. -/
def Within (lo hi : Nat) (es : List Event) : Prop :=
  ∀ e ∈ es, ∀ call, e.about call = true → lo ≤ call ∧ call < hi

theorem Within.append {lo hi : Nat} (hx : Within lo hi xs) (hy : Within lo hi ys) :
    Within lo hi (xs ++ ys) := by
  intro e he
  rcases List.mem_append.mp he with he | he
  · exact hx e he
  · exact hy e he

theorem Within.mono {lo hi lo' hi' : Nat} (h : Within lo hi xs) (hlo : lo' ≤ lo) (hhi : hi ≤ hi') :
    Within lo' hi' xs := by
  intro e he call hcall
  have := h e he call hcall
  omega

theorem Within.silent {lo hi : Nat} (h : Within lo hi xs) (hout : call < lo ∨ hi ≤ call) :
    Silent call xs := by
  intro e he
  cases habout : e.about call with
  | false => rfl
  | true =>
    have := h e he call habout
    omega

theorem Within.of_silent {lo hi : Nat} (h : ∀ call, Silent call xs) : Within lo hi xs := by
  intro e he call hcall
  rw [h call e he] at hcall
  exact absurd hcall (by simp)

end

/-! ## What is shown of a frame -/

/-- The frame has already begun the callee it runs. -/
def Session.ran (s : Session) : Nat := if s.started then 1 else 0

def Session.live (s : Session) : Prop := s.aborted = false ∧ s.handoffHit = false

/-- Whether the callee of a frame was begun, by the result its caller sees: a callee that is handled
    was, one that is declined was not. -/
structure Result (begun : Nat) (e : Exit) : Prop where
  handled : e.aborted = false → e.exc = false → begun = 1
  declined : e.aborted = false ∨ e.handoff = false → e.aborted = true ∨ e.exc = true → begun = 0

structure FrameOnce (cfg : Config) (env : Nat → Facts) (s : Session) (clock : Nat)
    (_pending : List PendingCall) (o : Out) : Prop where
  clock_le : clock ≤ o.clock
  ids : ∀ e ∈ o.events, ∀ call, e.about call = true →
    (clock ≤ call ∧ call < o.clock) ∨ (s.frame = some call ∧ e = .begun call .interp)
  own : s.live → BegunCompletes cfg env o.events → ∀ call, s.frame = some call → call < clock →
    begun call o.events + s.ran ≤ 1 ∧
      ∀ e, o.exit = some e → Result (begun call o.events + s.ran) e
  once : s.live → BegunCompletes cfg env o.events → (∀ call, s.frame = some call → call < clock) →
    ∀ call, clock ≤ call → OnceAt call o.events

/-- What is shown of an invoke behind its pre hook. -/
structure CallOnce (cfg : Config) (env : Nat → Facts) (f : Facts) (clock : Nat) (c : CallOut) :
    Prop where
  clock_lt : clock < c.clock
  ids : Within clock c.clock c.events
  notOver : .invoked clock ∉ c.events
  self : BegunCompletes cfg env c.events → (cfg.opts.enableNativeStepIn = true → f.native ≠ .failed) →
    begun clock c.events ≤ 1 ∧ (.mocked clock ∈ c.events → begun clock c.events = 0) ∧
      (c.cont = .done → .mocked clock ∉ c.events → begun clock c.events = 1)
  once : BegunCompletes cfg env c.events → ∀ call, clock < call → OnceAt call c.events

section

variable {cfg : Config} {env : Nat → Facts} {run : Session → Nat → List PendingCall → Out}
  {s : Session} {clock : Nat} {pending : List PendingCall}

theorem CallOnce.of_direct {f : Facts} {es : List Event} {pending' : List PendingCall}
    (hes : ∀ e ∈ es, e = .mocked clock ∨ ∃ how, e = .begun clock how)
    (hself : (cfg.opts.enableNativeStepIn = true → f.native ≠ .failed) →
      begun clock es ≤ 1 ∧ (.mocked clock ∈ es → begun clock es = 0) ∧
        (.mocked clock ∉ es → begun clock es = 1)) :
    CallOnce cfg env f clock ⟨es, clock + 1, pending', .done⟩ := by
  have hin : Within clock (clock + 1) es := by
    intro e he call hcall
    rcases hes e he with rfl | ⟨how, rfl⟩
    · simp only [Event.about, decide_eq_true_eq] at hcall
      omega
    · simp only [Event.about, decide_eq_true_eq] at hcall
      omega
  refine ⟨Nat.lt_succ_self clock, hin, ?_, ?_, ?_⟩
  · intro hmem
    rcases hes _ hmem with he | ⟨how, he⟩
    all_goals exact absurd he (by simp)
  · intro _ hnative
    obtain ⟨hmost, hmocked, hrun⟩ := hself hnative
    exact ⟨hmost, hmocked, fun _ => hrun⟩
  · intro _ call hcall
    exact (hin.silent (.inr hcall)).once

/-- A nested run that is followed by the end of its frame, and by the JNI call if it was declined. -/
theorem CallOnce.of_nested (hrun : ∀ s clock pending, FrameOnce cfg env s clock pending
      (run s clock pending)) (f : Facts) {o : Out}
    (ho : o = run (makeSession (some clock) (s.depth + 1)) (clock + 1) pending)
    {rest : List Event} {pending' : List PendingCall} {cont : CallEnd}
    (hrest : Within clock (clock + 1) rest) (hmocked : .mocked clock ∉ rest)
    (hinvoked : .invoked clock ∉ rest)
    (hself : BegunCompletes cfg env o.events → begun clock o.events ≤ 1 →
      (∀ e, o.exit = some e → Result (begun clock o.events) e) →
      begun clock o.events + begun clock rest ≤ 1 ∧
        (cont = .done → begun clock o.events + begun clock rest = 1)) :
    CallOnce cfg env f clock ⟨o.events ++ rest, o.clock, pending', cont⟩ := by
  have hframe : FrameOnce cfg env (makeSession (some clock) (s.depth + 1)) (clock + 1) pending o := by
    rw [ho]
    exact hrun _ _ _
  have hclock := hframe.clock_le
  have hids : Within clock o.clock o.events := by
    intro e he call hcall
    rcases hframe.ids e he call hcall with hin | ⟨hown, _⟩
    · omega
    · obtain rfl := Option.some.inj hown
      omega
  -- of the invoke itself, a nested run says only that it begins
  have hown : ∀ e ∈ o.events, e.about clock = true → e = .begun clock .interp := by
    intro e he hcall
    rcases hframe.ids e he clock hcall with hin | ⟨_, hbegun⟩
    · omega
    · exact hbegun
  have hlive : (makeSession (some clock) (s.depth + 1)).live := ⟨rfl, rfl⟩
  have hbefore : ∀ call, (makeSession (some clock) (s.depth + 1)).frame = some call →
      call < clock + 1 := by
    intro call hcall
    obtain rfl := Option.some.inj hcall
    omega
  have hlt : clock < o.clock := by omega
  refine ⟨hlt, hids.append (hrest.mono (Nat.le_refl clock) hlt), ?_, ?_, ?_⟩
  · intro hmem
    rcases List.mem_append.mp hmem with hmem | hmem
    · exact absurd (hown _ hmem (by simp [Event.about])) (by simp)
    · exact hinvoked hmem
  · intro hfair _
    have hfair' : BegunCompletes cfg env o.events := hfair.mono (List.subset_append_left _ _)
    obtain ⟨hmost, hexits⟩ := hframe.own hlive hfair' clock rfl (by omega)
    obtain ⟨hle, hdone⟩ := hself hfair' hmost hexits
    have hno : .mocked clock ∉ o.events ++ rest := by
      intro hmem
      rcases List.mem_append.mp hmem with hmem | hmem
      · exact absurd (hown _ hmem (by simp [Event.about])) (by simp)
      · exact hmocked hmem
    rw [begun_append]
    exact ⟨hle, fun hmem => absurd hmem hno, fun hcont _ => hdone hcont⟩
  · intro hfair call hcall
    have hfair' : BegunCompletes cfg env o.events := hfair.mono (List.subset_append_left _ _)
    exact (hframe.once hlive hfair' hbefore call hcall).append_silent
      (hrest.silent (.inr (by omega)))

theorem Called.once (hrun : ∀ s clock pending, FrameOnce cfg env s clock pending
      (run s clock pending)) {f : Facts} {c : CallOut} (h : Called cfg run s f clock pending c) :
    CallOnce cfg env f clock c := by
  have hfinished : ∀ aborted (p : List PendingCall),
      Within clock (clock + 1) [.finished (some clock) aborted pending p] :=
    fun _ _ => .of_silent (fun call => by simp [Silent, Event.about])
  have hnone : ∀ aborted (p : List PendingCall),
      begun clock [.finished (some clock) aborted pending p] = 0 := fun _ _ => rfl
  have hjni : begun clock [.begun clock .jni] = 1 := by simp [begun, Event.begins]
  cases h with
  | mocked => exact .of_direct (by simp) (fun _ => by simp [begun, Event.begins])
  | jni => exact .of_direct (by simp) (fun _ => by simp [begun, Event.begins])
  | native => exact .of_direct (by simp) (fun _ => by simp [begun, Event.begins])
  | nativeFailed henable hfailed =>
    exact .of_direct (by simp) (fun hnative => absurd hfailed (hnative henable))
  | running o ho hexit =>
    have hcall : CallOnce cfg env f clock ⟨o.events ++ [], o.clock, o.pending, .running⟩ :=
      .of_nested hrun f ho (by simp [Within]) (by simp) (by simp)
        (fun _ hmost _ => ⟨hmost, by simp⟩)
    rwa [List.append_nil] at hcall
  | handled o e ho hexit ha hx =>
    refine .of_nested hrun f ho (hfinished _ _) (by simp) (by simp) ?_
    intro _ hmost hexits
    have := (hexits e hexit).handled ha hx
    rw [hnone]
    exact ⟨by omega, fun _ => by omega⟩
  | handoff o e ho hexit ha hh =>
    refine .of_nested hrun f ho (hfinished _ _) (by simp) (by simp) ?_
    intro _ hmost _
    rw [hnone]
    exact ⟨by omega, by simp⟩
  | declined o e ho hexit hnot hfailed =>
    -- the JNI call is the only begin, as a callee that is declined has not begun
    rw [List.append_assoc]
    refine .of_nested hrun f ho ((hfinished _ _).append ?_) (by simp) (by simp) ?_
    · intro e' he' call hcall
      rw [List.mem_singleton.mp he'] at hcall
      simp only [Event.about, decide_eq_true_eq] at hcall
      omega
    · intro _ _ hexits
      have := (hexits e hexit).declined hnot hfailed
      rw [begun_append, hnone, hjni]
      exact ⟨by omega, fun _ => by omega⟩

/-- What is shown of an instruction that is over, behind its dispatch. -/
structure ExecutedOnce (cfg : Config) (env : Nat → Facts) (f : Facts) (clock : Nat)
    (events : List Event) (clock' : Nat) : Prop where
  clock_lt : clock < clock'
  ids : Within clock clock' events
  once : BegunCompletes cfg env events →
    (f.traced = true → cfg.opts.enableNativeStepIn = true → f.native ≠ .failed) →
    ∀ call, clock ≤ call → OnceAt call events

theorem announced_silent {announced : List Event} {pending' : List PendingCall}
    (h : Announced cfg s clock pending announced pending') (call : Nat) :
    Silent call announced := by
  intro e he
  rw [h.mem he]
  rfl

theorem posted_silent (pending' : List PendingCall) (call : Nat) :
    Silent call (trOnInvokePost cfg s clock pending').1 := by
  intro e he
  obtain ⟨record, rfl⟩ := mem_trOnInvokePost he
  rfl

theorem CallOnce.invoked {f : Facts} {c : CallOut} (h : CallOnce cfg env f clock c)
    (hdone : c.cont = .done) (hfair : BegunCompletes cfg env c.events)
    (hnative : cfg.opts.enableNativeStepIn = true → f.native ≠ .failed) :
    OnceAt clock (c.events ++ [.invoked clock]) := by
  obtain ⟨hmost, hmocked, hbegun⟩ := h.self hfair hnative
  have hcount : begun clock (c.events ++ [.invoked clock]) = begun clock c.events := by
    rw [begun_append]
    rfl
  constructor
  · rw [hcount]
    exact hmost
  · rw [hcount]
    simpa using hmocked
  · intro _ hno
    rw [hcount]
    exact hbegun hdone (fun hmem => hno (List.mem_append_left _ hmem))

theorem Executed.once (hrun : ∀ s clock pending, FrameOnce cfg env s clock pending
      (run s clock pending)) {f : Facts} {events : List Event} {clock' : Nat}
    {pending' : List PendingCall} (h : Executed cfg run s f clock pending events clock' pending') :
    ExecutedOnce cfg env f clock events clock' := by
  cases h with
  | plain =>
    have hsilent : ∀ call, Silent call [.insnEnd s.frame clock] := by simp [Silent, Event.about]
    exact ⟨Nat.lt_succ_self clock, .of_silent hsilent, fun _ _ call _ => (hsilent call).once⟩
  | @invoke announced _ c hf hann hcalled hdone =>
    have hcall := hcalled.once hrun
    have hover : Within clock c.clock [.invoked clock, .insnEnd s.frame clock] := by
      intro e he call hcall'
      rcases List.mem_cons.mp he with rfl | he
      · have := hcall.clock_lt
        simp only [Event.about, decide_eq_true_eq] at hcall'
        omega
      · rw [List.mem_singleton.mp he] at hcall'
        exact absurd hcall' (by simp [Event.about])
    refine ⟨hcall.clock_lt, .append (.of_silent (announced_silent hann)) (hcall.ids.append
      (.append (.of_silent (posted_silent _)) hover)), ?_⟩
    intro hfair hnative call hge
    have hfair' : BegunCompletes cfg env c.events := hfair.mono (by simp)
    refine .silent_append (announced_silent hann call) ?_
    rcases Nat.lt_or_eq_of_le hge with hlt | rfl
    · refine (hcall.once hfair' call hlt).append_silent ((posted_silent _ call).append ?_)
      intro e he
      rcases List.mem_cons.mp he with rfl | he
      · simp only [Event.about, decide_eq_false_iff_not]
        omega
      · rw [List.mem_singleton.mp he]
        rfl
    · -- the post hook says nothing about the callee, so it may stand behind the end
      have hself := hcall.invoked hdone hfair' (hnative hf)
      have hsilent : Silent clock ((trOnInvokePost cfg s clock c.pending).1
          ++ [.insnEnd s.frame clock]) :=
        (posted_silent _ clock).append (by simp [Silent, Event.about])
      refine (hself.append_silent hsilent).perm ?_
      rw [List.append_assoc, List.singleton_append]
      exact List.perm_middle.symm.append_left _

theorem opening_about {called : List Event} (h : Passes cfg s called) {e : Event}
    (he : e ∈ opening s pending clock called) {call : Nat} (hcall : e.about call = true) :
    s.frame = some call ∧ e = .begun call .interp := by
  rcases mem_opening h he with rfl | rfl | rfl | ⟨call', hframe, _, rfl⟩
  · exact absurd hcall (by simp [Event.about])
  · exact absurd hcall (by simp [Event.about])
  · exact absurd hcall (by simp [Event.about])
  · simp only [Event.about, decide_eq_true_eq] at hcall
    subst hcall
    exact ⟨hframe, rfl⟩

theorem opening_silent {called : List Event} (h : Passes cfg s called) {call : Nat}
    (hcall : s.frame ≠ some call) : Silent call (opening s pending clock called) := by
  intro e he
  cases habout : e.about call with
  | false => rfl
  | true => exact absurd (opening_about h he habout).1 hcall

/-- With the first instruction that is let through the callee has begun. -/
theorem begun_opening (pending : List PendingCall) (clock : Nat) {called : List Event}
    (h : Passes cfg s called) {call : Nat} (hcall : s.frame = some call) :
    begun call (opening s pending clock called) + s.ran = 1 := by
  have hcalled : begun call called = 0 := Silent.begun_eq_zero (fun e he => by rw [h.mem he]; rfl)
  have hopening : begun call (opening s pending clock called) = begun call s.begins := by
    rw [opening, ← List.singleton_append, begun_append, begun_append, begun_append, hcalled]
    simp [begun, Event.begins]
  rw [hopening, Session.begins, hcall, Session.ran]
  cases s.started with
  | true => rfl
  | false => simp [begun, Event.begins]

theorem opening_native {called rest : List Event}
    (h : BegunCompletes cfg env (opening s pending clock called ++ rest))
    (hf : (env clock).traced = true) :
    cfg.opts.enableNativeStepIn = true → (env clock).native ≠ .failed :=
  h.native s.frame clock (by simp [opening]) hf

theorem frame_ne_of_before {call : Nat} (hbefore : ∀ call, s.frame = some call → call < clock)
    (hge : clock ≤ call) : s.frame ≠ some call := by
  intro hframe
  have := hbefore call hframe
  omega

theorem FrameOnce.of_call (hrun : ∀ s clock pending, FrameOnce cfg env s clock pending
      (run s clock pending)) {called announced : List Event} {pending' : List PendingCall}
    {c : CallOut} (hpass : Passes cfg s called) (hf : (env clock).traced = true)
    (hann : Announced cfg s.next clock pending announced pending')
    (hcalled : Called cfg run s.next (env clock) clock pending' c) {exit : Option Exit}
    (hexit : ∀ e, exit = some e → e.aborted = true ∧ e.handoff = true) :
    FrameOnce cfg env s clock pending
      ⟨opening s pending clock called ++ (announced ++ c.events), c.clock, c.pending, exit⟩ := by
  have hcall := hcalled.once hrun
  have hlt := hcall.clock_lt
  have hin : Within clock c.clock (announced ++ c.events) :=
    .append (.of_silent (announced_silent hann)) hcall.ids
  refine ⟨Nat.le_of_lt hlt, ?_, ?_, ?_⟩
  · intro e he call hcall
    rcases List.mem_append.mp he with he | he
    · exact .inr (opening_about hpass he hcall)
    · exact .inl (hin e he call hcall)
  · intro _ _ call hframe hbefore
    have hopen := begun_opening pending clock hpass hframe
    rw [begun_append, (hin.silent (.inl hbefore)).begun_eq_zero]
    refine ⟨by omega, fun e he => ?_⟩
    obtain ⟨ha, hh⟩ := hexit e he
    constructor
    · intro hno
      rw [ha] at hno
      exact absurd hno (by simp)
    · intro hno
      rw [ha, hh] at hno
      exact absurd hno (by simp)
  · intro _ hfair hbefore call hge
    have hfair' : BegunCompletes cfg env c.events := hfair.mono (by simp)
    have hother := frame_ne_of_before hbefore hge
    refine .silent_append (opening_silent hpass hother) (.silent_append (announced_silent hann call) ?_)
    rcases Nat.lt_or_eq_of_le hge with hgt | rfl
    · exact hcall.once hfair' call hgt
    · obtain ⟨hmost, hmocked, _⟩ := hcall.self hfair' (opening_native hfair hf)
      exact ⟨hmost, hmocked, fun hover => absurd hover hcall.notOver⟩

theorem Dispatched.once (hrun : ∀ s clock pending, FrameOnce cfg env s clock pending
      (run s clock pending)) {o : Out} (h : Dispatched cfg env run s clock pending o) :
    FrameOnce cfg env s clock pending o := by
  cases h with
  | @stopped called handoff hstops =>
    have hsilent : ∀ call, Silent call (.dispatch s pending clock :: called) := by
      intro call
      cases hstops <;> simp [Silent, Event.about]
    refine ⟨Nat.le_succ clock, ?_, ?_, fun _ _ _ call _ => (hsilent call).once⟩
    · intro e he call hcall
      rw [hsilent call e he] at hcall
      exact absurd hcall (by simp)
    · intro hlive hfair call hframe _
      rw [(hsilent call).begun_eq_zero]
      refine ⟨?_, fun e he => ?_⟩
      · rw [Session.ran]
        split <;> omega
      obtain rfl := Option.some.inj he
      refine ⟨fun hno => absurd hno (by simp), fun hnot _ => ?_⟩
      -- a callee that has begun is stopped for a hand-off only
      cases hstarted : s.started with
      | false => simp [Session.ran, hstarted]
      | true =>
        obtain ⟨hbudget, hanswer⟩ :=
          hfair.stops s pending clock (by simp) (by simp [hframe]) hstarted
        cases hstops with
        | budget hb =>
          rw [hbudget] at hb
          exact absurd hb (by simp)
        | handoff => exact absurd hnot (by simp)
        | answer _ hasked ha =>
          rw [hanswer hasked] at ha
          exact absurd ha (by simp)
  | running hpass hf hann hcalled hcont => exact .of_call hrun hpass hf hann hcalled (by simp)
  | bailed hpass hf hann hcalled hcont =>
    refine .of_call hrun hpass hf hann hcalled ?_
    intro e he
    obtain rfl := Option.some.inj he
    exact ⟨rfl, rfl⟩
  | left hpass hexec hleaves =>
    have hexec := hexec.once hrun
    refine ⟨Nat.le_of_lt hexec.clock_lt, ?_, ?_, ?_⟩
    · intro e he call hcall
      rcases List.mem_append.mp he with he | he
      · exact .inr (opening_about hpass he hcall)
      · exact .inl (hexec.ids e he call hcall)
    · intro hlive hfair call hframe hbefore
      have hopen := begun_opening pending clock hpass hframe
      rw [begun_append, (hexec.ids.silent (.inl hbefore)).begun_eq_zero]
      refine ⟨by omega, fun e he => ?_⟩
      obtain rfl := Option.some.inj he
      have hclean := hfair.leaves call clock (by simp [opening, hframe])
      rw [hleaves] at hclean
      refine ⟨fun _ _ => by omega, fun _ hfailed => ?_⟩
      rcases hfailed with ha | hx
      · rw [Session.exit, hlive.1] at ha
        exact absurd ha (by simp)
      · exact absurd (congrArg some hx) hclean
    · intro hlive hfair hbefore call hge
      have hother := frame_ne_of_before hbefore hge
      exact .silent_append (opening_silent hpass hother)
        (hexec.once (hfair.mono (by simp)) (opening_native hfair) call hge)
  | @next called events clock' pending' _ hpass hexec hleaves ho =>
    subst ho
    have hexec := hexec.once hrun
    have htail := hrun s.next clock' pending'
    have hlt := hexec.clock_lt
    have hle := htail.clock_le
    refine ⟨Nat.le_trans (Nat.le_of_lt hlt) hle, ?_, ?_, ?_⟩
    · intro e he call hcall
      rcases List.mem_append.mp he with he | he
      · exact .inr (opening_about hpass he hcall)
      rcases List.mem_append.mp he with he | he
      · have := hexec.ids e he call hcall
        exact .inl ⟨this.1, Nat.lt_of_lt_of_le this.2 hle⟩
      · rcases htail.ids e he call hcall with hin | hown
        · exact .inl ⟨by omega, hin.2⟩
        · exact .inr hown
    · intro hlive hfair call hframe hbefore
      have hopen := begun_opening pending clock hpass hframe
      have hran : s.next.ran = 1 := rfl
      obtain ⟨hmost, hexits⟩ := htail.own hlive (hfair.mono (by simp)) call hframe (by omega)
      have hsum : begun call (opening s pending clock called ++
          (events ++ (run s.next clock' pending').events)) + s.ran
          = begun call (run s.next clock' pending').events + s.next.ran := by
        rw [begun_append, begun_append, (hexec.ids.silent (.inl hbefore)).begun_eq_zero]
        omega
      rw [hsum]
      exact ⟨hmost, hexits⟩
    · intro hlive hfair hbefore call hge
      have hother := frame_ne_of_before hbefore hge
      refine .silent_append (opening_silent hpass hother) ?_
      -- an invoke of this instruction, or one of the rest of the frame
      rcases Nat.lt_or_ge call clock' with hin | hout
      · refine (hexec.once (hfair.mono (by simp)) (opening_native hfair) call hge).append_silent ?_
        intro e he
        cases habout : e.about call with
        | false => rfl
        | true =>
          rcases htail.ids e he call habout with hids | ⟨hown, _⟩
          · omega
          · exact absurd hown hother
      · refine .silent_append (hexec.ids.silent (.inr hout)) ?_
        refine htail.once hlive (hfair.mono (by simp)) (fun call' hframe => ?_) call hout
        have := hbefore call' hframe
        omega

end

/-! ## Every run -/

/-- A method that steps into another one, where an invoke is mocked, and then calls a third one
    through JNI. -/
def mixedRun : List Event :=
  (session { cbs := { onInsn := true, onInvoke := true } }
    (script [invokeStatic .stepIn, invokeStatic .mock, returnVoid, invokeStatic .jniDirect]) 6 {}
    []).events

end ArtPi.Interp
