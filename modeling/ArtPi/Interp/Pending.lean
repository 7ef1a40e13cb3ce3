import ArtPi.Interp.Runs

set_option autoImplicit false

/-! # The stack of pending calls

`trOnInvokePre` pushes a record if `onInvoke` is installed, and `trOnInvokePost` pops one if
`onInvokePost` is. The two conditions are not the same, so the stack is balanced only where both
hooks act or neither does; `session_paired` says so for every run. -/

namespace ArtPi.Interp

/-- Every post callback reports the record of its own invoke, and a frame that was not aborted
    leaves `pendingCalls` as it found it. -/
structure Paired (es : List Event) : Prop where
  posts : ∀ frame call record, .onInvokePost frame call record ∈ es → record = ⟨call, frame⟩
  finishes : ∀ frame entry pending, .finished frame false entry pending ∈ es → pending = entry

/-- At an invoke either both hooks act or neither does (the post hook does not act on an empty
    stack), and what the callee runs on the same thread leaves the stack alone. -/
structure HooksAgree (cfg : Config) (f : Facts) (pending : List PendingCall) : Prop where
  hooks : (cfg.cbs.onInvoke = true ∧ cfg.cbs.onInvokePost = true) ∨
    (cfg.cbs.onInvoke = false ∧ (cfg.cbs.onInvokePost = false ∨ pending = []))
  reentry : f.reentry = {}

/-- The hooks agree at every invoke of the run. -/
def AgreeAlong (cfg : Config) (env : Nat → Facts) (es : List Event) : Prop :=
  ∀ s pending t, .dispatch s pending t ∈ es → (env t).traced = true →
    HooksAgree cfg (env t) pending

theorem AgreeAlong.mono {cfg : Config} {env : Nat → Facts} {es es' : List Event}
    (h : AgreeAlong cfg env es) (hsub : es' ⊆ es) : AgreeAlong cfg env es' :=
  fun s pending t hmem => h s pending t (hsub hmem)

theorem Paired.append {xs ys : List Event} (hx : Paired xs) (hy : Paired ys) :
    Paired (xs ++ ys) where
  posts := by
    intro frame call record h
    rcases List.mem_append.mp h with h | h
    · exact hx.posts _ _ _ h
    · exact hy.posts _ _ _ h
  finishes := by
    intro frame entry pending h
    rcases List.mem_append.mp h with h | h
    · exact hx.finishes _ _ _ h
    · exact hy.finishes _ _ _ h

/-- Events that are neither post callbacks nor ends of frames. -/
def Event.quiet : Event → Bool
  | .onInvokePost .. | .finished .. => false
  | _ => true

theorem Paired.of_quiet {es : List Event} (h : ∀ e ∈ es, e.quiet = true) : Paired es where
  posts := fun _ _ _ hmem => absurd (h _ hmem) (by simp [Event.quiet])
  finishes := fun _ _ _ hmem => absurd (h _ hmem) (by simp [Event.quiet])

/-- What is shown of a frame's run: it is paired, and the stack is the old one unless the frame was
    handed off. -/
def FramePaired (cfg : Config) (env : Nat → Facts) (s : Session) (_clock : Nat)
    (pending : List PendingCall) (o : Out) : Prop :=
  s.aborted = false → s.handoffHit = false → AgreeAlong cfg env o.events →
    Paired o.events ∧ ∀ e, o.exit = some e →
      (e.aborted = false → e.handoff = false) ∧ (e.handoff = false → o.pending = pending)

section

variable {cfg : Config} {env : Nat → Facts} {run : Session → Nat → List PendingCall → Out}
  {s : Session} {clock : Nat} {pending : List PendingCall}

theorem Stops.quiet {f : Facts} {called : List Event} {handoff : Bool}
    (h : Stops cfg s f called handoff) : ∀ e ∈ called, e.quiet = true := by
  cases h <;> simp [Event.quiet]

theorem Announced.quiet {announced : List Event} {pending' : List PendingCall}
    (h : Announced cfg s clock pending announced pending') : ∀ e ∈ announced, e.quiet = true := by
  intro e he
  rw [h.mem he]
  rfl

theorem opening_quiet {called : List Event} (h : Passes cfg s called) :
    ∀ e ∈ opening s pending clock called, e.quiet = true := by
  intro e he
  rcases mem_opening h he with rfl | rfl | rfl | ⟨call, _, _, rfl⟩
  all_goals rfl

theorem reenter_of_reentry {f : Facts} (h : f.reentry = {}) (pending : List PendingCall) :
    f.reenter pending = pending := by
  simp [Facts.reenter, h]

/-- The callee of an invoke leaves the stack as the pre hook left it. -/
theorem Called.paired (hrun : ∀ s clock pending, FramePaired cfg env s clock pending
      (run s clock pending)) {f : Facts} {c : CallOut} (h : Called cfg run s f clock pending c)
    (hreentry : f.reentry = {}) (hfair : AgreeAlong cfg env c.events) :
    Paired c.events ∧ (c.cont = .done → c.pending = pending) := by
  have hnested : ∀ o, o = run (makeSession (some clock) (s.depth + 1)) (clock + 1) pending →
      AgreeAlong cfg env o.events → Paired o.events ∧ ∀ e, o.exit = some e →
        (e.aborted = false → e.handoff = false) ∧ (e.handoff = false → o.pending = pending) := by
    intro o ho hagree
    subst ho
    exact hrun _ _ _ rfl rfl hagree
  -- the end of a frame that is not handed off
  have hfinished : ∀ (o : Out) (e : Exit), (e.handoff = false → o.pending = pending) →
      (e.aborted = false → e.handoff = false) →
      Paired [.finished (some clock) e.aborted pending o.pending] := by
    intro o e hpending hclean
    refine ⟨by simp, ?_⟩
    intro frame entry pending' hmem
    simp only [List.mem_singleton, Event.finished.injEq] at hmem
    obtain ⟨_, ha, rfl, rfl⟩ := hmem
    exact hpending (hclean ha.symm)
  cases h with
  | mocked => exact ⟨.of_quiet (by simp [Event.quiet]), fun _ => rfl⟩
  | jni =>
    exact ⟨.of_quiet (by simp [Event.quiet]), fun _ => reenter_of_reentry hreentry pending⟩
  | native =>
    exact ⟨.of_quiet (by simp [Event.quiet]), fun _ => reenter_of_reentry hreentry pending⟩
  | nativeFailed =>
    refine ⟨.of_quiet (by simp [Event.quiet]), fun _ => ?_⟩
    rw [reenter_of_reentry hreentry, reenter_of_reentry hreentry]
  | running o ho hexit => exact ⟨(hnested o ho hfair).1, fun hdone => absurd hdone (by simp)⟩
  | handled o e ho hexit ha hx =>
    obtain ⟨hpaired, hexits⟩ := hnested o ho (hfair.mono (by simp))
    obtain ⟨hclean, hpending⟩ := hexits e hexit
    exact ⟨hpaired.append (hfinished o e hpending hclean), fun _ => hpending (hclean ha)⟩
  | handoff o e ho hexit ha hh =>
    obtain ⟨hpaired, hexits⟩ := hnested o ho (hfair.mono (by simp))
    obtain ⟨hclean, hpending⟩ := hexits e hexit
    exact ⟨hpaired.append (hfinished o e hpending hclean), fun hdone => absurd hdone (by simp)⟩
  | declined o e ho hexit hnot hfailed =>
    obtain ⟨hpaired, hexits⟩ := hnested o ho (hfair.mono (by simp))
    obtain ⟨hclean, hpending⟩ := hexits e hexit
    refine ⟨(hpaired.append (hfinished o e hpending hclean)).append
      (.of_quiet (by simp [Event.quiet])), fun _ => ?_⟩
    rw [reenter_of_reentry hreentry]
    exact hpending (hnot.elim hclean id)

theorem post_announced {announced : List Event} {pending' : List PendingCall} {f : Facts}
    (h : Announced cfg s clock pending announced pending') (hagree : HooksAgree cfg f pending) :
    Paired (trOnInvokePost cfg s clock pending').1 ∧
      (trOnInvokePost cfg s clock pending').2 = pending := by
  cases h with
  | silent hinvoke =>
    rcases hagree.hooks with ⟨hyes, _⟩ | ⟨_, hpost | rfl⟩
    · rw [hinvoke] at hyes
      exact absurd hyes (by simp)
    · simp only [trOnInvokePost, hpost, Bool.not_false, if_true]
      exact ⟨.of_quiet (by simp), trivial⟩
    · rw [trOnInvokePost]
      split
      · exact ⟨.of_quiet (by simp), rfl⟩
      · exact ⟨.of_quiet (by simp), rfl⟩
  | pushed hinvoke =>
    rcases hagree.hooks with ⟨_, hpost⟩ | ⟨hno, _⟩
    · simp only [trOnInvokePost, hpost, Bool.not_true, Bool.false_eq_true, if_false]
      refine ⟨⟨?_, by simp⟩, trivial⟩
      intro frame call record hmem
      simp only [List.mem_singleton, Event.onInvokePost.injEq] at hmem
      obtain ⟨rfl, rfl, rfl⟩ := hmem
      rfl
    · rw [hinvoke] at hno
      exact absurd hno (by simp)

theorem Executed.paired (hrun : ∀ s clock pending, FramePaired cfg env s clock pending
      (run s clock pending)) {f : Facts} {events : List Event} {clock' : Nat}
    {pending' : List PendingCall} (h : Executed cfg run s f clock pending events clock' pending')
    (hagree : f.traced = true → HooksAgree cfg f pending) (hfair : AgreeAlong cfg env events) :
    Paired events ∧ pending' = pending := by
  cases h with
  | plain => exact ⟨.of_quiet (by simp [Event.quiet]), rfl⟩
  | invoke hf hann hcalled hdone =>
    have hhooks := hagree hf
    obtain ⟨hpaired, hpending⟩ := hcalled.paired hrun hhooks.reentry
      (hfair.mono (by simp))
    obtain ⟨hposted, hback⟩ := post_announced hann hhooks
    rw [hpending hdone]
    exact ⟨.append (.of_quiet hann.quiet) (hpaired.append (hposted.append
      (.of_quiet (by simp [Event.quiet])))), hback⟩

theorem Dispatched.paired (hrun : ∀ s clock pending, FramePaired cfg env s clock pending
      (run s clock pending)) {o : Out} (h : Dispatched cfg env run s clock pending o) :
    FramePaired cfg env s clock pending o := by
  intro haborted hhandoff hfair
  have hagree : .dispatch s pending clock ∈ o.events → (env clock).traced = true →
      HooksAgree cfg (env clock) pending := fun hmem => hfair s pending clock hmem
  cases h with
  | stopped hstops =>
    refine ⟨.of_quiet ?_, ?_⟩
    · intro e he
      rcases List.mem_cons.mp he with rfl | he
      · rfl
      · exact hstops.quiet e he
    · rintro e he
      obtain rfl := Option.some.inj he
      exact ⟨fun ha => absurd ha (by simp), fun _ => rfl⟩
  | running hpass hf hann hcalled hcont =>
    have hhooks := hagree (by simp [opening]) hf
    have hpaired := (hcalled.paired hrun hhooks.reentry (hfair.mono (by simp))).1
    exact ⟨.append (.of_quiet (opening_quiet hpass)) (.append (.of_quiet hann.quiet) hpaired),
      by simp⟩
  | bailed hpass hf hann hcalled hcont =>
    have hhooks := hagree (by simp [opening]) hf
    have hpaired := (hcalled.paired hrun hhooks.reentry (hfair.mono (by simp))).1
    refine ⟨.append (.of_quiet (opening_quiet hpass)) (.append (.of_quiet hann.quiet) hpaired), ?_⟩
    rintro e he
    obtain rfl := Option.some.inj he
    exact ⟨fun ha => absurd ha (by simp), fun hh => absurd hh (by simp)⟩
  | left hpass hexec hleaves =>
    obtain ⟨hpaired, hpending⟩ := hexec.paired hrun (hagree (by simp [opening]))
      (hfair.mono (by simp))
    refine ⟨.append (.of_quiet (opening_quiet hpass)) hpaired, ?_⟩
    rintro e he
    obtain rfl := Option.some.inj he
    exact ⟨fun _ => hhandoff, fun _ => hpending⟩
  | @next _ _ clock' pending' _ hpass hexec hleaves ho =>
    obtain ⟨hpaired, hpending⟩ := hexec.paired hrun (hagree (by simp [opening]))
      (hfair.mono (by simp))
    subst ho
    obtain ⟨htail, hexits⟩ := hrun s.next clock' pending' haborted hhandoff
      (hfair.mono (by simp))
    rw [hpending] at hexits
    exact ⟨.append (.of_quiet (opening_quiet hpass)) (hpaired.append htail),
      by rw [hpending]; exact hexits⟩

end

/-- In every run in which the hooks agree at every invoke, every post callback reports its own
    invoke and every frame that is not aborted leaves the stack as it found it. -/
theorem session_paired (cfg : Config) (env : Nat → Facts) (fuel : Nat) (entry : Entry)
    (pending : List PendingCall)
    (h : AgreeAlong cfg env (session cfg env fuel entry pending).events) :
    Paired (session cfg env fuel entry pending).events := by
  have hframe : ∀ s clock pending, FramePaired cfg env s clock pending
      (runFrame cfg env fuel s clock pending) :=
    runFrame_rule (FramePaired cfg env)
      (fun _ _ _ _ _ _ => ⟨.of_quiet (by simp), by simp⟩)
      (fun run hrun _ _ _ _ hd => hd.paired hrun) fuel
  rcases session_cases cfg env fuel entry pending with hnil | ⟨o, ho, ⟨_, hes⟩ | ⟨e, he, hes⟩⟩
  · rw [hnil]
    exact .of_quiet (by simp)
  · rw [hes] at h ⊢
    subst ho
    exact (hframe _ _ _ rfl rfl h).1
  · rw [hes] at h ⊢
    subst ho
    obtain ⟨hpaired, hexits⟩ := hframe (makeSession none 0) 0 pending rfl rfl (h.mono (by simp))
    obtain ⟨hclean, hpending⟩ := hexits e he
    refine hpaired.append ⟨by simp, ?_⟩
    intro frame entry' pending' hmem
    simp only [List.mem_singleton, Event.finished.injEq] at hmem
    obtain ⟨_, ha, rfl, rfl⟩ := hmem
    exact hpending (hclean ha.symm)

/-- A method that steps into another one, with both hooks. -/
theorem session_paired_stepIn :
    Paired (session { cbs := { onInvoke := true, onInvokePost := true } }
        (script [invokeStatic .stepIn]) 4 {} []).events ∧
      .onInvokePost none 0 ⟨0, none⟩ ∈ (session { cbs := { onInvoke := true, onInvokePost := true } }
        (script [invokeStatic .stepIn]) 4 {} []).events := by
  refine ⟨session_paired _ _ 4 {} [] ?_, by decide⟩
  intro s pending t _ _
  refine ⟨.inl ⟨rfl, rfl⟩, ?_⟩
  match t with
  | 0 => rfl
  | _ + 1 => rfl

/-- With `onInvoke` alone the record of an invoke is never taken away. -/
theorem onInvoke_alone_leaks :
    ¬ Paired (session { cbs := { onInvoke := true } } (script [invokeStatic .jniDirect]) 3 {}
      []).events := by
  intro h
  have := h.finishes none [] [⟨0, none⟩] (by decide)
  exact absurd this (by simp)

end ArtPi.Interp
