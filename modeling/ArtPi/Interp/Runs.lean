import ArtPi.Interp.Tracer

set_option autoImplicit false

/-! # What one instruction can do

The cases of `trOnInsn`, `tracedCall` and `dispatchInsn`, each with what was checked on the way, and
the rule by which a property of every run is proved from one instruction. The results about runs
use these and do not unfold the functions again. -/

namespace ArtPi.Interp

variable {cfg : Config} {env : Nat → Facts} {run : Session → Nat → List PendingCall → Out}

/-! ## The hook before an instruction -/

/-- The session behind a hook that lets the instruction through. -/
def Session.next (s : Session) : Session :=
  { s with budgetUsed := s.budgetUsed + 1, started := true }

/-- The hook gets to the `onInsn` callback. -/
def asksOnInsn (cfg : Config) (s : Session) (f : Facts) : Bool :=
  !budgetOut cfg s && !(cfg.opts.safeHandoff && f.risky) && cfg.cbs.onInsn

/-- The hook stops the frame: for the budget, for a hand-off, or because `onInsn` says so. -/
inductive Stops (cfg : Config) (s : Session) (f : Facts) : List Event → Bool → Prop where
  | budget : budgetOut cfg s = true → Stops cfg s f [] s.handoffHit
  | handoff : budgetOut cfg s = false → cfg.opts.safeHandoff = true → f.risky = true →
      Stops cfg s f [] true
  | answer : budgetOut cfg s = false → asksOnInsn cfg s f = true → f.onInsn = false →
      Stops cfg s f [.onInsn s.frame false] s.handoffHit

/-- The hook lets the instruction through. -/
inductive Passes (cfg : Config) (s : Session) : List Event → Prop where
  | silent : budgetOut cfg s = false → cfg.cbs.onInsn = false → Passes cfg s []
  | answer : budgetOut cfg s = false → cfg.cbs.onInsn = true → Passes cfg s [.onInsn s.frame true]

theorem trOnInsn_stop {s : Session} {f : Facts} (h : (trOnInsn cfg s f).stop = true) (exc : Bool) :
    ∃ handoff, Stops cfg s f (trOnInsn cfg s f).called handoff ∧
      (trOnInsn cfg s f).session.exit exc = ⟨true, handoff, exc⟩ := by
  cases hb : budgetOut cfg s with
  | true =>
    simp only [trOnInsn, hb, if_true] at h ⊢
    exact ⟨_, .budget hb, rfl⟩
  | false =>
    cases hr : cfg.opts.safeHandoff && f.risky with
    | true =>
      simp only [trOnInsn, hb, hr, if_true, Bool.false_eq_true, if_false] at h ⊢
      rw [Bool.and_eq_true] at hr
      exact ⟨_, .handoff hb hr.1 hr.2, rfl⟩
    | false =>
      cases hc : cfg.cbs.onInsn with
      | false => simp [trOnInsn, hb, hr, hc] at h
      | true =>
        cases ha : f.onInsn with
        | true => simp [trOnInsn, hb, hr, hc, ha] at h
        | false =>
          simp only [trOnInsn, hb, hr, hc, ha, Bool.not_true, Bool.false_eq_true,
            if_false] at h ⊢
          exact ⟨_, .answer hb (by simp [asksOnInsn, hb, hr, hc]) ha, rfl⟩

theorem trOnInsn_pass {s : Session} {f : Facts} (h : (trOnInsn cfg s f).stop = false) :
    Passes cfg s (trOnInsn cfg s f).called ∧
      { (trOnInsn cfg s f).session with started := true } = s.next := by
  cases hb : budgetOut cfg s with
  | true => simp [trOnInsn, hb] at h
  | false =>
    cases hr : cfg.opts.safeHandoff && f.risky with
    | true => simp [trOnInsn, hb, hr] at h
    | false =>
      cases hc : cfg.cbs.onInsn with
      | false =>
        simp only [trOnInsn, hb, hr, hc, Bool.not_false, Bool.false_eq_true, if_false,
          if_true]
        exact ⟨.silent hb hc, rfl⟩
      | true =>
        cases ha : f.onInsn with
        | false => simp [trOnInsn, hb, hr, hc, ha] at h
        | true =>
          simp only [trOnInsn, hb, hr, hc, ha, Bool.not_true, Bool.false_eq_true,
            if_false, if_true]
          exact ⟨.answer hb hc, rfl⟩

/-! ## An invoke -/

/-- What the pre hook reports and pushes. -/
inductive Announced (cfg : Config) (s : Session) (call : Nat) (pending : List PendingCall) :
    List Event → List PendingCall → Prop where
  | silent : cfg.cbs.onInvoke = false → Announced cfg s call pending [] pending
  | pushed : cfg.cbs.onInvoke = true →
      Announced cfg s call pending [.onInvoke s.frame call] (⟨call, s.frame⟩ :: pending)

/-- The ways a callee is run, or not, behind the pre hook. -/
inductive Called (cfg : Config) (run : Session → Nat → List PendingCall → Out) (s : Session)
    (f : Facts) (call : Nat) (pending : List PendingCall) : CallOut → Prop where
  | mocked : Called cfg run s f call pending ⟨[.mocked call], call + 1, pending, .done⟩
  | jni : Called cfg run s f call pending
      ⟨[.begun call .jni], call + 1, f.reenter pending, .done⟩
  | native : Called cfg run s f call pending
      ⟨[.begun call .native], call + 1, f.reenter pending, .done⟩
  | nativeFailed : cfg.opts.enableNativeStepIn = true → f.native = .failed →
      Called cfg run s f call pending
        ⟨[.begun call .native, .begun call .jni], call + 1, f.reenter (f.reenter pending), .done⟩
  | running (o : Out) : o = run (makeSession (some call) (s.depth + 1)) (call + 1) pending →
      o.exit = none → Called cfg run s f call pending ⟨o.events, o.clock, o.pending, .running⟩
  | handled (o : Out) (e : Exit) :
      o = run (makeSession (some call) (s.depth + 1)) (call + 1) pending → o.exit = some e →
      e.aborted = false → e.exc = false → Called cfg run s f call pending
        ⟨o.events ++ [.finished (some call) e.aborted pending o.pending], o.clock, o.pending,
          .done⟩
  | handoff (o : Out) (e : Exit) :
      o = run (makeSession (some call) (s.depth + 1)) (call + 1) pending → o.exit = some e →
      e.aborted = true → e.handoff = true → Called cfg run s f call pending
        ⟨o.events ++ [.finished (some call) e.aborted pending o.pending], o.clock, o.pending,
          .bail⟩
  | declined (o : Out) (e : Exit) :
      o = run (makeSession (some call) (s.depth + 1)) (call + 1) pending → o.exit = some e →
      (e.aborted = false ∨ e.handoff = false) → (e.aborted = true ∨ e.exc = true) →
      Called cfg run s f call pending
        ⟨o.events ++ [.finished (some call) e.aborted pending o.pending] ++ [.begun call .jni],
          o.clock, f.reenter o.pending, .done⟩

theorem trOnInvokePre_announced {s : Session} {f : Facts} (hf : f.traced = true) (call : Nat)
    (pending : List PendingCall) :
    Announced cfg s call pending (trOnInvokePre cfg s f call pending).events
      (trOnInvokePre cfg s f call pending).pending := by
  have hvalid : f.ref.isValid = true := by
    simp only [Facts.traced, Bool.and_eq_true] at hf
    exact hf.2
  cases hc : cfg.cbs.onInvoke with
  | false =>
    simp only [trOnInvokePre, hvalid, hc, Bool.not_true, Bool.not_false, Bool.false_eq_true,
      if_false, if_true]
    exact .silent hc
  | true =>
    simp only [trOnInvokePre, hvalid, hc, Bool.not_true, Bool.false_eq_true, if_false]
    exact .pushed hc

theorem Refusal.status_ne_ok (r : Refusal) : r.status ≠ .ok := by
  cases r <;> decide

theorem toStepRet_failed {status : Status} (hs : status ≠ .ok) (exc : Bool) :
    RunResult.toStepRet { status := status, exceptionPending := exc } = .declined := by
  simp [RunResult.toStepRet, hs]

/-- The nested run of `trStepIn`. -/
theorem runMethodInternal_called (s : Session) (f : Facts) (call : Nat)
    (pending : List PendingCall) (entry : Entry) {r : RunOut}
    (hr : r = runMethodInternal run (some call) (s.depth + 1) entry (call + 1) pending) :
    Called cfg run s f call pending (match r.result.map RunResult.toStepRet with
      | none => ⟨r.events, r.clock, r.pending, .running⟩
      | some .handled => ⟨r.events, r.clock, r.pending, .done⟩
      | some .handoff => ⟨r.events, r.clock, r.pending, .bail⟩
      | some .declined =>
        ⟨r.events ++ [.begun call .jni], r.clock, f.reenter r.pending, .done⟩) := by
  rw [runMethodInternal] at hr
  -- a method that cannot be interpreted is declined, and goes through JNI
  split at hr
  · rw [hr]
    exact .jni
  split at hr
  · rw [hr]
    exact .jni
  split at hr
  · rw [hr]
    exact .jni
  cases hrefusal : entry.refusal with
  | some refusal =>
    rw [hrefusal] at hr
    rw [hr]
    simp only [Option.map_some, toStepRet_failed refusal.status_ne_ok]
    exact .jni
  | none =>
    rw [hrefusal] at hr
    cases hexit : (run (makeSession (some call) (s.depth + 1)) (call + 1) pending).exit with
    | none =>
      simp only [hexit] at hr
      rw [hr]
      exact .running _ rfl hexit
    | some e =>
      simp only [hexit] at hr
      rw [hr]
      simp only [Option.map_some]
      by_cases hhandoff : e.aborted = true ∧ e.handoff = true
      · have hret : RunResult.toStepRet
            ⟨if e.aborted = true then .aborted else .ok, e.exc, e.handoff⟩ = .handoff := by
          simp [RunResult.toStepRet, hhandoff]
        rw [hret]
        exact .handoff _ e rfl hexit hhandoff.1 hhandoff.2
      · by_cases hfailed : e.aborted = true ∨ e.exc = true
        · have hret : RunResult.toStepRet
              ⟨if e.aborted = true then .aborted else .ok, e.exc, e.handoff⟩ = .declined := by
            cases ha : e.aborted with
            | true =>
              have hh : e.handoff = false := by simpa [ha] using hhandoff
              simp [RunResult.toStepRet, hh]
            | false =>
              have hx : e.exc = true := by simpa [ha] using hfailed
              simp [RunResult.toStepRet, hx]
          rw [hret]
          refine .declined _ e rfl hexit ?_ hfailed
          cases ha : e.aborted with
          | false => exact .inl rfl
          | true => exact .inr (by simpa [ha] using hhandoff)
        · simp only [not_or, Bool.not_eq_true] at hfailed
          have hret : RunResult.toStepRet
              ⟨if e.aborted = true then .aborted else .ok, e.exc, e.handoff⟩ = .handled := by
            simp [RunResult.toStepRet, hfailed]
          rw [hret]
          exact .handled _ e rfl hexit hfailed.1 hfailed.2

theorem trStepIn_called (s : Session) (f : Facts) (call : Nat) (pending : List PendingCall)
    {r : StepOut} (hr : r = trStepIn cfg run s f call pending) :
    Called cfg run s f call pending (match r.ret with
      | none => ⟨r.events, r.clock, r.pending, .running⟩
      | some .handled => ⟨r.events, r.clock, r.pending, .done⟩
      | some .handoff => ⟨r.events, r.clock, r.pending, .bail⟩
      | some .declined =>
        ⟨r.events ++ [.begun call .jni], r.clock, f.reenter r.pending, .done⟩) := by
  simp only [trStepIn] at hr
  split at hr
  · rw [hr]
    exact .jni
  split at hr
  · rw [hr]
    exact .jni
  split at hr
  · rw [hr]
    exact .jni
  split at hr
  · rw [hr]
    exact .jni
  split at hr
  · split at hr
    · rw [hr]
      exact .jni
    rename_i henable
    split at hr
    · rw [hr]
      exact .jni
    · rename_i hfailed
      rw [hr]
      exact .nativeFailed (by simpa using henable) hfailed
    · rw [hr]
      exact .native
  · rw [hr]
    exact runMethodInternal_called s f call pending _ rfl

/-- `TRACED_INVOKE` up to the post hook: the pre hook, then one of the ways of the callee. -/
theorem tracedCall_called {f : Facts} (hf : f.traced = true) (s : Session) (call : Nat)
    (pending : List PendingCall) :
    ∃ announced pending' c, Announced cfg s call pending announced pending' ∧
      Called cfg run s f call pending' c ∧
      tracedCall cfg run s f call pending = { c with events := announced ++ c.events } := by
  have hpre := @trOnInvokePre_announced cfg s f hf call pending
  rw [tracedCall]
  dsimp only
  split
  · exact ⟨_, _, _, hpre, .mocked, rfl⟩
  · exact ⟨_, _, _, hpre, .jni, rfl⟩
  · obtain ⟨r, hr⟩ : ∃ r, r = trStepIn cfg run s f call (trOnInvokePre cfg s f call pending).pending :=
      ⟨_, rfl⟩
    have hcalled := trStepIn_called s f call (trOnInvokePre cfg s f call pending).pending hr
    rw [← hr]
    refine ⟨_, _, _, hpre, hcalled, ?_⟩
    cases r.ret with
    | none => rfl
    | some ret =>
      cases ret with
      | handled => rfl
      | declined => simp only [List.append_assoc]
      | handoff => rfl

/-! ## One instruction -/

/-- An instruction that was let through and is over: a plain one, or an invoke with its hooks. -/
inductive Executed (cfg : Config) (run : Session → Nat → List PendingCall → Out) (s : Session)
    (f : Facts) (clock : Nat) (pending : List PendingCall) :
    List Event → Nat → List PendingCall → Prop where
  | plain : f.traced = false →
      Executed cfg run s f clock pending [.insnEnd s.frame clock] (clock + 1) pending
  | invoke {announced : List Event} {pending' : List PendingCall} {c : CallOut} :
      f.traced = true → Announced cfg s clock pending announced pending' →
      Called cfg run s f clock pending' c → c.cont = .done →
      Executed cfg run s f clock pending
        (announced ++ (c.events ++ ((trOnInvokePost cfg s clock c.pending).1 ++
          [.invoked clock, .insnEnd s.frame clock])))
        c.clock (trOnInvokePost cfg s clock c.pending).2

/-- What stands before the work of an instruction that was let through. -/
def opening (s : Session) (pending : List PendingCall) (clock : Nat) (called : List Event) :
    List Event :=
  .dispatch s pending clock :: (called ++ (s.begins ++ [.insn s.frame clock]))

theorem Announced.mem {s : Session} {call : Nat} {pending pending' : List PendingCall}
    {announced : List Event} (h : Announced cfg s call pending announced pending') {e : Event}
    (he : e ∈ announced) : e = .onInvoke s.frame call := by
  cases h with
  | silent => exact absurd he (by simp)
  | pushed => exact List.mem_singleton.mp he

theorem mem_trOnInvokePost {s : Session} {call : Nat} {pending : List PendingCall} {e : Event}
    (he : e ∈ (trOnInvokePost cfg s call pending).1) :
    ∃ record, e = .onInvokePost s.frame call record := by
  cases hc : cfg.cbs.onInvokePost with
  | false => simp [trOnInvokePost, hc] at he
  | true =>
    cases pending with
    | nil => simp [trOnInvokePost, hc] at he
    | cons record rest =>
      simp only [trOnInvokePost, hc, Bool.not_true, Bool.false_eq_true, if_false,
        List.mem_singleton] at he
      exact ⟨record, he⟩

theorem Passes.mem {s : Session} {called : List Event} (h : Passes cfg s called) {e : Event}
    (he : e ∈ called) : e = .onInsn s.frame true := by
  cases h with
  | silent => exact absurd he (by simp)
  | answer => exact List.mem_singleton.mp he

theorem mem_begins {s : Session} {e : Event} (he : e ∈ s.begins) :
    ∃ call, s.frame = some call ∧ s.started = false ∧ e = .begun call .interp := by
  rw [Session.begins] at he
  split at he
  · exact absurd he (by simp)
  rename_i call hframe
  split at he
  · exact absurd he (by simp)
  · rename_i hstarted
    exact ⟨call, hframe, by simpa using hstarted, List.mem_singleton.mp he⟩

theorem mem_opening {s : Session} {pending : List PendingCall} {clock : Nat}
    {called : List Event} (h : Passes cfg s called) {e : Event}
    (he : e ∈ opening s pending clock called) :
    e = .dispatch s pending clock ∨ e = .onInsn s.frame true ∨ e = .insn s.frame clock ∨
      ∃ call, s.frame = some call ∧ s.started = false ∧ e = .begun call .interp := by
  simp only [opening, List.mem_cons, List.mem_append, List.not_mem_nil, or_false] at he
  rcases he with he | he | he | he
  · exact .inl he
  · exact .inr (.inl (h.mem he))
  · exact .inr (.inr (.inr (mem_begins he)))
  · exact .inr (.inr (.inl he))

/-- The ways an instruction and the rest of its frame can go. -/
inductive Dispatched (cfg : Config) (env : Nat → Facts)
    (run : Session → Nat → List PendingCall → Out) (s : Session) (clock : Nat)
    (pending : List PendingCall) : Out → Prop where
  | stopped {called : List Event} {handoff : Bool} :
      Stops cfg s (env clock) called handoff → Dispatched cfg env run s clock pending
        ⟨.dispatch s pending clock :: called, clock + 1, pending,
          some ⟨true, handoff, (env clock).excPending⟩⟩
  | running {called announced : List Event} {pending' : List PendingCall} {c : CallOut} :
      Passes cfg s called → (env clock).traced = true →
      Announced cfg s.next clock pending announced pending' →
      Called cfg run s.next (env clock) clock pending' c → c.cont = .running →
      Dispatched cfg env run s clock pending
        ⟨opening s pending clock called ++ (announced ++ c.events), c.clock, c.pending, none⟩
  | bailed {called announced : List Event} {pending' : List PendingCall} {c : CallOut} :
      Passes cfg s called → (env clock).traced = true →
      Announced cfg s.next clock pending announced pending' →
      Called cfg run s.next (env clock) clock pending' c → c.cont = .bail →
      Dispatched cfg env run s clock pending
        ⟨opening s pending clock called ++ (announced ++ c.events), c.clock, c.pending,
          some ⟨true, true, (env clock).excAfter⟩⟩
  | left {called events : List Event} {clock' : Nat} {pending' : List PendingCall} {exc : Bool} :
      Passes cfg s called → Executed cfg run s.next (env clock) clock pending events clock' pending' →
      (env clock).leaves = some exc → Dispatched cfg env run s clock pending
        ⟨opening s pending clock called ++ events, clock', pending', some (s.exit exc)⟩
  | next {called events : List Event} {clock' : Nat} {pending' : List PendingCall} {o : Out} :
      Passes cfg s called → Executed cfg run s.next (env clock) clock pending events clock' pending' →
      (env clock).leaves = none → o = run s.next clock' pending' →
      Dispatched cfg env run s clock pending
        { o with events := opening s pending clock called ++ (events ++ o.events) }

theorem dispatched_after {s : Session} {clock clock' : Nat} {pending pending' : List PendingCall}
    {called events all : List Event} (hpass : Passes cfg s called)
    (hexec : Executed cfg run s.next (env clock) clock pending events clock' pending')
    (hall : all = opening s pending clock called ++ events) :
    Dispatched cfg env run s clock pending
      (match (env clock).leaves with
        | some exc => ⟨all, clock', pending', some (s.next.exit exc)⟩
        | none => { run s.next clock' pending' with
            events := all ++ (run s.next clock' pending').events }) := by
  subst hall
  cases hleaves : (env clock).leaves with
  | some exc => exact .left hpass hexec hleaves
  | none =>
    simp only [List.append_assoc]
    exact .next hpass hexec hleaves rfl

theorem dispatchInsn_stopped {s : Session} {clock : Nat} (pending : List PendingCall)
    (hstop : (trOnInsn cfg s (env clock)).stop = true) :
    ∃ called handoff, Stops cfg s (env clock) called handoff ∧
      dispatchInsn cfg env run s clock pending = ⟨.dispatch s pending clock :: called, clock + 1,
        pending, some ⟨true, handoff, (env clock).excPending⟩⟩ := by
  obtain ⟨handoff, hstops, hexit⟩ := trOnInsn_stop hstop (env clock).excPending
  refine ⟨_, handoff, hstops, ?_⟩
  rw [dispatchInsn]
  dsimp only
  rw [if_pos hstop, hexit]

theorem dispatchInsn_dispatched (s : Session) (clock : Nat) (pending : List PendingCall) :
    Dispatched cfg env run s clock pending (dispatchInsn cfg env run s clock pending) := by
  cases hstop : (trOnInsn cfg s (env clock)).stop with
  | true =>
    obtain ⟨called, handoff, hstops, heq⟩ := @dispatchInsn_stopped cfg env run _ _ pending hstop
    rw [heq]
    exact .stopped hstops
  | false =>
    rw [dispatchInsn]
    dsimp only
    obtain ⟨hpass, hnext⟩ := trOnInsn_pass hstop
    rw [if_neg (by simp [hstop]), hnext]
    cases hf : (env clock).traced with
    | false =>
      rw [if_neg (by simp)]
      exact dispatched_after hpass (.plain hf) (by simp [opening, Session.next])
    | true =>
      obtain ⟨announced, pending', c, hann, hcalled, hc⟩ :=
        @tracedCall_called cfg run _ hf s.next clock pending
      rw [if_pos rfl, hc]
      dsimp only
      split
      · rename_i hcont
        have := Dispatched.running hpass hf hann hcalled hcont
        simpa [opening] using this
      · rename_i hcont
        have := Dispatched.bailed hpass hf hann hcalled hcont
        simpa [opening, Session.exit] using this
      · rename_i hcont
        exact dispatched_after hpass (.invoke hf hann hcalled hcont)
          (by simp [opening, Session.next])

/-! ## Every run -/

theorem Stops.stop {s : Session} {f : Facts} {called : List Event} {handoff : Bool}
    (h : Stops cfg s f called handoff) : (trOnInsn cfg s f).stop = true := by
  cases h with
  | budget hbudget => simp [trOnInsn, hbudget]
  | handoff hbudget hoption hrisky => simp [trOnInsn, hbudget, hoption, hrisky]
  | answer hbudget hasks hanswer =>
    simp only [asksOnInsn, Bool.and_eq_true, Bool.not_eq_true'] at hasks
    simp [trOnInsn, hbudget, hasks.1.2, hasks.2, hanswer]

/-- A property of the runs of a frame: it holds of a run that has not begun and of one that is
    stopped, and an instruction that is let through keeps it. -/
theorem runFrame_rule_stop (spec : Session → Nat → List PendingCall → Out → Prop)
    (hcut : ∀ s clock pending, spec s clock pending ⟨[], clock, pending, none⟩)
    (hstop : ∀ s clock pending called handoff, Stops cfg s (env clock) called handoff →
      spec s clock pending ⟨.dispatch s pending clock :: called, clock + 1, pending,
        some ⟨true, handoff, (env clock).excPending⟩⟩)
    (hstep : ∀ run, (∀ s clock pending, spec s clock pending (run s clock pending)) →
      ∀ s clock pending o, (trOnInsn cfg s (env clock)).stop = false →
        Dispatched cfg env run s clock pending o → spec s clock pending o)
    (fuel : Nat) : ∀ s clock pending, spec s clock pending (runFrame cfg env fuel s clock pending) := by
  induction fuel with
  | zero => exact hcut
  | succ fuel ih =>
    intro s clock pending
    rw [runFrame]
    cases hs : (trOnInsn cfg s (env clock)).stop with
    | true =>
      obtain ⟨called, handoff, hstops, heq⟩ :=
        @dispatchInsn_stopped cfg env (runFrame cfg env fuel) _ _ pending hs
      rw [heq]
      exact hstop s clock pending called handoff hstops
    | false => exact hstep _ ih s clock pending _ hs (dispatchInsn_dispatched s clock pending)

/-- A property of the runs of a frame: it holds of a run that has not begun, and one instruction
    keeps it. -/
theorem runFrame_rule (spec : Session → Nat → List PendingCall → Out → Prop)
    (hcut : ∀ s clock pending, spec s clock pending ⟨[], clock, pending, none⟩)
    (hstep : ∀ run, (∀ s clock pending, spec s clock pending (run s clock pending)) →
      ∀ s clock pending o, Dispatched cfg env run s clock pending o → spec s clock pending o)
    (fuel : Nat) : ∀ s clock pending, spec s clock pending (runFrame cfg env fuel s clock pending) := by
  refine runFrame_rule_stop spec hcut ?_ (fun run hrun s clock pending o _ => hstep run hrun s clock
    pending o) fuel
  intro s clock pending called handoff hstops
  -- a frame that is stopped has no rest, so any run will do for it
  exact hstep (fun _ clock pending => ⟨[], clock, pending, none⟩) hcut s clock pending _
    (.stopped hstops)

theorem session_cases (cfg : Config) (env : Nat → Facts) (fuel : Nat) (entry : Entry)
    (pending : List PendingCall) :
    (session cfg env fuel entry pending).events = [] ∨
      ∃ o, o = runFrame cfg env fuel (makeSession none 0) 0 pending ∧
        ((o.exit = none ∧ (session cfg env fuel entry pending).events = o.events) ∨
          ∃ e, o.exit = some e ∧ (session cfg env fuel entry pending).events
            = o.events ++ [.finished none e.aborted pending o.pending]) := by
  rw [session]
  split
  case isFalse => exact .inl rfl
  rw [runMethodInternal]
  split
  · exact .inl rfl
  split
  · exact .inl rfl
  split
  · exact .inl rfl
  split
  · exact .inl rfl
  · refine .inr ⟨_, rfl, ?_⟩
    dsimp only
    split
    · rename_i hexit
      exact .inl ⟨hexit, rfl⟩
    · rename_i e hexit
      exact .inr ⟨e, hexit, rfl⟩

/-- A property of the events of every session: of none, of those of the first frame, and of these
    with the end of the frame behind them. -/
theorem session_rule (P : List Event → Prop) (fuel : Nat) (entry : Entry)
    (pending : List PendingCall) (hnil : P [])
    (hframe : P (runFrame cfg env fuel (makeSession none 0) 0 pending).events)
    (hend : ∀ es aborted pending', P es → P (es ++ [.finished none aborted pending pending'])) :
    P (session cfg env fuel entry pending).events := by
  rcases session_cases cfg env fuel entry pending with hes | ⟨o, ho, ⟨_, hes⟩ | ⟨e, _, hes⟩⟩
  · rw [hes]
    exact hnil
  · rw [hes, ho]
    exact hframe
  · rw [hes]
    subst ho
    exact hend _ _ _ hframe

/-! ## Some instructions -/

def nop : Facts := { op := 0x00 }

def returnVoid : Facts := { op := 0x0e, effect := .ret false }

/-- `invoke-static` of a method of the application, with the callback's verdict. -/
def invokeStatic (verdict : InvokeVerdict) : Facts where
  op := 0x71
  ref := ⟨"Lapp/A;", "f", "()V"⟩
  preArt := some {}
  stepArt := some {}
  onInvoke := verdict

/-- The environment that answers with the given facts, one after the other, and then returns. -/
def script (fs : List Facts) (t : Nat) : Facts := fs.getD t returnVoid

end ArtPi.Interp
