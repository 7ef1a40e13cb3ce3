import ArtPi.Interp.Runs

set_option autoImplicit false

/-! # Aborts and the instruction budget

The abort flag and the instruction count are in the `Session`, and every stepped-in frame has a new
one. What `onInsn` or the budget stops is therefore one frame: its caller goes on, and starts the
callee again through JNI. `session_halts` says for which runs stopping one frame stops them all. -/

namespace ArtPi.Interp

/-- An instruction that is interpreted, or a callback that may still ask for an abort. -/
def Event.active : Event → Bool
  | .insn .. | .onInsn .. | .onInvoke .. => true
  | _ => false

def Event.isEnd : Event → Bool
  | .insnEnd .. => true
  | _ => false

/-- The number of instructions executed so far, in all frames. -/
def executed (es : List Event) : Nat := es.countP Event.isEnd

/-- `onInsn` has returned false, or the budget of the session is used up. -/
def Exhausted (cfg : Config) (es : List Event) : Prop :=
  (∃ frame, .onInsn frame false ∈ es) ∨
    (0 ≤ cfg.opts.maxInstructions ∧ cfg.opts.maxInstructions ≤ executed es)

/-- Once that is so, nothing is interpreted and no callback is delivered any more. -/
def Halts (cfg : Config) (es : List Event) : Prop :=
  ∀ before after, es = before ++ after → Exhausted cfg before → ∀ e ∈ after, e.active = false

def Event.isDispatch : Event → Bool
  | .dispatch .. => true
  | _ => false

/-- The number of instructions dispatched so far, in all frames. -/
def dispatched (es : List Event) : Nat := es.countP Event.isDispatch

/-- `onInsn` does not refuse in a stepped-in frame. -/
def AnswersAlong (cfg : Config) (env : Nat → Facts) (es : List Event) : Prop :=
  ∀ s pending t, .dispatch s pending t ∈ es → s.frame ≠ none →
    asksOnInsn cfg s (env t) = true → (env t).onInsn = true

/-- With a budget, every instruction is dispatched while the session has some of it left, or in a
    frame that has counted every instruction of the session itself. -/
def BudgetAlong (cfg : Config) (es : List Event) : Prop :=
  0 ≤ cfg.opts.maxInstructions → ∀ before s pending t after,
    es = before ++ .dispatch s pending t :: after →
      (dispatched before : Int) < cfg.opts.maxInstructions ∨ s.budgetUsed = dispatched before

/-! ## A refusal of `onInsn` -/

/-- Nothing active comes behind a refusal. -/
def Final (es : List Event) : Prop :=
  ∀ before after, es = before ++ after → (∃ frame, .onInsn frame false ∈ before) →
    ∀ e ∈ after, e.active = false

def NoRefusal (es : List Event) : Prop := ∀ frame, .onInsn frame false ∉ es

theorem NoRefusal.append {xs ys : List Event} (hx : NoRefusal xs) (hy : NoRefusal ys) :
    NoRefusal (xs ++ ys) := by
  intro frame h
  rcases List.mem_append.mp h with h | h
  · exact hx frame h
  · exact hy frame h

theorem NoRefusal.final {es : List Event} (h : NoRefusal es) : Final es := by
  rintro before after rfl ⟨frame, hmem⟩
  exact absurd (List.mem_append_left after hmem) (h frame)

theorem Final.append_left {xs ys : List Event} (hy : Final ys) (hx : NoRefusal xs) :
    Final (xs ++ ys) := by
  rintro before after heq ⟨frame, hmem⟩
  rcases List.append_eq_append_iff.mp heq with ⟨as, rfl, rfl⟩ | ⟨bs, rfl, rfl⟩
  · rcases List.mem_append.mp hmem with hmem | hmem
    · exact absurd hmem (hx frame)
    · exact hy as after rfl ⟨frame, hmem⟩
  · exact absurd (List.mem_append_left bs hmem) (hx frame)

theorem Final.concat {xs : List Event} {e : Event} (hx : Final xs) (he : e.active = false) :
    Final (xs ++ [e]) := by
  rintro before after heq ⟨frame, hmem⟩ e' he'
  rcases List.append_eq_append_iff.mp heq with ⟨as, rfl, hsing⟩ | ⟨bs, rfl, rfl⟩
  · have : e' ∈ [e] := by
      rw [hsing]
      exact List.mem_append_right as he'
    rw [List.mem_singleton.mp this]
    exact he
  · rcases List.mem_append.mp he' with he' | he'
    · exact hx before bs rfl ⟨frame, hmem⟩ e' he'
    · rw [List.mem_singleton.mp he']
      exact he

theorem AnswersAlong.mono {cfg : Config} {env : Nat → Facts} {es es' : List Event}
    (h : AnswersAlong cfg env es) (hsub : es' ⊆ es) : AnswersAlong cfg env es' :=
  fun s pending t hmem => h s pending t (hsub hmem)

/-- A refusal ends the run of the frame the session started with, and does not occur in others. -/
def FrameFinal (cfg : Config) (env : Nat → Facts) (s : Session) (_clock : Nat)
    (_pending : List PendingCall) (o : Out) : Prop :=
  AnswersAlong cfg env o.events →
    Final o.events ∧ (s.frame ≠ none → NoRefusal o.events)

section

variable {cfg : Config} {env : Nat → Facts} {run : Session → Nat → List PendingCall → Out}
  {s : Session} {clock : Nat} {pending : List PendingCall}

theorem opening_noRefusal {called : List Event} (h : Passes cfg s called) :
    NoRefusal (opening s pending clock called) := by
  intro frame hmem
  rcases mem_opening h hmem with he | he | he | ⟨call, _, _, he⟩
  all_goals exact absurd he (by simp)

theorem Announced.noRefusal {announced : List Event} {pending' : List PendingCall}
    (h : Announced cfg s clock pending announced pending') : NoRefusal announced := by
  intro frame hmem
  exact absurd (h.mem hmem) (by simp)

theorem posted_noRefusal (pending' : List PendingCall) :
    NoRefusal (trOnInvokePost cfg s clock pending').1 := by
  intro frame hmem
  obtain ⟨record, he⟩ := mem_trOnInvokePost hmem
  exact absurd he (by simp)

theorem Called.noRefusal (hrun : ∀ s clock pending, FrameFinal cfg env s clock pending
      (run s clock pending)) {f : Facts} {c : CallOut} (h : Called cfg run s f clock pending c)
    (hfair : AnswersAlong cfg env c.events) : NoRefusal c.events := by
  have hnested : ∀ o, o = run (makeSession (some clock) (s.depth + 1)) (clock + 1) pending →
      AnswersAlong cfg env o.events → NoRefusal o.events := by
    intro o ho hanswers
    subst ho
    exact (hrun _ _ _ hanswers).2 (by simp [makeSession])
  cases h with
  | mocked | jni | native | nativeFailed => intro frame; simp
  | running o ho hexit => exact hnested o ho hfair
  | handled o e ho hexit ha hx =>
    exact (hnested o ho (hfair.mono (by simp))).append (by intro frame; simp)
  | handoff o e ho hexit ha hh =>
    exact (hnested o ho (hfair.mono (by simp))).append (by intro frame; simp)
  | declined o e ho hexit hnot hfailed =>
    exact ((hnested o ho (hfair.mono (by simp))).append (by intro frame; simp)).append
      (by intro frame; simp)

theorem Executed.noRefusal (hrun : ∀ s clock pending, FrameFinal cfg env s clock pending
      (run s clock pending)) {f : Facts} {events : List Event} {clock' : Nat}
    {pending' : List PendingCall} (h : Executed cfg run s f clock pending events clock' pending')
    (hfair : AnswersAlong cfg env events) : NoRefusal events := by
  cases h with
  | plain => intro frame; simp
  | invoke hf hann hcalled hdone =>
    exact hann.noRefusal.append ((hcalled.noRefusal hrun (hfair.mono (by simp))).append
      ((posted_noRefusal _).append (by intro frame; simp)))

theorem Dispatched.final (hrun : ∀ s clock pending, FrameFinal cfg env s clock pending
      (run s clock pending)) {o : Out} (h : Dispatched cfg env run s clock pending o) :
    FrameFinal cfg env s clock pending o := by
  intro hfair
  have hwhole : NoRefusal o.events → Final o.events ∧ (s.frame ≠ none → NoRefusal o.events) :=
    fun hno => ⟨hno.final, fun _ => hno⟩
  cases h with
  | stopped hstops =>
    cases hstops with
    | budget => exact hwhole (by intro frame; simp)
    | handoff => exact hwhole (by intro frame; simp)
    | answer _ hasked ha =>
      refine ⟨?_, fun hframe => ?_⟩
      · -- the refusal is the last event
        rintro before after heq ⟨frame, hmem⟩ e he
        match before, heq, hmem with
        | [_], heq, hmem =>
          obtain ⟨rfl, -⟩ := List.cons.inj heq
          exact absurd hmem (by simp)
        | _ :: _ :: before, heq, _ =>
          have := congrArg List.length heq
          simp only [List.length_cons, List.length_append, List.length_nil] at this
          have hafter : after = [] := List.length_eq_zero_iff.mp (by omega)
          rw [hafter] at he
          exact absurd he (by simp)
      · have := hfair s pending clock (by simp) hframe hasked
        rw [ha] at this
        exact absurd this (by simp)
  | running hpass hf hann hcalled hcont =>
    exact hwhole ((opening_noRefusal hpass).append (hann.noRefusal.append
      (hcalled.noRefusal hrun (hfair.mono (by simp)))))
  | bailed hpass hf hann hcalled hcont =>
    exact hwhole ((opening_noRefusal hpass).append (hann.noRefusal.append
      (hcalled.noRefusal hrun (hfair.mono (by simp)))))
  | left hpass hexec hleaves =>
    exact hwhole ((opening_noRefusal hpass).append (hexec.noRefusal hrun (hfair.mono (by simp))))
  | @next called events clock' pending' _ hpass hexec hleaves ho =>
    subst ho
    have hhead : NoRefusal (opening s pending clock called ++ events) :=
      (opening_noRefusal hpass).append (hexec.noRefusal hrun (hfair.mono (by simp)))
    obtain ⟨htail, hnested⟩ := hrun s.next clock' pending' (hfair.mono (by simp))
    simp only [← List.append_assoc]
    exact ⟨htail.append_left hhead, fun hframe => hhead.append (hnested hframe)⟩

end

/-! ## Instructions under way -/

/-- A dispatch that the budget of its frame admits. -/
def Event.admitted (cfg : Config) : Event → Bool
  | .dispatch s _ _ => !budgetOut cfg s
  | _ => false

def admitted (cfg : Config) (es : List Event) : Nat := es.countP (Event.admitted cfg)

/-- With `k` instructions under way before: no more instructions end than were admitted, and where
    something active happens an instruction is under way. -/
structure Bracketed (cfg : Config) (k : Nat) (es : List Event) : Prop where
  ends : ∀ before after, es = before ++ after → executed before ≤ admitted cfg before + k
  inside : ∀ before e after, es = before ++ e :: after → e.active = true →
    executed before < admitted cfg before + k

section

variable {cfg : Config} {k : Nat} {xs ys : List Event}

theorem executed_append (xs ys : List Event) : executed (xs ++ ys) = executed xs + executed ys :=
  List.countP_append

theorem admitted_append (xs ys : List Event) :
    admitted cfg (xs ++ ys) = admitted cfg xs + admitted cfg ys :=
  List.countP_append

theorem executed_eq_zero (h : ∀ e ∈ xs, e.isEnd = false) : executed xs = 0 := by
  rw [executed, List.countP_eq_zero]
  intro e he
  simp [h e he]

theorem Bracketed.total (h : Bracketed cfg 0 xs) : executed xs ≤ admitted cfg xs :=
  h.ends xs [] (List.append_nil xs).symm

theorem Bracketed.mono {j : Nat} (h : Bracketed cfg j xs) (hjk : j ≤ k) : Bracketed cfg k xs where
  ends := fun before after heq => by
    have := h.ends before after heq
    omega
  inside := fun before e after heq he => by
    have := h.inside before e after heq he
    omega

theorem Bracketed.append (hx : Bracketed cfg k xs) (htotal : executed xs ≤ admitted cfg xs)
    (hy : Bracketed cfg k ys) : Bracketed cfg k (xs ++ ys) where
  ends := by
    intro before after heq
    rcases List.append_eq_append_iff.mp heq with ⟨as, rfl, rfl⟩ | ⟨bs, rfl, rfl⟩
    · have := hy.ends as after rfl
      rw [executed_append, admitted_append]
      omega
    · exact hx.ends before bs rfl
  inside := by
    intro before e after heq he
    rcases List.append_eq_append_iff.mp heq with ⟨as, rfl, hys⟩ | ⟨bs, hxs, hbs⟩
    · have := hy.inside as e after hys he
      rw [executed_append, admitted_append]
      omega
    · cases bs with
      | nil =>
        rw [List.append_nil] at hxs
        have := hy.inside [] e after (by simpa using hbs.symm) he
        rw [hxs] at htotal
        simp only [executed, admitted, List.countP_nil] at this htotal ⊢
        omega
      | cons b bs =>
        obtain ⟨rfl, rfl⟩ := List.cons.inj hbs
        exact hx.inside before e bs hxs he

/-- Events that neither end an instruction nor are active stand anywhere. -/
theorem Bracketed.of_passive (hends : ∀ e ∈ xs, e.isEnd = false)
    (hactive : ∀ e ∈ xs, e.active = false) : Bracketed cfg k xs where
  ends := by
    rintro before after rfl
    rw [executed_eq_zero (fun e he => hends e (List.mem_append_left after he))]
    omega
  inside := by
    rintro before e after rfl he
    rw [hactive e (by simp)] at he
    exact absurd he (by simp)

theorem Bracketed.of_underway (hends : ∀ e ∈ xs, e.isEnd = false) : Bracketed cfg 1 xs where
  ends := by
    rintro before after rfl
    rw [executed_eq_zero (fun e he => hends e (List.mem_append_left after he))]
    omega
  inside := by
    rintro before e after rfl _
    rw [executed_eq_zero (fun e' he' => hends e' (List.mem_append_left _ he'))]
    omega

theorem Bracketed.insnEnd (frame : Option Nat) (insn : Nat) :
    Bracketed cfg 1 [.insnEnd frame insn] where
  ends := by
    intro before after heq
    have hle : executed before ≤ executed (before ++ after) := by
      rw [executed_append]
      omega
    rw [← heq] at hle
    have : executed [.insnEnd frame insn] = 1 := rfl
    omega
  inside := by
    intro before e after heq he
    match before, heq with
    | [], heq =>
      obtain ⟨rfl, -⟩ := List.cons.inj heq
      exact absurd he (by simp [Event.active])
    | _ :: before, heq =>
      have := congrArg List.length heq
      simp only [List.length_cons, List.length_append, List.length_nil] at this
      omega

theorem Bracketed.dispatch {s : Session} {pending : List PendingCall} {t : Nat}
    (hs : budgetOut cfg s = false) (h : Bracketed cfg 1 xs) :
    Bracketed cfg 0 (.dispatch s pending t :: xs) where
  ends := by
    intro before after heq
    cases before with
    | nil => simp [executed]
    | cons b before =>
      obtain ⟨rfl, rfl⟩ := List.cons.inj heq
      have := h.ends before after rfl
      simp only [executed, admitted, List.countP_cons, Event.isEnd, Event.admitted, hs,
        Bool.not_false, Bool.false_eq_true, if_false, if_true] at this ⊢
      omega
  inside := by
    intro before e after heq he
    cases before with
    | nil =>
      obtain ⟨rfl, -⟩ := List.cons.inj heq
      exact absurd he (by simp [Event.active])
    | cons b before =>
      obtain ⟨rfl, rfl⟩ := List.cons.inj heq
      have := h.inside before e after rfl he
      simp only [executed, admitted, List.countP_cons, Event.isEnd, Event.admitted, hs,
        Bool.not_false, Bool.false_eq_true, if_false, if_true] at this ⊢
      omega

end

section

variable {cfg : Config} {env : Nat → Facts} {run : Session → Nat → List PendingCall → Out}
  {s : Session} {clock : Nat} {pending : List PendingCall}

theorem Passes.admitted {called : List Event} (h : Passes cfg s called) :
    budgetOut cfg s = false := by
  cases h <;> assumption

theorem Called.bracketed (hrun : ∀ s clock pending, Bracketed cfg 0 (run s clock pending).events)
    {f : Facts} {c : CallOut} (h : Called cfg run s f clock pending c) :
    Bracketed cfg 0 c.events := by
  have hnested : ∀ o, o = run (makeSession (some clock) (s.depth + 1)) (clock + 1) pending →
      Bracketed cfg 0 o.events := by
    rintro o rfl
    exact hrun _ _ _
  have hpassive (e : Event) (hend : e.isEnd = false) (hactive : e.active = false) :
      Bracketed cfg 0 [e] :=
    .of_passive (by simpa using hend) (by simpa using hactive)
  cases h with
  | mocked | jni | native | nativeFailed =>
    exact .of_passive (by simp [Event.isEnd]) (by simp [Event.active])
  | running o ho hexit => exact hnested o ho
  | handled o e ho hexit ha hx =>
    have ho := hnested o ho
    exact ho.append ho.total (hpassive _ rfl rfl)
  | handoff o e ho hexit ha hh =>
    have ho := hnested o ho
    exact ho.append ho.total (hpassive _ rfl rfl)
  | declined o e ho hexit hnot hfailed =>
    have ho := hnested o ho
    have hfin := ho.append ho.total (hpassive (.finished (some clock) e.aborted pending o.pending)
      rfl rfl)
    exact hfin.append hfin.total (hpassive _ rfl rfl)

/-- What an instruction does behind its dispatch, with the instruction under way. -/
theorem Executed.bracketed (hrun : ∀ s clock pending, Bracketed cfg 0 (run s clock pending).events)
    {f : Facts} {events : List Event} {clock' : Nat} {pending' : List PendingCall}
    (h : Executed cfg run s f clock pending events clock' pending') : Bracketed cfg 1 events := by
  cases h with
  | plain => exact .insnEnd _ _
  | @invoke announced _ c hf hann hcalled hdone =>
    have hc := hcalled.bracketed hrun
    have hann' : ∀ e ∈ announced, e.isEnd = false := fun e he => by rw [hann.mem he]; rfl
    have hposted : ∀ e ∈ (trOnInvokePost cfg s clock c.pending).1, e.isEnd = false := by
      intro e he
      obtain ⟨record, rfl⟩ := mem_trOnInvokePost he
      rfl
    have hover : Bracketed cfg 1 [.invoked clock] := .of_underway (by simp [Event.isEnd])
    have hlast : Bracketed cfg 1 [.invoked clock, .insnEnd s.frame clock] :=
      hover.append (by rfl) (.insnEnd _ _)
    refine (Bracketed.of_underway hann').append ?_ ((hc.mono (by omega)).append hc.total
      ((Bracketed.of_underway hposted).append ?_ hlast))
    · rw [executed_eq_zero hann']
      omega
    · rw [executed_eq_zero hposted]
      omega

/-- An instruction that was let through, up to where its work begins. -/
theorem bracketed_opening (pending : List PendingCall) (clock : Nat) {called events : List Event}
    (hpass : Passes cfg s called) (h : Bracketed cfg 1 events) :
    Bracketed cfg 0 (opening s pending clock called ++ events) := by
  have hends : ∀ e ∈ called ++ (s.begins ++ [.insn s.frame clock]), e.isEnd = false := by
    intro e he
    have hmem : e ∈ opening s pending clock called := List.mem_cons_of_mem _ he
    rcases mem_opening hpass hmem with rfl | rfl | rfl | ⟨call, _, _, rfl⟩
    all_goals rfl
  rw [opening, List.cons_append]
  refine .dispatch hpass.admitted ((Bracketed.of_underway hends).append ?_ h)
  rw [executed_eq_zero hends]
  omega

theorem Dispatched.bracketed (hrun : ∀ s clock pending, Bracketed cfg 0 (run s clock pending).events)
    {o : Out} (h : Dispatched cfg env run s clock pending o) : Bracketed cfg 0 o.events := by
  -- the invoke of a frame that does not go on behind it
  have hinvoke : ∀ {called announced pending' c}, Passes cfg s called →
      Announced cfg s.next clock pending announced pending' →
      Called cfg run s.next (env clock) clock pending' c →
      Bracketed cfg 0 (opening s pending clock called ++ (announced ++ c.events)) := by
    intro called announced pending' c hpass hann hcalled
    have hends : ∀ e ∈ announced, e.isEnd = false := fun e he => by rw [hann.mem he]; rfl
    refine bracketed_opening _ _ hpass ((Bracketed.of_underway hends).append ?_
      ((hcalled.bracketed hrun).mono (by omega)))
    rw [executed_eq_zero hends]
    omega
  cases h with
  | stopped hstops =>
    cases hstops with
    | budget => exact .of_passive (by simp [Event.isEnd]) (by simp [Event.active])
    | handoff hb => exact .dispatch hb (.of_underway (by simp))
    | answer hb => exact .dispatch hb (.of_underway (by simp [Event.isEnd]))
  | running hpass hf hann hcalled hcont => exact hinvoke hpass hann hcalled
  | bailed hpass hf hann hcalled hcont => exact hinvoke hpass hann hcalled
  | left hpass hexec hleaves => exact bracketed_opening _ _ hpass (hexec.bracketed hrun)
  | next hpass hexec hleaves ho =>
    subst ho
    have hhead := bracketed_opening pending clock hpass (hexec.bracketed hrun)
    simp only [← List.append_assoc]
    exact hhead.append hhead.total (hrun _ _ _)

end

/-! ## Every run -/

/-- An active event behind an exhausted budget stands inside one more admitted instruction than the
    budget has. -/
theorem Bracketed.within {cfg : Config} {es : List Event} (h : Bracketed cfg 0 es)
    (hbound : (admitted cfg es : Int) ≤ cfg.opts.maxInstructions) {before after : List Event}
    (heq : es = before ++ after) (hused : cfg.opts.maxInstructions ≤ executed before) {e : Event}
    (he : e ∈ after) : e.active = false := by
  obtain ⟨xs, ys, rfl⟩ := List.append_of_mem he
  cases hactive : e.active with
  | false => rfl
  | true =>
    have hlt := h.inside (before ++ xs) e ys (by simp [heq]) hactive
    have hle : admitted cfg (before ++ xs) ≤ admitted cfg es := by
      rw [heq, ← List.append_assoc, admitted_append (before ++ xs)]
      omega
    rw [executed_append] at hlt
    omega

theorem admitted_le_dispatched (cfg : Config) (es : List Event) :
    admitted cfg es ≤ dispatched es := by
  refine List.countP_mono_left ?_
  intro e _ he
  cases e with
  | dispatch => rfl
  | _ => exact absurd he (by simp [Event.admitted])

/-- The budget bounds what is admitted in all frames together. -/
theorem BudgetAlong.admitted_le {cfg : Config} (hmax : 0 ≤ cfg.opts.maxInstructions)
    {es : List Event} (h : BudgetAlong cfg es) :
    (admitted cfg es : Int) ≤ cfg.opts.maxInstructions := by
  induction es using List.reverseRecOn with
  | nil => exact hmax
  | append_singleton es e ih =>
    have hes : BudgetAlong cfg es := by
      rintro hmax before s pending t after rfl
      exact h hmax before s pending t (after ++ [e]) (by simp)
    have hle := ih hes
    rw [admitted_append]
    cases hadm : e.admitted cfg with
    | false =>
      have hzero : admitted cfg [e] = 0 := by simp [admitted, hadm]
      omega
    | true =>
      have hone : admitted cfg [e] = 1 := by simp [admitted, hadm]
      cases e with
      | dispatch s pending t =>
        have hcount := admitted_le_dispatched cfg es
        have hleft := h hmax es s pending t [] rfl
        simp only [Event.admitted, budgetOut, hmax, decide_true, Bool.true_and,
          Bool.not_eq_true', decide_eq_false_iff_not] at hadm
        omega
      | _ => exact absurd hadm (by simp [Event.admitted])

theorem session_final (cfg : Config) (env : Nat → Facts) (fuel : Nat) (entry : Entry)
    (pending : List PendingCall)
    (h : AnswersAlong cfg env (session cfg env fuel entry pending).events) :
    Final (session cfg env fuel entry pending).events := by
  have hframe : ∀ s clock pending, FrameFinal cfg env s clock pending
      (runFrame cfg env fuel s clock pending) :=
    runFrame_rule (FrameFinal cfg env)
      (fun _ _ _ _ => ⟨NoRefusal.final (by intro frame; simp), fun _ => by intro frame; simp⟩)
      (fun run hrun _ _ _ _ hd => hd.final hrun) fuel
  revert h
  refine session_rule (fun es => AnswersAlong cfg env es → Final es) fuel entry pending ?_ ?_ ?_
  · exact fun _ => NoRefusal.final (by intro frame; simp)
  · exact fun hanswers => (hframe _ _ _ hanswers).1
  · intro es aborted pending' hes hanswers
    exact (hes (hanswers.mono (List.subset_append_left _ _))).concat rfl

theorem session_bracketed (cfg : Config) (env : Nat → Facts) (fuel : Nat) (entry : Entry)
    (pending : List PendingCall) :
    Bracketed cfg 0 (session cfg env fuel entry pending).events := by
  refine session_rule (Bracketed cfg 0) fuel entry pending ?_ ?_ ?_
  · exact .of_passive (by simp) (by simp)
  · exact runFrame_rule (fun _ _ _ o => Bracketed cfg 0 o.events)
      (fun _ _ _ => .of_passive (by simp) (by simp))
      (fun run hrun _ _ _ _ hd => hd.bracketed hrun) fuel _ _ _
  · intro es aborted pending' hes
    exact hes.append hes.total (.of_passive (by simp [Event.isEnd]) (by simp [Event.active]))

/-- In every run in which `onInsn` refuses in no stepped-in frame, and in which the budget is not
    spread over several frames, nothing is interpreted and no callback is delivered once `onInsn` has
    refused or the budget is used up. -/
theorem session_halts (cfg : Config) (env : Nat → Facts) (fuel : Nat) (entry : Entry)
    (pending : List PendingCall)
    (hanswers : AnswersAlong cfg env (session cfg env fuel entry pending).events)
    (hbudget : BudgetAlong cfg (session cfg env fuel entry pending).events) :
    Halts cfg (session cfg env fuel entry pending).events := by
  intro before after heq hex e he
  rcases hex with hrefused | ⟨hmax, hused⟩
  · exact session_final cfg env fuel entry pending hanswers before after heq hrefused e he
  · exact (session_bracketed cfg env fuel entry pending).within (hbudget.admitted_le hmax) heq
      hused he

/-- A method that steps into another one, which returns, and is then stopped by `onInsn`. -/
def refusedRun : List Event :=
  (session { cbs := { onInsn := true, onInvoke := true }, opts := { maxInstructions := 4 } }
    (script [invokeStatic .stepIn, returnVoid, { nop with onInsn := false }]) 5 {} []).events

theorem refusedRun_halts :
    .onInsn none false ∈ refusedRun ∧
      Halts { cbs := { onInsn := true, onInvoke := true }, opts := { maxInstructions := 4 } }
        refusedRun := by
  refine ⟨by decide, session_halts _ _ 5 {} [] ?_ ?_⟩
  · intro s pending t hmem hframe _
    match t with
    | 0 => rfl
    | 1 => rfl
    | 2 =>
      have hroot : refusedRun.all (fun
        | .dispatch s _ 2 => s.frame.isNone
        | _ => true) = true := by decide
      have := List.all_eq_true.mp hroot _ hmem
      exact absurd (Option.isNone_iff_eq_none.mp this) hframe
    | _ + 3 => rfl
  · intro _ before s pending t after heq
    have hthree : dispatched refusedRun = 3 := by decide
    have hsplit : dispatched refusedRun
        = dispatched before + dispatched (.dispatch s pending t :: after) := by
      rw [refusedRun, heq]
      exact List.countP_append
    have hone : dispatched (.dispatch s pending t :: after) = dispatched after + 1 :=
      List.countP_cons_of_pos rfl
    refine .inl ?_
    show (dispatched before : Int) < 4
    omega

/-- A refusal in a stepped-in frame does not stop its caller, and two frames have two budgets. -/
theorem stepIn_does_not_halt :
    ¬ Halts { cbs := { onInsn := true, onInvoke := true } }
        (session { cbs := { onInsn := true, onInvoke := true } }
          (script [invokeStatic .stepIn, { nop with onInsn := false }]) 4 {} []).events ∧
      ¬ Halts { cbs := { onInvoke := true }, opts := { maxInstructions := 2 } }
        (session { cbs := { onInvoke := true }, opts := { maxInstructions := 2 } }
          (script [invokeStatic .stepIn, nop]) 4 {} []).events := by
  constructor
  · intro h
    have := h _ _ (List.take_append_drop 6 _).symm (.inl ⟨some 0, by decide⟩)
      (.insn none 2) (by decide)
    exact absurd this (by simp [Event.active])
  · intro h
    have := h _ _ (List.take_append_drop 10 _).symm (.inr ⟨by decide, by decide⟩)
      (.insn none 3) (by decide)
    exact absurd this (by simp [Event.active])

end ArtPi.Interp
