import ArtPi.Interp.Budget
import ArtPi.Interp.Once

set_option autoImplicit false

/-! # The hooked method under interpretation (`pi_interp_executor.cpp`, `pine_native.cpp`)

A hook callback may have the hooked method interpreted or traced instead of called. The dispatcher
calls the original behind the callback unless the frame says that it has run or has a result, and
`invokeInterpreterInternal` says so only for a run that ended well. That is right for a method that
was refused before its first instruction; a method that was stopped in the middle is started again.
`dispatcher_beginsOnce_iff` says that nothing else starts it twice, or not at all. -/

namespace ArtPi.Interp

/-! ## Interpreting the hooked method -/

/-- The interpreter loop of a frame without a tracer: no hook stops it and every callee is called
    through JNI. -/
def runUntraced (env : Nat → Facts) : Nat → Session → Nat → List PendingCall → Out
  | 0, _, clock, pending => ⟨[], clock, pending, none⟩
  | fuel + 1, s, clock, pending =>
    let f := env clock
    let events := [.insn s.frame clock, .insnEnd s.frame clock]
    let pending' := if f.traced then f.reenter pending else pending
    match f.leaves with
    | some exc => ⟨events, clock + 1, pending', some ⟨false, false, exc⟩⟩
    | none =>
      let o := runUntraced env fuel s (clock + 1) pending'
      { o with events := events ++ o.events }

/-- The run of the hooked method, with a tracer or without. -/
def rootRun (cfg : Config) (env : Nat → Facts) (fuel : Nat) (entry : Entry)
    (pending : List PendingCall) : RunOut :=
  if cfg.cbs.active then session cfg env fuel entry pending
  else runMethodInternal (runUntraced env fuel) none 0 entry 0 pending

inductive TracePreset where
  | methodOnly | instructionDiff | fullStackNative
  deriving DecidableEq

/-- The options and callbacks of `invokeTraceInternal`. -/
def traceConfig (preset : TracePreset) (appScopePkg : String) : Config where
  opts := {
    stepInEnabled := true
    safeHandoff := false
    enableNativeStepIn := preset = .fullStackNative }
  cbs := { onInvoke := true, onInvokePost := true }
  appScopePkg := appScopePkg

/-- What the callback has done with the method, as far as the dispatcher looks at it; `originals`
    counts the calls of the original. -/
structure CallFrame where
  originalInvoked : Bool := false
  hasCustomResult : Bool := false
  originals : Nat := 0
  deriving DecidableEq

namespace CallFrame

def invokeOriginalInternal (frame : CallFrame) : CallFrame :=
  if frame.originalInvoked then frame
  else { frame with originalInvoked := true, originals := frame.originals + 1 }

/-- The end of `invokeInterpreterInternal`: an object, a number or nothing is the result. -/
def propagate (frame : CallFrame) (r : RunResult) : CallFrame :=
  if r.status ≠ .ok then frame
  else if r.exceptionPending then { frame with originalInvoked := true }
  else { frame with originalInvoked := true, hasCustomResult := true }

/-- The end of `invokeTraceInternal`, which also takes over from a hand-off. -/
def propagateTrace (frame : CallFrame) (r : RunResult) : CallFrame :=
  if r.status = .aborted ∧ r.handoff = true then frame.invokeOriginalInternal
  else frame.propagate r

end CallFrame

/-- What was interpreted, and the frame behind it; none while the method still runs. -/
structure Dispatch where
  events : List Event
  frame : Option CallFrame

/-- A call of a hooked method: whether its signature can be parsed and its arguments can be found,
    and what `runMethodInternal` looks at. -/
structure HookedCall where
  shorty : Bool := true
  args : Bool := true
  entry : Entry := {}

/-- Runs the method and stores what comes out of it. -/
def invokeWith (propagate : CallFrame → RunResult → CallFrame) (cfg : Config) (env : Nat → Facts)
    (fuel : Nat) (c : HookedCall) (pending : List PendingCall) (frame : CallFrame) : Dispatch :=
  if !c.shorty || !c.args then ⟨[], some frame⟩
  else
    let r := rootRun cfg env fuel c.entry pending
    ⟨r.events, r.result.map (propagate frame)⟩

def invokeInterpreterInternal (cfg : Config) (env : Nat → Facts) (fuel : Nat) (c : HookedCall)
    (pending : List PendingCall) (frame : CallFrame) : Dispatch :=
  invokeWith CallFrame.propagate cfg env fuel c pending frame

def invokeTraceInternal (preset : TracePreset) (appScopePkg : String) (env : Nat → Facts)
    (fuel : Nat) (c : HookedCall) (pending : List PendingCall) (frame : CallFrame) : Dispatch :=
  invokeWith CallFrame.propagateTrace (traceConfig preset appScopePkg) env fuel c pending frame

/-- How the callback runs the method. -/
inductive Way where
  | interpreter (cfg : Config)
  | trace (preset : TracePreset) (appScopePkg : String)

def Way.config : Way → Config
  | .interpreter cfg => cfg
  | .trace preset appScopePkg => traceConfig preset appScopePkg

def Way.invoke : Way → (Nat → Facts) → Nat → HookedCall → List PendingCall → CallFrame → Dispatch
  | .interpreter cfg => invokeInterpreterInternal cfg
  | .trace preset appScopePkg => invokeTraceInternal preset appScopePkg

/-- The fallback of `MethodHookDispatcher` behind the callback. -/
def CallFrame.fallback (frame : CallFrame) : CallFrame :=
  if !frame.hasCustomResult && !frame.originalInvoked then frame.invokeOriginalInternal else frame

def methodHookDispatcher (way : Way) (env : Nat → Facts) (fuel : Nat) (c : HookedCall)
    (pending : List PendingCall) : Dispatch :=
  let d := way.invoke env fuel c pending {}
  { d with frame := d.frame.map CallFrame.fallback }

/-! ## The property and its condition -/

/-- An instruction of the hooked method is interpreted. -/
def Event.ofRoot : Event → Bool
  | .insn none _ => true
  | _ => false

/-- How often the body of the hooked method begins, interpreted or called. -/
def Dispatch.begins (d : Dispatch) (frame : CallFrame) : Nat :=
  (if d.events.any Event.ofRoot then 1 else 0) + frame.originals

/-- When the dispatcher is done, the body has begun once. -/
def Dispatch.BeginsOnce (d : Dispatch) : Prop := ∀ frame, d.frame = some frame → d.begins frame = 1

/-- The hook stops the frame for a hand-off. -/
def handsOff (cfg : Config) (s : Session) (f : Facts) : Bool :=
  !budgetOut cfg s && (cfg.opts.safeHandoff && f.risky)

/-- The hook is about to stop the hooked method behind its first instruction, or to hand off from a
    method it has stepped into. -/
def Event.cuts (cfg : Config) (env : Nat → Facts) : Event → Bool
  | .dispatch s _ t =>
    match s.frame with
    | none => s.started && (trOnInsn cfg s (env t)).stop
    | some _ => handsOff cfg s (env t)
  | _ => false

/-! ## Cuts in a run -/

def Event.handsOff (cfg : Config) (env : Nat → Facts) : Event → Bool
  | .dispatch s _ t => Interp.handsOff cfg s (env t)
  | _ => false

/-- No instruction is dispatched, and none of the hooked method is interpreted. -/
def Plain (es : List Event) : Prop := ∀ e ∈ es, e.isDispatch = false ∧ e.ofRoot = false

section

variable {cfg : Config} {env : Nat → Facts} {s : Session} {clock : Nat}
  {pending : List PendingCall} {run : Session → Nat → List PendingCall → Out}

theorem Plain.append {xs ys : List Event} (hx : Plain xs) (hy : Plain ys) : Plain (xs ++ ys) := by
  intro e he
  rcases List.mem_append.mp he with he | he
  · exact hx e he
  · exact hy e he

/-- What the events of some part of a run say about cuts. -/
structure Cuts (cfg : Config) (env : Nat → Facts) (es : List Event) (handsOff cuts ofRoot : Bool) :
    Prop where
  handsOff : es.any (Event.handsOff cfg env) = handsOff
  cuts : es.any (Event.cuts cfg env) = cuts
  ofRoot : es.any Event.ofRoot = ofRoot

theorem Cuts.append {xs ys : List Event} {h h' c c' r r' : Bool} (hx : Cuts cfg env xs h c r)
    (hy : Cuts cfg env ys h' c' r') : Cuts cfg env (xs ++ ys) (h || h') (c || c') (r || r') where
  handsOff := by rw [List.any_append, hx.handsOff, hy.handsOff]
  cuts := by rw [List.any_append, hx.cuts, hy.cuts]
  ofRoot := by rw [List.any_append, hx.ofRoot, hy.ofRoot]

theorem Plain.cuts {es : List Event} (h : Plain es) : Cuts cfg env es false false false := by
  refine ⟨List.any_eq_false.2 ?_, List.any_eq_false.2 ?_, List.any_eq_false.2 ?_⟩
  · intro e he
    cases e with
    | dispatch s pending t => exact absurd (h _ he).1 (by simp [Event.isDispatch])
    | _ => simp [Event.handsOff]
  · intro e he
    cases e with
    | dispatch s pending t => exact absurd (h _ he).1 (by simp [Event.isDispatch])
    | _ => simp [Event.cuts]
  · intro e he
    simp [(h e he).2]

theorem plain_singleton {e : Event} (hdispatch : e.isDispatch = false) (hroot : e.ofRoot = false) :
    Plain [e] := by
  intro e' he
  rw [List.mem_singleton.mp he]
  exact ⟨hdispatch, hroot⟩

theorem Cuts.append_plain {xs ys : List Event} {h c r : Bool} (hx : Cuts cfg env xs h c r)
    (hy : Plain ys) : Cuts cfg env (xs ++ ys) h c r := by
  simpa using hx.append hy.cuts

theorem Cuts.plain_append {xs ys : List Event} {h c r : Bool} (hy : Cuts cfg env ys h c r)
    (hx : Plain xs) : Cuts cfg env (xs ++ ys) h c r := by
  simpa using hx.cuts.append hy

theorem Announced.plain {pending' : List PendingCall} {announced : List Event}
    (h : Announced cfg s clock pending announced pending') : Plain announced := by
  intro e he
  rw [h.mem he]
  exact ⟨rfl, rfl⟩

theorem plain_posted (pending' : List PendingCall) :
    Plain (trOnInvokePost cfg s clock pending').1 := by
  intro e he
  obtain ⟨record, rfl⟩ := mem_trOnInvokePost he
  exact ⟨rfl, rfl⟩

theorem Stops.plain {f : Facts} {called : List Event} {handoff : Bool}
    (h : Stops cfg s f called handoff) : Plain called := by
  cases h with
  | budget => exact fun e he => absurd he (by simp)
  | handoff => exact fun e he => absurd he (by simp)
  | answer =>
    intro e he
    rw [List.mem_singleton.mp he]
    exact ⟨rfl, rfl⟩

theorem Passes.plain {called : List Event} (h : Passes cfg s called) : Plain called := by
  intro e he
  rw [h.mem he]
  exact ⟨rfl, rfl⟩

theorem plain_begins (s : Session) : Plain s.begins := by
  intro e he
  obtain ⟨call, _, _, rfl⟩ := mem_begins he
  exact ⟨rfl, rfl⟩

theorem handsOff_of_pass {f : Facts} (h : (trOnInsn cfg s f).stop = false) :
    handsOff cfg s f = false := by
  cases hoff : handsOff cfg s f with
  | false => rfl
  | true =>
    simp only [handsOff, Bool.and_eq_true, Bool.not_eq_true'] at hoff
    exact absurd (Stops.handoff hoff.1 hoff.2.1 hoff.2.2).stop (by simp [h])

theorem cuts_opening (pending : List PendingCall) {called : List Event}
    (hpass : Passes cfg s called) (h : (trOnInsn cfg s (env clock)).stop = false) :
    Cuts cfg env (opening s pending clock called) false false s.frame.isNone := by
  have hhead : Cuts cfg env [.dispatch s pending clock] false false false := by
    refine ⟨?_, ?_, rfl⟩
    · simp [Event.handsOff, handsOff_of_pass h]
    · cases hframe : s.frame with
      | none => simp [Event.cuts, hframe, h]
      | some call => simp [Event.cuts, hframe, handsOff_of_pass h]
  have hinsn : Cuts cfg env [.insn s.frame clock] false false s.frame.isNone := by
    refine ⟨rfl, rfl, ?_⟩
    cases s.frame with
    | none => rfl
    | some call => rfl
  have hall := hhead.append (hpass.plain.cuts.append ((plain_begins s).cuts.append hinsn))
  simpa [opening] using hall

/-! ## Frames -/

/-- A run that was handed off, aborted or completed. -/
def Out.handedOff (o : Out) : Bool := o.exit.any (fun e => e.aborted && e.handoff)

def Out.aborted (o : Out) : Bool := o.exit.any Exit.aborted

def Out.completed (o : Out) : Bool := o.exit.any (fun e => !e.aborted)

/-- The events of a frame tell how it ends: it is handed off exactly if a hand-off stands among
    them, and the hooked method is stopped in the middle exactly if a cut does. -/
structure FrameCuts (cfg : Config) (env : Nat → Facts) (s : Session) (o : Out) : Prop where
  handoff : o.events.any (Event.handsOff cfg env) = o.handedOff
  nested : s.frame ≠ none → Cuts cfg env o.events o.handedOff o.handedOff false
  root : s.frame = none → o.events.any (Event.cuts cfg env)
    = (o.aborted && (s.started || o.events.any Event.ofRoot))
  ran : s.frame = none → o.completed = true → o.events.any Event.ofRoot = true

theorem isNone_of_nested (h : s.frame ≠ none) : s.frame.isNone = false := by
  cases hframe : s.frame with
  | none => exact absurd hframe h
  | some call => rfl

/-- A frame that is over or cut short behind an instruction that was let through. -/
theorem FrameCuts.of_opening {called events : List Event} {clock' : Nat}
    {pending' : List PendingCall} {exit : Option Exit} {handsOff : Bool}
    (hpass : Passes cfg s called) (hstop : (trOnInsn cfg s (env clock)).stop = false)
    (hevents : Cuts cfg env events handsOff handsOff false)
    (hexit : exit.any (fun e => e.aborted && e.handoff) = handsOff)
    (habort : exit.any Exit.aborted = handsOff) :
    FrameCuts cfg env s ⟨opening s pending clock called ++ events, clock', pending', exit⟩ := by
  have hall := (cuts_opening pending hpass hstop).append hevents
  simp only [Bool.false_or, Bool.or_false] at hall
  refine ⟨hall.handsOff.trans hexit.symm, fun hframe => ?_, fun hframe => ?_, fun hframe _ => ?_⟩
  · rw [isNone_of_nested hframe] at hall
    rw [Out.handedOff, hexit]
    exact hall
  · rw [hall.cuts, hall.ofRoot, Out.aborted, habort, hframe]
    simp
  · rw [hall.ofRoot, hframe]
    rfl

/-- An invoke hands off exactly if it ends in a bail, and interprets nothing of the hooked
    method. -/
theorem Called.cuts
    (hrun : ∀ s clock pending, s.live → FrameCuts cfg env s (run s clock pending)) {f : Facts}
    {c : CallOut} (h : Called cfg run s f clock pending c) :
    (c.cont = .bail → Cuts cfg env c.events true true false) ∧
      (c.cont ≠ .bail → Cuts cfg env c.events false false false) := by
  have hnested : ∀ o, o = run (makeSession (some clock) (s.depth + 1)) (clock + 1) pending →
      Cuts cfg env o.events o.handedOff o.handedOff false := by
    rintro o rfl
    exact (hrun _ _ _ ⟨rfl, rfl⟩).nested (by simp [makeSession])
  have hfinished : ∀ e : Exit, ∀ o : Out,
      Plain [.finished (some clock) e.aborted pending o.pending] :=
    fun _ _ => plain_singleton rfl rfl
  cases h with
  | mocked => exact ⟨fun hc => absurd hc (by simp), fun _ => ⟨rfl, rfl, rfl⟩⟩
  | jni => exact ⟨fun hc => absurd hc (by simp), fun _ => ⟨rfl, rfl, rfl⟩⟩
  | native => exact ⟨fun hc => absurd hc (by simp), fun _ => ⟨rfl, rfl, rfl⟩⟩
  | nativeFailed => exact ⟨fun hc => absurd hc (by simp), fun _ => ⟨rfl, rfl, rfl⟩⟩
  | running o ho hexit =>
    have hoff : o.handedOff = false := by simp [Out.handedOff, hexit]
    exact ⟨fun hc => absurd hc (by simp), fun _ => hoff ▸ hnested o ho⟩
  | handled o e ho hexit haborted hexc =>
    have hoff : o.handedOff = false := by simp [Out.handedOff, hexit, haborted]
    refine ⟨fun hc => absurd hc (by simp), fun _ => ?_⟩
    exact (hoff ▸ hnested o ho).append_plain (hfinished e o)
  | handoff o e ho hexit haborted hhandoff =>
    have hoff : o.handedOff = true := by simp [Out.handedOff, hexit, haborted, hhandoff]
    refine ⟨fun _ => ?_, fun hc => absurd rfl hc⟩
    exact (hoff ▸ hnested o ho).append_plain (hfinished e o)
  | declined o e ho hexit hno _ =>
    -- the callee runs natively after all, which the hooked method does not notice
    have hoff : o.handedOff = false := by
      rcases hno with h | h
      · simp [Out.handedOff, hexit, h]
      · simp [Out.handedOff, hexit, h]
    refine ⟨fun hc => absurd hc (by simp), fun _ => ?_⟩
    exact ((hoff ▸ hnested o ho).append_plain (hfinished e o)).append_plain
      (plain_singleton rfl rfl)

theorem Executed.cuts
    (hrun : ∀ s clock pending, s.live → FrameCuts cfg env s (run s clock pending)) {f : Facts}
    {events : List Event} {clock' : Nat} {pending' : List PendingCall}
    (h : Executed cfg run s f clock pending events clock' pending') :
    Cuts cfg env events false false false := by
  cases h with
  | plain => exact (plain_singleton rfl rfl).cuts
  | @invoke announced pending'' c _ hann hcalled hdone =>
    have hcall := (hcalled.cuts hrun).2 (by simp [hdone])
    have hend : Plain [.invoked clock, .insnEnd s.frame clock] :=
      (plain_singleton rfl rfl).append (plain_singleton rfl rfl)
    exact (hcall.append_plain ((plain_posted c.pending).append hend)).plain_append hann.plain

theorem Dispatched.cuts
    (hrun : ∀ s clock pending, s.live → FrameCuts cfg env s (run s clock pending))
    (hlive : s.live) (hstop : (trOnInsn cfg s (env clock)).stop = false) {o : Out}
    (h : Dispatched cfg env run s clock pending o) : FrameCuts cfg env s o := by
  cases h with
  | stopped hstops => exact absurd hstops.stop (by simp [hstop])
  | running hpass _ hann hcalled hcont =>
    have hcall := ((hcalled.cuts hrun).2 (by simp [hcont])).plain_append hann.plain
    exact .of_opening hpass hstop hcall rfl rfl
  | bailed hpass _ hann hcalled hcont =>
    have hcall := ((hcalled.cuts hrun).1 hcont).plain_append hann.plain
    exact .of_opening hpass hstop hcall rfl rfl
  | left hpass hexec _ =>
    refine .of_opening hpass hstop (hexec.cuts hrun) ?_ ?_
    · simp [Session.exit, hlive.1]
    · simp [Session.exit, hlive.1]
  | @next called events clock' pending' o hpass hexec _ ho =>
    -- the rest of the frame has begun, so every stop in it is a cut
    have hrest := hrun s.next clock' pending' hlive
    rw [← ho] at hrest
    have hall : Cuts cfg env (opening s pending clock called ++ (events ++ o.events)) o.handedOff
        (o.events.any (Event.cuts cfg env)) (s.frame.isNone || o.events.any Event.ofRoot) := by
      have happend := (cuts_opening pending hpass hstop).append
        ((hexec.cuts hrun).append ⟨hrest.handoff, rfl, rfl⟩)
      simpa using happend
    refine ⟨hall.handsOff, fun hframe => ?_, fun hframe => ?_, fun hframe _ => ?_⟩
    · have hnested := hrest.nested hframe
      rw [isNone_of_nested hframe, hnested.cuts, hnested.ofRoot] at hall
      exact hall
    · rw [hall.cuts, hall.ofRoot, hrest.root hframe, hframe]
      simp [Session.next, Out.aborted]
    · rw [hall.ofRoot, hframe]
      rfl

theorem Stops.cuts (hlive : s.live) {called : List Event} {handoff exc : Bool} {clock' : Nat}
    {pending' : List PendingCall} (h : Stops cfg s (env clock) called handoff) :
    FrameCuts cfg env s
      ⟨.dispatch s pending clock :: called, clock', pending', some ⟨true, handoff, exc⟩⟩ := by
  have hoff : handsOff cfg s (env clock) = handoff := by
    cases h with
    | budget hbudget => simp [handsOff, hbudget, hlive.2]
    | handoff hbudget hoption hrisky => simp [handsOff, hbudget, hoption, hrisky]
    | answer hbudget hasks _ =>
      simp only [asksOnInsn, Bool.and_eq_true, Bool.not_eq_true'] at hasks
      simp [handsOff, hasks.1.2, hlive.2]
  have hcalled : Cuts cfg env called false false false := h.plain.cuts
  refine ⟨?_, fun hframe => ?_, fun hframe => ?_, fun _ hc => absurd hc (by simp [Out.completed])⟩
  · simp [Event.handsOff, hoff, hcalled.handsOff, Out.handedOff]
  · -- a callee that is stopped cuts the hooked method off only if it hands off
    obtain ⟨call, hcall⟩ := Option.ne_none_iff_exists'.1 hframe
    refine ⟨?_, ?_, ?_⟩
    · simp [Event.handsOff, hoff, hcalled.handsOff, Out.handedOff]
    · simp [Event.cuts, hcall, hoff, hcalled.cuts, Out.handedOff]
    · simp [Event.ofRoot, hcalled.ofRoot]
  · simp [Event.cuts, Event.ofRoot, hframe, h.stop, hcalled.cuts, hcalled.ofRoot, Out.aborted]

theorem runFrame_cuts (cfg : Config) (env : Nat → Facts) (fuel : Nat) (s : Session) (clock : Nat)
    (pending : List PendingCall) (hlive : s.live) :
    FrameCuts cfg env s (runFrame cfg env fuel s clock pending) := by
  refine runFrame_rule_stop (fun s _ _ o => s.live → FrameCuts cfg env s o) ?_ ?_ ?_ fuel s clock
    pending hlive
  · intro s clock pending _
    exact ⟨rfl, fun _ => ⟨rfl, rfl, rfl⟩, fun _ => rfl,
      fun _ hc => absurd hc (by simp [Out.completed])⟩
  · exact fun s clock pending called handoff hstops hlive => hstops.cuts hlive
  · exact fun run hrun s clock pending o hstop h hlive => h.cuts hrun hlive hstop

theorem runUntraced_cuts (cfg : Config) (env : Nat → Facts) (fuel : Nat) {s : Session}
    (hframe : s.frame = none) :
    ∀ clock pending,
      (runUntraced env fuel s clock pending).events.any (Event.cuts cfg env) = false ∧
        (runUntraced env fuel s clock pending).aborted = false ∧
        ((runUntraced env fuel s clock pending).completed = true →
          (runUntraced env fuel s clock pending).events.any Event.ofRoot = true) := by
  induction fuel with
  | zero =>
    intro clock pending
    exact ⟨rfl, rfl, fun hc => absurd hc (by simp [runUntraced, Out.completed])⟩
  | succ fuel ih =>
    intro clock pending
    cases hleaves : (env clock).leaves with
    | some exc =>
      simp only [runUntraced, hleaves]
      refine ⟨rfl, rfl, fun _ => ?_⟩
      rw [hframe]
      rfl
    | none =>
      simp only [runUntraced, hleaves]
      obtain ⟨hcuts, haborted, _⟩ := ih (clock + 1)
        (if (env clock).traced then (env clock).reenter pending else pending)
      refine ⟨?_, haborted, fun _ => ?_⟩
      · rw [List.any_append, hcuts]
        rfl
      · rw [List.any_append, hframe]
        rfl

/-! ## The run of the hooked method -/

/-- How the run of the hooked method ends: if not well, a cut stands among its events exactly if it
    has begun; if well, it has begun and nothing is cut. -/
structure RootCuts (cfg : Config) (env : Nat → Facts) (r : RunOut) : Prop where
  running : r.result = none → r.events.any (Event.cuts cfg env) = false
  failed : ∀ res, r.result = some res → res.status ≠ .ok →
    r.events.any (Event.cuts cfg env) = r.events.any Event.ofRoot
  ok : ∀ res, r.result = some res → res.status = .ok →
    r.events.any (Event.cuts cfg env) = false ∧ r.events.any Event.ofRoot = true

theorem RootCuts.of_refused {status : Status} {exc : Bool} (h : status ≠ .ok) :
    RootCuts cfg env
      ⟨[], clock, pending, some { status := status, exceptionPending := exc }⟩ where
  running hnone := absurd hnone (by simp)
  failed _ _ _ := rfl
  ok res hres hok := by
    rw [← Option.some.inj hres] at hok
    exact absurd hok h

theorem runMethodInternal_cuts (entry : Entry) {o : Out}
    (ho : o = run (makeSession none 0) 0 pending)
    (hcuts : o.events.any (Event.cuts cfg env) = (o.aborted && o.events.any Event.ofRoot))
    (hran : o.completed = true → o.events.any Event.ofRoot = true) :
    RootCuts cfg env (runMethodInternal run none 0 entry 0 pending) := by
  unfold runMethodInternal
  -- a method that is refused has not begun, and nothing cuts it off
  split
  · exact .of_refused (by simp)
  split
  · exact .of_refused (by simp)
  split
  · exact .of_refused (by simp)
  cases hrefusal : entry.refusal with
  | some refusal => exact .of_refused refusal.status_ne_ok
  | none =>
    rw [← ho]
    cases hexit : o.exit with
    | none =>
      simp only [hexit]
      refine ⟨fun _ => ?_, fun _ hres => absurd hres (by simp),
        fun _ hres => absurd hres (by simp)⟩
      simp [hcuts, Out.aborted, hexit]
    | some e =>
      simp only [hexit]
      have hend : Cuts cfg env (o.events ++ [.finished none e.aborted pending o.pending])
          (o.events.any (Event.handsOff cfg env)) (e.aborted && o.events.any Event.ofRoot)
          (o.events.any Event.ofRoot) := by
        refine Cuts.append_plain ⟨rfl, ?_, rfl⟩ (plain_singleton rfl rfl)
        simp [hcuts, Out.aborted, hexit]
      have hstatus : ∀ res, (some ⟨if e.aborted = true then .aborted else .ok, e.exc, e.handoff⟩ :
          Option RunResult) = some res → (res.status = .ok ↔ e.aborted = false) := by
        intro res hres
        rw [← Option.some.inj hres]
        cases e.aborted with
        | true => simp
        | false => simp
      refine ⟨fun hnone => absurd hnone (by simp), fun res hres hfail => ?_, fun res hres hok => ?_⟩
      · have haborted : e.aborted = true := by simpa [hstatus res hres] using hfail
        rw [hend.cuts, hend.ofRoot, haborted, Bool.true_and]
      · have haborted := (hstatus res hres).1 hok
        refine ⟨by rw [hend.cuts, haborted, Bool.false_and], ?_⟩
        rw [hend.ofRoot]
        exact hran (by simp [Out.completed, hexit, haborted])

theorem rootRun_cuts (cfg : Config) (env : Nat → Facts) (fuel : Nat) (entry : Entry)
    (pending : List PendingCall) : RootCuts cfg env (rootRun cfg env fuel entry pending) := by
  unfold rootRun
  split
  · next hactive =>
    have h := runFrame_cuts cfg env fuel (makeSession none 0) 0 pending ⟨rfl, rfl⟩
    rw [session, if_pos hactive]
    refine runMethodInternal_cuts entry rfl ?_ (h.ran rfl)
    simpa [makeSession] using h.root rfl
  · obtain ⟨hcuts, haborted, hran⟩ := @runUntraced_cuts cfg env fuel (makeSession none 0) rfl 0 pending
    refine runMethodInternal_cuts entry rfl ?_ hran
    rw [hcuts, haborted, Bool.false_and]

end

/-! ## The dispatcher -/

/-- A run that ended well leaves nothing to the dispatcher, any other one leaves the original. -/
structure Leaves (propagate : CallFrame → RunResult → CallFrame) : Prop where
  ok : ∀ r, r.status = .ok → (propagate {} r).fallback.originals = 0
  failed : ∀ r, r.status ≠ .ok → (propagate {} r).fallback.originals = 1

theorem propagate_leaves : Leaves CallFrame.propagate where
  ok r hok := by
    unfold CallFrame.propagate
    rw [if_neg (by simp [hok])]
    split
    · rfl
    · rfl
  failed r hfail := by
    unfold CallFrame.propagate
    rw [if_pos hfail]
    rfl

theorem propagateTrace_leaves : Leaves CallFrame.propagateTrace where
  ok r hok := by
    unfold CallFrame.propagateTrace
    rw [if_neg (by simp [hok])]
    exact propagate_leaves.ok r hok
  failed r hfail := by
    unfold CallFrame.propagateTrace
    split
    · rfl
    · exact propagate_leaves.failed r hfail

theorem invokeWith_beginsOnce_iff {propagate : CallFrame → RunResult → CallFrame}
    (hleaves : Leaves propagate) (cfg : Config) (env : Nat → Facts) (fuel : Nat) (c : HookedCall)
    (pending : List PendingCall) {d : Dispatch}
    (hd : d = invokeWith propagate cfg env fuel c pending {}) :
    Dispatch.BeginsOnce { d with frame := d.frame.map CallFrame.fallback } ↔
      ∀ e ∈ d.events, e.cuts cfg env = false := by
  have hany : (∀ e ∈ d.events, e.cuts cfg env = false) ↔
      d.events.any (Event.cuts cfg env) = false := by
    rw [List.any_eq_false]
    simp
  rw [hany, hd]
  unfold invokeWith
  split
  · refine ⟨fun _ => rfl, fun _ frame hframe => ?_⟩
    rw [← Option.some.inj hframe]
    rfl
  · have hcuts := rootRun_cuts cfg env fuel c.entry pending
    generalize rootRun cfg env fuel c.entry pending = r at hcuts
    unfold Dispatch.BeginsOnce Dispatch.begins
    cases hres : r.result with
    | none =>
      exact ⟨fun _ => hcuts.running hres, fun _ frame hframe => absurd hframe (by simp [hres])⟩
    | some res =>
      simp only [hres, Option.map_some, Option.some.injEq, forall_eq']
      by_cases hok : res.status = .ok
      · obtain ⟨hcut, hran⟩ := hcuts.ok res hres hok
        simp [hcut, hran, hleaves.ok res hok]
      · rw [hcuts.failed res hres hok, hleaves.failed res hok]
        cases r.events.any Event.ofRoot with
        | true => simp
        | false => simp

/-- The body of a hooked method that is interpreted or traced begins exactly once if and only if
    nothing cuts it off behind its first instruction. -/
theorem dispatcher_beginsOnce_iff (way : Way) (env : Nat → Facts) (fuel : Nat) (c : HookedCall)
    (pending : List PendingCall) :
    (methodHookDispatcher way env fuel c pending).BeginsOnce ↔
      ∀ e ∈ (methodHookDispatcher way env fuel c pending).events,
        e.cuts way.config env = false := by
  cases way with
  | interpreter cfg => exact invokeWith_beginsOnce_iff propagate_leaves cfg env fuel c pending rfl
  | trace preset appScopePkg =>
    exact invokeWith_beginsOnce_iff propagateTrace_leaves (traceConfig preset appScopePkg) env fuel
      c pending rfl

/-- The hooked method is stopped behind its first instruction by the budget, by `onInsn` or for a
    hand-off. -/
theorem stopped_method_begins_twice :
    ¬ (methodHookDispatcher
        (.interpreter { cbs := { onInvoke := true }, opts := { maxInstructions := 1 } })
        (script [nop]) 3 {} []).BeginsOnce ∧
      ¬ (methodHookDispatcher (.interpreter { cbs := { onInsn := true } })
        (script [nop, { nop with onInsn := false }]) 3 {} []).BeginsOnce ∧
      ¬ (methodHookDispatcher
        (.interpreter { cbs := { onInvoke := true }, opts := { safeHandoff := true } })
        (script [nop, { op := 0x22 }]) 3 {} []).BeginsOnce := by
  refine ⟨fun h => ?_, fun h => ?_, fun h => ?_⟩
  all_goals exact absurd (h { originalInvoked := true, originals := 1 } rfl) (by decide)

end ArtPi.Interp
