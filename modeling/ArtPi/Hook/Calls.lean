import ArtPi.Lib.Runs

set_option autoImplicit false

/-! # Calls of a hooked method (`engine/pine/pine_native.cpp`, `MethodHookDispatcher`)

A call that enters the bridge goes through `MethodHookDispatcher` step by step while other threads
hook and unhook the method. The dispatcher checks whether the thread is already inside a hook of the
method, copies the registry entry, runs the callback and calls the original unless the callback has
called it or has set a result.

An unhook between the entry of the bridge and the look into the registry makes the dispatcher return
without the original. `run_originalOnce` says that nothing else loses or repeats it. -/

namespace ArtPi.Hook

open ArtPi.Lib

/-- Where an entry point or the `origin` of a bridge leads: to the compiled code of the method, to
    its backup, or to a bridge trampoline with its own origin. -/
inductive Addr where
  | compiled
  | backup
  | bridge (origin : Addr)
  deriving DecidableEq

/-- How often the body runs when a thread goes there that has the method in `tl_active_hooks`. A
    bridge takes the recursion branch and calls its origin; patched code leads to the bridge of the
    backup, and from there to the same body. -/
def Addr.executions : Addr → Nat
  | .compiled => 1
  | .backup => 1
  | .bridge origin => origin.executions

/-- What a callback does with its `CallFrame`. -/
inductive Action where
  | callOriginal
  | setResult
  | resetResult
  deriving DecidableEq

/-- What the dispatcher uses of a `MethodHookEntry`: its callback, and whether it has the class and
    the method id to call the original through JNI. -/
structure MethodHookEntry where
  onEnter : List Action
  jni : Bool
  deriving DecidableEq

/-- Where a call is: in the bridge, behind the recursion check, in the callback with its actions
    ahead (none: the callback has returned), inside `invokeOriginalInternal` with the entry point it
    has saved (read, then replaced, then called), or back in the caller. -/
inductive Phase where
  | entered
  | looking
  | acting (ahead : List Action)
  | saved (curEntry : Addr) (ahead : List Action)
  | opened (curEntry : Addr) (ahead : List Action)
  | called (curEntry : Addr) (ahead : List Action)
  | done
  deriving DecidableEq

/-- A call in the dispatcher with its frame; `runs` counts the executions of the body for it. -/
structure Call where
  thread : Nat
  origin : Addr
  phase : Phase := .entered
  jni : Bool := false
  hasCustomResult : Bool := false
  originalInvoked : Bool := false
  runs : Nat := 0
  deriving DecidableEq

/-- The shared state: entry point, inline patch, registry entry, the threads with the method in
    `tl_active_hooks`, and the calls so far. -/
structure Process where
  entryPoint : Addr
  patched : Bool
  registry : Option MethodHookEntry
  activeHooks : List Nat := []
  calls : List Call := []
  deriving DecidableEq

/-! ## The steps of a call -/

namespace Call

/-- `invokeOriginalInternal` up to its first step that others can see. -/
def invokeOriginal (p : Process) (ahead : List Action) (c : Call) : Call :=
  if c.originalInvoked then { c with phase := .acting ahead }
  else if c.jni then { c with phase := .saved p.entryPoint ahead }
  else { c with
    phase := .acting ahead
    originalInvoked := true
    runs := c.runs + c.origin.executions }

/-- The next step of the call; `env` says whether `GetCurrentJNIEnv` finds one. -/
def next (p : Process) (env : Bool) (c : Call) : Call :=
  match c.phase with
  | .entered =>
    if c.thread ∈ p.activeHooks then
      { c with phase := .done, runs := c.runs + c.origin.executions }
    else { c with phase := .looking }
  | .looking =>
    match p.registry with
    | none => { c with phase := .done }
    | some entry =>
      if env then { c with phase := .acting entry.onEnter, jni := entry.jni }
      else { c with phase := .done }
  | .acting (.callOriginal :: ahead) => c.invokeOriginal p ahead
  | .acting (.setResult :: ahead) => { c with phase := .acting ahead, hasCustomResult := true }
  | .acting (.resetResult :: ahead) => { c with phase := .acting ahead, hasCustomResult := false }
  | .acting [] =>
    if c.hasCustomResult || c.originalInvoked then { c with phase := .done }
    else c.invokeOriginal p []
  | .saved curEntry ahead => { c with phase := .opened curEntry ahead }
  | .opened curEntry ahead =>
    { c with phase := .called curEntry ahead, runs := c.runs + p.entryPoint.executions }
  | .called _ ahead => { c with phase := .acting ahead, originalInvoked := true }
  | .done => c

end Call

namespace Process

/-- The entry point behind the next step of a call. -/
def entryPointAfter (p : Process) (c : Call) : Addr :=
  match c.phase with
  | .saved _ _ => c.origin
  | .called curEntry _ => curEntry
  | _ => p.entryPoint

/-- `tl_active_hooks` behind the next step of a call, which is `c'` then. -/
def activeHooksAfter (p : Process) (c c' : Call) : List Nat :=
  match c.phase, c'.phase with
  | .looking, .acting _ => c.thread :: p.activeHooks
  | .acting _, .done => p.activeHooks.erase c.thread
  | _, _ => p.activeHooks

def move (p : Process) (i : Nat) (env : Bool) : Process :=
  match p.calls[i]? with
  | some c =>
    let c' := c.next p env
    { p with
      entryPoint := p.entryPointAfter c
      activeHooks := p.activeHooksAfter c c'
      calls := p.calls.set i c' }
  | none => p

/-- A thread calls the method: the call is hooked if the entry point leads to a bridge. -/
def enter (p : Process) (thread : Nat) : Process :=
  match p.entryPoint with
  | .bridge origin => { p with calls := p.calls ++ [{ thread := thread, origin := origin }] }
  | .compiled =>
    if p.patched then { p with calls := p.calls ++ [{ thread := thread, origin := .backup }] }
    else p
  | .backup => p

end Process

/-- The steps of the calls, and the steps of `hook` and `unhook` that others can see. A replacement
    has read the entry point some time before it writes it, and so has the handle that writes it
    back. -/
inductive CallOp where
  | enter (thread : Nat)
  | move (i : Nat) (env : Bool)
  | register (entry : MethodHookEntry)
  | installInline
  | installReplacement (originCodeEntry : Addr)
  | restoreBytes
  | restoreEntryPoint (origEntryPoint : Addr)
  | unregister

def callStep (p : Process) : CallOp → Process
  | .enter thread => p.enter thread
  | .move i env => p.move i env
  | .register entry => { p with registry := some entry }
  | .installInline => { p with patched := true }
  | .installReplacement originCodeEntry => { p with entryPoint := .bridge originCodeEntry }
  | .restoreBytes => { p with patched := false }
  | .restoreEntryPoint origEntryPoint => { p with entryPoint := origEntryPoint }
  | .unregister => { p with registry := none }

/-! ## The property and its condition -/

/-- The body ran exactly once for a finished call, or at most once if there is a custom result. -/
def OriginalOnce (c : Call) : Prop :=
  c.runs ≤ 1 ∧ (c.phase = .done → c.hasCustomResult = false → c.runs = 1)

/-- A call that looks into the registry finds the entry of the method, and its thread has a
    `JNIEnv`. -/
def CallOp.FindsEntry (p : Process) : CallOp → Prop
  | .move i env => ∀ c ∈ p.calls[i]?, c.phase = .looking → p.registry.isSome ∧ env = true
  | _ => True

instance CallOp.decidableFindsEntry (p : Process) : ∀ op : CallOp, Decidable (op.FindsEntry p)
  | .move i env => inferInstanceAs (Decidable
      (∀ c ∈ p.calls[i]?, c.phase = .looking → p.registry.isSome ∧ env = true))
  | .enter .. | .register .. | .installInline | .installReplacement .. | .restoreBytes
  | .restoreEntryPoint .. | .unregister => inferInstanceAs (Decidable True)

/-! ## One step -/

/-- Wherever a thread inside a hook goes, it gets to the body once. -/
theorem Addr.executions_eq_one (a : Addr) : a.executions = 1 := by
  induction a with
  | compiled => rfl
  | backup => rfl
  | bridge origin ih => exact ih

namespace Call

/-- What the frame of a call says about the executions so far. -/
def Counted (c : Call) : Prop :=
  match c.phase with
  | .entered | .looking => c.runs = 0 ∧ c.originalInvoked = false
  | .acting _ => c.runs = if c.originalInvoked then 1 else 0
  | .saved _ _ | .opened _ _ => c.runs = 0 ∧ c.originalInvoked = false
  | .called _ _ => c.runs = 1 ∧ c.originalInvoked = false
  | .done => c.runs ≤ 1 ∧ (c.hasCustomResult = false → c.runs = 1)

theorem Counted.originalOnce {c : Call} (h : c.Counted) : OriginalOnce c := by
  unfold Counted at h
  unfold OriginalOnce
  cases hphase : c.phase with
  | done =>
    rw [hphase] at h
    exact ⟨h.1, fun _ => h.2⟩
  | acting ahead =>
    rw [hphase] at h
    simp only at h
    refine ⟨?_, fun hdone => absurd hdone (by simp)⟩
    rw [h]
    split <;> omega
  | entered | looking | saved _ _ | opened _ _ | called _ _ =>
    rw [hphase] at h
    exact ⟨by omega, fun hdone => absurd hdone (by simp)⟩

theorem counted_invokeOriginal (p : Process) (ahead : List Action) {c : Call}
    (h : c.runs = if c.originalInvoked then 1 else 0) : (c.invokeOriginal p ahead).Counted := by
  unfold invokeOriginal
  cases hinvoked : c.originalInvoked with
  | true =>
    rw [hinvoked] at h
    simp [Counted, h]
  | false =>
    rw [hinvoked] at h
    cases hjni : c.jni with
    | true =>
      -- the JNI path runs the body only after two more steps
      simpa [Counted, hinvoked] using h
    | false => simpa [Counted, Addr.executions_eq_one] using h

theorem Counted.next (p : Process) (env : Bool) {c : Call} (h : c.Counted)
    (hfinds : c.phase = .looking → p.registry.isSome ∧ env = true) : (c.next p env).Counted := by
  unfold Counted at h
  unfold Call.next
  cases hphase : c.phase with
  | entered =>
    rw [hphase] at h
    simp only
    split
    · simp [Counted, h.1, Addr.executions_eq_one]
    · exact h
  | looking =>
    rw [hphase] at h
    obtain ⟨hsome, rfl⟩ := hfinds hphase
    obtain ⟨entry, hentry⟩ := Option.isSome_iff_exists.1 hsome
    simp only [hentry, if_true]
    simp [Counted, h.1, h.2]
  | acting ahead =>
    rw [hphase] at h
    simp only at h
    cases ahead with
    | nil =>
      simp only
      split
      · -- the callback is over, and it has set a result or made the call itself
        rename_i hresult
        simp only [Counted, h]
        cases hinvoked : c.originalInvoked with
        | true => simp
        | false =>
          rw [hinvoked, Bool.or_false] at hresult
          simp [hresult]
      · exact counted_invokeOriginal p [] h
    | cons a ahead =>
      cases a with
      | callOriginal => exact counted_invokeOriginal p ahead h
      | setResult | resetResult => exact h
  | saved curEntry ahead =>
    rw [hphase] at h
    exact h
  | opened curEntry ahead =>
    rw [hphase] at h
    simp [Counted, h.1, h.2, Addr.executions_eq_one]
  | called curEntry ahead =>
    rw [hphase] at h
    simp [Counted, h.1]
  | done =>
    simp only
    unfold Counted
    rw [hphase] at h ⊢
    exact h

/-- How many steps the call is at most away from its end. -/
def stepsLeft (c : Call) : Nat :=
  match c.phase with
  | .entered | .looking | .done => 0
  | .acting ahead => 4 * ahead.length + if c.originalInvoked then 1 else 5
  | .saved _ ahead => 4 * ahead.length + 4
  | .opened _ ahead => 4 * ahead.length + 3
  | .called _ ahead => 4 * ahead.length + 2

/-- The call is past its look into the registry. -/
def PastLookup (c : Call) : Prop := c.phase ≠ .entered ∧ c.phase ≠ .looking

theorem invokeOriginal_closer (p : Process) (ahead : List Action) (c : Call) :
    (c.invokeOriginal p ahead).PastLookup ∧
      (c.invokeOriginal p ahead).stepsLeft ≤ 4 * ahead.length + 4 := by
  unfold invokeOriginal
  cases c.originalInvoked with
  | true => simp [PastLookup, stepsLeft]
  | false =>
    cases c.jni with
    | true => simp [PastLookup, stepsLeft]
    | false => simp [PastLookup, stepsLeft]

theorem next_closer (p : Process) (env : Bool) {c : Call} (hpast : c.PastLookup)
    (hphase : c.phase ≠ .done) :
    (c.next p env).PastLookup ∧ (c.next p env).stepsLeft < c.stepsLeft := by
  obtain ⟨hentered, hlooking⟩ := hpast
  unfold next
  cases hc : c.phase with
  | entered => exact absurd hc hentered
  | looking => exact absurd hc hlooking
  | done => exact absurd hc hphase
  | acting ahead =>
    cases ahead with
    | nil =>
      simp only
      split
      · refine ⟨by simp [PastLookup], ?_⟩
        simp only [stepsLeft, hc]
        split <;> omega
      · -- the dispatcher makes the call that the callback did not make
        rename_i hneither
        obtain ⟨hpast, hleft⟩ := c.invokeOriginal_closer p []
        refine ⟨hpast, Nat.lt_of_le_of_lt hleft ?_⟩
        have hinvoked : c.originalInvoked = false := by
          cases hinvoked : c.originalInvoked with
          | false => rfl
          | true => exact absurd hneither (by simp [hinvoked])
        simp [stepsLeft, hc, hinvoked]
    | cons a ahead =>
      cases a with
      | callOriginal =>
        obtain ⟨hpast, hleft⟩ := c.invokeOriginal_closer p ahead
        refine ⟨hpast, Nat.lt_of_le_of_lt hleft ?_⟩
        simp only [stepsLeft, hc, List.length_cons]
        split <;> omega
      | setResult | resetResult => simp [PastLookup, stepsLeft, hc]
  | saved curEntry ahead | opened curEntry ahead | called curEntry ahead =>
    simp [PastLookup, stepsLeft, hc]

end Call

/-! ## Runs -/

theorem move_calls {p : Process} {i : Nat} {c : Call} (hget : p.calls[i]? = some c) (env : Bool) :
    (p.move i env).calls = p.calls.set i (c.next p env) := by
  unfold Process.move
  rw [hget]

theorem callStep_move_self {p : Process} {i : Nat} {c : Call} (hget : p.calls[i]? = some c) :
    (callStep p (.move i true)).calls[i]? = some (c.next p true) := by
  show (p.move i true).calls[i]? = _
  rw [move_calls hget true]
  exact List.getElem?_set_self (List.getElem?_eq_some_iff.1 hget).1

/-- Every step that finds its registry entry keeps the frames and the executions together. -/
theorem callStep_counted (p : Process) (op : CallOp) (h : ∀ c ∈ p.calls, c.Counted)
    (hfinds : op.FindsEntry p) : ∀ c ∈ (callStep p op).calls, c.Counted := by
  cases op with
  | register _ | installInline | installReplacement _ | restoreBytes | restoreEntryPoint _
  | unregister => exact h
  | enter thread =>
    have hnew : ∀ origin : Addr, ∀ c ∈ p.calls ++ [{ thread := thread, origin := origin }],
        c.Counted := by
      intro origin c hc
      rcases List.mem_append.1 hc with hc | hc
      · exact h c hc
      · obtain rfl := List.mem_singleton.1 hc
        exact ⟨rfl, rfl⟩
    unfold callStep Process.enter
    cases p.entryPoint with
    | bridge origin => exact hnew origin
    | backup => exact h
    | compiled =>
      simp only
      split
      · exact hnew .backup
      · exact h
  | move i env =>
    show ∀ c ∈ (p.move i env).calls, c.Counted
    cases hget : p.calls[i]? with
    | none =>
      unfold Process.move
      rw [hget]
      exact h
    | some c =>
      -- only the call that moves changes, and it finds its entry if it looks for one
      have hlooking := hfinds c (by rw [hget]; rfl)
      rw [move_calls hget env]
      intro d hd
      rcases List.mem_or_eq_of_mem_set hd with hd | rfl
      · exact h d hd
      · exact (h c (List.mem_of_getElem? hget)).next p env hlooking

/-- Behind its look into the registry a call gets to its end by steps of its own. -/
theorem exists_moves_done_of_pastLookup (i left : Nat) : ∀ {p : Process} {c : Call},
    p.calls[i]? = some c → c.PastLookup → c.stepsLeft ≤ left →
      ∃ n c', (run callStep p (List.replicate n (.move i true))).calls[i]? = some c' ∧
        c'.phase = .done := by
  induction left with
  | zero =>
    intro p c hget hpast hleft
    by_cases hdone : c.phase = .done
    · exact ⟨0, c, hget, hdone⟩
    · have := (Call.next_closer p true hpast hdone).2
      omega
  | succ left ih =>
    intro p c hget hpast hleft
    by_cases hdone : c.phase = .done
    · exact ⟨0, c, hget, hdone⟩
    · obtain ⟨hpast', hlt⟩ := Call.next_closer p true hpast hdone
      obtain ⟨n, c', hrun, hphase⟩ := ih (callStep_move_self hget) hpast' (by omega)
      exact ⟨n + 1, c', hrun, hphase⟩

theorem exists_moves_done {p : Process} {i : Nat} {c : Call} (hget : p.calls[i]? = some c) :
    ∃ n c', (run callStep p (List.replicate n (.move i true))).calls[i]? = some c' ∧
      c'.phase = .done := by
  have hlooked : ∀ {p : Process} {c : Call}, p.calls[i]? = some c → c.phase = .looking →
      ∃ n c', (run callStep p (List.replicate n (.move i true))).calls[i]? = some c' ∧
        c'.phase = .done := by
    intro p c hget hlooking
    have hpast : (c.next p true).PastLookup := by
      unfold Call.next
      rw [hlooking]
      cases p.registry <;> simp [Call.PastLookup]
    obtain ⟨n, c', hrun, hphase⟩ :=
      exists_moves_done_of_pastLookup i _ (callStep_move_self hget) hpast (Nat.le_refl _)
    exact ⟨n + 1, c', hrun, hphase⟩
  by_cases hlooking : c.phase = .looking
  · exact hlooked hget hlooking
  by_cases hentered : c.phase = .entered
  · have hget' := callStep_move_self hget
    by_cases hactive : c.thread ∈ p.activeHooks
    · refine ⟨1, _, hget', ?_⟩
      simp [Call.next, hentered, hactive]
    · obtain ⟨n, c', hrun, hphase⟩ := hlooked hget' (by simp [Call.next, hentered, hactive])
      exact ⟨n + 1, c', hrun, hphase⟩
  · exact exists_moves_done_of_pastLookup i _ hget ⟨hentered, hlooking⟩ (Nat.le_refl _)

/-- In every run in which each call finds the registry entry, every call has run the body once when
    it is done, or at most once with a custom result, and every call can be finished. -/
theorem run_originalOnce (p : Process) (hcalls : p.calls = []) (ops : List CallOp)
    (hfinds : Along callStep CallOp.FindsEntry p ops) (i : Nat) (c : Call)
    (hget : (run callStep p ops).calls[i]? = some c) :
    OriginalOnce c ∧ ∃ n c', (run callStep (run callStep p ops)
      (List.replicate n (.move i true))).calls[i]? = some c' ∧ c'.phase = .done := by
  have hcounted : ∀ c ∈ (run callStep p ops).calls, c.Counted :=
    Along.invariant callStep_counted (by simp [hcalls]) hfinds
  exact ⟨(hcounted c (List.mem_of_getElem? hget)).originalOnce, exists_moves_done hget⟩

/-- A method hooked by replacement, with a callback that does nothing. -/
def hookedMethod : Process where
  entryPoint := .bridge .compiled
  patched := false
  registry := some { onEnter := [], jni := true }

/-- A call while another thread unhooks the method behind the look into the registry. -/
def unhookBehindLookup : List CallOp :=
  [.enter 1, .move 0 true, .move 0 true, .restoreEntryPoint .compiled, .unregister, .move 0 true,
    .move 0 true, .move 0 true, .move 0 true, .move 0 true]

theorem unhookBehindLookup_originalOnce :
    Along callStep CallOp.FindsEntry hookedMethod unhookBehindLookup ∧
      ∃ c, (run callStep hookedMethod unhookBehindLookup).calls[0]? = some c ∧
        c.phase = .done ∧ OriginalOnce c := by
  have hfinds : Along callStep CallOp.FindsEntry hookedMethod unhookBehindLookup := by decide
  exact ⟨hfinds, _, rfl, by decide, (run_originalOnce _ rfl _ hfinds 0 _ rfl).1⟩

/-- The same call with the unhook in front of the look into the registry: the call returns, and the
    body has not run. -/
theorem unhook_loses_original :
    ∃ c, (run callStep hookedMethod
        [.enter 1, .move 0 true, .restoreEntryPoint .compiled, .unregister,
          .move 0 true]).calls[0]? = some c ∧
      c.phase = .done ∧ c.hasCustomResult = false ∧ c.runs = 0 ∧ ¬ OriginalOnce c := by
  refine ⟨_, rfl, by decide, by decide, by decide, ?_⟩
  intro h
  exact absurd (h.2 (by decide) (by decide)) (by decide)

end ArtPi.Hook
