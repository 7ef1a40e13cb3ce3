import ArtPi.Agent.CtorRelay
import ArtPi.Lib.Runs

set_option autoImplicit false

/-! # Constructor relays of several threads

All threads share the stack of the relay and the breakpoints. A run is any list of hits; each takes
the shared relay on, and a relay that has only the hits of its own thread. The threads are
independent if each of them finds of its sessions in the shared relay what it finds in its own one,
and reports the same.

The code acts on the back of the stack without a look at whose session it is, so that the session of
one thread is disarmed when another thread enters `call_constructors`, and it leaves a session on the
stack that it could not arm. Without these two the threads are independent, and either of them ends
it. -/

namespace ArtPi.CtorRelay

open ArtPi.Lib

/-- A session on the stack, with the address, the thread and the kind of the breakpoint that has it in
    its closure. -/
structure Entry where
  threadId : Nat
  soName : String
  ctors : List Ctor
  currentIndex : Nat
  pendingRetAddr : Nat
  hook : Option (Nat × Nat × Bool)
  deriving DecidableEq

/-- Whether a return address is next. -/
def CtorRelaySession.isRet (s : CtorRelaySession) : Bool := s.ctors[s.currentIndex]?.isNone

namespace Relay

variable (r : Relay)

def entry (ref : Nat) : Option Entry :=
  r.sessions[ref]?.map fun s =>
    { threadId := s.threadId
      soName := s.soName
      ctors := s.ctors
      currentIndex := s.currentIndex
      pendingRetAddr := s.pendingRetAddr
      hook := (r.hooks.find? (fun h => h.session = ref)).map (fun h => (h.address, h.threadId, h.ret)) }

/-- The sessions of a thread on the stack, from its back. -/
def entries (tid : Nat) : List Entry := (r.stack.filterMap r.entry).filter (fun e => e.threadId = tid)

def logOf (tid : Nat) : List (Nat × Report) := r.log.filter (fun e => e.1 = tid)

/-- Which of the sessions behind the hit of a breakpoint are next armed at a return address. -/
def behind (h : Hook) : List Bool :=
  let rest := r.stack.tail.filterMap (fun ref => r.sessions[ref]?.map CtorRelaySession.isRet)
  if h.ret then rest
  else
    match r.sessions[h.session]? with
    | none => rest
    | some s =>
      if s.currentIndex + 1 < s.ctors.length then false :: rest
      else if s.ctors[s.currentIndex]?.any Ctor.bypass then rest
      else true :: rest

end Relay

/-- No breakpoint of a constructor fails: a session that cannot be armed is at its return address, and
    the one below is armed in its place. -/
def armable : List Bool → List Bool → Bool
  | _, [] => true
  | oks, ret :: rets => oks.headD true || (ret && armable oks.tail rets)

/-- A hit on a thread. -/
inductive Op where
  | call (tid : Nat) (soName : String) (ctors : List Ctor) (oks : List Bool)
  | trap (tid pc : Nat) (lr : CodeAddr) (oks : List Bool)

namespace Op

def tid : Op → Nat
  | call tid _ _ _ => tid
  | trap tid _ _ _ => tid

def on (r : Relay) : Op → Relay
  | call tid soName ctors oks => r.callConstructors tid soName ctors oks
  | trap tid pc lr oks => (r.trap tid pc lr oks).1

end Op

/-- The relay that the threads share, and one for each thread that it has for itself. -/
structure Threads where
  shared : Relay := {}
  alone : Nat → Relay := fun _ => {}

namespace Threads

variable (w : Threads)

def step (op : Op) : Threads where
  shared := op.on w.shared
  alone := Function.update w.alone op.tid (op.on (w.alone op.tid))

/-- Each thread finds its sessions and its reports as if it were alone, and the newest of its sessions
    is armed. -/
structure Independent : Prop where
  entries : ∀ tid, w.shared.entries tid = (w.alone tid).entries tid
  log : ∀ tid, w.shared.logOf tid = (w.alone tid).logOf tid
  armed : ∀ tid, ∀ e ∈ (w.shared.entries tid).head?, e.hook.isSome

/-- A library with constructors is entered only while no session of another thread is on the stack, and
    the breakpoints of constructors can be set. -/
def Undisturbed : Op → Prop
  | .call tid _ ctors oks =>
    ctors ≠ [] → (∀ e ∈ w.shared.stack.filterMap w.shared.entry, e.threadId = tid) ∧
      oks.headD true = true
  | .trap tid pc _ oks => ∀ h ∈ w.shared.hookAt tid pc, armable oks (w.shared.behind h) = true

end Threads

/-! ## What a thread finds of its sessions -/

section

variable {r : Relay} {tid ref : Nat} {f : Frame} {fs : List Frame}

def Frame.entry (f : Frame) (tid : Nat) (hook : Option (Nat × Nat × Bool)) : Entry :=
  ⟨tid, f.soName, f.ctors, f.index, f.pending, hook⟩

/-- The frames of a thread, with the one at the back armed. -/
def entriesOf (tid : Nat) : List Frame → List Entry
  | [] => []
  | f :: fs => f.entry tid (some (f.armed, tid, f.isRet)) :: fs.map (fun f => f.entry tid none)

theorem threadId_of_mem {fs : List Frame} {e : Entry} (h : e ∈ entriesOf tid fs) :
    e.threadId = tid := by
  cases fs with
  | nil => exact absurd h List.not_mem_nil
  | cons f fs =>
    rw [entriesOf, List.mem_cons, List.mem_map] at h
    rcases h with rfl | ⟨f', -, rfl⟩
    · rfl
    · rfl

theorem Refines.stack (h : Refines r tid (f :: fs)) :
    ∃ ref rest id, r.stack = ref :: rest ∧ ref ∉ rest ∧ r.sessions[ref]? = some (f.session tid id) ∧
      r.hooks = [⟨id, f.armed, tid, ref, f.isRet⟩] ∧
      List.Forall₂ (fun x f => r.sessions[x]? = some (Frame.session f tid 0)) rest fs := by
  obtain ⟨ref, rest, id, hstack, -, hsession, hhooks, hidle⟩ := h
  have hnodup := hidle.nodup
  have hframes := hidle.frames
  simp only [hstack] at hnodup hframes
  have hnot := (List.nodup_cons.mp hnodup).1
  refine ⟨ref, rest, id, hstack, hnot, hsession, hhooks, ?_⟩
  have hsame := frames_set (List.forall₂_cons.mp hframes).2 hnot (f.session tid id)
  obtain ⟨hlt, hget⟩ := List.getElem?_eq_some_iff.mp hsession
  rwa [List.set_set, ← hget, List.set_getElem_self] at hsame

theorem entry_frames {refs : List Nat}
    (h : List.Forall₂ (fun x f => r.sessions[x]? = some (Frame.session f tid 0)) refs fs)
    (hnone : ∀ x ∈ refs, r.hooks.find? (fun h => h.session = x) = none) :
    refs.filterMap r.entry = fs.map (fun f => f.entry tid none) := by
  induction h with
  | nil => rfl
  | @cons x f _ _ hhead _ ih =>
    have hentry : r.entry x = some (f.entry tid none) := by
      rw [Relay.entry, hhead, hnone x List.mem_cons_self]
      rfl
    rw [List.filterMap_cons, hentry, List.map_cons]
    exact congrArg _ (ih (fun x hx => hnone x (List.mem_cons_of_mem _ hx)))

theorem entries_refines (h : Refines r tid fs) : r.stack.filterMap r.entry = entriesOf tid fs := by
  cases fs with
  | nil =>
    have hstack : r.stack = [] := List.forall₂_nil_right_iff.mp h.frames
    rw [hstack]
    rfl
  | cons f fs =>
    obtain ⟨ref, rest, id, hstack, hnot, hsession, hhooks, hrest⟩ := h.stack
    have hentry : r.entry ref = some (f.entry tid (some (f.armed, tid, f.isRet))) := by
      rw [Relay.entry, hsession, hhooks]
      simp [Frame.entry, Frame.session]
    rw [hstack, List.filterMap_cons, hentry, entriesOf]
    refine congrArg _ (entry_frames hrest (fun x hx => ?_))
    have hne : ref ≠ x := fun heq => hnot (heq ▸ hx)
    simp [hhooks, hne]

/-- Nothing is armed, so the newest session of the thread is not. -/
theorem entries_idle (h : Idle r tid (f :: fs)) : (r.entries tid).head? = some (f.entry tid none) := by
  have hentry : r.stack.filterMap r.entry = (f :: fs).map (fun f => f.entry tid none) :=
    entry_frames h.frames (fun x _ => by rw [h.hooks, List.find?_nil])
  rw [Relay.entries, hentry, List.map_cons, List.filter_cons_of_pos (by simp [Frame.entry])]
  rfl

/-! ## One hit -/

theorem settle_isSome (fs : List Frame) :
    ∀ oks : List Bool, (settle oks fs).isSome = armable oks (fs.map Frame.isRet) := by
  induction fs with
  | nil => exact fun _ => rfl
  | cons f fs ih =>
    intro oks
    rw [settle, List.map_cons, armable]
    cases oks.headD true with
    | true => rfl
    | false =>
      cases f.isRet with
      | true => exact ih oks.tail
      | false => rfl

theorem behind_refines (h : Refines r tid (f :: fs)) (lr : CodeAddr) {hook : Hook}
    (hat : r.hookAt tid f.armed = some hook) :
    r.behind hook = ((f.after lr).toList ++ fs).map Frame.isRet := by
  obtain ⟨ref, rest, id, hstack, -, hsession, hhooks, hrest⟩ := h.stack
  obtain rfl : ⟨id, f.armed, tid, ref, f.isRet⟩ = hook := by
    rw [Relay.hookAt, hhooks] at hat
    simpa using hat
  have hbelow : r.stack.tail.filterMap (fun ref => r.sessions[ref]?.map CtorRelaySession.isRet) =
      fs.map Frame.isRet := by
    rw [hstack, List.tail_cons, filterMap_frames CtorRelaySession.isRet hrest]
    rfl
  rw [Relay.behind, hbelow, hsession]
  cases hc : f.ctors[f.index]? with
  | none =>
    have hret : f.isRet = true := by rw [Frame.isRet, hc]; rfl
    rw [(Frame.after_of_ret lr hc).1, if_pos hret]
    rfl
  | some c =>
    have hret : ¬ f.isRet = true := by rw [Frame.isRet, hc]; simp
    have hby : (f.session tid id).ctors[(f.session tid id).currentIndex]?.any Ctor.bypass =
        c.bypass := Frame.bypassed_of hc
    simp only [if_neg hret, hby]
    by_cases hmore : f.index + 1 < f.ctors.length
    · rw [(Frame.after_of_more lr hc hmore).1]
      simp [Frame.session, Frame.isRet, hmore]
    · cases hb : c.bypass with
      | true =>
        rw [(Frame.after_of_bypass lr hc hmore hb).1]
        simp [Frame.session, hmore]
      | false =>
        rw [(Frame.after_of_last hc hmore hb (.inr (clear_ge lr.property))).1]
        simp [Frame.session, Frame.isRet, hmore]

theorem armNextCtor_first (oks : List Bool) (hnil : r.hooks = []) {s : CtorRelaySession} {c : Ctor}
    (hs : r.sessions[ref]? = some s) (hc : s.ctors[s.currentIndex]? = some c) :
    ∃ id, (armNextCtor oks ref r).stack = r.stack ∧
      (armNextCtor oks ref r).sessions = r.sessions.set ref { s with activeHookId := id } ∧
      ∀ h ∈ (armNextCtor oks ref r).hooks, h.session = ref := by
  have h0 : clear c.addr ≠ 0 := Nat.ne_of_gt (Nat.lt_of_lt_of_le (by decide) (clear_ge c.addr.property))
  rw [armNextCtor]
  simp only [hs, hc, attach_of_nil hnil h0]
  cases oks.headD true with
  | true => exact ⟨_, rfl, rfl, by simp [Relay.setSession]⟩
  | false => exact ⟨_, rfl, rfl, by simp [Relay.setSession, hnil]⟩

/-- Another thread enters a library with constructors: the session at the back is disarmed and stays. -/
theorem entries_foreign {tid' : Nat} (h : Refines r tid (f :: fs)) (hne : tid' ≠ tid) (soName : String)
    {ctors : List Ctor} (hctors : ctors ≠ []) (oks : List Bool) :
    ((r.callConstructors tid' soName ctors oks).entries tid).head? = some (f.entry tid none) := by
  obtain ⟨hidle, -⟩ := suspend_spec (h.logs tid' [.found soName ctors.length])
  rw [Relay.callConstructors, if_neg hctors]
  generalize (r.logs tid' [.found soName ctors.length]).suspend = r at hidle
  obtain ⟨ref, rest, hhead, -, hstack⟩ := List.forall₂_cons_right_iff.mp hidle.frames
  obtain ⟨hlt, -⟩ := List.getElem?_eq_some_iff.mp hhead
  obtain ⟨c, cs, rfl⟩ := List.exists_cons_of_ne_nil hctors
  have hnew : (r.push tid' soName (c :: cs)).sessions[r.sessions.length]? =
      some ⟨soName, tid', c :: cs, 0, 0, 0⟩ := List.getElem?_concat_length
  have hfirst : (c :: cs)[0]? = some c := rfl
  obtain ⟨id, hstack', hsessions, hhooks⟩ :=
    armNextCtor_first (s := ⟨soName, tid', c :: cs, 0, 0, 0⟩) oks
      (show (r.push tid' soName (c :: cs)).hooks = [] from hidle.hooks) hnew hfirst
  generalize armNextCtor oks r.sessions.length (r.push tid' soName (c :: cs)) = r' at *
  have hne' : r.sessions.length ≠ ref := Nat.ne_of_gt hlt
  -- the breakpoint is the new session's
  have hentry : r'.entry ref = some (f.entry tid none) := by
    have hnone : r'.hooks.find? (fun h => h.session = ref) = none :=
      List.find?_eq_none.mpr (fun h hmem heq => hne' ((hhooks h hmem).symm.trans (by simpa using heq)))
    have hsession : r'.sessions[ref]? = some (f.session tid 0) := by
      rw [hsessions, List.getElem?_set_ne hne']
      exact (List.getElem?_append_left hlt).trans hhead
    rw [Relay.entry, hsession, hnone]
    rfl
  -- and this one is not of the thread
  have hother : ∃ e, r'.entry r.sessions.length = some e ∧ e.threadId = tid' := by
    have hsession : r'.sessions[r.sessions.length]? = some ⟨soName, tid', c :: cs, 0, 0, id⟩ := by
      rw [hsessions, List.getElem?_set_self (by simp [Relay.push])]
    exact ⟨_, by rw [Relay.entry, hsession]; rfl, rfl⟩
  obtain ⟨e, he, htid⟩ := hother
  have hstack'' : r'.stack = r.sessions.length :: ref :: rest := by
    rw [hstack', Relay.push, hstack]
  rw [Relay.entries, hstack'', List.filterMap_cons, he, List.filterMap_cons, hentry,
    List.filter_cons_of_neg (by simpa [htid] using hne), List.filter_cons_of_pos (by simp [Frame.entry])]
  rfl

/-- What a hit reports on a thread with some frames, and the frames behind it; `none` if one stays that
    could not be armed. -/
def Op.outcome (fs : List Frame) : Op → List Report × Option (List Frame)
  | .call _ soName ctors oks =>
    ([.found soName ctors.length],
      if h : ctors = [] then some fs else settle oks (Frame.start soName ctors h :: fs))
  | .trap _ pc lr oks =>
    match fs with
    | [] => ([], some [])
    | f :: fs =>
      if f.armed = pc then (f.reports, settle oks ((f.after lr).toList ++ fs))
      else ([], some (f :: fs))

theorem Op.on_spec {op : Op} (h : Refines r op.tid fs) :
    (op.on r).log = r.log ++ (op.outcome fs).1.map (fun e => (op.tid, e)) ∧
      Settled (op.on r) op.tid (op.outcome fs).2 := by
  cases op with
  | call tid soName ctors oks =>
    by_cases hne : ctors = []
    · have heq : (Op.call tid soName ctors oks).on r = r.logs tid [.found soName ctors.length] := by
        rw [Op.on, Relay.callConstructors, if_pos hne]
      rw [heq]
      simp only [Op.outcome, dif_pos hne]
      exact ⟨rfl, h.logs tid _⟩
    · simp only [Op.outcome, dif_neg hne]
      exact call_spec h soName hne oks
  | trap tid pc lr oks =>
    -- the thread runs into nothing else than the breakpoint at the back
    have hquiet : ¬ (r.hookAt tid pc).isSome → (Op.trap tid pc lr oks).on r = r := by
      intro hnone
      rw [Op.on, trap_of_none hnone]
    cases fs with
    | nil =>
      have hsame := hquiet (fun hsome => by
        obtain ⟨-, f, fs', heq, -⟩ := (hookAt_refines h tid pc).mp hsome
        exact absurd heq (by simp))
      rw [hsame]
      exact ⟨(List.append_nil _).symm, h⟩
    | cons f fs =>
      by_cases harmed : f.armed = pc
      · subst harmed
        simp only [Op.outcome, if_true]
        exact (trap_spec h lr oks).2
      · have hsame := hquiet (fun hsome => by
          obtain ⟨-, f', fs', heq, hpc⟩ := (hookAt_refines h tid pc).mp hsome
          obtain ⟨rfl, rfl⟩ := List.cons.inj heq
          exact harmed hpc)
        rw [hsame]
        simp only [Op.outcome, if_neg harmed]
        exact ⟨(List.append_nil _).symm, h⟩

/-- A hit on another thread that enters no library with constructors. -/
theorem Op.on_foreign {op : Op} (h : Refines r tid fs) (hne : op.tid ≠ tid)
    (hquiet : ∀ soName ctors oks, op = .call op.tid soName ctors oks → ctors = []) :
    op.on r = r.logs op.tid (op.outcome []).1 ∧ (op.outcome []).2 = some [] := by
  cases op with
  | call tid' soName ctors oks =>
    have hnil := hquiet soName ctors oks rfl
    simp only [Op.on, Op.outcome, Relay.callConstructors, if_pos hnil, dif_pos hnil]
    exact ⟨rfl, trivial⟩
  | trap tid' pc lr oks =>
    have hnone : ¬ (r.hookAt tid' pc).isSome :=
      fun hsome => hne ((hookAt_refines h tid' pc).mp hsome).1
    rw [Op.on, trap_of_none hnone]
    exact ⟨(logs_nil r tid').symm, rfl⟩

theorem logOf_logs (r : Relay) (tid t : Nat) (reports : List Report) :
    (r.logs tid reports).logOf t =
      r.logOf t ++ if tid = t then reports.map (fun e => (tid, e)) else [] := by
  rw [Relay.logOf, Relay.logs, List.filter_append]
  refine congrArg _ ?_
  by_cases heq : tid = t
  · rw [if_pos heq, List.filter_eq_self.mpr (by simp [heq])]
  · rw [if_neg heq, List.filter_eq_nil_iff.mpr (by simp [heq])]

theorem logOf_of_log {r' : Relay} {reports : List Report}
    (h : r'.log = r.log ++ reports.map (fun e => (tid, e))) (t : Nat) :
    r'.logOf t = (r.logs tid reports).logOf t := by
  rw [Relay.logOf, h]
  rfl

end

/-! ## All threads -/

/-- The sessions on the stack are of one thread, which has the same ones alone. -/
structure Separate (w : Threads) (tid : Nat) (fs : List Frame) : Prop where
  shared : Refines w.shared tid fs
  alone : Refines (w.alone tid) tid fs
  others : ∀ t, t ≠ tid → Refines (w.alone t) t []
  log : ∀ t, w.shared.logOf t = (w.alone t).logOf t

theorem separate_init (tid : Nat) : Separate {} tid [] where
  shared := refines_init tid
  alone := refines_init tid
  others t _ := refines_init t
  log _ := rfl

section

variable {w : Threads} {tid : Nat} {f : Frame} {fs fs' : List Frame} {op : Op}

theorem Refines.of_nil {r : Relay} (h : Refines r tid []) (t : Nat) : Refines r t [] := by
  refine ⟨h.hooks, ?_, h.nodup, h.nextId⟩
  rw [List.forall₂_nil_right_iff.mp h.frames]
  exact .nil

theorem Separate.of_nil (h : Separate w tid []) (t : Nat) : Separate w t [] where
  shared := h.shared.of_nil t
  alone := by
    by_cases heq : t = tid
    · exact heq ▸ h.alone
    · exact h.others t heq
  others t' _ := by
    by_cases heq : t' = tid
    · exact heq ▸ h.alone
    · exact h.others t' heq
  log := h.log

theorem Separate.independent (h : Separate w tid fs) : w.Independent := by
  have hshared : ∀ t, w.shared.entries t = (entriesOf tid fs).filter (fun e => e.threadId = t) := by
    intro t
    rw [Relay.entries, entries_refines h.shared]
  have hnone : ∀ t, t ≠ tid → (entriesOf tid fs).filter (fun e => e.threadId = t) = [] := by
    intro t hne
    refine List.filter_eq_nil_iff.mpr (fun e he heq => hne ?_)
    rw [← threadId_of_mem he]
    exact (of_decide_eq_true heq).symm
  refine ⟨fun t => ?_, h.log, fun t e he => ?_⟩
  · rw [hshared]
    by_cases heq : t = tid
    · subst heq
      rw [Relay.entries, entries_refines h.alone]
    · rw [hnone t heq, Relay.entries, entries_refines (h.others t heq)]
      rfl
  · rw [hshared] at he
    by_cases heq : t = tid
    · subst heq
      rw [List.filter_eq_self.mpr (fun e he => by simpa using threadId_of_mem he)] at he
      cases fs with
      | nil => exact absurd he (by simp [entriesOf])
      | cons f fs =>
        rw [entriesOf, List.head?_cons, Option.mem_some_iff] at he
        rw [← he]
        rfl
    · rw [hnone t heq] at he
      exact absurd he (by simp)

theorem Separate.own (h : Separate w op.tid fs) (hnext : (op.outcome fs).2 = some fs') :
    Separate (w.step op) op.tid fs' := by
  obtain ⟨hlog, hshared⟩ := Op.on_spec h.shared
  obtain ⟨hlog', halone⟩ := Op.on_spec h.alone
  rw [hnext] at hshared halone
  refine ⟨hshared, ?_, fun t hne => ?_, fun t => ?_⟩
  · simpa [Threads.step] using halone
  · simpa [Threads.step, Function.update_of_ne hne] using h.others t hne
  · simp only [Threads.step]
    rw [logOf_of_log hlog, logOf_logs, h.log t]
    by_cases heq : t = op.tid
    · subst heq
      rw [Function.update_self, logOf_of_log hlog', logOf_logs]
    · rw [Function.update_of_ne heq, if_neg (Ne.symm heq), List.append_nil]

/-- A hit on another thread that enters no library with constructors. -/
theorem Separate.foreign (h : Separate w tid fs) (hne : op.tid ≠ tid)
    (hquiet : ∀ soName ctors oks, op = .call op.tid soName ctors oks → ctors = []) :
    Separate (w.step op) tid fs := by
  obtain ⟨hon, hnext⟩ := Op.on_foreign h.shared hne hquiet
  obtain ⟨hlog, halone⟩ := Op.on_spec (h.others op.tid hne)
  rw [hnext] at halone
  refine ⟨?_, ?_, fun t ht => ?_, fun t => ?_⟩
  · simp only [Threads.step, hon]
    exact h.shared.logs _ _
  · simpa [Threads.step, Function.update_of_ne (Ne.symm hne)] using h.alone
  · by_cases heq : t = op.tid
    · subst heq
      simpa [Threads.step] using halone
    · simpa [Threads.step, Function.update_of_ne heq] using h.others t ht
  · simp only [Threads.step, hon]
    rw [logOf_logs, h.log t]
    by_cases heq : t = op.tid
    · subst heq
      rw [Function.update_self, logOf_of_log hlog, logOf_logs]
    · rw [Function.update_of_ne heq, if_neg (Ne.symm heq), List.append_nil]

theorem Separate.undisturbed_own (h : Separate w op.tid fs) :
    w.Undisturbed op ↔ (op.outcome fs).2.isSome := by
  cases op with
  | call tid soName ctors oks =>
    have hmine : ∀ e ∈ w.shared.stack.filterMap w.shared.entry, e.threadId = tid := by
      rw [entries_refines h.shared]
      exact fun e he => threadId_of_mem he
    by_cases hne : ctors = []
    · simp [Threads.Undisturbed, Op.outcome, hne]
    · have hfirst : (Frame.start soName ctors hne).isRet = false := by
        obtain ⟨c, cs, rfl⟩ := List.exists_cons_of_ne_nil hne
        rfl
      simp only [Threads.Undisturbed, Op.outcome, dif_neg hne, settle_isSome, List.map_cons, armable,
        hfirst, Bool.false_and, Bool.or_false]
      exact ⟨fun hok => (hok hne).2, fun hok _ => ⟨hmine, hok⟩⟩
  | trap tid pc lr oks =>
    have hiff := hookAt_refines h.shared tid pc
    cases hat : w.shared.hookAt tid pc with
    | none =>
      simp only [Threads.Undisturbed, hat]
      rw [hat] at hiff
      cases fs with
      | nil => simp [Op.outcome]
      | cons f fs =>
        have hpc : f.armed ≠ pc := fun heq => by simpa using hiff.mpr ⟨rfl, f, fs, rfl, heq⟩
        simp [Op.outcome, hpc]
    | some hook =>
      obtain ⟨-, f, fs', rfl, rfl⟩ := hiff.mp (by rw [hat]; rfl)
      simp only [Threads.Undisturbed, hat, Op.outcome, if_true, settle_isSome,
        ← behind_refines h.shared lr hat]
      simp

theorem Separate.undisturbed_foreign (h : Separate w tid (f :: fs)) (hne : op.tid ≠ tid) :
    w.Undisturbed op ↔ ∀ soName ctors oks, op = .call op.tid soName ctors oks → ctors = [] := by
  cases op with
  | call tid' soName ctors oks =>
    constructor
    · intro hok soName ctors oks heq
      obtain ⟨-, rfl, rfl, rfl⟩ := Op.call.inj heq
      by_contra hctors
      have hmine := (hok hctors).1 _ (by rw [entries_refines h.shared]; exact List.mem_cons_self)
      exact hne hmine.symm
    · exact fun hquiet hctors => absurd (hquiet soName ctors oks rfl) hctors
  | trap tid' pc lr oks =>
    refine ⟨fun _ _ _ _ heq => absurd heq (by simp), fun _ hook hat => ?_⟩
    have hsome : (w.shared.hookAt tid' pc).isSome := by rw [Option.mem_def.mp hat]; rfl
    exact absurd ((hookAt_refines h.shared tid' pc).mp hsome).1 hne

/-- An undisturbed hit keeps the sessions of one thread on the stack. -/
theorem Separate.keep (h : Separate w tid fs) (hok : w.Undisturbed op) :
    ∃ tid' fs', Separate (w.step op) tid' fs' := by
  by_cases hown : op.tid = tid
  · subst hown
    obtain ⟨fs', hnext⟩ := Option.isSome_iff_exists.mp (h.undisturbed_own.mp hok)
    exact ⟨op.tid, fs', h.own hnext⟩
  · cases fs with
    | nil =>
      have hmine := h.of_nil op.tid
      obtain ⟨fs', hnext⟩ := Option.isSome_iff_exists.mp (hmine.undisturbed_own.mp hok)
      exact ⟨op.tid, fs', hmine.own hnext⟩
    | cons f fs => exact ⟨tid, f :: fs, h.foreign hown ((h.undisturbed_foreign hown).mp hok)⟩

theorem Separate.breaks_own (h : Separate w op.tid fs) (hnot : ¬ w.Undisturbed op) :
    ¬ (w.step op).Independent := by
  intro hindep
  obtain ⟨-, hsettled⟩ := Op.on_spec h.shared
  rw [Option.not_isSome_iff_eq_none.mp (fun hsome => hnot (h.undisturbed_own.mpr hsome))] at hsettled
  obtain ⟨f', fs', hstays⟩ := hsettled
  have harmed := hindep.armed op.tid (f'.entry op.tid none) (entries_idle hstays)
  exact absurd harmed (by simp [Frame.entry])

/-- Any other hit leaves a session on the stack that is not armed. -/
theorem Separate.breaks (h : Separate w tid fs) (hnot : ¬ w.Undisturbed op) :
    ¬ (w.step op).Independent := by
  by_cases hown : op.tid = tid
  · subst hown
    exact h.breaks_own hnot
  · cases fs with
    | nil => exact (h.of_nil op.tid).breaks_own hnot
    | cons f fs =>
      intro hindep
      rw [h.undisturbed_foreign hown] at hnot
      push Not at hnot
      obtain ⟨soName, ctors, oks, hop, hctors⟩ := hnot
      have hhead := entries_foreign h.shared hown soName hctors oks
      have harmed := hindep.armed tid (f.entry tid none) (by
        change ((op.on w.shared).entries tid).head? = _
        rw [hop]
        exact hhead)
      exact absurd harmed (by simp [Frame.entry])

end

/-- The threads are independent behind every prefix of a run exactly if no hit of it is disturbed. -/
theorem independent_iff (ops : List Op) :
    Along Threads.step Threads.Undisturbed {} ops ↔
      ∀ k, (run Threads.step {} (ops.take k)).Independent := by
  have hprop : ∀ w : Threads, (∃ tid fs, Separate w tid fs) → w.Independent :=
    fun w ⟨_, _, h⟩ => h.independent
  have hkeep : ∀ (w : Threads) op, (∃ tid fs, Separate w tid fs) → w.Undisturbed op →
      ∃ tid fs, Separate (w.step op) tid fs :=
    fun w op ⟨_, _, h⟩ hok => h.keep hok
  have hbreak : ∀ (w : Threads) op, (∃ tid fs, Separate w tid fs) → ¬ w.Undisturbed op →
      ¬ (w.step op).Independent :=
    fun w op ⟨_, _, h⟩ hnot => h.breaks hnot
  exact Along.iff_forall_take_of_breaks hprop hkeep hbreak ⟨0, [], separate_init 0⟩

/-- A second thread enters `call_constructors` while a library of the first one is initialised: it
    disarms the first thread's session, which misses its constructor. And a session that could not be
    armed stays. -/
theorem not_independent :
    let ctor : Ctor := { addr := ⟨0x2000, by decide⟩ }
    let other : Ctor := { addr := ⟨0x4000, by decide⟩ }
    let calls : List Op := [.call 1 "liba" [ctor] [], .call 2 "libb" [other] []]
    ¬ (run Threads.step {} calls).Independent ∧
      ¬ (run Threads.step {} (calls ++ [.trap 1 0x2000 ⟨0x9000, by decide⟩ []])).Independent ∧
      ¬ (run Threads.step {} [.call 1 "liba" [ctor] [false]]).Independent := by
  refine ⟨fun h => ?_, fun h => ?_, fun h => ?_⟩
  · exact absurd (h.entries 1) (by decide)
  · exact absurd (h.log 1) (by decide)
  · exact absurd (h.armed 1) (by decide)

end ArtPi.CtorRelay
