import Mathlib.Algebra.Order.Ring.Int
import Mathlib.Data.List.Nodup
import Mathlib.Data.List.Forall2

set_option autoImplicit false

/-! # The constructor relay (`src/agent/agent_hw_hook.cpp`)

When the linker enters `call_constructors`, `HandleCallConstructorsHit` puts a session for the
library on `g_ctorStack` and `ArmNextCtor` a one-shot breakpoint at its first constructor. The hit of
a constructor arms the next one, the hit of the last one its return address, and the hit there takes
the session off and arms the one below. All threads share the stack.

The sessions are shared pointers: the stack and the closures of the breakpoints refer to them by their
place in `sessions`. Of the manager of the breakpoints the model has what the relay uses: a
breakpoint at an address that has one already takes its place, and a breakpoint goes with its hit.
Whether there is a slot and the thread can be armed is an input (`oks`, an answer for each call of
`attach`, and success once they run out). -/

namespace ArtPi.CtorRelay

/-- An address of mapped code. -/
abbrev CodeAddr := {a : Nat // 0x1000 ≤ a}

/-- `& ~1` -/
def clear (a : Nat) : Nat := a - a % 2

/-- An entry of `ctors`, and whether `onConstructor` answers `false` to it: the thread goes on at `lr`
    then. So it does behind a constructor that the tracer has run, which loads no library here. -/
structure Ctor where
  addr : CodeAddr
  bypass : Bool := false
  deriving DecidableEq

structure CtorRelaySession where
  soName : String
  threadId : Nat
  ctors : List Ctor
  currentIndex : Nat := 0
  pendingRetAddr : Nat := 0
  activeHookId : Nat := 0
  deriving DecidableEq

/-- A one-shot breakpoint: the thread it is armed on, the session in its closure, and which of the two
    closures it is. -/
structure Hook where
  id : Nat
  address : Nat
  threadId : Nat
  session : Nat
  ret : Bool
  deriving DecidableEq

/-- What the relay reports with `BroadcastLog`. -/
inductive Report where
  /-- `calling constructors: n found` -/
  | found (soName : String) (n : Nat)
  | finished (soName : String) (idx : Nat)
  | calling (soName : String) (idx : Nat)
  /-- the last constructor finished, all done -/
  | allDone (soName : String)
  deriving DecidableEq

/-- The reports of the hit of a constructor. -/
def enters (soName : String) (idx : Nat) : List Report :=
  (if 0 < idx then [.finished soName (idx - 1)] else []) ++ [.calling soName idx]

structure Relay where
  sessions : List CtorRelaySession := []
  /-- `g_ctorStack`, from its back -/
  stack : List Nat := []
  hooks : List Hook := []
  nextId : Nat := 1
  /-- with the threads that report -/
  log : List (Nat × Report) := []
  deriving DecidableEq

namespace Relay

variable (r : Relay)

def logs (tid : Nat) (reports : List Report) : Relay :=
  { r with log := r.log ++ reports.map (fun e => (tid, e)) }

def setSession (ref : Nat) (s : CtorRelaySession) : Relay :=
  { r with sessions := r.sessions.set ref s }

/-- `HwHookManager::attach` -/
def attach (address threadId session : Nat) (ret ok : Bool) : Relay × Nat :=
  if address = 0 then (r, 0)
  else
    match r.hooks.find? (fun h => h.address = address) with
    | some h =>
      ({ r with
          hooks := r.hooks.map (fun h' => if h'.id = h.id then { h' with session, ret } else h') },
        h.id)
    | none =>
      if ok then
        ({ r with
            hooks := r.hooks ++ [⟨r.nextId, address, threadId, session, ret⟩]
            nextId := r.nextId + 1 }, r.nextId)
      else (r, 0)

/-- `HwHookManager::detach` -/
def detach (id : Nat) : Relay := { r with hooks := r.hooks.filter (fun h => h.id ≠ id) }

/-- The session goes if it is the back of the stack. -/
def pop (ref : Nat) : Relay :=
  if r.stack.head? = some ref then { r with stack := r.stack.tail } else r

end Relay

/-- `ArmNextCtor`. A session whose return address cannot be armed is taken off, and the one below is
    armed. -/
def armNextCtor : List Bool → Nat → Relay → Relay
  | oks, ref, r =>
    match r.sessions[ref]? with
    | none => r
    | some s =>
      match s.ctors[s.currentIndex]? with
      | some c =>
        let (r', id) := r.attach (clear c.addr) s.threadId ref false (oks.headD true)
        r'.setSession ref { s with activeHookId := id }
      | none =>
        if 0x1000 ≤ s.pendingRetAddr then
          let (r', id) := r.attach s.pendingRetAddr s.threadId ref true (oks.headD true)
          let r' := r'.setSession ref { s with activeHookId := id }
          if id = 0 then
            match oks with
            | [] => r'
            | _ :: oks =>
              match (r'.pop ref).stack with
              | [] => r'.pop ref
              | parent :: _ => armNextCtor oks parent (r'.pop ref)
          else r'
        else r

namespace Relay

variable (r : Relay)

/-- What `parentToResume` is armed for. -/
def resume (oks : List Bool) : Relay :=
  match r.stack with
  | [] => r
  | parent :: _ => armNextCtor oks parent r

/-- The session is done. -/
def finish (tid ref : Nat) (s : CtorRelaySession) : Relay :=
  ((r.setSession ref { s with activeHookId := 0 }).logs tid [.allDone s.soName]).pop ref

/-- The hit of a constructor, and whether it is bypassed. The code would read behind the constructors if
    all of them were hit before. -/
def onCtorHit (tid ref : Nat) (lr : CodeAddr) (oks : List Bool) : Relay × Bool :=
  match r.sessions[ref]? with
  | none => (r, false)
  | some s =>
    match s.ctors[s.currentIndex]? with
    | none => (r, false)
    | some c =>
      let idx := s.currentIndex
      let r := r.logs tid (enters s.soName idx)
      let s := { s with activeHookId := 0, currentIndex := idx + 1 }
      if idx + 1 < s.ctors.length then (armNextCtor oks ref (r.setSession ref s), c.bypass)
      else if c.bypass then ((r.finish tid ref s).resume oks, true)
      else
        (armNextCtor oks ref (r.setSession ref { s with pendingRetAddr := clear lr }), false)

/-- The hit of a return address. -/
def onRetHit (tid ref : Nat) (oks : List Bool) : Relay :=
  match r.sessions[ref]? with
  | none => r
  | some s => (r.finish tid ref s).resume oks

/-- The breakpoint that a thread runs into. -/
def hookAt (tid pc : Nat) : Option Hook := r.hooks.find? (fun h => h.address = pc && h.threadId = tid)

/-- A thread comes to an address; whether it goes on at `lr`. -/
def trap (tid pc : Nat) (lr : CodeAddr) (oks : List Bool) : Relay × Bool :=
  match r.hookAt tid pc with
  | none => (r, false)
  | some h =>
    if h.ret then ((r.detach h.id).onRetHit tid h.session oks, false)
    else (r.detach h.id).onCtorHit tid h.session lr oks

/-- The breakpoint of the back of the stack is detached. -/
def suspend : Relay :=
  match r.stack with
  | [] => r
  | top :: _ =>
    match r.sessions[top]? with
    | none => r
    | some s =>
      if s.activeHookId ≠ 0 then
        (r.detach s.activeHookId).setSession top { s with activeHookId := 0 }
      else r

def push (tid : Nat) (soName : String) (ctors : List Ctor) : Relay :=
  { r with
    sessions := r.sessions ++ [⟨soName, tid, ctors, 0, 0, 0⟩]
    stack := r.sessions.length :: r.stack }

/-- `HandleCallConstructorsHit` for a library whose constructors are found. -/
def callConstructors (tid : Nat) (soName : String) (ctors : List Ctor) (oks : List Bool) : Relay :=
  let r := r.logs tid [.found soName ctors.length]
  if ctors = [] then r
  else armNextCtor oks r.suspend.sessions.length (r.suspend.push tid soName ctors)

end Relay

/-! ## One thread alone

The sessions that one thread has put on the stack, by value. Only the one at the back is armed. -/

/-- What a session stands for: either a constructor is next, or the last one's return address. -/
structure Frame where
  soName : String
  ctors : List Ctor
  index : Nat
  pending : Nat
  live : index < ctors.length ∨ 0x1000 ≤ pending

namespace Frame

variable (f : Frame)

def session (tid id : Nat) : CtorRelaySession := ⟨f.soName, tid, f.ctors, f.index, f.pending, id⟩

/-- The address of its breakpoint. -/
def armed : Nat :=
  match f.ctors[f.index]? with
  | some c => clear c.addr
  | none => f.pending

def isRet : Bool := f.ctors[f.index]?.isNone

/-- What its hit reports. -/
def reports : List Report :=
  match f.ctors[f.index]? with
  | some c =>
    enters f.soName f.index ++
      if f.index + 1 < f.ctors.length then [] else if c.bypass then [.allDone f.soName] else []
  | none => [.allDone f.soName]

/-- Whether the thread goes on at `lr` then. -/
def bypassed : Bool := f.ctors[f.index]?.any Ctor.bypass

/-- What is left of it. -/
def after (lr : CodeAddr) : Option Frame :=
  match f.ctors[f.index]? with
  | some c =>
    if h : f.index + 1 < f.ctors.length then some { f with index := f.index + 1, live := .inl h }
    else if c.bypass then none
    else some
      { f with
        index := f.index + 1
        pending := clear lr
        live := .inr (by
          have := lr.property
          unfold clear
          omega) }
  | none => none

section

variable {f} {c : Ctor}

theorem armed_of (hc : f.ctors[f.index]? = some c) : f.armed = clear c.addr := by
  rw [armed, hc]

theorem bypassed_of (hc : f.ctors[f.index]? = some c) : f.bypassed = c.bypass := by
  rw [bypassed, hc]
  rfl

theorem after_of_more (lr : CodeAddr) (hc : f.ctors[f.index]? = some c)
    (h : f.index + 1 < f.ctors.length) :
    f.after lr = some { f with index := f.index + 1, live := .inl h } ∧
      f.reports = enters f.soName f.index := by
  rw [after, reports, hc]
  simp only [dif_pos h, if_pos h, List.append_nil, and_self]

theorem after_of_bypass (lr : CodeAddr) (hc : f.ctors[f.index]? = some c)
    (h : ¬ f.index + 1 < f.ctors.length) (hb : c.bypass = true) :
    f.after lr = none ∧ f.reports = enters f.soName f.index ++ [.allDone f.soName] := by
  rw [after, reports, hc]
  simp only [dif_neg h, if_neg h, hb, if_true, and_self]

theorem after_of_last {lr : CodeAddr} (hc : f.ctors[f.index]? = some c)
    (h : ¬ f.index + 1 < f.ctors.length) (hb : c.bypass = false)
    (hlive : f.index + 1 < f.ctors.length ∨ 0x1000 ≤ clear lr) :
    f.after lr = some { f with index := f.index + 1, pending := clear lr, live := hlive } ∧
      f.reports = enters f.soName f.index := by
  rw [after, reports, hc]
  simp only [dif_neg h, if_neg h, hb, Bool.false_eq_true, if_false, List.append_nil, and_self]

theorem after_of_ret (lr : CodeAddr) (hc : f.ctors[f.index]? = none) :
    f.after lr = none ∧ f.reports = [.allDone f.soName] ∧ f.bypassed = false ∧ f.armed = f.pending := by
  rw [after, reports, bypassed, armed, hc]
  exact ⟨rfl, rfl, rfl, rfl⟩

end

end Frame

/-- Arming the frame at the back; `none` if the breakpoint of a constructor cannot be set. -/
def settle : List Bool → List Frame → Option (List Frame)
  | _, [] => some []
  | oks, f :: fs =>
    if oks.headD true then some (f :: fs) else if f.isRet then settle oks.tail fs else none

/-- The stack holds the frames of a thread, and nothing is armed. -/
structure Idle (r : Relay) (tid : Nat) (fs : List Frame) : Prop where
  hooks : r.hooks = []
  frames : List.Forall₂ (fun ref f => r.sessions[ref]? = some (f.session tid 0)) r.stack fs
  nodup : r.stack.Nodup
  nextId : 0 < r.nextId

/-- The stack holds the frames of a thread, and the one at the back is armed. -/
def Refines (r : Relay) (tid : Nat) : List Frame → Prop
  | [] => Idle r tid []
  | f :: fs => ∃ ref rest id, r.stack = ref :: rest ∧ 0 < id ∧
      r.sessions[ref]? = some (f.session tid id) ∧ r.hooks = [⟨id, f.armed, tid, ref, f.isRet⟩] ∧
      Idle { r with hooks := [], sessions := r.sessions.set ref (f.session tid 0) } tid (f :: fs)

/-- Where arming ends: with the frame at the back armed, or with one there that could not be. -/
def Settled (r : Relay) (tid : Nat) : Option (List Frame) → Prop
  | some fs => Refines r tid fs
  | none => ∃ f fs, Idle r tid (f :: fs)

@[simp] theorem settled_some (r : Relay) (tid : Nat) (fs : List Frame) :
    Settled r tid (some fs) ↔ Refines r tid fs := Iff.rfl

theorem refines_init (tid : Nat) : Refines {} tid [] := ⟨rfl, .nil, List.nodup_nil, by decide⟩

theorem clear_ge {a : Nat} (h : 0x1000 ≤ a) : 0x1000 ≤ clear a := by
  unfold clear
  omega

section

variable {r : Relay} {tid ref : Nat} {rest : List Nat} {f f' : Frame} {fs : List Frame}

theorem Idle.head (h : Idle r tid (f :: fs)) (hstack : r.stack = ref :: rest) :
    r.sessions[ref]? = some (f.session tid 0) := by
  have hframes := h.frames
  rw [hstack] at hframes
  exact (List.forall₂_cons.mp hframes).1

theorem frames_set {sessions : List CtorRelaySession} {refs : List Nat}
    (h : List.Forall₂ (fun x f => sessions[x]? = some (Frame.session f tid 0)) refs fs)
    (hnot : ref ∉ refs) (s : CtorRelaySession) :
    List.Forall₂ (fun x f => (sessions.set ref s)[x]? = some (Frame.session f tid 0)) refs fs := by
  induction h with
  | nil => exact .nil
  | cons hhead _ ih =>
    obtain ⟨hne, hrest⟩ := List.ne_and_not_mem_of_not_mem_cons hnot
    exact .cons ((List.getElem?_set_ne hne).trans hhead) (ih hrest)

theorem filterMap_frames {β : Type} {sessions : List CtorRelaySession} {refs : List Nat}
    (g : CtorRelaySession → β)
    (h : List.Forall₂ (fun x f => sessions[x]? = some (Frame.session f tid 0)) refs fs) :
    refs.filterMap (fun x => sessions[x]?.map g) = fs.map (fun f => g (f.session tid 0)) := by
  induction h with
  | nil => rfl
  | cons hhead _ ih =>
    rw [List.filterMap_cons, hhead, List.map_cons]
    exact congrArg _ ih

theorem Idle.set (h : Idle r tid (f :: fs)) (hstack : r.stack = ref :: rest) (f' : Frame) :
    Idle (r.setSession ref (f'.session tid 0)) tid (f' :: fs) := by
  have hframes := h.frames
  have hnodup := h.nodup
  rw [hstack] at hframes hnodup
  obtain ⟨hhead, htail⟩ := List.forall₂_cons.mp hframes
  obtain ⟨hlt, -⟩ := List.getElem?_eq_some_iff.mp hhead
  refine ⟨h.hooks, ?_, h.nodup, h.nextId⟩
  change List.Forall₂ _ r.stack (f' :: fs)
  rw [hstack]
  exact .cons (List.getElem?_set_self hlt) (frames_set htail (List.nodup_cons.mp hnodup).1 _)

theorem Idle.pop (h : Idle r tid (f :: fs)) (hstack : r.stack = ref :: rest) :
    Idle (r.pop ref) tid fs ∧ (r.pop ref).stack = rest := by
  have hframes := h.frames
  have hnodup := h.nodup
  rw [hstack] at hframes hnodup
  have hpop : r.pop ref = { r with stack := rest } := by
    rw [Relay.pop, hstack]
    simp
  rw [hpop]
  exact ⟨⟨h.hooks, (List.forall₂_cons.mp hframes).2, (List.nodup_cons.mp hnodup).2, h.nextId⟩, rfl⟩

theorem frames_append {sessions : List CtorRelaySession} {refs : List Nat}
    (h : List.Forall₂ (fun x f => sessions[x]? = some (Frame.session f tid 0)) refs fs)
    (s : CtorRelaySession) :
    sessions.length ∉ refs ∧
      List.Forall₂ (fun x f => (sessions ++ [s])[x]? = some (Frame.session f tid 0)) refs fs := by
  induction h with
  | nil => exact ⟨List.not_mem_nil, .nil⟩
  | cons hhead _ ih =>
    obtain ⟨hlt, -⟩ := List.getElem?_eq_some_iff.mp hhead
    refine ⟨List.not_mem_cons_of_ne_of_not_mem (Nat.ne_of_gt hlt) ih.1, .cons ?_ ih.2⟩
    rw [List.getElem?_append_left hlt, hhead]

theorem attach_of_nil (hnil : r.hooks = []) {address : Nat} (h0 : address ≠ 0) (ret ok : Bool) :
    r.attach address tid ref ret ok =
      if ok then
        ({ r with hooks := [⟨r.nextId, address, tid, ref, ret⟩], nextId := r.nextId + 1 }, r.nextId)
      else (r, 0) := by
  rw [Relay.attach, if_neg h0, hnil]
  rfl

theorem Frame.armed_ge (f : Frame) : 0x1000 ≤ f.armed := by
  unfold Frame.armed
  split
  · rename_i c hc
    exact clear_ge c.addr.property
  · rename_i hnone
    exact f.live.resolve_left (Nat.not_lt.mpr (List.getElem?_eq_none_iff.mp hnone))

/-- The relay with the frame at the back armed. -/
def Relay.withHook (r : Relay) (tid ref : Nat) (f : Frame) : Relay :=
  { r with
    hooks := [⟨r.nextId, f.armed, tid, ref, f.isRet⟩]
    nextId := r.nextId + 1 }.setSession ref (f.session tid r.nextId)

theorem Idle.withHook (h : Idle r tid (f :: fs)) (hstack : r.stack = ref :: rest) :
    Refines (r.withHook tid ref f) tid (f :: fs) := by
  obtain ⟨hlt, -⟩ := List.getElem?_eq_some_iff.mp (h.head hstack)
  have hset := h.set hstack f
  refine ⟨ref, rest, r.nextId, hstack, h.nextId, List.getElem?_set_self hlt, rfl, rfl, ?_, h.nodup,
    Nat.succ_pos _⟩
  simpa [Relay.withHook, Relay.setSession, List.set_set] using hset.frames

/-- `ArmNextCtor` for the session at the back. -/
theorem armNextCtor_eq (oks : List Bool) (h : Idle r tid (f :: fs)) (hstack : r.stack = ref :: rest) :
    armNextCtor oks ref r =
      if oks.headD true then r.withHook tid ref f
      else if f.isRet then ((r.setSession ref (f.session tid 0)).pop ref).resume oks.tail
      else r.setSession ref (f.session tid 0) := by
  have hge := f.armed_ge
  have h0 : f.armed ≠ 0 := fun heq => by simp [heq] at hge
  have hnext : r.nextId ≠ 0 := Nat.ne_of_gt h.nextId
  rw [armNextCtor]
  simp only [h.head hstack, Frame.session]
  cases hc : f.ctors[f.index]? with
  | some c =>
    have harmed : f.armed = clear c.addr := by rw [Frame.armed, hc]
    have hret : f.isRet = false := by rw [Frame.isRet, hc]; rfl
    rw [harmed] at h0
    simp only [attach_of_nil h.hooks h0]
    cases oks.headD true with
    | true => simp [Relay.withHook, harmed, hret, Frame.session]
    | false => simp [hret]
  | none =>
    have harmed : f.armed = f.pending := by rw [Frame.armed, hc]
    have hret : f.isRet = true := by rw [Frame.isRet, hc]; rfl
    rw [harmed] at h0 hge
    simp only [attach_of_nil h.hooks h0, if_pos hge, hret]
    cases oks with
    | nil => simp [Relay.withHook, harmed, hret, Frame.session, hnext]
    | cons ok oks =>
      cases ok with
      | true => simp [Relay.withHook, harmed, hret, Frame.session, hnext]
      | false =>
        obtain ⟨-, hpop⟩ := (h.set hstack f).pop hstack
        simp only [Frame.session] at hpop
        simp only [List.headD_cons, Bool.false_eq_true, if_false, if_true, hpop, List.tail_cons,
          Relay.resume]

theorem resume_spec (fs : List Frame) :
    ∀ (oks : List Bool) {r : Relay}, Idle r tid fs →
      (r.resume oks).log = r.log ∧ Settled (r.resume oks) tid (settle oks fs) := by
  induction fs with
  | nil =>
    intro oks r h
    have hstack : r.stack = [] := List.forall₂_nil_right_iff.mp h.frames
    have hsame : r.resume oks = r := by rw [Relay.resume, hstack]
    rw [hsame]
    exact ⟨rfl, h⟩
  | cons f fs ih =>
    intro oks r h
    obtain ⟨ref, rest, -, -, hstack⟩ := List.forall₂_cons_right_iff.mp h.frames
    have heq : r.resume oks = armNextCtor oks ref r := by rw [Relay.resume, hstack]
    rw [heq, armNextCtor_eq oks h hstack, settle]
    by_cases hok : oks.headD true = true
    · rw [if_pos hok, if_pos hok]
      exact ⟨rfl, h.withHook hstack⟩
    · rw [if_neg hok, if_neg hok]
      by_cases hret : f.isRet = true
      · rw [if_pos hret, if_pos hret]
        obtain ⟨hidle, -⟩ := (h.set hstack f).pop hstack
        obtain ⟨hlog, hrest⟩ := ih oks.tail hidle
        refine ⟨hlog.trans ?_, hrest⟩
        rw [Relay.pop]
        split <;> rfl
      · rw [if_neg hret, if_neg hret]
        exact ⟨rfl, f, fs, h.set hstack f⟩

theorem hookAt_refines {fs : List Frame} (h : Refines r tid fs) (tid' pc : Nat) :
    (r.hookAt tid' pc).isSome ↔ tid' = tid ∧ ∃ f fs', fs = f :: fs' ∧ f.armed = pc := by
  cases fs with
  | nil => simp [Relay.hookAt, show r.hooks = [] from h.hooks]
  | cons f fs =>
    obtain ⟨ref, rest, id, -, -, -, hhooks, -⟩ := h
    rw [Relay.hookAt, hhooks]
    constructor
    · intro hsome
      have hboth : f.armed = pc ∧ tid = tid' := by
        by_contra hnot
        rw [List.find?_cons_of_neg (by simpa using hnot), List.find?_nil] at hsome
        exact absurd hsome (by simp)
      exact ⟨hboth.2.symm, f, fs, rfl, hboth.1⟩
    · rintro ⟨rfl, f', fs', heq, rfl⟩
      obtain ⟨rfl, rfl⟩ := List.cons.inj heq
      simp

theorem trap_of_none {pc : Nat} (h : ¬ (r.hookAt tid pc).isSome) (lr : CodeAddr) (oks : List Bool) :
    r.trap tid pc lr oks = (r, false) := by
  rw [Relay.trap, Option.not_isSome_iff_eq_none.mp h]

theorem logs_nil (r : Relay) (tid : Nat) : r.logs tid [] = r := by
  rw [Relay.logs, List.map_nil, List.append_nil]

/-- What the handlers start from: the breakpoint is gone, and the session has still its number. -/
structure Hit (r : Relay) (tid ref : Nat) (f : Frame) (fs : List Frame) : Prop where
  idle : Idle { r with sessions := r.sessions.set ref (f.session tid 0) } tid (f :: fs)
  stack : ∃ rest, r.stack = ref :: rest
  session : ∃ id, r.sessions[ref]? = some (f.session tid id)

/-- A handler reports, and puts another frame in the place of the one that was hit. -/
theorem Hit.put (h : Hit r tid ref f fs) (f' : Frame) (reports : List Report) (oks : List Bool) :
    (armNextCtor oks ref ((r.logs tid reports).setSession ref (f'.session tid 0))).log =
        r.log ++ reports.map (fun e => (tid, e)) ∧
      Settled (armNextCtor oks ref ((r.logs tid reports).setSession ref (f'.session tid 0))) tid
        (settle oks (f' :: fs)) := by
  obtain ⟨hidle, ⟨rest, hstack⟩, -⟩ := h
  have hset := hidle.set hstack f'
  have hput : Idle ((r.logs tid reports).setSession ref (f'.session tid 0)) tid (f' :: fs) := by
    refine ⟨hidle.hooks, ?_, hset.nodup, hset.nextId⟩
    simpa [Relay.setSession, Relay.logs, List.set_set] using hset.frames
  -- the session is at the back of the stack
  have harm : armNextCtor oks ref ((r.logs tid reports).setSession ref (f'.session tid 0)) =
      ((r.logs tid reports).setSession ref (f'.session tid 0)).resume oks := by
    rw [Relay.resume]
    change _ = match r.stack with | [] => _ | parent :: _ => _
    rw [hstack]
  rw [harm]
  exact resume_spec _ oks hput

/-- A handler reports what is left to report, and takes the session off. -/
theorem Hit.finish (h : Hit r tid ref f fs) (reports : List Report) (s : CtorRelaySession)
    (oks : List Bool) :
    (((r.logs tid reports).finish tid ref s).resume oks).log =
        r.log ++ (reports ++ [Report.allDone s.soName]).map (fun e => (tid, e)) ∧
      Settled (((r.logs tid reports).finish tid ref s).resume oks) tid (settle oks fs) := by
  obtain ⟨hidle, ⟨rest, hstack⟩, -⟩ := h
  have hframes := hidle.frames
  have hnodup := hidle.nodup
  simp only [hstack] at hframes hnodup
  have hrest := frames_set (List.forall₂_cons.mp hframes).2 (List.nodup_cons.mp hnodup).1
    { s with activeHookId := 0 }
  rw [List.set_set] at hrest
  have heq : (r.logs tid reports).finish tid ref s =
      { (r.logs tid (reports ++ [.allDone s.soName])).setSession ref { s with activeHookId := 0 } with
        stack := rest } := by
    rw [Relay.finish, Relay.pop]
    simp [Relay.setSession, Relay.logs, hstack]
  have hpop : Idle ((r.logs tid reports).finish tid ref s) tid fs := by
    rw [heq]
    exact ⟨hidle.hooks, hrest, (List.nodup_cons.mp hnodup).2, hidle.nextId⟩
  obtain ⟨hlog, hsettled⟩ := resume_spec fs oks hpop
  exact ⟨hlog.trans (by rw [heq]; rfl), hsettled⟩

theorem Hit.onRetHit (h : Hit r tid ref f fs) (hc : f.ctors[f.index]? = none) (lr : CodeAddr)
    (oks : List Bool) :
    (r.onRetHit tid ref oks).log = r.log ++ f.reports.map (fun e => (tid, e)) ∧
      Settled (r.onRetHit tid ref oks) tid (settle oks ((f.after lr).toList ++ fs)) := by
  obtain ⟨hafter, hreports, -, -⟩ := Frame.after_of_ret lr hc
  obtain ⟨id, hsession⟩ := h.session
  have hfinish := h.finish [] (f.session tid id) oks
  rw [logs_nil] at hfinish
  simp only [Relay.onRetHit, hsession, hafter, hreports]
  exact hfinish

theorem Hit.onCtorHit (h : Hit r tid ref f fs) {c : Ctor} (hc : f.ctors[f.index]? = some c)
    (lr : CodeAddr) (oks : List Bool) :
    (r.onCtorHit tid ref lr oks).2 = c.bypass ∧
      (r.onCtorHit tid ref lr oks).1.log = r.log ++ f.reports.map (fun e => (tid, e)) ∧
      Settled (r.onCtorHit tid ref lr oks).1 tid (settle oks ((f.after lr).toList ++ fs)) := by
  obtain ⟨id, hsession⟩ := h.session
  have hcs : (f.session tid id).ctors[(f.session tid id).currentIndex]? = some c := hc
  simp only [Relay.onCtorHit, hsession, hcs]
  by_cases hmore : f.index + 1 < f.ctors.length
  · obtain ⟨hafter, hreports⟩ := Frame.after_of_more lr hc hmore
    have hlt : (f.session tid id).currentIndex + 1 < (f.session tid id).ctors.length := hmore
    simp only [if_pos hlt, hafter, hreports]
    exact ⟨trivial, h.put { f with index := f.index + 1, live := .inl hmore } _ oks⟩
  · have hlt : ¬ (f.session tid id).currentIndex + 1 < (f.session tid id).ctors.length := hmore
    simp only [if_neg hlt]
    cases hb : c.bypass with
    | true =>
      obtain ⟨hafter, hreports⟩ := Frame.after_of_bypass lr hc hmore hb
      rw [hafter, hreports]
      exact ⟨rfl, h.finish (enters f.soName f.index)
        { f.session tid id with activeHookId := 0, currentIndex := f.index + 1 } oks⟩
    | false =>
      have hlive : f.index + 1 < f.ctors.length ∨ 0x1000 ≤ clear lr := .inr (clear_ge lr.property)
      obtain ⟨hafter, hreports⟩ := Frame.after_of_last hc hmore hb hlive
      rw [hafter, hreports]
      exact ⟨rfl,
        h.put { f with index := f.index + 1, pending := clear lr, live := hlive } _ oks⟩

theorem trap_spec (h : Refines r tid (f :: fs)) (lr : CodeAddr) (oks : List Bool) :
    (r.trap tid f.armed lr oks).2 = f.bypassed ∧
      (r.trap tid f.armed lr oks).1.log = r.log ++ f.reports.map (fun e => (tid, e)) ∧
      Settled (r.trap tid f.armed lr oks).1 tid (settle oks ((f.after lr).toList ++ fs)) := by
  obtain ⟨ref, rest, id, hstack, hid, hsession, hhooks, hidle⟩ := h
  have hat : r.hookAt tid f.armed = some ⟨id, f.armed, tid, ref, f.isRet⟩ := by
    simp [Relay.hookAt, hhooks]
  have hdetach : r.detach id = { r with hooks := [] } := by
    simp [Relay.detach, hhooks]
  have hhit : Hit { r with hooks := [] } tid ref f fs := ⟨hidle, ⟨rest, hstack⟩, ⟨id, hsession⟩⟩
  simp only [Relay.trap, hat, hdetach]
  cases hc : f.ctors[f.index]? with
  | none =>
    have hret : f.isRet = true := by rw [Frame.isRet, hc]; rfl
    obtain ⟨-, -, hby, -⟩ := Frame.after_of_ret lr hc
    simp only [hret, if_true, hby]
    exact ⟨trivial, hhit.onRetHit hc lr oks⟩
  | some c =>
    have hret : ¬ f.isRet = true := by rw [Frame.isRet, hc]; simp
    simp only [if_neg hret, Frame.bypassed_of hc]
    exact hhit.onCtorHit hc lr oks

theorem Refines.logs {fs : List Frame} (h : Refines r tid fs) (tid' : Nat) (reports : List Report) :
    Refines (r.logs tid' reports) tid fs := by
  cases fs with
  | nil => exact ⟨h.hooks, h.frames, h.nodup, h.nextId⟩
  | cons f fs =>
    obtain ⟨ref, rest, id, hstack, hid, hsession, hhooks, hidle⟩ := h
    exact ⟨ref, rest, id, hstack, hid, hsession, hhooks, rfl, hidle.frames, hidle.nodup, hidle.nextId⟩

/-- Nothing is armed when a library's session is put on the stack. -/
theorem suspend_spec {fs : List Frame} (h : Refines r tid fs) :
    Idle r.suspend tid fs ∧ r.suspend.log = r.log := by
  cases fs with
  | nil =>
    have hstack : r.stack = [] := List.forall₂_nil_right_iff.mp h.frames
    have hsame : r.suspend = r := by rw [Relay.suspend, hstack]
    rw [hsame]
    exact ⟨h, rfl⟩
  | cons f fs =>
    obtain ⟨ref, rest, id, hstack, hid, hsession, hhooks, hidle⟩ := h
    have hactive : (f.session tid id).activeHookId ≠ 0 := Nat.ne_of_gt hid
    have heq : r.suspend = Relay.setSession { r with hooks := [] } ref (f.session tid 0) := by
      rw [Relay.suspend, hstack]
      simp only [hsession, if_pos hactive]
      simp [Relay.detach, hhooks, Frame.session, hstack]
    rw [heq]
    exact ⟨hidle, rfl⟩

/-- A frame for the library, before any of its constructors is hit. -/
def Frame.start (soName : String) (ctors : List Ctor) (h : ctors ≠ []) : Frame :=
  ⟨soName, ctors, 0, 0, .inl (List.length_pos_iff.mpr h)⟩

theorem call_spec {fs : List Frame} (h : Refines r tid fs) (soName : String) {ctors : List Ctor}
    (hne : ctors ≠ []) (oks : List Bool) :
    (r.callConstructors tid soName ctors oks).log = r.log ++ [(tid, .found soName ctors.length)] ∧
      Settled (r.callConstructors tid soName ctors oks) tid
        (settle oks (Frame.start soName ctors hne :: fs)) := by
  obtain ⟨hidle, hlog⟩ := suspend_spec (h.logs tid [.found soName ctors.length])
  obtain ⟨hnew, hframes⟩ := frames_append hidle.frames ⟨soName, tid, ctors, 0, 0, 0⟩
  have hpush : Idle ((r.logs tid [.found soName ctors.length]).suspend.push tid soName ctors) tid
      (Frame.start soName ctors hne :: fs) := by
    refine ⟨hidle.hooks, .cons ?_ hframes, List.nodup_cons.mpr ⟨hnew, hidle.nodup⟩, hidle.nextId⟩
    simp [Relay.push, Frame.start, Frame.session]
  have heq : r.callConstructors tid soName ctors oks =
      ((r.logs tid [.found soName ctors.length]).suspend.push tid soName ctors).resume oks := by
    simp only [Relay.callConstructors, if_neg hne]
    rfl
  rw [heq]
  obtain ⟨hlog', hrest⟩ := resume_spec _ oks hpush
  exact ⟨hlog'.trans hlog, hrest⟩

end

end ArtPi.CtorRelay
