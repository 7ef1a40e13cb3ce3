import ArtPi.Lib.Runs
import Mathlib.Data.List.Nodup

set_option autoImplicit false

/-! # Evaluations of the Python client (`cli/artpi_repl.py`)

`ArtPiClient` sends its requests without a number, and its receiving thread takes every response for
that of the `eval_js_sync` in progress while `_silent` is set, and prints it otherwise. The agent answers
the requests in their order.

What the two threads do to the shared fields is one step for each access. The requests are told apart
by a number that no step reads. -/

namespace ArtPi.Cli.Repl

open Lib

inductive Kind where
  | evalJs | evalJsSync | info
  deriving DecidableEq

structure Request where
  id : Nat
  kind : Kind
  deriving DecidableEq

/-- What a response says: a `data` with `result`, one with `pkg`, another dictionary, no dictionary, or
    an error. -/
inductive Body where
  | result (val : String)
  | hello (pkg pid : String)
  | dict (res : String)
  | value (res : String)
  | error (err : String)
  deriving DecidableEq

structure Response where
  request : Request
  body : Body
  deriving DecidableEq

inductive Frame where
  | event (ch data : String)
  | response (r : Response)

/-- The receiving thread: behind the test of `_silent`, and behind the store to `_pending`. -/
inductive Receiver where
  | idle
  | routing (r : Response)
  | stored

/-- Where `eval_js_sync` is: behind `_pending_event.clear()`, the reset of `_pending`, the store to
    `_silent`, `send_cmd` and the wait, and before `finally`. -/
inductive Caller where
  | idle
  | cleared
  | reset (id : Nat)
  | silenced (id : Nat)
  | waiting (id : Nat)
  | woken (id : Nat)
  | leaving

structure Client where
  /-- The requests the agent has not answered. -/
  queue : List Request := []
  /-- What it has sent and the client has not received. -/
  inbox : List Frame := []
  receiver : Receiver := .idle
  caller : Caller := .idle
  silent : Bool := false
  pending : Option Response := none
  pendingEvent : Bool := false
  stdout : List String := []
  nextId : Nat := 0
  /-- The call of `eval_js_sync` that has reset `_pending` last. -/
  current : Option Nat := none
  received : List Response := []
  printed : List Response := []
  /-- What the calls of `eval_js_sync` have returned. -/
  returned : List (Nat × Option String) := []

/-! ## The client -/

def eventText (ch data : String) : String :=
  if ch = "log" ∨ ch = "console" then "\r" ++ data ++ "\nartpi> "
  else "\r[" ++ ch ++ "] " ++ data ++ "\nartpi> "

namespace Body

def text : Body → String
  | result val => val ++ "\nartpi> "
  | hello pkg pid => "[+] Connected to: " ++ pkg ++ " (PID: " ++ pid ++ ")\nartpi> "
  | dict res => res ++ "\nartpi> "
  | value res => res ++ "\nartpi> "
  | error err => "\x1b[31m[Error] " ++ err ++ "\x1b[0m\nartpi> "

/-- What `eval_js_sync` returns of it. -/
def answer : Body → Option String
  | result val => some val
  | value res => some res
  | hello _ _ | dict _ | error _ => none

end Body

namespace Client

variable (t : Client)

/-- `send_cmd`, with what becomes of it. -/
def push (q : Request) (sent : Bool) : List Request := if sent then t.queue ++ [q] else t.queue

/-- `eval_js`, or the `info` of `main`. -/
def sendCmd (kind : Kind) (sent : Bool) : Client :=
  { t with queue := t.push ⟨t.nextId, kind⟩ sent, nextId := t.nextId + 1 }

def clear : Client :=
  match t.caller with
  | .idle => { t with pendingEvent := false, caller := .cleared }
  | _ => t

def reset : Client :=
  match t.caller with
  | .cleared =>
    { t with
      pending := none, caller := .reset t.nextId, current := some t.nextId, nextId := t.nextId + 1 }
  | _ => t

def silence : Client :=
  match t.caller with
  | .reset id => { t with silent := true, caller := .silenced id }
  | _ => t

def send (sent : Bool) : Client :=
  match t.caller with
  | .silenced id => { t with queue := t.push ⟨id, .evalJsSync⟩ sent, caller := .waiting id }
  | _ => t

def wake : Client :=
  match t.caller with
  | .waiting id => if t.pendingEvent then { t with caller := .woken id } else t
  | _ => t

def timeout : Client :=
  match t.caller with
  | .waiting id => { t with caller := .leaving, returned := t.returned ++ [(id, none)] }
  | _ => t

/-- `_pending` is read when the event has been set, and may be gone by then. -/
def read : Client :=
  match t.caller with
  | .woken id =>
    { t with
      caller := .leaving
      returned := t.returned ++ [(id, t.pending.bind (fun r => r.body.answer))] }
  | _ => t

def finish : Client :=
  match t.caller with
  | .leaving => { t with silent := false, caller := .idle }
  | _ => t

/-- `_handle_message`, up to the store to `_pending`. -/
def receive : Client :=
  match t.receiver, t.inbox with
  | .idle, .event ch data :: rest =>
    { t with inbox := rest, stdout := t.stdout ++ [eventText ch data] }
  | .idle, .response r :: rest =>
    if t.silent then { t with inbox := rest, receiver := .routing r, received := t.received ++ [r] }
    else
      { t with
        inbox := rest
        received := t.received ++ [r]
        printed := t.printed ++ [r]
        stdout := t.stdout ++ [r.body.text] }
  | _, _ => t

def store : Client :=
  match t.receiver with
  | .routing r => { t with pending := some r, receiver := .stored }
  | _ => t

def set : Client :=
  match t.receiver with
  | .stored => { t with pendingEvent := true, receiver := .idle }
  | _ => t

/-! ## The agent -/

/-- The oldest request is answered. -/
def respond (body : Body) : Client :=
  match t.queue with
  | q :: queue => { t with queue, inbox := t.inbox ++ [.response ⟨q, body⟩] }
  | [] => t

def broadcast (ch data : String) : Client := { t with inbox := t.inbox ++ [.event ch data] }

end Client

inductive Event where
  | evalJs (sent : Bool)
  | info (sent : Bool)
  | clear
  | reset
  | silence
  | send (sent : Bool)
  | wake
  | timeout
  | read
  | finish
  | receive
  | store
  | set
  | respond (body : Body)
  | broadcast (ch data : String)

/-- An event that cannot happen in a state leaves it as it is. -/
def Client.step (t : Client) : Event → Client
  | .evalJs sent => t.sendCmd .evalJs sent
  | .info sent => t.sendCmd .info sent
  | .clear => t.clear
  | .reset => t.reset
  | .silence => t.silence
  | .send sent => t.send sent
  | .wake => t.wake
  | .timeout => t.timeout
  | .read => t.read
  | .finish => t.finish
  | .receive => t.receive
  | .store => t.store
  | .set => t.set
  | .respond body => t.respond body
  | .broadcast ch data => t.broadcast ch data

/-! ## What is to hold -/

def Response.isEvalJs (r : Response) : Bool := r.request.kind = .evalJs

/-- The request of the call of `eval_js_sync` that has reset `_pending` last. -/
def Client.request (t : Client) : Option Request := t.current.map (fun id => ⟨id, .evalJsSync⟩)

/-- The responses of `eval_js` are printed as they come in, each once, a call of `eval_js_sync` returns
    `None` or what its own response says, and no other one is on the way to it. -/
structure Served (t : Client) : Prop where
  printed : t.printed.filter Response.isEvalJs = t.received.filter Response.isEvalJs
  once : (t.received.map Response.request).Nodup
  own : ∀ p ∈ t.returned, p.2 = none ∨
    ∃ r ∈ t.received, r.request = ⟨p.1, .evalJsSync⟩ ∧ p.2 = r.body.answer
  routed : ∀ r, t.receiver = .routing r → t.request = some r.request

/-- A response that comes in while `_silent` is set is that of the call in progress, and no call begins
    while the receiving thread is about to store a response. -/
def Clear (t : Client) : Event → Prop
  | .receive => ∀ r rest, t.receiver = .idle → t.inbox = .response r :: rest → t.silent = true →
      t.request = some r.request
  | .reset => t.caller = .cleared → ∀ r, t.receiver ≠ .routing r
  | _ => True

/-! ## The requests -/

def Frame.request : Frame → Option Request
  | event _ _ => none
  | response r => some r.request

/-- All requests that were sent, in their order. -/
def Client.requests (t : Client) : List Request :=
  t.received.map Response.request ++ (t.inbox.filterMap Frame.request ++ t.queue)

/-- The call `eval_js_sync` is in, from the reset of `_pending` to the reading of it. -/
def Caller.call : Caller → Option Nat
  | reset id | silenced id | waiting id | woken id => some id
  | idle | cleared | leaving => none

/-- The request of the call is not sent yet. -/
def Caller.unsent : Caller → Option Nat
  | reset id | silenced id => some id
  | idle | cleared | waiting _ | woken _ | leaving => none

/-- The invariant of the runs whose events are clear. -/
structure Inv (t : Client) : Prop extends Served t where
  nodup : t.requests.Nodup
  fresh : ∀ q ∈ t.requests, q.id < t.nextId
  unsent : ∀ id, t.caller.unsent = some id → id < t.nextId ∧ ∀ q ∈ t.requests, q.id ≠ id
  current_lt : ∀ id, t.current = some id → id < t.nextId
  call : ∀ id, t.caller.call = some id → t.current = some id
  pending : ∀ id, t.caller.call = some id → ∀ r, t.pending = some r →
    r ∈ t.received ∧ r.request = ⟨id, .evalJsSync⟩
  routing : ∀ r, t.receiver = .routing r → r ∈ t.received

theorem inv_init : Inv {} where
  printed := rfl
  once := List.nodup_nil
  own := by simp
  routed := by simp
  nodup := List.nodup_nil
  fresh := by simp [Client.requests]
  unsent := by simp [Caller.unsent]
  current_lt := by simp
  call := by simp [Caller.call]
  pending := by simp [Caller.call]
  routing := by simp

section

variable {t : Client}

/-! ## Sending -/

theorem requests_push {q : Request} (sent : Bool) :
    t.received.map Response.request ++ (t.inbox.filterMap Frame.request ++ t.push q sent) =
      if sent then t.requests ++ [q] else t.requests := by
  unfold Client.push Client.requests
  cases sent <;> simp

theorem nodup_push (hnodup : t.requests.Nodup) {q : Request} (hq : ∀ q' ∈ t.requests, q'.id ≠ q.id)
    (sent : Bool) :
    (t.received.map Response.request ++
      (t.inbox.filterMap Frame.request ++ t.push q sent)).Nodup := by
  rw [requests_push]
  split
  · rw [← List.concat_eq_append, List.nodup_concat]
    exact ⟨fun hmem => hq q hmem rfl, hnodup⟩
  · exact hnodup

theorem forall_push {P : Request → Prop} (h : ∀ q' ∈ t.requests, P q') {q : Request} (hq : P q)
    (sent : Bool) :
    ∀ q' ∈ t.received.map Response.request ++ (t.inbox.filterMap Frame.request ++ t.push q sent),
      P q' := by
  rw [requests_push]
  split
  · exact List.forall_mem_append.2 ⟨h, List.forall_mem_singleton.2 hq⟩
  · exact h

theorem Inv.sendCmd (h : Inv t) (kind : Kind) (sent : Bool) : Inv (t.sendCmd kind sent) := by
  have hnew : ∀ q ∈ t.requests, q.id ≠ t.nextId := fun q hq => Nat.ne_of_lt (h.fresh q hq)
  exact
    { h with
      nodup := nodup_push h.nodup hnew sent
      fresh := forall_push (fun q hq => Nat.lt_succ_of_lt (h.fresh q hq)) (Nat.lt_succ_self _) sent
      unsent := fun id hid =>
        ⟨Nat.lt_succ_of_lt (h.unsent id hid).1,
          forall_push (h.unsent id hid).2 (Nat.ne_of_gt (h.unsent id hid).1) sent⟩
      current_lt := fun id hid => Nat.lt_succ_of_lt (h.current_lt id hid) }

theorem Inv.send (h : Inv t) (sent : Bool) : Inv (t.send sent) := by
  unfold Client.send
  split
  · next id hcaller =>
      obtain ⟨hlt, hnew⟩ := h.unsent id (by rw [hcaller]; rfl)
      have hcall : t.caller.call = some id := by rw [hcaller]; rfl
      exact
        { h with
          nodup := nodup_push h.nodup hnew sent
          fresh := forall_push h.fresh hlt sent
          unsent := fun id' hid' => absurd hid' (by simp [Caller.unsent])
          call := fun id' hid' => h.call id' (hcall.trans hid')
          pending := fun id' hid' => h.pending id' (hcall.trans hid') }
  · exact h

/-! ## A call of `eval_js_sync` -/

theorem Inv.clear (h : Inv t) : Inv t.clear := by
  unfold Client.clear
  split
  · exact
      { h with
        unsent := fun id hid => absurd hid (by simp [Caller.unsent])
        call := fun id hid => absurd hid (by simp [Caller.call])
        pending := fun id hid => absurd hid (by simp [Caller.call]) }
  · exact h

theorem Inv.reset (h : Inv t) (hclear : Clear t .reset) : Inv t.reset := by
  unfold Client.reset
  split
  · next hcaller =>
      exact
        { h with
          routed := fun r hr => absurd hr (hclear hcaller r)
          fresh := fun q hq => Nat.lt_succ_of_lt (h.fresh q hq)
          unsent := fun id hid => by
            obtain rfl := Option.some.inj hid
            exact ⟨Nat.lt_succ_self _, fun q hq => Nat.ne_of_lt (h.fresh q hq)⟩
          current_lt := fun id hid => by
            obtain rfl := Option.some.inj hid
            exact Nat.lt_succ_self _
          call := fun id hid => hid
          pending := fun id hid r hr => absurd hr (by simp) }
  · exact h

theorem Inv.silence (h : Inv t) : Inv t.silence := by
  unfold Client.silence
  split
  · next id hcaller =>
      have hunsent : t.caller.unsent = some id := by rw [hcaller]; rfl
      have hcall : t.caller.call = some id := by rw [hcaller]; rfl
      exact
        { h with
          unsent := fun id' hid' => h.unsent id' (hunsent.trans hid')
          call := fun id' hid' => h.call id' (hcall.trans hid')
          pending := fun id' hid' => h.pending id' (hcall.trans hid') }
  · exact h

theorem Inv.wake (h : Inv t) : Inv t.wake := by
  unfold Client.wake
  split
  · next id hcaller =>
      have hcall : t.caller.call = some id := by rw [hcaller]; rfl
      split
      · exact
          { h with
            unsent := fun id' hid' => absurd hid' (by simp [Caller.unsent])
            call := fun id' hid' => h.call id' (hcall.trans hid')
            pending := fun id' hid' => h.pending id' (hcall.trans hid') }
      · exact h
  · exact h

theorem Inv.leave (h : Inv t) {id : Nat} {answer : Option String}
    (hown : answer = none ∨
      ∃ r ∈ t.received, r.request = ⟨id, .evalJsSync⟩ ∧ answer = r.body.answer) :
    Inv { t with caller := .leaving, returned := t.returned ++ [(id, answer)] } :=
  { h with
    own := List.forall_mem_append.2 ⟨h.own, List.forall_mem_singleton.2 hown⟩
    unsent := fun id' hid' => absurd hid' (by simp [Caller.unsent])
    call := fun id' hid' => absurd hid' (by simp [Caller.call])
    pending := fun id' hid' => absurd hid' (by simp [Caller.call]) }

theorem Inv.timeout (h : Inv t) : Inv t.timeout := by
  unfold Client.timeout
  split
  · exact h.leave (Or.inl rfl)
  · exact h

theorem Inv.read (h : Inv t) : Inv t.read := by
  unfold Client.read
  split
  · next id hcaller =>
      refine h.leave ?_
      cases hpending : t.pending with
      | none => exact Or.inl rfl
      | some r =>
        obtain ⟨hr, hrequest⟩ := h.pending id (by rw [hcaller]; rfl) r hpending
        exact Or.inr ⟨r, hr, hrequest, rfl⟩
  · exact h

theorem Inv.finish (h : Inv t) : Inv t.finish := by
  unfold Client.finish
  split
  · exact
      { h with
        unsent := fun id hid => absurd hid (by simp [Caller.unsent])
        call := fun id hid => absurd hid (by simp [Caller.call])
        pending := fun id hid => absurd hid (by simp [Caller.call]) }
  · exact h

/-! ## Receiving -/

theorem Inv.of_requests_eq (h : Inv t) {t' : Client} (hserved : Served t')
    (hrequests : t'.requests = t.requests) (hnext : t'.nextId = t.nextId)
    (hcaller : t'.caller = t.caller) (hcurrent : t'.current = t.current)
    (hpending : t'.pending = t.pending) (hreceived : ∀ r ∈ t.received, r ∈ t'.received)
    (hrouting : ∀ r, t'.receiver = .routing r → r ∈ t'.received) : Inv t' where
  toServed := hserved
  nodup := by rw [hrequests]; exact h.nodup
  fresh := by rw [hrequests, hnext]; exact h.fresh
  unsent := by rw [hrequests, hnext, hcaller]; exact h.unsent
  current_lt := by rw [hcurrent, hnext]; exact h.current_lt
  call := by rw [hcaller, hcurrent]; exact h.call
  pending := by
    intro id hid r hr
    rw [hcaller] at hid
    rw [hpending] at hr
    exact ⟨hreceived r (h.pending id hid r hr).1, (h.pending id hid r hr).2⟩
  routing := hrouting

theorem requests_receive {r : Response} {rest : List Frame} (hinbox : t.inbox = .response r :: rest) :
    (t.received ++ [r]).map Response.request ++ (rest.filterMap Frame.request ++ t.queue) =
      t.requests := by
  unfold Client.requests
  rw [hinbox, List.filterMap_cons_some (show Frame.request (.response r) = some r.request from rfl)]
  simp

theorem Inv.own_received (h : Inv t) (r : Response) :
    ∀ p ∈ t.returned, p.2 = none ∨
      ∃ r' ∈ t.received ++ [r], r'.request = ⟨p.1, .evalJsSync⟩ ∧ p.2 = r'.body.answer := by
  intro p hp
  rcases h.own p hp with hnone | ⟨r', hr', hown⟩
  · exact Or.inl hnone
  · exact Or.inr ⟨r', List.mem_append_left _ hr', hown⟩

theorem Inv.receive (h : Inv t) (hclear : Clear t .receive) : Inv t.receive := by
  unfold Client.receive
  split
  · next ch data rest hreceiver hinbox =>
      refine h.of_requests_eq ⟨h.printed, h.once, h.own, h.routed⟩ ?_ rfl rfl rfl rfl
        (fun r hr => hr) h.routing
      unfold Client.requests
      rw [hinbox, List.filterMap_cons_none rfl]
  · next r rest hreceiver hinbox =>
      have hrequests := requests_receive hinbox
      have honce : ((t.received ++ [r]).map Response.request).Nodup :=
        h.nodup.sublist (by rw [← hrequests]; exact List.sublist_append_left _ _)
      split
      · next hsilent =>
          have hrequest := hclear r rest hreceiver hinbox hsilent
          have hkind : r.isEvalJs = false := by
            obtain ⟨id, -, hid⟩ := Option.map_eq_some_iff.1 hrequest
            simp [Response.isEvalJs, ← hid]
          refine h.of_requests_eq ⟨?_, honce, h.own_received r, ?_⟩ hrequests rfl rfl rfl rfl
            (fun r' hr' => List.mem_append_left _ hr') ?_
          · rw [List.filter_append, List.filter_singleton, hkind]
            simpa using h.printed
          · intro r' hr'
            obtain rfl := Receiver.routing.inj hr'
            exact hrequest
          · intro r' hr'
            obtain rfl := Receiver.routing.inj hr'
            exact List.mem_append_right _ List.mem_cons_self
      · refine h.of_requests_eq ⟨?_, honce, h.own_received r, h.routed⟩ hrequests rfl rfl rfl rfl
          (fun r' hr' => List.mem_append_left _ hr')
          (fun r' hr' => List.mem_append_left _ (h.routing r' hr'))
        rw [List.filter_append, List.filter_append, h.printed]
  · exact h

theorem Inv.store (h : Inv t) : Inv t.store := by
  unfold Client.store
  split
  · next r hreceiver =>
      have hrequest := h.routed r hreceiver
      exact
        { h with
          routed := fun r' hr' => absurd hr' (by simp)
          routing := fun r' hr' => absurd hr' (by simp)
          pending := fun id hid r' hr' => by
            obtain rfl := Option.some.inj hr'
            refine ⟨h.routing r hreceiver, ?_⟩
            rw [Client.request, h.call id hid] at hrequest
            exact (Option.some.inj hrequest).symm }
  · exact h

theorem Inv.set (h : Inv t) : Inv t.set := by
  unfold Client.set
  split
  · exact
      { h with
        routed := fun r hr => absurd hr (by simp)
        routing := fun r hr => absurd hr (by simp) }
  · exact h

theorem Inv.respond (h : Inv t) (body : Body) : Inv (t.respond body) := by
  unfold Client.respond
  split
  · next q queue hqueue =>
      refine h.of_requests_eq ⟨h.printed, h.once, h.own, h.routed⟩ ?_ rfl rfl rfl rfl
        (fun r hr => hr) h.routing
      unfold Client.requests
      rw [hqueue, List.filterMap_append]
      simp [Frame.request]
  · exact h

theorem Inv.broadcast (h : Inv t) (ch data : String) : Inv (t.broadcast ch data) := by
  refine h.of_requests_eq ⟨h.printed, h.once, h.own, h.routed⟩ ?_ rfl rfl rfl rfl
    (fun r hr => hr) h.routing
  unfold Client.requests Client.broadcast
  rw [List.filterMap_append]
  simp [Frame.request]

theorem Inv.step (h : Inv t) {e : Event} (hclear : Clear t e) : Inv (t.step e) := by
  cases e with
  | evalJs sent => exact h.sendCmd .evalJs sent
  | info sent => exact h.sendCmd .info sent
  | clear => exact h.clear
  | reset => exact h.reset hclear
  | silence => exact h.silence
  | send sent => exact h.send sent
  | wake => exact h.wake
  | timeout => exact h.timeout
  | read => exact h.read
  | finish => exact h.finish
  | receive => exact h.receive hclear
  | store => exact h.store
  | set => exact h.set
  | respond body => exact h.respond body
  | broadcast ch data => exact h.broadcast ch data

/-- Where the condition fails, a response is on the way to a call that has not asked for it. -/
theorem Inv.not_served (h : Inv t) {e : Event} (hclear : ¬ Clear t e) : ¬ Served (t.step e) := by
  cases e with
  | receive =>
    simp only [Clear] at hclear
    push Not at hclear
    obtain ⟨r, rest, hreceiver, hinbox, hsilent, hne⟩ := hclear
    intro hserved
    have hrouted := hserved.routed r
    simp only [Client.step, Client.receive, hreceiver, hinbox, hsilent, if_true] at hrouted
    exact hne (hrouted trivial)
  | reset =>
    simp only [Clear] at hclear
    push Not at hclear
    obtain ⟨hcaller, r, hreceiver⟩ := hclear
    intro hserved
    have hrouted := hserved.routed r
    simp only [Client.step, Client.reset, hcaller, hreceiver, Client.request, Option.map_some]
      at hrouted
    have hrequest := Option.some.inj (hrouted trivial)
    have hmem : r.request ∈ t.requests :=
      List.mem_append_left _ (List.mem_map_of_mem (h.routing r hreceiver))
    have hlt := h.fresh r.request hmem
    rw [← hrequest] at hlt
    exact Nat.lt_irrefl _ hlt
  | _ => exact absurd trivial hclear

end

/-! ## Runs -/

/-- For every run of the two threads and the agent: the evaluations get their own responses in all states
    iff every response that comes in while a call waits is that of the call, and none is on the way when
    a call begins. -/
theorem served_iff_clear (events : List Event) :
    (∀ k, Served (run Client.step {} (events.take k))) ↔ Along Client.step Clear {} events :=
  (Along.iff_forall_take_of_breaks (fun _ h => h.toServed) (fun _ _ h => h.step)
    (fun _ _ h => h.not_served) inv_init).symm

/-- A completion is asked for before a slow evaluation is answered. -/
def slowEval : List Event :=
  [.evalJs true, .clear, .reset, .silence, .send true, .respond (.result "42"), .receive, .store, .set,
    .wake, .read, .finish]

/-- The completion gets the result of the evaluation, which is not printed. -/
theorem slowEval_not_served :
    (run Client.step {} slowEval).returned = [(1, some "42")] ∧
      (run Client.step {} slowEval).received = [⟨⟨0, .evalJs⟩, .result "42"⟩] ∧
      (run Client.step {} slowEval).printed = [] ∧
      ¬ ∀ k, Served (run Client.step {} (slowEval.take k)) := by
  have hreceived : (run Client.step {} slowEval).received = [⟨⟨0, .evalJs⟩, .result "42"⟩] := by
    decide
  have hprinted : (run Client.step {} slowEval).printed = [] := by decide
  refine ⟨by decide, hreceived, hprinted, fun h => ?_⟩
  have hsame := (h slowEval.length).printed
  rw [List.take_length, hprinted, hreceived] at hsame
  exact absurd hsame (by decide)

end ArtPi.Cli.Repl