import ArtPi.Lib.Runs
import ArtPi.Net.Send

set_option autoImplicit false

/-! # The threads that share the clients (`src/agent/agent_net.cpp`)

`ServerWorker` accepts clients, reads and answers their requests and gives them up, and any number of
other threads broadcast events. All of them keep descriptors that they have read from `g_clients`, and
use them when `g_clientMutex` is no longer held. Every section that holds the mutex is one step, and so
is every call of `accept4`, `send` and `close`; what `poll`, `recv` and the handler of the requests do
is given with the step.

Descriptors are reused by later clients. The model remembers for each descriptor that a thread keeps
the connection it stood for when it was read, and which connection every `close` was meant for and
which one it hit; no step reads these. -/

namespace ArtPi.Server

open Lib Net

/-- A descriptor, with the connection behind it when a thread read it. -/
structure Target where
  fd : Nat
  conn : Nat
  deriving DecidableEq

/-- A call of `SendFrame` that is not over, and how many bytes of its frame are sent. -/
structure Job where
  target : Target
  payload : List UInt8
  sent : Nat := 0
  deriving DecidableEq

def Job.frame (j : Job) : List UInt8 := frameBytes j.payload

/-- The bytes that the next `send` offers: the rest of the length, or the rest of the payload. -/
def Job.room (j : Job) : Nat := if j.sent < 4 then 4 - j.sent else j.frame.length - j.sent

/-- A call of `BroadcastEvent` on a thread that answers no client. -/
structure Broadcast where
  payload : List UInt8
  targets : List Target
  job : Option Job := none
  failed : List Target := []
  deriving DecidableEq

/-- Where `ServerWorker` is. -/
inductive Phase where
  | polling
  /-- `poll` is called with these descriptors. Once a client is accepted it has answered; the client
      may not be in `g_clients` yet. -/
  | polled (pfds : List Target) (answered : Bool) (accepted : Option Target)
  | closing (fdsToClose requests : List Target)
  /-- the handler runs -/
  | handling (item : Target) (requests : List Target)
  /-- an event of the handler goes to the client itself -/
  | event (job : Job) (item : Target) (requests : List Target)
  | replying (job : Job) (requests : List Target)
  | replyFailed (item : Target) (requests : List Target)
  | stopped
  deriving DecidableEq

structure Agent where
  /-- the connections behind the open descriptors -/
  socket : Nat → Option Nat := fun _ => none
  accepted : Nat := 0
  clients : List Target := []
  phase : Phase := .polling
  broadcasts : List Broadcast := []
  /-- what was sent to each connection -/
  stream : Nat → List UInt8 := fun _ => []
  /-- the calls of `close`: the connection meant, and the one behind the descriptor -/
  closes : List (Nat × Option Nat) := []

/-- What came of one `send` of a job. -/
inductive Progress where
  | going (j : Job)
  | done
  | failed

namespace Agent

variable (s : Agent)

/-- One `send` of `SendFrame`. -/
def send (j : Job) : Send → Agent × Progress
  | .eintr => (s, .going j)
  | .error => (s, .failed)
  | .took n =>
    match s.socket j.target.fd with
    | none => (s, .failed)
    | some c =>
      let w := min n j.room
      if w = 0 then (s, .failed)
      else
        let j' := { j with sent := j.sent + w }
        ({ s with
            stream := Function.update s.stream c (s.stream c ++ (j.frame.drop j.sent).take w) },
          if j'.sent = j.frame.length then .done else .going j')

/-- `close` of a descriptor that was read for a connection. -/
def close (t : Target) : Agent :=
  { s with
    socket := Function.update s.socket t.fd none
    closes := (t.conn, s.socket t.fd) :: s.closes }

/-- The session that `g_clients` finds for a descriptor goes. -/
def drop (fd : Nat) : Agent := { s with clients := s.clients.eraseP (fun t => t.fd = fd) }

/-! ## The server thread -/

/-- The descriptors for the next `poll`, also when it was interrupted. -/
def poll : Agent :=
  match s.phase with
  | .polling | .polled _ false none => { s with phase := .polled s.clients false none }
  | _ => s

/-- `accept4` returns a descriptor that is not open. -/
def accept (fd : Nat) : Agent :=
  match s.phase with
  | .polled pfds _ none =>
    if s.socket fd = none then
      { s with
        socket := Function.update s.socket fd (some s.accepted)
        accepted := s.accepted + 1
        phase := .polled pfds true (some ⟨fd, s.accepted⟩) }
    else s
  | _ => s

/-- The new client gets a session. -/
def push : Agent :=
  match s.phase with
  | .polled pfds answered (some t) =>
    { s with clients := s.clients ++ [t], phase := .polled pfds answered none }
  | _ => s

/-- What the section behind `poll` sees of a descriptor. -/
inductive Revents where
  | quiet
  /-- `poll` answered `POLLERR` or `POLLNVAL`, or `POLLHUP` without `POLLIN` -/
  | hangup
  /-- `POLLIN`: the requests that are complete now, and whether `recv` or a frame ends the session -/
  | input (requests : Nat) (closed : Bool)

/-- The section behind `poll`, from one descriptor of `pfds` on: the clients that are left, the
    descriptors to close, and the requests with the clients they were read from. What `poll` answered
    is about the connection that was polled, what `recv` reads is the session's that is found. -/
def receiveAll (revents : Nat → Revents) :
    List Target → List Target → List Target × List Target × List Target
  | [], clients => (clients, [], [])
  | t :: pfds, clients =>
    match clients.find? (fun c => c.fd = t.fd), revents t.fd with
    | none, _ | some _, .quiet => receiveAll revents pfds clients
    | some _, .hangup =>
      let rest := receiveAll revents pfds (clients.eraseP (fun c => c.fd = t.fd))
      (rest.1, t :: rest.2.1, rest.2.2)
    | some c, .input requests false =>
      let rest := receiveAll revents pfds clients
      (rest.1, rest.2.1, List.replicate requests c ++ rest.2.2)
    | some c, .input requests true =>
      let rest := receiveAll revents pfds (clients.eraseP (fun c => c.fd = t.fd))
      (rest.1, c :: rest.2.1, List.replicate requests c ++ rest.2.2)

def receive (revents : Nat → Revents) : Agent :=
  match s.phase with
  | .polled pfds _ none =>
    let out := receiveAll revents pfds s.clients
    { s with clients := out.1, phase := .closing out.2.1 out.2.2 }
  | _ => s

/-- The next request, or the next `poll`. -/
def nextRequest : List Target → Phase
  | [] => .polling
  | item :: requests => .handling item requests

/-- The next of `fdsToClose` is closed, or the requests begin. -/
def closeNext : Agent :=
  match s.phase with
  | .closing (t :: fdsToClose) requests =>
    { s.close t with phase := .closing fdsToClose requests }
  | .closing [] requests => { s with phase := nextRequest requests }
  | _ => s

/-- `BroadcastEvent` from the handler, up to `SendFrame`. -/
def directEvent (payload : List UInt8) : Agent :=
  match s.phase with
  | .handling item requests =>
    if s.clients.any (fun c => c.fd = item.fd) then
      { s with phase := .event { target := item, payload } item requests }
    else s
  | _ => s

/-- The handler is over; its answer is sent if the descriptor is still in `g_clients`. -/
def reply (payload : List UInt8) : Agent :=
  match s.phase with
  | .handling item requests =>
    if s.clients.any (fun c => c.fd = item.fd) then
      { s with phase := .replying { target := item, payload } requests }
    else { s with phase := nextRequest requests }
  | _ => s

/-- One `send` of the server thread. Nobody looks at what came of a direct event. -/
def serverSend (r : Send) : Agent :=
  match s.phase with
  | .event job item requests =>
    let (s', p) := s.send job r
    { s' with phase := match p with
        | .going job' => .event job' item requests
        | .done | .failed => .handling item requests }
  | .replying job requests =>
    let (s', p) := s.send job r
    { s' with phase := match p with
        | .going job' => .replying job' requests
        | .done => nextRequest requests
        | .failed => .replyFailed job.target requests }
  | _ => s

/-- The section behind a reply that failed. -/
def dropReply : Agent :=
  match s.phase with
  | .replyFailed item requests => { (s.drop item.fd).close item with phase := nextRequest requests }
  | _ => s

/-- The section behind the loop, when the server is stopped or `poll` fails. -/
def stop : Agent :=
  match s.phase with
  | .polling | .polled _ false none =>
    { s.clients.foldl close s with clients := [], phase := .stopped }
  | _ => s

/-! ## Broadcasts -/

/-- `BroadcastEvent` up to its loop. -/
def broadcast (payload : List UInt8) : Agent :=
  { s with broadcasts := s.broadcasts ++ [{ payload, targets := s.clients }] }

def setBroadcast (i : Nat) (b : Broadcast) : Agent := { s with broadcasts := s.broadcasts.set i b }

/-- The next of `targetFds`. -/
def nextTarget (i : Nat) : Agent :=
  match s.broadcasts[i]? with
  | some ⟨payload, t :: targets, none, failed⟩ =>
    s.setBroadcast i ⟨payload, targets, some { target := t, payload }, failed⟩
  | _ => s

/-- One `send` of a broadcast. -/
def broadcastSend (i : Nat) (r : Send) : Agent :=
  match s.broadcasts[i]? with
  | some ⟨payload, targets, some job, failed⟩ =>
    let (s', p) := s.send job r
    s'.setBroadcast i (match p with
      | .going job' => ⟨payload, targets, some job', failed⟩
      | .done => ⟨payload, targets, none, failed⟩
      | .failed => ⟨payload, targets, none, failed ++ [job.target]⟩)
  | _ => s

/-- The descriptors that failed are closed, and the sessions found for them go. -/
def giveUp (failed : List Target) : Agent := failed.foldl (fun s t => (s.drop t.fd).close t) s

/-- The section of a broadcast that closes the descriptors that failed. -/
def cleanup (i : Nat) : Agent :=
  match s.broadcasts[i]? with
  | some ⟨payload, [], none, failed⟩ =>
    (s.giveUp failed).setBroadcast i ⟨payload, [], none, []⟩
  | _ => s

end Agent

inductive Op where
  | poll
  | accept (fd : Nat)
  | push
  | receive (revents : Nat → Agent.Revents)
  | closeNext
  | directEvent (payload : List UInt8)
  | reply (payload : List UInt8)
  | serverSend (r : Send)
  | dropReply
  | stop
  | broadcast (payload : List UInt8)
  | nextTarget (i : Nat)
  | broadcastSend (i : Nat) (r : Send)
  | cleanup (i : Nat)

def step (s : Agent) : Op → Agent
  | .poll => s.poll
  | .accept fd => s.accept fd
  | .push => s.push
  | .receive revents => s.receive revents
  | .closeNext => s.closeNext
  | .directEvent payload => s.directEvent payload
  | .reply payload => s.reply payload
  | .serverSend r => s.serverSend r
  | .dropReply => s.dropReply
  | .stop => s.stop
  | .broadcast payload => s.broadcast payload
  | .nextTarget i => s.nextTarget i
  | .broadcastSend i r => s.broadcastSend i r
  | .cleanup i => s.cleanup i

end ArtPi.Server
