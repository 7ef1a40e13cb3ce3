import ArtPi.Mpack.RoundTrip
import ArtPi.Net.Send

set_option autoImplicit false

/-! # Requests of the client (`cli/injector/repl_client.cpp`, `src/agent/agent_main.cpp`)

Three functions of the client send one request on a connection of their own and wait for the response.
The agent broadcasts its logs to every connection, so events may come in front of the response.
`EvalScript` goes through the frames until it has the response; `EvalOnAgentSync` and `PingFd` take the
first frame for the response, whatever it is. -/

namespace ArtPi.Cli

open Bytes Mpack Net

/-! ## The agent -/

/-- What `HandleClientCommand` asks of the process. -/
structure Process where
  evalJs : List UInt8 → List UInt8
  /-- `getpid` -/
  pid : Int32
  pid_pos : 0 < pid
  /-- what was read from `/proc/<pid>/cmdline`, up to the first NUL -/
  cmdline : List UInt8

def handleClientCommand (p : Process) (req : Value) : Value :=
  let resp := (Value.makeMap.set (ascii "t") (.int 2)).set (ascii "seq")
    (.int (req.getInt (ascii "seq") 0))
  let cmd := req.getString (ascii "cmd") []
  if cmd = ascii "ping" then
    (resp.set (ascii "ok") (.bool true)).set (ascii "data")
      (((Value.makeMap.set (ascii "pong") (.str (ascii "artpi_agent"))).set (ascii "pid")
        (.int p.pid.toInt64)).set (ascii "pkg") (.str p.cmdline))
  else if cmd = ascii "eval" then
    let script := match req.get (ascii "args") with
      | some args => args.getString (ascii "script") []
      | none => []
    (resp.set (ascii "ok") (.bool true)).set (ascii "data")
      (Value.makeMap.set (ascii "result") (.str (p.evalJs script)))
  else
    (resp.set (ascii "ok") (.bool false)).set (ascii "err") (.str (ascii "unknown command: " ++ cmd))

/-- An event on the wire: the text of a `BroadcastLog`, which alone calls `BroadcastEvent`. -/
structure Event where
  channel : List UInt8
  text : List UInt8
  fits : (eventPayload channel (.str text)).length + 4 < 2 ^ 32

def Event.payload (e : Event) : List UInt8 := eventPayload e.channel (.str e.text)

/-- What comes on the connection of a request: events, the response, and what the agent sends then, up
    to where the connection ends. -/
structure Traffic (p : Process) (req : Value) where
  events : List Event
  later : List UInt8
  ends : Nat
  fits : (writeValue (handleClientCommand p req)).length + 4 < 2 ^ 32

namespace Traffic

variable {p : Process} {req : Value} (t : Traffic p req)

def before (events : List Event) : List UInt8 := events.flatMap (fun e => frameBytes e.payload)

/-- All up to the end of the response. -/
def upTo : List UInt8 :=
  before t.events ++ frameBytes (writeValue (handleClientCommand p req))

def stream : List UInt8 := (t.upTo ++ t.later).take t.ends

/-- The response arrives before the connection ends. -/
def Arrives : Prop := t.upTo.length ≤ t.ends

instance : Decidable t.Arrives := inferInstanceAs (Decidable (_ ≤ _))

end Traffic

/-! ## `EvalOnAgentSync` -/

/-- A `poll` with `recv` behind it: at most so many bytes and one more, or an interruption. A timeout or
    an error ends the connection, as the function closes it then. -/
inductive Recv where
  | took (n : Nat)
  | eintr

/-- `RecvExact`; once the answers run out, `recv` returns all it is asked for. -/
def recvExact : List Recv → List UInt8 → Nat → Option (List UInt8 × List Recv × List UInt8)
  | answers, s, 0 => some ([], answers, s)
  | [], s, n + 1 => if s.length < n + 1 then none else some (s.take (n + 1), [], s.drop (n + 1))
  | .eintr :: answers, s, n + 1 => recvExact answers s (n + 1)
  | .took k :: answers, s, n + 1 =>
    if s = [] then none
    else
      let w := min (k + 1) (min (n + 1) s.length)
      (recvExact answers (s.drop w) (n + 1 - w)).map (fun r => (s.take w ++ r.1, r.2))

/-- What the function makes of a frame. -/
def evalAnswer (buf : List UInt8) : List UInt8 :=
  match decodeRequest buf with
  | none => []
  | some frame =>
    match frame.get (ascii "data") with
    | none => []
    | some data => data.getString (ascii "result") []

def evalRequest (seq : Int64) (script : List UInt8) : Value :=
  (((Value.makeMap.set (ascii "t") (.int 1)).set (ascii "seq") (.int seq)).set (ascii "cmd")
    (.str (ascii "eval"))).set (ascii "args")
    (Value.makeMap.set (ascii "script") (.str script))

/-- `EvalOnAgentSync` behind its request; a failure is the empty string. -/
def evalOnAgentSync (answers : List Recv) (s : List UInt8) : List UInt8 :=
  match recvExact answers s 4 with
  | none => []
  | some (lenBE, answers, s) =>
    let len := beNat lenBE
    if len = 0 ∨ len > 8 * 1024 * 1024 then []
    else
      match recvExact answers s len with
      | none => []
      | some (buf, _, _) => evalAnswer buf

/-! ## `PingFd` -/

/-- `recv` with `MSG_WAITALL`, unless a signal cuts it short. -/
def recvAll (interrupted : Bool) (s : List UInt8) (n : Nat) : Option (List UInt8 × List UInt8) :=
  if interrupted ∨ s.length < n then none else some (s.take n, s.drop n)

def pingRequest : Value :=
  ((Value.makeMap.set (ascii "t") (.int 1)).set (ascii "seq") (.int 1)).set (ascii "cmd")
    (.str (ascii "ping"))

def pingAnswer (buf : List UInt8) : Option (Int32 × List UInt8) :=
  match decodeRequest buf with
  | none => none
  | some resp =>
    match resp.get (ascii "data") with
    | none => none
    | some data => some ((data.getInt (ascii "pid") 0).toInt32, data.getString (ascii "pkg") [])

/-- `PingFd` behind its request: `outPid` and `outPkg` if it returns true. -/
def pingFd (interrupted : Bool × Bool) (s : List UInt8) : Option (Int32 × List UInt8) :=
  match recvAll interrupted.1 s 4 with
  | none => none
  | some (lenBE, s) =>
    let len := beNat lenBE
    if len = 0 ∨ len > 65536 then none
    else
      match recvAll interrupted.2 s len with
      | none => none
      | some (buf, _) => pingAnswer buf

/-! ## `EvalScript` -/

/-- One turn of its loop: `poll` says nothing for 20 ms or is interrupted, or `recv` returns at most so
    many bytes and one more. -/
inductive Round where
  | quiet
  | took (n : Nat)

/-- The bytes that a turn asks for. -/
def Round.bytes : Round → Nat
  | .quiet => 0
  | .took n => min (n + 1) 4096

/-- The variables of `EvalScript`, and what it printed. -/
structure Eval where
  gotResp : Bool := false
  success : Bool := false
  outResult : Option (List UInt8) := none
  outErr : List UInt8 := []
  printed : List (List UInt8 × List UInt8) := []

/-- What `EvalScript` does with a frame. -/
def Eval.onFrame (out : Eval) (frame : Value) : Eval :=
  let t := frame.getInt (ascii "t") 0
  if t = 2 then
    if frame.getInt (ascii "seq") 0 = 1 then
      if frame.getBool (ascii "ok") false then
        { out with
          gotResp := true
          success := true
          outResult := some (match frame.get (ascii "data") with
            | some data => data.getString (ascii "result") []
            | none => []) }
      else
        { out with
          gotResp := true
          success := false
          outErr := frame.getString (ascii "err") (ascii "evaluation error") }
    else out
  else if t = 3 then
    let text := match frame.get (ascii "data") with
      | some (.str text) => text
      | _ => []
    { out with printed := out.printed ++ [(frame.getString (ascii "ch") [], text)] }
  else out

/-- The loop over the frames in `rbuf`. The sum `4 + frameLen` has 32 bits; where it wraps around the
    reader is given bytes behind the buffer, and there is no answer. -/
def scan (rbuf : List UInt8) (out : Eval) : Option (List UInt8 × Eval) :=
  if rbuf.length ≥ 4 then
    if 2 ^ 32 ≤ 4 + frameLen rbuf then none
    else if rbuf.length < 4 + frameLen rbuf then some (rbuf, out)
    else
      let out := match decodeRequest ((rbuf.drop 4).take (frameLen rbuf)) with
        | some frame => out.onFrame frame
        | none => out
      if out.gotResp then some (rbuf, out) else scan (rbuf.drop (4 + frameLen rbuf)) out
  else some (rbuf, out)
termination_by rbuf.length
decreasing_by simp only [List.length_drop]; omega

/-- The loop over the turns. -/
def turns : List Round → List UInt8 → List UInt8 → Eval → Option Eval
  | [], _, _, out => some out
  | .quiet :: rounds, s, rbuf, out => turns rounds s rbuf out
  | .took n :: rounds, s, rbuf, out =>
    -- the connection has ended
    if s = [] then some out
    else
      let w := min (n + 1) 4096
      match scan (rbuf ++ s.take w) out with
      | none => none
      | some (rbuf, out) => if out.gotResp then some out else turns rounds (s.drop w) rbuf out

/-- What comes behind the loop. -/
def Eval.finish (out : Eval) : Eval :=
  if !out.gotResp && out.outErr.isEmpty then
    { out with outErr := ascii "Timed out waiting for agent evaluation response" }
  else out

/-- `EvalScript` behind its request: what it returns, and its variables. Turns that are not given are
    quiet. -/
def evalScript (rounds : List Round) (s : List UInt8) : Option (Bool × Eval) :=
  (turns (rounds.take 500) s [] {}).map (fun out => (out.gotResp && out.success, out.finish))

/-! ## Frames that are read back -/

theorem decodeRequest_writeValue {v : Value} (hfit : v.lengthsFit = true) (hbin : v.hasBin = false) :
    decodeRequest (writeValue v) = some v.norm := by
  have hread : (readValue ⟨writeValue v, 0⟩).1 = .ok v.norm :=
    congrArg Prod.fst ((roundTrips_iff v hfit).mpr hbin)
  rw [decodeRequest, hread]

/-- The value of an event. -/
def Event.value (e : Event) : Value :=
  .map [(ascii "t", .int 3), (ascii "ch", .str e.channel), (ascii "data", .str e.text)]

theorem Event.payload_eq (e : Event) : e.payload = writeValue e.value := rfl

theorem Event.decode (e : Event) : decodeRequest e.payload = some e.value := by
  have hfits := e.fits
  have hlen : e.channel.length + e.text.length ≤ e.payload.length := by
    rw [e.payload_eq]
    simp only [Event.value, writeValue, writeEntries, writeString, List.length_append]
    omega
  have hpayload : e.payload.length + 4 < 2 ^ 32 := hfits
  rw [e.payload_eq, decodeRequest_writeValue (v := e.value)]
  · rfl
  · simp only [Event.value, Value.lengthsFit, lengthsFitEntries, Bool.and_eq_true, decide_eq_true_eq]
    refine ⟨by simp, by decide, trivial, by decide, by omega, by decide, by omega, trivial⟩
  · rfl

/-- The response to a script. -/
def evalReply (seq : Int64) (result : List UInt8) : Value :=
  .map [(ascii "t", .int 2), (ascii "seq", .int seq), (ascii "ok", .bool true),
    (ascii "data", .map [(ascii "result", .str result)])]

theorem handle_evalRequest (p : Process) (seq : Int64) (script : List UInt8) :
    handleClientCommand p (evalRequest seq script) = evalReply seq (p.evalJs script) := rfl

/-- The response to a ping. -/
def pingReply (pid : Int64) (pkg : List UInt8) : Value :=
  .map [(ascii "t", .int 2), (ascii "seq", .int 1), (ascii "ok", .bool true),
    (ascii "data", .map [(ascii "pong", .str (ascii "artpi_agent")), (ascii "pid", .int pid),
      (ascii "pkg", .str pkg)])]

theorem handle_pingRequest (p : Process) :
    handleClientCommand p pingRequest = pingReply p.pid.toInt64 p.cmdline := rfl

theorem decode_evalReply {seq : Int64} {result : List UInt8}
    (hfits : (writeValue (evalReply seq result)).length + 4 < 2 ^ 32) :
    decodeRequest (writeValue (evalReply seq result)) = some (evalReply seq result) := by
  have hlen : result.length ≤ (writeValue (evalReply seq result)).length := by
    simp only [evalReply, writeValue, writeEntries, writeString, List.length_append]
    omega
  rw [decodeRequest_writeValue]
  · rfl
  · simp only [evalReply, Value.lengthsFit, lengthsFitEntries, Bool.and_eq_true, decide_eq_true_eq]
    refine ⟨by simp, by decide, trivial, by decide, trivial, by decide, trivial, by decide,
      ⟨by simp, by decide, by omega, trivial⟩, trivial⟩
  · rfl

theorem decode_pingReply {pid : Int64} {pkg : List UInt8}
    (hfits : (writeValue (pingReply pid pkg)).length + 4 < 2 ^ 32) :
    decodeRequest (writeValue (pingReply pid pkg)) = some (pingReply pid pkg) := by
  have hlen : pkg.length ≤ (writeValue (pingReply pid pkg)).length := by
    simp only [pingReply, writeValue, writeEntries, writeString, List.length_append]
    omega
  rw [decodeRequest_writeValue]
  · rfl
  · simp only [pingReply, Value.lengthsFit, lengthsFitEntries, Bool.and_eq_true, decide_eq_true_eq]
    refine ⟨by simp, by decide, trivial, by decide, trivial, by decide, trivial, by decide,
      ⟨by simp, by decide, by decide, by decide, trivial, by decide, by omega, trivial⟩, trivial⟩
  · rfl

/-! ## The first frame -/

/-- `RecvExact` reads what it is asked for exactly if so much comes. -/
theorem recvExact_eq (answers : List Recv) :
    ∀ (s : List UInt8) (n : Nat),
      (n ≤ s.length → ∃ answers', recvExact answers s n = some (s.take n, answers', s.drop n)) ∧
        (s.length < n → recvExact answers s n = none) := by
  induction answers with
  | nil =>
    intro s n
    cases n with
    | zero => exact ⟨fun _ => ⟨[], by simp [recvExact]⟩, fun h => absurd h (Nat.not_lt_zero _)⟩
    | succ n =>
      simp only [recvExact]
      exact ⟨fun h => ⟨[], if_neg (Nat.not_lt.mpr h)⟩, fun h => if_pos h⟩
  | cons a answers ih =>
    intro s n
    cases n with
    | zero =>
      exact ⟨fun _ => ⟨a :: answers, by simp [recvExact]⟩, fun h => absurd h (Nat.not_lt_zero _)⟩
    | succ n =>
      cases a with
      | eintr => exact ih s (n + 1)
      | took k =>
        simp only [recvExact]
        by_cases hs : s = []
        · subst hs
          exact ⟨fun h => absurd h (by simp), fun _ => if_pos rfl⟩
        · have hpos : 0 < s.length := List.length_pos_iff.mpr hs
          have hw : min (k + 1) (min (n + 1) s.length) ≤ n + 1 ∧
              min (k + 1) (min (n + 1) s.length) ≤ s.length := by omega
          obtain ⟨hread, hends⟩ := ih (s.drop (min (k + 1) (min (n + 1) s.length)))
            (n + 1 - min (k + 1) (min (n + 1) s.length))
          rw [List.length_drop] at hread hends
          rw [if_neg hs]
          refine ⟨fun h => ?_, fun h => ?_⟩
          · obtain ⟨answers', hrest⟩ := hread (by omega)
            refine ⟨answers', ?_⟩
            rw [hrest, Option.map_some, ← List.take_add, List.drop_drop,
              Nat.add_sub_cancel' hw.1]
          · rw [hends (by omega), Option.map_none]

/-- The bytes of a first frame, as far as they come. -/
structure FirstFrame (s body : List UInt8) (ends : Nat) : Prop where
  pos : 0 < body.length
  small : body.length < 2 ^ 32
  eq : ∃ more, s = (frameBytes body ++ more).take ends
  length : ends < 4 + body.length → s.length = ends

theorem FirstFrame.header {s body : List UInt8} {ends : Nat} (h : FirstFrame s body ends)
    (hfour : 4 ≤ s.length) : beNat (s.take 4) = body.length ∧ 4 ≤ ends := by
  obtain ⟨more, rfl⟩ := h.eq
  rw [List.length_take] at hfour
  have hends : 4 ≤ ends := by omega
  rw [List.take_take, Nat.min_eq_left hends]
  exact ⟨frameLen_frameBytes h.small more, hends⟩

theorem FirstFrame.body {s body : List UInt8} {ends : Nat} (h : FirstFrame s body ends)
    (hends : 4 + body.length ≤ ends) :
    4 + body.length ≤ s.length ∧ (s.drop 4).take body.length = body := by
  obtain ⟨more, rfl⟩ := h.eq
  have hlen : (frameBytes body).length = 4 + body.length := length_frameBytes body
  refine ⟨?_, ?_⟩
  · rw [List.length_take, List.length_append]
    omega
  · rw [List.drop_take, List.take_take, Nat.min_eq_left (by omega), frameBytes, List.append_assoc,
      List.drop_left' (length_beBytes _ _), List.take_left]

/-- `EvalOnAgentSync` takes the first frame for the response. -/
theorem evalOnAgentSync_first {s body : List UInt8} {ends : Nat} (h : FirstFrame s body ends)
    (answers : List Recv) :
    evalOnAgentSync answers s =
      if 4 + body.length ≤ ends ∧ body.length ≤ 8 * 1024 * 1024 then evalAnswer body else [] := by
  unfold evalOnAgentSync
  by_cases hfour : 4 ≤ s.length
  · obtain ⟨answers', hread⟩ := (recvExact_eq answers s 4).1 hfour
    obtain ⟨hheader, hends⟩ := h.header hfour
    simp only [hread, hheader, Nat.ne_of_gt h.pos, false_or]
    by_cases hbig : body.length > 8 * 1024 * 1024
    · rw [if_pos hbig, if_neg (fun hand => absurd hand.2 (Nat.not_le.mpr hbig))]
    · rw [if_neg hbig]
      have hdrop : (s.drop 4).length = s.length - 4 := List.length_drop
      by_cases hall : 4 + body.length ≤ ends
      · obtain ⟨hlen, hbody⟩ := h.body hall
        obtain ⟨answers'', hread'⟩ := (recvExact_eq answers' (s.drop 4) body.length).1 (by omega)
        rw [if_pos ⟨hall, Nat.not_lt.mp hbig⟩, hread', hbody]
      · have hlen := h.length (Nat.not_le.mp hall)
        rw [if_neg (fun hand => hall hand.1),
          (recvExact_eq answers' (s.drop 4) body.length).2 (by omega)]
  · rw [(recvExact_eq answers s 4).2 (Nat.not_le.mp hfour), if_neg]
    intro hand
    exact hfour (Nat.le_trans (Nat.le_add_right _ _) (h.body hand.1).1)

/-- So does `PingFd`. -/
theorem pingFd_first {s body : List UInt8} {ends : Nat} (h : FirstFrame s body ends)
    (interrupted : Bool × Bool) :
    pingFd interrupted s =
      if 4 + body.length ≤ ends ∧ body.length ≤ 65536 ∧ interrupted = (false, false) then
        pingAnswer body
      else none := by
  obtain ⟨i1, i2⟩ := interrupted
  unfold pingFd recvAll
  by_cases hfour : s.length < 4
  · rw [if_pos (.inr hfour), if_neg]
    intro hand
    have := (h.body hand.1).1
    omega
  · obtain ⟨hheader, hends⟩ := h.header (Nat.not_lt.mp hfour)
    have hdrop : (s.drop 4).length = s.length - 4 := List.length_drop
    cases i1 with
    | true => simp
    | false =>
      simp only [hfour, or_self, if_false, hheader, Nat.ne_of_gt h.pos, false_or, Bool.false_eq_true]
      by_cases hbig : body.length > 65536
      · rw [if_pos hbig, if_neg (fun hand => absurd hand.2.1 (Nat.not_le.mpr hbig))]
      · rw [if_neg hbig]
        by_cases hall : 4 + body.length ≤ ends
        · obtain ⟨hlen, hbody⟩ := h.body hall
          cases i2 with
          | true => simp
          | false =>
            rw [if_neg (by simp; omega), if_pos ⟨hall, Nat.not_lt.mp hbig, rfl⟩, hbody]
        · have hlen := h.length (Nat.not_le.mp hall)
          rw [if_pos (.inr (by omega)), if_neg (fun hand => hall hand.1)]

/-! ## The traffic of a connection -/

section

variable {p : Process} {req : Value} (t : Traffic p req)

theorem Event.length_payload (e : Event) : 0 < e.payload.length ∧ e.payload.length < 2 ^ 32 := by
  have hfits : e.payload.length + 4 < 2 ^ 32 := e.fits
  exact ⟨writeValue_pos e.value, by omega⟩

/-- What the client takes for the response. -/
def Traffic.first : List UInt8 :=
  match t.events with
  | [] => writeValue (handleClientCommand p req)
  | e :: _ => e.payload

theorem Traffic.firstFrame : FirstFrame t.stream t.first t.ends := by
  have hfits := t.fits
  -- the frame is not the last of the traffic that is there
  have hlong : ∀ {body more : List UInt8}, t.upTo ++ t.later = frameBytes body ++ more →
      t.ends < 4 + body.length → t.stream.length = t.ends := by
    intro body more heq hlt
    have hlen : (frameBytes body).length = 4 + body.length := length_frameBytes body
    rw [Traffic.stream, heq, List.length_take, List.length_append]
    omega
  unfold Traffic.first
  cases hevents : t.events with
  | nil =>
    have heq : t.upTo ++ t.later = frameBytes (writeValue (handleClientCommand p req)) ++ t.later := by
      simp [Traffic.upTo, Traffic.before, hevents]
    refine ⟨writeValue_pos _, Nat.lt_of_le_of_lt (Nat.le_add_right _ 4) hfits, ⟨t.later, ?_⟩,
      hlong heq⟩
    rw [Traffic.stream, heq]
  | cons e events =>
    obtain ⟨more, heq⟩ : ∃ more, t.upTo ++ t.later = frameBytes e.payload ++ more :=
      ⟨Traffic.before events ++ (frameBytes (writeValue (handleClientCommand p req)) ++ t.later), by
        simp [Traffic.upTo, Traffic.before, hevents]⟩
    refine ⟨e.length_payload.1, e.length_payload.2, ⟨more, ?_⟩, hlong heq⟩
    rw [Traffic.stream, heq]

/-- Where no event is in front of it, the response arrives with the first frame. -/
theorem Traffic.arrives_iff (h : t.events = []) :
    t.Arrives ↔ 4 + (writeValue (handleClientCommand p req)).length ≤ t.ends := by
  have hlen := length_frameBytes (writeValue (handleClientCommand p req))
  simp only [Traffic.Arrives, Traffic.upTo, h, Traffic.before, List.flatMap_nil, List.nil_append]
  rw [hlen]

end

/-! ## What the functions return -/

/-- `EvalOnAgentSync` returns the result if the response arrives, and the empty string if not. -/
def SyncServed {p : Process} {script : List UInt8} (t : Traffic p (evalRequest 0 script))
    (answers : List Recv) : Prop :=
  evalOnAgentSync answers t.stream = if t.Arrives then p.evalJs script else []

/-- `PingFd` returns true exactly if the response arrives, with what it holds. -/
def PingServed {p : Process} (t : Traffic p pingRequest) (interrupted : Bool × Bool) : Prop :=
  pingFd interrupted t.stream = if t.Arrives then some (p.pid, p.cmdline) else none

/-- `EvalScript` returns true exactly if the response arrives, with the result. -/
def ScriptServed {p : Process} {script : List UInt8} (t : Traffic p (evalRequest 1 script))
    (rounds : List Round) : Prop :=
  ∃ ret out, evalScript rounds t.stream = some (ret, out) ∧
    (ret = true ↔ t.Arrives) ∧ (ret = true → out.outResult = some (p.evalJs script))

/-- The response is the first frame and not too long, or it would be no different from a failure. -/
def SyncHears {p : Process} {script : List UInt8} (t : Traffic p (evalRequest 0 script)) : Prop :=
  t.Arrives → p.evalJs script = [] ∨
    (t.events = [] ∧
      (writeValue (handleClientCommand p (evalRequest 0 script))).length ≤ 8 * 1024 * 1024)

/-- A frame that `PingFd` reads in whole. -/
def PingReads (len ends : Nat) (interrupted : Bool × Bool) : Prop :=
  4 + len ≤ ends ∧ len ≤ 65536 ∧ interrupted = (false, false)

instance (len ends : Nat) (interrupted : Bool × Bool) : Decidable (PingReads len ends interrupted) :=
  inferInstanceAs (Decidable (_ ∧ _ ∧ _))

/-- The response is the first frame if it arrives, and the first frame is not read if not. -/
def PingHears {p : Process} (t : Traffic p pingRequest) (interrupted : Bool × Bool) : Prop :=
  (t.Arrives → t.events = [] ∧ PingReads t.first.length t.ends interrupted) ∧
    (¬ t.Arrives → t.events ≠ [] → ¬ PingReads t.first.length t.ends interrupted)

/-- The first 500 turns bring the response. -/
def ScriptHears {p : Process} {script : List UInt8} (t : Traffic p (evalRequest 1 script))
    (rounds : List Round) : Prop :=
  t.Arrives → t.upTo.length ≤ ((rounds.take 500).map Round.bytes).sum

/-! ## The first frame is the response or an event -/

theorem evalAnswer_event (e : Event) : evalAnswer e.payload = [] := by
  rw [evalAnswer, e.decode]
  rfl

theorem pingAnswer_event (e : Event) : pingAnswer e.payload = some (0, []) := by
  rw [pingAnswer, e.decode]
  rfl

theorem syncServed_iff {p : Process} {script : List UInt8} (t : Traffic p (evalRequest 0 script))
    (answers : List Recv) : SyncServed t answers ↔ SyncHears t := by
  have hfits := t.fits
  rw [handle_evalRequest] at hfits
  have hreply : evalAnswer (writeValue (handleClientCommand p (evalRequest 0 script))) =
      p.evalJs script := by
    rw [handle_evalRequest, evalAnswer, decode_evalReply hfits]
    rfl
  unfold SyncServed SyncHears
  rw [evalOnAgentSync_first t.firstFrame answers]
  cases hevents : t.events with
  | nil =>
    have harr := t.arrives_iff hevents
    simp only [Traffic.first, hevents, hreply]
    by_cases ha : t.Arrives
    · rw [if_pos ha]
      by_cases hbig : (writeValue (handleClientCommand p (evalRequest 0 script))).length ≤
          8 * 1024 * 1024
      · rw [if_pos ⟨harr.mp ha, hbig⟩]
        exact ⟨fun _ _ => .inr ⟨trivial, hbig⟩, fun _ => rfl⟩
      · rw [if_neg (fun h => hbig h.2)]
        exact ⟨fun h _ => .inl h.symm, fun h => (h ha).elim Eq.symm (fun h => absurd h.2 hbig)⟩
    · rw [if_neg ha, if_neg (fun h => ha (harr.mpr h.1))]
      exact ⟨fun _ h => absurd h ha, fun _ => rfl⟩
  | cons e events =>
    simp only [Traffic.first, hevents, evalAnswer_event, ite_self]
    by_cases ha : t.Arrives
    · rw [if_pos ha]
      exact ⟨fun h _ => .inl h.symm, fun h => (h ha).elim Eq.symm (fun h => absurd h.1 (by simp))⟩
    · rw [if_neg ha]
      exact ⟨fun _ h => absurd h ha, fun _ => rfl⟩

theorem pingServed_iff {p : Process} (t : Traffic p pingRequest) (interrupted : Bool × Bool) :
    PingServed t interrupted ↔ PingHears t interrupted := by
  have hfits := t.fits
  rw [handle_pingRequest] at hfits
  have hreply : pingAnswer (writeValue (handleClientCommand p pingRequest)) =
      some (p.pid, p.cmdline) := by
    have hpid : (pingReply p.pid.toInt64 p.cmdline).get (ascii "data") =
        some (.map [(ascii "pong", .str (ascii "artpi_agent")), (ascii "pid", .int p.pid.toInt64),
          (ascii "pkg", .str p.cmdline)]) := rfl
    rw [handle_pingRequest, pingAnswer, decode_pingReply hfits]
    simp only [hpid]
    exact congrArg (fun pid => some (pid, p.cmdline)) (Int32.toInt32_toInt64 p.pid)
  have hpid : p.pid ≠ 0 := fun h => absurd p.pid_pos (by rw [h]; decide)
  have hfirst : pingFd interrupted t.stream =
      if PingReads t.first.length t.ends interrupted then pingAnswer t.first else none :=
    pingFd_first t.firstFrame interrupted
  unfold PingServed PingHears
  rw [hfirst]
  cases hevents : t.events with
  | nil =>
    have harr := t.arrives_iff hevents
    have hresp : t.first = writeValue (handleClientCommand p pingRequest) := by
      rw [Traffic.first, hevents]
    by_cases ha : t.Arrives
    · rw [if_pos ha]
      by_cases hreads : PingReads t.first.length t.ends interrupted
      · rw [if_pos hreads, hresp, hreply]
        exact ⟨fun _ => ⟨fun _ => ⟨rfl, hresp ▸ hreads⟩, fun h => absurd ha h⟩, fun _ => rfl⟩
      · rw [if_neg hreads]
        exact ⟨fun h => absurd h (by simp), fun h => absurd (h.1 ha).2 hreads⟩
    · rw [if_neg ha, if_neg (fun h => ha (harr.mpr (hresp ▸ h.1)))]
      exact ⟨fun _ => ⟨fun h => absurd h ha, fun _ h => absurd rfl h⟩, fun _ => rfl⟩
  | cons e events =>
    have hevent : t.first = e.payload := by rw [Traffic.first, hevents]
    by_cases hreads : PingReads t.first.length t.ends interrupted
    · -- the event is taken for a response without a process
      rw [if_pos hreads, hevent, pingAnswer_event]
      constructor
      · intro h
        split at h
        · exact absurd (Prod.mk.inj (Option.some.inj h)).1.symm hpid
        · exact absurd h (by simp)
      · rintro ⟨harr, hnot⟩
        by_cases ha : t.Arrives
        · exact absurd (harr ha).1 (by simp)
        · exact absurd (hevent ▸ hreads) (hnot ha (by simp))
    · rw [if_neg hreads]
      by_cases ha : t.Arrives
      · rw [if_pos ha]
        exact ⟨fun h => absurd h (by simp), fun h => absurd (h.1 ha).1 (by simp)⟩
      · rw [if_neg ha]
        exact ⟨fun _ => ⟨fun h => absurd h ha, fun _ _ => hreads⟩, fun _ => rfl⟩

/-! ## `EvalScript` goes through the frames -/

section

variable {reply later rbuf rest q more : List UInt8} {v : Value}

/-- The loop over the frames, where a frame is at the front of the buffer or coming. -/
theorem scan_eq (h : rbuf ++ rest = frameBytes q ++ more) (hq : q.length + 4 < 2 ^ 32) {v : Value}
    (hv : decodeRequest q = some v) (out : Eval) :
    (rbuf.length < 4 + q.length → scan rbuf out = some (rbuf, out)) ∧
      (4 + q.length ≤ rbuf.length → rbuf.drop (4 + q.length) ++ rest = more ∧
        scan rbuf out = if (out.onFrame v).gotResp then some (rbuf, out.onFrame v)
          else scan (rbuf.drop (4 + q.length)) (out.onFrame v)) := by
  have hframe : (frameBytes q).length = 4 + q.length := length_frameBytes q
  have hheader : 4 ≤ rbuf.length → frameLen rbuf = q.length := by
    intro hfour
    rw [← frameLen_frameBytes (show q.length < 2 ^ 32 by omega) more, ← h, frameLen_append hfour]
  rw [scan]
  refine ⟨fun hshort => ?_, fun hlong => ?_⟩
  · by_cases hfour : rbuf.length ≥ 4
    · rw [if_pos hfour, hheader hfour, if_neg (by omega), if_pos hshort]
    · rw [if_neg hfour]
  · have hfour : rbuf.length ≥ 4 := Nat.le_trans (Nat.le_add_right _ _) hlong
    have hbuf : rbuf = frameBytes q ++ rbuf.drop (4 + q.length) := by
      have htake : rbuf.take (4 + q.length) = frameBytes q := by
        have hfront : (rbuf ++ rest).take (4 + q.length) = rbuf.take (4 + q.length) :=
          List.take_append_of_le_length hlong
        rw [← hfront, h, ← hframe, List.take_left]
      rw [← htake, List.take_append_drop]
    have hbody : (rbuf.drop 4).take q.length = q := by
      rw [hbuf, frameBytes, List.append_assoc, List.drop_left' (length_beBytes _ _), List.take_left]
    refine ⟨?_, ?_⟩
    · rw [hbuf, List.append_assoc] at h
      exact List.append_cancel_left h
    · rw [if_pos hfour, hheader hfour, if_neg (by omega), if_neg (by omega), hbody, hv]

theorem length_before_cons (e : Event) (events : List Event) :
    (Traffic.before (e :: events)).length = 4 + e.payload.length + (Traffic.before events).length := by
  have hlen : (frameBytes e.payload).length = 4 + e.payload.length := length_frameBytes e.payload
  simp only [Traffic.before, List.flatMap_cons, List.length_append]
  rw [hlen]

/-- The loop stops with the response, or has come to a frame that is not all there. -/
theorem scan_spec (hv : decodeRequest reply = some v) (hsmall : reply.length + 4 < 2 ^ 32)
    (hgot : ∀ out : Eval, (out.onFrame v).gotResp = true) (events : List Event) :
    ∀ {rbuf : List UInt8} {out : Eval}, out.gotResp = false →
      rbuf ++ rest = Traffic.before events ++ (frameBytes reply ++ later) →
      ((Traffic.before events).length + (4 + reply.length) ≤ rbuf.length ∧
        ∃ (rbuf' : List UInt8) (out' : Eval), scan rbuf out = some (rbuf', out'.onFrame v)) ∨
      (rbuf.length < (Traffic.before events).length + (4 + reply.length) ∧
        ∃ rbuf' out' events', scan rbuf out = some (rbuf', out') ∧ out'.gotResp = false ∧
          rbuf' ++ rest = Traffic.before events' ++ (frameBytes reply ++ later) ∧
          rbuf'.length + (Traffic.before events).length =
            rbuf.length + (Traffic.before events').length) := by
  induction events with
  | nil =>
    intro rbuf out hout h
    obtain ⟨hshort, hlong⟩ := scan_eq h hsmall hv out
    simp only [Traffic.before, List.flatMap_nil, List.length_nil, Nat.zero_add]
    by_cases hlen : rbuf.length < 4 + reply.length
    · exact .inr ⟨hlen, rbuf, out, [], hshort hlen, hout, h, rfl⟩
    · obtain ⟨-, hscan⟩ := hlong (Nat.not_lt.mp hlen)
      exact .inl ⟨Nat.not_lt.mp hlen, rbuf, out, by rw [hscan, if_pos (hgot out)]⟩
  | cons e events ih =>
    intro rbuf out hout h
    have hcons : rbuf ++ rest = frameBytes e.payload ++
        (Traffic.before events ++ (frameBytes reply ++ later)) := by
      rw [h]
      simp [Traffic.before]
    obtain ⟨hshort, hlong⟩ := scan_eq hcons e.fits e.decode out
    rw [length_before_cons]
    by_cases hlen : rbuf.length < 4 + e.payload.length
    · exact .inr ⟨by omega, rbuf, out, e :: events, hshort hlen, hout, h, by
        rw [length_before_cons]⟩
    · obtain ⟨hrest, hscan⟩ := hlong (Nat.not_lt.mp hlen)
      have hout' : (out.onFrame e.value).gotResp = false := hout
      rw [if_neg (by simp [hout'])] at hscan
      have hdrop : (rbuf.drop (4 + e.payload.length)).length =
          rbuf.length - (4 + e.payload.length) := List.length_drop
      rcases ih hout' hrest with ⟨hle, rbuf', out', hscan'⟩ |
        ⟨hlt, rbuf', out', events', hscan', hrest'⟩
      · exact .inl ⟨by omega, rbuf', out', hscan.trans hscan'⟩
      · exact .inr ⟨by omega, rbuf', out', events', hscan.trans hscan', hrest'.1, hrest'.2.1, by
          have := hrest'.2.2
          omega⟩

/-- The turns bring the response exactly if it is among the bytes that they ask for. -/
theorem turns_spec (hv : decodeRequest reply = some v) (hsmall : reply.length + 4 < 2 ^ 32)
    (hgot : ∀ out : Eval, (out.onFrame v).gotResp = true) (rounds : List Round) :
    ∀ {s missing rbuf : List UInt8} {out : Eval} {events : List Event}, out.gotResp = false →
      rbuf ++ (s ++ missing) = Traffic.before events ++ (frameBytes reply ++ later) →
      rbuf.length < (Traffic.before events).length + (4 + reply.length) →
      ∃ out', turns rounds s rbuf out = some out' ∧
        ((Traffic.before events).length + (4 + reply.length) ≤
            rbuf.length + min s.length (rounds.map Round.bytes).sum →
          ∃ out'' : Eval, out' = out''.onFrame v) ∧
        (rbuf.length + min s.length (rounds.map Round.bytes).sum <
            (Traffic.before events).length + (4 + reply.length) → out'.gotResp = false) := by
  induction rounds with
  | nil =>
    intro s missing rbuf out events hout h hlt
    refine ⟨out, rfl, fun hle => ?_, fun _ => hout⟩
    simp only [List.map_nil, List.sum_nil, Nat.min_zero] at hle
    omega
  | cons round rounds ih =>
    intro s missing rbuf out events hout h hlt
    cases round with
    | quiet =>
      obtain ⟨out', hturns, hspec⟩ := ih hout h hlt
      refine ⟨out', hturns, ?_⟩
      simpa [Round.bytes] using hspec
    | took n =>
      simp only [turns, List.map_cons, List.sum_cons, Round.bytes]
      by_cases hs : s = []
      · subst hs
        rw [if_pos rfl]
        refine ⟨out, rfl, fun hle => ?_, fun _ => hout⟩
        simp only [List.length_nil, Nat.zero_min] at hle
        omega
      · rw [if_neg hs]
        generalize hw : min (n + 1) 4096 = w
        have hmore : (rbuf ++ s.take w) ++ (s.drop w ++ missing) =
            Traffic.before events ++ (frameBytes reply ++ later) := by
          rw [← h, List.append_assoc, ← List.append_assoc (s.take w), List.take_append_drop]
        have hlen : (rbuf ++ s.take w).length = rbuf.length + min w s.length := by
          rw [List.length_append, List.length_take]
        have hdrop : (s.drop w).length = s.length - w := List.length_drop
        rcases scan_spec hv hsmall hgot events hout hmore with
          ⟨hle, rbuf', out', hscan⟩ | ⟨hlt', rbuf', out', events', hscan, hout', hrest, hcount⟩
        · simp only [hscan, hgot, if_true]
          refine ⟨out'.onFrame v, rfl, fun _ => ⟨out', rfl⟩, fun hnot => ?_⟩
          omega
        · obtain ⟨out'', hturns, hresp, hnone⟩ := ih hout' hrest (by omega)
          simp only [hscan, hout', Bool.false_eq_true, if_false]
          exact ⟨out'', hturns, fun hle => hresp (by omega), fun hnot => hnone (by omega)⟩

end

theorem scriptServed_iff {p : Process} {script : List UInt8} (t : Traffic p (evalRequest 1 script))
    (rounds : List Round) : ScriptServed t rounds ↔ ScriptHears t rounds := by
  have hfits := t.fits
  rw [handle_evalRequest] at hfits
  have hgot : ∀ out : Eval, out.onFrame (evalReply 1 (p.evalJs script)) =
      { out with gotResp := true, success := true, outResult := some (p.evalJs script) } :=
    fun _ => rfl
  have hall : [] ++ (t.stream ++ (t.upTo ++ t.later).drop t.ends) =
      Traffic.before t.events ++
        (frameBytes (writeValue (evalReply 1 (p.evalJs script))) ++ t.later) := by
    rw [List.nil_append, Traffic.stream, List.take_append_drop, Traffic.upTo, List.append_assoc,
      handle_evalRequest]
  have hupTo : t.upTo.length = (Traffic.before t.events).length +
      (4 + (writeValue (evalReply 1 (p.evalJs script))).length) := by
    have hlen := length_frameBytes (writeValue (evalReply 1 (p.evalJs script)))
    rw [Traffic.upTo, List.length_append, handle_evalRequest, hlen]
  have hstream : t.stream.length = min t.ends (t.upTo.length + t.later.length) := by
    rw [Traffic.stream, List.length_take, List.length_append]
  obtain ⟨out, hturns, hresp, hnone⟩ := turns_spec (decode_evalReply hfits) hfits
    (fun out => by rw [hgot]) (rounds.take 500) (show ({} : Eval).gotResp = false from rfl) hall
    (by rw [List.length_nil]; omega)
  rw [← hupTo, List.length_nil, Nat.zero_add] at hresp hnone
  have hret : evalScript rounds t.stream = some (out.gotResp && out.success, out.finish) := by
    rw [evalScript, hturns, Option.map_some]
  unfold ScriptServed ScriptHears Traffic.Arrives
  rw [hret]
  by_cases hcome : t.upTo.length ≤ min t.stream.length ((rounds.take 500).map Round.bytes).sum
  · obtain ⟨out', rfl⟩ := hresp hcome
    rw [hgot]
    refine ⟨fun _ _ => by omega, fun _ => ⟨true, _, rfl, ?_, fun _ => rfl⟩⟩
    exact ⟨fun _ => by omega, fun _ => rfl⟩
  · rw [hnone (Nat.not_le.mp hcome), Bool.false_and]
    constructor
    · rintro ⟨ret, out', hout, hiff, -⟩ harr
      rw [← (Prod.mk.inj (Option.some.inj hout)).1] at hiff
      exact absurd (hiff.mpr harr) (by simp)
    · intro hhears
      refine ⟨false, _, rfl, ⟨fun h => absurd h (by simp), fun harr => ?_⟩, fun h => absurd h (by simp)⟩
      have hsum := hhears harr
      omega

/-- When a request gets its own response: for `EvalOnAgentSync` and `PingFd` no event is in front of it,
    for `EvalScript` its turns are enough. -/
theorem requests_served_iff (p : Process) (script : List UInt8)
    (sync : Traffic p (evalRequest 0 script)) (answers : List Recv)
    (ping : Traffic p pingRequest) (interrupted : Bool × Bool)
    (eval : Traffic p (evalRequest 1 script)) (rounds : List Round) :
    (SyncServed sync answers ↔ SyncHears sync) ∧
      (PingServed ping interrupted ↔ PingHears ping interrupted) ∧
      (ScriptServed eval rounds ↔ ScriptHears eval rounds) :=
  ⟨syncServed_iff sync answers, pingServed_iff ping interrupted, scriptServed_iff eval rounds⟩

/-- A process that evaluates every script to `2`. -/
def two : Process := ⟨fun _ => ascii "2", 7, by decide, ascii "app"⟩

set_option maxRecDepth 8192 in
/-- A log comes in front of the response. -/
def logged (req : Value) (h : (writeValue (handleClientCommand two req)).length + 4 < 2 ^ 32) :
    Traffic two req :=
  ⟨[⟨ascii "log", List.replicate 500 0x2e, by decide⟩], [], 1000, h⟩

def loggedSync : Traffic two (evalRequest 0 (ascii "1+1")) := logged _ (by decide)

def loggedPing : Traffic two pingRequest := logged _ (by decide)

def loggedScript : Traffic two (evalRequest 1 (ascii "1+1")) := logged _ (by decide)

set_option maxRecDepth 8192 in
/-- `EvalOnAgentSync` returns nothing, `PingFd` a process without a number, and `EvalScript` has used
    up its turns on the log if every one of them brings a byte. -/
theorem not_served :
    (loggedSync.Arrives ∧ evalOnAgentSync [] loggedSync.stream = [] ∧ ¬ SyncServed loggedSync []) ∧
      (loggedPing.Arrives ∧ pingFd (false, false) loggedPing.stream = some (0, []) ∧
        ¬ PingServed loggedPing (false, false)) ∧
      (loggedScript.Arrives ∧ ¬ ScriptServed loggedScript (List.replicate 1000 (.took 0))) := by
  have hsync : loggedSync.Arrives := by decide
  have hping : loggedPing.Arrives := by decide
  have hscript : loggedScript.Arrives := by decide
  have hnothing : evalOnAgentSync [] loggedSync.stream = [] := by
    have hevent : evalAnswer loggedSync.first = [] := evalAnswer_event _
    rw [evalOnAgentSync_first loggedSync.firstFrame, hevent, ite_self]
  have hnobody : pingFd (false, false) loggedPing.stream = some (0, []) := by
    rw [pingFd_first loggedPing.firstFrame, if_pos (by decide)]
    exact pingAnswer_event _
  refine ⟨⟨hsync, hnothing, fun h => ?_⟩, ⟨hping, hnobody, fun h => ?_⟩, hscript, fun h => ?_⟩
  · rw [SyncServed, hnothing, if_pos hsync] at h
    exact absurd h (by decide)
  · rw [PingServed, hnobody, if_pos hping] at h
    exact absurd h (by decide)
  · have hhears := (scriptServed_iff loggedScript _).mp h hscript
    exact absurd hhears (by decide)

end ArtPi.Cli
