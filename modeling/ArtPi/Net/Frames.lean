import ArtPi.Lib.Framing
import ArtPi.Mpack.Basic

set_option autoImplicit false

/-! # The agent's receive path (`src/agent/agent_net.cpp`, `ServerWorker`)

One poll round reads everything the socket has, appends it to the session's `rbuf` and cuts the
completed frames off its front. A frame is a four-byte big-endian length and that many bytes of
MessagePack; a frame that does not decode is dropped, a frame longer than `kMaxFrame` closes the
connection.

The buffer loop is the `drain` of a framer, so `clientRun_eq_oneShot` says: whatever rounds and
`recv` chunks a stream arrives in, the requests are those of parsing the whole stream once. -/

namespace ArtPi.Net

open Bytes Framing Mpack

def kMaxFrame : Nat := 16 <<< 20

/-- `ntohl` of the first four bytes. -/
def frameLen (rbuf : List UInt8) : Nat := beNat (rbuf.take 4)

/-- `msgpack::Reader reader(..); reader.readValue(req)` on the body of a frame. -/
def decodeRequest (body : List UInt8) : Option Value :=
  match (readValue ⟨body, 0⟩).1 with
  | .ok req => some req
  | .error _ => none

/-- What the extraction loop leaves: the requests it pushed, the buffer, and the `closed` flag. -/
structure Extracted where
  requests : List Value
  rbuf : List UInt8
  closed : Bool

/-- The `while (rbuf.size() >= 4)` loop. -/
def extractFrames (rbuf : List UInt8) : Extracted :=
  if rbuf.length ≥ 4 then
    if frameLen rbuf > kMaxFrame then { requests := [], rbuf := [], closed := true }
    else if rbuf.length < 4 + frameLen rbuf then { requests := [], rbuf := rbuf, closed := false }
    else
      let req := decodeRequest ((rbuf.drop 4).take (frameLen rbuf))
      let out := extractFrames (rbuf.drop (4 + frameLen rbuf))
      { out with requests := req.toList ++ out.requests }
  else { requests := [], rbuf := rbuf, closed := false }
termination_by rbuf.length
decreasing_by simp only [List.length_drop]; omega

/-! ## One client, round by round -/

structure ClientSession where
  fd : Int
  rbuf : List UInt8

/-- Up to `sizeof(buf)` bytes from one `recv`. -/
def Chunk : Type := { bs : List UInt8 // 0 < bs.length ∧ bs.length ≤ 8192 }

/-- A `recv` after which the receive loop goes on. -/
inductive Recv where
  | data (buf : Chunk)
  | eintr

/-- The `recv` that ends the receive loop. -/
inductive RecvEnd where
  | again
  | error
  | eof
  deriving DecidableEq

/-- What a poll round sees of one client: the `revents` bits and, should `recv` be called, its
    answers. `pollErr` is `POLLERR | POLLNVAL`. -/
structure Poll where
  pollErr : Bool
  pollIn : Bool
  pollHup : Bool
  recvs : List Recv
  last : RecvEnd

/-- What a `recv` delivers. -/
def Recv.bytes : Recv → List UInt8
  | .data buf => buf.val
  | .eintr => []

/-- The bytes the `for (;;)` loop appends to `rbuf`. -/
def recvBytes : List Recv → List UInt8
  | [] => []
  | .data buf :: rest => buf.val ++ recvBytes rest
  | .eintr :: rest => recvBytes rest

/-- The body of the loop over `pfds`: the session afterwards (`none`: `fd` was set to -1 and the
    socket is closed) and the requests pushed. -/
def pollClient (it : ClientSession) (p : Poll) : List Value × Option ClientSession :=
  if p.pollErr then ([], none)
  else if p.pollIn then
    let out := extractFrames (it.rbuf ++ recvBytes p.recvs)
    let closed := p.last ≠ .again ∨ out.closed
    (out.requests, if closed then none else some { it with rbuf := out.rbuf })
  else if p.pollHup then ([], none)
  else ([], some it)

/-- The rounds of one connection: once it is closed there is nothing left to poll. -/
def clientRun : Option ClientSession → List Poll → List Value × Option ClientSession
  | none, _ => ([], none)
  | some it, [] => ([], some it)
  | some it, p :: ps =>
    let (reqs, it') := pollClient it p
    let (reqs', it'') := clientRun it' ps
    (reqs ++ reqs', it'')

/-! ## The same stream, parsed once -/

/-- The transport gives out in this round. -/
def Poll.hangsUp (p : Poll) : Bool :=
  p.pollErr || (if p.pollIn then p.last ≠ .again else p.pollHup)

/-- The bytes this round receives. -/
def Poll.bytes (p : Poll) : List UInt8 :=
  if p.pollErr then [] else if p.pollIn then p.recvs.flatMap Recv.bytes else []

/-- The byte stream of a connection, up to the end of the transport. -/
def stream : List Poll → List UInt8
  | [] => []
  | p :: ps => p.bytes ++ (if p.hangsUp then [] else stream ps)

theorem recvBytes_eq (rs : List Recv) : recvBytes rs = rs.flatMap Recv.bytes := by
  induction rs with
  | nil => rfl
  | cons r rs ih => cases r <;> simp [recvBytes, Recv.bytes, ih]

/-- The frame at the front of a buffer. -/
def nextFrame (s : List UInt8) : Next UInt8 (List UInt8) :=
  if s.length < 4 then .more
  else if frameLen s > kMaxFrame then .stop
  else if s.length < 4 + frameLen s then .more
  else .item ((s.drop 4).take (frameLen s)) (s.drop (4 + frameLen s))

theorem frameLen_append {s : List UInt8} (h : 4 ≤ s.length) (t : List UInt8) :
    frameLen (s ++ t) = frameLen s := by
  rw [frameLen, frameLen, List.take_append_of_le_length h]

theorem nextFrame_item {s b rest : List UInt8} (h : nextFrame s = .item b rest) :
    4 + frameLen s ≤ s.length ∧ frameLen s ≤ kMaxFrame ∧
      b = (s.drop 4).take (frameLen s) ∧ rest = s.drop (4 + frameLen s) := by
  simp only [nextFrame] at h
  split at h
  · exact absurd h (by simp)
  · split at h
    · exact absurd h (by simp)
    · split at h
      · exact absurd h (by simp)
      · rename_i h1 h2 h3
        obtain ⟨rfl, rfl⟩ := Next.item.inj h
        exact ⟨by omega, by omega, rfl, rfl⟩

theorem nextFrame_stop {s : List UInt8} (h : nextFrame s = .stop) :
    4 ≤ s.length ∧ kMaxFrame < frameLen s := by
  simp only [nextFrame] at h
  split at h
  · exact absurd h (by simp)
  · split at h
    · rename_i h1 h2
      exact ⟨by omega, h2⟩
    · split at h <;> exact absurd h (by simp)

/-- The agent's framing: length-prefixed, given up at the first over-long length. -/
def frames : Framer UInt8 (List UInt8) where
  next := nextFrame
  item_lt := by
    intro s b rest h
    obtain ⟨hlen, -, -, rfl⟩ := nextFrame_item h
    simp only [List.length_drop]
    omega
  item_append := by
    intro s b rest t h
    obtain ⟨hlen, hmax, rfl, rfl⟩ := nextFrame_item h
    simp only [nextFrame, frameLen_append (show 4 ≤ s.length by omega), List.length_append]
    rw [if_neg (by omega), if_neg (by omega), if_neg (by omega),
      List.drop_append_of_le_length (by omega), List.drop_append_of_le_length (by omega),
      List.take_append_of_le_length (by simp only [List.length_drop]; omega)]
  stop_append := by
    intro s t h
    obtain ⟨hlen, hmax⟩ := nextFrame_stop h
    simp only [nextFrame, frameLen_append hlen, List.length_append]
    rw [if_neg (by omega), if_pos hmax]

/-- The requests of a stream, parsed in one go. -/
def oneShot (s : List UInt8) : List Value := (drain frames s).1.filterMap decodeRequest

/-- A frame on the wire. -/
def frameBytes (body : List UInt8) : List UInt8 := beBytes 4 body.length ++ body

theorem frameLen_frameBytes {body : List UInt8} (h : body.length < 2 ^ 32) (rest : List UInt8) :
    frameLen (frameBytes body ++ rest) = body.length := by
  rw [frameLen, frameBytes, List.append_assoc, List.take_left' (length_beBytes _ _)]
  exact beNat_beBytes h

/-! ## The buffer loop is the one-shot parse -/

theorem extractFrames_eq (s : List UInt8) :
    (extractFrames s).requests = oneShot s ∧
      (if (extractFrames s).closed then none else some (extractFrames s).rbuf)
        = (drain frames s).2 := by
  induction hn : s.length using Nat.strongRecOn generalizing s with
  | ind n ih =>
    rw [extractFrames, oneShot]
    split
    · split
      · have h : frames.next s = .stop := by
          simp only [frames, nextFrame]
          rw [if_neg (by omega), if_pos (by assumption)]
        simp [drain_stop frames h]
      · split
        · have h : frames.next s = .more := by
            simp only [frames, nextFrame]
            rw [if_neg (by omega), if_neg (by omega), if_pos (by assumption)]
          simp [drain_more frames h]
        · have h : frames.next s
              = .item ((s.drop 4).take (frameLen s)) (s.drop (4 + frameLen s)) := by
            simp only [frames, nextFrame]
            rw [if_neg (by omega), if_neg (by omega), if_neg (by omega)]
          obtain ⟨ih1, ih2⟩ := ih (s.drop (4 + frameLen s)).length
            (by have := frames.item_lt h; omega) (s.drop (4 + frameLen s)) rfl
          rw [drain_item frames h]
          refine ⟨?_, ih2⟩
          simp only [ih1, oneShot, List.filterMap_cons]
          cases decodeRequest ((s.drop 4).take (frameLen s)) <;> simp
    · have h : frames.next s = .more := by
        simp only [frames, nextFrame]
        rw [if_pos (by omega)]
      simp [drain_more frames h]

/-- The rounds of a connection from any point at which its buffer holds no complete frame. -/
theorem clientRun_eq_drain (it : ClientSession) (h : frames.next it.rbuf = .more)
    (ps : List Poll) :
    (clientRun (some it) ps).1 = oneShot (it.rbuf ++ stream ps) ∧
      (clientRun (some it) ps).2.isNone
        = ((drain frames (it.rbuf ++ stream ps)).2.isNone || ps.any Poll.hangsUp) := by
  induction ps generalizing it with
  | nil => simp [clientRun, stream, oneShot, drain_more frames h]
  | cons p ps ih =>
    simp only [clientRun, pollClient]
    by_cases herr : p.pollErr = true
    · simp [herr, stream, Poll.bytes, Poll.hangsUp, clientRun, oneShot, drain_more frames h]
    · by_cases hin : p.pollIn = true
      · obtain ⟨hreq, hleft⟩ := extractFrames_eq (it.rbuf ++ recvBytes p.recvs)
        simp only [if_neg herr, if_pos hin, stream, Poll.bytes, ← recvBytes_eq, ← List.append_assoc,
          List.any_cons]
        by_cases hend : p.last = .again
        · have hstay : p.hangsUp = false := by simp [Poll.hangsUp, herr, hin, hend]
          simp only [hstay, Bool.false_or, Bool.false_eq_true, if_false, oneShot]
          rw [drain_append frames (it.rbuf ++ recvBytes p.recvs), ← hleft]
          by_cases hcl : (extractFrames (it.rbuf ++ recvBytes p.recvs)).closed = true
          · simp [hcl, hreq, clientRun, feed, oneShot]
          · simp only [hend, hcl, not_true_eq_false, ne_eq, false_or, Bool.false_eq_true, if_false,
              feed] at hleft ⊢
            obtain ⟨ih1, ih2⟩ := ih { it with rbuf := (extractFrames _).rbuf }
              (drain_left frames _ hleft.symm)
            refine ⟨?_, ih2⟩
            simp only [hreq, ih1, oneShot, List.filterMap_append]
        · have hup : p.hangsUp = true := by simp [Poll.hangsUp, hin, hend]
          simp [hend, hup, clientRun, hreq]
      · by_cases hhup : p.pollHup = true
        · simp [herr, hin, hhup, stream, Poll.bytes, Poll.hangsUp, clientRun, oneShot,
            drain_more frames h]
        · have hstay : p.hangsUp = false := by simp [Poll.hangsUp, herr, hin, hhup]
          simpa [herr, hin, hhup, stream, Poll.bytes, hstay] using ih it h

/-- A new connection: the requests extracted do not depend on the rounds and chunks the stream
    arrives in, and the connection is closed exactly when the transport ended or the stream holds an
    over-long frame. -/
theorem clientRun_eq_oneShot (fd : Int) (ps : List Poll) :
    (clientRun (some ⟨fd, []⟩) ps).1 = oneShot (stream ps) ∧
      (clientRun (some ⟨fd, []⟩) ps).2.isNone
        = ((drain frames (stream ps)).2.isNone || ps.any Poll.hangsUp) := by
  have hempty : frames.next ([] : List UInt8) = .more := rfl
  simpa using clientRun_eq_drain ⟨fd, []⟩ hempty ps

end ArtPi.Net
