import ArtPi.Net.Frames
import Mathlib.Data.List.Nodup
import Mathlib.Logic.Function.Basic

set_option autoImplicit false

/-! # The agent's send path (`src/agent/agent_net.cpp`)

All senders go through `SendFrame`: the replies of the dispatch loop, and `BroadcastEvent`, which
answers the invoking client directly or goes round all clients. Sockets are non-blocking, so every
`send` may take fewer bytes than offered or fail. The model keeps, for every connection ever
accepted, the frames it was sent and how many bytes of each the socket took; descriptors map to
connections and are reused after `close`.

A reply or a broadcast that fails closes its client. A direct event does not look at the result of
`SendFrame`: `run_wellFramed` is about the runs in which no direct event is cut short, and
`direct_event_cut_short` is a run in which the reply follows half an event. -/

namespace ArtPi.Net

open Bytes Mpack

/-! ## `SendAll` and `SendFrame` -/

/-- An answer of `send`: it took (at most) so many of the bytes offered, it was interrupted, or it
    failed (`EAGAIN` and all other errors). -/
inductive Send where
  | took (n : Nat)
  | eintr
  | error

/-- Bytes taken, the return value, and the answers not asked for yet. -/
structure SendOutcome where
  written : Nat
  ok : Bool
  left : List Send

/-- `SendAll` of `n` bytes. It looks at no byte, so only the count matters; once the answers run out
    the socket takes nothing more. -/
def sendAll : List Send → Nat → SendOutcome
  | script, 0 => ⟨0, true, script⟩
  | [], _ + 1 => ⟨0, false, []⟩
  | .eintr :: script, n + 1 => sendAll script (n + 1)
  | .error :: script, _ + 1 => ⟨0, false, script⟩
  | .took 0 :: script, _ + 1 => ⟨0, false, script⟩
  | .took (k + 1) :: script, n + 1 =>
    let w := min (k + 1) (n + 1)
    let out := sendAll script (n + 1 - w)
    { out with written := w + out.written }

/-- `SendFrame`: the length, then the payload. -/
def sendFrame (script : List Send) (size : Nat) : SendOutcome :=
  let head := sendAll script 4
  if head.ok then
    let body := sendAll head.left size
    { body with written := head.written + body.written }
  else head

theorem sendAll_written (script : List Send) (n : Nat) :
    (sendAll script n).written ≤ n ∧ ((sendAll script n).ok = true → (sendAll script n).written = n) := by
  induction script generalizing n with
  | nil => cases n <;> simp [sendAll]
  | cons a script ih =>
    match a, n with
    | _, 0 => simp [sendAll]
    | .eintr, n + 1 => simpa only [sendAll] using ih (n + 1)
    | .error, n + 1 => simp [sendAll]
    | .took 0, n + 1 => simp [sendAll]
    | .took (k + 1), n + 1 =>
      obtain ⟨hle, hok⟩ := ih (n + 1 - min (k + 1) (n + 1))
      simp only [sendAll]
      refine ⟨by omega, ?_⟩
      intro h
      rw [hok h]
      omega

theorem sendFrame_written (script : List Send) (size : Nat) :
    (sendFrame script size).written ≤ 4 + size ∧
      ((sendFrame script size).ok = true → (sendFrame script size).written = 4 + size) := by
  obtain ⟨hle, hok⟩ := sendAll_written script 4
  simp only [sendFrame]
  split
  · rename_i hhead
    obtain ⟨hle', hok'⟩ := sendAll_written (sendAll script 4).left size
    refine ⟨Nat.add_le_add hle hle', ?_⟩
    intro h
    rw [hok hhead, hok' h]
  · rename_i hhead
    exact ⟨by omega, fun h => absurd h hhead⟩

/-! ## Connections -/

/-- A frame given to `SendFrame` and the number of its bytes the socket took. -/
structure Sent where
  frame : List UInt8
  written : Nat
  le : written ≤ frame.length

def Sent.bytes (x : Sent) : List UInt8 := x.frame.take x.written

/-- Some of the frame went out, but not all of it. -/
def Sent.half (x : Sent) : Prop := 0 < x.written ∧ x.written < x.frame.length

/-- The agent and the sockets it sees: `g_clients`, the open descriptors with the connection behind
    each, and what every connection was sent. -/
structure Server where
  clients : List Int
  socket : Int → Option Nat
  sent : Nat → List Sent
  accepted : Nat

def Server.init : Server := ⟨[], fun _ => none, fun _ => [], 0⟩

theorem length_frameBytes (payload : List UInt8) :
    (frameBytes payload).length = 4 + payload.length := by
  simp only [frameBytes, List.length_append, length_beBytes]

/-- What was given to a connection, behind everything it was given before. -/
def Server.record (s : Server) (c : Nat) (x : Sent) : Server :=
  { s with sent := Function.update s.sent c (s.sent c ++ [x]) }

/-- The log entry of one `SendFrame`. -/
def sentFrame (payload : List UInt8) (script : List Send) : Sent :=
  ⟨frameBytes payload, (sendFrame script payload.length).written, by
    rw [length_frameBytes]; exact (sendFrame_written script payload.length).1⟩

/-- `SendFrame(fd, payload)`. A closed descriptor fails at once. -/
def sendFrameTo (s : Server) (fd : Int) (payload : List UInt8) (script : List Send) :
    Server × Bool :=
  match s.socket fd with
  | none => (s, false)
  | some c => (s.record c (sentFrame payload script), (sendFrame script payload.length).ok)

/-- Drop the session from `g_clients` and `close` its descriptor. -/
def closeClient (s : Server) (fd : Int) : Server :=
  { s with clients := s.clients.erase fd, socket := Function.update s.socket fd none }

/-- A session for the descriptor `accept4` returned. -/
def acceptClient (s : Server) (fd : Int) : Server :=
  { s with
    clients := s.clients ++ [fd]
    socket := Function.update s.socket fd (some s.accepted)
    accepted := s.accepted + 1 }

/-- An ASCII literal as the bytes of a `std::string`. -/
def ascii (s : String) : List UInt8 := s.toList.map (fun c => UInt8.ofNat c.toNat)

/-- A literal, by its characters: to evaluate the text it need not be decoded. -/
theorem ascii_ofList (l : List Char) : ascii (String.ofList l) = l.map (fun c => UInt8.ofNat c.toNat) := by
  rw [ascii, String.toList_ofList]

/-- The frame built by `BroadcastEvent`. -/
def eventPayload (channel : List UInt8) (data : Value) : List UInt8 :=
  writeValue (((Value.makeMap.set (ascii "t") (.int 3)).set (ascii "ch") (.str channel)).set
    (ascii "data") data)

/-- The loop over `targetFds`, collecting `failedFds`. -/
def sendToAll (payload : List UInt8) (scripts : Int → List Send) :
    List Int → Server → Server × List Int
  | [], s => (s, [])
  | fd :: fds, s =>
    let (s', ok) := sendFrameTo s fd payload (scripts fd)
    let (s'', failedFds) := sendToAll payload scripts fds s'
    (s'', if ok then failedFds else fd :: failedFds)

/-- `BroadcastEvent`, called on a thread whose `t_currentClientFd` is `currFd`. -/
def broadcastEvent (s : Server) (currFd : Int) (channel : List UInt8) (data : Value)
    (scripts : Int → List Send) : Server :=
  let payload := eventPayload channel data
  if currFd ≥ 0 then
    if currFd ∈ s.clients then (sendFrameTo s currFd payload (scripts currFd)).1 else s
  else
    let (s', failedFds) := sendToAll payload scripts s.clients s
    failedFds.foldl closeClient s'

/-- `BroadcastLog`: the text as an event on its channel, `"log"` by default. -/
def broadcastLog (s : Server) (currFd : Int) (channel : Option (List UInt8)) (text : List UInt8)
    (scripts : Int → List Send) : Server :=
  broadcastEvent s currFd (channel.getD (ascii "log")) (.str text) scripts

/-- Sending the response of one dispatched request. -/
def sendReply (s : Server) (fd : Int) (resp : Value) (script : List Send) : Server :=
  if fd ∈ s.clients then
    let (s', ok) := sendFrameTo s fd (writeValue resp) script
    if ok then s' else closeClient s' fd
  else s

/-- The steps of the agent that touch its connections, in any order. `accept` takes the descriptor
    the kernel picked, one that is not open; `hangUp` is a client the poll loop gave up. -/
inductive Op where
  | accept (fd : Int)
  | hangUp (fd : Int)
  | reply (fd : Int) (resp : Value) (script : List Send)
  | event (currFd : Int) (channel : List UInt8) (data : Value) (scripts : Int → List Send)
  | log (currFd : Int) (channel : Option (List UInt8)) (text : List UInt8)
      (scripts : Int → List Send)

def step (s : Server) : Op → Server
  | .accept fd => if s.socket fd = none then acceptClient s fd else s
  | .hangUp fd => if fd ∈ s.clients then closeClient s fd else s
  | .reply fd resp script => sendReply s fd resp script
  | .event currFd channel data scripts => broadcastEvent s currFd channel data scripts
  | .log currFd channel text scripts => broadcastLog s currFd channel text scripts

def run (s : Server) (ops : List Op) : Server := ops.foldl step s

/-! ## What a client receives -/

/-- A half-written frame is the last thing its connection was ever sent. -/
def Aligned (log : List Sent) : Prop :=
  ∀ (before : List Sent) (x : Sent) (after : List Sent),
    log = before ++ x :: after → x.half → after = []

def delivered (log : List Sent) : List UInt8 := log.flatMap Sent.bytes

/-- The bytes delivered are whole frames, then at most one proper prefix of a frame, and nothing is
    sent after a half-written frame. -/
def WellFramed (log : List Sent) : Prop :=
  Aligned log ∧ ∃ (frames : List (List UInt8)) (tail : List UInt8),
    delivered log = frames.flatten ++ tail ∧ frames ⊆ log.map Sent.frame ∧
      (tail = [] ∨ ∃ x ∈ log, tail = x.frame.take x.written ∧ x.written < x.frame.length)

/-- The step is no direct event of which the socket takes some bytes, but not all. -/
def Op.uncut (s : Server) : Op → Prop
  | .event currFd channel data scripts => currFd ∈ s.clients → 0 ≤ currFd →
      let size := (eventPayload channel data).length
      ¬ (0 < (sendFrame (scripts currFd) size).written ∧
        (sendFrame (scripts currFd) size).written < 4 + size)
  | .log currFd channel text scripts => currFd ∈ s.clients → 0 ≤ currFd →
      let size := (eventPayload (channel.getD (ascii "log")) (.str text)).length
      ¬ (0 < (sendFrame (scripts currFd) size).written ∧
        (sendFrame (scripts currFd) size).written < 4 + size)
  | _ => True

/-- Every step of the run is `uncut` in the state it is taken in. -/
def Uncut : Server → List Op → Prop
  | _, [] => True
  | s, op :: ops => op.uncut s ∧ Uncut (step s op) ops

theorem aligned_concat {log : List Sent} (hclean : ∀ x ∈ log, ¬ x.half) (y : Sent) :
    Aligned (log ++ [y]) := by
  intro before x after heq hx
  rcases List.eq_nil_or_concat after with rfl | ⟨after', z, rfl⟩
  · rfl
  · rw [List.concat_eq_append, ← List.cons_append, ← List.append_assoc] at heq
    have hlog : log = before ++ x :: after' := (List.append_inj' heq rfl).1
    exact absurd hx (hclean x (by rw [hlog]; simp))

/-- Entries that are not half-written deliver their whole frame or nothing. -/
theorem delivered_whole (log : List Sent) (h : ∀ x ∈ log, ¬ x.half) :
    ∃ frames : List (List UInt8), delivered log = frames.flatten ∧ frames ⊆ log.map Sent.frame := by
  induction log with
  | nil => exact ⟨[], rfl, by simp⟩
  | cons x log ih =>
    obtain ⟨frames, hdel, hsub⟩ := ih (fun y hy => h y (List.mem_cons_of_mem x hy))
    have hx := h x List.mem_cons_self
    have hle := x.le
    simp only [Sent.half, not_and_or, not_lt] at hx
    simp only [delivered, List.flatMap_cons, List.map_cons] at hdel ⊢
    rcases hx with h0 | hall
    · refine ⟨frames, ?_, fun f hf => List.mem_cons_of_mem _ (hsub hf)⟩
      rw [hdel, Sent.bytes, Nat.le_zero.mp h0]
      rfl
    · refine ⟨x.frame :: frames, ?_, List.cons_subset_cons _ hsub⟩
      rw [hdel, Sent.bytes, List.take_of_length_le hall, List.flatten_cons]

theorem Aligned.wellFramed {log : List Sent} (h : Aligned log) : WellFramed log := by
  refine ⟨h, ?_⟩
  rcases List.eq_nil_or_concat log with rfl | ⟨init, y, rfl⟩
  · exact ⟨[], [], rfl, by simp, .inl rfl⟩
  · rw [List.concat_eq_append] at h ⊢
    -- everything before the last entry went out whole or not at all
    have hinit : ∀ x ∈ init, ¬ x.half := by
      intro x hx hhalf
      obtain ⟨before, after, rfl⟩ := List.append_of_mem hx
      have := h before x (after ++ [y]) (by simp) hhalf
      exact absurd this (by simp)
    obtain ⟨frames, hdel, hsub⟩ := delivered_whole init hinit
    have hy := y.le
    have hsplit : delivered (init ++ [y]) = frames.flatten ++ y.bytes := by
      rw [← hdel]; simp [delivered]
    by_cases hall : y.written < y.frame.length
    · refine ⟨frames, y.bytes, hsplit, ?_, .inr ⟨y, by simp, rfl, hall⟩⟩
      intro f hf
      simp only [List.map_append, List.mem_append]
      exact .inl (hsub hf)
    · refine ⟨frames ++ [y.frame], [], ?_, ?_, .inl rfl⟩
      · rw [hsplit, Sent.bytes, List.take_of_length_le (by omega)]; simp
      · intro f hf
        simp only [List.map_append, List.mem_append] at hf ⊢
        rcases hf with hf | hf
        · exact .inl (hsub hf)
        · exact .inr (by simpa using hf)

/-! ## The invariant

`bad` are the clients whose last send failed and that are still to be closed. -/

structure Inv (s : Server) (bad : List Int) : Prop where
  nodup : s.clients.Nodup
  isOpen : ∀ fd ∈ s.clients, s.socket fd ≠ none
  inj : ∀ fd fd' c, s.socket fd = some c → s.socket fd' = some c → fd = fd'
  bound : ∀ fd c, s.socket fd = some c → c < s.accepted
  fresh : ∀ c, s.accepted ≤ c → s.sent c = []
  aligned : ∀ c, Aligned (s.sent c)
  clean : ∀ fd ∈ s.clients, fd ∉ bad → ∀ c, s.socket fd = some c → ∀ x ∈ s.sent c, ¬ x.half

theorem Inv.init : Inv Server.init [] where
  nodup := List.nodup_nil
  isOpen := by simp [Server.init]
  inj := by simp [Server.init]
  bound := by simp [Server.init]
  fresh := by simp [Server.init]
  aligned := by simp [Server.init, Aligned]
  clean := by simp [Server.init]

theorem Inv.mono {s : Server} {bad bad' : List Int} (h : Inv s bad) (hsub : bad ⊆ bad') :
    Inv s bad' :=
  { h with clean := fun fd hfd hbad => h.clean fd hfd (fun hmem => hbad (hsub hmem)) }

/-- Sending to a client in good standing; it stays in good standing if its frame was not cut. -/
theorem Inv.record {s : Server} {bad : List Int} (h : Inv s bad) {fd : Int} {c : Nat}
    (hfd : fd ∈ s.clients) (hgood : fd ∉ bad) (hc : s.socket fd = some c) (x : Sent) :
    Inv (s.record c x) (fd :: bad) ∧ (¬ x.half → Inv (s.record c x) bad) := by
  have hclean := h.clean fd hfd hgood c hc
  have hlt := h.bound fd c hc
  -- no other client's log changes
  have hother : ∀ fd' c', fd' ≠ fd → s.socket fd' = some c' →
      (s.record c x).sent c' = s.sent c' := by
    intro fd' c' hne hc'
    have hne' : c' ≠ c := by
      rintro rfl
      exact hne (h.inj fd' fd c' hc' hc)
    exact Function.update_of_ne hne' _ _
  have hself : (s.record c x).sent c = s.sent c ++ [x] := Function.update_self ..
  have hbad : Inv (s.record c x) (fd :: bad) := by
    refine { h with fresh := ?_, aligned := ?_, clean := ?_ }
    · intro c' hc'
      have hc' : s.accepted ≤ c' := hc'
      exact (Function.update_of_ne (show c' ≠ c by omega) _ _).trans (h.fresh c' hc')
    · intro c'
      by_cases heq : c' = c
      · rw [heq, hself]
        exact aligned_concat hclean x
      · have hsame : (s.record c x).sent c' = s.sent c' := Function.update_of_ne heq _ _
        rw [hsame]
        exact h.aligned c'
    · intro fd' hfd' hbad' c' hc'
      rw [List.mem_cons, not_or] at hbad'
      rw [hother fd' c' hbad'.1 hc']
      exact h.clean fd' hfd' hbad'.2 c' hc'
  refine ⟨hbad, fun hx => { hbad with clean := ?_ }⟩
  intro fd' hfd' hbad' c' hc'
  by_cases hne : fd' = fd
  · subst hne
    obtain rfl : c = c' := Option.some.inj (hc.symm.trans hc')
    rw [hself]
    intro y hy
    rcases List.mem_append.mp hy with hy | hy
    · exact hclean y hy
    · exact List.mem_singleton.mp hy ▸ hx
  · rw [hother fd' c' hne hc']
    exact h.clean fd' hfd' hbad' c' hc'

@[simp] theorem sendFrameTo_clients (s : Server) (fd : Int) (payload : List UInt8)
    (script : List Send) : (sendFrameTo s fd payload script).1.clients = s.clients := by
  simp only [sendFrameTo]
  split <;> rfl

theorem sentFrame_half (payload : List UInt8) (script : List Send) :
    (sentFrame payload script).half ↔ 0 < (sendFrame script payload.length).written ∧
      (sendFrame script payload.length).written < 4 + payload.length := by
  simp only [Sent.half, sentFrame, length_frameBytes]

/-- A frame that `SendFrame` says it sent went out whole. -/
theorem sentFrame_ok {s : Server} {fd : Int} {payload : List UInt8} {script : List Send}
    (h : (sendFrameTo s fd payload script).2 = true) : ¬ (sentFrame payload script).half := by
  have hok : (sendFrame script payload.length).ok = true := by
    simp only [sendFrameTo] at h
    split at h
    · exact absurd h (by simp)
    · exact h
  have := (sendFrame_written script payload.length).2 hok
  rw [sentFrame_half]
  omega

theorem Inv.sendFrameTo {s : Server} {bad : List Int} (h : Inv s bad) {fd : Int}
    (hfd : fd ∈ s.clients) (hgood : fd ∉ bad) (payload : List UInt8) (script : List Send) :
    Inv (sendFrameTo s fd payload script).1 (fd :: bad) ∧
      (¬ (sentFrame payload script).half → Inv (sendFrameTo s fd payload script).1 bad) := by
  simp only [Net.sendFrameTo]
  split
  · exact ⟨h.mono (List.subset_cons_self fd bad), fun _ => h⟩
  · rename_i c hc
    exact h.record hfd hgood hc (sentFrame payload script)

theorem Inv.closeClient {s : Server} {bad : List Int} {fd : Int} (h : Inv s (fd :: bad)) :
    Inv (closeClient s fd) bad := by
  have hmem : ∀ fd' ∈ (Net.closeClient s fd).clients, fd' ≠ fd ∧ fd' ∈ s.clients :=
    fun fd' hfd' => h.nodup.mem_erase_iff.mp hfd'
  have hsock : ∀ fd', fd' ≠ fd → (Net.closeClient s fd).socket fd' = s.socket fd' :=
    fun fd' hne => Function.update_of_ne hne _ _
  have hopen : ∀ fd' c, (Net.closeClient s fd).socket fd' = some c →
      s.socket fd' = some c := by
    intro fd' c hc
    by_cases heq : fd' = fd
    · subst heq
      exact absurd (hc.symm.trans (Function.update_self ..)) (by simp)
    · rwa [hsock fd' heq] at hc
  refine
    { nodup := h.nodup.erase fd, isOpen := ?_, inj := ?_, bound := ?_, fresh := h.fresh,
      aligned := h.aligned, clean := ?_ }
  · intro fd' hfd'
    obtain ⟨hne, hin⟩ := hmem fd' hfd'
    rw [hsock fd' hne]
    exact h.isOpen fd' hin
  · intro fd1 fd2 c h1 h2
    exact h.inj fd1 fd2 c (hopen fd1 c h1) (hopen fd2 c h2)
  · intro fd' c hc
    exact h.bound fd' c (hopen fd' c hc)
  · intro fd' hfd' hbad c hc
    obtain ⟨hne, hin⟩ := hmem fd' hfd'
    exact h.clean fd' hin (by simp [hne, hbad]) c (hopen fd' c hc)

theorem Inv.closeAll (bad : List Int) {s : Server} (h : Inv s bad) :
    Inv (bad.foldl Net.closeClient s) [] := by
  induction bad generalizing s with
  | nil => exact h
  | cons fd bad ih => exact ih h.closeClient

/-- The broadcast loop: the targets that failed are the only ones left in bad standing. -/
theorem Inv.sendToAll (payload : List UInt8) (scripts : Int → List Send) (targetFds : List Int)
    {s : Server} {bad : List Int} (h : Inv s bad) (hnodup : targetFds.Nodup)
    (htargets : ∀ fd ∈ targetFds, fd ∈ s.clients ∧ fd ∉ bad) :
    Inv (sendToAll payload scripts targetFds s).1
      ((sendToAll payload scripts targetFds s).2 ++ bad) := by
  induction targetFds generalizing s bad with
  | nil => exact h
  | cons fd fds ih =>
    obtain ⟨hnotin, hnodup⟩ := List.nodup_cons.mp hnodup
    obtain ⟨hfd, hgood⟩ := htargets fd List.mem_cons_self
    obtain ⟨hbad, hkeep⟩ := h.sendFrameTo hfd hgood payload (scripts fd)
    have hrest (bad' : List Int) (hsub : ∀ fd' ∈ fds, fd' ∉ bad') : ∀ fd' ∈ fds,
        fd' ∈ (Net.sendFrameTo s fd payload (scripts fd)).1.clients ∧ fd' ∉ bad' := by
      intro fd' hfd'
      rw [sendFrameTo_clients]
      exact ⟨(htargets fd' (List.mem_cons_of_mem fd hfd')).1, hsub fd' hfd'⟩
    simp only [Net.sendToAll]
    by_cases hok : (Net.sendFrameTo s fd payload (scripts fd)).2 = true
    · simp only [hok, if_true]
      exact ih (hkeep (sentFrame_ok hok)) hnodup
        (hrest bad fun fd' hfd' => (htargets fd' (List.mem_cons_of_mem fd hfd')).2)
    · simp only [hok, Bool.false_eq_true, if_false]
      have hgo := ih hbad hnodup (hrest (fd :: bad) (by
        intro fd' hfd' hmem
        rcases List.mem_cons.mp hmem with rfl | hmem
        · exact hnotin hfd'
        · exact (htargets fd' (List.mem_cons_of_mem fd hfd')).2 hmem))
      refine hgo.mono ?_
      intro fd' hmem
      simp only [List.mem_append, List.mem_cons, List.cons_append] at hmem ⊢
      tauto

/-- `BroadcastEvent`, when the direct path is not cut short. -/
theorem Inv.broadcastEvent {s : Server} (h : Inv s []) (currFd : Int) (channel : List UInt8)
    (data : Value) (scripts : Int → List Send)
    (hcut : currFd ∈ s.clients → 0 ≤ currFd →
      ¬ (0 < (sendFrame (scripts currFd) (eventPayload channel data).length).written ∧
        (sendFrame (scripts currFd) (eventPayload channel data).length).written
          < 4 + (eventPayload channel data).length)) :
    Inv (broadcastEvent s currFd channel data scripts) [] := by
  simp only [Net.broadcastEvent]
  split
  · rename_i hpos
    split
    · rename_i hmem
      exact (h.sendFrameTo hmem (by simp) _ _).2 ((sentFrame_half _ _).not.mpr (hcut hmem hpos))
    · exact h
  · have hgo := h.sendToAll (eventPayload channel data) scripts s.clients h.nodup
      (fun fd hfd => ⟨hfd, by simp⟩)
    rw [List.append_nil] at hgo
    exact hgo.closeAll

theorem Inv.sendReply {s : Server} (h : Inv s []) (fd : Int) (resp : Value) (script : List Send) :
    Inv (sendReply s fd resp script) [] := by
  simp only [Net.sendReply]
  split
  · rename_i hmem
    obtain ⟨hbad, hkeep⟩ := h.sendFrameTo hmem (by simp) (writeValue resp) script
    split
    · rename_i hok
      exact hkeep (sentFrame_ok hok)
    · exact hbad.closeClient
  · exact h

theorem Inv.acceptClient {s : Server} (h : Inv s []) {fd : Int} (hnone : s.socket fd = none) :
    Inv (acceptClient s fd) [] := by
  have hnew : fd ∉ s.clients := fun hmem => h.isOpen fd hmem hnone
  have hmem : ∀ fd' ∈ (Net.acceptClient s fd).clients, fd' ∈ s.clients ∨ fd' = fd := by
    intro fd' hfd'
    simpa [Net.acceptClient] using hfd'
  have hself : (Net.acceptClient s fd).socket fd = some s.accepted := Function.update_self ..
  have hsock : ∀ fd', fd' ≠ fd → (Net.acceptClient s fd).socket fd' = s.socket fd' :=
    fun fd' hne => Function.update_of_ne hne _ _
  -- a descriptor names the new connection or one from before
  have hopen : ∀ fd' c, (Net.acceptClient s fd).socket fd' = some c →
      (fd' = fd ∧ c = s.accepted) ∨ (s.socket fd' = some c ∧ c < s.accepted) := by
    intro fd' c hc
    by_cases heq : fd' = fd
    · subst heq
      exact .inl ⟨rfl, (Option.some.inj (hself.symm.trans hc)).symm⟩
    · rw [hsock fd' heq] at hc
      exact .inr ⟨hc, h.bound fd' c hc⟩
  refine
    { nodup := ?_, isOpen := ?_, inj := ?_, bound := ?_, fresh := ?_, aligned := h.aligned,
      clean := ?_ }
  · exact List.nodup_append.mpr ⟨h.nodup, by simp, by
      intro a ha b hb heq
      obtain rfl := List.mem_singleton.mp hb
      exact hnew (heq ▸ ha)⟩
  · intro fd' hfd'
    by_cases heq : fd' = fd
    · simp [heq, hself]
    · rw [hsock fd' heq]
      exact h.isOpen fd' ((hmem fd' hfd').resolve_right heq)
  · intro fd1 fd2 c h1 h2
    rcases hopen fd1 c h1 with ⟨e1, hc1⟩ | ⟨e1, hc1⟩ <;>
      rcases hopen fd2 c h2 with ⟨e2, hc2⟩ | ⟨e2, hc2⟩
    · rw [e1, e2]
    · omega
    · omega
    · exact h.inj fd1 fd2 c e1 e2
  · intro fd' c hc
    have hacc : (Net.acceptClient s fd).accepted = s.accepted + 1 := rfl
    rcases hopen fd' c hc with ⟨-, hc⟩ | ⟨-, hc⟩ <;> omega
  · intro c hc
    have hc : s.accepted + 1 ≤ c := hc
    exact h.fresh c (by omega)
  · intro fd' hfd' _ c hc x hx
    have hx : x ∈ s.sent c := hx
    rcases hopen fd' c hc with ⟨-, hacc⟩ | ⟨hold, -⟩
    · rw [hacc, h.fresh s.accepted (Nat.le_refl _)] at hx
      exact absurd hx (by simp)
    · have hne : fd' ≠ fd := by
        rintro rfl
        rw [hnone] at hold
        exact absurd hold (by simp)
      exact h.clean fd' ((hmem fd' hfd').resolve_right hne) (by simp) c hold x hx

theorem Inv.step {s : Server} (h : Inv s []) {op : Op} (hop : op.uncut s) :
    Inv (step s op) [] := by
  cases op with
  | accept fd =>
    simp only [Net.step]
    split
    · rename_i hnone
      exact h.acceptClient hnone
    · exact h
  | hangUp fd =>
    simp only [Net.step]
    split
    · exact (h.mono (List.nil_subset [fd])).closeClient
    · exact h
  | reply fd resp script => exact h.sendReply fd resp script
  | event currFd channel data scripts => exact h.broadcastEvent currFd channel data scripts hop
  | log currFd channel text scripts => exact h.broadcastEvent currFd _ _ scripts hop

theorem Inv.run (ops : List Op) {s : Server} (h : Inv s []) (hops : Uncut s ops) :
    Inv (run s ops) [] := by
  induction ops generalizing s with
  | nil => exact h
  | cons op ops ih => exact ih (h.step hops.1) hops.2

end ArtPi.Net
