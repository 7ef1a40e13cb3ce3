import ArtPi.Server.Threads

set_option autoImplicit false

/-! # Frames of several senders

A frame goes out in two or more calls of `send`, and the threads that send hold no lock between them.
What a client receives is whole frames, and at most one that a thread is in the middle of, in every run
in which no thread begins a frame on a connection while another one is in the middle of a frame there,
and no descriptor is closed then. -/

namespace ArtPi.Server

open Lib Net Bytes

/-- The call of `SendFrame` of the server thread. -/
def Phase.jobs : Phase → List Job
  | .event job _ _ => [job]
  | .replying job _ => [job]
  | _ => []

/-- The calls of `SendFrame` of all threads. -/
def Agent.jobs (s : Agent) : List Job := s.phase.jobs ++ s.broadcasts.filterMap Broadcast.job

/-- The calls that are in the middle of a frame on a connection. -/
def midFrame (socket : Nat → Option Nat) (jobs : List Job) (c : Nat) : List Job :=
  jobs.filter (fun j => 0 < j.sent && socket j.target.fd = some c)

/-- What was sent to each connection is whole frames and then what is sent of the one frame that some
    thread is in the middle of, if there is one. -/
def WholeFrames (s : Agent) : Prop :=
  ∀ c, ∃ payloads : List (List UInt8), (∀ p ∈ payloads, p.length < 2 ^ 32) ∧
    (s.stream c = (payloads.map frameBytes).flatten ∨
      ∃ j, midFrame s.socket s.jobs c = [j] ∧ j.sent < j.frame.length ∧
        s.stream c = (payloads.map frameBytes).flatten ++ j.frame.take j.sent)

/-- The call whose `send` an operation is. -/
def Op.job (s : Agent) : Op → Option Job
  | .serverSend _ => s.phase.jobs.head?
  | .broadcastSend i _ => s.broadcasts[i]?.bind Broadcast.job
  | _ => none

/-- The answer of the `send` that an operation is. -/
def Op.answer : Op → Option Send
  | .serverSend r => some r
  | .broadcastSend _ r => some r
  | _ => none

/-- `SendAll` gives up. -/
def fails : Send → Bool
  | .error | .took 0 => true
  | .took (_ + 1) | .eintr => false

/-- A call of `send` takes some bytes, or is interrupted and made again. -/
def Op.appends (s : Agent) (op : Op) : Prop :=
  ∀ j ∈ op.job s, (s.socket j.target.fd).isSome ∧ ∀ r ∈ op.answer, fails r = false

/-- The descriptors that an operation closes. -/
def Op.closing (s : Agent) : Op → List Nat
  | .closeNext =>
    match s.phase with
    | .closing (t :: _) _ => [t.fd]
    | _ => []
  | .stop => s.clients.map Target.fd
  | _ => []

/-- The payload that an operation will send. -/
def Op.payload : Op → Option (List UInt8)
  | .directEvent payload | .reply payload | .broadcast payload => some payload
  | _ => none

/-- A thread begins a frame while no other one is in the middle of a frame on the connection, no
    descriptor is closed while a thread is in the middle of a frame on it, and the length of a payload
    fits its 32 bits. -/
structure Op.Alone (s : Agent) (op : Op) : Prop where
  begins : ∀ j ∈ op.job s, j.sent = 0 → ∀ x ∈ s.jobs, 0 < x.sent →
    s.socket x.target.fd ≠ s.socket j.target.fd
  closes : ∀ fd ∈ op.closing s, ∀ x ∈ s.jobs, 0 < x.sent → x.target.fd ≠ fd
  fits : ∀ payload ∈ op.payload, payload.length < 2 ^ 32

instance (s : Agent) (op : Op) : Decidable (op.appends s) :=
  inferInstanceAs (Decidable (∀ j ∈ op.job s, (s.socket j.target.fd).isSome ∧
    ∀ r ∈ op.answer, fails r = false))

instance (s : Agent) (op : Op) : Decidable (op.Alone s) :=
  decidable_of_iff
    ((∀ j ∈ op.job s, j.sent = 0 → ∀ x ∈ s.jobs, 0 < x.sent →
      s.socket x.target.fd ≠ s.socket j.target.fd) ∧
      (∀ fd ∈ op.closing s, ∀ x ∈ s.jobs, 0 < x.sent → x.target.fd ≠ fd) ∧
      ∀ payload ∈ op.payload, payload.length < 2 ^ 32)
    ⟨fun h => ⟨h.1, h.2.1, h.2.2⟩, fun h => ⟨h.1, h.2, h.3⟩⟩

/-! ## Sockets, jobs and streams -/

def Job.sentBytes (j : Job) : List UInt8 := j.frame.take j.sent

/-- The streams fit the jobs. -/
structure Streams (socket : Nat → Option Nat) (accepted : Nat) (stream : Nat → List UInt8)
    (jobs : List Job) : Prop where
  inj : ∀ fd fd' c, socket fd = some c → socket fd' = some c → fd = fd'
  bound : ∀ fd c, socket fd = some c → c < accepted
  fresh : ∀ c, accepted ≤ c → stream c = []
  unfinished : ∀ j ∈ jobs, j.sent < j.frame.length ∧ j.payload.length < 2 ^ 32
  isOpen : ∀ j ∈ jobs, 0 < j.sent → (socket j.target.fd).isSome
  single : ∀ c, (midFrame socket jobs c).length ≤ 1
  whole : ∀ c, ∃ payloads : List (List UInt8), (∀ p ∈ payloads, p.length < 2 ^ 32) ∧
    stream c = (payloads.map frameBytes).flatten ++ (midFrame socket jobs c).flatMap Job.sentBytes

section

variable {socket : Nat → Option Nat} {accepted : Nat} {stream : Nat → List UInt8}
  {jobs post : List Job} {j : Job}

theorem midFrame_append (socket : Nat → Option Nat) (jobs jobs' : List Job) (c : Nat) :
    midFrame socket (jobs ++ jobs') c = midFrame socket jobs c ++ midFrame socket jobs' c :=
  List.filter_append _ _

theorem midFrame_cons_of_not (jobs : List Job) {c : Nat}
    (h : ¬ (0 < j.sent ∧ socket j.target.fd = some c)) :
    midFrame socket (j :: jobs) c = midFrame socket jobs c :=
  List.filter_cons_of_neg (by simpa using h)

theorem midFrame_cons_of (jobs : List Job) {c : Nat} (h : 0 < j.sent)
    (hc : socket j.target.fd = some c) :
    midFrame socket (j :: jobs) c = j :: midFrame socket jobs c :=
  List.filter_cons_of_pos (by simp [h, hc])

theorem mem_midFrame {c : Nat} :
    j ∈ midFrame socket jobs c ↔ j ∈ jobs ∧ 0 < j.sent ∧ socket j.target.fd = some c := by
  simp [midFrame]

/-- Where the sockets of the jobs in the middle of a frame stay, the jobs of a connection do. -/
theorem midFrame_congr {socket' : Nat → Option Nat}
    (h : ∀ j ∈ jobs, 0 < j.sent → socket' j.target.fd = socket j.target.fd) (c : Nat) :
    midFrame socket' jobs c = midFrame socket jobs c := by
  unfold midFrame
  apply List.filter_congr
  intro j hj
  by_cases hsent : 0 < j.sent
  · rw [h j hj hsent]
  · simp [hsent]

theorem length_frame (j : Job) : j.frame.length = 4 + j.payload.length := length_frameBytes _

/-- A call of `SendFrame` that has sent nothing yet. -/
theorem Streams.begin (pre : List Job) (h : Streams socket accepted stream (pre ++ post))
    (hsent : j.sent = 0) (hfits : j.payload.length < 2 ^ 32) :
    Streams socket accepted stream (pre ++ j :: post) := by
  have hmid : ∀ c, midFrame socket (pre ++ j :: post) c = midFrame socket (pre ++ post) c := by
    intro c
    rw [midFrame_append, midFrame_append, midFrame_cons_of_not post (by simp [hsent])]
  have hmem : ∀ x ∈ pre ++ j :: post, x = j ∨ x ∈ pre ++ post := by
    intro x hx
    simp only [List.mem_append, List.mem_cons] at hx ⊢
    tauto
  refine ⟨h.inj, h.bound, h.fresh, fun x hx => ?_, fun x hx hpos => ?_, fun c => ?_, fun c => ?_⟩
  · rcases hmem x hx with rfl | hx
    · rw [hsent, length_frame]
      exact ⟨Nat.lt_of_lt_of_le (by decide : 0 < 4) (Nat.le_add_right _ _), hfits⟩
    · exact h.unfinished x hx
  · rcases hmem x hx with rfl | hx
    · exact absurd hsent (Nat.ne_of_gt hpos)
    · exact h.isOpen x hx hpos
  · rw [hmid]
    exact h.single c
  · rw [hmid]
    exact h.whole c

/-- A descriptor that was not open stands for a new connection. -/
theorem Streams.accept (h : Streams socket accepted stream jobs) {fd : Nat} (hnone : socket fd = none) :
    Streams (Function.update socket fd (some accepted)) (accepted + 1) stream jobs := by
  have hold : ∀ fd' c, Function.update socket fd (some accepted) fd' = some c →
      fd' = fd ∧ c = accepted ∨ fd' ≠ fd ∧ socket fd' = some c := by
    intro fd' c hc
    by_cases heq : fd' = fd
    · subst heq
      rw [Function.update_self] at hc
      exact .inl ⟨rfl, (Option.some.inj hc).symm⟩
    · rw [Function.update_of_ne heq] at hc
      exact .inr ⟨heq, hc⟩
  have hmid : ∀ c,
      midFrame (Function.update socket fd (some accepted)) jobs c = midFrame socket jobs c :=
    midFrame_congr (fun j hj hpos => by
      refine Function.update_of_ne (fun heq => ?_) _ _
      have hopen := h.isOpen j hj hpos
      rw [heq, hnone] at hopen
      exact absurd hopen (by simp))
  refine ⟨fun fd1 fd2 c h1 h2 => ?_, fun fd' c hc => ?_, fun c hc => ?_, h.unfinished,
    fun j hj hpos => ?_, fun c => ?_, fun c => ?_⟩
  · rcases hold fd1 c h1 with ⟨e1, hc1⟩ | ⟨-, h1⟩ <;> rcases hold fd2 c h2 with ⟨e2, hc2⟩ | ⟨-, h2⟩
    · rw [e1, e2]
    · exact absurd (h.bound fd2 c h2) (by rw [hc1]; exact Nat.lt_irrefl _)
    · exact absurd (h.bound fd1 c h1) (by rw [hc2]; exact Nat.lt_irrefl _)
    · exact h.inj fd1 fd2 c h1 h2
  · rcases hold fd' c hc with ⟨-, rfl⟩ | ⟨-, hc⟩
    · exact Nat.lt_succ_self _
    · exact Nat.lt_succ_of_lt (h.bound fd' c hc)
  · exact h.fresh c (Nat.le_of_succ_le hc)
  · by_cases heq : j.target.fd = fd
    · simp [heq]
    · rw [Function.update_of_ne heq]
      exact h.isOpen j hj hpos
  · rw [hmid]
    exact h.single c
  · rw [hmid]
    exact h.whole c

/-- A descriptor is closed on which nobody is in the middle of a frame. -/
theorem Streams.close (h : Streams socket accepted stream jobs) (fd : Nat)
    (hfree : ∀ x ∈ jobs, 0 < x.sent → x.target.fd ≠ fd) :
    Streams (Function.update socket fd none) accepted stream jobs := by
  have hold : ∀ fd' c, Function.update socket fd none fd' = some c → socket fd' = some c := by
    intro fd' c hc
    by_cases heq : fd' = fd
    · subst heq
      rw [Function.update_self] at hc
      exact absurd hc (by simp)
    · rwa [Function.update_of_ne heq] at hc
  have hsame : ∀ j ∈ jobs, 0 < j.sent →
      Function.update socket fd none j.target.fd = socket j.target.fd :=
    fun j hj hpos => Function.update_of_ne (hfree j hj hpos) _ _
  refine ⟨fun fd1 fd2 c h1 h2 => h.inj fd1 fd2 c (hold fd1 c h1) (hold fd2 c h2),
    fun fd' c hc => h.bound fd' c (hold fd' c hc), h.fresh, h.unfinished, fun j hj hpos => ?_,
    fun c => ?_, fun c => ?_⟩
  · rw [hsame j hj hpos]
    exact h.isOpen j hj hpos
  · rw [midFrame_congr hsame]
    exact h.single c
  · rw [midFrame_congr hsame]
    exact h.whole c

end

section

variable {socket : Nat → Option Nat} {accepted : Nat} {stream : Nat → List UInt8}
  {pre post : List Job} {j : Job} {c : Nat}

/-- A call that begins where nobody is in the middle of a frame, or is in the middle of one itself, is
    the only one on its connection. -/
theorem Streams.alone (h : Streams socket accepted stream (pre ++ j :: post))
    (hc : socket j.target.fd = some c) (hbegin : j.sent = 0 → midFrame socket (pre ++ post) c = []) :
    midFrame socket (pre ++ post) c = [] ∧
      ∃ payloads : List (List UInt8), (∀ p ∈ payloads, p.length < 2 ^ 32) ∧
        stream c = (payloads.map frameBytes).flatten ++ j.sentBytes := by
  obtain ⟨payloads, hfits, hstream⟩ := h.whole c
  have hsingle := h.single c
  rw [midFrame_append] at hstream hsingle hbegin ⊢
  by_cases hsent : j.sent = 0
  · have hnone := hbegin hsent
    rw [midFrame_cons_of_not post (by simp [hsent]), hnone] at hstream
    exact ⟨hnone, payloads, hfits, by simpa [Job.sentBytes, hsent] using hstream⟩
  · rw [midFrame_cons_of post (Nat.pos_of_ne_zero hsent) hc] at hstream hsingle
    -- the call is in the list, which has no room for another one
    simp only [List.length_append, List.length_cons] at hsingle
    have hpre : midFrame socket pre c = [] := List.eq_nil_of_length_eq_zero (by omega)
    have hpost : midFrame socket post c = [] := List.eq_nil_of_length_eq_zero (by omega)
    rw [hpre, hpost] at hstream ⊢
    exact ⟨rfl, payloads, hfits, by simpa using hstream⟩

/-- One `send` on a connection on which nobody else is in the middle of a frame. -/
theorem Streams.send (h : Streams socket accepted stream (pre ++ j :: post))
    (hc : socket j.target.fd = some c) (hbegin : j.sent = 0 → midFrame socket (pre ++ post) c = [])
    {w : Nat} (hpos : 0 < w) (hw : j.sent + w ≤ j.frame.length) (mid : List Job)
    (hmid : mid = if j.sent + w = j.frame.length then [] else [{ j with sent := j.sent + w }]) :
    Streams socket accepted
      (Function.update stream c (stream c ++ (j.frame.drop j.sent).take w)) (pre ++ mid ++ post) := by
  obtain ⟨hnone, payloads, hfits, hstream⟩ := h.alone hc hbegin
  have hj := h.unfinished j (by simp)
  have hsent : stream c ++ (j.frame.drop j.sent).take w =
      (payloads.map frameBytes).flatten ++ j.frame.take (j.sent + w) := by
    rw [hstream, Job.sentBytes, List.append_assoc, List.take_add]
  have hmem : ∀ x ∈ mid, x = { j with sent := j.sent + w } ∧ j.sent + w < j.frame.length := by
    intro x hx
    rw [hmid] at hx
    split at hx
    · exact absurd hx (by simp)
    · rename_i hne
      exact ⟨List.mem_singleton.mp hx, Nat.lt_of_le_of_ne hw hne⟩
  have hrest : ∀ x ∈ pre ++ mid ++ post, x ∈ mid ∨ x ∈ pre ++ j :: post := by
    intro x hx
    simp only [List.mem_append, List.mem_cons] at hx ⊢
    tauto
  -- on another connection neither the call nor what is left of it counts
  have hother : ∀ c', c' ≠ c → midFrame socket (pre ++ mid ++ post) c' =
      midFrame socket (pre ++ j :: post) c' := by
    intro c' hne
    have hnot : midFrame socket mid c' = [] := by
      refine List.filter_eq_nil_iff.mpr (fun x hx => ?_)
      rw [(hmem x hx).1]
      simpa [hc] using fun _ => hne.symm
    rw [midFrame_append, midFrame_append, midFrame_append, hnot, List.append_nil,
      midFrame_cons_of_not post (by simpa [hc] using fun _ => hne.symm)]
  have hsame : midFrame socket (pre ++ mid ++ post) c = mid := by
    have hall : midFrame socket mid c = mid := by
      refine List.filter_eq_self.mpr (fun x hx => ?_)
      rw [(hmem x hx).1]
      simp [hc, hpos]
    rw [midFrame_append] at hnone
    rw [midFrame_append, midFrame_append, hall, (List.append_eq_nil_iff.mp hnone).1,
      (List.append_eq_nil_iff.mp hnone).2, List.append_nil, List.nil_append]
  refine ⟨h.inj, h.bound, fun c' hc' => ?_, fun x hx => ?_, fun x hx hxpos => ?_, fun c' => ?_,
    fun c' => ?_⟩
  · have hne : c' ≠ c := Nat.ne_of_gt (Nat.lt_of_lt_of_le (h.bound _ c hc) hc')
    rw [Function.update_of_ne hne]
    exact h.fresh c' hc'
  · rcases hrest x hx with hx | hx
    · obtain ⟨rfl, hlt⟩ := hmem x hx
      exact ⟨hlt, hj.2⟩
    · exact h.unfinished x hx
  · rcases hrest x hx with hx | hx
    · obtain ⟨rfl, -⟩ := hmem x hx
      simp [hc]
    · exact h.isOpen x hx hxpos
  · by_cases heq : c' = c
    · rw [heq, hsame, hmid]
      split <;> simp
    · rw [hother c' heq]
      exact h.single c'
  · by_cases heq : c' = c
    · rw [heq, Function.update_self, hsame, hsent]
      by_cases hdone : j.sent + w = j.frame.length
      · -- the frame is whole now
        refine ⟨payloads ++ [j.payload], fun p hp => ?_, ?_⟩
        · rcases List.mem_append.mp hp with hp | hp
          · exact hfits p hp
          · rw [List.mem_singleton.mp hp]
            exact hj.2
        · rw [hmid, if_pos hdone, hdone, List.take_length]
          simp [Job.frame]
      · refine ⟨payloads, hfits, ?_⟩
        rw [hmid, if_neg hdone]
        simp [Job.sentBytes, Job.frame]
    · rw [Function.update_of_ne heq, hother c' heq]
      exact h.whole c'

end

/-! ## One step -/

structure Inv (s : Agent) : Prop where
  streams : Streams s.socket s.accepted s.stream s.jobs
  replies : ∀ item requests, s.phase ≠ .replyFailed item requests
  failed : ∀ b ∈ s.broadcasts, b.failed = [] ∧ b.payload.length < 2 ^ 32

theorem Inv.init : Inv {} where
  streams := by
    have hjobs : Agent.jobs {} = [] := rfl
    rw [hjobs]
    exact ⟨by simp, by simp, by simp, by simp, by simp, by simp [midFrame],
      fun c => ⟨[], by simp [midFrame]⟩⟩
  replies := by simp
  failed := by simp

section

variable {s : Agent}

/-- What one `send` that does not fail does. -/
theorem send_spec {j : Job} {r : Send} (hlt : j.sent < j.frame.length)
    (hopen : (s.socket j.target.fd).isSome) (hr : fails r = false) :
    s.send j r = (s, .going j) ∨
      ∃ c w, s.socket j.target.fd = some c ∧ 0 < w ∧ j.sent + w ≤ j.frame.length ∧
        s.send j r =
          ({ s with
              stream := Function.update s.stream c (s.stream c ++ (j.frame.drop j.sent).take w) },
            if j.sent + w = j.frame.length then .done
            else .going { j with sent := j.sent + w }) := by
  obtain ⟨c, hc⟩ := Option.isSome_iff_exists.mp hopen
  have hroom : 0 < j.room ∧ j.sent + j.room ≤ j.frame.length := by
    have := length_frame j
    unfold Job.room
    split <;> omega
  cases r with
  | eintr => exact .inl rfl
  | error => exact absurd hr (by simp [fails])
  | took n =>
    cases n with
    | zero => exact absurd hr (by simp [fails])
    | succ n =>
      have hpos : 0 < min (n + 1) j.room := Nat.lt_min.mpr ⟨Nat.succ_pos n, hroom.1⟩
      refine .inr ⟨c, min (n + 1) j.room, hc, hpos, ?_, ?_⟩
      · exact Nat.le_trans (Nat.add_le_add_left (Nat.min_le_right _ _) _) hroom.2
      · unfold Agent.send
        simp only [hc, Nat.ne_of_gt hpos, if_false]

/-- The job of an operation begins where nobody is in the middle of a frame. -/
theorem Op.Alone.midFrame_nil {op : Op} (h : op.Alone s) {j : Job} (hj : op.job s = some j)
    {pre post : List Job} (hjobs : s.jobs = pre ++ j :: post) {c : Nat}
    (hc : s.socket j.target.fd = some c) (hsent : j.sent = 0) :
    midFrame s.socket (pre ++ post) c = [] := by
  refine List.filter_eq_nil_iff.mpr (fun x hx => ?_)
  have hx' : x ∈ s.jobs := by
    rw [hjobs]
    simp only [List.mem_append, List.mem_cons] at hx ⊢
    tauto
  have hne := h.begins j hj hsent x hx'
  rw [hc] at hne
  simpa using hne

theorem jobs_split {i : Nat} {b : Broadcast} (hb : s.broadcasts[i]? = some b) :
    ∃ pre post : List Broadcast, s.broadcasts = pre ++ b :: post ∧
      ∀ b', s.broadcasts.set i b' = pre ++ b' :: post := by
  obtain ⟨hi, hget⟩ := List.getElem?_eq_some_iff.mp hb
  refine ⟨s.broadcasts.take i, s.broadcasts.drop (i + 1), ?_, fun b' => ?_⟩
  · rw [← hget, List.getElem_cons_drop, List.take_append_drop]
  · exact List.set_eq_take_append_cons_drop.trans (if_pos hi)

@[simp] theorem jobs_nextRequest (requests : List Target) :
    (Agent.nextRequest requests).jobs = [] := by
  cases requests <;> rfl

theorem nextRequest_ne (requests : List Target) (item : Target) (rest : List Target) :
    Agent.nextRequest requests ≠ .replyFailed item rest := by
  cases requests <;> simp [Agent.nextRequest]

/-- A step that leaves the calls of `SendFrame` alone. -/
theorem Inv.of_jobs (h : Inv s) {s' : Agent} (hs : Streams s'.socket s'.accepted s'.stream s.jobs)
    (hphase : s'.phase.jobs = s.phase.jobs) (hb : s'.broadcasts = s.broadcasts)
    (hr : ∀ item requests, s'.phase ≠ .replyFailed item requests) : Inv s' := by
  have hjobs : s'.jobs = s.jobs := by rw [Agent.jobs, Agent.jobs, hphase, hb]
  exact ⟨hjobs ▸ hs, hr, hb ▸ h.failed⟩

/-- The server thread begins or ends a call of `SendFrame`. -/
theorem Inv.of_phase (h : Inv s) {p : Phase} {stream : Nat → List UInt8}
    (hs : Streams s.socket s.accepted stream (p.jobs ++ s.broadcasts.filterMap Broadcast.job))
    (hr : ∀ item requests, p ≠ .replyFailed item requests) :
    Inv { s with phase := p, stream } :=
  ⟨hs, hr, h.failed⟩

theorem Inv.poll (h : Inv s) : Inv s.poll := by
  unfold Agent.poll
  split
  · rename_i hp
    exact h.of_jobs h.streams (by rw [hp]; rfl) rfl (by simp)
  · rename_i hp
    exact h.of_jobs h.streams (by rw [hp]; rfl) rfl (by simp)
  · exact h

theorem Inv.accept (h : Inv s) (fd : Nat) : Inv (s.accept fd) := by
  unfold Agent.accept
  split
  · rename_i hp
    split
    · rename_i hnone
      exact h.of_jobs (h.streams.accept hnone) (by rw [hp]; rfl) rfl (by simp)
    · exact h
  · exact h

theorem Inv.push (h : Inv s) : Inv s.push := by
  unfold Agent.push
  split
  · rename_i hp
    exact h.of_jobs h.streams (by rw [hp]; rfl) rfl (by simp)
  · exact h

theorem Inv.receive (h : Inv s) (revents : Nat → Agent.Revents) : Inv (s.receive revents) := by
  unfold Agent.receive
  split
  · rename_i hp
    exact h.of_jobs h.streams (by rw [hp]; rfl) rfl (by simp)
  · exact h

theorem Inv.closeNext (h : Inv s) (hok : Op.Alone s .closeNext) : Inv s.closeNext := by
  have hfree := hok.closes
  unfold Agent.closeNext
  split
  · rename_i t fdsToClose requests hp
    refine h.of_jobs (h.streams.close t.fd (fun x hx hpos => ?_)) (by rw [hp]; rfl) rfl (by simp)
    exact hfree t.fd (by simp [Op.closing, hp]) x hx hpos
  · rename_i requests hp
    exact h.of_jobs h.streams (by rw [hp]; exact jobs_nextRequest requests) rfl
      (nextRequest_ne requests)
  · exact h

theorem Inv.directEvent (h : Inv s) {payload : List UInt8} (hok : Op.Alone s (.directEvent payload)) :
    Inv (s.directEvent payload) := by
  have hfits := hok.fits payload rfl
  unfold Agent.directEvent
  split
  · rename_i item requests hp
    split
    · have hs := h.streams
      rw [Agent.jobs, hp] at hs
      exact h.of_phase (hs.begin [] rfl hfits) (by simp)
    · exact h
  · exact h

theorem Inv.reply (h : Inv s) {payload : List UInt8} (hok : Op.Alone s (.reply payload)) :
    Inv (s.reply payload) := by
  have hfits := hok.fits payload rfl
  unfold Agent.reply
  split
  · rename_i item requests hp
    split
    · have hs := h.streams
      rw [Agent.jobs, hp] at hs
      exact h.of_phase (hs.begin [] rfl hfits) (by simp)
    · exact h.of_jobs h.streams (by rw [hp]; exact jobs_nextRequest requests) rfl
        (nextRequest_ne requests)
  · exact h

/-- What a `send` of a call leaves of it. -/
def Progress.left : Progress → List Job
  | .going j => [j]
  | .done | .failed => []

/-- One `send` of a call of some thread. -/
theorem Inv.send (h : Inv s) {op : Op} (hok : op.appends s ∧ op.Alone s) {j : Job} {r : Send}
    (hj : op.job s = some j) (hr : op.answer = some r) {pre post : List Job}
    (hjobs : s.jobs = pre ++ j :: post) :
    ∃ stream, (s.send j r).1 = { s with stream } ∧ (s.send j r).2 ≠ .failed ∧
      Streams s.socket s.accepted stream (pre ++ (s.send j r).2.left ++ post) := by
  have hs := h.streams
  rw [hjobs] at hs
  obtain ⟨hopen, hfails⟩ := hok.1 j hj
  have hlt := (hs.unfinished j (by simp)).1
  rcases send_spec hlt hopen (hfails r hr) with hsend | ⟨c, w, hc, hpos, hw, hsend⟩
  · rw [hsend]
    exact ⟨s.stream, rfl, by simp, by simpa [Progress.left] using hs⟩
  · rw [hsend]
    refine ⟨_, rfl, ?_, hs.send hc (hok.2.midFrame_nil hj hjobs hc) hpos hw _ ?_⟩
    · split <;> simp
    · split <;> rfl

theorem jobs_cons (pre post : List Broadcast) (b : Broadcast) :
    (pre ++ b :: post).filterMap Broadcast.job =
      pre.filterMap Broadcast.job ++ b.job.toList ++ post.filterMap Broadcast.job := by
  rw [List.filterMap_append, List.filterMap_cons, List.append_assoc]
  cases b.job <;> rfl

theorem Inv.setBroadcast (h : Inv s) {pre post : List Broadcast} {i : Nat} {b b' : Broadcast}
    {stream : Nat → List UInt8} (hset : s.broadcasts.set i b' = pre ++ b' :: post)
    (hmem : ∀ x ∈ pre ++ post, x ∈ s.broadcasts) (hb : b ∈ s.broadcasts)
    (hfailed : b'.failed = b.failed ∧ b'.payload = b.payload)
    (hs : Streams s.socket s.accepted stream ((s.phase.jobs ++ pre.filterMap Broadcast.job) ++
      b'.job.toList ++ post.filterMap Broadcast.job)) :
    Inv (Agent.setBroadcast { s with stream } i b') := by
  have hjobs : (Agent.setBroadcast { s with stream } i b').jobs =
      (s.phase.jobs ++ pre.filterMap Broadcast.job) ++ b'.job.toList ++
        post.filterMap Broadcast.job := by
    rw [Agent.jobs, Agent.setBroadcast, hset, jobs_cons]
    simp only [List.append_assoc]
  refine ⟨hjobs ▸ hs, h.replies, fun x hx => ?_⟩
  rw [Agent.setBroadcast, hset] at hx
  rcases List.mem_append.mp hx with hx | hx
  · exact h.failed x (hmem x (List.mem_append_left _ hx))
  · rcases List.mem_cons.mp hx with rfl | hx
    · rw [hfailed.1, hfailed.2]
      exact h.failed b hb
    · exact h.failed x (hmem x (List.mem_append_right _ hx))

theorem Inv.broadcast (h : Inv s) {payload : List UInt8} (hok : Op.Alone s (.broadcast payload)) :
    Inv (s.broadcast payload) := by
  have hjobs : (s.broadcast payload).jobs = s.jobs := by
    simp [Agent.jobs, Agent.broadcast]
  refine ⟨hjobs ▸ h.streams, h.replies, fun b hb => ?_⟩
  rcases List.mem_append.mp hb with hb | hb
  · exact h.failed b hb
  · rw [List.mem_singleton.mp hb]
    exact ⟨rfl, hok.fits payload rfl⟩

theorem Inv.nextTarget (h : Inv s) (i : Nat) : Inv (s.nextTarget i) := by
  unfold Agent.nextTarget
  split
  · rename_i payload t targets failed hb
    obtain ⟨pre, post, hsplit, hset⟩ := jobs_split hb
    have hmem := List.mem_of_getElem? hb
    have hs := h.streams
    rw [Agent.jobs, hsplit, jobs_cons, ← List.append_assoc, ← List.append_assoc] at hs
    refine h.setBroadcast (hset _) (fun x hx => ?_) hmem ⟨rfl, rfl⟩ ?_
    · rw [hsplit]
      simp only [List.mem_append, List.mem_cons] at hx ⊢
      tauto
    · rw [List.append_assoc]
      exact Streams.begin _ (by simpa using hs) rfl (h.failed _ hmem).2
  · exact h

theorem Inv.cleanup (h : Inv s) (i : Nat) : Inv (s.cleanup i) := by
  unfold Agent.cleanup
  split
  · rename_i payload failed hb
    have hmem := List.mem_of_getElem? hb
    -- nothing has failed
    obtain rfl : failed = [] := (h.failed _ hmem).1
    have hset : s.broadcasts.set i ⟨payload, [], none, []⟩ = s.broadcasts := by
      obtain ⟨hi, hget⟩ := List.getElem?_eq_some_iff.mp hb
      rw [← hget, List.set_getElem_self]
    simp only [Agent.giveUp, List.foldl_nil, Agent.setBroadcast, hset]
    exact h
  · exact h

theorem Inv.serverSend (h : Inv s) {r : Send}
    (hok : (Op.serverSend r).appends s ∧ Op.Alone s (.serverSend r)) : Inv (s.serverSend r) := by
  have hsend : ∀ job, s.phase.jobs = [job] → ∃ stream, (s.send job r).1 = { s with stream } ∧
      (s.send job r).2 ≠ .failed ∧ Streams s.socket s.accepted stream
        ((s.send job r).2.left ++ s.broadcasts.filterMap Broadcast.job) := by
    intro job hp
    have hjobs : s.jobs = [] ++ job :: s.broadcasts.filterMap Broadcast.job := by
      rw [Agent.jobs, hp]
      rfl
    have hjob : (Op.serverSend r).job s = some job := by
      rw [Op.job, hp]
      rfl
    obtain ⟨stream, hstream, hne, hs⟩ := h.send hok hjob rfl hjobs
    exact ⟨stream, hstream, hne, hs⟩
  unfold Agent.serverSend
  split
  · rename_i job item requests hp
    obtain ⟨stream, hstream, -, hs⟩ := hsend job (by rw [hp]; rfl)
    simp only [hstream]
    cases hprog : (s.send job r).2 with
    | going j' =>
      rw [hprog] at hs
      exact h.of_phase hs (by simp)
    | done | failed =>
      rw [hprog] at hs
      exact h.of_phase hs (by simp)
  · rename_i job requests hp
    obtain ⟨stream, hstream, hne, hs⟩ := hsend job (by rw [hp]; rfl)
    simp only [hstream]
    cases hprog : (s.send job r).2 with
    | going j' =>
      rw [hprog] at hs
      exact h.of_phase hs (by simp)
    | done =>
      rw [hprog] at hs
      exact h.of_phase (by rw [jobs_nextRequest]; exact hs) (nextRequest_ne requests)
    | failed => exact absurd hprog hne
  · exact h

theorem Inv.broadcastSend (h : Inv s) {i : Nat} {r : Send}
    (hok : (Op.broadcastSend i r).appends s ∧ Op.Alone s (.broadcastSend i r)) :
    Inv (s.broadcastSend i r) := by
  unfold Agent.broadcastSend
  split
  · rename_i payload targets job failed hb
    obtain ⟨pre, post, hsplit, hset⟩ := jobs_split hb
    have hmem := List.mem_of_getElem? hb
    have hold : ∀ x ∈ pre ++ post, x ∈ s.broadcasts := by
      intro x hx
      rw [hsplit]
      simp only [List.mem_append, List.mem_cons] at hx ⊢
      tauto
    have hjobs : s.jobs = (s.phase.jobs ++ pre.filterMap Broadcast.job) ++
        job :: post.filterMap Broadcast.job := by
      rw [Agent.jobs, hsplit, jobs_cons]
      simp
    have hjob : (Op.broadcastSend i r).job s = some job := by
      rw [Op.job, hb]
      rfl
    obtain ⟨stream, hstream, hne, hs⟩ := h.send hok hjob rfl hjobs
    simp only [hstream]
    cases hprog : (s.send job r).2 with
    | going j' =>
      rw [hprog] at hs
      exact h.setBroadcast (hset _) hold hmem ⟨rfl, rfl⟩ hs
    | done =>
      rw [hprog] at hs
      exact h.setBroadcast (hset _) hold hmem ⟨rfl, rfl⟩ hs
    | failed => exact absurd hprog hne
  · exact h

/-- Nobody is in the middle of a frame on any of the descriptors that are closed. -/
theorem streams_closeAll (ts : List Target) {jobs : List Job} :
    ∀ {s : Agent}, Streams s.socket s.accepted s.stream jobs →
      (∀ t ∈ ts, ∀ x ∈ jobs, 0 < x.sent → x.target.fd ≠ t.fd) →
      Streams (ts.foldl Agent.close s).socket (ts.foldl Agent.close s).accepted
        (ts.foldl Agent.close s).stream jobs ∧
        (ts.foldl Agent.close s).broadcasts = s.broadcasts := by
  induction ts with
  | nil => exact fun hs _ => ⟨hs, rfl⟩
  | cons t ts ih =>
    intro s hs hfree
    obtain ⟨hs', hb⟩ := ih (s := s.close t) (hs.close t.fd (hfree t (by simp)))
      (fun t' ht' => hfree t' (by simp [ht']))
    exact ⟨hs', hb⟩

theorem Inv.stop (h : Inv s) (hok : Op.Alone s .stop) : Inv s.stop := by
  obtain ⟨hs, hb⟩ := streams_closeAll s.clients h.streams
    (fun t ht => hok.closes t.fd (List.mem_map_of_mem ht))
  unfold Agent.stop
  split
  · rename_i hp
    exact h.of_jobs hs (by rw [hp]; rfl) hb (by simp)
  · rename_i hp
    exact h.of_jobs hs (by rw [hp]; rfl) hb (by simp)
  · exact h

/-- Every step that begins its frames alone keeps the streams whole. -/
theorem Inv.step (h : Inv s) (op : Op) (hok : op.appends s ∧ op.Alone s) :
    Inv (ArtPi.Server.step s op) := by
  cases op with
  | poll => exact h.poll
  | accept fd => exact h.accept fd
  | push => exact h.push
  | receive revents => exact h.receive revents
  | closeNext => exact h.closeNext hok.2
  | directEvent payload => exact h.directEvent hok.2
  | reply payload => exact h.reply hok.2
  | serverSend r => exact h.serverSend hok
  | dropReply =>
    have hsame : s.dropReply = s := by
      unfold Agent.dropReply
      split
      · rename_i item requests hp
        exact absurd hp (h.replies item requests)
      · rfl
    change Inv s.dropReply
    rwa [hsame]
  | stop => exact h.stop hok.2
  | broadcast payload => exact h.broadcast hok.2
  | nextTarget i => exact h.nextTarget i
  | broadcastSend i r => exact h.broadcastSend hok
  | cleanup i => exact h.cleanup i

theorem Inv.wholeFrames (h : Inv s) : WholeFrames s := by
  intro c
  obtain ⟨payloads, hfits, hstream⟩ := h.streams.whole c
  refine ⟨payloads, hfits, ?_⟩
  match hmid : midFrame s.socket s.jobs c with
  | [] => exact .inl (by simpa [hmid] using hstream)
  | [j] =>
    have hj : j ∈ midFrame s.socket s.jobs c := by rw [hmid]; exact List.mem_singleton_self j
    have hlt := (h.streams.unfinished j (mem_midFrame.mp hj).1).1
    exact .inr ⟨j, rfl, hlt, by simpa [hmid, Job.sentBytes] using hstream⟩
  | _ :: _ :: _ =>
    have hsingle := h.streams.single c
    rw [hmid] at hsingle
    exact absurd hsingle (by simp)

end

/-! ## Runs -/

/-- Where all calls of `send` append, and no frame is begun or descriptor closed in the middle of another
    frame, every client receives whole frames. -/
theorem run_wholeFrames (ops : List Op)
    (hops : Along step (fun s op => op.appends s ∧ op.Alone s) {} ops) :
    WholeFrames (run step {} ops) :=
  (Along.invariant (fun _ op h hok => h.step op hok) Inv.init hops).wholeFrames

/-- A client connects and a request is read; the reply goes out, and then an event in three pieces. -/
def served : List Op :=
  [.poll, .accept 7, .push, .receive (fun _ => .quiet), .closeNext, .poll,
    .receive (fun _ => .input 1 false), .closeNext, .reply [1, 2], .serverSend (.took 4),
    .serverSend .eintr, .serverSend (.took 9), .broadcast [3, 4, 5], .nextTarget 0,
    .broadcastSend 0 (.took 1), .broadcastSend 0 (.took 3), .broadcastSend 0 (.took 2)]

theorem served_wholeFrames :
    WholeFrames (run step {} served) ∧
      (run step {} served).stream 0 = [0, 0, 0, 2, 1, 2, 0, 0, 0, 3, 3, 4] :=
  ⟨run_wholeFrames served (by decide), by decide⟩

/-- Two threads broadcast to one client, and each sends the length of its frame before either sends its
    payload. -/
def interleaved : List Op :=
  [.poll, .accept 7, .push, .broadcast [1, 2], .broadcast [3, 4, 5], .nextTarget 0, .nextTarget 1,
    .broadcastSend 0 (.took 4), .broadcastSend 1 (.took 4), .broadcastSend 0 (.took 2),
    .broadcastSend 1 (.took 3)]

/-- Whole frames begin with one that is as long as they say, and go on with whole frames. -/
theorem flatten_frames {payloads : List (List UInt8)} {bs : List UInt8}
    (hfits : ∀ p ∈ payloads, p.length < 2 ^ 32) (h : bs = (payloads.map frameBytes).flatten)
    (hne : bs ≠ []) :
    4 + frameLen bs ≤ bs.length ∧ ∃ rest : List (List UInt8), (∀ p ∈ rest, p.length < 2 ^ 32) ∧
      bs.drop (4 + frameLen bs) = (rest.map frameBytes).flatten := by
  cases payloads with
  | nil => exact absurd h hne
  | cons p rest =>
    have hlen : frameLen bs = p.length := by
      rw [h, List.map_cons, List.flatten_cons, frameLen_frameBytes (hfits p (by simp))]
    have hfirst : (frameBytes p).length = 4 + p.length := length_frameBytes p
    rw [hlen, h, List.map_cons, List.flatten_cons]
    refine ⟨?_, rest, fun q hq => hfits q (List.mem_cons_of_mem _ hq), ?_⟩
    · rw [List.length_append, hfirst]
      exact Nat.le_add_right _ _
    · rw [← hfirst, List.drop_left]

theorem not_wholeFrames :
    Along step (fun s op => op.appends s) {} interleaved ∧
      (run step {} interleaved).stream 0 = [0, 0, 0, 2, 0, 0, 0, 3, 1, 2, 3, 4, 5] ∧
      ¬ WholeFrames (run step {} interleaved) := by
  have hstream : (run step {} interleaved).stream 0 = [0, 0, 0, 2, 0, 0, 0, 3, 1, 2, 3, 4, 5] := by
    decide
  refine ⟨by decide, hstream, fun h => ?_⟩
  obtain ⟨payloads, hfits, hwhole | ⟨j, hmid, -⟩⟩ := h 0
  · rw [hstream] at hwhole
    obtain ⟨-, rest, hrest, hdrop⟩ := flatten_frames hfits hwhole (by decide)
    -- the second length is read out of both lengths and both payloads
    exact absurd (flatten_frames hrest hdrop (by decide)).1 (by decide)
  · have hnone : midFrame (run step {} interleaved).socket (run step {} interleaved).jobs 0 = [] := by
      decide
    exact absurd (hnone ▸ hmid) (by simp)

end ArtPi.Server
