import ArtPi.Server.Threads
import Mathlib.Data.List.Nodup
import Mathlib.Data.List.Perm.Basic

set_option autoImplicit false

/-! # Who closes a connection

Four places close the descriptor of a client: the server thread behind the section in which it gives the
client up, the section of a reply that failed, the section of a broadcast that failed, and the end of
the server. Each connection is closed once, and only by a thread that means it, in the runs in which
the sections find the session that their descriptor was read from, and in no others. -/

namespace ArtPi.Server

open Lib Net

/-- The connections that the server thread has taken out of `g_clients` or not put there yet. -/
def Phase.held : Phase → List Target
  | .polled _ _ (some t) => [t]
  | .closing fdsToClose _ => fdsToClose
  | _ => []

/-- The connections that the agent has left to close. -/
def Agent.held (s : Agent) : List Target := s.clients ++ s.phase.held

/-- Every call of `close` hits the connection it is meant for and no connection is meant twice, what is
    left to close is what is open, and nothing is left when the server has stopped. -/
structure ClosedOnce (s : Agent) : Prop where
  hits : ∀ x ∈ s.closes, x.2 = some x.1
  once : (s.closes.map Prod.fst).Nodup
  left : ∀ t, t ∈ s.held ↔ s.socket t.fd = some t.conn
  all : s.phase = .stopped → ∀ c < s.accepted, c ∈ s.closes.map Prod.fst

/-- A section finds the session that its descriptor was read from. -/
def Op.FindsSession (s : Agent) : Op → Prop
  | .receive revents =>
    match s.phase with
    | .polled pfds _ none => ∀ t ∈ pfds, revents t.fd = .hangup →
        ∀ c ∈ s.clients, c.fd = t.fd → c = t
    | _ => True
  | .dropReply =>
    match s.phase with
    | .replyFailed item _ => item ∈ s.clients
    | _ => True
  | .cleanup i =>
    match s.broadcasts[i]? with
    | some ⟨_, [], none, failed⟩ => ∀ t ∈ failed, t ∈ s.clients
    | _ => True
  | _ => True

/-! ## Sockets and the calls of `close` -/

/-- What is open is held, once, and what was accepted before is closed. -/
structure Held (socket : Nat → Option Nat) (accepted : Nat) (closes : List (Nat × Option Nat))
    (held : List Target) : Prop where
  fds : (held.map Target.fd).Nodup
  left : ∀ t, t ∈ held ↔ socket t.fd = some t.conn
  inj : ∀ fd fd' c, socket fd = some c → socket fd' = some c → fd = fd'
  hits : ∀ x ∈ closes, x.2 = some x.1
  once : (closes.map Prod.fst).Nodup
  closed : ∀ c, c ∈ closes.map Prod.fst ↔ c < accepted ∧ ∀ fd, socket fd ≠ some c
  bound : ∀ fd c, socket fd = some c → c < accepted

section

variable {socket : Nat → Option Nat} {accepted : Nat} {closes : List (Nat × Option Nat)}
  {held held' : List Target} {t : Target}

theorem Held.perm (h : Held socket accepted closes held) (hp : held.Perm held') :
    Held socket accepted closes held' :=
  { h with
    fds := (hp.map Target.fd).nodup_iff.mp h.fds
    left := fun t => hp.mem_iff.symm.trans (h.left t) }

theorem Held.accept (h : Held socket accepted closes held) {fd : Nat} (hnone : socket fd = none) :
    Held (Function.update socket fd (some accepted)) (accepted + 1) closes
      (⟨fd, accepted⟩ :: held) := by
  have hnew : ∀ t ∈ held, t.fd ≠ fd := by
    intro t ht heq
    have hopen := (h.left t).mp ht
    rw [heq, hnone] at hopen
    exact absurd hopen (by simp)
  have hold : ∀ fd' c, Function.update socket fd (some accepted) fd' = some c ↔
      fd' = fd ∧ c = accepted ∨ fd' ≠ fd ∧ socket fd' = some c := by
    intro fd' c
    by_cases heq : fd' = fd
    · subst heq
      simp [eq_comm]
    · simp [heq]
  refine ⟨?_, fun t => ?_, fun fd1 fd2 c h1 h2 => ?_, h.hits, h.once, fun c => ?_, fun fd' c hc => ?_⟩
  · rw [List.map_cons, List.nodup_cons]
    refine ⟨fun hmem => ?_, h.fds⟩
    obtain ⟨t, ht, heq⟩ := List.mem_map.mp hmem
    exact hnew t ht heq
  · rw [hold, List.mem_cons, h.left]
    constructor
    · rintro (rfl | ht)
      · exact .inl ⟨rfl, rfl⟩
      · exact .inr ⟨hnew t ((h.left t).mpr ht), ht⟩
    · rintro (⟨hfd, hconn⟩ | ⟨-, ht⟩)
      · exact .inl (by cases t; simp_all)
      · exact .inr ht
  · rcases (hold fd1 c).mp h1 with ⟨e1, hc1⟩ | ⟨-, h1⟩ <;>
      rcases (hold fd2 c).mp h2 with ⟨e2, hc2⟩ | ⟨-, h2⟩
    · rw [e1, e2]
    · exact absurd (h.bound fd2 c h2) (by rw [hc1]; exact Nat.lt_irrefl _)
    · exact absurd (h.bound fd1 c h1) (by rw [hc2]; exact Nat.lt_irrefl _)
    · exact h.inj fd1 fd2 c h1 h2
  · rw [h.closed]
    constructor
    · rintro ⟨hlt, hno⟩
      refine ⟨Nat.lt_succ_of_lt hlt, fun fd' hc => ?_⟩
      rcases (hold fd' c).mp hc with ⟨-, rfl⟩ | ⟨-, hc⟩
      · exact Nat.lt_irrefl _ hlt
      · exact hno fd' hc
    · rintro ⟨hlt, hno⟩
      have hne : c ≠ accepted := fun heq => hno fd ((hold fd c).mpr (.inl ⟨rfl, heq⟩))
      refine ⟨Nat.lt_of_le_of_ne (Nat.le_of_lt_succ hlt) hne, fun fd' hc => ?_⟩
      have hfd : fd' ≠ fd := fun heq => by
        rw [heq, hnone] at hc
        exact absurd hc (by simp)
      exact hno fd' ((hold fd' c).mpr (.inr ⟨hfd, hc⟩))
  · rcases (hold fd' c).mp hc with ⟨-, rfl⟩ | ⟨-, hc⟩
    · exact Nat.lt_succ_self _
    · exact Nat.lt_succ_of_lt (h.bound fd' c hc)

theorem Held.close (h : Held socket accepted closes (t :: held)) :
    Held (Function.update socket t.fd none) accepted ((t.conn, socket t.fd) :: closes) held := by
  have hopen : socket t.fd = some t.conn := (h.left t).mp (by simp)
  have hnodup := List.nodup_cons.mp (List.map_cons ▸ h.fds)
  have hold : ∀ fd' c, Function.update socket t.fd none fd' = some c ↔
      fd' ≠ t.fd ∧ socket fd' = some c := by
    intro fd' c
    by_cases heq : fd' = t.fd
    · subst heq
      simp
    · simp [heq]
  refine ⟨hnodup.2, fun x => ?_, fun fd1 fd2 c h1 h2 => ?_, fun x hx => ?_, ?_, fun c => ?_,
    fun fd' c hc => h.bound fd' c ((hold fd' c).mp hc).2⟩
  · have hleft := h.left x
    rw [List.mem_cons] at hleft
    rw [hold]
    constructor
    · intro hx
      refine ⟨fun heq => hnodup.1 ?_, hleft.mp (.inr hx)⟩
      rw [← heq]
      exact List.mem_map_of_mem hx
    · rintro ⟨hne, hx⟩
      rcases hleft.mpr hx with rfl | hx
      · exact absurd rfl hne
      · exact hx
  · exact h.inj fd1 fd2 c ((hold fd1 c).mp h1).2 ((hold fd2 c).mp h2).2
  · rcases List.mem_cons.mp hx with rfl | hx
    · exact hopen
    · exact h.hits x hx
  · rw [List.map_cons, List.nodup_cons]
    exact ⟨fun hmem => ((h.closed t.conn).mp hmem).2 t.fd hopen, h.once⟩
  · rw [List.map_cons, List.mem_cons, h.closed]
    constructor
    · rintro (rfl | ⟨hlt, hno⟩)
      · refine ⟨h.bound _ _ hopen, fun fd' hc => ?_⟩
        obtain ⟨hne, hc⟩ := (hold fd' _).mp hc
        exact hne (h.inj fd' t.fd _ hc hopen)
      · exact ⟨hlt, fun fd' hc => hno fd' ((hold fd' c).mp hc).2⟩
    · rintro ⟨hlt, hno⟩
      by_cases hc : c = t.conn
      · exact .inl hc
      · refine .inr ⟨hlt, fun fd' hfd => hno fd' ((hold fd' c).mpr ⟨fun heq => hc ?_, hfd⟩)⟩
        rw [heq, hopen] at hfd
        exact (Option.some.inj hfd).symm

end

/-! ## One step -/

/-- The descriptors that a broadcast still works with. -/
def Broadcast.pending (b : Broadcast) : List Target :=
  b.failed ++ ((b.job.map Job.target).toList ++ b.targets)

structure Owns (s : Agent) : Prop where
  held : Held s.socket s.accepted s.closes s.held
  polled : ∀ pfds b t, s.phase = .polled pfds b t → (pfds.map Target.fd).Nodup
  pending : ∀ b ∈ s.broadcasts, (b.pending.map Target.fd).Nodup
  stopped : s.phase = .stopped → s.clients = []

theorem Owns.init : Owns {} where
  held := by
    have hheld : Agent.held {} = [] := rfl
    rw [hheld]
    exact ⟨by simp, by simp, by simp, by simp, by simp, by simp, by simp⟩
  polled := by simp
  pending := by simp
  stopped := fun _ => rfl

section

variable {s : Agent} {clients pfds : List Target} {t : Target}

theorem Owns.closedOnce (h : Owns s) : ClosedOnce s where
  hits := h.held.hits
  once := h.held.once
  left := h.held.left
  all := by
    intro hstop c hc
    have hnone : s.held = [] := by rw [Agent.held, h.stopped hstop, hstop]; rfl
    refine (h.held.closed c).mpr ⟨hc, fun fd hfd => ?_⟩
    have hmem : (⟨fd, c⟩ : Target) ∈ s.held := (h.held.left ⟨fd, c⟩).mpr hfd
    rw [hnone] at hmem
    exact absurd hmem (by simp)

theorem Owns.nodup_clients (h : Owns s) : (s.clients.map Target.fd).Nodup := by
  have hfds := h.held.fds
  rw [Agent.held, List.map_append] at hfds
  exact (List.nodup_append.mp hfds).1

theorem eq_of_fd (hnodup : (clients.map Target.fd).Nodup) {c : Target} (ht : t ∈ clients)
    (hc : c ∈ clients) (hfd : c.fd = t.fd) : c = t :=
  List.inj_on_of_nodup_map hnodup hc ht hfd

/-- The session that `g_clients` finds for a descriptor is taken out. -/
theorem perm_eraseP (hnodup : (clients.map Target.fd).Nodup) (ht : t ∈ clients) :
    clients.Perm (t :: clients.eraseP (fun c => c.fd = t.fd)) := by
  obtain ⟨c, pre, post, -, hc, hsplit, herase⟩ :=
    List.exists_of_eraseP (p := fun c => c.fd = t.fd) ht (by simp)
  obtain rfl : c = t := eq_of_fd hnodup ht (by rw [hsplit]; simp) (by simpa using hc)
  rw [herase]
  nth_rewrite 1 [hsplit]
  exact List.perm_middle

/-- What the section behind `poll` takes out of `g_clients` is what it will close. -/
theorem receiveAll_perm {revents : Nat → Agent.Revents} :
    ∀ {clients : List Target}, (clients.map Target.fd).Nodup →
      (∀ t ∈ pfds, revents t.fd = .hangup → ∀ c ∈ clients, c.fd = t.fd → c = t) →
      clients.Perm ((Agent.receiveAll revents pfds clients).1 ++
        (Agent.receiveAll revents pfds clients).2.1) := by
  induction pfds with
  | nil => exact fun _ _ => by simp [Agent.receiveAll]
  | cons t pfds ih =>
    intro clients hnodup hsame
    have hrest : ∀ {clients' : List Target}, clients'.Sublist clients →
        clients'.Perm ((Agent.receiveAll revents pfds clients').1 ++
          (Agent.receiveAll revents pfds clients').2.1) := fun hsub =>
      ih (hnodup.sublist (hsub.map _)) (fun t' ht' hup c hc =>
        hsame t' (List.mem_cons_of_mem _ ht') hup c (hsub.subset hc))
    cases hfind : clients.find? (fun c => c.fd = t.fd) with
    | none =>
      simp only [Agent.receiveAll, hfind]
      exact hrest (List.Sublist.refl _)
    | some c =>
      have hmem := List.mem_of_find?_eq_some hfind
      have hfd : c.fd = t.fd := by simpa using List.find?_some hfind
      have herase : clients.Perm (c :: clients.eraseP (fun c => c.fd = t.fd)) := by
        simpa only [hfd] using perm_eraseP hnodup hmem
      have hmove := herase.trans
        (((hrest (List.eraseP_sublist)).cons c).trans List.perm_middle.symm)
      simp only [Agent.receiveAll, hfind]
      cases hrev : revents t.fd with
      | quiet => exact hrest (List.Sublist.refl _)
      | hangup =>
        obtain rfl : c = t := hsame t (by simp) hrev c hmem hfd
        exact hmove
      | input requests closed =>
        cases closed with
        | false => exact hrest (List.Sublist.refl _)
        | true => exact hmove

/-- A descriptor of `pfds` that `poll` answers with a hang-up is closed if it finds a session. -/
theorem mem_receiveAll {revents : Nat → Agent.Revents} (hup : revents t.fd = .hangup) :
    ∀ {clients : List Target}, (pfds.map Target.fd).Nodup → t ∈ pfds →
      (∃ c ∈ clients, c.fd = t.fd) → t ∈ (Agent.receiveAll revents pfds clients).2.1 := by
  induction pfds with
  | nil => exact fun _ ht _ => absurd ht (by simp)
  | cons x pfds ih =>
    intro clients hnodup ht hfound
    rw [List.map_cons, List.nodup_cons] at hnodup
    rcases List.mem_cons.mp ht with rfl | ht
    · cases hfind : clients.find? (fun c => c.fd = t.fd) with
      | none =>
        obtain ⟨c, hc, hfd⟩ := hfound
        exact absurd (List.find?_eq_none.mp hfind c hc) (by simpa using hfd)
      | some c =>
        simp only [Agent.receiveAll, hfind, hup]
        exact List.mem_cons_self
    · -- what the section does with another descriptor leaves the session alone
      have hne : x.fd ≠ t.fd := fun heq => hnodup.1 (heq ▸ List.mem_map_of_mem ht)
      have hfound' : ∃ c ∈ clients.eraseP (fun c => c.fd = x.fd), c.fd = t.fd := by
        obtain ⟨c, hc, hfd⟩ := hfound
        refine ⟨c, (List.mem_eraseP_of_neg ?_).mpr hc, hfd⟩
        simpa [hfd] using hne.symm
      cases hfind : clients.find? (fun c => c.fd = x.fd) with
      | none =>
        simp only [Agent.receiveAll, hfind]
        exact ih hnodup.2 ht hfound
      | some c =>
        simp only [Agent.receiveAll, hfind]
        cases revents x.fd with
        | quiet => exact ih hnodup.2 ht hfound
        | hangup => exact List.mem_cons_of_mem _ (ih hnodup.2 ht hfound')
        | input requests closed =>
          cases closed with
          | false => exact ih hnodup.2 ht hfound
          | true => exact List.mem_cons_of_mem _ (ih hnodup.2 ht hfound')

/-- The server thread goes on, and is neither behind `poll` nor at its end. -/
theorem Owns.of_phase (h : Owns s) {s' : Agent}
    (hheld : Held s'.socket s'.accepted s'.closes s'.held) (hb : s'.broadcasts = s.broadcasts)
    (hpolled : ∀ pfds b t, s'.phase ≠ .polled pfds b t) (hstopped : s'.phase ≠ .stopped) : Owns s' where
  held := hheld
  polled := fun pfds b t hp => absurd hp (hpolled pfds b t)
  pending := hb ▸ h.pending
  stopped := fun hp => absurd hp hstopped

theorem nextRequest_free (requests : List Target) :
    (Agent.nextRequest requests).held = [] ∧
      (∀ pfds b t, Agent.nextRequest requests ≠ .polled pfds b t) ∧
        Agent.nextRequest requests ≠ .stopped := by
  cases requests <;> simp [Agent.nextRequest, Phase.held]

theorem Owns.poll (h : Owns s) : Owns s.poll := by
  have hheld := h.held
  have hnodup := h.nodup_clients
  unfold Agent.poll
  split
  · rename_i hp
    rw [Agent.held, hp] at hheld
    refine ⟨hheld, fun pfds b t hpolled => ?_, h.pending, by simp⟩
    rwa [← (Phase.polled.inj hpolled).1]
  · rename_i hp
    rw [Agent.held, hp] at hheld
    refine ⟨hheld, fun pfds b t hpolled => ?_, h.pending, by simp⟩
    rwa [← (Phase.polled.inj hpolled).1]
  · exact h

theorem Owns.accept (h : Owns s) (fd : Nat) : Owns (s.accept fd) := by
  have hheld := h.held
  unfold Agent.accept
  split
  · rename_i pfds answered hp
    rw [Agent.held, hp] at hheld
    split
    · rename_i hnone
      have hopen := hheld.accept hnone
      simp only [Phase.held, List.append_nil] at hopen
      refine ⟨hopen.perm (List.perm_append_singleton _ _).symm, fun pfds' b t hpolled => ?_,
        h.pending, by simp⟩
      rw [← (Phase.polled.inj hpolled).1]
      exact h.polled pfds answered none hp
    · exact h
  · exact h

theorem Owns.push (h : Owns s) : Owns s.push := by
  have hheld := h.held
  unfold Agent.push
  split
  · rename_i pfds answered t hp
    rw [Agent.held, hp] at hheld
    refine ⟨by simpa [Agent.held, Phase.held] using hheld, fun pfds' b t' hpolled => ?_,
      h.pending, by simp⟩
    rw [← (Phase.polled.inj hpolled).1]
    exact h.polled pfds answered _ hp
  · exact h

theorem Owns.receive (h : Owns s) {revents : Nat → Agent.Revents}
    (hok : Op.FindsSession s (.receive revents)) : Owns (s.receive revents) := by
  have hheld := h.held
  unfold Agent.receive
  unfold Op.FindsSession at hok
  split
  · rename_i pfds answered hp
    rw [Agent.held, hp] at hheld
    simp only [Phase.held, List.append_nil] at hheld
    simp only [hp] at hok
    exact h.of_phase (hheld.perm (receiveAll_perm h.nodup_clients hok)) rfl (by simp) (by simp)
  · exact h

theorem Owns.closeNext (h : Owns s) : Owns s.closeNext := by
  have hheld := h.held
  unfold Agent.closeNext
  split
  · rename_i t fdsToClose requests hp
    rw [Agent.held, hp] at hheld
    have hclose := (hheld.perm List.perm_middle).close
    exact h.of_phase hclose rfl (by simp) (by simp)
  · rename_i requests hp
    obtain ⟨hfree, hpolled, hstopped⟩ := nextRequest_free requests
    rw [Agent.held, hp] at hheld
    refine h.of_phase ?_ rfl hpolled hstopped
    rw [Agent.held, hfree]
    exact hheld
  · exact h

/-- A `send` changes nothing but a stream. -/
theorem send_stream (s : Agent) (j : Job) (r : Send) :
    (∃ stream, (s.send j r).1 = { s with stream }) ∧
      ∀ j', (s.send j r).2 = .going j' → j'.target = j.target := by
  unfold Agent.send
  cases r with
  | eintr =>
    refine ⟨⟨s.stream, rfl⟩, fun j' hj' => ?_⟩
    rw [← Progress.going.inj hj']
  | error => exact ⟨⟨s.stream, rfl⟩, by simp⟩
  | took n =>
    simp only
    split
    · exact ⟨⟨s.stream, rfl⟩, by simp⟩
    · split
      · exact ⟨⟨s.stream, rfl⟩, by simp⟩
      · refine ⟨⟨_, rfl⟩, fun j' hj' => ?_⟩
        split at hj'
        · exact absurd hj' (by simp)
        · rw [← Progress.going.inj hj']

/-- The server thread goes from one place to another at which it holds nothing. -/
theorem Owns.free (h : Owns s) (hfree : s.phase.held = []) {p : Phase}
    {stream : Nat → List UInt8} (hp : p.held = []) (hpolled : ∀ pfds b t, p ≠ .polled pfds b t)
    (hstopped : p ≠ .stopped) : Owns { s with phase := p, stream } := by
  have hheld := h.held
  rw [Agent.held, hfree] at hheld
  refine h.of_phase ?_ rfl hpolled hstopped
  rw [Agent.held, hp]
  exact hheld

theorem Owns.directEvent (h : Owns s) (payload : List UInt8) : Owns (s.directEvent payload) := by
  unfold Agent.directEvent
  split
  · rename_i hp
    split
    · exact h.free (by rw [hp]; rfl) rfl (by simp) (by simp)
    · exact h
  · exact h

theorem Owns.reply (h : Owns s) (payload : List UInt8) : Owns (s.reply payload) := by
  unfold Agent.reply
  split
  · rename_i item requests hp
    obtain ⟨hfree, hpolled, hstopped⟩ := nextRequest_free requests
    split
    · exact h.free (by rw [hp]; rfl) rfl (by simp) (by simp)
    · exact h.free (by rw [hp]; rfl) hfree hpolled hstopped
  · exact h

theorem Owns.serverSend (h : Owns s) (r : Send) : Owns (s.serverSend r) := by
  unfold Agent.serverSend
  split
  · rename_i job item requests hp
    obtain ⟨⟨stream, hstream⟩, -⟩ := send_stream s job r
    simp only [hstream]
    cases (s.send job r).2 <;> exact h.free (by rw [hp]; rfl) rfl (by simp) (by simp)
  · rename_i job requests hp
    obtain ⟨⟨stream, hstream⟩, -⟩ := send_stream s job r
    obtain ⟨hfree, hpolled, hstopped⟩ := nextRequest_free requests
    simp only [hstream]
    cases (s.send job r).2 with
    | going j' => exact h.free (by rw [hp]; rfl) rfl (by simp) (by simp)
    | done => exact h.free (by rw [hp]; rfl) hfree hpolled hstopped
    | failed => exact h.free (by rw [hp]; rfl) rfl (by simp) (by simp)
  · exact h

theorem Owns.broadcast (h : Owns s) (payload : List UInt8) : Owns (s.broadcast payload) where
  held := h.held
  polled := h.polled
  stopped := h.stopped
  pending := by
    intro b hb
    rcases List.mem_append.mp hb with hb | hb
    · exact h.pending b hb
    · rw [List.mem_singleton.mp hb]
      exact h.nodup_clients

theorem Owns.setBroadcast (h : Owns s) {i : Nat} {b b' : Broadcast} (hb : s.broadcasts[i]? = some b)
    (hsub : b'.pending.Sublist b.pending) (stream : Nat → List UInt8) :
    Owns (Agent.setBroadcast { s with stream } i b') where
  held := h.held
  polled := h.polled
  stopped := h.stopped
  pending := by
    intro x hx
    rcases List.mem_or_eq_of_mem_set hx with hx | rfl
    · exact h.pending x hx
    · exact (h.pending b (List.mem_of_getElem? hb)).sublist (hsub.map _)

theorem Owns.nextTarget (h : Owns s) (i : Nat) : Owns (s.nextTarget i) := by
  unfold Agent.nextTarget
  split
  · rename_i payload t targets failed hb
    refine h.setBroadcast hb ?_ s.stream
    exact List.Sublist.refl _
  · exact h

theorem Owns.broadcastSend (h : Owns s) (i : Nat) (r : Send) : Owns (s.broadcastSend i r) := by
  unfold Agent.broadcastSend
  split
  · rename_i payload targets job failed hb
    obtain ⟨⟨stream, hstream⟩, htarget⟩ := send_stream s job r
    simp only [hstream]
    cases hprog : (s.send job r).2 with
    | going j' =>
      refine h.setBroadcast hb ?_ stream
      simp [Broadcast.pending, htarget j' hprog]
    | done =>
      refine h.setBroadcast hb ?_ stream
      exact (List.Sublist.refl failed).append (List.sublist_cons_self _ _)
    | failed =>
      refine h.setBroadcast hb ?_ stream
      simp [Broadcast.pending]
  · exact h

theorem Owns.dropReply (h : Owns s) (hok : Op.FindsSession s .dropReply) : Owns s.dropReply := by
  have hheld := h.held
  unfold Agent.dropReply
  unfold Op.FindsSession at hok
  split
  · rename_i item requests hp
    rw [Agent.held, hp] at hheld
    simp only [Phase.held, List.append_nil] at hheld
    simp only [hp] at hok
    obtain ⟨hfree, hpolled, hstopped⟩ := nextRequest_free requests
    refine h.of_phase ?_ rfl hpolled hstopped
    rw [Agent.held, hfree]
    exact (hheld.perm (perm_eraseP h.nodup_clients hok)).close.perm (by simp [Agent.drop, Agent.close])
  · exact h

theorem held_closeAll (ts rest : List Target) :
    ∀ {s : Agent}, Held s.socket s.accepted s.closes (ts ++ rest) →
      Held (ts.foldl Agent.close s).socket (ts.foldl Agent.close s).accepted
        (ts.foldl Agent.close s).closes rest ∧
        (ts.foldl Agent.close s).broadcasts = s.broadcasts := by
  induction ts with
  | nil => exact fun h => ⟨h, rfl⟩
  | cons t ts ih =>
    intro s h
    exact ih (s := s.close t) h.close

theorem Owns.stop (h : Owns s) : Owns s.stop := by
  have hall : s.phase.held = [] →
      Owns { s.clients.foldl Agent.close s with clients := [], phase := .stopped } := by
    intro hfree
    have hheld := h.held
    rw [Agent.held, hfree] at hheld
    obtain ⟨hclosed, hb⟩ := held_closeAll s.clients [] hheld
    exact ⟨hclosed, by simp, fun b => hb ▸ h.pending b, fun _ => rfl⟩
  unfold Agent.stop
  split
  · rename_i hp
    exact hall (by rw [hp]; rfl)
  · rename_i hp
    exact hall (by rw [hp]; rfl)
  · exact h

/-- The sessions of all the clients that are given up are there. -/
theorem held_giveUp (rest : List Target) {failed : List Target} (hnodup : (failed.map Target.fd).Nodup) :
    ∀ {s : Agent}, Held s.socket s.accepted s.closes (s.clients ++ rest) →
      (∀ t ∈ failed, t ∈ s.clients) →
      Held (s.giveUp failed).socket (s.giveUp failed).accepted (s.giveUp failed).closes
        ((s.giveUp failed).clients ++ rest) := by
  induction failed with
  | nil => exact fun h _ => h
  | cons t failed ih =>
    intro s h hmem
    rw [List.map_cons, List.nodup_cons] at hnodup
    have hclients : (s.clients.map Target.fd).Nodup := by
      have hfds := h.fds
      rw [List.map_append] at hfds
      exact (List.nodup_append.mp hfds).1
    have hperm := perm_eraseP hclients (hmem t List.mem_cons_self)
    have hclose := (h.perm (hperm.append_right rest)).close
    refine ih hnodup.2 (s := (s.drop t.fd).close t) hclose (fun t' ht' => ?_)
    -- the others have other descriptors
    have hne : t'.fd ≠ t.fd := fun heq => hnodup.1 (heq ▸ List.mem_map_of_mem ht')
    exact (List.mem_eraseP_of_neg (by simpa using hne)).mpr (hmem t' (List.mem_cons_of_mem _ ht'))

/-- What giving up clients leaves alone, and what it does to each of them. -/
theorem giveUp_spec (failed : List Target) :
    ∀ s : Agent, (s.giveUp failed).phase = s.phase ∧ (s.giveUp failed).broadcasts = s.broadcasts ∧
      (s.giveUp failed).clients.Sublist s.clients ∧
      (∀ fd, (s.giveUp failed).socket fd = s.socket fd ∨ (s.giveUp failed).socket fd = none) ∧
      (∀ x ∈ s.closes, x ∈ (s.giveUp failed).closes) ∧
      ∀ t ∈ failed, (s.giveUp failed).socket t.fd = none ∧
        ∃ c, (c = s.socket t.fd ∨ c = none) ∧ (t.conn, c) ∈ (s.giveUp failed).closes := by
  induction failed with
  | nil => exact fun s => ⟨rfl, rfl, List.Sublist.refl _, fun fd => .inl rfl, fun x hx => hx, by simp⟩
  | cons t failed ih =>
    intro s
    obtain ⟨hphase, hb, hclients, hsocket, hcloses, hfailed⟩ := ih ((s.drop t.fd).close t)
    have hnow : ∀ fd, ((s.drop t.fd).close t).socket fd = s.socket fd ∨
        ((s.drop t.fd).close t).socket fd = none := by
      intro fd
      by_cases heq : fd = t.fd
      · exact .inr (by simp [Agent.close, heq])
      · exact .inl (by simp [Agent.close, Agent.drop, heq])
    have hthis : ((s.drop t.fd).close t).socket t.fd = none := by simp [Agent.close]
    refine ⟨hphase, hb, hclients.trans List.eraseP_sublist, fun fd => ?_,
      fun x hx => hcloses x (List.mem_cons_of_mem _ hx), fun t' ht' => ?_⟩
    · rcases hsocket fd with hfd | hfd
      · exact (hnow fd).imp (hfd.trans) (hfd.trans)
      · exact .inr hfd
    · rcases List.mem_cons.mp ht' with rfl | ht'
      · refine ⟨?_, s.socket t'.fd, .inl rfl, hcloses _ List.mem_cons_self⟩
        rcases hsocket t'.fd with hfd | hfd
        · exact hfd.trans hthis
        · exact hfd
      · obtain ⟨hnone, c, hc, hmem⟩ := hfailed t' ht'
        refine ⟨hnone, c, ?_, hmem⟩
        rcases hc with hc | hc
        · exact (hnow t'.fd).imp hc.trans hc.trans
        · exact .inr hc

theorem Owns.cleanup (h : Owns s) {i : Nat} (hok : Op.FindsSession s (.cleanup i)) :
    Owns (s.cleanup i) := by
  unfold Agent.cleanup
  unfold Op.FindsSession at hok
  split
  · rename_i payload failed hb
    simp only [hb] at hok
    have hnodup := h.pending _ (List.mem_of_getElem? hb)
    simp only [Broadcast.pending, Option.map_none, Option.toList_none, List.append_nil] at hnodup
    obtain ⟨hphase, hbs, hsub, -⟩ := giveUp_spec failed s
    have hheld := held_giveUp s.phase.held hnodup h.held hok
    have hdone : Owns (s.giveUp failed) := by
      refine ⟨?_, fun pfds b t hp => h.polled pfds b t (hphase ▸ hp), hbs ▸ h.pending, fun hp => ?_⟩
      · rw [Agent.held, hphase]
        exact hheld
      · rw [h.stopped (hphase ▸ hp)] at hsub
        exact List.sublist_nil.mp hsub
    exact hdone.setBroadcast (hbs ▸ hb) (by simp [Broadcast.pending]) (s.giveUp failed).stream
  · exact h

theorem Owns.step (h : Owns s) {op : Op} (hok : op.FindsSession s) :
    Owns (ArtPi.Server.step s op) := by
  cases op with
  | poll => exact h.poll
  | accept fd => exact h.accept fd
  | push => exact h.push
  | receive revents => exact h.receive hok
  | closeNext => exact h.closeNext
  | directEvent payload => exact h.directEvent payload
  | reply payload => exact h.reply payload
  | serverSend r => exact h.serverSend r
  | dropReply => exact h.dropReply hok
  | stop => exact h.stop
  | broadcast payload => exact h.broadcast payload
  | nextTarget i => exact h.nextTarget i
  | broadcastSend i r => exact h.broadcastSend i r
  | cleanup i => exact h.cleanup hok

/-! ## Sections that do not find the session -/

theorem Owns.receive_breaks (h : Owns s) {revents : Nat → Agent.Revents}
    (hnot : ¬ Op.FindsSession s (.receive revents)) : ¬ ClosedOnce (s.receive revents) := by
  intro hprop
  simp only [Op.FindsSession] at hnot
  split at hnot
  · rename_i pfds answered hp
    push Not at hnot
    obtain ⟨t, ht, hup, c, hc, hfd, hne⟩ := hnot
    have hmem := mem_receiveAll hup (h.polled pfds answered none hp) ht ⟨c, hc, hfd⟩
    have hopen : s.socket c.fd = some c.conn := (h.held.left c).mp (List.mem_append_left _ hc)
    have hreceive : s.receive revents =
        { s with
          clients := (Agent.receiveAll revents pfds s.clients).1
          phase := .closing (Agent.receiveAll revents pfds s.clients).2.1
            (Agent.receiveAll revents pfds s.clients).2.2 } := by
      unfold Agent.receive
      simp only [hp]
    -- the server thread will close the descriptor, behind which there is another connection
    have hleft := (hprop.left t).mp (by
      rw [hreceive]
      exact List.mem_append_right _ hmem)
    rw [hreceive] at hleft
    simp only [← hfd, hopen, Option.some.injEq] at hleft
    exact hne (by cases c; cases t; simp_all)
  · exact hnot trivial

theorem Owns.dropReply_breaks (h : Owns s) (hnot : ¬ Op.FindsSession s .dropReply) :
    ¬ ClosedOnce s.dropReply := by
  intro hprop
  simp only [Op.FindsSession] at hnot
  split at hnot
  · rename_i item requests hp
    have hhit : s.socket item.fd = some item.conn := by
      refine hprop.hits (item.conn, s.socket item.fd) ?_
      unfold Agent.dropReply
      simp [hp, Agent.close, Agent.drop]
    have hmem := (h.held.left item).mpr hhit
    rw [Agent.held, hp] at hmem
    exact hnot (by simpa [Phase.held] using hmem)
  · exact hnot trivial

theorem Owns.cleanup_breaks (h : Owns s) {i : Nat} (hnot : ¬ Op.FindsSession s (.cleanup i)) :
    ¬ ClosedOnce (s.cleanup i) := by
  intro hprop
  simp only [Op.FindsSession] at hnot
  split at hnot
  · rename_i payload failed hb
    push Not at hnot
    obtain ⟨t, ht, hgone⟩ := hnot
    have hcleanup : s.cleanup i = (s.giveUp failed).setBroadcast i ⟨payload, [], none, []⟩ := by
      unfold Agent.cleanup
      simp only [hb]
    rw [hcleanup] at hprop
    obtain ⟨hphase, -, -, -, -, hfailed⟩ := giveUp_spec failed s
    obtain ⟨hnone, c, hc, hclose⟩ := hfailed t ht
    have hhit : c = some t.conn := hprop.hits (t.conn, c) hclose
    have hopen : s.socket t.fd = some t.conn := by
      rcases hc with rfl | rfl
      · exact hhit
      · exact absurd hhit (by simp)
    -- the server thread holds it, and will close it once more
    have hheld : t ∈ s.phase.held :=
      (List.mem_append.mp ((h.held.left t).mpr hopen)).resolve_left hgone
    have hleft := (hprop.left t).mp (List.mem_append_right _ (by
      change t ∈ (s.giveUp failed).phase.held
      rwa [hphase]))
    exact absurd (hnone.symm.trans hleft) (by simp)
  · exact hnot trivial

theorem Owns.breaks (h : Owns s) {op : Op} (hnot : ¬ op.FindsSession s) :
    ¬ ClosedOnce (ArtPi.Server.step s op) := by
  cases op with
  | receive revents => exact h.receive_breaks hnot
  | dropReply => exact h.dropReply_breaks hnot
  | cleanup i => exact h.cleanup_breaks hnot
  | _ => exact absurd trivial hnot

end

/-! ## Runs -/

/-- Every connection is closed once, in all states of a run, exactly if the sections find the sessions
    that their descriptors were read from. -/
theorem closedOnce_iff (ops : List Op) :
    Along step (fun s op => op.FindsSession s) {} ops ↔ ∀ k, ClosedOnce (run step {} (ops.take k)) :=
  Along.iff_forall_take_of_breaks (fun _ h => h.closedOnce) (fun _ _ h hok => h.step hok)
    (fun _ _ h hnot => h.breaks hnot) Owns.init

/-- Two broadcasts fail on the only client, and both close its descriptor. -/
def closedTwice : List Op :=
  [.poll, .accept 7, .push, .broadcast [1], .broadcast [2], .nextTarget 0, .nextTarget 1,
    .broadcastSend 0 .error, .broadcastSend 1 .error, .cleanup 0, .cleanup 1]

/-- Before the second broadcast closes the descriptor, it is a new client's. -/
def newcomer : List Op :=
  closedTwice.take 10 ++ [.receive (fun _ => .quiet), .closeNext, .poll, .accept 7, .push, .cleanup 1]

/-- A broadcast fails on a client that hangs up, and a new client has its descriptor when the section
    behind `poll` comes to it. -/
def stalePoll : List Op :=
  [.poll, .accept 7, .push, .receive (fun _ => .quiet), .closeNext, .broadcast [1], .nextTarget 0,
    .broadcastSend 0 .error, .poll, .cleanup 0, .accept 7, .push, .receive (fun _ => .hangup),
    .closeNext]

theorem not_closedOnce :
    (run step {} closedTwice).closes = [(0, none), (0, some 0)] ∧
      ¬ ClosedOnce (run step {} closedTwice) ∧
      (run step {} newcomer).closes = [(0, some 1), (0, some 0)] ∧
      (run step {} newcomer).clients = [] ∧ ¬ ClosedOnce (run step {} newcomer) ∧
      (run step {} stalePoll).closes = [(0, some 1), (0, some 0)] ∧
      ¬ ClosedOnce (run step {} stalePoll) := by
  have htwice : (run step {} closedTwice).closes = [(0, none), (0, some 0)] := by decide
  have hnew : (run step {} newcomer).closes = [(0, some 1), (0, some 0)] := by decide
  have hstale : (run step {} stalePoll).closes = [(0, some 1), (0, some 0)] := by decide
  refine ⟨htwice, fun h => ?_, hnew, by decide, fun h => ?_, hstale, fun h => ?_⟩
  · have hhits := h.hits
    rw [htwice] at hhits
    exact absurd (hhits (0, none) (by simp)) (by simp)
  · have hhits := h.hits
    rw [hnew] at hhits
    exact absurd (hhits (0, some 1) (by simp)) (by simp)
  · have hhits := h.hits
    rw [hstale] at hhits
    exact absurd (hhits (0, some 1) (by simp)) (by simp)

end ArtPi.Server
