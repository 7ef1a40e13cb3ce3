import ArtPi.Lib.Runs
import Mathlib.Algebra.Order.Ring.Int
import Mathlib.Data.List.Nodup
import Mathlib.Logic.Function.Basic

set_option autoImplicit false

/-! # Session ids (`src/agent/agent_java_hook.cpp`, `agent_trace.cpp`, `agent_debug.cpp`)

Hooks, traces and breakpoints each have a table and a counter of their own. A script gets an id for
every session it makes: hooks and breakpoints print it, a trace is a handle that holds it. Ids of
hooks and traces are 32 bits wide where scripts see them. Stopping all traces or all breakpoints sets
the counter back, and the next session gets an id that a script may still hold.

Every section that holds the lock of a table is one step. A session is known by its place in the order
in which the sessions of its kind were made. -/

namespace ArtPi.Agent

open ArtPi.Lib

inductive Kind where
  | hook | trace | breakpoint
  deriving DecidableEq

/-- `static_cast<int32_t>` -/
def int32 (n : Int) : Int := if n % 2 ^ 32 < 2 ^ 31 then n % 2 ^ 32 else n % 2 ^ 32 - 2 ^ 32

/-- The width of `g_nextHookId` is that of an `int`, that of the other counters is 64 bits. -/
def Kind.modulus : Kind → Nat
  | .hook => 2 ^ 32
  | .trace | .breakpoint => 2 ^ 64

/-- The id a script sees. -/
def Kind.shown (n : Nat) : Kind → Int
  | .hook | .trace => int32 n
  | .breakpoint => n

/-- A hook with a negative id is reported as a failure. -/
def Kind.hands (n : Nat) : Kind → Bool
  | .hook => 0 ≤ Kind.hook.shown n
  | .trace | .breakpoint => true

/-- A session in a table. -/
structure SessionEntry where
  serial : Nat
  id : Nat
  target : Nat
  active : Bool := true

structure SessionTable where
  next : Nat := 0
  entries : List SessionEntry := []
  /-- how many sessions were made -/
  created : Nat := 0
  /-- the ids that were handed out, each with its session, the newest first -/
  handed : List (Int × Nat) := []
  /-- the ids through which a session was stopped -/
  stopped : List (Int × Nat) := []

namespace SessionTable

variable (tb : SessionTable)

/-- The end of `InstallJavaMethodHook`, `RegisterSession`, and the end of `JsBreak` and
    `JsBreakNative`. -/
def register (k : Kind) (target : Nat) : SessionTable :=
  { tb with
    next := (tb.next + 1) % k.modulus
    entries := tb.entries ++ [{ serial := tb.created, id := tb.next, target }]
    created := tb.created + 1
    handed := if k.hands tb.next then (k.shown tb.next, tb.created) :: tb.handed else tb.handed }

/-- The first active session with an id is stopped. -/
def deactivate (p : SessionEntry → Bool) : List SessionEntry → List SessionEntry
  | [] => []
  | e :: es => if p e && e.active then { e with active := false } :: es else e :: deactivate p es

/-- What an id of a script selects: `JsJavaUnhook` compares ids as they are, `StopTraceById` refuses a
    negative one and compares the others at 64 bits, and there is nothing for breakpoints. -/
def selects (k : Kind) (id : Int) (e : SessionEntry) : Bool :=
  match k with
  | .hook => int32 e.id = id
  | .trace => 0 ≤ id && e.id = id.toNat
  | .breakpoint => false

/-- `JsJavaUnhook`, `JsTraceStop` and `JsUntrace` with a number of a script. -/
def stop (k : Kind) (n : Int) : SessionTable :=
  let id := int32 n
  { tb with
    entries := deactivate (selects k id) tb.entries
    stopped := ((tb.entries.find? (fun e => selects k id e && e.active)).map
      (fun e => (id, e.serial))).toList ++ tb.stopped }

/-- `JavaUnhookAllCount`, `TraceStopAll` and `DebugDetachAll`. -/
def stopAll (k : Kind) : SessionTable :=
  match k with
  | .hook => { tb with entries := [] }
  | .trace | .breakpoint => { tb with entries := [], next := 0 }

/-- `JavaUnhookMethod`, `TraceStopByArtMethod`, `BreakpointClearByArtMethod`, and what
    `StopExistingTrace` does for a native target. -/
def release (k : Kind) (target : Nat) : SessionTable :=
  match k with
  | .hook =>
    { tb with entries := tb.entries.map (fun e =>
        if e.active && e.target = target then { e with active := false } else e) }
  | .trace | .breakpoint =>
    { tb with entries := tb.entries.filter (fun e => !(e.active && e.target = target)) }

end SessionTable

abbrev Sessions := Kind → SessionTable

inductive SessionOp where
  | register (k : Kind) (target : Nat)
  | stop (k : Kind) (id : Int)
  | stopAll (k : Kind)
  | release (k : Kind) (target : Nat)

def SessionOp.kind : SessionOp → Kind
  | .register k _ | .stop k _ | .stopAll k | .release k _ => k

def SessionOp.apply (tb : SessionTable) : SessionOp → SessionTable
  | .register k target => tb.register k target
  | .stop k id => tb.stop k id
  | .stopAll k => tb.stopAll k
  | .release k target => tb.release k target

def Sessions.step (s : Sessions) (op : SessionOp) : Sessions :=
  Function.update s op.kind (op.apply (s op.kind))

def Sessions.init : Sessions := fun _ => {}

/-! ## Ids are not reused -/

/-- The ids handed out differ, and a session is stopped only through an id that was handed out for
    it and for no other one. -/
structure SessionTable.Unique (tb : SessionTable) : Prop where
  nodup : (tb.handed.map Prod.fst).Nodup
  stale : ∀ x ∈ tb.stopped, ∀ y ∈ tb.handed, y.1 = x.1 → y.2 = x.2

def Sessions.Unique (s : Sessions) : Prop := ∀ k, (s k).Unique

/-- As many sessions as there are ids. -/
def Kind.limit : Kind → Nat
  | .hook | .trace => 2 ^ 32
  | .breakpoint => 2 ^ 64

/-- A session is made while its counter counts all sessions of its kind, and ids are left. -/
def SessionOp.counted (s : Sessions) : SessionOp → Prop
  | .register k _ => (s k).next = (s k).created ∧ (s k).created < k.limit
  | .stop .. | .stopAll .. | .release .. => True

instance SessionOp.decidableCounted (s : Sessions) : ∀ op : SessionOp, Decidable (op.counted s)
  | .register k _ =>
    inferInstanceAs (Decidable ((s k).next = (s k).created ∧ (s k).created < k.limit))
  | .stop .. | .stopAll .. | .release .. => inferInstanceAs (Decidable True)

/-! ## The invariant -/

theorem int32_inj {m n : Nat} (hm : m < 2 ^ 32) (hn : n < 2 ^ 32) (h : int32 m = int32 n) : m = n := by
  unfold int32 at h
  split at h <;> split at h <;> omega

theorem shown_inj {k : Kind} {m n : Nat} (hm : m < k.limit) (hn : n < k.limit)
    (h : k.shown m = k.shown n) : m = n := by
  cases k with
  | hook => exact int32_inj hm hn h
  | trace => exact int32_inj hm hn h
  | breakpoint => exact Int.ofNat.inj h

structure SessionTable.Inv (k : Kind) (tb : SessionTable) : Prop where
  next : tb.next = tb.created % k.modulus ∨ tb.next = 0
  bound : tb.created ≤ k.limit
  entries : ∀ e ∈ tb.entries, e.id = e.serial ∧ e.serial < tb.created
  handed : ∀ x ∈ tb.handed, x.1 = k.shown x.2 ∧ x.2 < tb.created
  first : 0 < tb.created → (k.shown 0, 0) ∈ tb.handed
  nodup : (tb.handed.map Prod.fst).Nodup
  stopped : ∀ x ∈ tb.stopped, x.1 = k.shown x.2 ∧ x.2 < tb.created

section

variable {k : Kind} {tb : SessionTable}

theorem SessionTable.Inv.init : SessionTable.Inv k {} where
  next := .inr rfl
  bound := Nat.zero_le _
  entries := by simp
  handed := by simp
  first := by simp
  nodup := by simp
  stopped := by simp

theorem SessionTable.Inv.unique (h : SessionTable.Inv k tb) : tb.Unique where
  nodup := h.nodup
  stale := by
    intro x hx y hy heq
    obtain ⟨hx1, hx2⟩ := h.stopped x hx
    obtain ⟨hy1, hy2⟩ := h.handed y hy
    rw [hx1, hy1] at heq
    exact shown_inj (Nat.lt_of_lt_of_le hy2 h.bound) (Nat.lt_of_lt_of_le hx2 h.bound) heq

theorem SessionTable.Inv.withEntries (h : SessionTable.Inv k tb) (entries : List SessionEntry)
    (hentries : ∀ e ∈ entries, e.id = e.serial ∧ e.serial < tb.created) :
    SessionTable.Inv k { tb with entries := entries } :=
  ⟨h.next, h.bound, hentries, h.handed, h.first, h.nodup, h.stopped⟩

theorem SessionTable.Inv.register (h : SessionTable.Inv k tb) (target : Nat)
    (hnext : tb.next = tb.created) (hlt : tb.created < k.limit) :
    SessionTable.Inv k (tb.register k target) where
  next := .inl (by simp [SessionTable.register, hnext])
  bound := hlt
  entries := by
    intro e he
    rcases List.mem_append.mp he with he | he
    · obtain ⟨hid, hserial⟩ := h.entries e he
      exact ⟨hid, Nat.lt_succ_of_lt hserial⟩
    · rw [List.mem_singleton.mp he]
      exact ⟨hnext, Nat.lt_succ_self _⟩
  handed := by
    intro x hx
    have hold : x ∈ tb.handed → x.1 = k.shown x.2 ∧ x.2 < tb.created + 1 :=
      fun hx => ⟨(h.handed x hx).1, Nat.lt_succ_of_lt (h.handed x hx).2⟩
    simp only [SessionTable.register] at hx
    split at hx
    · rcases List.mem_cons.mp hx with rfl | hx
      · exact ⟨by rw [hnext], Nat.lt_succ_self _⟩
      · exact hold hx
    · exact hold hx
  first := by
    intro _
    simp only [SessionTable.register]
    by_cases hzero : tb.created = 0
    · -- id 0 is not negative
      have hhands : k.hands 0 = true := by cases k <;> decide
      rw [hnext, hzero, if_pos hhands]
      exact List.mem_cons_self
    · have hmem := h.first (Nat.pos_of_ne_zero hzero)
      split
      · exact List.mem_cons_of_mem _ hmem
      · exact hmem
  nodup := by
    simp only [SessionTable.register]
    split
    · refine List.nodup_cons.mpr ⟨fun hmem => ?_, h.nodup⟩
      obtain ⟨x, hx, hxid⟩ := List.mem_map.mp hmem
      obtain ⟨hx1, hx2⟩ := h.handed x hx
      rw [hx1, hnext] at hxid
      have hsame := shown_inj (Nat.lt_trans hx2 hlt) hlt hxid
      exact absurd hsame (Nat.ne_of_lt hx2)
    · exact h.nodup
  stopped := fun x hx => ⟨(h.stopped x hx).1, Nat.lt_succ_of_lt (h.stopped x hx).2⟩

/-- An id that selects a session is the one a script sees for it. -/
theorem selects_shown {e : SessionEntry} {n : Int} (h : SessionTable.selects k (int32 n) e = true) :
    int32 n = k.shown e.id := by
  cases k with
  | hook =>
    simp only [SessionTable.selects, decide_eq_true_eq] at h
    rw [Kind.shown, h]
  | trace =>
    simp only [SessionTable.selects, Bool.and_eq_true, decide_eq_true_eq] at h
    obtain ⟨hpos, hid⟩ := h
    -- the id is a number of 32 bits that is not negative
    rw [Kind.shown, hid, Int.toNat_of_nonneg hpos]
    unfold int32 at hpos ⊢
    split at hpos <;> split <;> omega
  | breakpoint => exact absurd h (by simp [SessionTable.selects])

theorem mem_deactivate {p : SessionEntry → Bool} {es : List SessionEntry} {e : SessionEntry}
    (h : e ∈ SessionTable.deactivate p es) : ∃ e' ∈ es, e.id = e'.id ∧ e.serial = e'.serial := by
  induction es with
  | nil => exact absurd h (by simp [SessionTable.deactivate])
  | cons e' es ih =>
    unfold SessionTable.deactivate at h
    split at h
    · rcases List.mem_cons.mp h with rfl | h
      · exact ⟨e', by simp, rfl, rfl⟩
      · exact ⟨e, by simp [h], rfl, rfl⟩
    · rcases List.mem_cons.mp h with rfl | h
      · exact ⟨e, by simp, rfl, rfl⟩
      · obtain ⟨e'', he'', hsame⟩ := ih h
        exact ⟨e'', by simp [he''], hsame⟩

theorem SessionTable.Inv.stop (h : SessionTable.Inv k tb) (n : Int) :
    SessionTable.Inv k (tb.stop k n) where
  next := h.next
  bound := h.bound
  entries := by
    intro e he
    obtain ⟨e', he', hid, hserial⟩ := mem_deactivate he
    rw [hid, hserial]
    exact h.entries e' he'
  handed := h.handed
  first := h.first
  nodup := h.nodup
  stopped := by
    intro x hx
    rcases List.mem_append.mp hx with hx | hx
    · cases hfind : tb.entries.find? (fun e => SessionTable.selects k (int32 n) e && e.active) with
      | none =>
        rw [hfind] at hx
        exact absurd hx (by simp)
      | some e =>
        rw [hfind] at hx
        obtain rfl := List.mem_singleton.mp hx
        have hp := List.find?_some hfind
        simp only [Bool.and_eq_true] at hp
        obtain ⟨hid, hserial⟩ := h.entries e (List.mem_of_find?_eq_some hfind)
        exact ⟨by rw [selects_shown hp.1, hid], hserial⟩
    · exact h.stopped x hx

theorem SessionTable.Inv.stopAll (h : SessionTable.Inv k tb) :
    SessionTable.Inv k (tb.stopAll k) := by
  have hempty := h.withEntries [] (by simp)
  cases k with
  | hook => exact hempty
  | trace =>
    exact ⟨.inr rfl, hempty.bound, hempty.entries, hempty.handed, hempty.first, hempty.nodup,
      hempty.stopped⟩
  | breakpoint =>
    exact ⟨.inr rfl, hempty.bound, hempty.entries, hempty.handed, hempty.first, hempty.nodup,
      hempty.stopped⟩

theorem SessionTable.Inv.release (h : SessionTable.Inv k tb) (target : Nat) :
    SessionTable.Inv k (tb.release k target) := by
  have hfilter : SessionTable.Inv k { tb with entries := tb.entries.filter (fun e =>
      !(e.active && e.target = target)) } :=
    h.withEntries _ (fun e he => h.entries e (List.mem_of_mem_filter he))
  cases k with
  | trace => exact hfilter
  | breakpoint => exact hfilter
  | hook =>
    refine h.withEntries _ (fun e he => ?_)
    obtain ⟨e', he', rfl⟩ := List.mem_map.mp he
    have hold := h.entries e' he'
    split
    · exact hold
    · exact hold

/-- A session that is made while the counter is behind, or with no ids left, gets the id of the
    first one. -/
theorem SessionTable.Inv.reused (h : SessionTable.Inv k tb) (target : Nat)
    (hnot : ¬ (tb.next = tb.created ∧ tb.created < k.limit)) :
    ¬ (tb.register k target).Unique := by
  have hpos : 0 < tb.created := by
    refine Nat.pos_of_ne_zero (fun hzero => hnot ?_)
    refine ⟨?_, by rw [hzero]; cases k <;> decide⟩
    rcases h.next with hnext | hnext
    · rw [hnext, hzero, Nat.zero_mod]
    · rw [hnext, hzero]
  have hshown : k.shown tb.next = k.shown 0 := by
    rcases h.next with hnext | hnext
    · -- the counter counts, so there are no ids left
      have hfull : tb.created = k.limit := by
        refine Nat.le_antisymm h.bound (Nat.le_of_not_lt (fun hlt => hnot ⟨?_, hlt⟩))
        rw [hnext]
        refine Nat.mod_eq_of_lt (Nat.lt_of_lt_of_le hlt ?_)
        cases k <;> decide
      rw [hnext, hfull]
      cases k <;> decide
    · rw [hnext]
  have hhands : k.hands tb.next = true := by
    cases k with
    | hook =>
      simp only [Kind.hands, hshown]
      decide
    | trace => rfl
    | breakpoint => rfl
  intro hunique
  have hnodup := hunique.nodup
  simp only [SessionTable.register, hhands, if_true, List.map_cons, List.nodup_cons] at hnodup
  exact hnodup.1 (List.mem_map.mpr ⟨_, h.first hpos, hshown.symm⟩)

end

/-! ## Every run -/

def Sessions.Inv (s : Sessions) : Prop := ∀ k, SessionTable.Inv k (s k)

theorem SessionTable.Inv.apply {s : Sessions} {op : SessionOp} (h : SessionTable.Inv op.kind (s op.kind))
    (hok : op.counted s) : SessionTable.Inv op.kind (op.apply (s op.kind)) := by
  cases op with
  | register k target => exact h.register target hok.1 hok.2
  | stop k n => exact h.stop n
  | stopAll k => exact h.stopAll
  | release k target => exact h.release target

theorem Sessions.Inv.step {s : Sessions} {op : SessionOp} (h : s.Inv) (hok : op.counted s) :
    (s.step op).Inv := by
  intro k
  unfold Sessions.step
  by_cases hk : k = op.kind
  · subst hk
    rw [Function.update_self]
    exact (h op.kind).apply hok
  · rw [Function.update_of_ne hk]
    exact h k

theorem Sessions.Inv.step_breaks {s : Sessions} {op : SessionOp} (h : s.Inv) (hnot : ¬ op.counted s) :
    ¬ (s.step op).Unique := by
  cases op with
  | register k target =>
    intro hunique
    have hk := hunique k
    rw [Sessions.step, SessionOp.kind, Function.update_self] at hk
    exact (h k).reused target hnot hk
  | stop k n => exact absurd trivial hnot
  | stopAll k => exact absurd trivial hnot
  | release k target => exact absurd trivial hnot

/-- Ids are never reused exactly in the runs in which every session is made while its counter counts
    all sessions of its kind and ids are left. -/
theorem session_ids_unique_iff (ops : List SessionOp) :
    (∀ n, (run Sessions.step Sessions.init (ops.take n)).Unique) ↔
      Along Sessions.step (fun s op => op.counted s) Sessions.init ops :=
  have hinit : Sessions.init.Inv := fun _ => SessionTable.Inv.init
  have hprop : ∀ s : Sessions, s.Inv → s.Unique := fun _ h k => (h k).unique
  (Along.iff_forall_take_of_breaks hprop (fun _ _ h hok => h.step hok)
    (fun _ _ h hnot => h.step_breaks hnot) hinit).symm

/-- A trace is made, all traces are stopped, another trace is made, and the script stops the first
    one through its handle. -/
def staleHandle : List SessionOp :=
  [.register .trace 1, .stopAll .trace, .register .trace 2, .stop .trace 0]

/-- Both traces have id 0, and the second one is stopped; breakpoints are numbered alike. -/
theorem session_ids_reused :
    ¬ (run Sessions.step Sessions.init staleHandle).Unique ∧
      (run Sessions.step Sessions.init staleHandle .trace).handed = [(0, 1), (0, 0)] ∧
      (run Sessions.step Sessions.init staleHandle .trace).stopped = [(0, 1)] ∧
      (run Sessions.step Sessions.init
        [.register .breakpoint 1, .stopAll .breakpoint, .register .breakpoint 2] .breakpoint).handed =
          [(0, 1), (0, 0)] := by
  refine ⟨fun h => ?_, by decide, by decide, by decide⟩
  have hnodup := (h .trace).nodup
  have hhanded : (run Sessions.step Sessions.init staleHandle .trace).handed = [(0, 1), (0, 0)] := by
    decide
  rw [hhanded] at hnodup
  exact absurd hnodup (by decide)

end ArtPi.Agent
