import ArtPi.Lib.Runs

set_option autoImplicit false

/-! # Handles of Java objects (`src/agent/agent_java_ref.cpp`)

JavaScript holds Java objects by their index in one vector. A hook callback reads the length of the
vector when it begins and cuts the vector back to that length when it ends; callbacks of several
threads and the REPL push in between. An object whose address an entry has recorded before gets the
handle of that entry.

`bound_iff` says in which runs every handle denotes the object it was given for, for as long as its
callback runs: exactly in those in which no callback cuts off what another one or the REPL still
holds, and no recorded address stands for another object by now. -/

namespace ArtPi.Agent

open ArtPi.Lib

variable {α : Type}

/-- An entry of `g_jrefs`; the reference stands for its object. -/
structure JRefEntry (α : Type) where
  obj : α
  isGlobal : Bool
  originalAddr : Nat

/-- A hook callback that is running: the length it has read, and the handles it has been given, each
    with the object it was given for. -/
structure Callback (α : Type) where
  jrefBase : Nat
  handles : List (Nat × α) := []

/-- The vector, the callbacks so far (`none` when ended) and the handles the REPL has been given. -/
structure JRefs (α : Type) where
  entries : List (JRefEntry α) := []
  callbacks : List (Option (Callback α)) := []
  repl : List (Nat × α) := []

/-! ## The operations -/

/-- The entry with a recorded address that `AddJRef` takes. -/
def findJRef (entries : List (JRefEntry α)) (addr : Nat) : Option Nat :=
  if addr ≠ 0 then entries.findIdx? (fun e => e.originalAddr = addr) else none

/-- `AddJRef`; `ref` is the value of the `jobject`, which is recorded when there is no address. -/
def addJRef (entries : List (JRefEntry α)) (o : α) (addr ref : Nat) (persistent : Bool) :
    Nat × List (JRefEntry α) :=
  match findJRef entries addr with
  | some i =>
    -- the address decides; the object of the entry is not looked at
    (i, entries.modify i (fun e => { e with isGlobal := e.isGlobal || persistent }))
  | none =>
    (entries.length, entries ++ [
      { obj := o
        isGlobal := persistent
        originalAddr := if addr ≠ 0 then addr else ref }])

def getJRef (entries : List (JRefEntry α)) (h : Nat) : Option α := entries[h]?.map JRefEntry.obj

def popJRefsTo (entries : List (JRefEntry α)) (base : Nat) : List (JRefEntry α) := entries.take base

inductive JRefOp (α : Type) where
  | begin
  | add (i : Nat) (o : α) (addr ref : Nat) (persistent : Bool)
  | addByRepl (o : α) (addr ref : Nat) (persistent : Bool)
  | finish (i : Nat)

/-- A step of the `i`-th callback or of the REPL. -/
def jrefStep (s : JRefs α) : JRefOp α → JRefs α
  | .begin => { s with callbacks := s.callbacks ++ [some { jrefBase := s.entries.length }] }
  | .add i o addr ref persistent =>
    match s.callbacks[i]? with
    | some (some c) =>
      let (h, entries) := addJRef s.entries o addr ref persistent
      { s with
        entries := entries
        callbacks := s.callbacks.set i (some { c with handles := (h, o) :: c.handles }) }
    | _ => s
  | .addByRepl o addr ref persistent =>
    let (h, entries) := addJRef s.entries o addr ref persistent
    { s with entries := entries, repl := (h, o) :: s.repl }
  | .finish i =>
    match s.callbacks[i]? with
    | some (some c) =>
      { s with
        entries := popJRefsTo s.entries c.jrefBase
        callbacks := s.callbacks.set i none }
    | _ => s

/-! ## The property and its condition -/

/-- Every handle of a running callback and of the REPL denotes the object it was given for. -/
structure Bound (s : JRefs α) : Prop where
  callbacks : ∀ (i : Nat) (c : Callback α), s.callbacks[i]? = some (some c) →
    ∀ x ∈ c.handles, getJRef s.entries x.1 = some x.2
  repl : ∀ x ∈ s.repl, getJRef s.entries x.1 = some x.2

/-- The object an address is taken for is the one that is added. -/
def AddrTrue (s : JRefs α) (o : α) (addr : Nat) : Prop :=
  ∀ i, findJRef s.entries addr = some i → getJRef s.entries i = some o

/-- What a step may not do. -/
def JRefOp.Safe (s : JRefs α) : JRefOp α → Prop
  | .begin => True
  | .add i o addr _ _ => (∃ c, s.callbacks[i]? = some (some c)) → AddrTrue s o addr
  | .addByRepl o addr _ _ => AddrTrue s o addr
  | .finish i => ∀ c, s.callbacks[i]? = some (some c) →
      (∀ j d, j ≠ i → s.callbacks[j]? = some (some d) → ∀ x ∈ d.handles, x.1 < c.jrefBase) ∧
        ∀ x ∈ s.repl, x.1 < c.jrefBase

/-! ## What the operations keep -/

theorem getJRef_addJRef {entries : List (JRefEntry α)} {x : α} {h : Nat} (o : α) (addr ref : Nat)
    (persistent : Bool) (hget : getJRef entries h = some x) :
    getJRef (addJRef entries o addr ref persistent).2 h = some x := by
  unfold getJRef at hget ⊢
  obtain ⟨e, he, rfl⟩ := Option.map_eq_some_iff.1 hget
  unfold addJRef
  cases findJRef entries addr with
  | some i =>
    rw [List.getElem?_modify, he]
    by_cases hi : i = h
    · simp [hi]
    · simp [hi]
  | none =>
    have hlt := (List.getElem?_eq_some_iff.1 he).1
    rw [List.getElem?_append_left hlt, he]
    rfl

theorem findJRef_lt {entries : List (JRefEntry α)} {addr i : Nat}
    (h : findJRef entries addr = some i) : i < entries.length := by
  unfold findJRef at h
  split at h
  · exact (List.findIdx?_eq_some_iff_findIdx_eq.1 h).1
  · exact absurd h (by simp)

/-- The new handle denotes the object iff the address is not taken for another one. -/
theorem getJRef_addJRef_self_iff (s : JRefs α) (o : α) (addr ref : Nat) (persistent : Bool) :
    getJRef (addJRef s.entries o addr ref persistent).2 (addJRef s.entries o addr ref persistent).1
      = some o ↔ AddrTrue s o addr := by
  unfold AddrTrue
  cases hfind : findJRef s.entries addr with
  | none =>
    refine ⟨fun _ i hi => absurd hi (by simp), fun _ => ?_⟩
    unfold addJRef getJRef
    rw [hfind]
    simp
  | some i =>
    -- the entry keeps its object, so the handle denotes that one
    have hlt := findJRef_lt hfind
    have hold : getJRef s.entries i = some (s.entries[i].obj) := by
      unfold getJRef
      rw [List.getElem?_eq_getElem hlt]
      rfl
    have hnew := getJRef_addJRef o addr ref persistent hold
    have hhandle : (addJRef s.entries o addr ref persistent).1 = i := by
      unfold addJRef
      rw [hfind]
    rw [hhandle, hnew, ← hold]
    exact ⟨fun h j hj => Option.some.inj hj ▸ h, fun h => h i rfl⟩

theorem getJRef_popJRefsTo (entries : List (JRefEntry α)) (base h : Nat) :
    getJRef (popJRefsTo entries base) h = if h < base then getJRef entries h else none := by
  unfold getJRef popJRefsTo
  rw [List.getElem?_take]
  split <;> rfl

/-! ## Runs -/

theorem bound_addByRepl_iff {s : JRefs α} (hs : Bound s) (o : α) (addr ref : Nat)
    (persistent : Bool) :
    AddrTrue s o addr ↔ Bound (jrefStep s (.addByRepl o addr ref persistent)) := by
  rw [← getJRef_addJRef_self_iff s o addr ref persistent]
  constructor
  · intro hself
    constructor
    · intro i c hc x hx
      exact getJRef_addJRef o addr ref persistent (hs.callbacks i c hc x hx)
    · intro x hx
      rcases List.mem_cons.1 hx with rfl | hx
      · exact hself
      · exact getJRef_addJRef o addr ref persistent (hs.repl x hx)
  · exact fun h => h.repl _ List.mem_cons_self

theorem bound_add_iff {s : JRefs α} (hs : Bound s) (i : Nat) (o : α) (addr ref : Nat)
    (persistent : Bool) {c : Callback α} (hc : s.callbacks[i]? = some (some c)) :
    AddrTrue s o addr ↔ Bound (jrefStep s (.add i o addr ref persistent)) := by
  have hlt := (List.getElem?_eq_some_iff.1 hc).1
  rw [← getJRef_addJRef_self_iff s o addr ref persistent]
  unfold jrefStep
  simp only [hc]
  constructor
  · intro hself
    constructor
    · intro j d hd x hx
      by_cases hji : j = i
      · subst hji
        rw [List.getElem?_set_self hlt] at hd
        obtain rfl := Option.some.inj (Option.some.inj hd)
        rcases List.mem_cons.1 hx with rfl | hx
        · exact hself
        · exact getJRef_addJRef o addr ref persistent (hs.callbacks j c hc x hx)
      · rw [List.getElem?_set_ne (Ne.symm hji)] at hd
        exact getJRef_addJRef o addr ref persistent (hs.callbacks j d hd x hx)
    · exact fun x hx => getJRef_addJRef o addr ref persistent (hs.repl x hx)
  · exact fun h => h.callbacks i _ (List.getElem?_set_self hlt) _ List.mem_cons_self

theorem bound_finish_iff {s : JRefs α} (hs : Bound s) (i : Nat) {c : Callback α}
    (hc : s.callbacks[i]? = some (some c)) :
    ((∀ j d, j ≠ i → s.callbacks[j]? = some (some d) → ∀ x ∈ d.handles, x.1 < c.jrefBase) ∧
        ∀ x ∈ s.repl, x.1 < c.jrefBase) ↔ Bound (jrefStep s (.finish i)) := by
  have hlt := (List.getElem?_eq_some_iff.1 hc).1
  have hcut : ∀ x : Nat × α, getJRef s.entries x.1 = some x.2 →
      (x.1 < c.jrefBase ↔ getJRef (popJRefsTo s.entries c.jrefBase) x.1 = some x.2) := by
    intro x hx
    rw [getJRef_popJRefsTo]
    by_cases hbase : x.1 < c.jrefBase
    · simp [hbase, hx]
    · simp [hbase]
  unfold jrefStep
  simp only [hc]
  constructor
  · rintro ⟨hothers, hrepl⟩
    constructor
    · intro j d hd x hx
      by_cases hji : j = i
      · subst hji
        rw [List.getElem?_set_self hlt] at hd
        exact absurd (Option.some.inj hd) (by simp)
      · rw [List.getElem?_set_ne (Ne.symm hji)] at hd
        exact (hcut x (hs.callbacks j d hd x hx)).1 (hothers j d hji hd x hx)
    · exact fun x hx => (hcut x (hs.repl x hx)).1 (hrepl x hx)
  · intro h
    constructor
    · intro j d hji hd x hx
      have hd' : (s.callbacks.set i none)[j]? = some (some d) := by
        rw [List.getElem?_set_ne (Ne.symm hji), hd]
      exact (hcut x (hs.callbacks j d hd x hx)).2 (h.callbacks j d hd' x hx)
    · exact fun x hx => (hcut x (hs.repl x hx)).2 (h.repl x hx)

theorem jrefStep_of_not_running {s : JRefs α} {i : Nat}
    (h : ¬ ∃ c, s.callbacks[i]? = some (some c)) :
    (∀ o addr ref persistent, jrefStep s (.add i o addr ref persistent) = s) ∧
      jrefStep s (.finish i) = s := by
  cases hc : s.callbacks[i]? with
  | none => exact ⟨fun _ _ _ _ => by simp only [jrefStep, hc], by simp only [jrefStep, hc]⟩
  | some c =>
    cases c with
    | none => exact ⟨fun _ _ _ _ => by simp only [jrefStep, hc], by simp only [jrefStep, hc]⟩
    | some c => exact absurd ⟨c, hc⟩ h

theorem safe_iff_bound (s : JRefs α) (op : JRefOp α) (hs : Bound s) :
    op.Safe s ↔ Bound (jrefStep s op) := by
  cases op with
  | begin =>
    refine ⟨fun _ => ⟨?_, hs.repl⟩, fun _ => trivial⟩
    intro i c hc x hx
    rcases List.mem_append.1 (List.mem_of_getElem? hc) with hold | hnew
    · obtain ⟨j, hj⟩ := List.mem_iff_getElem?.1 hold
      exact hs.callbacks j c hj x hx
    · -- a new callback has no handles yet
      rw [Option.some.inj (List.mem_singleton.1 hnew)] at hx
      exact absurd hx (by simp)
  | add i o addr ref persistent =>
    unfold JRefOp.Safe
    by_cases hrunning : ∃ c, s.callbacks[i]? = some (some c)
    · obtain ⟨c, hc⟩ := hrunning
      rw [← bound_add_iff hs i o addr ref persistent hc]
      exact ⟨fun h => h ⟨c, hc⟩, fun h _ => h⟩
    · rw [(jrefStep_of_not_running hrunning).1]
      exact ⟨fun _ => hs, fun _ h => absurd h hrunning⟩
  | addByRepl o addr ref persistent => exact bound_addByRepl_iff hs o addr ref persistent
  | finish i =>
    unfold JRefOp.Safe
    by_cases hrunning : ∃ c, s.callbacks[i]? = some (some c)
    · obtain ⟨c, hc⟩ := hrunning
      rw [← bound_finish_iff hs i hc]
      exact ⟨fun h => h c hc, fun h d hd =>
        Option.some.inj (Option.some.inj (hc.symm.trans hd)) ▸ h⟩
    · rw [(jrefStep_of_not_running hrunning).2]
      exact ⟨fun _ => hs, fun _ c hc => absurd ⟨c, hc⟩ hrunning⟩

/-- In a run from an empty vector every handle denotes its object in every state exactly when every
    step is safe. -/
theorem bound_iff (ops : List (JRefOp α)) :
    (∀ k, Bound (run jrefStep ({} : JRefs α) (ops.take k))) ↔
      Along jrefStep JRefOp.Safe ({} : JRefs α) ops := by
  have hinit : Bound ({} : JRefs α) := by
    constructor
    · intro i c hc
      exact absurd hc (by simp)
    · exact fun x hx => absurd hx (by simp)
  exact (Along.iff_forall_take safe_iff_bound hinit).symm

/-- A callback begins; the REPL adds an object; the callback ends and cuts it off. -/
def cutOff : List (JRefOp Nat) := [.begin, .addByRepl 7 0x100 0 true, .finish 0]

/-- The REPL adds an object, and another one that has been moved to the address of the first. -/
def reusedAddress : List (JRefOp Nat) := [.addByRepl 7 0x100 0 true, .addByRepl 8 0x100 0 true]

theorem handles_not_bound :
    ¬ Bound (run jrefStep ({} : JRefs Nat) cutOff) ∧
      ¬ Bound (run jrefStep ({} : JRefs Nat) reusedAddress) := by
  constructor
  · intro h
    exact absurd (h.repl (0, 7) (by decide)) (by decide)
  · intro h
    exact absurd (h.repl (0, 8) (by decide)) (by decide)

end ArtPi.Agent
