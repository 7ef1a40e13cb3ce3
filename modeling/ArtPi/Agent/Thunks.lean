import ArtPi.Lib.Runs
import Mathlib.Data.List.Flatten
import Mathlib.Data.List.Nodup
import Mathlib.Data.List.Pairwise
import Mathlib.Logic.Function.Basic

set_option autoImplicit false

/-! # Thunk slots (`src/agent/agent_java_registerclass.cpp`)

Each method of a registered class that is implemented in JavaScript gets a stub from a table of fixed size, and a
binding under the number of the stub. Slots are handed out in order; a class that is disposed, or whose registration
fails, gives its bindings back and not its slots. -/

namespace ArtPi.Agent.Thunks

open Lib

def kMaxThunks : Nat := 512

/-- The implementation is the number of a JavaScript function. -/
structure NativeBinding where
  className : String
  methodName : String
  signature : String
  retType : String
  argTypes : List String
  impl : Nat
  deriving DecidableEq

structure PendingNative where
  name : String
  signature : String
  retType : String
  argTypes : List String
  impl : Nat

def PendingNative.binding (p : PendingNative) (className : String) : NativeBinding :=
  { className := className, methodName := p.name, signature := p.signature, retType := p.retType,
    argTypes := p.argTypes, impl := p.impl }

/-- With its handle, and its methods, which no step reads. -/
structure RegisteredClass where
  handle : Nat
  name : String
  slots : List Nat
  methods : List PendingNative

/-- A registration that failed for lack of slots: the methods that were live and those it came with. -/
structure Refusal where
  live : Nat
  asked : Nat
  deriving DecidableEq

/-- The tables; no step reads `refused`. -/
structure State where
  thunkUsed : Nat
  bindings : Nat → Option NativeBinding
  nextHandle : Nat
  registered : List RegisteredClass
  refused : List Refusal

def State.init : State := ⟨0, fun _ => none, 1, [], []⟩

/-! ## Registration -/

variable (built : Bool)

/-- `built` is what `BuildNativeThunks` returns the only time it is called. -/
def acquireThunk (s : State) : Option Nat :=
  if ¬ built then none else if kMaxThunks ≤ s.thunkUsed then none else some s.thunkUsed

/-- The loop over the pending methods: the slots, and whether it has failed. -/
def bindAll (className : String) (s : State) : List PendingNative → State × List Nat × Bool
  | [] => (s, [], false)
  | p :: ps =>
    match acquireThunk built s with
    | none => (s, [], true)
    | some slot =>
      let r := bindAll className
        { s with
          thunkUsed := s.thunkUsed + 1
          bindings := Function.update s.bindings slot (some (p.binding className)) } ps
      (r.1, slot :: r.2.1, r.2.2)

def State.erase (s : State) (slots : List Nat) : State :=
  { s with bindings := fun x => if x ∈ slots then none else s.bindings x }

def State.live (s : State) : Nat := s.registered.foldl (fun n c => n + c.methods.length) 0

/-- `JsRegisterClass` from the first slot on; `nativesOk` is what `RegisterNatives` says. -/
def State.register (s : State) (className : String) (pending : List PendingNative) (nativesOk : Bool) : State :=
  let r := bindAll built className s pending
  if r.2.2 then { r.1.erase r.2.1 with refused := s.refused ++ [⟨s.live, pending.length⟩] }
  else if pending ≠ [] ∧ ¬ nativesOk then r.1.erase r.2.1
  else
    { r.1 with
      nextHandle := s.nextHandle + 1
      registered := s.registered ++ [⟨s.nextHandle, className, r.2.1, pending⟩] }

/-- `JsRegDispose` -/
def State.dispose (s : State) (handle : Nat) : State :=
  match s.registered.find? (fun c => c.handle = handle) with
  | none => s
  | some rc => { s.erase rc.slots with registered := s.registered.filter fun c => c.handle ≠ handle }

inductive Op where
  | register (className : String) (pending : List PendingNative) (nativesOk : Bool)
  | dispose (handle : Nat)

def State.step (s : State) : Op → State
  | .register className pending nativesOk => s.register built className pending nativesOk
  | .dispose handle => s.dispose handle

/-! ## The property and the condition -/

def RegisteredClass.Bound (c : RegisteredClass) (bindings : Nat → Option NativeBinding) : Prop :=
  List.Forall₂ (fun slot p => bindings slot = some (p.binding c.name)) c.slots c.methods

/-- Live methods have slots of their own with their bindings, no other slot has a binding, and who was refused would
    have been too much. -/
structure State.Conserved (s : State) : Prop where
  bound : ∀ c ∈ s.registered, c.Bound s.bindings
  own : (s.registered.flatMap RegisteredClass.slots).Nodup
  only : ∀ slot, s.bindings slot ≠ none → ∃ c ∈ s.registered, slot ∈ c.slots
  lack : ∀ r ∈ s.refused, kMaxThunks < r.live + r.asked

theorem RegisteredClass.Bound.congr {c : RegisteredClass} {b b' : Nat → Option NativeBinding} (h : c.Bound b)
    (heq : ∀ slot ∈ c.slots, b' slot = b slot) : c.Bound b' := by
  unfold RegisteredClass.Bound at h ⊢
  generalize c.slots = slots, c.methods = methods at h heq
  induction h with
  | nil => exact .nil
  | cons hslot hrest ih =>
    refine .cons ?_ (ih fun slot hmem => heq slot (List.mem_cons_of_mem _ hmem))
    rw [heq _ List.mem_cons_self]
    exact hslot

/-- There are slots left that nobody has ever had, or too many methods would be live. -/
def HasSlots (s : State) : Op → Prop
  | .register _ pending _ =>
    pending = [] ∨ (built ∧ s.thunkUsed + pending.length ≤ kMaxThunks) ∨ kMaxThunks < s.live + pending.length
  | .dispose _ => True

/-! ## The loop over the methods -/

variable {built} {s : State} {className : String}

theorem acquireThunk_eq_some {slot : Nat} :
    acquireThunk built s = some slot ↔ built ∧ s.thunkUsed < kMaxThunks ∧ slot = s.thunkUsed := by
  unfold acquireThunk
  cases built
  · simp
  · by_cases hused : kMaxThunks ≤ s.thunkUsed
    · simp [hused, Nat.not_lt.2 hused]
    · simp [hused, Nat.lt_of_not_le hused, eq_comm]

/-- What the loop does: it takes the next slots, one for each method up to the one that finds none. -/
structure Bound (className : String) (s t : State) (pending : List PendingNative) (slots : List Nat) (failed : Bool) :
    Prop where
  slots_eq : slots = List.range' s.thunkUsed slots.length
  used : t.thunkUsed = s.thunkUsed + slots.length
  frame : ∀ x, x ∉ slots → t.bindings x = s.bindings x
  bound : List.Forall₂ (fun slot p => t.bindings slot = some (p.binding className)) slots (pending.take slots.length)
  failed_eq : failed = decide (slots.length < pending.length)
  same : t.registered = s.registered ∧ t.nextHandle = s.nextHandle ∧ t.refused = s.refused

theorem bindAll_bound (built : Bool) (className : String) (s : State) (pending : List PendingNative) :
    Bound className s (bindAll built className s pending).1 pending (bindAll built className s pending).2.1
      (bindAll built className s pending).2.2 := by
  induction pending generalizing s with
  | nil => exact ⟨rfl, rfl, fun _ _ => rfl, .nil, rfl, rfl, rfl, rfl⟩
  | cons p ps ih =>
    unfold bindAll
    split
    · exact ⟨rfl, rfl, fun _ _ => rfl, .nil, rfl, rfl, rfl, rfl⟩
    next slot hslot =>
      obtain ⟨-, -, rfl⟩ := acquireThunk_eq_some.1 hslot
      have h := ih { s with
        thunkUsed := s.thunkUsed + 1
        bindings := Function.update s.bindings s.thunkUsed (some (p.binding className)) }
      generalize bindAll built className _ ps = r at h
      obtain ⟨hslots, hused, hframe, hbound, hfailed, hsame⟩ := h
      dsimp only at hslots hused hframe hsame ⊢
      have hfirst : s.thunkUsed ∉ r.2.1 := by
        rw [hslots, List.mem_range'_1]
        omega
      refine ⟨?_, ?_, fun x hx => ?_, .cons ?_ hbound, ?_, hsame⟩
      · rw [List.length_cons, List.range'_succ, ← hslots]
      · rw [hused, List.length_cons]
        omega
      · rw [List.mem_cons, not_or] at hx
        rw [hframe x hx.2, Function.update_of_ne hx.1]
      · rw [hframe _ hfirst, Function.update_self]
      · rw [hfailed, List.length_cons, List.length_cons]
        simp

theorem bindAll_failed (built : Bool) (className : String) (s : State) (pending : List PendingNative) :
    (bindAll built className s pending).2.2 = false ↔
      pending = [] ∨ (built ∧ s.thunkUsed + pending.length ≤ kMaxThunks) := by
  induction pending generalizing s with
  | nil => simp [bindAll]
  | cons p ps ih =>
    unfold bindAll
    split
    next hslot =>
      refine iff_of_false (by simp) ?_
      rintro (hnil | ⟨hbuilt, hle⟩)
      · cases hnil
      · rw [List.length_cons] at hle
        have hsome : acquireThunk built s = some s.thunkUsed := acquireThunk_eq_some.2 ⟨hbuilt, by omega, rfl⟩
        rw [hslot] at hsome
        cases hsome
    next slot hslot =>
      obtain ⟨hbuilt, hlt, -⟩ := acquireThunk_eq_some.1 hslot
      dsimp only
      rw [ih, List.length_cons]
      constructor
      · rintro (rfl | ⟨-, hle⟩)
        · exact .inr ⟨hbuilt, hlt⟩
        · exact .inr ⟨hbuilt, by dsimp only at hle; omega⟩
      · rintro (hnil | ⟨-, hle⟩)
        · cases hnil
        · exact .inr ⟨hbuilt, by dsimp only; omega⟩

/-! ## The invariant -/

/-- Beside the property: slots that were not handed out have no binding, and handles tell classes apart. -/
structure Inv (s : State) : Prop where
  conserved : s.Conserved
  fresh : ∀ slot, s.thunkUsed ≤ slot → s.bindings slot = none
  handed : ∀ c ∈ s.registered, ∀ slot ∈ c.slots, slot < s.thunkUsed
  handle : ∀ c ∈ s.registered, c.handle < s.nextHandle
  handles : (s.registered.map RegisteredClass.handle).Nodup

theorem inv_init : Inv State.init where
  conserved := ⟨by simp [State.init], by simp [State.init], by simp [State.init], by simp [State.init]⟩
  fresh _ _ := rfl
  handed _ hc := nomatch hc
  handle _ hc := nomatch hc
  handles := List.nodup_nil

theorem mem_slots_iff {t : State} {pending : List PendingNative} {slots : List Nat} {failed : Bool}
    (h : Bound className s t pending slots failed) (x : Nat) : x ∈ slots ↔ s.thunkUsed ≤ x ∧ x < t.thunkUsed := by
  rw [h.slots_eq, List.mem_range'_1, h.used]

/-- A registration that gives its bindings back has used up slots, and nothing else. -/
theorem Inv.erase (hs : Inv s) {t : State} {pending : List PendingNative} {slots : List Nat} {failed : Bool}
    (h : Bound className s t pending slots failed) : Inv (t.erase slots) := by
  have hbindings : (t.erase slots).bindings = s.bindings := by
    funext x
    unfold State.erase
    dsimp only
    split
    next hx => exact (hs.fresh x ((mem_slots_iff h x).1 hx).1).symm
    next hx => exact h.frame x hx
  obtain ⟨hregistered, hnext, hrefused⟩ := h.same
  have hreg : (t.erase slots).registered = s.registered := hregistered
  have hused : s.thunkUsed ≤ (t.erase slots).thunkUsed := by
    refine Nat.le_trans (Nat.le_add_right _ slots.length) ?_
    exact Nat.le_of_eq h.used.symm
  refine ⟨⟨?_, ?_, ?_, ?_⟩, ?_, ?_, ?_, ?_⟩
  · rw [hreg, hbindings]
    exact hs.conserved.bound
  · rw [hreg]
    exact hs.conserved.own
  · rw [hreg, hbindings]
    exact hs.conserved.only
  · exact hrefused ▸ hs.conserved.lack
  · intro slot hslot
    rw [hbindings]
    exact hs.fresh slot (Nat.le_trans hused hslot)
  · rw [hreg]
    exact fun c hc slot hslot => Nat.lt_of_lt_of_le (hs.handed c hc slot hslot) hused
  · rw [hreg]
    exact fun c hc => lt_of_lt_of_eq (hs.handle c hc) hnext.symm
  · rw [hreg]
    exact hs.handles

theorem Inv.add (hs : Inv s) {t : State} {pending : List PendingNative} {slots : List Nat}
    (h : Bound className s t pending slots false) :
    Inv { t with
      nextHandle := s.nextHandle + 1
      registered := s.registered ++ [⟨s.nextHandle, className, slots, pending⟩] } := by
  have hall : slots.length ≥ pending.length := by
    have hfailed := h.failed_eq
    rw [eq_comm, decide_eq_false_iff_not] at hfailed
    omega
  have hbound := h.bound
  rw [List.take_of_length_le hall] at hbound
  have hold (slot : Nat) (hslot : slot < s.thunkUsed) : t.bindings slot = s.bindings slot :=
    h.frame slot fun hmem => Nat.not_le.2 hslot ((mem_slots_iff h slot).1 hmem).1
  obtain ⟨hregistered, hnext, hrefused⟩ := h.same
  have hmem (c : RegisteredClass) : c ∈ s.registered ++ [⟨s.nextHandle, className, slots, pending⟩] ↔
      c ∈ s.registered ∨ c = ⟨s.nextHandle, className, slots, pending⟩ := by simp
  refine ⟨⟨fun c hc => ?_, ?_, fun slot hslot => ?_, hrefused ▸ hs.conserved.lack⟩, fun slot hslot => ?_,
    fun c hc slot hslot => ?_, fun c hc => ?_, ?_⟩
  · rcases (hmem c).1 hc with hc | rfl
    · exact (hs.conserved.bound c hc).congr fun slot hslot => hold slot (hs.handed c hc slot hslot)
    · exact hbound
  · rw [List.flatMap_append, List.flatMap_singleton, List.nodup_append']
    refine ⟨hs.conserved.own, h.slots_eq ▸ List.nodup_range', fun slot hslot hnew => ?_⟩
    obtain ⟨c, hc, hslot⟩ := List.mem_flatMap.1 hslot
    exact Nat.not_le.2 (hs.handed c hc slot hslot) ((mem_slots_iff h slot).1 hnew).1
  · by_cases hnew : slot ∈ slots
    · exact ⟨_, (hmem _).2 (.inr rfl), hnew⟩
    · obtain ⟨c, hc, hcslot⟩ := hs.conserved.only slot fun hnone => hslot ((h.frame slot hnew).trans hnone)
      exact ⟨c, (hmem c).2 (.inl hc), hcslot⟩
  · have hle : t.thunkUsed ≤ slot := hslot
    have hnew : slot ∉ slots := fun hnew => Nat.not_le.2 ((mem_slots_iff h slot).1 hnew).2 hle
    exact (h.frame slot hnew).trans (hs.fresh slot (by have := h.used; omega))
  · rcases (hmem c).1 hc with hc | rfl
    · exact Nat.lt_of_lt_of_le (hs.handed c hc slot hslot) (by have := h.used; dsimp only; omega)
    · exact ((mem_slots_iff h slot).1 hslot).2
  · rcases (hmem c).1 hc with hc | rfl
    · exact Nat.lt_succ_of_lt (hs.handle c hc)
    · exact Nat.lt_succ_self _
  · rw [List.map_append, List.nodup_append']
    refine ⟨hs.handles, List.nodup_singleton _, fun handle hold hnew => ?_⟩
    obtain ⟨c, hc, rfl⟩ := List.mem_map.1 hold
    exact Nat.ne_of_lt (hs.handle c hc) (List.mem_singleton.1 hnew)

theorem Inv.dispose (hs : Inv s) (handle : Nat) : Inv (s.dispose handle) := by
  unfold State.dispose
  split
  · exact hs
  next rc hrc =>
    have hmem : rc ∈ s.registered := List.mem_of_find?_eq_some hrc
    have hhandle : rc.handle = handle := by simpa using List.find?_some hrc
    have hfilter (c : RegisteredClass) :
        c ∈ (s.registered.filter fun c => c.handle ≠ handle) ↔ c ∈ s.registered ∧ c ≠ rc := by
      rw [List.mem_filter, decide_eq_true_iff]
      refine and_congr_right fun hc => not_congr ?_
      rw [← hhandle]
      exact ⟨fun heq => List.inj_on_of_nodup_map hs.handles hc hmem heq, fun heq => heq ▸ rfl⟩
    obtain ⟨-, hapart⟩ := List.nodup_flatMap.1 hs.conserved.own
    have hsymm : Std.Symm (Function.onFun List.Disjoint RegisteredClass.slots) := ⟨fun _ _ h _ hb ha => h ha hb⟩
    have hdisjoint (c : RegisteredClass) (hc : c ∈ s.registered) (hne : c ≠ rc) : List.Disjoint c.slots rc.slots :=
      hapart.forall hc hmem hne
    refine ⟨⟨fun c hc => ?_, ?_, fun slot hslot => ?_, hs.conserved.lack⟩, fun slot hslot => ?_,
      fun c hc => hs.handed c ((hfilter c).1 hc).1, fun c hc => hs.handle c ((hfilter c).1 hc).1, ?_⟩
    · obtain ⟨hc, hne⟩ := (hfilter c).1 hc
      refine (hs.conserved.bound c hc).congr fun slot hslot => if_neg ?_
      exact hdisjoint c hc hne hslot
    · exact hs.conserved.own.sublist (List.filter_sublist.flatMap _)
    · unfold State.erase at hslot
      dsimp only at hslot
      split at hslot
      · exact absurd rfl hslot
      next hnot =>
        obtain ⟨c, hc, hcslot⟩ := hs.conserved.only slot hslot
        exact ⟨c, (hfilter c).2 ⟨hc, fun heq => hnot (heq ▸ hcslot)⟩, hcslot⟩
    · unfold State.erase
      dsimp only
      split
      · rfl
      · exact hs.fresh slot hslot
    · exact hs.handles.sublist (List.filter_sublist.map _)

/-! ## Steps -/

theorem Inv.refuse (hs : Inv s) {r : Refusal} (hr : kMaxThunks < r.live + r.asked) :
    Inv { s with refused := s.refused ++ [r] } where
  conserved := by
    refine ⟨hs.conserved.bound, hs.conserved.own, hs.conserved.only, fun r' hr' => ?_⟩
    rcases List.mem_append.1 hr' with hr' | hr'
    · exact hs.conserved.lack r' hr'
    · exact List.mem_singleton.1 hr' ▸ hr
  fresh := hs.fresh
  handed := hs.handed
  handle := hs.handle
  handles := hs.handles

theorem Inv.step (hs : Inv s) {op : Op} (hok : HasSlots built s op) : Inv (s.step built op) := by
  cases op with
  | dispose handle => exact hs.dispose handle
  | register className pending nativesOk =>
    have hbound := bindAll_bound built className s pending
    have hfailed := bindAll_failed built className s pending
    unfold State.step State.register
    dsimp only
    generalize bindAll built className s pending = r at hbound hfailed ⊢
    split
    next hfail =>
      have hlack : kMaxThunks < s.live + pending.length := by
        rcases hok with hnil | hroom | hlack
        · exact absurd (hfailed.2 (.inl hnil)) (by simp [hfail])
        · exact absurd (hfailed.2 (.inr hroom)) (by simp [hfail])
        · exact hlack
      have hnoted := (hs.erase hbound).refuse (r := ⟨s.live, pending.length⟩) hlack
      rw [State.erase, hbound.same.2.2] at hnoted
      exact hnoted
    next hdone =>
      split
      · exact hs.erase hbound
      · rw [Bool.not_eq_true] at hdone
        rw [hdone] at hbound
        exact hs.add hbound

/-- A registration that finds no slot although few methods are live. -/
theorem not_conserved_step {op : Op} (hok : ¬ HasSlots built s op) : ¬ (s.step built op).Conserved := by
  intro h
  cases op with
  | dispose handle => exact hok trivial
  | register className pending nativesOk =>
    unfold HasSlots at hok
    dsimp only at hok
    rw [← or_assoc, not_or, ← bindAll_failed built className s, Bool.not_eq_false] at hok
    unfold State.step State.register at h
    dsimp only at h
    rw [if_pos hok.1] at h
    exact hok.2 (h.lack _ (List.mem_append_right _ (List.mem_singleton_self _)))

/-! ## Runs -/

/-- The slots are conserved in every state of a run exactly if every registration finds slots or is too much. -/
theorem conserved_iff_hasSlots (ops : List Op) :
    (∀ k, (run (State.step built) State.init (ops.take k)).Conserved) ↔
      Along (State.step built) (HasSlots built) State.init ops :=
  (Along.iff_forall_take_of_breaks (fun _ h => h.conserved) (fun _ _ h => h.step)
    (fun _ _ _ => not_conserved_step) inv_init).symm

def method (i : Nat) : PendingNative := ⟨"m", "()V", "V", [], i⟩

/-- A class with as many methods as there are slots is registered and disposed; the next one has one method. -/
def exhausted : List Op :=
  [.register "demo.A" ((List.range kMaxThunks).map method) true, .dispose 1, .register "demo.B" [method 0] true]

set_option maxRecDepth 8192 in
theorem not_conserved_exhausted :
    ¬ ∀ (built : Bool) (ops : List Op) (k : Nat), (run (State.step built) State.init (ops.take k)).Conserved := by
  intro h
  have hlack := (h true exhausted 3).lack
  exact absurd (hlack ⟨0, 1⟩ (by decide)) (by decide)

end ArtPi.Agent.Thunks
