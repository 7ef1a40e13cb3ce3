import ArtPi.Jni.Trampoline
import ArtPi.Lib.Runs
import Mathlib.Logic.Function.Basic

set_option autoImplicit false

/-! # Records of traced JNI calls (`src/agent/agent_jni.cpp`)

`ArtpiJniOnEnter` pushes a record on a stack of its thread and `ArtpiJniOnLeave` pops one. Both do
nothing inside of the tracer, and both do nothing while the trace is off, but each looks at the flag
when it runs: the trace is started and stopped by another thread, which also rewrites the table, slot
by slot, while calls are in progress.

One thread makes JNI calls here, nested in each other, and the other one starts and stops the trace.
Two calls are told apart by a number that no step reads: every call has its own, and a record has that
of the call that pushed it. -/

namespace ArtPi.Jni

open Lib

/-- `JniCallFrame`, with the number of its call. -/
structure JniCallFrame where
  call : Nat
  slot_id : Nat
  call_desc : String
  caller_desc : String
  matched : Bool
  pendingIdName : String
  stack_str : String

/-- What `ArtpiJniOnEnter` finds out about a call. -/
structure Described where
  call_desc : String
  caller_desc : String
  matched : Bool
  idName : String
  stack_str : String

/-- `GetMethodID`, `GetStaticMethodID`. -/
def isMethodIdSlot (slot_id : Nat) : Bool := slot_id = 33 || slot_id = 113

/-- `GetFieldID`, `GetStaticFieldID`. -/
def isFieldIdSlot (slot_id : Nat) : Bool := slot_id = 94 || slot_id = 144

def JniCallFrame.of (call slot_id : Nat) (desc : Described) : JniCallFrame :=
  { call := call
    slot_id := slot_id
    call_desc := desc.call_desc
    caller_desc := desc.caller_desc
    matched := desc.matched
    pendingIdName := if isMethodIdSlot slot_id || isFieldIdSlot slot_id then desc.idName else ""
    stack_str := desc.stack_str }

/-- Where a call is: in its stub, in `ArtpiJniOnEnter` behind the test, in the real function, or in
    `ArtpiJniOnLeave` with the record it has popped. -/
inductive Phase where
  | stub
  | entering
  | running
  | leaving (fr : JniCallFrame)

/-- A call in progress. `traced` says that it came through the trampoline, `pushed` that it has pushed
    its record. -/
structure JniCall where
  id : Nat
  slot_id : Nat
  traced : Bool
  pushed : Bool
  phase : Phase

/-- What the other thread is doing, under `g_vtableMutex`: nothing, or rewriting the table from a slot
    on. -/
inductive Manager where
  | idle
  | installing (i : Nat)
  | uninstalling (i : Nat)

structure Tracer where
  /-- The slots that lead to the trampoline. -/
  hooked : Nat → Bool
  vtableTracing : Bool
  manager : Manager
  /-- The calls of the thread, the innermost first. -/
  calls : List JniCall
  /-- `t_callStack`, the back first, and `t_insideJniTracer`. -/
  callStack : List JniCallFrame
  insideJniTracer : Bool
  nextCall : Nat
  methodIdNames : UInt64 → Option String
  fieldIdNames : UInt64 → Option String
  lines : List String
  /-- For each record popped: the call that popped it, and the one that pushed it. -/
  popped : List (Nat × Nat)

/-! ## The other thread -/

namespace Tracer

variable (t : Tracer)

/-- `InstallVtableHook`, up to the loop. -/
def install : Tracer :=
  match t.manager with
  | .idle => if t.vtableTracing then t else { t with manager := .installing 4 }
  | _ => t

/-- `UninstallVtableHook`, up to the loop. -/
def uninstall : Tracer :=
  match t.manager with
  | .idle => if t.vtableTracing then { t with manager := .uninstalling 0 } else t
  | _ => t

/-- The next slot of the loop, or the store of the flag behind it. -/
def rewrite : Tracer :=
  match t.manager with
  | .idle => t
  | .installing i =>
    if i < kNumJniSlots then
      { t with hooked := Function.update t.hooked i true, manager := .installing (i + 1) }
    else { t with vtableTracing := true, manager := .idle }
  | .uninstalling i =>
    if i < kNumJniSlots then
      { t with hooked := Function.update t.hooked i false, manager := .uninstalling (i + 1) }
    else { t with vtableTracing := false, manager := .idle }

/-! ## The calls -/

/-- A call that takes the function of its slot from the table. -/
def newCall (slot_id : Nat) : JniCall :=
  { id := t.nextCall
    slot_id
    traced := t.hooked slot_id
    pushed := false
    phase := if t.hooked slot_id then .stub else .running }

/-- A call of the slot, by the thread or by the tracer on it. -/
def call (slot_id : Nat) : Tracer :=
  match t.calls with
  | [] => { t with calls := [t.newCall slot_id], nextCall := t.nextCall + 1 }
  | c :: rest =>
    match c.phase with
    | .stub => t
    | _ => { t with calls := t.newCall slot_id :: c :: rest, nextCall := t.nextCall + 1 }

/-- `ArtpiJniOnEnter`, up to the guard. -/
def onEnter : Tracer :=
  match t.calls with
  | [] => t
  | c :: rest =>
    match c.phase with
    | .stub =>
      if t.insideJniTracer || !t.vtableTracing then
        { t with calls := { c with phase := .running } :: rest }
      else { t with calls := { c with phase := .entering } :: rest, insideJniTracer := true }
    | _ => t

/-- The end of `ArtpiJniOnEnter`. -/
def entered (desc : Described) : Tracer :=
  match t.calls with
  | [] => t
  | c :: rest =>
    match c.phase with
    | .entering =>
      { t with
        calls := { c with phase := .running, pushed := true } :: rest
        callStack := JniCallFrame.of c.id c.slot_id desc :: t.callStack
        insideJniTracer := false }
    | _ => t

/-- The real function returns, and `ArtpiJniOnLeave` runs up to the log. -/
def onLeave (retval : UInt64) : Tracer :=
  match t.calls with
  | [] => t
  | c :: rest =>
    match c.phase with
    | .running =>
      if c.traced && !t.insideJniTracer && t.vtableTracing then
        match t.callStack with
        | [] => { t with calls := rest }
        | fr :: callStack =>
          { t with
            calls := { c with phase := .leaving fr } :: rest
            callStack
            insideJniTracer := true
            methodIdNames :=
              if isMethodIdSlot c.slot_id && retval ≠ 0 && fr.pendingIdName ≠ "" then
                Function.update t.methodIdNames retval (some fr.pendingIdName)
              else t.methodIdNames
            fieldIdNames :=
              if isFieldIdSlot c.slot_id && retval ≠ 0 && fr.pendingIdName ≠ "" then
                Function.update t.fieldIdNames retval (some fr.pendingIdName)
              else t.fieldIdNames
            popped := t.popped ++ [(c.id, fr.call)] }
      else { t with calls := rest }
    | _ => t

def popNewline (s : String) : String :=
  if s.toList.getLast? = some '\n' then String.ofList s.toList.dropLast else s

def line (fr : JniCallFrame) (depth : Nat) (retStr timeBuf : String) : String :=
  let line := "[JNI] " ++ String.ofList (List.replicate (depth * 2) ' ') ++ fr.call_desc ++ " = " ++
    retStr ++ timeBuf ++ "  [" ++ fr.caller_desc ++ "]"
  if fr.stack_str = "" then line else popNewline (line ++ "\n" ++ fr.stack_str)

/-- The end of `ArtpiJniOnLeave`. -/
def left (retStr timeBuf : String) : Tracer :=
  match t.calls with
  | [] => t
  | c :: rest =>
    match c.phase with
    | .leaving fr =>
      { t with
        calls := rest
        insideJniTracer := false
        lines :=
          if fr.matched then t.lines ++ [line fr t.callStack.length retStr timeBuf] else t.lines }
    | _ => t

end Tracer

inductive Event where
  | install
  | uninstall
  | rewrite
  | call (slot_id : Nat)
  | onEnter
  | entered (desc : Described)
  | onLeave (retval : UInt64)
  | left (retStr timeBuf : String)

/-- An event that cannot happen in a state leaves it as it is. -/
def Tracer.step (t : Tracer) : Event → Tracer
  | .install => t.install
  | .uninstall => t.uninstall
  | .rewrite => t.rewrite
  | .call slot_id => t.call slot_id
  | .onEnter => t.onEnter
  | .entered desc => t.entered desc
  | .onLeave retval => t.onLeave retval
  | .left retStr timeBuf => t.left retStr timeBuf

/-- The thread makes no call yet; the trace may be on or off, or about to be started or stopped. -/
def Tracer.start (hooked : Nat → Bool) (vtableTracing : Bool) (manager : Manager) : Tracer :=
  { hooked, vtableTracing, manager
    calls := []
    callStack := []
    insideJniTracer := false
    nextCall := 0
    methodIdNames := fun _ => none
    fieldIdNames := fun _ => none
    lines := []
    popped := [] }

/-! ## Records and calls -/

/-- A record is popped by the call that pushed it, the records on the stack are those of traced calls in
    progress, and with no such call there are none. -/
structure Matched (t : Tracer) : Prop where
  own : ∀ p ∈ t.popped, p.1 = p.2
  inProgress : ∀ fr ∈ t.callStack, ∃ c ∈ t.calls, c.traced = true ∧ c.id = fr.call
  empty : (∀ c ∈ t.calls, c.traced = false) → t.callStack = []

/-- A traced call that returns outside of the tracer finds the flag set if it has pushed a record; if it
    has not, the flag is clear or there is no record at all. -/
def FlagKept (t : Tracer) (e : Event) : Prop :=
  ∀ retval c rest, e = .onLeave retval → t.calls = c :: rest → c.phase = .running →
    c.traced = true → t.insideJniTracer = false →
      if c.pushed then t.vtableTracing = true else t.vtableTracing = false ∨ t.callStack = []

/-- The records on the stack, call by call from the innermost on. Inside of the tracer are the calls
    that are made while an outer one is at work in its hook. -/
inductive Stacked : List JniCall → Bool → List JniCallFrame → Prop where
  | nil : Stacked [] false []
  | plain {c : JniCall} {rest : List JniCall} {inside : Bool} {frames : List JniCallFrame} :
      (c.phase = .stub ∧ c.traced = true) ∨ c.phase = .running → c.pushed = false →
      Stacked rest inside frames → Stacked (c :: rest) inside frames
  | pushed {c : JniCall} {rest : List JniCall} {fr : JniCallFrame} {frames : List JniCallFrame} :
      c.phase = .running → c.pushed = true → c.traced = true → fr.call = c.id →
      Stacked rest false frames → Stacked (c :: rest) false (fr :: frames)
  | entering {c : JniCall} {rest : List JniCall} {frames : List JniCallFrame} :
      c.phase = .entering → c.traced = true → Stacked rest false frames →
      Stacked (c :: rest) true frames
  | leaving {c : JniCall} {rest : List JniCall} {fr : JniCallFrame} {frames : List JniCallFrame} :
      c.phase = .leaving fr → Stacked rest false frames → Stacked (c :: rest) true frames

theorem Stacked.exists_call {calls : List JniCall} {inside : Bool} {frames : List JniCallFrame}
    (h : Stacked calls inside frames) :
    ∀ fr ∈ frames, ∃ c ∈ calls, c.traced = true ∧ c.id = fr.call := by
  induction h with
  | nil => exact fun fr hfr => absurd hfr (by simp)
  | plain _ _ _ ih =>
    intro fr hfr
    obtain ⟨c, hc, hcall⟩ := ih fr hfr
    exact ⟨c, List.mem_cons_of_mem _ hc, hcall⟩
  | @pushed c rest fr' frames _ _ htraced hid _ ih =>
    intro fr hfr
    rcases List.mem_cons.1 hfr with rfl | hfr
    · exact ⟨c, List.mem_cons_self, htraced, hid.symm⟩
    · obtain ⟨c', hc, hcall⟩ := ih fr hfr
      exact ⟨c', List.mem_cons_of_mem _ hc, hcall⟩
  | entering _ _ _ ih =>
    intro fr hfr
    obtain ⟨c, hc, hcall⟩ := ih fr hfr
    exact ⟨c, List.mem_cons_of_mem _ hc, hcall⟩
  | leaving _ _ ih =>
    intro fr hfr
    obtain ⟨c, hc, hcall⟩ := ih fr hfr
    exact ⟨c, List.mem_cons_of_mem _ hc, hcall⟩

theorem Stacked.of_stub {c : JniCall} {rest : List JniCall} {inside : Bool}
    {frames : List JniCallFrame} (h : Stacked (c :: rest) inside frames) (hphase : c.phase = .stub) :
    c.traced = true ∧ c.pushed = false ∧ Stacked rest inside frames := by
  cases h with
  | plain hkind hpushed hrest =>
    rcases hkind with ⟨-, htraced⟩ | hrunning
    · exact ⟨htraced, hpushed, hrest⟩
    · exact absurd (hphase.symm.trans hrunning) (by simp)
  | pushed hrunning => exact absurd (hphase.symm.trans hrunning) (by simp)
  | entering hentering => exact absurd (hphase.symm.trans hentering) (by simp)
  | leaving hleaving => exact absurd (hphase.symm.trans hleaving) (by simp)

theorem Stacked.of_entering {c : JniCall} {rest : List JniCall} {inside : Bool}
    {frames : List JniCallFrame} (h : Stacked (c :: rest) inside frames)
    (hphase : c.phase = .entering) : c.traced = true ∧ Stacked rest false frames := by
  cases h with
  | plain hkind =>
    rcases hkind with ⟨hstub, -⟩ | hrunning
    · exact absurd (hphase.symm.trans hstub) (by simp)
    · exact absurd (hphase.symm.trans hrunning) (by simp)
  | pushed hrunning => exact absurd (hphase.symm.trans hrunning) (by simp)
  | entering _ htraced hrest => exact ⟨htraced, hrest⟩
  | leaving hleaving => exact absurd (hphase.symm.trans hleaving) (by simp)

theorem Stacked.of_leaving {c : JniCall} {rest : List JniCall} {inside : Bool}
    {frames : List JniCallFrame} {fr : JniCallFrame} (h : Stacked (c :: rest) inside frames)
    (hphase : c.phase = .leaving fr) : Stacked rest false frames := by
  cases h with
  | plain hkind =>
    rcases hkind with ⟨hstub, -⟩ | hrunning
    · exact absurd (hphase.symm.trans hstub) (by simp)
    · exact absurd (hphase.symm.trans hrunning) (by simp)
  | pushed hrunning => exact absurd (hphase.symm.trans hrunning) (by simp)
  | entering hentering => exact absurd (hphase.symm.trans hentering) (by simp)
  | leaving _ hrest => exact hrest

/-- A call in its real function has its record on top of the stack, or none. -/
theorem Stacked.of_running {c : JniCall} {rest : List JniCall} {inside : Bool}
    {frames : List JniCallFrame} (h : Stacked (c :: rest) inside frames)
    (hphase : c.phase = .running) :
    (c.pushed = false ∧ Stacked rest inside frames) ∨
      (c.pushed = true ∧ c.traced = true ∧ inside = false ∧
        ∃ fr frames', frames = fr :: frames' ∧ fr.call = c.id ∧ Stacked rest false frames') := by
  cases h with
  | plain _ hpushed hrest => exact Or.inl ⟨hpushed, hrest⟩
  | pushed _ hpushed htraced hid hrest =>
    exact Or.inr ⟨hpushed, htraced, rfl, _, _, rfl, hid, hrest⟩
  | entering hentering => exact absurd (hphase.symm.trans hentering) (by simp)
  | leaving hleaving => exact absurd (hphase.symm.trans hleaving) (by simp)

/-- The invariant of the runs in which the flag is kept. -/
structure Paired (t : Tracer) : Prop where
  stacked : Stacked t.calls t.insideJniTracer t.callStack
  own : ∀ p ∈ t.popped, p.1 = p.2
  nodup : (t.calls.map JniCall.id).Nodup
  lt_next : ∀ c ∈ t.calls, c.id < t.nextCall

theorem Paired.matched {t : Tracer} (h : Paired t) : Matched t := by
  refine ⟨h.own, h.stacked.exists_call, fun hnone => ?_⟩
  refine List.eq_nil_iff_forall_not_mem.2 (fun fr hfr => ?_)
  obtain ⟨c, hc, htraced, -⟩ := h.stacked.exists_call fr hfr
  exact absurd ((hnone c hc).symm.trans htraced) (by simp)

theorem paired_start (hooked : Nat → Bool) (vtableTracing : Bool) (manager : Manager) :
    Paired (Tracer.start hooked vtableTracing manager) :=
  ⟨.nil, fun p hp => absurd hp (by simp [Tracer.start]), List.nodup_nil,
    fun c hc => absurd hc (by simp [Tracer.start])⟩

/-! ## One event -/

theorem Paired.of_calls_eq {t t' : Tracer} (h : Paired t) (hcalls : t'.calls = t.calls)
    (hstack : t'.callStack = t.callStack) (hinside : t'.insideJniTracer = t.insideJniTracer)
    (hpopped : t'.popped = t.popped) (hnext : t'.nextCall = t.nextCall) : Paired t' :=
  ⟨by rw [hcalls, hstack, hinside]; exact h.stacked, by rw [hpopped]; exact h.own,
    by rw [hcalls]; exact h.nodup, by rw [hcalls, hnext]; exact h.lt_next⟩

theorem Paired.install {t : Tracer} (h : Paired t) : Paired t.install := by
  unfold Tracer.install
  split
  · split <;> exact h.of_calls_eq rfl rfl rfl rfl rfl
  · exact h

theorem Paired.uninstall {t : Tracer} (h : Paired t) : Paired t.uninstall := by
  unfold Tracer.uninstall
  split
  · split <;> exact h.of_calls_eq rfl rfl rfl rfl rfl
  · exact h

theorem Paired.rewrite {t : Tracer} (h : Paired t) : Paired t.rewrite := by
  unfold Tracer.rewrite
  split
  · exact h
  · split <;> exact h.of_calls_eq rfl rfl rfl rfl rfl
  · split <;> exact h.of_calls_eq rfl rfl rfl rfl rfl

theorem Paired.call {t : Tracer} (h : Paired t) (slot_id : Nat) : Paired (t.call slot_id) := by
  -- a new innermost call, with a number that is still free
  have hpush : Paired
      { t with calls := t.newCall slot_id :: t.calls, nextCall := t.nextCall + 1 } := by
    refine ⟨.plain ?_ rfl h.stacked, h.own, ?_, ?_⟩
    · unfold Tracer.newCall
      cases t.hooked slot_id with
      | true => exact Or.inl ⟨rfl, rfl⟩
      | false => exact Or.inr rfl
    · refine List.nodup_cons.2 ⟨fun hmem => ?_, h.nodup⟩
      obtain ⟨c, hc, hid⟩ := List.mem_map.1 hmem
      have hlt := h.lt_next c hc
      rw [hid] at hlt
      exact absurd hlt (Nat.lt_irrefl _)
    · intro c hc
      rcases List.mem_cons.1 hc with rfl | hc
      · exact Nat.lt_succ_self _
      · exact Nat.lt_succ_of_lt (h.lt_next c hc)
  unfold Tracer.call
  split
  · next hnil =>
      rw [hnil] at hpush
      exact hpush
  · next c rest hcons =>
      rw [hcons] at hpush
      split
      · exact h
      · exact hpush

theorem Paired.nodup_head {t : Tracer} (h : Paired t) {c : JniCall} (c' : JniCall)
    {rest : List JniCall} (hcalls : t.calls = c :: rest) (hid : c'.id = c.id) :
    ((c' :: rest).map JniCall.id).Nodup ∧ ∀ d ∈ c' :: rest, d.id < t.nextCall := by
  have hnodup := h.nodup
  have hlt := h.lt_next
  rw [hcalls] at hnodup hlt
  constructor
  · rw [List.map_cons, hid, ← List.map_cons]
    exact hnodup
  · intro d hd
    rcases List.mem_cons.1 hd with rfl | hd
    · rw [hid]
      exact hlt c List.mem_cons_self
    · exact hlt d (List.mem_cons_of_mem _ hd)

theorem Paired.nodup_tail {t : Tracer} (h : Paired t) {c : JniCall} {rest : List JniCall}
    (hcalls : t.calls = c :: rest) :
    (rest.map JniCall.id).Nodup ∧ ∀ d ∈ rest, d.id < t.nextCall := by
  have hnodup := h.nodup
  have hlt := h.lt_next
  rw [hcalls] at hnodup hlt
  exact ⟨(List.nodup_cons.1 hnodup).2, fun d hd => hlt d (List.mem_cons_of_mem _ hd)⟩

theorem Paired.onEnter {t : Tracer} (h : Paired t) : Paired t.onEnter := by
  unfold Tracer.onEnter
  split
  · exact h
  · next c rest hcalls =>
      have hstacked := h.stacked
      rw [hcalls] at hstacked
      split
      · next hphase =>
          obtain ⟨htraced, hpushed, hrest⟩ := hstacked.of_stub hphase
          split
          · obtain ⟨hnodup, hlt⟩ := h.nodup_head { c with phase := .running } hcalls rfl
            exact ⟨.plain (Or.inr rfl) hpushed hrest, h.own, hnodup, hlt⟩
          · next htest =>
              obtain ⟨hnodup, hlt⟩ := h.nodup_head { c with phase := .entering } hcalls rfl
              have hinside : t.insideJniTracer = false := by
                rw [Bool.or_eq_true, not_or] at htest
                exact Bool.eq_false_iff.2 htest.1
              rw [hinside] at hrest
              exact ⟨.entering rfl htraced hrest, h.own, hnodup, hlt⟩
      · exact h

theorem Paired.entered {t : Tracer} (h : Paired t) (desc : Described) : Paired (t.entered desc) := by
  unfold Tracer.entered
  split
  · exact h
  · next c rest hcalls =>
      have hstacked := h.stacked
      rw [hcalls] at hstacked
      split
      · next hphase =>
          obtain ⟨hnodup, hlt⟩ :=
            h.nodup_head { c with phase := .running, pushed := true } hcalls rfl
          obtain ⟨htraced, hrest⟩ := hstacked.of_entering hphase
          exact ⟨.pushed rfl rfl htraced rfl hrest, h.own, hnodup, hlt⟩
      · exact h

theorem Paired.left {t : Tracer} (h : Paired t) (retStr timeBuf : String) :
    Paired (t.left retStr timeBuf) := by
  unfold Tracer.left
  split
  · exact h
  · next c rest hcalls =>
      have hstacked := h.stacked
      rw [hcalls] at hstacked
      split
      · next fr hphase =>
          obtain ⟨hnodup, hlt⟩ := h.nodup_tail hcalls
          exact ⟨hstacked.of_leaving hphase, h.own, hnodup, hlt⟩
      · exact h

/-- A call that returns with the flag as it was when it entered pops its own record, or none. -/
theorem Paired.onLeave {t : Tracer} (h : Paired t) {retval : UInt64}
    (hkept : FlagKept t (.onLeave retval)) : Paired (t.onLeave retval) := by
  unfold Tracer.onLeave
  split
  · exact h
  · next c rest hcalls =>
      have hstacked := h.stacked
      rw [hcalls] at hstacked
      obtain ⟨hnodup, hlt⟩ := h.nodup_tail hcalls
      split
      · next hphase =>
          have hflag := hkept retval c rest rfl hcalls hphase
          rcases hstacked.of_running hphase with
            ⟨hpushed, hrest⟩ | ⟨hpushed, htraced, hinside, fr, frames, hframes, hid, hrest⟩
          · split
            · next htest =>
                obtain ⟨⟨htraced, hin⟩, hon⟩ : (c.traced = true ∧ t.insideJniTracer = false) ∧
                    t.vtableTracing = true := by simpa using htest
                have hempty : t.callStack = [] := by
                  have hoff := hflag htraced hin
                  rw [hpushed, if_neg (by simp)] at hoff
                  exact hoff.resolve_left (by simp [hon])
                simp only [hempty]
                rw [hempty] at hrest
                exact ⟨hrest, h.own, hnodup, hlt⟩
            · exact ⟨hrest, h.own, hnodup, hlt⟩
          · have hon : t.vtableTracing = true := by
              have hon := hflag htraced hinside
              rwa [hpushed, if_pos rfl] at hon
            rw [if_pos (by simp [htraced, hinside, hon]), hframes]
            obtain ⟨hnodup', hlt'⟩ := h.nodup_head { c with phase := .leaving fr } hcalls rfl
            refine ⟨.leaving rfl hrest, fun p hp => ?_, hnodup', hlt'⟩
            rcases List.mem_append.1 hp with hp | hp
            · exact h.own p hp
            · obtain rfl := List.mem_singleton.1 hp
              exact hid.symm
      · exact h

theorem Paired.step {t : Tracer} {e : Event} (h : Paired t) (hkept : FlagKept t e) :
    Paired (t.step e) := by
  cases e with
  | install => exact h.install
  | uninstall => exact h.uninstall
  | rewrite => exact h.rewrite
  | call slot_id => exact h.call slot_id
  | onEnter => exact h.onEnter
  | entered desc => exact h.entered desc
  | onLeave retval => exact h.onLeave hkept
  | left retStr timeBuf => exact h.left retStr timeBuf

/-- Where the flag is not kept, a record outlives its call or is popped by another one. -/
theorem Paired.not_matched {t : Tracer} {e : Event} (h : Paired t) (hkept : ¬ FlagKept t e) :
    ¬ Matched (t.step e) := by
  unfold FlagKept at hkept
  push Not at hkept
  obtain ⟨retval, c, rest, rfl, hcalls, hphase, htraced, hinside, hflag⟩ := hkept
  intro hmatched
  have hstacked := h.stacked
  rw [hcalls] at hstacked
  have hnotMem : ∀ c' ∈ rest, c'.id ≠ c.id := by
    intro c' hc' hid
    have hnodup := h.nodup
    rw [hcalls] at hnodup
    exact (List.nodup_cons.1 hnodup).1 (hid ▸ List.mem_map_of_mem hc')
  rcases hstacked.of_running hphase with ⟨hpushed, hrest⟩ | ⟨hpushed, -, -, fr, frames, hframes, hid, -⟩
  · -- the record on top is that of an outer call
    rw [hpushed, if_neg (by simp)] at hflag
    push Not at hflag
    obtain ⟨hon, hne⟩ := hflag
    have hon : t.vtableTracing = true := by simpa using hon
    obtain ⟨fr, frames, hframes⟩ := List.exists_cons_of_ne_nil hne
    have hown := hmatched.own (c.id, fr.call)
    simp only [Tracer.step, Tracer.onLeave, hcalls, hphase, htraced, hinside, hon, hframes] at hown
    obtain ⟨c', hc', -, hid'⟩ := hrest.exists_call fr (by rw [hframes]; exact List.mem_cons_self)
    exact hnotMem c' hc' (hid'.trans (hown (by simp)).symm)
  · rw [hpushed, if_pos rfl] at hflag
    have hoff : t.vtableTracing = false := by simpa using hflag
    have hleft := hmatched.inProgress fr
    simp only [Tracer.step, Tracer.onLeave, hcalls, hphase, htraced, hinside, hoff, hframes] at hleft
    obtain ⟨c', hc', -, hid'⟩ := hleft (by simp)
    exact hnotMem c' hc' (hid'.trans hid)

/-! ## Runs -/

/-- For every state of the trace to start from, and every run of calls and of starts and stops of the
    trace: the records match in all states iff the flag is kept at every return. -/
theorem matched_iff_flagKept (hooked : Nat → Bool) (vtableTracing : Bool) (manager : Manager)
    (events : List Event) :
    (∀ k, Matched (run Tracer.step (Tracer.start hooked vtableTracing manager) (events.take k))) ↔
      Along Tracer.step FlagKept (Tracer.start hooked vtableTracing manager) events :=
  (Along.iff_forall_take_of_breaks (fun _ h => h.matched) (fun _ _ h => h.step)
    (fun _ _ h => h.not_matched) (paired_start hooked vtableTracing manager)).symm

/-- A call that is in its real function while the trace is stopped. -/
def stoppedInside : List Event :=
  [.call 33, .onEnter,
    .entered
      { call_desc := "GetMethodID(A, run, ()V)"
        caller_desc := "libapp.so+0x1000"
        matched := true
        idName := "run()V"
        stack_str := "" },
    .uninstall] ++
  List.replicate (kNumJniSlots + 1) .rewrite ++ [.onLeave 0x70]

set_option maxRecDepth 8192 in
/-- No call is left, and a record is. -/
theorem stoppedInside_not_matched :
    (run Tracer.step (Tracer.start (fun _ => true) true .idle) stoppedInside).calls.length = 0 ∧
      ¬ ∀ k, Matched
        (run Tracer.step (Tracer.start (fun _ => true) true .idle) (stoppedInside.take k)) := by
  have hcalls : (run Tracer.step (Tracer.start (fun _ => true) true .idle)
      stoppedInside).calls.length = 0 := by decide
  have hstack : (run Tracer.step (Tracer.start (fun _ => true) true .idle)
      stoppedInside).callStack.length = 1 := by decide
  refine ⟨hcalls, fun h => ?_⟩
  have hempty := (h stoppedInside.length).empty
  rw [List.take_length] at hempty
  rw [hempty (by rw [List.length_eq_zero_iff.1 hcalls]; simp)] at hstack
  simp at hstack

end ArtPi.Jni
