import ArtPi.Lib.Runs

set_option autoImplicit false

/-! # The gate (`src/agent/agent_main.cpp`)

One record for the whole process: the context of a thread that the injector has parked, a flag that
says that the process is paused, and the word that parked threads sleep on. A thread that the injector
parks in `artpi_gate_trampoline` continues with what the record holds when it leaves, except for `x17`,
through which the trampoline jumps. A thread that pauses itself, at a library the user wants to stop at, only waits for the flag, but writes its program
counter to the record before it sets the flag.

Parked threads look at the flag again whenever they wake up, so a wake-up may come at any time and
leads on only while the flag is 0. -/

namespace ArtPi.Agent

open ArtPi.Lib

/-- The saved part of `ArtPIGateState`, with `x0` to `x30` as `regs`. -/
structure Context where
  regs : Vector Nat 31
  sp : Nat
  pc : Nat
  pstate : Nat
  deriving DecidableEq

/-- What `artpi_gate_trampoline` loads from a record: it ends with `ldr x17, [x16, #256]` (the program
    counter) and `br x17`, and `regs[17]` is never loaded. -/
def Context.reload (c : Context) : Context := { c with regs := c.regs.set 17 c.pc }

theorem Context.reload_eq_iff (c : Context) : c.reload = c ↔ c.regs[17] = c.pc := by
  constructor
  · intro h
    have hregs : c.reload.regs[17] = c.pc := Vector.getElem_set_self ..
    rw [← hregs, h]
  · intro h
    have hregs : c.regs.set 17 c.pc = c.regs := by rw [← h]; exact Vector.set_getElem_self _
    show { c with regs := c.regs.set 17 c.pc } = c
    rw [hregs]

/-- A thread in `ArtPIGateWait`. -/
structure Parked where
  tid : Nat
  /-- where the thread was when it was parked -/
  ctx : Context
  /-- in the trampoline -/
  gate : Bool
  /-- a resume that returned true found the thread parked -/
  resumed : Bool := false
  deriving DecidableEq

structure Gate where
  saved : Context := ⟨Vector.replicate 31 0, 0, 0, 0⟩
  paused : Bool := false
  /-- threads that have written the program counter and not yet the flag -/
  entering : List (Nat × Context) := []
  parked : List Parked := []
  /-- threads of the trampoline that have yet to load the record -/
  leaving : List Parked := []
  /-- threads that went on: where they were parked, and with which context they continued -/
  continued : List (Context × Context) := []

namespace Gate

variable (g : Gate)

def idle (tid : Nat) : Bool :=
  g.entering.all (fun e => e.1 ≠ tid) && g.parked.all (fun p => p.tid ≠ tid) &&
    g.leaving.all (fun p => p.tid ≠ tid)

/-- The injector writes the record of a thread and sets it on the trampoline. -/
def parkMainThread (tid : Nat) (ctx : Context) : Gate :=
  if g.idle tid then
    { g with saved := ctx, paused := true, parked := ⟨tid, ctx, true, false⟩ :: g.parked }
  else g

/-- The first line of `ArtPIPauseCurrentThread`. -/
def writePc (tid : Nat) (ctx : Context) : Gate :=
  if g.idle tid then
    { g with saved := { g.saved with pc := ctx.pc }, entering := (tid, ctx) :: g.entering }
  else g

/-- The rest of `ArtPIPauseCurrentThread` up to the wait. -/
def setPaused (tid : Nat) : Gate :=
  match g.entering.find? (fun e => e.1 = tid) with
  | none => g
  | some (_, ctx) =>
    { g with
      paused := true
      entering := g.entering.eraseP (fun e => e.1 = tid)
      parked := ⟨tid, ctx, false, false⟩ :: g.parked }

/-- `ArtPIResumeProcess`; it returns true if the flag was set. -/
def resumeProcess : Gate :=
  if g.paused then
    { g with paused := false, parked := g.parked.map (fun p => { p with resumed := true }) }
  else g

/-- A parked thread looks at the flag. -/
def wake (tid : Nat) : Gate :=
  if g.paused then g
  else
    match g.parked.find? (fun p => p.tid = tid) with
    | none => g
    | some p =>
      let g' := { g with parked := g.parked.eraseP (fun p => p.tid = tid) }
      if p.gate then { g' with leaving := p :: g.leaving }
      else { g' with continued := (p.ctx, p.ctx) :: g.continued }

/-- The end of `artpi_gate_trampoline`. -/
def restore (tid : Nat) : Gate :=
  match g.leaving.find? (fun p => p.tid = tid) with
  | none => g
  | some p =>
    { g with
      leaving := g.leaving.eraseP (fun p => p.tid = tid)
      continued := (p.ctx, g.saved.reload) :: g.continued }

end Gate

inductive GateOp where
  | parkMainThread (tid : Nat) (ctx : Context)
  | writePc (tid : Nat) (ctx : Context)
  | setPaused (tid : Nat)
  | resumeProcess
  | wake (tid : Nat)
  | restore (tid : Nat)

def Gate.step (g : Gate) : GateOp → Gate
  | .parkMainThread tid ctx => g.parkMainThread tid ctx
  | .writePc tid ctx => g.writePc tid ctx
  | .setPaused tid => g.setPaused tid
  | .resumeProcess => g.resumeProcess
  | .wake tid => g.wake tid
  | .restore tid => g.restore tid

/-! ## Threads go on where they were -/

/-- What the trampoline loads from the record is the context of every thread that will continue with
    it, every thread went on where it was parked, and no thread that was resumed is held any longer. -/
structure Gate.Resumes (g : Gate) : Prop where
  saved : ∀ p ∈ g.parked ++ g.leaving, p.gate = true → g.saved.reload = p.ctx
  continued : ∀ x ∈ g.continued, x.1 = x.2
  released : ∀ p ∈ g.parked, p.resumed = true → g.paused = false
  /-- only threads of the trampoline load the record -/
  leaving : ∀ p ∈ g.leaving, p.gate = true

/-- The record is written only with what the threads that will load it have in it, a thread that will
    load it has its program counter in `x17`, and the flag is set only when the threads that were
    resumed have left. -/
def GateOp.unneeded (g : Gate) : GateOp → Prop
  | .parkMainThread tid ctx => g.idle tid = true →
      ctx.regs[17] = ctx.pc ∧ (∀ p ∈ g.parked ++ g.leaving, p.gate = true → p.ctx = ctx) ∧
        ∀ p ∈ g.parked, p.resumed = false
  | .writePc tid ctx => g.idle tid = true →
      ∀ p ∈ g.parked ++ g.leaving, p.gate = true → p.ctx.pc = ctx.pc
  | .setPaused tid => (g.entering.find? (fun e => e.1 = tid)).isSome →
      ∀ p ∈ g.parked, p.resumed = false
  | .resumeProcess | .wake _ | .restore _ => True

theorem Gate.Resumes.init : Gate.Resumes {} := ⟨by simp, by simp, by simp, by simp⟩

section

variable {g : Gate}

theorem Gate.Resumes.parkMainThread_iff (h : g.Resumes) (tid : Nat) (ctx : Context) :
    GateOp.unneeded g (.parkMainThread tid ctx) ↔ (g.parkMainThread tid ctx).Resumes := by
  unfold Gate.parkMainThread
  split
  · rename_i hidle
    constructor
    · intro hok
      obtain ⟨hx17, hsame, hnone⟩ := hok hidle
      have hreload : ctx.reload = ctx := ctx.reload_eq_iff.mpr hx17
      refine ⟨fun p hp hgate => ?_, h.continued, fun p hp hres => ?_, h.leaving⟩
      · rcases List.mem_cons.mp hp with rfl | hp
        · exact hreload
        · exact hreload.trans (hsame p hp hgate).symm
      · rcases List.mem_cons.mp hp with rfl | hp
        · exact absurd hres (by simp)
        · exact absurd ((hnone p hp).symm.trans hres) (by simp)
    · intro h' _
      have hreload : ctx.reload = ctx := h'.saved ⟨tid, ctx, true, false⟩ (by simp) rfl
      refine ⟨ctx.reload_eq_iff.mp hreload, fun p hp hgate => ?_, fun p hp => ?_⟩
      · have hsaved : ctx.reload = p.ctx := h'.saved p (List.mem_cons_of_mem _ hp) hgate
        rw [← hsaved, hreload]
      · cases hres : p.resumed with
        | false => rfl
        | true => exact absurd (h'.released p (List.mem_cons_of_mem _ hp) hres) (by simp)
  · rename_i hidle
    exact ⟨fun _ => h, fun _ hyes => absurd hyes hidle⟩

theorem Gate.Resumes.writePc_iff (h : g.Resumes) (tid : Nat) (ctx : Context) :
    GateOp.unneeded g (.writePc tid ctx) ↔ (g.writePc tid ctx).Resumes := by
  unfold Gate.writePc
  split
  · rename_i hidle
    constructor
    · intro hok
      refine ⟨fun p hp hgate => ?_, h.continued, h.released, h.leaving⟩
      have hsaved : g.saved.reload = p.ctx := h.saved p hp hgate
      have hpc : ctx.pc = g.saved.pc := by rw [← hok hidle p hp hgate, ← hsaved]; rfl
      show Context.reload { g.saved with pc := ctx.pc } = p.ctx
      rw [hpc]
      exact hsaved
    · intro h' _ p hp hgate
      rw [← h'.saved p hp hgate]
      rfl
  · rename_i hidle
    exact ⟨fun _ => h, fun _ hyes => absurd hyes hidle⟩

theorem Gate.Resumes.setPaused_iff (h : g.Resumes) (tid : Nat) :
    GateOp.unneeded g (.setPaused tid) ↔ (g.setPaused tid).Resumes := by
  unfold Gate.setPaused
  cases hfind : g.entering.find? (fun e => e.1 = tid) with
  | none => exact ⟨fun _ => h, fun _ hyes => absurd hyes (by simp [hfind])⟩
  | some e =>
    constructor
    · intro hok
      have hnone := hok (by simp [hfind])
      refine ⟨fun p hp hgate => ?_, h.continued, fun p hp hres => ?_, h.leaving⟩
      · rcases List.mem_cons.mp hp with rfl | hp
        · exact absurd hgate (by simp)
        · exact h.saved p hp hgate
      · rcases List.mem_cons.mp hp with rfl | hp
        · exact absurd hres (by simp)
        · exact absurd ((hnone p hp).symm.trans hres) (by simp)
    · intro h' _ p hp
      cases hres : p.resumed with
      | false => rfl
      | true => exact absurd (h'.released p (List.mem_cons_of_mem _ hp) hres) (by simp)

theorem Gate.Resumes.resumeProcess (h : g.Resumes) : g.resumeProcess.Resumes := by
  unfold Gate.resumeProcess
  split
  · refine ⟨fun p hp hgate => ?_, h.continued, fun _ _ _ => rfl, h.leaving⟩
    rcases List.mem_append.mp hp with hp | hp
    · obtain ⟨q, hq, rfl⟩ := List.mem_map.mp hp
      exact h.saved q (List.mem_append_left _ hq) hgate
    · exact h.saved p (List.mem_append_right _ hp) hgate
  · exact h

theorem Gate.Resumes.wake (h : g.Resumes) (tid : Nat) : (g.wake tid).Resumes := by
  unfold Gate.wake
  split
  · exact h
  cases hfind : g.parked.find? (fun p => p.tid = tid) with
  | none => exact h
  | some p =>
    have hp : p ∈ g.parked := List.mem_of_find?_eq_some hfind
    have hrest : ∀ q ∈ g.parked.eraseP (fun p => p.tid = tid), q ∈ g.parked :=
      fun q hq => List.mem_of_mem_eraseP hq
    have hsaved : ∀ q ∈ g.parked.eraseP (fun p => p.tid = tid) ++ g.leaving, q.gate = true →
        g.saved.reload = q.ctx := by
      intro q hq hgate
      rcases List.mem_append.mp hq with hq | hq
      · exact h.saved q (List.mem_append_left _ (hrest q hq)) hgate
      · exact h.saved q (List.mem_append_right _ hq) hgate
    have hreleased : ∀ q ∈ g.parked.eraseP (fun p => p.tid = tid), q.resumed = true →
        g.paused = false := fun q hq hres => h.released q (hrest q hq) hres
    dsimp only
    split
    · rename_i hgate
      refine ⟨fun q hq hgate' => ?_, h.continued, hreleased, fun q hq => ?_⟩
      · rcases List.mem_append.mp hq with hq | hq
        · exact hsaved q (List.mem_append_left _ hq) hgate'
        · rcases List.mem_cons.mp hq with rfl | hq
          · exact h.saved q (List.mem_append_left _ hp) hgate'
          · exact hsaved q (List.mem_append_right _ hq) hgate'
      · rcases List.mem_cons.mp hq with rfl | hq
        · exact hgate
        · exact h.leaving q hq
    · refine ⟨hsaved, fun x hx => ?_, hreleased, h.leaving⟩
      rcases List.mem_cons.mp hx with rfl | hx
      · rfl
      · exact h.continued x hx

theorem Gate.Resumes.restore (h : g.Resumes) (tid : Nat) : (g.restore tid).Resumes := by
  unfold Gate.restore
  cases hfind : g.leaving.find? (fun p => p.tid = tid) with
  | none => exact h
  | some p =>
    have hp : p ∈ g.leaving := List.mem_of_find?_eq_some hfind
    refine ⟨fun q hq hgate => ?_, fun x hx => ?_, h.released, fun q hq => ?_⟩
    · rcases List.mem_append.mp hq with hq | hq
      · exact h.saved q (List.mem_append_left _ hq) hgate
      · exact h.saved q (List.mem_append_right _ (List.mem_of_mem_eraseP hq)) hgate
    · rcases List.mem_cons.mp hx with rfl | hx
      · exact (h.saved p (List.mem_append_right _ hp) (h.leaving p hp)).symm
      · exact h.continued x hx
    · exact h.leaving q (List.mem_of_mem_eraseP hq)

theorem Gate.Resumes.step_iff (h : g.Resumes) (op : GateOp) : op.unneeded g ↔ (g.step op).Resumes := by
  cases op with
  | parkMainThread tid ctx => exact h.parkMainThread_iff tid ctx
  | writePc tid ctx => exact h.writePc_iff tid ctx
  | setPaused tid => exact h.setPaused_iff tid
  | resumeProcess => exact ⟨fun _ => h.resumeProcess, fun _ => trivial⟩
  | wake tid => exact ⟨fun _ => h.wake tid, fun _ => trivial⟩
  | restore tid => exact ⟨fun _ => h.restore tid, fun _ => trivial⟩

end

/-- Threads go on where they were parked, and are free once a resume found them, exactly in the runs
    in which the injector parks threads only with their program counter in `x17`, nobody overwrites
    what a parked thread has yet to load, and nobody pauses before the threads of the last resume have
    left. -/
theorem gate_resumes_iff (ops : List GateOp) :
    (∀ n, (run Gate.step {} (ops.take n)).Resumes) ↔
      Along Gate.step (fun g op => op.unneeded g) {} ops :=
  (Along.iff_forall_take (fun _ op h => h.step_iff op) Gate.Resumes.init).symm

/-- A context at a place, with a value in `x17`. -/
def contextAt (pc x17 : Nat) : Context := ⟨(Vector.replicate 31 0).set 17 x17, 0, pc, 0⟩

/-- The main thread is parked at the gate, another thread stops at a library, and both are resumed. -/
def overwritten : List GateOp :=
  [.parkMainThread 1 (contextAt 0x1000 0x1000), .writePc 2 (contextAt 0x2000 0), .setPaused 2,
    .resumeProcess, .wake 1, .restore 1]

/-- Two threads stop at libraries; the second one pauses before the first has woken up. -/
def held : List GateOp :=
  [.writePc 1 (contextAt 0x1000 0), .setPaused 1, .resumeProcess,
    .writePc 2 (contextAt 0x2000 0), .setPaused 2]

/-- The main thread is parked at the gate with 5 in `x17`, and resumed; nobody else is there. -/
def alone : List GateOp :=
  [.parkMainThread 1 (contextAt 0x1000 5), .resumeProcess, .wake 1, .restore 1]

/-- The main thread goes on where the other thread stopped; the first thread is held by the flag of the
    second; and a thread that is alone goes on without what it had in `x17`. -/
theorem gate_not_resumes :
    (run Gate.step {} overwritten).continued =
        [(contextAt 0x1000 0x1000, contextAt 0x2000 0x2000)] ∧
      ¬ (run Gate.step {} overwritten).Resumes ∧ ¬ (run Gate.step {} held).Resumes ∧
      (run Gate.step {} alone).continued = [(contextAt 0x1000 5, contextAt 0x1000 0x1000)] ∧
      ¬ (run Gate.step {} alone).Resumes := by
  have hcontinued : (run Gate.step {} overwritten).continued =
      [(contextAt 0x1000 0x1000, contextAt 0x2000 0x2000)] := by decide
  have hlost : (run Gate.step {} alone).continued =
      [(contextAt 0x1000 5, contextAt 0x1000 0x1000)] := by decide
  refine ⟨hcontinued, fun h => ?_, fun h => ?_, hlost, fun h => ?_⟩
  · have hsame := h.continued (contextAt 0x1000 0x1000, contextAt 0x2000 0x2000) (by simp [hcontinued])
    exact absurd hsame (by decide)
  · have hfree := h.released ⟨1, contextAt 0x1000 0, false, true⟩ (by decide) rfl
    exact absurd hfree (by decide)
  · have hsame := h.continued (contextAt 0x1000 5, contextAt 0x1000 0x1000) (by simp [hlost])
    exact absurd hsame (by decide)

end ArtPi.Agent
