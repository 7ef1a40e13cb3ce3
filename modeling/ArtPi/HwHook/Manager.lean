import ArtPi.Lib.Runs
import ArtPi.Lib.Owners
import Mathlib.Algebra.Order.Ring.Int

set_option autoImplicit false

/-! # Hardware breakpoints and watchpoints (`engine/native/hooker/pi_hw_hook.cpp`)

The manager behind `HwHookManager::instance()`, once `init` is over: its sessions, its table of used
slots, and the calls of `HandleException` whose callback is running. Every section that holds the
lock is one step, so `HandleException` is two, and what a callback does with the manager are steps
in between. Whether a thread can be armed is for the environment to say. -/

namespace ArtPi.HwHook

def kMaxHwSlots : Nat := 16

inductive HwHookType where
  | breakpoint | watchpoint
  deriving DecidableEq

/-- An entry of `bp_slots_` or of `wp_slots_`. -/
abbrev Slot := HwHookType × Nat

/-- A thread of the process. Its id is positive; 0 is no thread. -/
abbrev Tid := { t : Nat // 0 < t }

structure HwHookConfig where
  type : HwHookType
  address : Nat
  size : Nat := 4
  /-- 0 for all threads -/
  threadId : Nat := 0
  /-- negative for any -/
  slot : Int := -1
  once : Bool := false
  /-- `on_hit` is set -/
  onHit : Bool := true

structure HwHookSession where
  /-- the object a `shared_ptr` points to -/
  ref : Nat
  id : Nat
  config : HwHookConfig
  assignedSlot : Nat
  active : Bool := true
  armedThreads : List Nat := []
  stepOverSlot : Option Nat := none
  stepOverPc : Nat := 0
  steppingThread : Nat := 0

/-- A call of `HandleException` that runs its callback. -/
structure Flight where
  ref : Nat
  once : Bool
  tid : Tid
  faultAddr : Nat
  pcAddr : Nat

structure HwHookManager where
  sessions : List HwHookSession := []
  slots : Slot → Bool := fun _ => false
  bpCapacity : Nat := 6
  wpCapacity : Nat := 4
  nextId : Nat := 1
  nextRef : Nat := 0
  inFlight : List Flight := []

namespace HwHookManager

variable (m : HwHookManager)

def capacity : HwHookType → Nat
  | .breakpoint => m.bpCapacity
  | .watchpoint => m.wpCapacity

def setSlot (k : Slot) (used : Bool) : HwHookManager :=
  { m with slots := Function.update m.slots k used }

/-- The first free slot of a type that meets a condition. -/
def firstFree (type : HwHookType) (want : Nat → Bool) : Option Nat :=
  (List.range (m.capacity type)).find? (fun i => !m.slots (type, i) && want i)

def allocateSlot (type : HwHookType) (requested : Int) : Option Nat :=
  if 0 ≤ requested then
    if requested < m.capacity type ∧ m.slots (type, requested.toNat) = false then
      some requested.toNat
    else none
  else m.firstFree type (fun _ => true)

def freeSlot (type : HwHookType) (slot : Nat) : HwHookManager :=
  if slot < kMaxHwSlots then m.setSlot (type, slot) false else m

/-- Replaces the session an object is the first of. -/
def updateFirst (ref : Nat) (f : HwHookSession → HwHookSession) :
    List HwHookSession → List HwHookSession
  | [] => []
  | s :: ss => if s.ref = ref then f s :: ss else s :: updateFirst ref f ss

def update (ref : Nat) (f : HwHookSession → HwHookSession) : HwHookManager :=
  { m with sessions := updateFirst ref f m.sessions }

/-! ## Attaching and detaching -/

/-- `attach`; `armable` are the threads `armOnThread` succeeds on, out of `tids`. -/
def attach (config : HwHookConfig) (tids armable : List Nat) : HwHookManager :=
  if config.address = 0 || !config.onHit then m
  else if m.sessions.any (fun s => s.active && s.config.address = config.address &&
      s.config.type = config.type) then m
  else
    match m.allocateSlot config.type config.slot with
    | none => m
    | some slot =>
      let wanted := if config.threadId > 0 then [config.threadId] else tids
      let armed := wanted.filter (· ∈ armable)
      let m' := { m.setSlot (config.type, slot) true with
        nextId := (m.nextId + 1) % 2 ^ 32, nextRef := m.nextRef + 1 }
      if armed = [] ∧ wanted ≠ [] then m'.freeSlot config.type slot
      else
        { m' with sessions := m.sessions ++
            [{ ref := m.nextRef, id := m.nextId, config, assignedSlot := slot,
               armedThreads := armed }] }

/-- What `detach` and `detachAll` do to the slots of a session. -/
def release (s : HwHookSession) : HwHookManager :=
  let m' := match s.stepOverSlot with
    | some k => if s.steppingThread > 0 then m.setSlot (.breakpoint, k) false else m
    | none => m
  m'.freeSlot s.config.type s.assignedSlot

def detach (id : Nat) : HwHookManager :=
  match m.sessions.find? (fun s => s.id = id) with
  | none => m
  | some s => { m.release s with sessions := m.sessions.eraseP (fun s => s.id = id) }

/-- All marks go, whatever the sessions own. -/
def detachAll : HwHookManager :=
  { m.sessions.foldl release m with sessions := [], slots := fun _ => false }

def refreshCapacity (bp wp : Int) : HwHookManager :=
  { m with
    bpCapacity := min (if 0 < bp then bp.toNat else m.bpCapacity) kMaxHwSlots
    wpCapacity := min (if 0 < wp then wp.toNat else m.wpCapacity) kMaxHwSlots }

def rearmMissingThreads (tids armable : List Nat) : HwHookManager :=
  { m with sessions := m.sessions.map (fun s =>
      if s.active then
        { s with armedThreads := s.armedThreads ++ tids.filter (fun t =>
            (s.config.threadId = 0 || s.config.threadId = t) && t ∉ s.armedThreads &&
              t ∈ armable) }
      else s) }

/-! ## Exceptions -/

/-- The session steps over on this thread, and stops here. -/
def stepsOver (tid : Tid) (faultAddr pcAddr : Nat) (s : HwHookSession) : Bool :=
  s.active && s.steppingThread = tid.val && (s.stepOverPc = faultAddr || s.stepOverPc = pcAddr)

def hits (faultAddr pcAddr memAddr : Nat) (s : HwHookSession) : Bool :=
  s.active && (match s.config.type with
    | .breakpoint => faultAddr = s.config.address || pcAddr = s.config.address
    | .watchpoint => s.config.address ≤ memAddr && memAddr < s.config.address + s.config.size)

/-- `HandleException` up to the callback. A one-shot session on all threads is disarmed by a loop that
    erases from the set it iterates over; that set goes with the session, and no slot or id with it. -/
def enter (tid : Tid) (faultAddr pcAddr memAddr : Nat) : HwHookManager :=
  match m.sessions.find? (stepsOver tid faultAddr pcAddr) with
  | some s =>
    let m' := match s.stepOverSlot with
      | some k => m.setSlot (.breakpoint, k) false
      | none => m
    m'.update s.ref (fun s => { s with stepOverSlot := none, stepOverPc := 0, steppingThread := 0 })
  | none =>
    match m.sessions.find? (hits faultAddr pcAddr memAddr) with
    | none => m
    | some s =>
      let m' := if s.config.once then
          { m.freeSlot s.config.type s.assignedSlot with
            sessions := m.sessions.eraseP (fun s' => s'.ref = s.ref) }
        else m
      { m' with inFlight := m.inFlight ++ [⟨s.ref, s.config.once, tid, faultAddr, pcAddr⟩] }

/-- The registers behind the callback. -/
structure CpuContext where
  lr : Nat := 0
  fp : Nat := 0
  x : Nat → Nat := fun _ => 0

/-- Where the instruction at `curPc` goes: `ret`, `b` and `bl`, `br` and `blr`, or the next one. -/
def nextPc (curPc insn : Nat) (ctx : CpuContext) : Nat :=
  if curPc < 0x1000 then (curPc + 4) % 2 ^ 64
  else if insn &&& 0xfffffc1f = 0xd65f0000 then ctx.lr
  else if insn &&& 0x7c000000 = 0x14000000 then
    let imm26 := insn &&& 0x03ffffff
    let offset := if imm26 &&& 0x02000000 ≠ 0 then 2 ^ 64 - (2 ^ 26 - imm26) * 4 else imm26 * 4
    (curPc + offset) % 2 ^ 64
  else if insn &&& 0xfffffc1f = 0xd61f0000 ∨ insn &&& 0xfffffc1f = 0xd63f0000 then
    let rn := (insn >>> 5) &&& 0x1f
    if rn < 29 then ctx.x rn else if rn = 29 then ctx.fp else if rn = 30 then ctx.lr
    else (curPc + 4) % 2 ^ 64
  else (curPc + 4) % 2 ^ 64

/-- The session steps over with a slot of its own. -/
def stepOver (s : HwHookSession) (slot pc : Nat) (tid : Tid) : HwHookManager :=
  (m.setSlot (.breakpoint, slot) true).update s.ref (fun s =>
    { s with stepOverSlot := some slot, stepOverPc := pc, steppingThread := tid.val })

/-- The slot a session would step over with. -/
def stepSlot (s : HwHookSession) : Option Nat :=
  match s.config.type with
  | .breakpoint => m.firstFree .breakpoint (fun i => i ≠ s.assignedSlot)
  | .watchpoint => m.firstFree .breakpoint (fun _ => true)

/-- `HandleException` behind its callback. -/
def leave (i : Nat) (insn : Nat) (ctx : CpuContext) : HwHookManager :=
  match m.inFlight[i]? with
  | none => m
  | some flight =>
    let m' := { m with inFlight := m.inFlight.eraseIdx i }
    if flight.once then m'
    else
      -- a session that is not in the list was detached, which makes it inactive
      match m'.sessions.find? (fun s => s.ref = flight.ref) with
      | none => m'
      | some s =>
        if !s.active then m'
        else
          match s.config.type, m'.stepSlot s with
          | .breakpoint, none => m'
          | .breakpoint, some slot =>
            let curPc := if flight.faultAddr ≥ 0x1000 then flight.faultAddr else flight.pcAddr
            m'.stepOver s slot (nextPc curPc insn ctx) flight.tid
          | .watchpoint, some slot =>
            m'.stepOver s slot ((flight.pcAddr + 4) % 2 ^ 64) flight.tid
          | .watchpoint, none =>
            (m'.update s.ref (fun s => { s with active := false })).freeSlot s.config.type
              s.assignedSlot

end HwHookManager

inductive Op where
  | attach (config : HwHookConfig) (tids armable : List Nat)
  | detach (id : Nat)
  | detachAll
  | refreshCapacity (bp wp : Int)
  | rearmMissingThreads (tids armable : List Nat)
  | enter (tid : Tid) (faultAddr pcAddr memAddr : Nat)
  | leave (flight insn : Nat) (ctx : HwHookManager.CpuContext)

/-- One section of a thread that holds the lock. -/
def step (m : HwHookManager) : Op → HwHookManager
  | .attach config tids armable => m.attach config tids armable
  | .detach id => m.detach id
  | .detachAll => m.detachAll
  | .refreshCapacity bp wp => m.refreshCapacity bp wp
  | .rearmMissingThreads tids armable => m.rearmMissingThreads tids armable
  | .enter tid faultAddr pcAddr memAddr => m.enter tid faultAddr pcAddr memAddr
  | .leave flight insn ctx => m.leave flight insn ctx

end ArtPi.HwHook
