import Mathlib.Data.List.Infix

set_option autoImplicit false

/-! # The instruction tracer (`src/sandbox/pi_interp_tracer.cpp`, `pi_interp_executor.cpp`)

An interpreter run under the tracer: frames that dispatch instructions through the hook of `FINISH`,
invokes that go through `TRACED_INVOKE` and may step into the callee, which is a frame of its own
with its own `Session`. What the traced code, the callbacks and the runtime do is given by a stream
of `Facts`, one for each dispatched instruction, so a statement about every run is a statement about
every stream. A run is followed for a bounded number of steps, and what happened so far is its list
of `Event`s. -/

namespace ArtPi.Interp

/-! ## Options and callbacks -/

structure Options where
  maxInstructions : Int := -1
  stepInEnabled : Bool := false
  maxDepth : Int := 8
  enableNativeStepIn : Bool := false
  safeHandoff : Bool := false

structure FilterOptions where
  filterSystemClasses : Bool := true
  whitelistPkgs : List String := []
  blacklistPkgs : List String := []

/-- Which callbacks are installed; what they answer is in the `Facts`. -/
structure Callbacks where
  onInsn : Bool := false
  onInvoke : Bool := false
  onInvokePost : Bool := false
  onException : Bool := false

/-- What is fixed for a session. A frame is traced only if a callback is installed. -/
structure Config where
  opts : Options := {}
  filter : Option FilterOptions := none
  cbs : Callbacks
  appScopePkg : String := ""

inductive InvokeVerdict where
  | jniDirect | stepIn | mock
  deriving DecidableEq

/-! ## Scope of interpretation -/

/-- `desc.rfind(p, 0) == 0` -/
def startsWith (desc p : String) : Bool := p.toList.isPrefixOf desc.toList

/-- `sig.find(p) != npos` -/
def contains (sig p : String) : Bool := decide (p.toList <:+: sig.toList)

def isSystemDescriptor (desc : String) : Bool :=
  ["Ljava/", "Ljavax/", "Landroid/", "Landroidx/", "Lkotlin/", "Lkotlinx/", "Lorg/jetbrains/",
    "Ldalvik/", "Llibcore/", "Lsun/", "Lorg/apache/harmony/"].any (startsWith desc)

def isCoroutineSignature (sig : String) : Bool :=
  contains sig "Lkotlin/coroutines/Continuation;" ||
    contains sig "Lkotlin/coroutines/jvm/internal/" || contains sig "Lkotlin/coroutines/jvm/"

def isInterpretableDescriptor (pkg desc : String) : Bool :=
  if desc.toList = [] then false
  else if pkg.toList = [] then !isSystemDescriptor desc
  else
    let slashed := 'L' :: (pkg.toList.map (fun c => if c = '.' then '/' else c) ++ ['/'])
    slashed.isPrefixOf (desc.toList.dropWhile (· = '['))

def passScopeFilter (cfg : Config) (desc : String) : Bool :=
  match cfg.filter with
  | none => isInterpretableDescriptor cfg.appScopePkg desc
  | some f =>
    if f.filterSystemClasses && isSystemDescriptor desc then false
    else if f.blacklistPkgs.any (startsWith desc) then false
    else if !f.whitelistPkgs.isEmpty then f.whitelistPkgs.any (startsWith desc)
    else if cfg.appScopePkg.toList ≠ [] then isInterpretableDescriptor cfg.appScopePkg desc
    else true

/-! ## What the environment decides -/

structure MethodRef where
  classDescriptor : String
  name : String
  jniSignature : String

def MethodRef.isValid (r : MethodRef) : Bool := r.name.toList ≠ []

/-- What `resolveArtMethod` finds. -/
structure ArtMethod where
  isNative : Bool := false
  isAbstract : Bool := false

inductive Status where
  | ok | aborted | error | noCode | resolveFail | unsupported | packFail
  deriving DecidableEq

/-- The checks of `runMethodInternal` behind the first ones: arguments, dex file and code item,
    `prescanInsns`, local frame, registers, bridge. -/
inductive Refusal where
  | error | resolveFail | unsupported | packFail
  deriving DecidableEq

def Refusal.status : Refusal → Status
  | .error => .error
  | .resolveFail => .resolveFail
  | .unsupported => .unsupported
  | .packFail => .packFail

/-- `dispatchToNative`: nothing is run without an entry or with too many arguments; a run fails if
    the engine stops it and no exception is pending. -/
inductive NativeRun where
  | notRun | failed | done
  deriving DecidableEq

/-- What an instruction does to its frame, `GOTO_exceptionThrown` included: the next instruction, a
    return (or a bail) with or without a pending exception, a throw with or without a handler. -/
inductive Effect where
  | next
  | ret (exc : Bool)
  | throw (caught : Bool)

/-- A record of `pendingCalls`: the invoke instruction and the frame that pushed it. -/
structure PendingCall where
  call : Nat
  frame : Option Nat
  deriving DecidableEq

/-- What sessions run by a callee on the same thread do to `pendingCalls`. -/
structure Reentry where
  taken : Nat := 0
  left : List PendingCall := []
  deriving DecidableEq

/-- The answers of the environment for one dispatched instruction. -/
structure Facts where
  op : UInt8
  /-- an exception is pending when the instruction is dispatched -/
  excPending : Bool := false
  onInsn : Bool := true
  /-- the method and the receiver of an invoke resolve -/
  resolved : Bool := true
  /-- of an instruction that is not a traced invoke -/
  effect : Effect := .next
  ref : MethodRef := ⟨"", "", ""⟩
  preArt : Option ArtMethod := none
  stepArt : Option ArtMethod := none
  onInvoke : InvokeVerdict := .jniDirect
  /-- `resolveNativeTarget` -/
  nativeReady : Bool := false
  native : NativeRun := .notRun
  /-- an exception is pending when `runMethodInternal` is entered -/
  excAtCall : Bool := false
  refusal : Option Refusal := none
  reentry : Reentry := {}
  /-- an exception is pending after `TRACED_INVOKE` -/
  excAfter : Bool := false
  caught : Bool := false

/-- `invoke-*` and `invoke-*/range` -/
def isInvoke (op : UInt8) : Bool :=
  (0x6e ≤ op && op ≤ 0x72) || (0x74 ≤ op && op ≤ 0x78)

/-- `isInvokeOpcode`, which also counts `filled-new-array`. -/
def isInvokeOpcode (op : UInt8) : Bool := isInvoke op || op = 0x24 || op = 0x25

/-- The instruction reaches `TRACED_INVOKE`. The bridge resolves valid references only. -/
def Facts.traced (f : Facts) : Bool := isInvoke f.op && f.resolved && f.ref.isValid

def Facts.risky (f : Facts) : Bool :=
  (0x22 ≤ f.op && f.op ≤ 0x25) ||
    (isInvokeOpcode f.op && f.ref.isValid && isSystemDescriptor f.ref.classDescriptor)

/-- With which exception state the instruction leaves its frame, if it does. -/
def Facts.leaves (f : Facts) : Option Bool :=
  if f.traced then if f.excAfter && !f.caught then some true else none
  else
    match f.effect with
    | .next => none
    | .ret exc => some exc
    | .throw caught => if caught then none else some true

def Facts.reenter (f : Facts) (pending : List PendingCall) : List PendingCall :=
  f.reentry.left ++ pending.drop f.reentry.taken

/-! ## Sessions, events and results -/

/-- `Session`, with the frame it belongs to: `none` for the method the run was started with, else
    the invoke that stepped in. `started` says that an instruction was interpreted. -/
structure Session where
  frame : Option Nat
  depth : Nat
  budgetUsed : Nat := 0
  aborted : Bool := false
  handoffHit : Bool := false
  started : Bool := false
  deriving DecidableEq

def makeSession (frame : Option Nat) (depth : Nat) : Session := { frame, depth }

/-- How the body of a callee begins. -/
inductive Begin where
  | interp | jni | native
  deriving DecidableEq

/-- An invoke is named by the number of its dispatched instruction. -/
inductive Event where
  /-- an instruction is about to be dispatched -/
  | dispatch (s : Session) (pending : List PendingCall) (insn : Nat)
  | onInsn (frame : Option Nat) (answer : Bool)
  | insn (frame : Option Nat) (insn : Nat)
  | insnEnd (frame : Option Nat) (insn : Nat)
  | onInvoke (frame : Option Nat) (call : Nat)
  | begun (call : Nat) (how : Begin)
  | mocked (call : Nat)
  | onInvokePost (frame : Option Nat) (call : Nat) (record : PendingCall)
  /-- `TRACED_INVOKE` is over -/
  | invoked (call : Nat)
  /-- the frame's run is over; `pendingCalls` when it began and now -/
  | finished (frame : Option Nat) (aborted : Bool) (entry pending : List PendingCall)
  deriving DecidableEq

structure Exit where
  aborted : Bool
  handoff : Bool
  exc : Bool

/-- What happened, and the state behind it. A frame without `exit` is still running. -/
structure Out where
  events : List Event
  clock : Nat
  pending : List PendingCall
  exit : Option Exit

/-! ## The hooks -/

structure Hook where
  session : Session
  called : List Event
  stop : Bool

def budgetOut (cfg : Config) (s : Session) : Bool :=
  0 ≤ cfg.opts.maxInstructions && (s.budgetUsed + 1 : Int) > cfg.opts.maxInstructions

def trOnInsn (cfg : Config) (s : Session) (f : Facts) : Hook :=
  let s' := { s with budgetUsed := s.budgetUsed + 1 }
  if budgetOut cfg s then ⟨{ s' with aborted := true }, [], true⟩
  else if cfg.opts.safeHandoff && f.risky then
    ⟨{ s' with handoffHit := true, aborted := true }, [], true⟩
  else if !cfg.cbs.onInsn then ⟨s', [], false⟩
  else if f.onInsn then ⟨s', [.onInsn s.frame true], false⟩
  else ⟨{ s' with aborted := true }, [.onInsn s.frame false], true⟩

inductive Policy where
  | jni | mock | stepIn
  deriving DecidableEq

structure Pre where
  policy : Policy
  events : List Event
  pending : List PendingCall

def trOnInvokePre (cfg : Config) (s : Session) (f : Facts) (call : Nat)
    (pending : List PendingCall) : Pre :=
  if !f.ref.isValid then ⟨.jni, [], pending⟩
  else
    let isNative := match f.preArt with
      | none => true
      | some am => am.isNative
    let inScope := passScopeFilter cfg f.ref.classDescriptor &&
      !isCoroutineSignature f.ref.jniSignature && !isNative && s.depth < cfg.opts.maxDepth
    if !cfg.cbs.onInvoke then
      ⟨if inScope && cfg.opts.stepInEnabled then .stepIn else .jni, [], pending⟩
    else
      let policy := match f.onInvoke with
        | .mock => .mock
        | .jniDirect => .jni
        | .stepIn =>
          if isNative then
            if cfg.opts.enableNativeStepIn && f.nativeReady then .stepIn else .jni
          else if inScope then .stepIn else .jni
      ⟨policy, [.onInvoke s.frame call], ⟨call, s.frame⟩ :: pending⟩

def trOnInvokePost (cfg : Config) (s : Session) (call : Nat) (pending : List PendingCall) :
    List Event × List PendingCall :=
  if !cfg.cbs.onInvokePost then ([], pending)
  else
    match pending with
    | [] => ([], [])
    | record :: rest => ([.onInvokePost s.frame call record], rest)

/-! ## Running a method -/

/-- What `runMethodInternal` looks at before it interprets anything. -/
structure Entry where
  exc : Bool := false
  isNative : Bool := false
  isAbstract : Bool := false
  refusal : Option Refusal := none

def kHardMaxDepth : Nat := 64

structure RunResult where
  status : Status
  exceptionPending : Bool := false
  handoff : Bool := false

structure RunOut where
  events : List Event
  clock : Nat
  pending : List PendingCall
  result : Option RunResult

/-- `runMethodInternal`, with `run` for the interpreter loop of the new frame. -/
def runMethodInternal (run : Session → Nat → List PendingCall → Out) (frame : Option Nat)
    (depth : Nat) (entry : Entry) (clock : Nat) (pending : List PendingCall) : RunOut :=
  if entry.exc then ⟨[], clock, pending, some { status := .error, exceptionPending := true }⟩
  else if depth ≥ kHardMaxDepth then ⟨[], clock, pending, some { status := .error }⟩
  else if entry.isNative || entry.isAbstract then
    ⟨[], clock, pending, some { status := .noCode }⟩
  else
    match entry.refusal with
    | some refusal => ⟨[], clock, pending, some { status := refusal.status }⟩
    | none =>
      let o := run (makeSession frame depth) clock pending
      match o.exit with
      | none => ⟨o.events, o.clock, o.pending, none⟩
      | some e =>
        ⟨o.events ++ [.finished frame e.aborted pending o.pending], o.clock, o.pending,
          some ⟨if e.aborted then .aborted else .ok, e.exc, e.handoff⟩⟩

/-- The return codes 0, 1 and 2 of `stepIn`. -/
inductive StepRet where
  | handled | declined | handoff
  deriving DecidableEq

structure StepOut where
  events : List Event
  clock : Nat
  pending : List PendingCall
  ret : Option StepRet

def RunResult.toStepRet (r : RunResult) : StepRet :=
  if r.status = .aborted ∧ r.handoff = true then .handoff
  else if r.status ≠ .ok ∨ r.exceptionPending = true then .declined
  else .handled

def trStepIn (cfg : Config) (run : Session → Nat → List PendingCall → Out) (s : Session)
    (f : Facts) (call : Nat) (pending : List PendingCall) : StepOut :=
  let decline : StepOut := ⟨[], call + 1, pending, some .declined⟩
  if !f.ref.isValid then decline
  else
    match f.stepArt with
    | none => decline
    | some am =>
      if am.isAbstract then decline
      else if (s.depth : Int) ≥ cfg.opts.maxDepth then decline
      else if am.isNative then
        if !cfg.opts.enableNativeStepIn then decline
        else
          match f.native with
          | .notRun => decline
          | .failed => ⟨[.begun call .native], call + 1, f.reenter pending, some .declined⟩
          | .done => ⟨[.begun call .native], call + 1, f.reenter pending, some .handled⟩
      else
        let r := runMethodInternal run (some call) (s.depth + 1)
          ⟨f.excAtCall, am.isNative, am.isAbstract, f.refusal⟩ (call + 1) pending
        ⟨r.events, r.clock, r.pending, r.result.map RunResult.toStepRet⟩

/-- How `TRACED_INVOKE` goes on: to its post hook, to `bail`, or not at all yet. -/
inductive CallEnd where
  | done | bail | running

structure CallOut where
  events : List Event
  clock : Nat
  pending : List PendingCall
  cont : CallEnd

/-- `TRACED_INVOKE` up to the post hook. -/
def tracedCall (cfg : Config) (run : Session → Nat → List PendingCall → Out) (s : Session)
    (f : Facts) (call : Nat) (pending : List PendingCall) : CallOut :=
  let pre := trOnInvokePre cfg s f call pending
  match pre.policy with
  | .mock => ⟨pre.events ++ [.mocked call], call + 1, pre.pending, .done⟩
  | .jni => ⟨pre.events ++ [.begun call .jni], call + 1, f.reenter pre.pending, .done⟩
  | .stepIn =>
    let r := trStepIn cfg run s f call pre.pending
    match r.ret with
    | none => ⟨pre.events ++ r.events, r.clock, r.pending, .running⟩
    | some .handled => ⟨pre.events ++ r.events, r.clock, r.pending, .done⟩
    | some .handoff => ⟨pre.events ++ r.events, r.clock, r.pending, .bail⟩
    | some .declined =>
      ⟨pre.events ++ r.events ++ [.begun call .jni], r.clock, f.reenter r.pending, .done⟩

/-- The first instruction of a stepped-in frame is where the callee begins. -/
def Session.begins (s : Session) : List Event :=
  match s.frame with
  | none => []
  | some call => if s.started then [] else [.begun call .interp]

def Session.exit (s : Session) (exc : Bool) : Exit := ⟨s.aborted, s.handoffHit, exc⟩

/-- One instruction, and then the rest of the frame by `run`. -/
def dispatchInsn (cfg : Config) (env : Nat → Facts)
    (run : Session → Nat → List PendingCall → Out) (s : Session) (clock : Nat)
    (pending : List PendingCall) : Out :=
  let f := env clock
  let hook := trOnInsn cfg s f
  let before := .dispatch s pending clock :: hook.called
  if hook.stop then
    ⟨before, clock + 1, pending, some (hook.session.exit f.excPending)⟩
  else
    let s' := { hook.session with started := true }
    let before := before ++ (s.begins ++ [.insn s.frame clock])
    let after (events : List Event) (clock' : Nat) (pending' : List PendingCall) : Out :=
      match f.leaves with
      | some exc => ⟨events, clock', pending', some (s'.exit exc)⟩
      | none =>
        let o := run s' clock' pending'
        { o with events := events ++ o.events }
    if f.traced then
      let c := tracedCall cfg run s' f clock pending
      match c.cont with
      | .running => ⟨before ++ c.events, c.clock, c.pending, none⟩
      | .bail =>
        ⟨before ++ c.events, c.clock, c.pending,
          some ({ s' with handoffHit := true, aborted := true }.exit f.excAfter)⟩
      | .done =>
        let (posted, pending') := trOnInvokePost cfg s' clock c.pending
        after (before ++ (c.events ++ (posted ++ [.invoked clock, .insnEnd s.frame clock])))
          c.clock pending'
    else after (before ++ [.insnEnd s.frame clock]) (clock + 1) pending

/-- The interpreter loop of a frame, for at most `fuel` nested or successive instructions. -/
def runFrame (cfg : Config) (env : Nat → Facts) : Nat → Session → Nat → List PendingCall → Out
  | 0, _, clock, pending => ⟨[], clock, pending, none⟩
  | fuel + 1, s, clock, pending => dispatchInsn cfg env (runFrame cfg env fuel) s clock pending

/-- `hasActiveCallbacks` -/
def Callbacks.active (cbs : Callbacks) : Bool :=
  cbs.onInsn || cbs.onInvoke || cbs.onInvokePost || cbs.onException

/-- A session: the run of a method at depth 0. Without a callback there is no tracer, and nothing is reported. -/
def session (cfg : Config) (env : Nat → Facts) (fuel : Nat) (entry : Entry)
    (pending : List PendingCall) : RunOut :=
  if cfg.cbs.active then runMethodInternal (runFrame cfg env fuel) none 0 entry 0 pending
  else ⟨[], 0, pending, none⟩

end ArtPi.Interp
