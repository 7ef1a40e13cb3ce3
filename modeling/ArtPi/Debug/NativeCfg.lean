import ArtPi.Lib.StackSearch
import ArtPi.Net.Send
import Mathlib.Data.List.Infix
import Mathlib.Data.List.Nodup
import Mathlib.Logic.Relation

set_option autoImplicit false

/-! # Basic blocks of native code (`src/native/pi_native.cpp`)

`dumpNative` explores the code of a function from its entry: a worklist of starts of blocks, each scanned word by word
up to an instruction that ends the block or to code that is known. -/

namespace ArtPi.Debug.NativeCfg

open Net (ascii)

/-! ## Instructions -/

inductive InsnId where
  | b
  | bc
  | cbz
  | cbnz
  | tbz
  | tbnz
  | bl
  | br
  | braa
  | braaz
  | brab
  | brabz
  | ret
  | retaa
  | retab
  | brk
  | udf
  | hlt
  | other
  deriving DecidableEq

inductive Cc where
  | invalid
  | al
  | other
  deriving DecidableEq

inductive Operand where
  | imm (value : UInt64)
  | other

/-- `insn->detail->arm64` -/
structure Detail where
  cc : Cc
  operands : List Operand

/-- `cs_insn`; without details for one that has none. -/
structure Insn where
  id : InsnId
  detail : Option Detail

/-- What `xdl_addr` finds: the start of the symbol (0 where there is none) and its name. -/
structure Symbol where
  saddr : UInt64
  sname : Option (List UInt8)

/-- The words that can be read, the disassembler, and the symbols. -/
structure Process where
  memory : UInt64 → Option UInt32
  disasm : UInt32 → UInt64 → Option Insn
  xdlAddr : UInt64 → Option Symbol

/-- The entry, and the size of the symbol (0 where it is not known). -/
structure Function where
  funcStart : UInt64
  knownSize : UInt64

namespace Process

variable (p : Process)

/-- `ReadWord` -/
def readWord (pc : UInt64) : Option UInt32 := if pc &&& 3 ≠ 0 then none else p.memory pc

def noreturnNames : List (List UInt8) :=
  [ascii "abort", ascii "exit", ascii "_exit", ascii "_Exit", ascii "__stack_chk_fail", ascii "__assert2",
    ascii "__assert", ascii "__cxa_throw", ascii "panic"]

def isNoreturnTarget (target : UInt64) : Bool :=
  if target < 0x1000 then false
  else
    match (p.xdlAddr target).bind Symbol.sname with
    | none => false
    | some name => name ∈ noreturnNames || decide (ascii "art_quick_throw_" <:+: name)

/-- A symbol starts at the address. -/
def startsSymbol (pc : UInt64) : Bool := (p.xdlAddr pc).any (fun s => s.saddr ≠ 0 && s.saddr = pc)

/-- `paciasp`, or `stp x29, x30, [sp, -imm]!`. -/
def isFunctionPrologue (w : UInt32) : Bool :=
  w = 0xd503233f ||
    (w &&& 0xffc00000 = 0xa9800000 && w >>> 5 &&& 0x1f = 31 && w &&& 0x1f = 29 && w >>> 10 &&& 0x1f = 30)

def isTailCallTarget (fstart target : UInt64) : Bool :=
  target < fstart || fstart + 0x40000 ≤ target ||
    (p.startsSymbol target && target ≠ fstart) ||
    (target ≠ fstart && target &&& 3 = 0 && (p.memory target).any isFunctionPrologue)

end Process

/-- The flags that `dumpNative` sets from an instruction. -/
structure Flags where
  isCondBranch : Bool := false
  isUncondBranch : Bool := false
  isRet : Bool := false
  isTailCall : Bool := false
  isCall : Bool := false
  isNoreturn : Bool := false
  target : UInt64 := 0

/-- The immediate at a place of the operands. -/
def immAt (d : Detail) (i : Nat) : Option UInt64 :=
  match d.operands[i]? with
  | some (.imm v) => some v
  | _ => none

def Insn.flags (p : Process) (insn : Insn) : Flags :=
  let isRet := insn.id = .ret || insn.id = .retaa || insn.id = .retab
  match insn.detail with
  | none => { isRet := isRet }
  | some d =>
    match insn.id with
    | .b =>
      match immAt d 0 with
      | none => { isRet := isRet }
      | some target =>
        let cond := d.cc ≠ .al && d.cc ≠ .invalid
        { isRet := isRet, isCondBranch := cond, isUncondBranch := !cond, target := target }
    | .tbz | .tbnz => { isRet := isRet, isCondBranch := true, target := (immAt d 2).getD 0 }
    | .cbz | .cbnz => { isRet := isRet, isCondBranch := true, target := (immAt d 1).getD 0 }
    | .bc => { isRet := isRet, isCondBranch := true, target := (immAt d 0).getD 0 }
    | .bl =>
      match immAt d 0 with
      | none => { isRet := isRet, isCall := true }
      | some target => { isRet := isRet, isCall := true, target := target, isNoreturn := p.isNoreturnTarget target }
    | .br | .braa | .braaz | .brab | .brabz => { isRet := isRet, isTailCall := true }
    | .brk | .udf | .hlt => { isRet := isRet, isCall := true, isNoreturn := true }
    | _ => { isRet := isRet }

/-! ## What follows an instruction -/

/-- Where the function goes on behind an address. -/
inductive Flow where
  /-- nothing can be read or disassembled -/
  | absent
  /-- nowhere -/
  | ends (ret tailCall : Bool)
  /-- to the target of a branch -/
  | jump (target : UInt64)
  /-- to the next address, and to the target if it is within reach -/
  | branch (target : Option UInt64)
  /-- to the next address, unless a symbol starts there -/
  | runs (symbolNext : Bool)
  deriving DecidableEq

/-- The tests of the scan, in the order in which they are made. -/
def flow (p : Process) (f : Function) (pc : UInt64) : Flow :=
  match (p.readWord pc).bind (fun w => p.disasm w pc) with
  | none => .absent
  | some insn =>
    let flags := insn.flags p
    if flags.isRet then .ends true false
    else if flags.isTailCall then .ends false true
    else if flags.isUncondBranch then
      if p.isTailCallTarget f.funcStart flags.target then .ends false true else .jump flags.target
    else if flags.isCondBranch then
      if f.funcStart ≤ flags.target && flags.target < f.funcStart + 0x40000 then .branch (some flags.target)
      else .branch none
    else if flags.isCall && flags.isNoreturn then .ends false false
    else if 0 < f.knownSize && f.knownSize ≤ pc + 4 - f.funcStart then .ends false false
    else .runs (pc + 4 ≠ f.funcStart && p.startsSymbol (pc + 4))

/-- The targets of the branches that stay in the function. -/
def Flow.targets : Flow → List UInt64
  | .jump t => [t]
  | .branch t => t.toList
  | _ => []

/-- Where an instruction goes on, in the order in which the addresses are noted. -/
def Flow.nexts (pc : UInt64) : Flow → List UInt64
  | .jump t => [t]
  | .branch t => t.toList ++ [pc + 4]
  | .runs false => [pc + 4]
  | _ => []

/-! ## The exploration -/

/-- `CFGBlock` -/
structure Block where
  startPc : UInt64
  endPc : UInt64
  succs : List UInt64
  endsWithRet : Bool
  endsWithTailCall : Bool
  deriving DecidableEq

/-- The worklist with its last entry first, `block_start` and `cur_pc` of the block that is scanned, and the sets and
    the blocks of `CFGResult`. `reachablePcs` has an entry for each instruction that is counted. -/
structure Explore where
  worklist : List UInt64
  current : Option (UInt64 × UInt64)
  visitedBlocks : List UInt64
  branchTargets : List UInt64
  reachablePcs : List UInt64
  blocks : List Block

namespace Explore

/-- `if (visited_blocks.insert(pc).second) worklist.push_back(pc)` -/
def push (s : Explore) (pc : UInt64) : Explore :=
  if pc ∈ s.visitedBlocks then s
  else { s with visitedBlocks := pc :: s.visitedBlocks, worklist := pc :: s.worklist }

/-- The next block is taken from the worklist. -/
def pop (s : Explore) : Explore :=
  match s.worklist with
  | [] => { s with current := none }
  | pc :: rest => { s with worklist := rest, current := some (pc, pc) }

/-- A block is done: its targets and successors are noted. -/
def finish (s : Explore) (targets : List UInt64) (b : Block) : Explore :=
  let noted := b.succs.foldl push s
  { noted with branchTargets := targets ++ noted.branchTargets, blocks := noted.blocks ++ [b] }.pop

/-- The check before the next instruction: a block that comes to known code is left. -/
def goOn (s : Explore) (start pc : UInt64) : Explore :=
  if pc ∈ s.reachablePcs ∧ pc ≠ start then s.pop else { s with current := some (start, pc) }

/-- One instruction is scanned. -/
def scan (p : Process) (f : Function) (s : Explore) (start cur : UInt64) : Explore :=
  let s := { s with reachablePcs := cur :: s.reachablePcs }
  match flow p f cur with
  | .absent => s.pop
  | .ends ret tailCall => s.finish [] ⟨start, cur, [], ret, tailCall⟩
  | .jump t => s.finish [t] ⟨start, cur, [t], false, false⟩
  | .branch t => s.finish t.toList ⟨start, cur, t.toList ++ [cur + 4], false, false⟩
  | .runs symbolNext =>
    if cur + 4 ∈ s.branchTargets then s.finish [] ⟨start, cur, [cur + 4], false, false⟩
    else if symbolNext then s.finish [] ⟨start, cur, [], false, false⟩
    else s.goOn start (cur + 4)

end Explore

def kMaxInsnsExplored : Nat := 4096

/-- As many instructions as the first argument says, or all. -/
def explore (p : Process) (f : Function) : Nat → Explore → Explore
  | 0, s => s
  | n + 1, s =>
    match s.current with
    | none => s
    | some (start, cur) => explore p f n (s.scan p f start cur)

def init (f : Function) : Explore where
  worklist := []
  current := some (f.funcStart, f.funcStart)
  visitedBlocks := [f.funcStart]
  branchTargets := []
  reachablePcs := []
  blocks := []

/-- The exploration of `dumpNative`. -/
def dumpCfg (p : Process) (f : Function) : Explore := explore p f kMaxInsnsExplored (init f)

/-! ## Partitions -/

/-- The addresses of so many instructions. -/
def pcsFrom (start : UInt64) (n : Nat) : List UInt64 := (List.range n).map (fun i => start + 4 * UInt64.ofNat i)

/-- The addresses of a block. -/
def Block.pcs (b : Block) : List UInt64 := pcsFrom b.startPc ((b.endPc - b.startPc).toNat / 4 + 1)

/-- The address can be reached from the entry. -/
def Reachable (p : Process) (f : Function) (pc : UInt64) : Prop :=
  Relation.ReflTransGen (fun a b => b ∈ (flow p f a).nexts a) f.funcStart pc

/-- A branch of the function goes to the address. -/
def IsTarget (p : Process) (f : Function) (t : UInt64) : Prop := ∃ pc, Reachable p f pc ∧ t ∈ (flow p f pc).targets

/-- The blocks partition the code of the function. -/
structure Partitions (p : Process) (f : Function) (blocks : List Block) : Prop where
  covered : ∀ pc, Reachable p f pc → flow p f pc ≠ .absent → blocks.countP (fun b => pc ∈ b.pcs) = 1
  uncut : ∀ b ∈ blocks, ∀ t, IsTarget p f t → t ∈ b.pcs → t = b.startPc
  succs : ∀ b ∈ blocks, ∀ t ∈ b.succs, ∃ next ∈ blocks, next.startPc = t

/-- The order in which a search visits the code: along the next addresses first, and along branches from the last. -/
def visitOrder (p : Process) (f : Function) : List UInt64 :=
  Lib.StackSearch.order (fun pc => (flow p f pc).nexts pc) kMaxInsnsExplored ⟨[f.funcStart], [f.funcStart]⟩

/-- Where the code runs on to the target of a branch, a branch to it comes before in the order. -/
def TargetsKnown (p : Process) (f : Function) : Prop :=
  ∀ t, t = f.funcStart ∨ IsTarget p f t → flow p f (t - 4) = .runs false →
    ∀ before after, visitOrder p f = before ++ (t - 4) :: after → ∃ pc ∈ before, t ∈ (flow p f pc).targets

/-- There is no code, or all that is reached is code and its targets are known in time. -/
def IsCuttable (p : Process) (f : Function) : Prop :=
  flow p f f.funcStart = .absent ∨ (∀ pc, Reachable p f pc → flow p f pc ≠ .absent) ∧ TargetsKnown p f

/-! ## A fixed input -/

/-- A loop that is entered by running into it: its end branches back to its second instruction. -/
def loopProcess : Process where
  memory := fun pc => if 0x1000 ≤ pc ∧ pc < 0x1010 then some (UInt32.ofNat ((pc - 0x1000) / 4).toNat) else none
  disasm := fun w _ =>
    if w = 2 then some ⟨.cbnz, some ⟨.invalid, [.other, .imm 0x1004]⟩⟩
    else if w = 3 then some ⟨.ret, some ⟨.invalid, []⟩⟩
    else some ⟨.other, some ⟨.invalid, []⟩⟩
  xdlAddr := fun _ => none

def loopFunction : Function := ⟨0x1000, 0⟩

end ArtPi.Debug.NativeCfg
