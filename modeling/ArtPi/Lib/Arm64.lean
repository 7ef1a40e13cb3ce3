import Mathlib.Algebra.GroupWithZero.Nat
import Mathlib.Data.List.Basic

set_option autoImplicit false

/-! # A piece of AArch64

Straight code with calls, on the general registers, the `d` registers and the stack. The stack is the
list of its words from `sp` upwards, so `sub sp, sp, #n` puts words in front of it whose contents are
whatever lay below `sp`. Functions that are called are state transformers; `Follows` is the part of
the procedure call standard that a caller may rely on. -/

namespace ArtPi.Lib.Arm64

-- registers are written as literals
instance neZero_x : NeZero 31 := ⟨by decide⟩

instance neZero_d : NeZero 32 := ⟨by decide⟩

structure Cpu where
  x : Fin 31 → UInt64
  d : Fin 32 → UInt64
  stack : List UInt64

namespace Cpu

def setX (m : Cpu) (r : Fin 31) (v : UInt64) : Cpu :=
  { m with x := fun s => if s = r then v else m.x s }

def setD (m : Cpu) (r : Fin 32) (v : UInt64) : Cpu :=
  { m with d := fun s => if s = r then v else m.d s }

/-- The word at `[sp, #off]`. -/
def load (m : Cpu) (off : Nat) : UInt64 := m.stack.getD (off / 8) 0

def store (m : Cpu) (off : Nat) (v : UInt64) : Cpu := { m with stack := m.stack.set (off / 8) v }

@[simp] theorem setX_x (m : Cpu) (r s : Fin 31) (v : UInt64) :
    (m.setX r v).x s = if s = r then v else m.x s := rfl

@[simp] theorem setX_d (m : Cpu) (r : Fin 31) (v : UInt64) : (m.setX r v).d = m.d := rfl

@[simp] theorem setX_stack (m : Cpu) (r : Fin 31) (v : UInt64) : (m.setX r v).stack = m.stack := rfl

@[simp] theorem setD_x (m : Cpu) (r : Fin 32) (v : UInt64) : (m.setD r v).x = m.x := rfl

@[simp] theorem setD_d (m : Cpu) (r s : Fin 32) (v : UInt64) :
    (m.setD r v).d s = if s = r then v else m.d s := rfl

@[simp] theorem setD_stack (m : Cpu) (r : Fin 32) (v : UInt64) : (m.setD r v).stack = m.stack := rfl

@[simp] theorem setX_load (m : Cpu) (r : Fin 31) (v : UInt64) (off : Nat) :
    (m.setX r v).load off = m.load off := rfl

@[simp] theorem setD_load (m : Cpu) (r : Fin 32) (v : UInt64) (off : Nat) :
    (m.setD r v).load off = m.load off := rfl

@[simp] theorem store_x (m : Cpu) (off : Nat) (v : UInt64) : (m.store off v).x = m.x := rfl

@[simp] theorem store_d (m : Cpu) (off : Nat) (v : UInt64) : (m.store off v).d = m.d := rfl

@[simp] theorem store_stack (m : Cpu) (off : Nat) (v : UInt64) :
    (m.store off v).stack = m.stack.set (off / 8) v := rfl

end Cpu

/-- `mov` and `ldr` on a `w` register clear the upper half. -/
def low32 (v : UInt64) : UInt64 := v.toUInt32.toUInt64

/-- The instructions; `ε` names the functions that are called directly. -/
inductive Instr (ε : Type) where
  | subSp (imm : Nat)
  | addSp (imm : Nat)
  | movSp (rd : Fin 31)
  | addSpTo (rd : Fin 31) (imm : Nat)
  | mov (rd rm : Fin 31)
  | movW (rd rm : Fin 31)
  | stp (rt rt2 : Fin 31) (off : Nat)
  | ldp (rt rt2 : Fin 31) (off : Nat)
  | str (rt : Fin 31) (off : Nat)
  | ldr (rt : Fin 31) (off : Nat)
  | ldrW (rt : Fin 31) (off : Nat)
  | stpD (rt rt2 : Fin 32) (off : Nat)
  | ldpD (rt rt2 : Fin 32) (off : Nat)
  | strD (rt : Fin 32) (off : Nat)
  | ldrD (rt : Fin 32) (off : Nat)
  | bl (f : ε)
  | blr (rn : Fin 31)
  | cbz (rt : Fin 31) (skip : Nat)
  | ret

/-- What surrounds the code: where the stack ends, what lies below `sp`, the return address of the
    call at each place, and the functions, by name and by address. -/
structure Machine (ε : Type) where
  stackBase : UInt64
  below : Nat → UInt64
  link : Nat → UInt64
  func : ε → Cpu → Cpu
  code : UInt64 → Cpu → Cpu

variable {ε : Type}

/-- `sp` as a number. -/
def Machine.sp (M : Machine ε) (m : Cpu) : UInt64 := M.stackBase - 8 * UInt64.ofNat m.stack.length

/-- An instruction that is no call and no jump. -/
def Machine.exec (M : Machine ε) (m : Cpu) : Instr ε → Cpu
  | .subSp imm => { m with stack := (List.range (imm / 8)).map M.below ++ m.stack }
  | .addSp imm => { m with stack := m.stack.drop (imm / 8) }
  | .movSp rd => m.setX rd (M.sp m)
  | .addSpTo rd imm => m.setX rd (M.sp m + UInt64.ofNat imm)
  | .mov rd rm => m.setX rd (m.x rm)
  | .movW rd rm => m.setX rd (low32 (m.x rm))
  | .stp rt rt2 off => (m.store off (m.x rt)).store (off + 8) (m.x rt2)
  | .ldp rt rt2 off => (m.setX rt (m.load off)).setX rt2 (m.load (off + 8))
  | .str rt off => m.store off (m.x rt)
  | .ldr rt off => m.setX rt (m.load off)
  | .ldrW rt off => m.setX rt (low32 (m.load off))
  | .stpD rt rt2 off => (m.store off (m.d rt)).store (off + 8) (m.d rt2)
  | .ldpD rt rt2 off => (m.setD rt (m.load off)).setD rt2 (m.load (off + 8))
  | .strD rt off => m.store off (m.d rt)
  | .ldrD rt off => m.setD rt (m.load off)
  | .bl _ | .blr _ | .cbz _ _ | .ret => m

/-- The code from place `pc` on, `skip` instructions of it jumped over. Besides the state in which it
    returns, it gives the states in which functions are entered through a register. -/
def Machine.run (M : Machine ε) : Nat → Nat → List (Instr ε) → Cpu → Cpu × List Cpu
  | _, _, [], m => (m, [])
  | pc, skip + 1, _ :: is, m => M.run (pc + 1) skip is m
  | pc, 0, i :: is, m =>
    match i with
    | .bl f => M.run (pc + 1) 0 is (M.func f (m.setX 30 (M.link pc)))
    | .blr rn =>
      let entered := m.setX 30 (M.link pc)
      let out := M.run (pc + 1) 0 is (M.code (m.x rn) entered)
      (out.1, entered :: out.2)
    | .cbz rt skip => M.run (pc + 1) (if m.x rt = 0 then skip else 0) is m
    | .ret => (m, [])
    | i => M.run (pc + 1) 0 is (M.exec m i)

/-- Neither a call nor a jump. -/
def Instr.isPlain : Instr ε → Bool
  | .bl _ | .blr _ | .cbz _ _ | .ret => false
  | _ => true

theorem Machine.run_append (M : Machine ε) {block : List (Instr ε)}
    (hplain : ∀ i ∈ block, i.isPlain = true) (pc : Nat) (is : List (Instr ε)) (m : Cpu) :
    M.run pc 0 (block ++ is) m = M.run (pc + block.length) 0 is (block.foldl M.exec m) := by
  induction block generalizing pc m with
  | nil => rfl
  | cons i block ih =>
    obtain ⟨hi, hblock⟩ := List.forall_mem_cons.1 hplain
    have hstep : M.run pc 0 (i :: (block ++ is)) m
        = M.run (pc + 1) 0 (block ++ is) (M.exec m i) := by
      cases i with
      | bl | blr | cbz | ret => exact absurd hi Bool.false_ne_true
      | _ => rfl
    rw [List.cons_append, hstep, ih hblock, List.foldl_cons, List.length_cons, Nat.add_assoc,
      Nat.add_comm 1]

/-- The registers that a plain instruction writes. -/
def Instr.writes : Instr ε → List (Fin 31)
  | .movSp rd | .addSpTo rd _ | .mov rd _ | .movW rd _ => [rd]
  | .ldp rt rt2 _ => [rt, rt2]
  | .ldr rt _ | .ldrW rt _ => [rt]
  | _ => []

def Instr.writesD : Instr ε → List (Fin 32)
  | .ldpD rt rt2 _ => [rt, rt2]
  | .ldrD rt _ => [rt]
  | _ => []

theorem Machine.exec_x (M : Machine ε) (m : Cpu) {i : Instr ε} {r : Fin 31} (h : r ∉ i.writes) :
    (M.exec m i).x r = m.x r := by
  cases i with
  | movSp | addSpTo | mov | movW | ldr | ldrW =>
    exact if_neg (fun hr => h (List.mem_singleton.2 hr))
  | ldp rt rt2 off =>
    obtain ⟨h1, h2⟩ := not_or.1 (fun hr => h (List.mem_pair.2 hr))
    simp only [exec, Cpu.setX_x, if_neg h2, if_neg h1]
  | _ => rfl

theorem Machine.exec_d (M : Machine ε) (m : Cpu) {i : Instr ε} {r : Fin 32} (h : r ∉ i.writesD) :
    (M.exec m i).d r = m.d r := by
  cases i with
  | ldrD => exact if_neg (fun hr => h (List.mem_singleton.2 hr))
  | ldpD rt rt2 off =>
    obtain ⟨h1, h2⟩ := not_or.1 (fun hr => h (List.mem_pair.2 hr))
    simp only [exec, Cpu.setD_d, if_neg h2, if_neg h1]
  | _ => rfl

theorem Machine.foldl_exec_x (M : Machine ε) {block : List (Instr ε)} {r : Fin 31}
    (h : ∀ i ∈ block, r ∉ i.writes) (m : Cpu) : (block.foldl M.exec m).x r = m.x r := by
  induction block generalizing m with
  | nil => rfl
  | cons i block ih =>
    obtain ⟨hi, hblock⟩ := List.forall_mem_cons.1 h
    rw [List.foldl_cons, ih hblock, M.exec_x m hi]

theorem Machine.foldl_exec_d (M : Machine ε) {block : List (Instr ε)} {r : Fin 32}
    (h : ∀ i ∈ block, r ∉ i.writesD) (m : Cpu) : (block.foldl M.exec m).d r = m.d r := by
  induction block generalizing m with
  | nil => rfl
  | cons i block ih =>
    obtain ⟨hi, hblock⟩ := List.forall_mem_cons.1 h
    rw [List.foldl_cons, ih hblock, M.exec_d m hi]

/-! ## The calling convention -/

/-- A function with `n` words of arguments on the stack returns to `x30` with `sp`, `x19` to `x29` and
    `d8` to `d15` as they were, and with the stack of its caller as it was. The words of its arguments
    are its own. -/
structure Follows (n : Nat) (f : Cpu → Cpu) : Prop where
  length_stack : ∀ m, (f m).stack.length = m.stack.length
  drop_stack : ∀ m, (f m).stack.drop n = m.stack.drop n
  saved : ∀ m, ∀ r : Fin 31, 19 ≤ r.val → (f m).x r = m.x r
  savedD : ∀ m, ∀ r : Fin 32, 8 ≤ r.val → r.val ≤ 15 → (f m).d r = m.d r

theorem Follows.stack_eq {f : Cpu → Cpu} (h : Follows 0 f) (m : Cpu) : (f m).stack = m.stack :=
  h.drop_stack m

/-- The registers that belong to the caller, `x29` and `x30` apart, are as before. -/
structure Saved (m m' : Cpu) : Prop where
  x : ∀ r : Fin 31, 19 ≤ r.val → r.val < 29 → m'.x r = m.x r
  d : ∀ r : Fin 32, 8 ≤ r.val → r.val ≤ 15 → m'.d r = m.d r

theorem Saved.trans {m m' m'' : Cpu} (h : Saved m m') (h' : Saved m' m'') : Saved m m'' :=
  ⟨fun r h19 h29 => (h'.x r h19 h29).trans (h.x r h19 h29),
    fun r h8 h15 => (h'.d r h8 h15).trans (h.d r h8 h15)⟩

theorem Follows.saved_apply {n : Nat} {f : Cpu → Cpu} (h : Follows n f) (m : Cpu) :
    Saved m (f m) :=
  ⟨fun r h19 _ => h.saved m r h19, h.savedD m⟩

theorem saved_link (m : Cpu) (v : UInt64) : Saved m (m.setX 30 v) := by
  constructor
  · intro r _ h29
    exact if_neg (fun h => absurd h29 (by rw [h]; decide))
  · exact fun r _ _ => rfl

/-- A plain instruction that does not write to registers of the caller. -/
def Instr.isScratch (i : Instr ε) : Bool :=
  i.writes.all (fun r => r.val < 19 || r.val = 29) && i.writesD.all (fun r => r.val < 8)

theorem Machine.saved_foldl (M : Machine ε) {block : List (Instr ε)}
    (h : block.all Instr.isScratch = true) (m : Cpu) : Saved m (block.foldl M.exec m) := by
  have hwrites : ∀ i ∈ block, (∀ r ∈ i.writes, r.val < 19 ∨ r.val = 29) ∧
      ∀ r ∈ i.writesD, r.val < 8 := by
    intro i hi
    simpa [Instr.isScratch] using List.all_eq_true.1 h i hi
  constructor
  · intro r h19 h29
    refine M.foldl_exec_x (fun i hi hr => ?_) m
    rcases (hwrites i hi).1 r hr with hlt | heq <;> omega
  · intro r h8 _
    refine M.foldl_exec_d (fun i hi hr => ?_) m
    have hlt := (hwrites i hi).2 r hr
    omega

/-- The same arguments: `x0` to `x7`, `d0` to `d7` and `n` words of the stack. -/
structure SameArgs (n : Nat) (m m' : Cpu) : Prop where
  x : ∀ r : Fin 31, r.val < 8 → m'.x r = m.x r
  d : ∀ r : Fin 32, r.val < 8 → m'.d r = m.d r
  stack : m'.stack.take n = m.stack.take n

/-- What the function returns is decided by its arguments. -/
def Decided (n : Nat) (f : Cpu → Cpu) : Prop :=
  ∀ m m', SameArgs n m m' → (f m').x 0 = (f m).x 0 ∧ (f m').d 0 = (f m).d 0

end ArtPi.Lib.Arm64
