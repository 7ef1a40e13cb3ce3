import ArtPi.Lib.Arm64

set_option autoImplicit false

/-! # The trampoline of traced JNI calls (`src/agent/jni_trampoline_arm64.S`)

Every slot of the hijacked JNI table leads to `artpi_jni_common_entry` with the slot in `x16`. It saves
the argument registers in a frame of its own, calls the hooks around the real function, and restores
the registers in front of the call. The real function is called from below that frame. -/

namespace ArtPi.Jni

open Lib.Arm64

def kNumJniSlots : Nat := 233

/-- `g_real_jni_table`. The first four slots are reserved and not hooked; the others are set. -/
structure JniTable where
  entry : Nat → UInt64
  nonnull : ∀ slot, 4 ≤ slot → slot < kNumJniSlots → entry slot ≠ 0

/-- `ArtpiJniGetRealFunc`. -/
def artpiJniGetRealFunc (table : JniTable) (slot_id : Int32) : UInt64 :=
  if 0 ≤ slot_id ∧ slot_id.toInt < kNumJniSlots then table.entry slot_id.toInt.toNat else 0

/-- The functions that the trampoline calls by name. -/
inductive Hook where
  | artpiJniOnEnter
  | artpiJniGetRealFunc
  | artpiJniOnLeave

/-- From `sub sp` to `stp x19, x20`. -/
def saveAll : List (Instr Hook) :=
  [.subSp 192,
   .stp 29 30 0,
   .movSp 29,
   .stp 0 1 16, .stp 2 3 32, .stp 4 5 48, .stp 6 7 64,
   .str 16 80,
   .str 30 88,
   .stpD 0 1 96, .stpD 2 3 112, .stpD 4 5 128, .stpD 6 7 144,
   .stp 19 20 176]

/-- 1. The arguments of `ArtpiJniOnEnter`. -/
def preArgs : List (Instr Hook) := [.movW 0 16, .ldr 1 16, .addSpTo 2 16, .ldr 3 88]

/-- 3. All original arguments. -/
def restoreArgs : List (Instr Hook) :=
  [.mov 16 0,
   .ldpD 0 1 96, .ldpD 2 3 112, .ldpD 4 5 128, .ldpD 6 7 144,
   .ldp 0 1 16, .ldp 2 3 32, .ldp 4 5 48, .ldp 6 7 64]

/-- 5. and 6. The return values, and the arguments of `ArtpiJniOnLeave`. -/
def postArgs : List (Instr Hook) :=
  [.str 0 160, .strD 0 168, .ldrW 0 80, .ldr 1 16, .ldr 2 160, .ldr 3 88]

/-- 7. to 9. -/
def restoreAll : List (Instr Hook) :=
  [.ldr 0 160, .ldrD 0 168, .ldp 19 20 176, .ldp 29 30 0, .addSp 192]

/-- `artpi_jni_common_entry`. -/
def artpi_jni_common_entry : List (Instr Hook) :=
  saveAll ++ (preArgs ++ (.bl .artpiJniOnEnter :: (.ldrW 0 80 :: .bl .artpiJniGetRealFunc ::
    (restoreArgs ++ (.cbz 16 1 :: .blr 16 ::
      (postArgs ++ (.bl .artpiJniOnLeave :: (restoreAll ++ [.ret]))))))))

/-- A process in which the calls are traced: the hooks follow the calling convention, and
    `ArtpiJniGetRealFunc` does what it does with the low half of `x0`. -/
structure Process where
  machine : Machine Hook
  table : JniTable
  follows : ∀ h, Follows 0 (machine.func h)
  real_func : ∀ m, (machine.func .artpiJniGetRealFunc m).x 0
    = artpiJniGetRealFunc table (m.x 0).toUInt32.toInt32

/-- The slots that the table is hooked in. -/
abbrev Slot := {slot : Nat // 4 ≤ slot ∧ slot < kNumJniSlots}

/-- The stub of a slot puts it in `x16`. -/
def stub (slot : Slot) (m : Cpu) : Cpu := m.setX 16 (UInt64.ofNat slot.val)

/-- The process with `real` as the function of a slot. -/
def Process.withReal (P : Process) (slot : Slot) (real : Cpu → Cpu) : Process :=
  { P with
    machine :=
      { P.machine with
        code := fun a => if a = P.table.entry slot.val then real else P.machine.code a } }

/-- What the trampoline does with a call of the slot. -/
def Process.trace (P : Process) (slot : Slot) (m : Cpu) : Cpu × List Cpu :=
  P.machine.run 0 0 artpi_jni_common_entry (stub slot m)

/-! ## The frame -/

/-- The words of the frame, with the two that hold the return values. -/
def frame (m : Cpu) (return_x0 return_d0 : UInt64) : List UInt64 :=
  [m.x 29, m.x 30, m.x 0, m.x 1, m.x 2, m.x 3, m.x 4, m.x 5, m.x 6, m.x 7, m.x 16, m.x 30,
   m.d 0, m.d 1, m.d 2, m.d 3, m.d 4, m.d 5, m.d 6, m.d 7, return_x0, return_d0, m.x 19, m.x 20]

theorem saveAll_stack (M : Machine Hook) (m : Cpu) :
    (saveAll.foldl M.exec m).stack = frame m (M.below 20) (M.below 21) ++ m.stack := by
  simp [saveAll, Machine.exec, frame, List.range_succ]

theorem preArgs_stack (M : Machine Hook) (m : Cpu) : (preArgs.foldl M.exec m).stack = m.stack := by
  simp [preArgs, Machine.exec]

/-- Where the stack begins with the frame, the argument registers are those that were saved. -/
theorem restoreArgs_spec (M : Machine Hook) {e m : Cpu} {a b : UInt64} {rest : List UInt64}
    (hstack : m.stack = frame e a b ++ rest) :
    (restoreArgs.foldl M.exec m).stack = m.stack ∧ (restoreArgs.foldl M.exec m).x 16 = m.x 0 ∧
      (∀ r : Fin 31, r.val < 8 → (restoreArgs.foldl M.exec m).x r = e.x r) ∧
      ∀ r : Fin 32, r.val < 8 → (restoreArgs.foldl M.exec m).d r = e.d r := by
  have hword : ∀ i, m.load (8 * i) = (frame e a b ++ rest).getD i 0 := by
    intro i
    rw [Cpu.load, hstack, Nat.mul_div_cancel_left i (by decide)]
  refine ⟨rfl, rfl, ?_, ?_⟩
  · intro r hr
    obtain rfl | rfl | rfl | rfl | rfl | rfl | rfl | rfl : r = 0 ∨ r = 1 ∨ r = 2 ∨ r = 3 ∨ r = 4 ∨
        r = 5 ∨ r = 6 ∨ r = 7 := by
      revert r
      decide
    exacts [hword 2, hword 3, hword 4, hword 5, hword 6, hword 7, hword 8, hword 9]
  · intro r hr
    obtain rfl | rfl | rfl | rfl | rfl | rfl | rfl | rfl : r = 0 ∨ r = 1 ∨ r = 2 ∨ r = 3 ∨ r = 4 ∨
        r = 5 ∨ r = 6 ∨ r = 7 := by
      revert r
      decide
    exacts [hword 12, hword 13, hword 14, hword 15, hword 16, hword 17, hword 18, hword 19]

/-- The state in which the real function is entered: the arguments in registers are those of the call,
    and the frame lies between `sp` and the stack of the caller. -/
structure Entered (e entered : Cpu) : Prop where
  stack : ∃ a b, entered.stack = frame e a b ++ e.stack
  args : ∀ r : Fin 31, r.val < 8 → entered.x r = e.x r
  argsD : ∀ r : Fin 32, r.val < 8 → entered.d r = e.d r
  saved : Saved e entered

/-- The state in which the trampoline returns, by the state `m` in which the real function does:
    what is restored comes from the words that the frame was in. -/
structure Left (m out : Cpu) : Prop where
  result : out.x 0 = m.x 0
  resultD : out.d 0 = m.d 0
  length_stack : out.stack.length = m.stack.length - 24
  x29 : out.x 29 = m.load 0
  x30 : out.x 30 = m.load 8
  x19 : out.x 19 = m.load 176
  x20 : out.x 20 = m.load 184
  saved : ∀ r : Fin 31, 21 ≤ r.val → r.val < 29 → out.x r = m.x r
  savedD : ∀ r : Fin 32, 8 ≤ r.val → r.val ≤ 15 → out.d r = m.d r

theorem left_of_run (P : Process) (m : Cpu) (hlen : 24 ≤ m.stack.length) (link : UInt64) :
    Left m (restoreAll.foldl P.machine.exec
      (P.machine.func .artpiJniOnLeave ((postArgs.foldl P.machine.exec m).setX 30 link))) := by
  have hfollows := P.follows .artpiJniOnLeave
  generalize hpost : (postArgs.foldl P.machine.exec m).setX 30 link = post
  have hpostStack : post.stack = (m.stack.set 20 (m.x 0)).set 21 (m.d 0) := by
    rw [← hpost]
    simp [postArgs, Machine.exec]
  have hpostSaved : Saved m post := by
    rw [← hpost]
    exact (P.machine.saved_foldl (by decide) m).trans (saved_link _ link)
  generalize hback : P.machine.func .artpiJniOnLeave post = back
  have hstack : back.stack = (m.stack.set 20 (m.x 0)).set 21 (m.d 0) := by
    rw [← hback, hfollows.stack_eq, hpostStack]
  have hsaved : Saved m back := by
    rw [← hback]
    exact hpostSaved.trans (hfollows.saved_apply post)
  -- two words of the frame hold the results, the others are as the real function left them
  have hload : ∀ off, back.load off
      = if off / 8 = 21 then m.d 0 else if off / 8 = 20 then m.x 0 else m.load off := by
    intro off
    unfold Cpu.load
    rw [hstack]
    simp only [List.getD_eq_getElem?_getD, List.getElem?_set, List.length_set]
    split_ifs <;> first | rfl | omega
  constructor
  · simp [restoreAll, Machine.exec, hload]
  · simp [restoreAll, Machine.exec, hload]
  · simp [restoreAll, Machine.exec, hstack]
  · simp [restoreAll, Machine.exec, hload]
  · simp [restoreAll, Machine.exec, hload]
  · simp [restoreAll, Machine.exec, hload]
  · simp [restoreAll, Machine.exec, hload]
  · intro r h21 h29
    rw [← hsaved.x r (by omega) h29]
    refine P.machine.foldl_exec_x ?_ back
    revert r
    decide
  · intro r h8 h15
    rw [← hsaved.d r h8 h15]
    refine P.machine.foldl_exec_d ?_ back
    revert r
    decide

set_option maxRecDepth 8192 in
theorem getRealFunc_slot (table : JniTable) (slot : Slot) :
    artpiJniGetRealFunc table (low32 (UInt64.ofNat slot.val)).toUInt32.toInt32
      = table.entry slot.val := by
  have hint : (low32 (UInt64.ofNat slot.val)).toUInt32.toInt32.toInt = slot.val := by
    have hall : ∀ n < kNumJniSlots, (low32 (UInt64.ofNat n)).toUInt32.toInt32.toInt = n := by
      decide
    exact hall slot.val slot.property.2
  unfold artpiJniGetRealFunc
  rw [hint, if_pos]
  · rfl
  · refine ⟨?_, Int.ofNat_lt.2 slot.property.2⟩
    rw [Int32.le_iff_toInt_le, hint]
    exact Int.natCast_nonneg _

theorem entered_of_run (P : Process) (slot : Slot) (m : Cpu) (link link' link'' : UInt64) :
    let onEnter := P.machine.func .artpiJniOnEnter
      (((saveAll ++ preArgs).foldl P.machine.exec (stub slot m)).setX 30 link)
    let getRealFunc := P.machine.func .artpiJniGetRealFunc
      ((P.machine.exec onEnter (.ldrW 0 80)).setX 30 link')
    let call := restoreArgs.foldl P.machine.exec getRealFunc
    call.x 16 = P.table.entry slot.val ∧ Entered (stub slot m) (call.setX 30 link'') := by
  intro onEnter getRealFunc call
  have hstack1 : onEnter.stack = frame (stub slot m) (P.machine.below 20) (P.machine.below 21)
      ++ (stub slot m).stack := by
    have h := (P.follows .artpiJniOnEnter).stack_eq
      (((saveAll ++ preArgs).foldl P.machine.exec (stub slot m)).setX 30 link)
    rw [Cpu.setX_stack, List.foldl_append, preArgs_stack, saveAll_stack] at h
    exact h
  have hsaved1 : Saved (stub slot m) onEnter :=
    ((P.machine.saved_foldl (by decide) (stub slot m)).trans (saved_link _ link)).trans
      ((P.follows .artpiJniOnEnter).saved_apply _)
  have hstack2 : getRealFunc.stack = onEnter.stack :=
    (P.follows .artpiJniGetRealFunc).stack_eq _
  have hslot : Saved onEnter ([Instr.ldrW 0 80].foldl P.machine.exec onEnter) :=
    P.machine.saved_foldl (by decide) onEnter
  have hsaved2 : Saved (stub slot m) getRealFunc :=
    ((hsaved1.trans hslot).trans (saved_link _ link')).trans
      ((P.follows .artpiJniGetRealFunc).saved_apply _)
  have hx0 : getRealFunc.x 0 = P.table.entry slot.val := by
    have hw0 : ((P.machine.exec onEnter (.ldrW 0 80)).setX 30 link').x 0
        = low32 (UInt64.ofNat slot.val) := by
      simp [Machine.exec, Cpu.load, hstack1, frame, stub]
    have h := P.real_func ((P.machine.exec onEnter (.ldrW 0 80)).setX 30 link')
    rw [hw0] at h
    exact h.trans (getRealFunc_slot P.table slot)
  obtain ⟨hstack3, hx16, hargs, hargsD⟩ := restoreArgs_spec P.machine (hstack2.trans hstack1)
  refine ⟨hx16.trans hx0, ⟨_, _, hstack3.trans (hstack2.trans hstack1)⟩, ?_, hargsD, ?_⟩
  · intro r hr
    have hne : r ≠ 30 := fun h => absurd hr (by rw [h]; decide)
    rw [Cpu.setX_x, if_neg hne]
    exact hargs r hr
  · exact (hsaved2.trans (P.machine.saved_foldl (by decide) getRealFunc)).trans
      (saved_link _ link'')

/-- A traced call enters the real function once, and what it returns is made from the state in which
    the real function does. -/
theorem trace_spec (P : Process) (slot : Slot) (m : Cpu)
    (hlen : ∀ m, (P.machine.code (P.table.entry slot.val) m).stack.length = m.stack.length) :
    ∃ entered, (P.trace slot m).2 = [entered] ∧ Entered (stub slot m) entered ∧
      Left (P.machine.code (P.table.entry slot.val) entered) (P.trace slot m).1 := by
  have hplain1 : ∀ i ∈ saveAll ++ preArgs, i.isPlain = true := by decide
  have hplain2 : ∀ i ∈ restoreArgs, i.isPlain = true := by decide
  have hplain3 : ∀ i ∈ postArgs, i.isPlain = true := by decide
  have hplain4 : ∀ i ∈ restoreAll, i.isPlain = true := by decide
  have hnonnull := P.table.nonnull slot.val slot.property.1 slot.property.2
  unfold Process.trace artpi_jni_common_entry
  rw [← List.append_assoc saveAll, P.machine.run_append hplain1]
  simp only [Machine.run]
  rw [P.machine.run_append hplain2]
  simp only [Machine.run]
  generalize hcall : restoreArgs.foldl P.machine.exec _ = call
  obtain ⟨hx16, hentered⟩ := entered_of_run P slot m _ _ (P.machine.link
    (0 + (saveAll ++ preArgs).length + 1 + 1 + 1 + restoreArgs.length + 1))
  rw [hcall] at hx16 hentered
  rw [hx16, if_neg hnonnull]
  simp only [Machine.run]
  rw [hx16, P.machine.run_append hplain3]
  simp only [Machine.run]
  rw [P.machine.run_append hplain4]
  simp only [Machine.run]
  refine ⟨_, rfl, hentered, left_of_run P _ ?_ _⟩
  obtain ⟨a, b, hstack⟩ := hentered.stack
  rw [hlen, hstack, List.length_append]
  exact Nat.le_add_right 24 _

/-! ## Transparency -/

/-- A function with `n` words of arguments on the stack, in the call at hand. -/
structure Callee (n : Nat) (real : Cpu → Cpu) : Prop where
  follows : Follows n real
  decided : Decided n real

/-- The real function of the slot, called directly. -/
def Process.direct (P : Process) (slot : Slot) (m : Cpu) : Cpu :=
  P.machine.code (P.table.entry slot.val) m

/-- The real function is entered with the arguments of the call, and the caller gets back what a direct
    call would leave. -/
structure Transparent (P : Process) (slot : Slot) (n : Nat) (m : Cpu) : Prop where
  entry : ∃ entered, (P.trace slot m).2 = [entered] ∧ SameArgs n m entered
  result : (P.trace slot m).1.x 0 = (P.direct slot m).x 0
  resultD : (P.trace slot m).1.d 0 = (P.direct slot m).d 0
  sp : P.machine.sp (P.trace slot m).1 = P.machine.sp (P.direct slot m)
  x29 : (P.trace slot m).1.x 29 = (P.direct slot m).x 29
  x30 : (P.trace slot m).1.x 30 = (P.direct slot m).x 30
  saved : Saved (P.direct slot m) (P.trace slot m).1

theorem direct_withReal (P : Process) (slot : Slot) (real : Cpu → Cpu) (m : Cpu) :
    (P.withReal slot real).direct slot m = real m :=
  congrFun (if_pos rfl) m

theorem stub_x (slot : Slot) (m : Cpu) {r : Fin 31} (h : r ≠ 16) : (stub slot m).x r = m.x r :=
  if_neg h

/-- Without arguments on the stack the frame is out of the way. -/
theorem transparent_of_register_args (P : Process) (slot : Slot) {real : Cpu → Cpu}
    (hreal : Callee 0 real) (m : Cpu) : Transparent (P.withReal slot real) slot 0 m := by
  have hdirect := direct_withReal P slot real
  obtain ⟨entered, htrace, hentered, hleft⟩ := trace_spec (P.withReal slot real) slot m (by
    intro m'
    exact (congrArg (fun c => c.stack.length) (hdirect m')).trans (hreal.follows.length_stack m'))
  rw [show (P.withReal slot real).machine.code ((P.withReal slot real).table.entry slot.val) entered
    = real entered from hdirect entered] at hleft
  obtain ⟨a, b, hstack⟩ := hentered.stack
  have hargs : SameArgs 0 m entered := by
    refine ⟨fun r hr => ?_, hentered.argsD, rfl⟩
    rw [hentered.args r hr, stub_x slot m (fun h => absurd hr (by rw [h]; decide))]
  have hload : ∀ off, (real entered).load off = entered.load off := by
    intro off
    unfold Cpu.load
    rw [hreal.follows.stack_eq]
  have hframe : entered.load 0 = m.x 29 ∧ entered.load 8 = m.x 30 ∧
      entered.load 176 = m.x 19 ∧ entered.load 184 = m.x 20 := by
    unfold Cpu.load
    rw [hstack]
    exact ⟨rfl, rfl, rfl, rfl⟩
  obtain ⟨hresult, hresultD⟩ := hreal.decided m entered hargs
  refine ⟨⟨entered, htrace, hargs⟩, ?_, ?_, ?_, ?_, ?_, ⟨?_, ?_⟩⟩
  · rw [hdirect, hleft.result, hresult]
  · rw [hdirect, hleft.resultD, hresultD]
  · unfold Machine.sp
    rw [hdirect, hleft.length_stack, hreal.follows.length_stack, hreal.follows.length_stack, hstack,
      List.length_append]
    congr 3
    exact Nat.add_sub_cancel_left 24 _
  · rw [hdirect, hleft.x29, hload, hframe.1, hreal.follows.saved m 29 (by decide)]
  · rw [hdirect, hleft.x30, hload, hframe.2.1, hreal.follows.saved m 30 (by decide)]
  · intro r h19 h29
    rw [hdirect, hreal.follows.saved m r h19]
    rcases Nat.lt_or_ge r.val 21 with hlt | hge
    · -- `x19` and `x20` come out of the frame
      obtain rfl | rfl : r = 19 ∨ r = 20 := by
        rcases Nat.lt_or_ge r.val 20 with h | h
        · exact Or.inl (Fin.ext (by omega))
        · exact Or.inr (Fin.ext (by omega))
      · rw [hleft.x19, hload, hframe.2.2.1]
      · rw [hleft.x20, hload, hframe.2.2.2]
    · rw [hleft.saved r hge h29, hreal.follows.saved entered r h19, hentered.saved.x r h19 h29,
        stub_x slot m (fun h => absurd h19 (by rw [h]; decide))]
  · intro r h8 h15
    rw [hdirect, hreal.follows.savedD m r h8 h15, hleft.savedD r h8 h15,
      hreal.follows.savedD entered r h8 h15]
    exact hentered.saved.d r h8 h15

/-- A function that uses its first argument on the stack as a variable of its own. -/
def countUp (m : Cpu) : Cpu :=
  match m.stack with
  | [] => m
  | word :: rest => { m with stack := (word + 1) :: rest }

theorem callee_countUp (n : Nat) : Callee (n + 1) countUp := by
  have hx : ∀ m, (countUp m).x = m.x := by
    intro m
    unfold countUp
    split <;> rfl
  have hd : ∀ m, (countUp m).d = m.d := by
    intro m
    unfold countUp
    split <;> rfl
  refine ⟨⟨fun m => ?_, fun m => ?_, fun m r _ => by rw [hx], fun m r _ _ => by rw [hd]⟩, ?_⟩
  · unfold countUp
    split
    · rfl
    · next word rest h => rw [h]; rfl
  · unfold countUp
    split
    · rfl
    · next word rest h => rw [h]; rfl
  · intro m m' hargs
    rw [hx, hx, hd, hd]
    exact ⟨hargs.x 0 (by decide), hargs.d 0 (by decide)⟩

/-- For every process, slot and state of the registers, every list of arguments on the stack and
    whatever lies behind them: the trampoline is transparent to all functions of that many arguments
    iff there are none. -/
theorem trampoline_transparent_iff (P : Process) (slot : Slot) (x : Fin 31 → UInt64)
    (d : Fin 32 → UInt64) (args caller : List UInt64) :
    (∀ real, Callee args.length real →
        Transparent (P.withReal slot real) slot args.length ⟨x, d, args ++ caller⟩) ↔
      args = [] := by
  constructor
  · intro h
    cases args with
    | nil => rfl
    | cons word args =>
      have htransparent := h countUp (callee_countUp args.length)
      have hdirect := direct_withReal P slot countUp
      obtain ⟨entered, -, hentered, hleft⟩ := trace_spec (P.withReal slot countUp) slot
        ⟨x, d, (word :: args) ++ caller⟩ (by
          intro m
          exact (congrArg (fun c => c.stack.length) (hdirect m)).trans
            ((callee_countUp 0).follows.length_stack m))
      rw [show (P.withReal slot countUp).machine.code
          ((P.withReal slot countUp).table.entry slot.val) entered = countUp entered
        from hdirect entered] at hleft
      obtain ⟨a, b, hstack⟩ := hentered.stack
      -- the first argument is the saved `x29`
      have hcount : (countUp entered).load 0 = x 29 + 1 := by
        unfold Cpu.load countUp
        rw [hstack]
        rfl
      have hx29 := htransparent.x29
      rw [hleft.x29, hcount, hdirect] at hx29
      have hsame : x 29 + 1 = x 29 := hx29
      simp at hsame
  · rintro rfl real hreal
    exact transparent_of_register_args P slot hreal _

/-! ## A variadic call -/

/-- Hooks that do nothing. -/
def idleHook (table : JniTable) : Hook → Cpu → Cpu
  | .artpiJniGetRealFunc, m => m.setX 0 (artpiJniGetRealFunc table (m.x 0).toUInt32.toInt32)
  | _, m => m

/-- A process with the function of every slot at the address `1`. -/
def idleProcess : Process :=
  let table : JniTable := ⟨fun _ => 1, fun _ _ _ => by decide⟩
  { machine :=
      { stackBase := 0x8000
        below := fun _ => 0
        link := fun _ => 0
        func := idleHook table
        code := fun _ m => m }
    table := table
    follows := by
      intro h
      cases h with
      | artpiJniGetRealFunc =>
        refine ⟨fun m => rfl, fun m => rfl, fun m r h19 => ?_, fun m r _ _ => rfl⟩
        exact if_neg (fun h => absurd h19 (by rw [h]; decide))
      | _ => exact ⟨fun m => rfl, fun m => rfl, fun m r _ => rfl, fun m r _ _ => rfl⟩
    real_func := fun m => rfl }

/-- `CallObjectMethod`. -/
def callObjectMethod : Slot := ⟨34, by decide⟩

/-- A function that returns its first argument on the stack. -/
def firstStackArg (m : Cpu) : Cpu := m.setX 0 (m.load 0)

/-- A call with `42` on the stack, of a caller whose frame pointer is `7`. -/
def variadicCall : Cpu := ⟨fun r => if r = 29 then 7 else 0, fun _ => 0, [42]⟩

/-- Called directly the function returns `42`, and traced it returns the frame pointer. -/
theorem variadicCall_not_transparent :
    Callee 1 firstStackArg ∧
      ((idleProcess.withReal callObjectMethod firstStackArg).direct callObjectMethod
        variadicCall).x 0 = 42 ∧
      ((idleProcess.withReal callObjectMethod firstStackArg).trace callObjectMethod
        variadicCall).1.x 0 = 7 ∧
      ¬ Transparent (idleProcess.withReal callObjectMethod firstStackArg) callObjectMethod 1
        variadicCall := by
  have hcallee : Callee 1 firstStackArg := by
    refine ⟨⟨fun m => rfl, fun m => rfl, fun m r h19 => ?_, fun m r _ _ => rfl⟩, fun m m' h => ?_⟩
    · exact if_neg (fun h => absurd h19 (by rw [h]; decide))
    · refine ⟨?_, h.d 0 (by decide)⟩
      have hstack := congrArg (fun words => words.getD 0 (0 : UInt64)) h.stack
      simpa [firstStackArg, Cpu.load, List.getElem?_take] using hstack
  have hdirect : ((idleProcess.withReal callObjectMethod firstStackArg).direct callObjectMethod
      variadicCall).x 0 = 42 := by
    rw [direct_withReal]
    rfl
  have htrace : ((idleProcess.withReal callObjectMethod firstStackArg).trace callObjectMethod
      variadicCall).1.x 0 = 7 := by
    decide
  refine ⟨hcallee, hdirect, htrace, fun h => ?_⟩
  exact absurd (htrace.symm.trans (h.result.trans hdirect)) (by decide)

end ArtPi.Jni
