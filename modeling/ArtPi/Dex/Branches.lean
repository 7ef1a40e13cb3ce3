import ArtPi.Dex.Layout
import Mathlib.Tactic.SplitIfs

set_option autoImplicit false

/-! # Branch displacements

`branchesSound_iff` says exactly when the 16-bit branches of an accepted list lead to their labels.
The writer's range check looks at the last placement of a label, the encoder resolves to the first
one, and the encoder's own check lets backward distances up to `0x10000` through: a label placed
twice can be more than 32768 units behind its branch, and the displacement is then cut. -/

namespace ArtPi.Dex

/-- The part of an emitted list from one of its instructions on. -/
theorem Laid.split {first : Int → Option Nat} {p : Nat} {is : List SymbolicInstruction}
    {code : List Nat} (pre : List SymbolicInstruction) (h : Laid first p (pre ++ is) code) :
    ∃ before rest, code = before ++ rest ∧ before.length = size pre ∧
      Laid first (p + size pre) is rest := by
  induction pre generalizing p code with
  | nil => exact ⟨[], code, rfl, rfl, h⟩
  | cons i pre ih =>
    cases h with
    | label h =>
      obtain ⟨before, rest, rfl, hlen, hrest⟩ := ih h
      refine ⟨before, rest, rfl, ?_, ?_⟩
      · simp only [size, SymbolicInstruction.width, hlen, Nat.zero_add]
      · simpa only [size, SymbolicInstruction.width, Nat.zero_add] using hrest
    | nop h =>
      obtain ⟨before, rest, rfl, hlen, hrest⟩ := ih h
      refine ⟨0 :: before, rest, rfl, ?_, ?_⟩
      · simp only [size, SymbolicInstruction.width, List.length_cons, hlen]; omega
      · simpa only [size, SymbolicInstruction.width, Nat.add_assoc] using hrest
    | @insn _ opcode operands units _ code' hlen' _ _ _ h =>
      obtain ⟨before, rest, rfl, hlen, hrest⟩ := ih h
      refine ⟨units ++ before, rest, by rw [List.append_assoc], ?_, ?_⟩
      · simp only [size, List.length_append, hlen', hlen]
      · simpa only [size, Nat.add_assoc] using hrest

theorem Laid.branch {first : Int → Option Nat} {is pre post : List SymbolicInstruction}
    {i : SymbolicInstruction} {code : List Nat} {l : Int} {short : Bool} (h : Laid first 0 is code)
    (his : is = pre ++ i :: post) (hl : i.target = some (l, short)) :
    ∃ t units before rest, first l = some t ∧ Points short t (size pre) units ∧
      code = before ++ (units ++ rest) ∧ before.length = size pre := by
  subst his
  obtain ⟨before, code', rfl, hlen, hrest⟩ := h.split pre
  rw [Nat.zero_add] at hrest
  cases hrest with
  | label _ => exact absurd hl (by simp [SymbolicInstruction.target])
  | nop _ => exact absurd hl (by simp [SymbolicInstruction.target])
  | @insn _ opcode operands units _ rest _ _ _ hpoints _ =>
    obtain ⟨t, ht, hp⟩ := hpoints l short hl
    exact ⟨t, units, before, rest, ht, hp, rfl, hlen⟩

/-- The displacement field of a 16-bit branch, as the interpreter reads it. -/
theorem s2_disp {t p : Nat} (hp : p < 2 ^ 31) (hback : p ≤ t + 65536)
    (hfwd : t ≤ p + 32767) :
    s2 (u4Sub t p % 65536)
      = if p ≤ t + 32768 then (t : Int) - p else (t : Int) - p + 65536 := by
  have hd : u4Sub t p % 65536 = if p ≤ t then t - p else 65536 - (p - t) := by
    rw [u4Sub]
    split_ifs <;> omega
  rw [hd, s2]
  split_ifs <;> omega

/-- Every 16-bit branch of the list leads, in the emitted code, to the position at which the label
    it names was emitted. -/
def BranchesSound (is : List SymbolicInstruction) (code : List Nat) : Prop :=
  ∀ (pre : List SymbolicInstruction) (i : SymbolicInstruction) (post : List SymbolicInstruction)
    (l : Int), is = pre ++ i :: post → i.target = some (l, true) →
    ∃ t, firstPlacement 0 is l = some t ∧
      (size pre : Int) + s2 (code.getD (size pre + 1) 0) = t

/-- No 16-bit branch stands more than 32768 units behind the first placement of its label. -/
def BranchesNear (is : List SymbolicInstruction) : Prop :=
  ∀ (pre : List SymbolicInstruction) (i : SymbolicInstruction) (post : List SymbolicInstruction)
    (l : Int) (t : Nat), is = pre ++ i :: post → i.target = some (l, true) →
    firstPlacement 0 is l = some t → size pre ≤ t + 32768

theorem size_split {is pre post : List SymbolicInstruction} {i : SymbolicInstruction}
    (h : is = pre ++ i :: post) : size is = size pre + (i.width + size post) := by
  rw [h, size_append, size]

theorem Laid.displacement16 {is pre post : List SymbolicInstruction} {i : SymbolicInstruction}
    {code : List Nat} {l : Int} (h : Laid (firstPlacement 0 is) 0 is code)
    (hsize : size is < 2 ^ 31) (his : is = pre ++ i :: post) (hl : i.target = some (l, true)) :
    ∃ t, firstPlacement 0 is l = some t ∧ t < 2 ^ 31 ∧ size pre ≤ t + 65536 ∧
      s2 (code.getD (size pre + 1) 0)
        = if size pre ≤ t + 32768 then (t : Int) - size pre else (t : Int) - size pre + 65536 := by
  obtain ⟨t, units, before, rest, ht, ⟨⟨u, rfl⟩, -, hback, hfwd⟩, rfl, hlen⟩ := h.branch his hl
  have htle := firstPlacement_bounds ht
  have hpre := size_split his
  refine ⟨t, ht, by omega, hback, ?_⟩
  have hunit : (before ++ ([u, u4Sub t (size pre) % 65536] ++ rest)).getD (size pre + 1) 0
      = u4Sub t (size pre) % 65536 := by
    rw [← hlen]
    simp
  rw [hunit, s2_disp (by omega) hback hfwd]

theorem Laid.sound_iff {is : List SymbolicInstruction} {code : List Nat}
    (h : Laid (firstPlacement 0 is) 0 is code) (hsize : size is < 2 ^ 31) :
    BranchesSound is code ↔ BranchesNear is := by
  constructor
  · intro hsound pre i post l t his hl ht
    obtain ⟨t', ht', hadd⟩ := hsound pre i post l his hl
    obtain ⟨t'', ht'', _, _, hdisp⟩ := h.displacement16 hsize his hl
    obtain rfl := Option.some.inj (ht.symm.trans ht')
    obtain rfl := Option.some.inj (ht.symm.trans ht'')
    by_contra hfar
    rw [hdisp, if_neg hfar] at hadd
    omega
  · intro hnear pre i post l his hl
    obtain ⟨t, ht, _, _, hdisp⟩ := h.displacement16 hsize his hl
    refine ⟨t, ht, ?_⟩
    rw [hdisp, if_pos (hnear pre i post l t his hl ht)]
    omega

/-- An accepted list whose code has fewer than `2 ^ 31` units: its 16-bit branches are sound exactly
    when each is at most 32768 units behind the first placement of its label. -/
theorem branchesSound_iff {ctx : SymbolicOperand → Nat} {w : Writer} {out : Assembled}
    (h : assembleInto ctx w = .ok out) (hsize : size w.instructions < 2 ^ 31) :
    BranchesSound w.instructions out.code ↔ BranchesNear w.instructions :=
  (assembleInto_laid h hsize).1.sound_iff hsize

/-- A counting loop: the branches go both ways. -/
def countLoop : Writer where
  registers := 2
  instructions :=
    [.bytecode 0x12 [.vreg 0, .const32 0], .label 1, .bytecode 0x35 [.vreg 0, .vreg 1,
      .labelTarget 2], .bytecode 0xd8 [.vreg 0, .vreg 0, .const32 1], .bytecode OP_GOTO
      [.labelTarget 1], .label 2, .bytecode OP_RETURN [.vreg 0]]

theorem branchesSound_countLoop :
    BranchesSound countLoop.instructions
        [0x0012, 0x1035, 0x0006, 0x00d8, 0x0100, 0x0029, 0xfffc, 0x000f] ↔
      BranchesNear countLoop.instructions :=
  branchesSound_iff (show assembleInto (fun _ => 0) countLoop = .ok ⟨_, 0⟩ from rfl) (by decide)

/-! ## A label placed twice -/

/-- `n` nops between the first placement of a label and a branch to it, and the label placed again
    right behind the branch. -/
def farLoop (n : Nat) : Writer where
  registers := 1
  instructions :=
    .label 1 :: (List.replicate n .nop ++
      [.bytecode OP_GOTO [.labelTarget 1], .label 1, .bytecode OP_RETURN_VOID []])

theorem forM_nops {n : Nat} {f : SymbolicInstruction → Except AssembleError Unit}
    (hf : f .nop = .ok ()) (is : List SymbolicInstruction) :
    (List.replicate n SymbolicInstruction.nop ++ is).forM f = is.forM f := by
  induction n with
  | zero => rfl
  | succ n ih =>
    rw [List.replicate_succ, List.cons_append, List.forM, hf]
    exact ih

theorem foldl_simStep_nops (n : Nat) (s : Sim) (h : s.offset + n < 2 ^ 32) :
    (List.replicate n .nop).foldl simStep s = { s with offset := s.offset + n } := by
  induction n generalizing s with
  | zero => rfl
  | succ n ih =>
    have hstep : simStep s .nop = { s with offset := s.offset + 1 } := by
      simp only [simStep, u4]
      rw [Nat.mod_eq_of_lt (by omega)]
    rw [List.replicate_succ, List.foldl_cons, hstep, ih _ (by simp only; omega)]
    simp only [Sim.mk.injEq, and_true]
    omega

theorem visitAll_nops (ctx : SymbolicOperand → Nat) (n : Nat) (emitted : List Int)
    (is : List SymbolicInstruction) (e : Encoder) (h : e.offset + n < 2 ^ 32) :
    visitAll e (emit ctx emitted (List.replicate n .nop ++ is))
      = visitAll { e with bytecode := e.bytecode ++ List.replicate n 0, offset := e.offset + n }
          (emit ctx emitted is) := by
  induction n generalizing e with
  | zero => simp
  | succ n ih =>
    have hstep : visit e (.bytecode OP_NOP [])
        = .ok { e with bytecode := e.bytecode ++ [0], offset := e.offset + 1 } := by
      have hoff : u4 (e.offset + 1) = e.offset + 1 := Nat.mod_eq_of_lt (by omega)
      have hraw : visit e (.bytecode OP_NOP [])
          = .ok { e with
              bytecode := e.bytecode ++ [0]
              offset := u4 (e.offset + 1)
              fixups := e.fixups ++ []
              outsCount := max e.outsCount 0 } := rfl
      rw [hraw, hoff, List.append_nil, Nat.max_zero]
    rw [List.replicate_succ, List.cons_append, emit, visitAll, hstep]
    refine (ih _ (by simp only; omega)).trans ?_
    simp only [List.append_assoc, List.singleton_append, ← List.replicate_succ]
    congr 2
    omega

theorem fixupSwitchOffsets_nops (code tail : List Nat) (n fuel ptr : Nat)
    (h : code.drop ptr = List.replicate n 0 ++ tail) :
    fixupSwitchOffsets code (fuel + n) ptr = fixupSwitchOffsets code fuel (ptr + n) := by
  induction n generalizing ptr with
  | zero => rfl
  | succ n ih =>
    have hlt : ptr < code.length := by
      by_contra hge
      rw [List.drop_eq_nil_of_le (by omega)] at h
      simp [List.replicate_succ] at h
    have hhead : code.getD ptr 0 = 0 := by
      have h0 : (code.drop ptr)[0]? = some 0 := by rw [h]; simp [List.replicate_succ]
      rw [List.getElem?_drop, Nat.add_zero] at h0
      simp [List.getD, h0]
    have hwidth : getWidthFromBytecode (code.drop ptr) = 1 := by
      rw [h, List.replicate_succ, List.cons_append, getWidthFromBytecode_insn (.inr rfl)]
      rfl
    have hdrop : code.drop (ptr + 1) = List.replicate n 0 ++ tail := by
      rw [← List.drop_drop, h, List.replicate_succ]; rfl
    rw [← Nat.add_assoc, fixupSwitchOffsets, if_pos hlt, hhead, hwidth]
    rw [show ptr + (n + 1) = ptr + 1 + n by omega]
    exact ih (ptr + 1) hdrop

/-- The code of `farLoop`: the displacement unit is the low half of `-n`. -/
def farLoopCode (n : Nat) : List Nat := List.replicate n 0 ++ [0x29, u4Sub 0 n % 65536, 0x0e]

theorem checkRegisters_farLoop (n : Nat) : checkRegisters 1 (farLoop n).instructions = .ok () := by
  rw [checkRegisters, farLoop, List.forM]
  exact forM_nops rfl _

theorem simulate_farLoop (n : Nat) (h : n ≤ 65536) :
    (simulate (farLoop n).instructions).branches = [⟨n, 1, OP_GOTO_16⟩] ∧
      (simulate (farLoop n).instructions).labels 1 = some (n + 2) := by
  have hgoto : u4 (n + getWidthFromFormat (getFormatFromOpcode (effOp OP_GOTO))) = n + 2 :=
    Nat.mod_eq_of_lt (show n + 2 < 2 ^ 32 by omega)
  simp only [simulate, farLoop, List.foldl_cons, List.foldl_append, List.foldl_nil]
  rw [foldl_simStep_nops n _ (by simp only [simStep]; omega)]
  simp only [simStep, Nat.zero_add, hgoto, List.nil_append]
  exact ⟨rfl, by simp⟩

/-- The encoder at the `goto` of `farLoop`. -/
theorem encodeInsn_far {known : Int → Option Nat} {n : Nat} (hk : known 1 = some 0) (h0 : 0 < n)
    (h : n ≤ 65536) :
    encodeInsn known n OP_GOTO_16 [.codeLocation 1]
      = .ok { units := [0x29, u4Sub 0 n % 65536] } := by
  have hres : resolve known n 1 true false = .ok (u4Sub 0 n, none) := by
    have hne : u4Sub 0 n ≠ 0 := by rw [u4Sub]; omega
    have hhigh : u4Sub 0 n / 65536 = 65535 := by rw [u4Sub]; omega
    have hchecks : (false || decide (u4Sub 0 n ≠ 0)) = true ∧
        (!true || decide (u4Sub 0 n >>> 16 = 0xffff)) = true := by
      simp [high16, hne, hhigh]
    simp only [resolve, hk, check, require, if_pos hchecks.1, if_pos hchecks.2]
    rfl
  have hpack : pack16 (u4Sub 0 n &&& 0xffff) = .ok (u4Sub 0 n % 65536) := by
    have hmask : u4Sub 0 n % 65536 &&& 0xffff = u4Sub 0 n % 65536 := by
      rw [low16]; omega
    simp only [low16, pack16, check, require, hmask]
    rfl
  have hraw : encodeInsn known n OP_GOTO_16 [.codeLocation 1]
      = resolve known n 1 true false >>= fun p =>
          pack16 (p.1 &&& 0xffff) >>= fun u1 => pure { units := [0x29, u1], fixup := p.2 } := rfl
  rw [hraw, hres]
  change pack16 (u4Sub 0 n &&& 0xffff) >>= _ = _
  rw [hpack]
  rfl

theorem visitAll_farLoop (n : Nat) (h0 : 0 < n) (h : n ≤ 65536) :
    ∃ e, visitAll ⟨[], 0, fun _ => none, [], 0⟩ (emit (fun _ => 0) [] (farLoop n).instructions)
        = .ok e ∧ e.bytecode = farLoopCode n ∧ e.fixups = [] ∧ e.outsCount = 0 := by
  have hemit : emit (fun _ => 0) [] (farLoop n).instructions
      = .label 1 :: emit (fun _ => 0) [1] (List.replicate n .nop ++
        [.bytecode OP_GOTO [.labelTarget 1], .label 1, .bytecode OP_RETURN_VOID []]) := by
    simp [emit, farLoop]
  have hlabel : visit ⟨[], 0, fun _ => none, [], 0⟩ (.label 1)
      = .ok ⟨[], 0, Function.update (fun _ => none) 1 (some 0), [], 0⟩ := rfl
  have htail : emit (fun _ => 0) [1]
      [.bytecode OP_GOTO [.labelTarget 1], .label 1, .bytecode OP_RETURN_VOID []]
      = [.bytecode OP_GOTO [.codeLocation 1], .bytecode OP_RETURN_VOID []] := rfl
  have hgoto : encodeInsn (Function.update (fun _ => none) 1 (some 0)) n OP_GOTO_16
      [.codeLocation 1] = .ok { units := [0x29, u4Sub 0 n % 65536] } :=
    encodeInsn_far (by simp) h0 h
  rw [hemit, visitAll, hlabel]
  change ∃ e, visitAll ⟨[], 0, Function.update (fun _ => none) 1 (some 0), [], 0⟩ _ = .ok e ∧ _
  rw [visitAll_nops _ _ _ _ _ (by simp only; omega), htail]
  simp only [List.nil_append, Nat.zero_add, visitAll, visit]
  rw [show effOp OP_GOTO = OP_GOTO_16 from rfl, hgoto]
  refine ⟨_, rfl, ?_, rfl, rfl⟩
  rw [farLoopCode, List.append_assoc]
  rfl

theorem fixupSwitchOffsets_farLoop (n : Nat) :
    fixupSwitchOffsets (farLoopCode n) ((farLoopCode n).length + 1) 0 = .ok () := by
  have hlen : (farLoopCode n).length = n + 3 := by simp [farLoopCode]
  have hdrop : (farLoopCode n).drop n = [0x29, u4Sub 0 n % 65536, 0x0e] := by
    simp [farLoopCode]
  have hgoto : (farLoopCode n).getD n 0 = 0x29 := by simp [farLoopCode]
  have hret : (farLoopCode n).getD (n + 2) 0 = 0x0e := by simp [farLoopCode]
  rw [hlen, show n + 3 + 1 = 4 + n by omega, fixupSwitchOffsets_nops (farLoopCode n) _ n 4 0 rfl,
    Nat.zero_add, fixupSwitchOffsets, if_pos (by omega), hgoto, hdrop,
    getWidthFromBytecode_insn (.inl (by decide))]
  change fixupSwitchOffsets (farLoopCode n) 3 (n + 2) = .ok ()
  rw [fixupSwitchOffsets, if_pos (by omega), hret, ← List.drop_drop, hdrop]
  simp only [List.drop_succ_cons, List.drop_zero]
  rw [getWidthFromBytecode_insn (.inl (by decide))]
  change fixupSwitchOffsets (farLoopCode n) 2 (n + 2 + 1) = .ok ()
  rw [fixupSwitchOffsets, if_neg (by omega), hlen]
  simp [check, require]

theorem assembleInto_farLoop (n : Nat) (h0 : 0 < n) (h : n ≤ 65536) :
    assembleInto (fun _ => 0) (farLoop n) = .ok ⟨farLoopCode n, 0⟩ := by
  obtain ⟨hbranches, hlabel⟩ := simulate_farLoop n h
  obtain ⟨e, hvisit, hcode, hfixups, houts⟩ := visitAll_farLoop n h0 h
  have hcount : getBytecodeInstructionCount (farLoop n).instructions ≠ 0 := by
    simp [getBytecodeInstructionCount, farLoop, SymbolicInstruction.isBytecode]
  have hlast : lastOp (farLoop n).instructions = OP_RETURN_VOID := by
    simp only [lastOp, farLoop, List.reverse_cons, List.reverse_append, List.reverse_nil,
      List.nil_append, List.cons_append]
    rfl
  have hbranch : checkBranch (simulate (farLoop n).instructions).labels ⟨n, 1, OP_GOTO_16⟩
      = .ok () := by
    have hrel : s4 (n + 2) - s4 n = 2 := by
      rw [s4, s4, if_pos (by omega), if_pos (by omega)]; omega
    simp [checkBranch, hlabel, hrel]
  have hforM : (simulate (farLoop n).instructions).branches.forM
      (checkBranch (simulate (farLoop n).instructions).labels) = .ok () := by
    rw [hbranches, List.forM, hbranch]
    rfl
  have hencode : encode (emit (fun _ => 0) [] (farLoop n).instructions)
      = .ok ⟨farLoopCode n, 0⟩ := by
    refine bind_ok.mpr ⟨e, hvisit, ?_⟩
    rw [hcode, hfixups, houts]
    refine bind_ok.mpr ⟨farLoopCode n, rfl, ?_⟩
    exact bind_ok.mpr ⟨(), fixupSwitchOffsets_farLoop n, rfl⟩
  refine bind_ok.mpr ⟨(), require_ok.mpr (by simpa using hcount), ?_⟩
  refine bind_ok.mpr ⟨(), require_ok.mpr (by rw [hlast]; rfl), ?_⟩
  refine bind_ok.mpr ⟨(), checkRegisters_farLoop n, ?_⟩
  exact bind_ok.mpr ⟨(), hforM, hencode⟩

theorem size_nops (n : Nat) : size (List.replicate n .nop) = n := by
  induction n with
  | zero => rfl
  | succ n ih => rw [List.replicate_succ, size, ih, SymbolicInstruction.width]; omega

theorem not_branchesSound_farLoop (n : Nat) (hn : 32768 < n) (h : n ≤ 65536) :
    ¬ BranchesSound (farLoop n).instructions (farLoopCode n) := by
  intro hsound
  have hsize : size (.label 1 :: List.replicate n .nop) = n := by
    rw [size, size_nops, SymbolicInstruction.width, Nat.zero_add]
  have hfirst : firstPlacement 0 (farLoop n).instructions 1 = some 0 := by
    simp [farLoop, firstPlacement, SymbolicInstruction.places]
  obtain ⟨t, ht, hadd⟩ := hsound (.label 1 :: List.replicate n .nop)
    (.bytecode OP_GOTO [.labelTarget 1]) [.label 1, .bytecode OP_RETURN_VOID []] 1 rfl rfl
  obtain rfl := Option.some.inj (hfirst.symm.trans ht)
  have hunit : (farLoopCode n).getD (n + 1) 0 = u4Sub 0 n % 65536 := by simp [farLoopCode]
  rw [hsize, hunit, s2_disp (by omega) (by omega) (by omega), if_neg (by omega)] at hadd
  omega

/-- A `goto` 40000 units behind the first placement of its label, with the label placed again behind
    it, is accepted and goes forward. -/
theorem farLoop_not_sound :
    assembleInto (fun _ => 0) (farLoop 40000) = .ok ⟨farLoopCode 40000, 0⟩ ∧
      ¬ BranchesSound (farLoop 40000).instructions (farLoopCode 40000) :=
  ⟨assembleInto_farLoop 40000 (by decide) (by decide),
    not_branchesSound_farLoop 40000 (by decide) (by decide)⟩

end ArtPi.Dex
