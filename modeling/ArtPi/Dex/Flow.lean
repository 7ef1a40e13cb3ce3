import ArtPi.Dex.Branches
import Mathlib.Data.List.Induction

set_option autoImplicit false

/-! # Control flow of the emitted code

Instructions, successors and the property `FlowsInside` are read off the emitted units alone, as an
interpreter would; `flowsInside_iff` compares them with the instruction list. The writer's check
looks at the last instruction that is neither a label nor a nop, and at the existence of labels: a
trailing nop, or a branch to a label behind the last instruction, leaves the code. -/

namespace ArtPi.Dex

/-! ## Reading the code units -/

def opAt (code : List Nat) (p : Nat) : Opcode := UInt8.ofNat (code.getD p 0 &&& 0xff)

def widthAt (code : List Nat) (p : Nat) : Nat :=
  getWidthFromFormat (getFormatFromOpcode (opAt code p))

/-- The first units of the instructions, found by going through the code from its start. -/
inductive Start (code : List Nat) : Nat → Prop where
  | zero : 0 < code.length → Start code 0
  | next {p : Nat} : Start code p → p + widthAt code p < code.length →
      Start code (p + widthAt code p)

/-- The target of the branch at `p`, if it is one. -/
def branchTargets (code : List Nat) (p : Nat) : List Int :=
  match getFormatFromOpcode (opAt code p) with
  | .k20t | .k21t | .k22t => [(p : Int) + s2 (code.getD (p + 1) 0)]
  | .k30t => [(p : Int) + s4 (code.getD (p + 1) 0 + code.getD (p + 2) 0 * 65536)]
  | _ => []

/-- Where execution can go from the instruction at `p`: on to the next instruction unless it is a
    return, a throw or a goto, and to the target of a branch. A switch is not accepted at all. -/
def successors (code : List Nat) (p : Nat) : List Int :=
  (if isTerminal (opAt code p) then [] else [((p + widthAt code p : Nat) : Int)]) ++
    branchTargets code p

def isSwitch (opcode : Opcode) : Bool := opcode = OP_PACKED_SWITCH || opcode = OP_SPARSE_SWITCH

/-- No instruction is a switch, and every successor of an instruction is an instruction. -/
def FlowsInside (code : List Nat) : Prop :=
  ∀ p, Start code p → isSwitch (opAt code p) = false ∧
    ∀ q ∈ successors code p, ∃ n : Nat, q = n ∧ n < code.length ∧ Start code n

/-! ## The same positions in the list -/

/-- The opcode an instruction of the list is emitted with. -/
def SymbolicInstruction.emittedOp : SymbolicInstruction → Opcode
  | .bytecode opcode _ => effOp opcode
  | _ => OP_NOP

theorem Laid.length {first : Int → Option Nat} {p : Nat} {is : List SymbolicInstruction}
    {code : List Nat} (h : Laid first p is code) : code.length = size is := by
  induction h with
  | nil p => rfl
  | label _ ih => simp only [size, SymbolicInstruction.width, ih, Nat.zero_add]
  | nop _ ih => simp only [size, SymbolicInstruction.width, List.length_cons, ih, Nat.add_comm]
  | insn hlen _ _ _ _ ih => simp only [size, List.length_append, hlen, ih]

theorem isHead_opcode {opcode : Opcode} {u : Nat} (h : IsHead opcode u) :
    UInt8.ofNat (u &&& 0xff) = opcode := by
  apply UInt8.toNat_inj.mp
  rw [UInt8.toNat_ofNat', show u &&& 0xff = u % 256 from Nat.and_two_pow_sub_one_eq_mod u 8, h.1]
  exact Nat.mod_eq_of_lt opcode.toNat_lt

theorem Laid.head {first : Int → Option Nat} {is pre post : List SymbolicInstruction}
    {i : SymbolicInstruction} {code : List Nat} (h : Laid first 0 is code)
    (his : is = pre ++ i :: post) (hi : 0 < i.width) :
    ∃ before u rest, code = before ++ u :: rest ∧ before.length = size pre ∧
      IsHead i.emittedOp u := by
  subst his
  obtain ⟨before, code', rfl, hlen, hrest⟩ := h.split pre
  cases hrest with
  | label _ => exact absurd hi (by simp [SymbolicInstruction.width])
  | nop _ => exact ⟨before, 0, _, rfl, hlen, rfl, fun _ => rfl⟩
  | insn _ hhead _ _ _ =>
    obtain ⟨u, rest, rfl, hu⟩ := hhead
    exact ⟨before, u, _, rfl, hlen, hu⟩

theorem Laid.opAt {first : Int → Option Nat} {is pre post : List SymbolicInstruction}
    {i : SymbolicInstruction} {code : List Nat} (h : Laid first 0 is code)
    (his : is = pre ++ i :: post) (hi : 0 < i.width) :
    opAt code (size pre) = i.emittedOp ∧ widthAt code (size pre) = i.width := by
  obtain ⟨before, u, rest, rfl, hlen, hu⟩ := h.head his hi
  have hop : Dex.opAt (before ++ u :: rest) (size pre) = i.emittedOp := by
    rw [Dex.opAt, ← hlen]
    simpa using isHead_opcode hu
  refine ⟨hop, ?_⟩
  rw [widthAt, hop]
  cases i with
  | label l => exact absurd hi (by simp [SymbolicInstruction.width])
  | nop => rfl
  | bytecode opcode operands => rfl

theorem exists_insn {is : List SymbolicInstruction} (h : 0 < size is) :
    ∃ labels i post, is = labels ++ i :: post ∧ size labels = 0 ∧ 0 < i.width := by
  induction is with
  | nil => exact absurd h (by simp [size])
  | cons i is ih =>
    by_cases hi : 0 < i.width
    · exact ⟨[], i, is, rfl, rfl, hi⟩
    · simp only [size] at h
      obtain ⟨labels, j, post, rfl, hl, hj⟩ := ih (by omega)
      refine ⟨i :: labels, j, post, rfl, ?_, hj⟩
      simp only [size, hl]
      omega

theorem Laid.start_of_split {first : Int → Option Nat} {is : List SymbolicInstruction}
    {code : List Nat} (h : Laid first 0 is code) (pre : List SymbolicInstruction) :
    ∀ post, is = pre ++ post → 0 < size post → Start code (size pre) := by
  induction pre using List.reverseRecOn with
  | nil =>
    intro post his hpost
    exact .zero (by rw [h.length, his]; simpa using hpost)
  | append_singleton pre j ih =>
    intro post his hpost
    rw [List.append_assoc, List.singleton_append] at his
    have hprev := ih (j :: post) his (by simp only [size]; omega)
    have hsize : size (pre ++ [j]) = size pre + j.width := by
      rw [size_append]; simp [size]
    rw [hsize]
    by_cases hj : 0 < j.width
    · obtain ⟨-, hw⟩ := h.opAt his hj
      rw [← hw]
      refine .next hprev ?_
      have := size_split his
      rw [hw, h.length]
      omega
    · rwa [show j.width = 0 by omega, Nat.add_zero]

theorem Laid.split_of_start {first : Int → Option Nat} {is : List SymbolicInstruction}
    {code : List Nat} (h : Laid first 0 is code) {p : Nat} (hp : Start code p) :
    ∃ pre i post, is = pre ++ i :: post ∧ 0 < i.width ∧ size pre = p := by
  suffices hsuff : ∃ pre post, is = pre ++ post ∧ 0 < size post ∧ size pre = p by
    obtain ⟨pre, post, rfl, hpost, rfl⟩ := hsuff
    obtain ⟨labels, i, post', rfl, hl, hi⟩ := exists_insn hpost
    exact ⟨pre ++ labels, i, post', by rw [List.append_assoc], hi, by rw [size_append, hl]; rfl⟩
  induction hp with
  | zero h0 => exact ⟨[], is, rfl, by rwa [h.length] at h0, rfl⟩
  | @next p hp hlt ih =>
    obtain ⟨pre, post, his, hpost, hpre⟩ := ih
    obtain ⟨labels, i, post', hpost', hl, hi⟩ := exists_insn hpost
    have his' : is = (pre ++ labels) ++ i :: post' := by
      rw [his, hpost', List.append_assoc]
    have hpos : size (pre ++ labels) = p := by rw [size_append, hl, hpre]; rfl
    obtain ⟨-, hw⟩ := h.opAt his' hi
    rw [hpos] at hw
    rw [hw, h.length] at hlt
    have hsize := size_split his'
    refine ⟨pre ++ labels ++ [i], post', by simpa using his', by omega, ?_⟩
    rw [size_append, hpos, hw]
    simp [size]

/-! ## What acceptance adds -/

/-- The walk of `FixupSwitchOffsets` visits every instruction, so none is a switch. -/
theorem Laid.noSwitch {first : Int → Option Nat} {p : Nat} {is : List SymbolicInstruction}
    {rest : List Nat} (h : Laid first p is rest) (code : List Nat) :
    ∀ fuel, code.drop p = rest → fixupSwitchOffsets code fuel p = .ok () →
      ∀ i ∈ is, isSwitch i.emittedOp = false := by
  -- one round of the walk at an instruction that starts with `u`
  have hround : ∀ (opcode : Opcode) (u fuel p : Nat) (tail : List Nat), code.drop p = u :: tail →
      IsHead opcode u → fixupSwitchOffsets code fuel p = .ok () → isSwitch opcode = false ∧
        ∃ fuel', fixupSwitchOffsets code fuel'
          (p + getWidthFromFormat (getFormatFromOpcode opcode)) = .ok () := by
    intro opcode u fuel p tail hdrop hu hwalk
    have hlt : p < code.length := by
      by_contra hge
      rw [List.drop_eq_nil_of_le (by omega)] at hdrop
      exact absurd hdrop (by simp)
    have hget : code.getD p 0 = u := by
      have h0 : (code.drop p)[0]? = some u := by rw [hdrop]; rfl
      rw [List.getElem?_drop, Nat.add_zero] at h0
      simp [List.getD, h0]
    have hwidth : getWidthFromBytecode (code.drop p)
        = getWidthFromFormat (getFormatFromOpcode opcode) := by
      have hcases : u % 256 ≠ 0 ∨ u = 0 := by
        by_cases hz : opcode.toNat = 0
        · exact .inr (hu.2 hz)
        · exact .inl (by rw [hu.1]; exact hz)
      rw [hdrop, getWidthFromBytecode_insn hcases, isHead_opcode hu]
    cases fuel with
    | zero => exact absurd hwalk (by simp [fixupSwitchOffsets])
    | succ fuel =>
      rw [fixupSwitchOffsets, if_pos hlt, hget, isHead_opcode hu, hwidth] at hwalk
      simp only [bind_ok, check_ok] at hwalk
      obtain ⟨_, hsw, _, _, hnext⟩ := hwalk
      refine ⟨?_, fuel, hnext⟩
      simpa [isSwitch] using hsw
  induction h with
  | nil p => simp
  | label _ ih =>
    intro fuel hdrop hwalk i hi
    rcases List.mem_cons.mp hi with rfl | hi
    · rfl
    · exact ih fuel hdrop hwalk i hi
  | @nop p is rest _ ih =>
    intro fuel hdrop hwalk i hi
    obtain ⟨_, fuel', hnext⟩ := hround OP_NOP 0 fuel p rest hdrop ⟨rfl, fun _ => rfl⟩ hwalk
    rcases List.mem_cons.mp hi with rfl | hi
    · rfl
    · exact ih fuel' (by rw [← List.drop_drop, hdrop]; rfl) hnext i hi
  | @insn p opcode operands units is rest hlen hhead _ _ _ ih =>
    intro fuel hdrop hwalk i hi
    obtain ⟨u, tail, rfl, hu⟩ := hhead
    obtain ⟨hsw, fuel', hnext⟩ := hround _ u fuel p _ hdrop hu hwalk
    rcases List.mem_cons.mp hi with rfl | hi
    · exact hsw
    · exact ih fuel' (by rw [← List.drop_drop, hdrop, ← hlen, List.drop_left]) hnext i hi

theorem size_eq_zero {is : List SymbolicInstruction} (h : size is = 0) :
    ∀ i ∈ is, i.width = 0 := by
  induction is with
  | nil => simp
  | cons i is ih =>
    simp only [size] at h
    intro j hj
    rcases List.mem_cons.mp hj with rfl | hj
    · omega
    · exact ih (by omega) j hj

theorem width_bytecode_pos (opcode : Opcode) (operands : List SymbolicOperand) :
    0 < (SymbolicInstruction.bytecode opcode operands).width := getWidthFromFormat_pos _

/-- The instruction with nothing but labels behind it is the one `AssembleInto` looks at. -/
theorem lastOp_eq {pre post : List SymbolicInstruction} {opcode : Opcode}
    {operands : List SymbolicOperand} (h : size post = 0) :
    lastOp (pre ++ .bytecode opcode operands :: post) = opcode := by
  have hnone : post.reverse.find? SymbolicInstruction.isBytecode = none := by
    rw [List.find?_eq_none]
    intro i hi
    have hw := size_eq_zero h i (List.mem_reverse.mp hi)
    cases i with
    | label l => simp [SymbolicInstruction.isBytecode]
    | nop => simp [SymbolicInstruction.isBytecode]
    | bytecode op ops => exact absurd hw (Nat.ne_of_gt (width_bytecode_pos op ops))
  simp only [lastOp, List.reverse_append, List.reverse_cons, List.append_assoc, List.find?_append,
    hnone, Option.none_or]
  rfl

theorem isTerminal_effOp (opcode : Opcode) : isTerminal (effOp opcode) = isTerminal opcode := by
  by_cases h : opcode = OP_GOTO
  · rw [h]; rfl
  · rw [effOp, if_neg h]

theorem firstPlacement_split {is : List SymbolicInstruction} {p t : Nat} {l : Int}
    (h : firstPlacement p is l = some t) :
    ∃ pre post, is = pre ++ .label l :: post ∧ t = p + size pre := by
  induction is generalizing p with
  | nil => exact absurd h (by simp [firstPlacement])
  | cons i is ih =>
    simp only [firstPlacement] at h
    split at h
    · rename_i hi
      obtain rfl := Option.some.inj h
      cases i with
      | label id =>
        obtain rfl : id = l := by simpa [SymbolicInstruction.places] using hi
        exact ⟨[], is, rfl, rfl⟩
      | nop => exact absurd hi (by simp [SymbolicInstruction.places])
      | bytecode opcode operands => exact absurd hi (by simp [SymbolicInstruction.places])
    · obtain ⟨pre, post, rfl, rfl⟩ := ih h
      exact ⟨i :: pre, post, rfl, by simp only [size]; omega⟩

/-! ## The successors of an instruction of the list -/

/-- The label an instruction may branch to; `fill-array-data` also has a label, but no branch. -/
def SymbolicInstruction.jump (i : SymbolicInstruction) : Option (Int × Bool) :=
  if getFormatFromOpcode i.emittedOp = .k31t then none else i.target

/-- Where a branch at `p` to a label at `t` arrives: a 16-bit branch that is too far behind its
    label goes 65536 units too far forward. -/
def landing (short : Bool) (p t : Nat) : Nat :=
  if short = true ∧ t + 32768 < p then t + 65536 else t

/-- A displacement the emitted instruction has is that of a label. -/
theorem Laid.target_none {first : Int → Option Nat} {is pre post : List SymbolicInstruction}
    {i : SymbolicInstruction} {code : List Nat} (h : Laid first 0 is code)
    (his : is = pre ++ i :: post) (hl : i.target = none) :
    labelIndex (getFormatFromOpcode i.emittedOp) = none := by
  subst his
  obtain ⟨before, code', rfl, _, hrest⟩ := h.split pre
  cases hrest with
  | label _ => rfl
  | nop _ => rfl
  | insn _ _ hnone _ _ => exact hnone hl

theorem target_labelIndex {i : SymbolicInstruction} {l : Int} {short : Bool}
    (h : i.target = some (l, short)) :
    ∃ k, labelIndex (getFormatFromOpcode i.emittedOp) = some (k, short) := by
  obtain ⟨opcode, operands, k, rfl, hk⟩ := exists_of_target h
  exact ⟨k, hk⟩

theorem jump_of_target16 {i : SymbolicInstruction} {l : Int} (h : i.target = some (l, true)) :
    i.jump = some (l, true) := by
  obtain ⟨k, hk⟩ := target_labelIndex h
  rw [SymbolicInstruction.jump, if_neg, h]
  intro hf
  rw [hf] at hk
  exact absurd hk (by simp [labelIndex])

theorem s4_disp {t p : Nat} (ht : t < 2 ^ 31) (hp : p < 2 ^ 31) :
    s4 (u4Sub t p % 65536 + u4Sub t p / 65536 * 65536) = (t : Int) - p := by
  have hd : u4Sub t p = if p ≤ t then t - p else 2 ^ 32 - (p - t) := by
    rw [u4Sub]
    split_ifs <;> omega
  rw [show u4Sub t p % 65536 + u4Sub t p / 65536 * 65536 = u4Sub t p by omega, hd, s4]
  split_ifs <;> omega

theorem mem_successors {code : List Nat} {p : Nat} {q : Int} :
    q ∈ successors code p ↔
      (isTerminal (opAt code p) = false ∧ q = ((p + widthAt code p : Nat) : Int)) ∨
        q ∈ branchTargets code p := by
  rw [successors, List.mem_append]
  refine or_congr ?_ Iff.rfl
  cases isTerminal (opAt code p) <;> simp

section

variable {is pre post : List SymbolicInstruction} {i : SymbolicInstruction} {code : List Nat}

theorem Laid.branchTargets_none (h : Laid (firstPlacement 0 is) 0 is code)
    (his : is = pre ++ i :: post) (hi : 0 < i.width) (hl : i.jump = none) :
    branchTargets code (size pre) = [] := by
  rw [branchTargets, (h.opAt his hi).1]
  rw [SymbolicInstruction.jump] at hl
  split at hl
  · rename_i hf
    rw [hf]
  · have hnone := h.target_none his hl
    revert hnone
    cases getFormatFromOpcode i.emittedOp <;> simp [labelIndex]

theorem Laid.branchTargets_some {l : Int} {short : Bool}
    (h : Laid (firstPlacement 0 is) 0 is code) (hsize : size is < 2 ^ 31)
    (his : is = pre ++ i :: post) (hi : 0 < i.width) (hl : i.jump = some (l, short)) :
    ∃ t, firstPlacement 0 is l = some t ∧
      branchTargets code (size pre) = [(landing short (size pre) t : Int)] := by
  rw [SymbolicInstruction.jump] at hl
  split at hl
  · exact absurd hl (by simp)
  · rename_i hf
    obtain ⟨k, hk⟩ := target_labelIndex hl
    rw [branchTargets, (h.opAt his hi).1]
    cases short with
    | true =>
      -- the low half of the distance is read back as a signed one
      obtain ⟨t, ht, _, _, hdisp⟩ := h.displacement16 hsize his hl
      refine ⟨t, ht, ?_⟩
      have hland : (size pre : Int) + s2 (code.getD (size pre + 1) 0)
          = landing true (size pre) t := by
        rw [hdisp, landing]
        by_cases hnear : size pre ≤ t + 32768
        · rw [if_pos hnear, if_neg (by omega)]
          omega
        · rw [if_neg hnear, if_pos ⟨rfl, by omega⟩]
          omega
      rw [hland]
      revert hk
      cases getFormatFromOpcode i.emittedOp <;> simp [labelIndex]
    | false =>
      obtain ⟨t, units, before, rest, ht, ⟨u, rfl⟩, rfl, hlen⟩ := h.branch his hl
      refine ⟨t, ht, ?_⟩
      have htle := firstPlacement_bounds ht
      have hpre := size_split his
      have hland : (size pre : Int)
          + s4 (u4Sub t (size pre) % 65536 + u4Sub t (size pre) / 65536 * 65536)
            = landing false (size pre) t := by
        rw [s4_disp (by omega) (by omega), landing, if_neg (by simp)]
        omega
      have hlow : (before ++ ([u, u4Sub t (size pre) % 65536, u4Sub t (size pre) / 65536]
          ++ rest)).getD (size pre + 1) 0 = u4Sub t (size pre) % 65536 := by
        rw [← hlen]
        simp
      have hhigh : (before ++ ([u, u4Sub t (size pre) % 65536, u4Sub t (size pre) / 65536]
          ++ rest)).getD (size pre + 2) 0 = u4Sub t (size pre) / 65536 := by
        rw [← hlen]
        simp
      rw [hlow, hhigh, hland]
      revert hk hf
      cases getFormatFromOpcode i.emittedOp <;> simp [labelIndex]

end

/-! ## When the code is left -/

/-- The list keeps control inside: no nop is the last instruction, no branch names a label first
    placed behind the last instruction, and a 16-bit branch that is too far behind its label still
    meets an instruction. -/
structure KeepsInside (is : List SymbolicInstruction) : Prop where
  nops : ∀ pre post, is = pre ++ .nop :: post → 0 < size post
  labels : ∀ pre i post l short t, is = pre ++ i :: post → i.jump = some (l, short) →
    firstPlacement 0 is l = some t → t < size is
  cut : ∀ pre i post l t, is = pre ++ i :: post → i.target = some (l, true) →
    firstPlacement 0 is l = some t → t + 32768 < size pre →
    ∃ pre' post', is = pre' ++ post' ∧ 0 < size post' ∧ size pre' = t + 65536

theorem width_of_jump {i : SymbolicInstruction} {ls : Int × Bool} (h : i.jump = some ls) :
    0 < i.width := by
  cases i with
  | label l => exact absurd h (by simp [SymbolicInstruction.jump, SymbolicInstruction.target])
  | nop => exact absurd h (by simp [SymbolicInstruction.jump, SymbolicInstruction.target])
  | bytecode opcode operands => exact width_bytecode_pos opcode operands

theorem Laid.keepsInside {is : List SymbolicInstruction} {code : List Nat}
    (h : Laid (firstPlacement 0 is) 0 is code) (hsize : size is < 2 ^ 31)
    (hflow : FlowsInside code) : KeepsInside is := by
  -- where an instruction of the list may go, the code has an instruction
  have hinside : ∀ pre i post, is = pre ++ i :: post → 0 < i.width → ∀ q : Nat,
      (q : Int) ∈ successors code (size pre) → q < size is ∧ Start code q := by
    intro pre i post his hi q hq
    have hstart := h.start_of_split pre (i :: post) his (by simp only [size]; omega)
    obtain ⟨n, hn, hlt, hs⟩ := (hflow _ hstart).2 q hq
    obtain rfl : q = n := by exact_mod_cast hn
    exact ⟨by rwa [h.length] at hlt, hs⟩
  have hjump : ∀ pre i post l short t, is = pre ++ i :: post → i.jump = some (l, short) →
      firstPlacement 0 is l = some t →
      landing short (size pre) t < size is ∧ Start code (landing short (size pre) t) := by
    intro pre i post l short t his hl ht
    have hi := width_of_jump hl
    obtain ⟨t', ht', htargets⟩ := h.branchTargets_some hsize his hi hl
    obtain rfl := Option.some.inj (ht.symm.trans ht')
    exact hinside pre i post his hi _ (mem_successors.mpr (.inr (by simp [htargets])))
  refine ⟨?_, ?_, ?_⟩
  · intro pre post his
    have hi : 0 < SymbolicInstruction.nop.width := Nat.one_pos
    obtain ⟨hop, hw⟩ := h.opAt his hi
    have hfall : ((size pre + 1 : Nat) : Int) ∈ successors code (size pre) :=
      mem_successors.mpr (.inl ⟨by rw [hop]; rfl, by rw [hw]; rfl⟩)
    have hlt := (hinside pre .nop post his hi _ hfall).1
    have := size_split his
    simp only [SymbolicInstruction.width] at this
    omega
  · intro pre i post l short t his hl ht
    have hlt := (hjump pre i post l short t his hl ht).1
    rw [landing] at hlt
    split at hlt <;> omega
  · intro pre i post l t his hl ht hfar
    have hs := (hjump pre i post l true t his (jump_of_target16 hl) ht).2
    rw [landing, if_pos ⟨rfl, hfar⟩] at hs
    obtain ⟨pre', j, post', his', hj, hpos⟩ := h.split_of_start hs
    exact ⟨pre', j :: post', his', by simp only [size]; omega, hpos⟩

theorem Laid.flowsInside {is : List SymbolicInstruction} {code : List Nat}
    (h : Laid (firstPlacement 0 is) 0 is code) (hsize : size is < 2 ^ 31)
    (hlast : isTerminal (lastOp is) = true)
    (hwalk : fixupSwitchOffsets code (code.length + 1) 0 = .ok ()) (hk : KeepsInside is) :
    FlowsInside code := by
  have hin : ∀ pre post, is = pre ++ post → 0 < size post →
      ∃ n : Nat, (size pre : Int) = n ∧ n < code.length ∧ Start code n := by
    intro pre post his hpost
    refine ⟨size pre, rfl, ?_, h.start_of_split pre post his hpost⟩
    rw [h.length, his, size_append]
    omega
  intro p hp
  obtain ⟨pre, i, post, his, hi, rfl⟩ := h.split_of_start hp
  obtain ⟨hop, hw⟩ := h.opAt his hi
  refine ⟨?_, ?_⟩
  · rw [hop]
    exact h.noSwitch code _ rfl hwalk i (by simp [his])
  · intro q hq
    rcases mem_successors.mp hq with ⟨hterm, rfl⟩ | hq
    · -- the next instruction: the writer has checked that the last one does not fall through
      have hpost : 0 < size post := by
        cases i with
        | label l => exact absurd hi (by simp [SymbolicInstruction.width])
        | nop => exact hk.nops pre post his
        | bytecode opcode operands =>
          by_contra hz
          rw [his, lastOp_eq (by omega), ← isTerminal_effOp] at hlast
          rw [hop, SymbolicInstruction.emittedOp, hlast] at hterm
          exact absurd hterm (by simp)
      obtain ⟨n, hn, hlt, hs⟩ := hin (pre ++ [i]) post (by simp [his]) hpost
      refine ⟨n, ?_, hlt, hs⟩
      rw [← hn, hw, size_append]
      simp [size]
    · -- a branch: to its label, or 65536 units behind it
      cases hl : i.jump with
      | none =>
        rw [h.branchTargets_none his hi hl] at hq
        exact absurd hq (by simp)
      | some ls =>
        obtain ⟨l, short⟩ := ls
        obtain ⟨t, ht, htargets⟩ := h.branchTargets_some hsize his hi hl
        rw [htargets, List.mem_singleton] at hq
        subst hq
        rw [landing]
        split
        · rename_i hfar
          obtain ⟨rfl, hfar⟩ := hfar
          have htarget : i.target = some (l, true) := by
            rw [SymbolicInstruction.jump] at hl
            split at hl
            · exact absurd hl (by simp)
            · exact hl
          obtain ⟨pre', post', his', hpost', hpos⟩ := hk.cut pre i post l t his htarget ht hfar
          rw [← hpos]
          exact hin pre' post' his' hpost'
        · have hlt := hk.labels pre i post l short t his hl ht
          obtain ⟨pre', post', his', hpos⟩ := firstPlacement_split ht
          have hsplit := size_split his'
          rw [Nat.zero_add] at hpos
          rw [hpos]
          refine hin pre' (.label l :: post') his' ?_
          simp only [size]
          omega

/-- An accepted list whose code has fewer than `2 ^ 31` units: control stays inside the code exactly
    when the list keeps it inside. -/
theorem flowsInside_iff {ctx : SymbolicOperand → Nat} {w : Writer} {out : Assembled}
    (h : assembleInto ctx w = .ok out) (hsize : size w.instructions < 2 ^ 31) :
    FlowsInside out.code ↔ KeepsInside w.instructions := by
  obtain ⟨hlaid, hlast, hwalk⟩ := assembleInto_laid h hsize
  exact ⟨hlaid.keepsInside hsize, hlaid.flowsInside hsize hlast hwalk⟩

theorem flowsInside_countLoop :
    FlowsInside [0x0012, 0x1035, 0x0006, 0x00d8, 0x0100, 0x0029, 0xfffc, 0x000f] ↔
      KeepsInside countLoop.instructions :=
  flowsInside_iff (show assembleInto (fun _ => 0) countLoop = .ok ⟨_, 0⟩ from rfl) (by decide)

/-- A branch over the last return to a nop. -/
def overReturn : Writer where
  registers := 1
  instructions :=
    [.bytecode OP_GOTO [.labelTarget 1], .bytecode OP_RETURN_VOID [], .label 1, .nop]

/-- It is accepted, and control runs past the nop. -/
theorem overReturn_leaves :
    assembleInto (fun _ => 0) overReturn = .ok ⟨[0x29, 3, 0x0e, 0], 0⟩ ∧
      ¬ FlowsInside [0x29, 3, 0x0e, 0] := by
  refine ⟨by decide, fun hflow => ?_⟩
  have hgoto : Start [0x29, 3, 0x0e, 0] 0 := .zero (by decide)
  obtain ⟨n, hn, _, hnop⟩ := (hflow 0 hgoto).2 3 (by decide)
  obtain rfl : n = 3 := by exact_mod_cast hn.symm
  obtain ⟨n, hn, hlt, -⟩ := (hflow 3 hnop).2 4 (by decide)
  obtain rfl : n = 4 := by exact_mod_cast hn.symm
  exact absurd hlt (by decide)

end ArtPi.Dex
