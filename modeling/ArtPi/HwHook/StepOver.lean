import ArtPi.HwHook.Armed
import ArtPi.Lib.Arm64Branch
import Mathlib.Data.Nat.Bitwise

set_option autoImplicit false

/-! # Where a breakpoint steps over to (`engine/native/hooker/pi_hw_hook.cpp`, `HandleException`)

A recurring breakpoint is taken off its thread for one instruction and a trap is planted behind it. `HandleException`
looks at the instruction for that: it knows B, BL, BR, BLR and RET, and takes the return address of RET from `lr`. The
other branches are not decoded, so that the trap of a B.cond that is taken is where the thread does not come by. -/

namespace ArtPi.HwHook

open ArtPi.Lib ArtPi.Lib.Arm64Branch HwHookManager

/-- The part of `GumArm64CpuContext` that the targets of branches are in. -/
def contextOf (regs : Arm64Branch.Registers) : CpuContext where
  lr := (regs.x 30).toNat
  fp := (regs.x 29).toNat
  x := fun i => (regs.x (BitVec.ofNat 5 i)).toNat

/-- `cur_pc`. -/
def Flight.curPc (flight : Flight) : Nat := if flight.faultAddr ≥ 0x1000 then flight.faultAddr else flight.pcAddr

/-- The call of `HandleException` that goes on is one for an active recurring breakpoint, whose instruction is at `pc`,
and a slot is free to step over with. -/
structure AtBreakpoint (m : HwHookManager) (i : Nat) (flight : Flight) (s : HwHookSession) (slot : Nat)
    (pc : BitVec 64) : Prop where
  flight_eq : m.inFlight[i]? = some flight
  recurring : flight.once = false
  session_eq : m.sessions.find? (fun s => s.ref = flight.ref) = some s
  active : s.active = true
  type_eq : s.config.type = .breakpoint
  slot_eq : m.stepSlot s = some slot
  pc_eq : flight.curPc = pc.toNat

theorem AtBreakpoint.planted {m : HwHookManager} {i slot : Nat} {flight : Flight} {s : HwHookSession}
    {pc : BitVec 64} (h : AtBreakpoint m i flight s slot pc) (hw : Registers) (insn : Nat) (ctx : CpuContext) :
    hw.leave m i insn ctx flight.tid.val (.breakpoint, slot) = some ⟨nextPc pc.toNat insn ctx, true⟩ := by
  have hpc : s.stepPc flight insn ctx = nextPc pc.toNat insn ctx := by
    unfold HwHookSession.stepPc
    rw [h.type_eq, ← h.pc_eq]
    rfl
  unfold Registers.leave
  simp only [h.flight_eq, h.recurring, h.session_eq, h.active, h.slot_eq, hpc]
  exact if_pos ⟨List.mem_singleton_self _, rfl⟩

/-! ## The decoder -/

theorem and_toNat_iff (w mask value : BitVec 32) : w.toNat &&& mask.toNat = value.toNat ↔ w &&& mask = value := by
  rw [← BitVec.toNat_inj, BitVec.toNat_and]

theorem field_toNat (w : BitVec 32) : (w.toNat >>> 5) &&& 0x1f = (w.extractLsb' 5 5).toNat := by
  rw [BitVec.extractLsb'_toNat]
  exact Nat.and_two_pow_sub_one_eq_mod _ 5

/-- The shift and the sign extension of `imm26`. -/
theorem offset_toNat (pc : BitVec 64) (w : BitVec 32) :
    (pc.toNat + (if (w.toNat &&& 0x03ffffff) &&& 0x02000000 ≠ 0 then 2 ^ 64 - (2 ^ 26 - (w.toNat &&& 0x03ffffff)) * 4
      else (w.toNat &&& 0x03ffffff) * 4)) % 2 ^ 64 = (Branch.relative pc (w.extractLsb' 0 26)).toNat := by
  have hfield : w.toNat &&& 0x03ffffff = (w.extractLsb' 0 26).toNat := by
    rw [BitVec.extractLsb'_toNat]
    exact Nat.and_two_pow_sub_one_eq_mod _ 26
  rw [hfield]
  generalize w.extractLsb' 0 26 = imm26
  have hsign : imm26.toNat &&& 0x02000000 ≠ 0 ↔ imm26.msb = true := by
    have hand : imm26.toNat &&& 0x02000000 = (imm26.toNat.testBit 25).toNat * 2 ^ 25 := Nat.and_two_pow _ 25
    rw [hand, BitVec.msb_eq_getLsbD_last]
    show _ ↔ imm26.toNat.testBit 25 = true
    cases imm26.toNat.testBit 25 <;> simp
  have hlt := imm26.isLt
  unfold Branch.relative
  rw [BitVec.toNat_add, BitVec.toNat_ofInt, BitVec.toInt_eq_msb_cond]
  by_cases hmsb : imm26.msb = true
  · have hge := BitVec.msb_eq_true_iff_two_mul_ge.1 hmsb
    rw [if_pos (hsign.2 hmsb), if_pos hmsb]
    omega
  · rw [if_neg (mt hsign.1 hmsb), if_neg hmsb]
    omega

/-- The code knows where the branch goes, the register of RET apart. -/
def Known : Branch → Bool
  | .ret _ | .imm _ => true
  | .reg rn => rn ≠ 31
  | .cond .. | .compare .. | .test .. => false

/-- What `HandleException` takes for the target of a branch it knows. -/
def knownTarget (regs : Arm64Branch.Registers) (pc : BitVec 64) : Branch → BitVec 64
  | .ret _ => regs.x 30
  | b => b.target regs pc

/-- `x[29]`, `fp` and `lr` are the registers of BR and BLR. -/
theorem register_toNat (regs : Arm64Branch.Registers) (pc : BitVec 64) (rn : BitVec 5) :
    (if rn.toNat < 29 then (contextOf regs).x rn.toNat else if rn.toNat = 29 then (contextOf regs).fp
      else if rn.toNat = 30 then (contextOf regs).lr else (pc + 4).toNat) =
    if Known (.reg rn) then (knownTarget regs pc (.reg rn)).toNat else (pc + 4).toNat := by
  have hlt := rn.isLt
  by_cases h31 : rn = 31
  · subst h31
    rfl
  · have hne : rn.toNat ≠ 31 := fun h => h31 (BitVec.toNat_inj.1 h)
    have hreg : knownTarget regs pc (.reg rn) = regs.x rn := if_neg h31
    have hknown : Known (.reg rn) = true := decide_eq_true h31
    rw [if_pos hknown, hreg]
    by_cases h29 : rn.toNat < 29
    · rw [if_pos h29]
      show (regs.x (BitVec.ofNat 5 rn.toNat)).toNat = _
      rw [BitVec.ofNat_toNat, BitVec.setWidth_eq]
    · rw [if_neg h29]
      by_cases hfp : rn.toNat = 29
      · rw [if_pos hfp, (BitVec.toNat_inj.1 hfp : rn = 29)]
        rfl
      · have hlr : rn.toNat = 30 := by omega
        rw [if_neg hfp, if_pos hlr, (BitVec.toNat_inj.1 hlr : rn = 30)]
        rfl

theorem nextPc_eq (regs : Arm64Branch.Registers) {pc : BitVec 64} (hpc : 0x1000 ≤ pc.toNat) (w : BitVec 32) :
    nextPc pc.toNat w.toNat (contextOf regs) =
      match decode w with
      | none => (pc + 4).toNat
      | some b => if Known b then (knownTarget regs pc b).toNat else (pc + 4).toNat := by
  have hret : w.toNat &&& 0xfffffc1f = 0xd65f0000 ↔ w &&& 0xfffffc1f = 0xd65f0000 :=
    and_toNat_iff w 0xfffffc1f 0xd65f0000
  have himm : w.toNat &&& 0x7c000000 = 0x14000000 ↔ w &&& 0x7c000000 = 0x14000000 :=
    and_toNat_iff w 0x7c000000 0x14000000
  have hbr : w.toNat &&& 0xfffffc1f = 0xd61f0000 ↔ w &&& 0xfffffc1f = 0xd61f0000 :=
    and_toNat_iff w 0xfffffc1f 0xd61f0000
  have hblr : w.toNat &&& 0xfffffc1f = 0xd63f0000 ↔ w &&& 0xfffffc1f = 0xd63f0000 :=
    and_toNat_iff w 0xfffffc1f 0xd63f0000
  have hnext : (pc.toNat + 4) % 2 ^ 64 = (pc + 4).toNat := (BitVec.toNat_add pc 4).symm
  unfold nextPc decode
  rw [if_neg (Nat.not_lt.2 hpc)]
  simp only [hret, himm, hbr, hblr, hnext, field_toNat]
  by_cases hr : w &&& 0xfffffc1f = 0xd65f0000
  · rw [if_pos hr, if_pos hr]
    rfl
  · rw [if_neg hr, if_neg hr]
    by_cases hi : w &&& 0x7c000000 = 0x14000000
    · rw [if_pos hi, if_pos hi]
      exact offset_toNat pc w
    · rw [if_neg hi, if_neg hi]
      by_cases hb : w &&& 0xfffffc1f = 0xd61f0000 ∨ w &&& 0xfffffc1f = 0xd63f0000
      · rw [if_pos hb, if_pos hb]
        exact register_toNat regs pc (w.extractLsb' 5 5)
      · rw [if_neg hb, if_neg hb]
        split_ifs <;> rfl

/-! ## The trap and the successor -/

/-- The code knows the branch and takes its target from where it is; or the thread goes on to the next instruction,
which is what the code takes for the successor of everything else, and of everything below 0x1000. -/
def Followed (regs : Arm64Branch.Registers) (pc : BitVec 64) (w : BitVec 32) : Prop :=
  ∀ b, decode w = some b →
    if 0x1000 ≤ pc.toNat ∧ Known b = true then ∀ rn, b = .ret rn → regs.reg rn = regs.x 30
    else b.GoesOn regs pc

theorem knownTarget_eq_iff {regs : Arm64Branch.Registers} {pc : BitVec 64} {w : BitVec 32} {b : Branch}
    (hb : decode w = some b) (hknown : Known b = true) :
    knownTarget regs pc b = successor regs pc w ↔ ∀ rn, b = .ret rn → regs.reg rn = regs.x 30 := by
  cases b with
  | ret rn =>
    rw [successor_of_taken hb rfl]
    constructor
    · intro h rn' heq
      obtain rfl : rn = rn' := Branch.ret.inj heq
      exact h.symm
    · exact fun h => (h rn rfl).symm
  | imm imm26 =>
    rw [successor_of_taken hb rfl]
    exact iff_of_true rfl (fun _ heq => Branch.noConfusion heq)
  | reg rn =>
    rw [successor_of_taken hb rfl]
    exact iff_of_true rfl (fun _ heq => Branch.noConfusion heq)
  | cond | compare | test => exact absurd hknown Bool.false_ne_true

theorem nextPc_eq_successor_iff (regs : Arm64Branch.Registers) (pc : BitVec 64) (w : BitVec 32) :
    nextPc pc.toNat w.toNat (contextOf regs) = (successor regs pc w).toNat ↔ Followed regs pc w := by
  have hnext : (pc.toNat + 4) % 2 ^ 64 = (pc + 4).toNat := (BitVec.toNat_add pc 4).symm
  unfold Followed
  cases hdec : decode w with
  | none =>
    have hplain : nextPc pc.toNat w.toNat (contextOf regs) = (pc + 4).toNat := by
      by_cases hpc : 0x1000 ≤ pc.toNat
      · rw [nextPc_eq regs hpc, hdec]
      · rw [nextPc, if_pos (Nat.lt_of_not_le hpc), hnext]
    rw [hplain, successor_of_none hdec]
    exact iff_of_true rfl (fun b hb => absurd hb (Option.some_ne_none b).symm)
  | some b =>
    have hone : (∀ b', some b = some b' →
        if 0x1000 ≤ pc.toNat ∧ Known b' = true then ∀ rn, b' = .ret rn → regs.reg rn = regs.x 30
        else b'.GoesOn regs pc) ↔
        if 0x1000 ≤ pc.toNat ∧ Known b = true then ∀ rn, b = .ret rn → regs.reg rn = regs.x 30
        else b.GoesOn regs pc := by
      simp
    rw [hone]
    by_cases hpc : 0x1000 ≤ pc.toNat
    · rw [nextPc_eq regs hpc, hdec]
      by_cases hknown : Known b = true
      · rw [if_pos ⟨hpc, hknown⟩]
        simp only [hknown, if_true]
        rw [BitVec.toNat_inj]
        exact knownTarget_eq_iff hdec hknown
      · rw [if_neg (fun h => hknown h.2)]
        simp only [hknown]
        rw [if_neg Bool.false_ne_true, BitVec.toNat_inj]
        exact successor_eq_next_iff hdec
    · rw [if_neg (fun h => hpc h.1), nextPc, if_pos (Nat.lt_of_not_le hpc), hnext, BitVec.toNat_inj]
      exact successor_eq_next_iff hdec

/-- The trap is at the instruction that the thread comes to next if and only if that instruction is found so. -/
theorem trap_at_successor_iff (hw : Registers) {m : HwHookManager} {i slot : Nat} {flight : Flight}
    {s : HwHookSession} {pc : BitVec 64} (h : AtBreakpoint m i flight s slot pc) (regs : Arm64Branch.Registers)
    (w : BitVec 32) :
    hw.leave m i w.toNat (contextOf regs) flight.tid.val (.breakpoint, slot) =
      some ⟨(successor regs pc w).toNat, true⟩ ↔ Followed regs pc w := by
  rw [h.planted, ← nextPc_eq_successor_iff]
  simp

/-- A breakpoint at 0x4000. -/
def session4000 : HwHookSession where
  ref := 0
  id := 1
  config := { type := .breakpoint, address := 0x4000 }
  assignedSlot := 0
  armedThreads := [21]

/-- Thread 21 has come by. -/
def flight4000 : Flight where
  ref := 0
  once := false
  tid := ⟨21, by decide⟩
  faultAddr := 0x4000
  pcAddr := 0x4000

def stoppedAt4000 : HwHookManager :=
  run step {} [.attach session4000.config [21] [21], .enter ⟨21, by decide⟩ 0x4000 0x4000 0]

theorem stoppedAt4000_atBreakpoint : AtBreakpoint stoppedAt4000 0 flight4000 session4000 1 0x4000 :=
  ⟨rfl, rfl, rfl, rfl, rfl, by decide, rfl⟩

/-- Two numbers have been found equal. -/
def equalRegs : Arm64Branch.Registers := { x := fun _ => 0, n := false, z := true, c := true, v := false }

/-- `bl` to the instruction before. -/
theorem trap_at_successor_bl :
    Registers.leave (fun _ _ => none) stoppedAt4000 0 0x97ffffff (contextOf equalRegs) 21 (.breakpoint, 1) =
      some ⟨0x3ffc, true⟩ := by
  have hfollowed : Followed equalRegs 0x4000 0x97ffffff := by
    intro b hb
    obtain rfl : .imm 0x3ffffff = b := Option.some.inj hb
    exact fun _ heq => Branch.noConfusion heq
  exact (trap_at_successor_iff _ stoppedAt4000_atBreakpoint equalRegs 0x97ffffff).2 hfollowed

/-- `b.eq` over one instruction, taken: the trap is behind the branch, where the thread does not come by. -/
theorem trap_behind_taken_branch :
    Registers.leave (fun _ _ => none) stoppedAt4000 0 0x54000040 (contextOf equalRegs) 21 (.breakpoint, 1) =
      some ⟨0x4004, true⟩ ∧
    successor equalRegs 0x4000 0x54000040 = 0x4008 ∧
    Registers.leave (fun _ _ => none) stoppedAt4000 0 0x54000040 (contextOf equalRegs) 21 (.breakpoint, 1) ≠
      some ⟨(successor equalRegs 0x4000 0x54000040).toNat, true⟩ := by
  decide

end ArtPi.HwHook
