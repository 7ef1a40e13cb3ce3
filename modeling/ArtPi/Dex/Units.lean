import ArtPi.Dex.Flow
import ArtPi.Interp.Constants

set_option autoImplicit false

/-! # The units of an instruction

`Units op fmt operands units` spells out, format by format, how the operands of an instruction lie in its
units. `units_of_accepted` says that every instruction of an accepted list stands in the code in this way, at its
position, a branch with the displacement to the first placement of its label. Whoever reads the code takes
this as the description of it, and does not look into the encoder again. -/

namespace ArtPi.Dex

open Interp.Constants

/-- The operands in the units, behind the opcode in the low byte of the first one. The units of a displacement
    are left open. -/
inductive Units (op : Nat) : Format → List Operand → List Nat → Prop where
  | k10x : Units op .k10x [] [op]
  | k12x {a b : Nat} : a < 16 → b < 16 → Units op .k12x [.vreg a, .vreg b] [b * 4096 + a * 256 + op]
  | k22x {a b : Nat} : a < 256 → b < 65536 → Units op .k22x [.vreg a, .vreg b] [a * 256 + op, b]
  | k32x {a b : Nat} : a < 65536 → b < 65536 → Units op .k32x [.vreg a, .vreg b] [op, a, b]
  | k11n {a b c : Nat} : a < 16 → b < 16 → c = (if b < 8 then b else b + (2 ^ 32 - 16)) →
      Units op .k11n [.vreg a, .const32 c] [b * 4096 + a * 256 + op]
  | k21s {a b c : Nat} : a < 256 → b < 65536 → c = (if b < 32768 then b else b + (2 ^ 32 - 65536)) →
      Units op .k21s [.vreg a, .const32 c] [a * 256 + op, b]
  | k11x {a : Nat} : a < 256 → Units op .k11x [.vreg a] [a * 256 + op]
  | k31i {a c : Nat} : a < 256 → c < 2 ^ 32 →
      Units op .k31i [.vreg a, .const32 c] [a * 256 + op, c % 65536, c / 65536]
  | k20t {l : Int} (d : Nat) : Units op .k20t [.codeLocation l] [op, d]
  | k30t {l : Int} (d e : Nat) : Units op .k30t [.codeLocation l] [op, d, e]
  | k21t {a : Nat} {l : Int} (d : Nat) : a < 256 → Units op .k21t [.vreg a, .codeLocation l] [a * 256 + op, d]
  | k22t {a b : Nat} {l : Int} (d : Nat) : a < 16 → b < 16 →
      Units op .k22t [.vreg a, .vreg b, .codeLocation l] [b * 4096 + a * 256 + op, d]
  | k31t {a : Nat} {l : Int} (d e : Nat) : a < 256 →
      Units op .k31t [.vreg a, .codeLocation l] [a * 256 + op, d, e]
  | k23x {a b c : Nat} : a < 256 → b < 256 → c < 256 →
      Units op .k23x [.vreg a, .vreg b, .vreg c] [a * 256 + op, c * 256 + b]
  | k22b {a b d c : Nat} : a < 256 → b < 256 → d < 256 → c = (if d < 128 then d else d + (2 ^ 32 - 256)) →
      Units op .k22b [.vreg a, .vreg b, .const32 c] [a * 256 + op, d * 256 + b]
  | k22s {a b d c : Nat} : a < 16 → b < 16 → d < 65536 → c = (if d < 32768 then d else d + (2 ^ 32 - 65536)) →
      Units op .k22s [.vreg a, .vreg b, .const32 c] [b * 4096 + a * 256 + op, d]
  | k22c {a b i : Nat} : a < 16 → b < 16 → i < 65536 →
      Units op .k22c [.vreg a, .vreg b, .indexed i] [b * 4096 + a * 256 + op, i]
  | k21c {a i : Nat} : a < 256 → i < 65536 → Units op .k21c [.vreg a, .indexed i] [a * 256 + op, i]
  | k31c {a i : Nat} : a < 256 → i < 2 ^ 32 →
      Units op .k31c [.vreg a, .indexed i] [a * 256 + op, i % 65536, i / 65536]
  | k35c {regs : List Nat} {i : Nat} : regs.length < 16 → (∀ r ∈ regs.take 5, r < 16) → i < 65536 →
      Units op .k35c [.vregList regs, .indexed i]
        [regs.length * 4096 + regs.getD 4 0 * 256 + op, i,
          regs.getD 3 0 * 4096 + regs.getD 2 0 * 256 + regs.getD 1 0 * 16 + regs.getD 0 0]
  | k45cc {regs : List Nat} {i h : Nat} : regs.length < 16 → (∀ r ∈ regs.take 5, r < 16) → i < 65536 →
      h < 65536 →
      Units op .k45cc [.vregList regs, .indexed i, .indexed h]
        [regs.length * 4096 + regs.getD 4 0 * 256 + op, i,
          regs.getD 3 0 * 4096 + regs.getD 2 0 * 256 + regs.getD 1 0 * 16 + regs.getD 0 0, h]
  | k21h {a c : Nat} : a < 256 → c < 2 ^ 32 → Units op .k21h [.vreg a, .const32 c] [a * 256 + op, c / 65536]

/-! ## From the encoder -/

theorem packZ8_fields {a u : Nat} (h : packZ8 a = .ok u) : a < 256 ∧ u = a := by
  simp only [packZ8, bind_ok, pure_ok, check_ok, decide_eq_true_eq, and_0xff] at h
  obtain ⟨_, ha, rfl⟩ := h
  exact ⟨ha, rfl⟩

theorem pack16_fields {a u : Nat} (h : pack16 a = .ok u) : a < 65536 ∧ u = a := by
  simp only [pack16, bind_ok, pure_ok, check_ok, decide_eq_true_eq,
    show ∀ n, n &&& 0xffff = n ↔ n < 65536 from fun n => and_mask_eq n 16] at h
  obtain ⟨_, ha, rfl⟩ := h
  exact ⟨ha, rfl⟩

theorem pack4444_fields {a b c d u : Nat} (h : pack4444 a b c d = .ok u) :
    a < 16 ∧ b < 16 ∧ c < 16 ∧ d < 16 ∧ u = a * 4096 + b * 256 + c * 16 + d := by
  simp only [pack4444, bind_ok, pure_ok, check_ok, decide_eq_true_eq,
    show ∀ n, n &&& 0xf = n ↔ n < 16 from fun n => and_mask_eq n 4] at h
  obtain ⟨_, ha, _, hb, _, hc, _, hd, rfl⟩ := h
  refine ⟨ha, hb, hc, hd, ?_⟩
  have hab : a <<< 12 ||| b <<< 8 = (a <<< 4 ||| b) <<< 8 := by
    rw [Nat.shiftLeft_or_distrib, ← Nat.shiftLeft_add]
  have habc : (a <<< 4 ||| b) <<< 8 ||| c <<< 4 = ((a <<< 4 ||| b) <<< 4 ||| c) <<< 4 := by
    conv_rhs => rw [Nat.shiftLeft_or_distrib, ← Nat.shiftLeft_add]
  rw [hab, habc, ← Nat.shiftLeft_add_eq_or_of_lt (i := 4) hd, ← Nat.shiftLeft_add_eq_or_of_lt (i := 4) hc,
    ← Nat.shiftLeft_add_eq_or_of_lt (i := 4) hb, Nat.shiftLeft_eq, Nat.shiftLeft_eq, Nat.shiftLeft_eq]
  omega

theorem getReg_ok {wide : Bool} {operands : List Operand} {i r : Nat} (h : getReg wide operands i = .ok r) :
    operands[i]? = some (.vreg r) := by
  unfold getReg at h
  split at h
  · next reg hreg => rw [hreg, Except.ok.inj h]
  · exact absurd h (by simp)

theorem castConst32_ok {operands : List Operand} {i v : Nat} (h : castConst32 operands i = .ok v) :
    operands[i]? = some (.const32 v) := by
  unfold castConst32 at h
  split at h
  · next c hc => rw [hc, Except.ok.inj h]
  · exact absurd h (by simp)

theorem castIndexed_ok {operands : List Operand} {i v : Nat} (h : castIndexed operands i = .ok v) :
    operands[i]? = some (.indexed v) := by
  unfold castIndexed at h
  split at h
  · next c hc => rw [hc, Except.ok.inj h]
  · exact absurd h (by simp)

theorem castVRegList_ok {operands : List Operand} {i : Nat} {regs : List Nat}
    (h : castVRegList operands i = .ok regs) : operands[i]? = some (.vregList regs) := by
  unfold castVRegList at h
  split at h
  · next c hc => rw [hc, Except.ok.inj h]
  · exact absurd h (by simp)

theorem eq_one {α : Type} {xs : List α} {x : α} (h : xs.length = 1) (h0 : xs[0]? = some x) : xs = [x] := by
  obtain ⟨y, rfl⟩ := List.length_eq_one_iff.1 h
  rw [Option.some.inj h0]

theorem eq_two {α : Type} {xs : List α} {x y : α} (h : xs.length = 2) (h0 : xs[0]? = some x)
    (h1 : xs[1]? = some y) : xs = [x, y] := by
  obtain ⟨a, b, rfl⟩ := List.length_eq_two.1 h
  rw [Option.some.inj h0, Option.some.inj h1]

theorem eq_three {α : Type} {xs : List α} {x y z : α} (h : xs.length = 3) (h0 : xs[0]? = some x)
    (h1 : xs[1]? = some y) (h2 : xs[2]? = some z) : xs = [x, y, z] := by
  obtain ⟨a, b, c, rfl⟩ := List.length_eq_three.1 h
  rw [Option.some.inj h0, Option.some.inj h1, Option.some.inj h2]

theorem take_lt_of_getD {regs : List Nat} (h : ∀ k < 5, regs.getD k 0 < 16) : ∀ r ∈ regs.take 5, r < 16 := by
  intro r hr
  obtain ⟨k, hk, rfl⟩ := List.mem_iff_getElem.1 hr
  rw [List.length_take] at hk
  have hlt := h k (by omega)
  rwa [List.getD_eq_getElem _ _ (by omega), ← List.getElem_take (h := by rw [List.length_take]; omega)] at hlt

theorem units_regs {op : Nat} {regs : List Nat} {u u' : Nat} (h0 : pack448 regs.length (regs.getD 4 0) op = .ok u)
    (h2 : pack4444 (regs.getD 3 0) (regs.getD 2 0) (regs.getD 1 0) (regs.getD 0 0) = .ok u') :
    regs.length < 16 ∧ (∀ r ∈ regs.take 5, r < 16) ∧ u = regs.length * 4096 + regs.getD 4 0 * 256 + op ∧
      u' = regs.getD 3 0 * 4096 + regs.getD 2 0 * 256 + regs.getD 1 0 * 16 + regs.getD 0 0 := by
  obtain ⟨hn, hg, -, hu⟩ := pack448_fields h0
  obtain ⟨hf, he, hd, hc, hu'⟩ := pack4444_fields h2
  refine ⟨hn, take_lt_of_getD fun k hk => ?_, hu, hu'⟩
  match k, hk with
  | 0, _ => exact hc
  | 1, _ => exact hd
  | 2, _ => exact he
  | 3, _ => exact hf
  | 4, _ => exact hg

section

variable {known : Int → Option Nat} {offset : Nat} {opcode : Opcode} {operands : List Operand} {enc : Encoded}

theorem encodeInsn_units (h : encodeInsn known offset opcode operands = .ok enc) :
    Units opcode.toNat (getFormatFromOpcode opcode) operands enc.units := by
  simp only [encodeInsn] at h
  cases hf : getFormatFromOpcode opcode <;>
    simp only [hf, bind_ok, pure_ok, check_ok, decide_eq_true_eq, reduceCtorEq] at h
  case k10x =>
    obtain ⟨_, hlen, u0, h0, rfl⟩ := h
    obtain ⟨-, rfl⟩ := packZ8_fields h0
    rw [List.eq_nil_of_length_eq_zero hlen]
    exact .k10x
  case k12x =>
    obtain ⟨_, hlen, vA, hA, vB, hB, u0, h0, rfl⟩ := h
    obtain ⟨hb, ha, -, rfl⟩ := pack448_fields h0
    rw [eq_two hlen (getReg_ok hA) (getReg_ok hB)]
    exact .k12x ha hb
  case k22x =>
    obtain ⟨_, hlen, vA, hA, vB, hB, u0, h0, u1, h1, rfl⟩ := h
    obtain ⟨ha, -, rfl⟩ := pack88_fields h0
    obtain ⟨hb, rfl⟩ := pack16_fields h1
    rw [eq_two hlen (getReg_ok hA) (getReg_ok hB)]
    exact .k22x ha hb
  case k32x =>
    obtain ⟨_, hlen, vA, hA, vB, hB, u0, h0, u1, h1, u2, h2, rfl⟩ := h
    obtain ⟨-, rfl⟩ := packZ8_fields h0
    obtain ⟨ha, rfl⟩ := pack16_fields h1
    obtain ⟨hb, rfl⟩ := pack16_fields h2
    rw [eq_two hlen (getReg_ok hA) (getReg_ok hB)]
    exact .k32x ha hb
  case k11n =>
    obtain ⟨_, hlen, vA, hA, c, hc, b, htrim, u0, h0, rfl⟩ := h
    obtain ⟨hb, ha, -, rfl⟩ := pack448_fields h0
    rw [eq_two hlen (getReg_ok hA) (castConst32_ok hc)]
    exact .k11n ha hb (trimS_ok htrim).2.symm
  case k21s =>
    obtain ⟨_, hlen, vA, hA, c, hc, b, htrim, u0, h0, u1, h1, rfl⟩ := h
    obtain ⟨ha, -, rfl⟩ := pack88_fields h0
    obtain ⟨hb, rfl⟩ := pack16_fields h1
    rw [eq_two hlen (getReg_ok hA) (castConst32_ok hc)]
    exact .k21s ha hb (trimS_ok htrim).2.symm
  case k11x =>
    obtain ⟨_, hlen, vA, hA, u0, h0, rfl⟩ := h
    obtain ⟨ha, -, rfl⟩ := pack88_fields h0
    rw [eq_one hlen (getReg_ok hA)]
    exact .k11x ha
  case k31i =>
    obtain ⟨_, hlen, vA, hA, c, hc, u0, h0, u1, h1, u2, h2, rfl⟩ := h
    obtain ⟨ha, -, rfl⟩ := pack88_fields h0
    obtain ⟨-, rfl⟩ := pack16_fields h1
    obtain ⟨hhigh, rfl⟩ := pack16_fields h2
    rw [eq_two hlen (getReg_ok hA) (castConst32_ok hc), low16, high16]
    rw [high16] at hhigh
    exact .k31i ha (by omega)
  case k23x =>
    obtain ⟨_, hlen, vA, hA, vB, hB, vC, hC, u0, h0, u1, h1, rfl⟩ := h
    obtain ⟨ha, -, rfl⟩ := pack88_fields h0
    obtain ⟨hc, hb, rfl⟩ := pack88_fields h1
    rw [eq_three hlen (getReg_ok hA) (getReg_ok hB) (getReg_ok hC)]
    exact .k23x ha hb hc
  case k22b =>
    obtain ⟨_, hlen, vA, hA, vB, hB, c, hc, d, htrim, u0, h0, u1, h1, rfl⟩ := h
    obtain ⟨ha, -, rfl⟩ := pack88_fields h0
    obtain ⟨hd, hb, rfl⟩ := pack88_fields h1
    rw [eq_three hlen (getReg_ok hA) (getReg_ok hB) (castConst32_ok hc)]
    exact .k22b ha hb hd (trimS_ok htrim).2.symm
  case k22s =>
    obtain ⟨_, hlen, vA, hA, vB, hB, c, hc, d, htrim, u0, h0, u1, h1, rfl⟩ := h
    obtain ⟨hb, ha, -, rfl⟩ := pack448_fields h0
    obtain ⟨hd, rfl⟩ := pack16_fields h1
    rw [eq_three hlen (getReg_ok hA) (getReg_ok hB) (castConst32_ok hc)]
    exact .k22s ha hb hd (trimS_ok htrim).2.symm
  case k22c =>
    obtain ⟨_, hlen, vA, hA, vB, hB, c, hc, u0, h0, u1, h1, rfl⟩ := h
    obtain ⟨hb, ha, -, rfl⟩ := pack448_fields h0
    obtain ⟨hi, rfl⟩ := pack16_fields h1
    rw [eq_three hlen (getReg_ok hA) (getReg_ok hB) (castIndexed_ok hc)]
    exact .k22c ha hb hi
  case k21c =>
    obtain ⟨_, hlen, vA, hA, c, hc, u0, h0, u1, h1, rfl⟩ := h
    obtain ⟨ha, -, rfl⟩ := pack88_fields h0
    obtain ⟨hi, rfl⟩ := pack16_fields h1
    rw [eq_two hlen (getReg_ok hA) (castIndexed_ok hc)]
    exact .k21c ha hi
  case k31c =>
    obtain ⟨_, hlen, vA, hA, c, hc, u0, h0, u1, h1, u2, h2, rfl⟩ := h
    obtain ⟨ha, -, rfl⟩ := pack88_fields h0
    obtain ⟨-, rfl⟩ := pack16_fields h1
    obtain ⟨hhigh, rfl⟩ := pack16_fields h2
    rw [eq_two hlen (getReg_ok hA) (castIndexed_ok hc), low16, high16]
    rw [high16] at hhigh
    exact .k31c ha (by omega)
  case k35c =>
    obtain ⟨_, hlen, regs, hregs, i, hi, u0, h0, u1, h1, u2, h2, rfl⟩ := h
    obtain ⟨hn, hlt, rfl, rfl⟩ := units_regs h0 h2
    obtain ⟨hi', rfl⟩ := pack16_fields h1
    rw [eq_two hlen (castVRegList_ok hregs) (castIndexed_ok hi)]
    exact .k35c hn hlt hi'
  case k45cc =>
    obtain ⟨_, hlen, regs, hregs, i, hi, p, hp, u0, h0, u1, h1, u2, h2, u3, h3, rfl⟩ := h
    obtain ⟨hn, hlt, rfl, rfl⟩ := units_regs h0 h2
    obtain ⟨hi', rfl⟩ := pack16_fields h1
    obtain ⟨hp', rfl⟩ := pack16_fields h3
    rw [eq_three hlen (castVRegList_ok hregs) (castIndexed_ok hi) (castIndexed_ok hp)]
    exact .k45cc hn hlt hi' hp'
  case k21h =>
    obtain ⟨_, hlen, vA, hA, c, hc, u0, h0, u1, h1, rfl⟩ := h
    obtain ⟨ha, -, rfl⟩ := pack88_fields h0
    obtain ⟨hhigh, rfl⟩ := pack16_fields h1
    rw [eq_two hlen (getReg_ok hA) (castConst32_ok hc), high16]
    rw [high16] at hhigh
    exact .k21h ha (by omega)
  case k20t =>
    obtain ⟨_, hlen, l, hl, ⟨a, fixup⟩, -, u0, h0, u1, -, rfl⟩ := h
    obtain ⟨-, rfl⟩ := packZ8_fields h0
    rw [eq_one hlen (castLocation_ok hl)]
    exact .k20t u1
  case k30t =>
    obtain ⟨_, hlen, l, hl, ⟨a, fixup⟩, -, u0, h0, u1, -, u2, -, rfl⟩ := h
    obtain ⟨-, rfl⟩ := packZ8_fields h0
    rw [eq_one hlen (castLocation_ok hl)]
    exact .k30t u1 u2
  case k21t =>
    obtain ⟨_, hlen, vA, hA, l, hl, ⟨b, fixup⟩, -, u0, h0, u1, -, rfl⟩ := h
    obtain ⟨ha, -, rfl⟩ := pack88_fields h0
    rw [eq_two hlen (getReg_ok hA) (castLocation_ok hl)]
    exact .k21t u1 ha
  case k22t =>
    obtain ⟨_, hlen, vA, hA, vB, hB, l, hl, ⟨c, fixup⟩, -, u0, h0, u1, -, rfl⟩ := h
    obtain ⟨hb, ha, -, rfl⟩ := pack448_fields h0
    rw [eq_three hlen (getReg_ok hA) (getReg_ok hB) (castLocation_ok hl)]
    exact .k22t u1 ha hb
  case k31t =>
    obtain ⟨_, hlen, vA, hA, l, hl, ⟨b, fixup⟩, -, u0, h0, u1, -, u2, -, rfl⟩ := h
    obtain ⟨ha, -, rfl⟩ := pack88_fields h0
    rw [eq_two hlen (getReg_ok hA) (castLocation_ok hl)]
    exact .k31t u1 u2 ha

end

/-! ## In the code -/

theorem Units.displaced {op : Nat} {fmt : Format} {operands : List Operand} {u : Nat} {tail tail' : List Nat}
    (h : Units op fmt operands (u :: tail)) {k : Nat} {short : Bool} (hfmt : labelIndex fmt = some (k, short))
    (hlen : tail'.length = tail.length) : Units op fmt operands (u :: tail') := by
  cases h <;> simp only [labelIndex, reduceCtorEq] at hfmt
  case k20t d =>
    obtain ⟨d', rfl⟩ := List.length_eq_one_iff.1 hlen
    exact .k20t d'
  case k30t d e =>
    obtain ⟨d', e', rfl⟩ := List.length_eq_two.1 hlen
    exact .k30t d' e'
  case k21t d ha =>
    obtain ⟨d', rfl⟩ := List.length_eq_one_iff.1 hlen
    exact .k21t d' ha
  case k22t d ha hb =>
    obtain ⟨d', rfl⟩ := List.length_eq_one_iff.1 hlen
    exact .k22t d' ha hb
  case k31t d e ha =>
    obtain ⟨d', e', rfl⟩ := List.length_eq_two.1 hlen
    exact .k31t d' e' ha

/-- The fixup of a branch does not touch the first unit of any instruction. -/
theorem head_apart {pre post pre' post' : List SymbolicInstruction} {i i' : SymbolicInstruction}
    (h : pre ++ i :: post = pre' ++ i' :: post') :
    size pre ≤ size pre' ∨ size pre' + i'.width ≤ size pre := by
  rcases List.append_eq_append_iff.1 h with ⟨mid, rfl, -⟩ | ⟨mid, rfl, hmid⟩
  · left
    rw [size_append]
    omega
  · cases mid with
    | nil => simp
    | cons j mid =>
      obtain ⟨rfl, -⟩ := List.cons.inj hmid
      right
      rw [size_append, size]
      omega

/-- Every instruction of an accepted list stands in the code at its position, a branch with the displacement
    to its label. -/
theorem units_of_accepted {ctx : SymbolicOperand → Nat} {w : Writer} {out : Assembled} {opcode : Opcode}
    {operands : List SymbolicOperand} {pre post : List SymbolicInstruction} (h : assembleInto ctx w = .ok out)
    (hsize : size w.instructions < 2 ^ 31) (his : w.instructions = pre ++ .bytecode opcode operands :: post) :
    ∃ units before after,
      Units (effOp opcode).toNat (getFormatFromOpcode (effOp opcode)) (operands.map (link ctx)) units ∧
        out.code = before ++ (units ++ after) ∧ before.length = size pre ∧
        ∀ l short, (SymbolicInstruction.bytecode opcode operands).target = some (l, short) →
          ∃ t, firstPlacement 0 w.instructions l = some t ∧ Points short t (size pre) units := by
  cases htarget : (SymbolicInstruction.bytecode opcode operands).target with
  | none =>
    obtain ⟨known, offset, enc, henc, hcode⟩ := units_of_assembleInto h his
    obtain ⟨before, after, hcode, hlen⟩ := hcode hsize htarget
    exact ⟨enc.units, before, after, encodeInsn_units henc, hcode, hlen, by simp⟩
  | some ls =>
    obtain ⟨l, short⟩ := ls
    obtain ⟨t, units, before, after, ht, hpoints, hcode, hlen⟩ := (assembleInto_laid h hsize).1.branch his htarget
    refine ⟨units, before, after, ?_, hcode, hlen, fun l' short' hl' => ?_⟩
    · simp only [assembleInto, encode, bind_ok, pure_ok] at h
      obtain ⟨_, _, _, _, _, _, _, _, e, hvisit, code, hfix, _, _, rfl⟩ := h
      obtain ⟨known, offset, enc, before', after', henc, hemitted, hlen'⟩ := encodes_of_visitAll (his ▸ hvisit)
      obtain ⟨code0, fixups, -, hfixups, hrun⟩ := visitAll_emitted ctx w.instructions _ e [] hvisit (by simp) rfl
        (by simpa using hsize)
      -- the first unit is the one that the encoder wrote
      have hsame : code[size pre]? = e.bytecode[size pre]? := by
        have hoffset : ∀ f ∈ e.fixups, f.offset < 2 ^ 31 ∧
            (size pre ≤ f.offset ∨ f.offset + (if f.shortFixup then 2 else 3) ≤ size pre) := by
          intro f hf
          rw [hfixups, List.nil_append] at hf
          obtain ⟨pre', i, post', his', hoff, hi⟩ := fixups_of_emitted hrun hf
          have hapart := head_apart (his.symm.trans his')
          have hsplit := size_split his'
          rw [Nat.zero_add] at hoff
          rw [hoff, ← width_of_target hi]
          exact ⟨by omega, hapart⟩
        exact getElem?_fixupLabels hfix (fun f hf => (hoffset f hf).1) (fun f hf => (hoffset f hf).2)
      obtain ⟨u, tail, hunits, -⟩ := (encodeInsn_spec henc).head
      have hlength := (encodeInsn_spec henc).length
      obtain ⟨_, _, k, heq, hindex⟩ := exists_of_target htarget
      obtain ⟨rfl, rfl⟩ := SymbolicInstruction.bytecode.inj heq
      have hwidth := width_of_target htarget
      rw [SymbolicInstruction.width] at hwidth
      rw [show code = before ++ (units ++ after) from hcode, hemitted, hunits, List.nil_append,
        List.getElem?_append_right (Nat.le_of_eq hlen),
        List.getElem?_append_right (Nat.le_of_eq hlen'), hlen, hlen', Nat.sub_self] at hsame
      have henc' := encodeInsn_units henc
      rw [hunits] at henc' hlength
      rw [List.length_cons] at hlength
      cases short with
      | true =>
        obtain ⟨⟨u', rfl⟩, -⟩ := hpoints
        obtain rfl : u' = u := Option.some.inj hsame
        exact henc'.displaced hindex (by simp only [List.length_singleton]; simp at hwidth; omega)
      | false =>
        obtain ⟨u', rfl⟩ := hpoints
        obtain rfl : u' = u := Option.some.inj hsame
        exact henc'.displaced hindex (by simp only [List.length_cons, List.length_nil]; simp at hwidth; omega)
    · obtain ⟨rfl, rfl⟩ := Prod.mk.inj (Option.some.inj hl')
      exact ⟨t, ht, hpoints⟩

/-! ## The code of a list -/

theorem Units.length {op : Nat} {fmt : Format} {operands : List Operand} {units : List Nat}
    (h : Units op fmt operands units) : units.length = getWidthFromFormat fmt := by
  cases h <;> rfl

/-- `code` holds the instructions from position `p` on, each with its operands in its units, and a branch with
    the displacement to its label. -/
inductive CodeOf (ctx : SymbolicOperand → Nat) (first : Int → Option Nat) :
    Nat → List SymbolicInstruction → List Nat → Prop where
  | nil (p : Nat) : CodeOf ctx first p [] []
  | label {p : Nat} {l : Int} {is : List SymbolicInstruction} {code : List Nat} :
      CodeOf ctx first p is code → CodeOf ctx first p (.label l :: is) code
  | nop {p : Nat} {is : List SymbolicInstruction} {code : List Nat} :
      CodeOf ctx first (p + 1) is code → CodeOf ctx first p (.nop :: is) (0 :: code)
  | insn {p : Nat} {opcode : Opcode} {operands : List SymbolicOperand} {units : List Nat}
      {is : List SymbolicInstruction} {code : List Nat} :
      Units (effOp opcode).toNat (getFormatFromOpcode (effOp opcode)) (operands.map (link ctx)) units →
      (∀ l short, (SymbolicInstruction.bytecode opcode operands).target = some (l, short) →
        ∃ t, first l = some t ∧ Points short t p units) →
      CodeOf ctx first (p + (SymbolicInstruction.bytecode opcode operands).width) is code →
      CodeOf ctx first p (.bytecode opcode operands :: is) (units ++ code)

theorem CodeOf.length {ctx : SymbolicOperand → Nat} {first : Int → Option Nat} {p : Nat}
    {is : List SymbolicInstruction} {code : List Nat} (h : CodeOf ctx first p is code) : code.length = size is := by
  induction h with
  | nil p => rfl
  | label _ ih => simp only [size, SymbolicInstruction.width, ih, Nat.zero_add]
  | nop _ ih => simp only [size, SymbolicInstruction.width, List.length_cons, ih, Nat.add_comm]
  | insn hunits _ _ ih => simp only [size, List.length_append, hunits.length, ih, SymbolicInstruction.width]

theorem CodeOf.split {ctx : SymbolicOperand → Nat} {first : Int → Option Nat} {p : Nat}
    {is : List SymbolicInstruction} {code : List Nat} (pre : List SymbolicInstruction)
    (h : CodeOf ctx first p (pre ++ is) code) :
    ∃ before rest, code = before ++ rest ∧ before.length = size pre ∧ CodeOf ctx first (p + size pre) is rest := by
  induction pre generalizing p code with
  | nil => exact ⟨[], code, rfl, rfl, h⟩
  | cons i pre ih =>
    rw [size, ← Nat.add_assoc]
    cases h with
    | label h =>
      obtain ⟨before, rest, rfl, hlen, hrest⟩ := ih h
      exact ⟨before, rest, rfl, by rw [hlen, SymbolicInstruction.width, Nat.zero_add], hrest⟩
    | nop h =>
      obtain ⟨before, rest, rfl, hlen, hrest⟩ := ih h
      exact ⟨0 :: before, rest, rfl, by rw [List.length_cons, hlen, SymbolicInstruction.width, Nat.add_comm], hrest⟩
    | @insn _ opcode operands units _ _ hunits _ h =>
      obtain ⟨before, rest, rfl, hlen, hrest⟩ := ih h
      refine ⟨units ++ before, rest, by rw [List.append_assoc], ?_, hrest⟩
      rw [List.length_append, hunits.length, hlen]
      rfl

/-- What the checks leave of a list: no instruction is a switch, and a register list has five registers at most. -/
structure Checked (is : List SymbolicInstruction) : Prop where
  noSwitch : ∀ i ∈ is, isSwitch i.emittedOp = false
  fewRegs : ∀ opcode operands regs, .bytecode opcode operands ∈ is → .vregList regs ∈ operands → regs.length ≤ 5

theorem checked_of_accepted {ctx : SymbolicOperand → Nat} {w : Writer} {out : Assembled}
    (h : assembleInto ctx w = .ok out) (hsize : size w.instructions < 2 ^ 31) : Checked w.instructions := by
  obtain ⟨hlaid, -, hwalk⟩ := assembleInto_laid h hsize
  refine ⟨hlaid.noSwitch out.code _ rfl hwalk, fun opcode operands regs hi hregs => ?_⟩
  simp only [assembleInto, bind_ok] at h
  obtain ⟨_, _, _, _, _, hcheck, _⟩ := h
  have hoperand := forM_ok (forM_ok hcheck _ hi) _ hregs
  simp only [checkOperand] at hoperand
  by_contra hlong
  rw [if_pos (by omega)] at hoperand
  exact absurd hoperand (by simp)

theorem codeOf_of_accepted {ctx : SymbolicOperand → Nat} {w : Writer} {out : Assembled}
    (h : assembleInto ctx w = .ok out) (hsize : size w.instructions < 2 ^ 31) :
    CodeOf ctx (firstPlacement 0 w.instructions) 0 w.instructions out.code := by
  have hlaid := (assembleInto_laid h hsize).1
  suffices hrest : ∀ rest pre, w.instructions = pre ++ rest →
      CodeOf ctx (firstPlacement 0 w.instructions) (size pre) rest (out.code.drop (size pre)) from
    hrest w.instructions [] rfl
  intro rest
  induction rest with
  | nil =>
    intro pre his
    rw [List.append_nil] at his
    rw [List.drop_eq_nil_of_le (by rw [hlaid.length, his])]
    exact .nil _
  | cons i rest ih =>
    intro pre his
    have hnext := ih (pre ++ [i]) (by rw [his, List.append_assoc]; rfl)
    rw [size_append, size, size, Nat.add_zero] at hnext
    cases i with
    | label l => exact .label hnext
    | nop =>
      obtain ⟨before, u, tail, hcode, hlen, hu⟩ := hlaid.head his Nat.one_pos
      obtain rfl : u = 0 := hu.2 rfl
      rw [hcode, ← hlen, List.drop_left]
      rw [hcode, ← hlen, List.drop_append, List.drop_eq_nil_of_le (by omega)] at hnext
      exact .nop (by simpa [SymbolicInstruction.width] using hnext)
    | bytecode opcode operands =>
      obtain ⟨units, before, after, hunits, hcode, hlen, hpoints⟩ := units_of_accepted h hsize his
      rw [hcode, ← hlen, List.drop_left]
      rw [hcode, ← hlen, List.drop_append, List.drop_eq_nil_of_le (by omega)] at hnext
      refine .insn hunits (hlen ▸ hpoints) ?_
      have hwidth : units.length = (SymbolicInstruction.bytecode opcode operands).width := hunits.length
      rw [← hwidth] at hnext ⊢
      simpa using hnext

end ArtPi.Dex
