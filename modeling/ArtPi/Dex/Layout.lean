import ArtPi.Dex.Assemble
import Mathlib.Tactic.NormNum

set_option autoImplicit false

/-! # What the assembler emits

The encoder's run over an accepted list, described from the list: `Laid first p is code` says that
`code` holds the units of the instructions `is` one after the other from position `p` on, each with
its opcode in front and, if it is a branch, the displacement to the *first* placement of its label.
`assembleInto_laid` is the one place where the encoder, its fixups and the writer's checks are
unfolded; everything about emitted code is derived from `Laid`. -/

namespace ArtPi.Dex

/-! ## Successful results -/

theorem bind_ok {ε α β : Type} {x : Except ε α} {f : α → Except ε β} {b : β} :
    (x >>= f) = .ok b ↔ ∃ a, x = .ok a ∧ f a = .ok b := by
  cases x <;> simp [bind, Except.bind]

theorem pure_ok {ε α : Type} {a b : α} : (pure a : Except ε α) = .ok b ↔ a = b := by
  simp [pure, Except.pure]

theorem require_ok {b : Bool} {e : AssembleError} {u : Unit} :
    require b e = .ok u ↔ b = true := by
  cases b <;> simp [require]

theorem check_ok {b : Bool} {u : Unit} : check b = .ok u ↔ b = true := require_ok

theorem and_mask_eq (a k : Nat) : a &&& (2 ^ k - 1) = a ↔ a < 2 ^ k := by
  rw [Nat.and_two_pow_sub_one_eq_mod]
  exact ⟨fun h => h ▸ Nat.mod_lt _ (Nat.two_pow_pos k), Nat.mod_eq_of_lt⟩

theorem and_0xff (a : Nat) : a &&& 0xff = a ↔ a < 256 := and_mask_eq a 8

theorem packZ8_ok {a u : Nat} (h : packZ8 a = .ok u) : u = a := by
  simp only [packZ8, bind_ok, pure_ok] at h
  obtain ⟨_, _, rfl⟩ := h
  rfl

theorem packZ8_low {a u : Nat} (h : packZ8 a = .ok u) : u % 256 = a := by
  simp only [packZ8, bind_ok, pure_ok, check_ok, decide_eq_true_eq, and_0xff] at h
  obtain ⟨_, hlt, rfl⟩ := h
  omega

theorem pack16_ok {a u : Nat} (h : pack16 a = .ok u) : u = a := by
  simp only [pack16, bind_ok, pure_ok] at h
  obtain ⟨_, _, rfl⟩ := h
  rfl

theorem pack88_ok {a b u : Nat} (h : pack88 a b = .ok u) : u % 256 = b := by
  simp only [pack88, bind_ok, pure_ok, check_ok, decide_eq_true_eq, and_0xff] at h
  obtain ⟨_, _, _, hlt, rfl⟩ := h
  rw [← Nat.shiftLeft_add_eq_or_of_lt (i := 8) hlt, Nat.shiftLeft_eq]
  omega

theorem pack448_ok {a b c u : Nat} (h : pack448 a b c = .ok u) : u % 256 = c := by
  simp only [pack448, bind_ok, pure_ok, check_ok, decide_eq_true_eq, and_0xff] at h
  obtain ⟨_, _, _, _, _, hlt, rfl⟩ := h
  have hor : a <<< 12 ||| b <<< 8 = (a <<< 4 ||| b) <<< 8 := by
    rw [Nat.shiftLeft_or_distrib, ← Nat.shiftLeft_add]
  rw [hor, ← Nat.shiftLeft_add_eq_or_of_lt (i := 8) hlt, Nat.shiftLeft_eq]
  omega

theorem castLocation_ok {operands : List Operand} {i : Nat} {l : Int}
    (h : castLocation operands i = .ok l) : operands[i]? = some (.codeLocation l) := by
  simp only [castLocation] at h
  split at h
  · rename_i l' hl
    rw [hl, Except.ok.inj h]
  · exact absurd h (by simp)

/-! ## One instruction -/

/-- The formats with a displacement: the index of the label operand, and whether the displacement
    has 16 bits. -/
def labelIndex : Format → Option (Nat × Bool)
  | .k20t => some (0, true)
  | .k21t => some (1, true)
  | .k22t => some (2, true)
  | .k30t => some (0, false)
  | .k31t => some (1, false)
  | _ => none

/-- The label an instruction refers to, and whether its displacement has 16 bits. -/
def labelOf (opcode : Opcode) (operands : List Operand) : Option (Int × Bool) :=
  (labelIndex (getFormatFromOpcode opcode)).bind (fun (i, short) =>
    match operands[i]? with
    | some (.codeLocation l) => some (l, short)
    | _ => none)

/-- The first unit of an instruction: the opcode is its low byte, and a `nop` is all zero, so that it
    is never taken for a payload. -/
def IsHead (opcode : Opcode) (u : Nat) : Prop :=
  u % 256 = opcode.toNat ∧ (opcode.toNat = 0 → u = 0)

/-- What a successful `Visit(Bytecode*)` writes. -/
structure EncodeSpec (known : Int → Option Nat) (offset : Nat) (opcode : Opcode)
    (operands : List Operand) (enc : Encoded) : Prop where
  length : enc.units.length = getWidthFromFormat (getFormatFromOpcode opcode)
  head : ∃ u rest, enc.units = u :: rest ∧ IsHead opcode u
  plain : labelOf opcode operands = none →
    enc.fixup = none ∧ labelIndex (getFormatFromOpcode opcode) = none
  branch : ∀ l short, labelOf opcode operands = some (l, short) →
    ∃ a selfOk, resolve known offset l short selfOk = .ok (a, enc.fixup) ∧
      ∃ u, enc.units = if short then [u, a &&& 0xffff] else [u, a &&& 0xffff, a >>> 16]

section

variable {known : Int → Option Nat} {offset : Nat} {opcode : Opcode} {operands : List Operand}
  {enc : Encoded}

theorem EncodeSpec.of_plain {u : Nat} {rest : List Nat}
    (hlabel : labelIndex (getFormatFromOpcode opcode) = none)
    (hlen : enc.units.length = getWidthFromFormat (getFormatFromOpcode opcode))
    (hu : enc.units = u :: rest) (hhead : IsHead opcode u) (hfix : enc.fixup = none) :
    EncodeSpec known offset opcode operands enc where
  length := hlen
  head := ⟨u, rest, hu, hhead⟩
  plain := fun _ => ⟨hfix, hlabel⟩
  branch := by simp [labelOf, hlabel]

theorem EncodeSpec.of_branch {u a : Nat} {l : Int} {short selfOk : Bool}
    (hlabel : labelOf opcode operands = some (l, short))
    (hlen : enc.units.length = getWidthFromFormat (getFormatFromOpcode opcode))
    (hu : enc.units = if short then [u, a &&& 0xffff] else [u, a &&& 0xffff, a >>> 16])
    (hhead : IsHead opcode u)
    (hres : resolve known offset l short selfOk = .ok (a, enc.fixup)) :
    EncodeSpec known offset opcode operands enc where
  length := hlen
  head := by
    cases short
    · exact ⟨u, _, hu, hhead⟩
    · exact ⟨u, _, hu, hhead⟩
  plain := by simp [hlabel]
  branch := by
    intro l' short' h
    rw [hlabel] at h
    obtain ⟨rfl, rfl⟩ := Prod.mk.inj (Option.some.inj h)
    exact ⟨a, selfOk, hres, u, hu⟩

theorem labelOf_of_castLocation {i : Nat} {l : Int} {short : Bool}
    (hf : labelIndex (getFormatFromOpcode opcode) = some (i, short))
    (hl : castLocation operands i = .ok l) : labelOf opcode operands = some (l, short) := by
  simp only [labelOf, hf, Option.bind_some, castLocation_ok hl]

theorem encodeInsn_spec (h : encodeInsn known offset opcode operands = .ok enc) :
    EncodeSpec known offset opcode operands enc := by
  have hwidth (f : Format) (hf : getFormatFromOpcode opcode = f) {n : Nat}
      (hn : n = getWidthFromFormat f) : n = getWidthFromFormat (getFormatFromOpcode opcode) := by
    rw [hf, hn]
  have hplain (f : Format) (hf : getFormatFromOpcode opcode = f) (hn : labelIndex f = none) :
      labelIndex (getFormatFromOpcode opcode) = none := by
    rw [hf, hn]
  have hlabel (f : Format) (hf : getFormatFromOpcode opcode = f) {i : Nat} {short : Bool} {l : Int}
      (hi : labelIndex f = some (i, short)) (hl : castLocation operands i = .ok l) :
      labelOf opcode operands = some (l, short) :=
    labelOf_of_castLocation (by rw [hf, hi]) hl
  have hhead (f : Format) (hf : getFormatFromOpcode opcode = f) (hne : f ≠ .k10x) {u : Nat}
      (hu : u % 256 = opcode.toNat) : IsHead opcode u := by
    refine ⟨hu, fun h0 => absurd hf ?_⟩
    rw [getFormatFromOpcode, h0]
    exact fun h => hne h.symm
  have hinsn (f : Format) (hf : getFormatFromOpcode opcode = f) (hn : labelIndex f = none)
      (hne : f ≠ .k10x) {u : Nat} {rest : List Nat} (hlen : enc.units.length = getWidthFromFormat f)
      (hu : enc.units = u :: rest) (hlow : u % 256 = opcode.toNat) (hfix : enc.fixup = none) :
      EncodeSpec known offset opcode operands enc :=
    .of_plain (hplain f hf hn) (hwidth f hf hlen) hu (hhead f hf hne hlow) hfix
  simp only [encodeInsn] at h
  cases hf : getFormatFromOpcode opcode <;> simp only [hf, bind_ok, pure_ok, reduceCtorEq] at h
  case k10x =>
    obtain ⟨_, _, u0, h0, rfl⟩ := h
    exact .of_plain (hplain _ hf rfl) (hwidth _ hf rfl) rfl
      ⟨packZ8_low h0, fun hz => (packZ8_ok h0).trans hz⟩ rfl
  case k12x =>
    obtain ⟨_, _, vA, _, vB, _, u0, h0, rfl⟩ := h
    exact hinsn _ hf rfl (by decide) rfl rfl (pack448_ok h0) rfl
  case k22x =>
    obtain ⟨_, _, vA, _, vB, _, u0, h0, u1, _, rfl⟩ := h
    exact hinsn _ hf rfl (by decide) rfl rfl (pack88_ok h0) rfl
  case k32x =>
    obtain ⟨_, _, vA, _, vB, _, u0, h0, u1, _, u2, _, rfl⟩ := h
    exact hinsn _ hf rfl (by decide) rfl rfl (packZ8_low h0) rfl
  case k11n =>
    obtain ⟨_, _, vA, _, c, _, b, _, u0, h0, rfl⟩ := h
    exact hinsn _ hf rfl (by decide) rfl rfl (pack448_ok h0) rfl
  case k21s =>
    obtain ⟨_, _, vA, _, c, _, b, _, u0, h0, u1, _, rfl⟩ := h
    exact hinsn _ hf rfl (by decide) rfl rfl (pack88_ok h0) rfl
  case k11x =>
    obtain ⟨_, _, vA, _, u0, h0, rfl⟩ := h
    exact hinsn _ hf rfl (by decide) rfl rfl (pack88_ok h0) rfl
  case k31i =>
    obtain ⟨_, _, vA, _, b, _, u0, h0, u1, _, u2, _, rfl⟩ := h
    exact hinsn _ hf rfl (by decide) rfl rfl (pack88_ok h0) rfl
  case k23x =>
    obtain ⟨_, _, vA, _, vB, _, vC, _, u0, h0, u1, _, rfl⟩ := h
    exact hinsn _ hf rfl (by decide) rfl rfl (pack88_ok h0) rfl
  case k22b =>
    obtain ⟨_, _, vA, _, vB, _, c, _, c', _, u0, h0, u1, _, rfl⟩ := h
    exact hinsn _ hf rfl (by decide) rfl rfl (pack88_ok h0) rfl
  case k22s =>
    obtain ⟨_, _, vA, _, vB, _, c, _, c', _, u0, h0, u1, _, rfl⟩ := h
    exact hinsn _ hf rfl (by decide) rfl rfl (pack448_ok h0) rfl
  case k22c =>
    obtain ⟨_, _, vA, _, vB, _, c, _, u0, h0, u1, _, rfl⟩ := h
    exact hinsn _ hf rfl (by decide) rfl rfl (pack448_ok h0) rfl
  case k21c =>
    obtain ⟨_, _, vA, _, b, _, u0, h0, u1, _, rfl⟩ := h
    exact hinsn _ hf rfl (by decide) rfl rfl (pack88_ok h0) rfl
  case k31c =>
    obtain ⟨_, _, vA, _, b, _, u0, h0, u1, _, u2, _, rfl⟩ := h
    exact hinsn _ hf rfl (by decide) rfl rfl (pack88_ok h0) rfl
  case k35c =>
    obtain ⟨_, _, regs, _, b, _, u0, h0, u1, _, u2, _, rfl⟩ := h
    exact hinsn _ hf rfl (by decide) rfl rfl (pack448_ok h0) rfl
  case k45cc =>
    obtain ⟨_, _, regs, _, b, _, h', _, u0, h0, u1, _, u2, _, u3, _, rfl⟩ := h
    exact hinsn _ hf rfl (by decide) rfl rfl (pack448_ok h0) rfl
  case k21h =>
    obtain ⟨_, _, vA, _, c, _, u0, h0, u1, _, rfl⟩ := h
    exact hinsn _ hf rfl (by decide) rfl rfl (pack88_ok h0) rfl
  case k20t =>
    obtain ⟨_, _, l, hl, ⟨a, fixup⟩, hres, u0, h0, u1, h1, rfl⟩ := h
    exact .of_branch (hlabel _ hf rfl hl) (hwidth _ hf rfl) (by rw [pack16_ok h1]; rfl)
      (hhead _ hf (by decide) (packZ8_low h0)) hres
  case k30t =>
    obtain ⟨_, _, l, hl, ⟨a, fixup⟩, hres, u0, h0, u1, h1, u2, h2, rfl⟩ := h
    exact .of_branch (hlabel _ hf rfl hl) (hwidth _ hf rfl)
      (by rw [pack16_ok h1, pack16_ok h2]; rfl)
      (hhead _ hf (by decide) (packZ8_low h0)) hres
  case k21t =>
    obtain ⟨_, _, vA, _, l, hl, ⟨b, fixup⟩, hres, u0, h0, u1, h1, rfl⟩ := h
    exact .of_branch (hlabel _ hf rfl hl) (hwidth _ hf rfl) (by rw [pack16_ok h1]; rfl)
      (hhead _ hf (by decide) (pack88_ok h0)) hres
  case k22t =>
    obtain ⟨_, _, vA, _, vB, _, l, hl, ⟨c, fixup⟩, hres, u0, h0, u1, h1, rfl⟩ := h
    exact .of_branch (hlabel _ hf rfl hl) (hwidth _ hf rfl) (by rw [pack16_ok h1]; rfl)
      (hhead _ hf (by decide) (pack448_ok h0)) hres
  case k31t =>
    obtain ⟨_, _, vA, _, l, hl, ⟨b, fixup⟩, hres, u0, h0, u1, h1, u2, h2, rfl⟩ := h
    exact .of_branch (hlabel _ hf rfl hl) (hwidth _ hf rfl)
      (by rw [pack16_ok h1, pack16_ok h2]; rfl)
      (hhead _ hf (by decide) (pack88_ok h0)) hres

end

/-! ## Positions in the list -/

/-- The code units of a list. -/
def size : List SymbolicInstruction → Nat
  | [] => 0
  | i :: is => i.width + size is

theorem size_append (is js : List SymbolicInstruction) : size (is ++ js) = size is + size js := by
  induction is with
  | nil => simp [size]
  | cons i is ih => simp only [List.cons_append, size, ih]; omega

def SymbolicInstruction.places (l : Int) : SymbolicInstruction → Bool
  | .label id => id = l
  | _ => false

/-- Where label `l` is placed first in a list that starts at position `p`. -/
def firstPlacement : Nat → List SymbolicInstruction → Int → Option Nat
  | _, [], _ => none
  | p, i :: is, l => if i.places l then some p else firstPlacement (p + i.width) is l

theorem firstPlacement_bounds {p t : Nat} {is : List SymbolicInstruction} {l : Int}
    (h : firstPlacement p is l = some t) : p ≤ t ∧ t ≤ p + size is := by
  induction is generalizing p with
  | nil => exact absurd h (by simp [firstPlacement])
  | cons i is ih =>
    simp only [firstPlacement] at h
    split at h
    · obtain rfl := Option.some.inj h
      simp only [size]
      omega
    · have := ih h
      simp only [size]
      omega

/-- A label placed somewhere in the list has a first placement. -/
theorem firstPlacement_of_mem {is : List SymbolicInstruction} {l : Int} (h : .label l ∈ is)
    (p : Nat) : firstPlacement p is l ≠ none := by
  induction is generalizing p with
  | nil => exact absurd h (by simp)
  | cons i is ih =>
    simp only [firstPlacement]
    split
    · simp
    · rename_i hi
      rcases List.mem_cons.mp h with rfl | h
      · exact absurd hi (by simp [SymbolicInstruction.places])
      · exact ih h _

/-- The label an instruction of the list refers to, and whether its displacement has 16 bits. -/
def SymbolicInstruction.target : SymbolicInstruction → Option (Int × Bool)
  | .bytecode opcode operands =>
    (labelIndex (getFormatFromOpcode (effOp opcode))).bind (fun (i, short) =>
      match operands[i]? with
      | some (.labelTarget l) => some (l, short)
      | _ => none)
  | _ => none

/-- Only a bytecode has a target, and its format says at which operand. -/
theorem exists_of_target {i : SymbolicInstruction} {l : Int} {short : Bool} (h : i.target = some (l, short)) :
    ∃ opcode operands k, i = .bytecode opcode operands ∧
      labelIndex (getFormatFromOpcode (effOp opcode)) = some (k, short) := by
  cases i with
  | label id => exact absurd h (by simp [SymbolicInstruction.target])
  | nop => exact absurd h (by simp [SymbolicInstruction.target])
  | bytecode opcode operands =>
    simp only [SymbolicInstruction.target, Option.bind_eq_some_iff] at h
    obtain ⟨⟨k, short'⟩, hk, h⟩ := h
    split at h
    · obtain ⟨-, rfl⟩ := Prod.mk.inj (Option.some.inj h)
      exact ⟨opcode, operands, k, rfl, hk⟩
    · exact absurd h (by simp)

theorem labelOf_link (ctx : SymbolicOperand → Nat) (opcode : Opcode)
    (operands : List SymbolicOperand) :
    labelOf (effOp opcode) (operands.map (link ctx))
      = (SymbolicInstruction.bytecode opcode operands).target := by
  simp only [labelOf, SymbolicInstruction.target]
  cases labelIndex (getFormatFromOpcode (effOp opcode)) with
  | none => rfl
  | some is =>
    simp only [Option.bind_some, List.getElem?_map]
    match operands[is.1]? with
    | none => rfl
    | some o => cases o <;> rfl

/-! ## The encoder's run -/

/-- The run over a list from position `p` with the labels of `known` placed: the units before the
    fixups, the fixups, and the labels placed at the end. -/
inductive Emitted (ctx : SymbolicOperand → Nat) : (Int → Option Nat) → Nat →
    List SymbolicInstruction → List Nat → List LabelFixup → (Int → Option Nat) → Prop where
  | nil (known : Int → Option Nat) (p : Nat) : Emitted ctx known p [] [] [] known
  | again {known known' : Int → Option Nat} {p : Nat} {l : Int} {is : List SymbolicInstruction}
      {code : List Nat} {fixups : List LabelFixup} :
      known l ≠ none → Emitted ctx known p is code fixups known' →
      Emitted ctx known p (.label l :: is) code fixups known'
  | place {known known' : Int → Option Nat} {p : Nat} {l : Int} {is : List SymbolicInstruction}
      {code : List Nat} {fixups : List LabelFixup} :
      known l = none → Emitted ctx (Function.update known l (some p)) p is code fixups known' →
      Emitted ctx known p (.label l :: is) code fixups known'
  | nop {known known' : Int → Option Nat} {p : Nat} {is : List SymbolicInstruction}
      {code : List Nat} {fixups : List LabelFixup} :
      Emitted ctx known (p + 1) is code fixups known' →
      Emitted ctx known p (.nop :: is) (0 :: code) fixups known'
  | insn {known known' : Int → Option Nat} {p : Nat} {opcode : Opcode}
      {operands : List SymbolicOperand} {enc : Encoded} {is : List SymbolicInstruction}
      {code : List Nat} {fixups : List LabelFixup} :
      EncodeSpec known p (effOp opcode) (operands.map (link ctx)) enc →
      Emitted ctx known (p + (SymbolicInstruction.bytecode opcode operands).width) is code fixups
        known' →
      Emitted ctx known p (.bytecode opcode operands :: is) (enc.units ++ code)
        (enc.fixup.toList ++ fixups) known'

theorem visitAll_emitted (ctx : SymbolicOperand → Nat) (is : List SymbolicInstruction) :
    ∀ (e e' : Encoder) (emitted : List Int),
      visitAll e (emit ctx emitted is) = .ok e' → (∀ l, l ∈ emitted ↔ e.labelOffset l ≠ none) →
      e.offset = e.bytecode.length → e.bytecode.length + size is < 2 ^ 31 →
      ∃ code fixups, e'.bytecode = e.bytecode ++ code ∧ e'.fixups = e.fixups ++ fixups ∧
        Emitted ctx e.labelOffset e.offset is code fixups e'.labelOffset := by
  -- below `2 ^ 31` units the offset of the encoder does not wrap, and is the length of its buffer
  induction is with
  | nil =>
    intro e e' emitted h _ _ _
    obtain rfl := Except.ok.inj h
    exact ⟨[], [], by simp, by simp, .nil _ _⟩
  | cons i is ih =>
    intro e e' emitted h hem hoff hsize
    cases i with
    | label l =>
      simp only [emit] at h
      simp only [size, SymbolicInstruction.width, Nat.zero_add] at hsize
      split at h
      · rename_i hl
        obtain ⟨code, fixups, hc, hf, hrun⟩ := ih e e' emitted h hem hoff hsize
        exact ⟨code, fixups, hc, hf, .again ((hem l).mp hl) hrun⟩
      · rename_i hl
        have hnone : e.labelOffset l = none := by
          by_contra hne
          exact hl ((hem l).mpr hne)
        simp only [visitAll, visit, bind_ok, Except.ok.injEq, exists_eq_left'] at h
        obtain ⟨code, fixups, hc, hf, hrun⟩ := ih _ e' (l :: emitted) h (by
          intro l'
          by_cases heq : l' = l
          · simp [heq]
          · simpa [heq, Function.update_of_ne heq] using hem l') hoff hsize
        exact ⟨code, fixups, hc, hf, .place hnone hrun⟩
    | nop =>
      simp only [size, SymbolicInstruction.width] at hsize
      have hnop : encodeInsn e.labelOffset e.offset (effOp OP_NOP) [] = .ok { units := [0] } :=
        rfl
      have hoff' : u4 (e.offset + getWidthFromFormat (getFormatFromOpcode (effOp OP_NOP)))
          = e.offset + 1 :=
        Nat.mod_eq_of_lt (show e.offset + 1 < 2 ^ 32 by omega)
      simp only [emit, visitAll, visit, bind_ok, pure_ok, hnop, Except.ok.injEq,
        exists_eq_left'] at h
      obtain ⟨code, fixups, hc, hf, hrun⟩ := ih _ e' emitted h hem
        (by rw [hoff', hoff]; simp)
        (by simp only [List.length_append, List.length_singleton]; omega)
      refine ⟨0 :: code, fixups, by simpa using hc, by simpa using hf, .nop ?_⟩
      rw [← hoff']
      exact hrun
    | bytecode opcode operands =>
      simp only [size] at hsize
      simp only [emit, visitAll, visit, bind_ok, pure_ok] at h
      obtain ⟨_, ⟨enc, henc, rfl⟩, h⟩ := h
      have hspec := encodeInsn_spec henc
      have hlen : enc.units.length = (SymbolicInstruction.bytecode opcode operands).width :=
        hspec.length
      have hoff' : u4 (e.offset + getWidthFromFormat (getFormatFromOpcode (effOp opcode)))
          = e.offset + (SymbolicInstruction.bytecode opcode operands).width := by
        simp only [SymbolicInstruction.width] at hsize ⊢
        exact Nat.mod_eq_of_lt (by omega)
      obtain ⟨code, fixups, hc, hf, hrun⟩ := ih _ e' emitted h hem
        (by rw [hoff', List.length_append, hlen, hoff])
        (by simp only [List.length_append, hlen]; omega)
      refine ⟨enc.units ++ code, enc.fixup.toList ++ fixups, by simpa using hc,
        by simpa using hf, .insn hspec ?_⟩
      rw [← hoff']
      exact hrun

/-- The labels placed at the end: those placed before, and the first placements of the run. -/
theorem Emitted.labels {ctx : SymbolicOperand → Nat} {known known' : Int → Option Nat} {p : Nat}
    {is : List SymbolicInstruction} {code : List Nat} {fixups : List LabelFixup}
    (h : Emitted ctx known p is code fixups known') (l : Int) :
    known' l = (known l).or (firstPlacement p is l) := by
  induction h with
  | nil known p => simp [firstPlacement]
  | @again known known' p l' is code fixups hl _ ih =>
    rw [ih, firstPlacement]
    by_cases heq : l' = l
    · subst heq
      obtain ⟨t, ht⟩ := Option.ne_none_iff_exists'.mp hl
      simp [ht]
    · simp [SymbolicInstruction.places, SymbolicInstruction.width, heq]
  | @place known known' p l' is code fixups hl _ ih =>
    rw [ih, firstPlacement]
    by_cases heq : l' = l
    · subst heq
      simp [hl, SymbolicInstruction.places]
    · rw [Function.update_of_ne (Ne.symm heq)]
      simp [SymbolicInstruction.places, SymbolicInstruction.width, heq]
  | nop _ ih => rw [ih, firstPlacement]; rfl
  | insn _ _ ih => rw [ih, firstPlacement]; rfl

/-! ## The emitted code -/

/-- The units of a branch at `p` to a label at `t`. A 16-bit displacement is the low half of the
    distance: the encoder refuses a forward distance above `0x7fff`, but a backward one only from
    `0x10000` on. -/
def Points (short : Bool) (t p : Nat) (units : List Nat) : Prop :=
  if short then
    (∃ u, units = [u, u4Sub t p % 65536]) ∧ t ≠ p ∧ p ≤ t + 65536 ∧ t ≤ p + 32767
  else ∃ u, units = [u, u4Sub t p % 65536, u4Sub t p / 65536]

/-- `code` holds the instructions from position `p` on, with labels resolved by `first`. -/
inductive Laid (first : Int → Option Nat) : Nat → List SymbolicInstruction → List Nat → Prop where
  | nil (p : Nat) : Laid first p [] []
  | label {p : Nat} {l : Int} {is : List SymbolicInstruction} {code : List Nat} :
      Laid first p is code → Laid first p (.label l :: is) code
  | nop {p : Nat} {is : List SymbolicInstruction} {code : List Nat} :
      Laid first (p + 1) is code → Laid first p (.nop :: is) (0 :: code)
  | insn {p : Nat} {opcode : Opcode} {operands : List SymbolicOperand} {units : List Nat}
      {is : List SymbolicInstruction} {code : List Nat} :
      units.length = (SymbolicInstruction.bytecode opcode operands).width →
      (∃ u rest, units = u :: rest ∧ IsHead (effOp opcode) u) →
      ((SymbolicInstruction.bytecode opcode operands).target = none →
        labelIndex (getFormatFromOpcode (effOp opcode)) = none) →
      (∀ l short, (SymbolicInstruction.bytecode opcode operands).target = some (l, short) →
        ∃ t, first l = some t ∧ Points short t p units) →
      Laid first (p + (SymbolicInstruction.bytecode opcode operands).width) is code →
      Laid first p (.bytecode opcode operands :: is) (units ++ code)

theorem low16 (a : Nat) : a &&& 0xffff = a % 65536 := Nat.and_two_pow_sub_one_eq_mod a 16

theorem high16 (a : Nat) : a >>> 16 = a / 65536 := Nat.shiftRight_eq_div_pow a 16

theorem resolve_some {known : Int → Option Nat} {p t a : Nat} {l : Int} {short selfOk : Bool}
    {fixup : Option LabelFixup} (h : resolve known p l short selfOk = .ok (a, fixup))
    (hl : known l = some t) :
    a = u4Sub t p ∧ fixup = none ∧ (short = true → u4Sub t p / 65536 = 0xffff) := by
  simp only [resolve, hl, bind_ok, pure_ok, check_ok, Prod.mk.injEq, high16] at h
  obtain ⟨_, _, _, hshort, rfl, rfl⟩ := h
  refine ⟨rfl, rfl, ?_⟩
  rintro rfl
  simpa using hshort

theorem resolve_none {known : Int → Option Nat} {p a : Nat} {l : Int} {short selfOk : Bool}
    {fixup : Option LabelFixup} (h : resolve known p l short selfOk = .ok (a, fixup))
    (hl : known l = none) : a = 0 ∧ fixup = some ⟨p, l, short⟩ := by
  simp only [resolve, hl, pure_ok, Prod.mk.injEq] at h
  exact ⟨h.1.symm, h.2.symm⟩

theorem points_backward {t p u : Nat} {short : Bool} (ht : t < 2 ^ 31) (hp : p < 2 ^ 31)
    (hshort : short = true → u4Sub t p / 65536 = 0xffff) :
    Points short t p (if short then [u, u4Sub t p &&& 0xffff]
      else [u, u4Sub t p &&& 0xffff, u4Sub t p >>> 16]) := by
  cases short with
  | false => exact ⟨u, by rw [low16, high16]; rfl⟩
  | true =>
    have h := hshort rfl
    simp only [u4Sub] at h
    refine ⟨⟨u, by rw [low16]; rfl⟩, ?_, ?_, ?_⟩ <;> omega

/-- A displacement written by `FixupLabels`. -/
theorem fixupLabel_points {known : Int → Option Nat} {pre rest out : List Nat} {l : Int} {t u : Nat}
    {short : Bool} (hl : known l = some t) (ht : t < 2 ^ 31) (hp : pre.length < 2 ^ 31)
    (h : fixupLabel known (pre ++ ((if short then [u, 0] else [u, 0, 0]) ++ rest))
      ⟨pre.length, l, short⟩ = .ok out) :
    ∃ units, out = pre ++ (units ++ rest) ∧ Points short t pre.length units ∧
      ∃ tail, units = u :: tail := by
  have hinstr : u4 (pre.length * 2) / 2 = pre.length := by
    rw [u4, Nat.mod_eq_of_lt (by omega)]; omega
  simp only [fixupLabel, hl, Option.getD_some, bind_ok, hinstr] at h
  obtain ⟨_, hne, _, _, h⟩ := h
  simp only [check_ok, decide_eq_true_eq] at hne
  cases short with
  | false =>
    simp only [Bool.false_eq_true, if_false, bind_ok, pure_ok] at h
    obtain ⟨u1, h1, u2, h2, rfl⟩ := h
    rw [pack16_ok h1, pack16_ok h2, low16, high16]
    refine ⟨[u, u4Sub t pre.length % 65536, u4Sub t pre.length / 65536], ?_, ⟨u, rfl⟩, _, rfl⟩
    simp
  | true =>
    simp only [if_true, bind_ok, pure_ok, check_ok, decide_eq_true_eq] at h
    obtain ⟨_, hle, u1, h1, rfl⟩ := h
    rw [pack16_ok h1]
    have hsmall : u4Sub t pre.length % 65536 = u4Sub t pre.length := Nat.mod_eq_of_lt (by omega)
    refine ⟨[u, u4Sub t pre.length % 65536], by simp [hsmall], ?_, _, rfl⟩
    simp only [u4Sub] at hne hle
    refine ⟨⟨u, rfl⟩, ?_, ?_, ?_⟩ <;> omega

/-- After the fixups the run is laid out with the labels placed at the end. -/
theorem Emitted.laid {ctx : SymbolicOperand → Nat} {known known' : Int → Option Nat} {p : Nat}
    {is : List SymbolicInstruction} {code : List Nat} {fixups : List LabelFixup}
    (h : Emitted ctx known p is code fixups known') :
    ∀ pre out : List Nat, pre.length = p → p + size is < 2 ^ 31 →
      (∀ l t, known' l = some t → t < 2 ^ 31) →
      (∀ i ∈ is, ∀ l short, i.target = some (l, short) → known' l ≠ none) →
      fixupLabels known' (pre ++ code) fixups = .ok out →
      ∃ code', out = pre ++ code' ∧ Laid known' p is code' := by
  induction h with
  | nil known p =>
    intro pre out _ _ _ _ hfix
    obtain rfl := Except.ok.inj hfix
    exact ⟨[], rfl, .nil p⟩
  | again _ _ ih | place _ _ ih =>
    intro pre out hpre hsize hbound hplaced hfix
    simp only [size, SymbolicInstruction.width] at hsize
    obtain ⟨code', hout, hlaid⟩ := ih pre out hpre (by omega) hbound
      (fun i hi => hplaced i (List.mem_cons_of_mem _ hi)) hfix
    exact ⟨code', hout, .label hlaid⟩
  | @nop known known' p is code fixups _ ih =>
    intro pre out hpre hsize hbound hplaced hfix
    simp only [size, SymbolicInstruction.width] at hsize
    rw [List.append_cons] at hfix
    obtain ⟨code', hout, hlaid⟩ := ih (pre ++ [0]) out (by simp [hpre]) (by omega) hbound
      (fun i hi => hplaced i (List.mem_cons_of_mem _ hi)) hfix
    exact ⟨0 :: code', by simpa using hout, .nop hlaid⟩
  | @insn known known' p opcode operands enc is code fixups hspec hrun ih =>
    intro pre out hpre hsize hbound hplaced hfix
    simp only [size] at hsize
    have hplaced' : ∀ i ∈ is, ∀ l short, i.target = some (l, short) → known' l ≠ none :=
      fun i hi => hplaced i (List.mem_cons_of_mem _ hi)
    have hlen : enc.units.length = (SymbolicInstruction.bytecode opcode operands).width :=
      hspec.length
    -- the rest of the run, behind units that are in their final form
    have hgo : ∀ units : List Nat, units.length = enc.units.length →
        (∃ u rest, units = u :: rest ∧ IsHead (effOp opcode) u) →
        (∀ l short, (SymbolicInstruction.bytecode opcode operands).target = some (l, short) →
          ∃ t, known' l = some t ∧ Points short t p units) →
        fixupLabels known' (pre ++ (units ++ code)) fixups = .ok out →
        ∃ code', out = pre ++ code' ∧
          Laid known' p (.bytecode opcode operands :: is) code' := by
      intro units hulen hhead hpoints hrest
      rw [← List.append_assoc] at hrest
      obtain ⟨code', hout, hlaid⟩ := ih (pre ++ units) out
        (by rw [List.length_append, hulen, hlen, hpre]) (by omega) hbound hplaced' hrest
      exact ⟨units ++ code', by rw [hout, List.append_assoc],
        .insn (hulen.trans hlen) hhead
          (fun hnone => (hspec.plain (by rw [labelOf_link, hnone])).2) hpoints hlaid⟩
    cases htarget : (SymbolicInstruction.bytecode opcode operands).target with
    | none =>
      have hnone : enc.fixup = none := (hspec.plain (by rw [labelOf_link, htarget])).1
      rw [hnone] at hfix
      refine hgo enc.units rfl hspec.head ?_ hfix
      intro l short hl
      exact absurd (htarget.symm.trans hl) (by simp)
    | some ls =>
      obtain ⟨l, short⟩ := ls
      obtain ⟨a, selfOk, hres, u, hu⟩ := hspec.branch l short (by rw [labelOf_link, htarget])
      obtain ⟨t, ht⟩ := Option.ne_none_iff_exists'.mp
        (hplaced _ List.mem_cons_self l short htarget)
      have hpoints (units : List Nat) (hp : Points short t p units) : ∀ l' short',
          (SymbolicInstruction.bytecode opcode operands).target = some (l', short') →
          ∃ t', known' l' = some t' ∧ Points short' t' p units := by
        intro l' short' hl'
        obtain ⟨rfl, rfl⟩ := Prod.mk.inj (Option.some.inj (htarget.symm.trans hl'))
        exact ⟨t, ht, hp⟩
      cases hk : known l with
      | some t0 =>
        -- the label stands before the branch
        have heq : t0 = t := by
          have hlab := hrun.labels l
          rw [ht, hk] at hlab
          exact (Option.some.inj hlab).symm
        subst heq
        obtain ⟨rfl, hnone, hshort⟩ := resolve_some hres hk
        rw [hnone] at hfix
        refine hgo enc.units rfl hspec.head (hpoints _ ?_) hfix
        rw [hu]
        exact points_backward (hbound l t0 ht) (by omega) hshort
      | none =>
        -- the label stands behind the branch, whose zeros `FixupLabels` replaces
        obtain ⟨rfl, hsome⟩ := resolve_none hres hk
        have hu' : enc.units = if short then [u, 0] else [u, 0, 0] := by
          cases short <;> exact hu
        rw [hsome, hu', ← hpre] at hfix
        simp only [Option.toList_some, List.singleton_append, fixupLabels, bind_ok] at hfix
        obtain ⟨mid, hmid, hrest⟩ := hfix
        obtain ⟨units, rfl, hp, tail, htail⟩ :=
          fixupLabel_points ht (hbound l t ht) (by omega) hmid
        rw [hpre] at hp
        obtain ⟨u', rest, hhead, hop⟩ := hspec.head
        have huu : u' = u := by
          rw [hu'] at hhead
          cases short <;> exact (List.cons.inj hhead).1.symm
        have hulen : units.length = enc.units.length := by
          rw [hu']
          cases short
          · obtain ⟨_, rfl⟩ := hp
            rfl
          · obtain ⟨⟨_, rfl⟩, _⟩ := hp
            rfl
        exact hgo units hulen ⟨u, tail, htail, huu ▸ hop⟩ (hpoints units hp) hrest

/-! ## What the writer's checks guarantee -/

theorem forM_ok {ε α : Type} {f : α → Except ε Unit} {xs : List α} {u : Unit}
    (h : xs.forM f = .ok u) : ∀ x ∈ xs, f x = .ok () := by
  induction xs with
  | nil => simp
  | cons x xs ih =>
    rw [List.forM, bind_ok] at h
    obtain ⟨_, hx, hxs⟩ := h
    intro y hy
    rcases List.mem_cons.mp hy with rfl | hy
    · exact hx
    · exact ih hxs y hy

theorem sim_labels (is : List SymbolicInstruction) (s : Sim) (l : Int)
    (h : (is.foldl simStep s).labels l ≠ none) : s.labels l ≠ none ∨ .label l ∈ is := by
  induction is generalizing s with
  | nil => exact .inl h
  | cons i is ih =>
    rcases ih (simStep s i) h with h' | h'
    · cases i with
      | label id =>
        by_cases heq : l = id
        · exact .inr (by simp [heq])
        · exact .inl (by simpa [simStep, Function.update_of_ne heq] using h')
      | nop => exact .inl h'
      | bytecode opcode operands => exact .inl h'
    · exact .inr (List.mem_cons_of_mem i h')

theorem sim_branches_mono (is : List SymbolicInstruction) (s : Sim) :
    s.branches ⊆ (is.foldl simStep s).branches := by
  induction is generalizing s with
  | nil => exact List.Subset.refl _
  | cons i is ih =>
    refine List.Subset.trans ?_ (ih (simStep s i))
    cases i with
    | label id => exact List.Subset.refl _
    | nop => exact List.Subset.refl _
    | bytecode opcode operands => exact List.subset_append_left _ _

theorem sim_branches {is : List SymbolicInstruction} (s : Sim) {opcode : Opcode}
    {operands : List SymbolicOperand} {l : Int} (hi : .bytecode opcode operands ∈ is)
    (hl : .labelTarget l ∈ operands) :
    ∃ bc ∈ (is.foldl simStep s).branches, bc.targetLabelId = l := by
  induction is generalizing s with
  | nil => exact absurd hi (by simp)
  | cons i is ih =>
    rcases List.mem_cons.mp hi with rfl | hi
    · refine ⟨⟨s.offset, l, effOp opcode⟩, ?_, rfl⟩
      refine sim_branches_mono is _ (List.mem_append_right _ ?_)
      exact List.mem_filterMap.mpr ⟨.labelTarget l, hl, rfl⟩
    · exact ih (simStep s i) hi

theorem target_mem {opcode : Opcode} {operands : List SymbolicOperand} {l : Int} {short : Bool}
    (h : (SymbolicInstruction.bytecode opcode operands).target = some (l, short)) :
    .labelTarget l ∈ operands := by
  simp only [SymbolicInstruction.target, Option.bind_eq_some_iff] at h
  obtain ⟨⟨i, short'⟩, _, h⟩ := h
  split at h
  · rename_i l' hl'
    obtain ⟨rfl, -⟩ := Prod.mk.inj (Option.some.inj h)
    exact List.mem_of_getElem? hl'
  · exact absurd h (by simp)

/-- The result of an accepted list: the code laid out with every label at its first placement. -/
theorem assembleInto_laid {ctx : SymbolicOperand → Nat} {w : Writer} {out : Assembled}
    (h : assembleInto ctx w = .ok out) (hsize : size w.instructions < 2 ^ 31) :
    Laid (firstPlacement 0 w.instructions) 0 w.instructions out.code ∧
      isTerminal (lastOp w.instructions) = true ∧
      fixupSwitchOffsets out.code (out.code.length + 1) 0 = .ok () := by
  simp only [assembleInto, encode, bind_ok, pure_ok] at h
  obtain ⟨_, _, _, hterm, _, _, _, hbranch, e, hvisit, code, hfix, _, hswitch, rfl⟩ := h
  obtain ⟨code0, fixups, hcode, hfixups, hrun⟩ := visitAll_emitted ctx w.instructions _ e []
    hvisit (by simp) rfl (by simpa using hsize)
  have hlabels : e.labelOffset = firstPlacement 0 w.instructions := by
    funext l
    simpa using hrun.labels l
  have hplaced : ∀ i ∈ w.instructions, ∀ l short, i.target = some (l, short) →
      e.labelOffset l ≠ none := by
    intro i hi l short hl
    cases i with
    | label id => exact absurd hl (by simp [SymbolicInstruction.target])
    | nop => exact absurd hl (by simp [SymbolicInstruction.target])
    | bytecode opcode operands =>
      -- the branch has been checked, and a label without an offset does not pass
      obtain ⟨bc, hbc, rfl⟩ := sim_branches ⟨0, fun _ => none, []⟩ hi (target_mem hl)
      have hok := forM_ok hbranch bc hbc
      have hsome : (simulate w.instructions).labels bc.targetLabelId ≠ none := by
        intro hnone
        simp [checkBranch, hnone] at hok
      rcases sim_labels _ _ _ hsome with hinit | hmem
      · exact absurd rfl hinit
      · rw [hlabels]
        exact firstPlacement_of_mem hmem 0
  have hbound : ∀ l t, e.labelOffset l = some t → t < 2 ^ 31 := by
    intro l t ht
    rw [hlabels] at ht
    have := firstPlacement_bounds ht
    omega
  rw [hcode, hfixups] at hfix
  obtain ⟨code', rfl, hlaid⟩ := hrun.laid [] code rfl (by simpa using hsize) hbound hplaced hfix
  rw [hlabels] at hlaid
  exact ⟨hlaid, require_ok.mp hterm, hswitch⟩

end ArtPi.Dex
