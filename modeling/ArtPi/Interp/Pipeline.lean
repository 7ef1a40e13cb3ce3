import ArtPi.Dex.Relocate
import ArtPi.Dex.Smali
import ArtPi.Interp.Symbolic

set_option autoImplicit false

/-! # From the text to the interpreter

`EmitSmali` makes a list out of a text, `AssembleInto` code out of the list, `WriteInstructions` puts the final
indexes into the code, and the interpreter runs it. `runsAs_relocated` says that the code with the final indexes
runs as the list does with them, and `runsAs_smali` that every list that comes from a text is one of those it
speaks of. -/

namespace ArtPi.Interp.Machine

open Dex Constants
open Smali hiding Writer

/-! ## The final code -/

/-- The image has the code of the list, and it runs as the list with the final indexes. -/
def RunsRelocated (maps : IndexMaps) (ctx : SymbolicOperand → Nat) (is : List SymbolicInstruction)
    (code : List Nat) : Prop :=
  ∃ code', writeInstructions maps code = some code' ∧ RunsAs (relink maps ctx) is code'

/-- The code of an accepted list, with the final indexes in it, runs as the list does with them. -/
theorem runsAs_relocated {maps : IndexMaps} {ctx : SymbolicOperand → Nat} {w : Writer} {out : Assembled}
    (hasm : assembleInto ctx w = .ok out) (hsize : size w.instructions < 2 ^ 31)
    (hnear : BranchesNear w.instructions) (hused : OpcodesUsed w.instructions) (hkinds : IndexKinds w.instructions)
    (hmapped : Mapped maps ctx w.instructions) : RunsRelocated maps ctx w.instructions out.code := by
  obtain ⟨code', hcode', hof⟩ := writeInstructions_assembled hasm hsize hkinds hmapped
  exact ⟨code', hcode', runsAs_of_codeOf hof (checked_of_accepted hasm hsize) hsize hnear hused⟩

/-- The string that was made sixth comes third in the image. -/
def sixthIsThird : IndexMaps where
  string n := if n = 5 then some 2 else none
  type _ := none
  field _ := none
  method _ := none
  proto _ := none
  methodHandle _ := none

/-- `const-string v0, "art"`, `return-object v0` -/
def stringInsns : List SymbolicInstruction :=
  [.bytecode 0x1a [.vreg 0, .string "art"], .bytecode OP_RETURN_OBJECT [.vreg 0]]

theorem stringInsns_cases {opcode : Opcode} {operands : List SymbolicOperand}
    (h : .bytecode opcode operands ∈ stringInsns) :
    (opcode = 0x1a ∧ operands = [.vreg 0, .string "art"]) ∨ (opcode = OP_RETURN_OBJECT ∧ operands = [.vreg 0]) := by
  simpa [stringInsns] using h

theorem mapped_stringInsns : Mapped sixthIsThird (fun _ => 5) stringInsns := by
  intro opcode operands hi o ho t ht
  rcases stringInsns_cases hi with ⟨rfl, rfl⟩ | ⟨rfl, rfl⟩
  · simp only [List.mem_cons, List.not_mem_nil, or_false] at ho
    rcases ho with rfl | rfl
    · exact absurd ht (by simp [SymbolicOperand.indexType])
    · obtain rfl := Option.some.inj ht
      exact ⟨by decide, 2, rfl, by decide, by decide⟩
  · obtain rfl := List.mem_singleton.1 ho
    exact absurd ht (by simp [SymbolicOperand.indexType])

theorem runsAs_relocated_string : RunsRelocated sixthIsThird (fun _ => 5) stringInsns [0x1a, 5, 0x11] :=
  have hasm : assembleInto (fun _ => 5) ⟨1, stringInsns⟩ = .ok ⟨[0x1a, 5, 0x11], 0⟩ := rfl
  runsAs_relocated hasm (by decide) (branchesNear_of_size (by decide))
    (fun opcode operands hi => by rcases stringInsns_cases hi with ⟨rfl, -⟩ | ⟨rfl, -⟩ <;> rfl)
    (fun opcode operands hi o ho t ht => by
      rcases stringInsns_cases hi with ⟨rfl, rfl⟩ | ⟨rfl, rfl⟩
      · simp only [List.mem_cons, List.not_mem_nil, or_false] at ho
        rcases ho with rfl | rfl
        · exact absurd ht (by simp [SymbolicOperand.indexType])
        · exact (Option.some.inj ht).symm
      · obtain rfl := List.mem_singleton.1 ho
        exact absurd ht (by simp [SymbolicOperand.indexType]))
    mapped_stringInsns

/-! ## The lists of `EmitSmali` -/

/-- What an instruction of the list has to be for that. -/
def InsnRegular : SymbolicInstruction → Prop
  | .bytecode opcode operands =>
    fallsThrough opcode.toNat = false ∧
      ∀ o ∈ operands, ∀ t, o.indexType = some t → t = getIndexTypeFromOpcode (effOp opcode)
  | _ => True

def Regular (is : List SymbolicInstruction) : Prop := ∀ i ∈ is, InsnRegular i

theorem Regular.opcodesUsed {is : List SymbolicInstruction} (h : Regular is) : OpcodesUsed is :=
  fun _ _ hi => (h _ hi).1

theorem Regular.indexKinds {is : List SymbolicInstruction} (h : Regular is) : IndexKinds is :=
  fun _ _ hi => (h _ hi).2

theorem Regular.append {is : List SymbolicInstruction} (h : Regular is) {i : SymbolicInstruction}
    (hi : InsnRegular i) : Regular (is ++ [i]) := by
  intro j hj
  rcases List.mem_append.1 hj with hj | hj
  · exact h j hj
  · exact List.mem_singleton.1 hj ▸ hi


/-- The operands that are read in a form. -/
inductive Gives : Form → SymbolicOperand → Prop where
  | register (checked : Bool) (reg : UInt32) : Gives (.register checked) (.vreg reg)
  | literal (c : Int32) : Gives .literal (.const32 c)
  | text (s : String) : Gives .text (.string s)
  | type (s : String) : Gives .type (.type s)
  | field (parent name type : String) : Gives .field (.field parent name type)
  | label (id : Int) : Gives .label (.labelTarget id)

def formIndexType : Form → Option IndexType
  | .text => some .stringRef
  | .type => some .typeRef
  | .field => some .fieldRef
  | _ => none

theorem Gives.indexType {form : Form} {o : SymbolicOperand} (h : Gives form o) : o.indexType = formIndexType form := by
  cases h <;> rfl

theorem gives_readOperand {w w' : Smali.Writer} {op token : List Char} {form : Form} {o : SymbolicOperand}
    (h : readOperand w op token form = (w', .ok o)) : Gives form o := by
  cases form with
  | register checked =>
    simp only [readOperand, Prod.mk.injEq] at h
    split at h
    · exact absurd h.2 (by simp)
    · obtain rfl := Except.ok.inj h.2
      exact .register _ _
  | field =>
    simp only [readOperand, Prod.mk.injEq] at h
    split at h
    · exact absurd h.2 (by simp)
    · obtain rfl := Except.ok.inj h.2
      exact .field _ _ _
  | literal =>
    obtain rfl := Except.ok.inj (Prod.mk.inj h).2
    exact .literal _
  | text =>
    obtain rfl := Except.ok.inj (Prod.mk.inj h).2
    exact .text _
  | type =>
    obtain rfl := Except.ok.inj (Prod.mk.inj h).2
    exact .type _
  | label =>
    obtain rfl := Except.ok.inj (Prod.mk.inj h).2
    exact .label _

theorem gives_readOperands {forms : List Form} {args : List (List Char)} {w w' : Smali.Writer} {op : List Char}
    {operands : List SymbolicOperand} (h : readOperands w op forms args = (w', .ok operands)) :
    List.Forall₂ Gives forms operands := by
  induction forms generalizing args w w' operands with
  | nil =>
    obtain rfl := Except.ok.inj (Prod.mk.inj h).2
    exact .nil
  | cons form forms ih =>
    cases args with
    | nil => exact absurd (Prod.mk.inj h).2 (by simp)
    | cons token args =>
      rw [readOperands] at h
      cases hread : readOperand w op token form with
      | mk w₁ r =>
        rw [hread] at h
        cases r with
        | error d => exact absurd (Prod.mk.inj h).2 (by simp)
        | ok operand =>
          simp only at h
          cases hrest : readOperands w₁ op forms args with
          | mk w₂ r =>
            rw [hrest] at h
            cases r with
            | error d => exact absurd (Prod.mk.inj h).2 (by simp)
            | ok operands =>
              obtain rfl := Except.ok.inj (Prod.mk.inj h).2
              exact .cons (gives_readOperand hread) (ih hrest)

/-- What a branch of `EmitSmali` puts is regular, whatever the operands are. -/
def RowRegular (row : Row) : Prop :=
  ∀ operands, List.Forall₂ Gives row.forms operands → InsnRegular (row.instruction operands)

theorem indexType_of_gives {forms : List Form} {operands : List SymbolicOperand} (h : List.Forall₂ Gives forms operands)
    {o : SymbolicOperand} (ho : o ∈ operands) : ∃ form ∈ forms, o.indexType = formIndexType form := by
  induction h with
  | nil => exact absurd ho (by simp)
  | cons hhead _ ih =>
    rcases List.mem_cons.1 ho with rfl | ho
    · exact ⟨_, List.mem_cons_self, hhead.indexType⟩
    · obtain ⟨form, hform, heq⟩ := ih ho
      exact ⟨form, List.mem_cons_of_mem _ hform, heq⟩

/-- The opcode is used, and the forms of the operands are of the kind that it wants. -/
def insnFits (opcode : Opcode) (forms : List Form) : Bool :=
  !fallsThrough opcode.toNat && forms.all (fun form => (formIndexType form).all (· = getIndexTypeFromOpcode (effOp opcode)))

theorem regular_bytecode {opcode : Opcode} {forms : List Form} {operands : List SymbolicOperand}
    (h : List.Forall₂ Gives forms operands) (hfits : insnFits opcode forms = true) :
    InsnRegular (.bytecode opcode operands) := by
  simp only [insnFits, Bool.and_eq_true, Bool.not_eq_true', List.all_eq_true] at hfits
  refine ⟨hfits.1, fun o ho t ht => ?_⟩
  obtain ⟨form, hform, heq⟩ := indexType_of_gives h ho
  have hall := hfits.2 form hform
  rw [← heq, ht] at hall
  simpa using hall

theorem regular_insn {opcode : Opcode} {forms : List Form} (hfits : insnFits opcode forms = true) :
    RowRegular (insn opcode forms) :=
  fun _ h => regular_bytecode h hfits

theorem regular_constRow {op : UInt32 → Int32 → Opcode} (h : ∀ r v, fallsThrough (op r v).toNat = false) :
    RowRegular (constRow op) := by
  intro operands hops
  cases hops with
  | cons h0 hops =>
    cases h0
    cases hops with
    | cons h1 hops =>
      cases h1
      cases hops
      exact ⟨h _ _, by simp [SymbolicOperand.indexType]⟩

theorem regular_moveRow {narrow from16 wide : Opcode} (hnarrow : fallsThrough narrow.toNat = false)
    (hfrom16 : fallsThrough from16.toNat = false) (hwide : fallsThrough wide.toNat = false) :
    RowRegular (moveRow narrow from16 wide) := by
  intro operands hops
  cases hops with
  | cons h0 hops =>
    cases h0
    cases hops with
    | cons h1 hops =>
      cases h1
      cases hops
      simp only [moveRow]
      split
      · exact ⟨hnarrow, by simp [SymbolicOperand.indexType]⟩
      · split
        · exact ⟨hfrom16, by simp [SymbolicOperand.indexType]⟩
        · exact ⟨hwide, by simp [SymbolicOperand.indexType]⟩

theorem fallsThrough_putConstOp (r : UInt32) (v : Int32) : fallsThrough (putConstOp r v).toNat = false := by
  unfold putConstOp
  split
  · rfl
  · split <;> rfl

theorem rows_regular : ∀ p ∈ rows, RowRegular p.2 := by
  unfold rows binaryRow
  repeat' refine List.forall_mem_cons.2 ⟨?_, ?_⟩
  all_goals first
    | exact regular_insn rfl
    | exact List.forall_mem_nil _
    | exact regular_moveRow rfl rfl rfl
    | exact fun _ _ => trivial
    | skip
  all_goals refine regular_constRow fun r v => ?_
  · unfold putConst4Op
    split
    · exact fallsThrough_putConstOp r v
    · rfl
  · unfold putConst16Op
    split
    · exact fallsThrough_putConstOp r v
    · rfl
  · exact fallsThrough_putConstOp r v

/-! ### The lines of a text -/

theorem invokeOps_regular : ∀ p ∈ invokeOps,
    fallsThrough p.2.toNat = false ∧ getIndexTypeFromOpcode (effOp p.2) = .methodRef := by
  decide

theorem regular_emitInvoke {w : Smali.Writer} {op : List Char} {args : List (List Char)}
    (hw : Regular w.instructions) : Regular (emitInvoke w op args).1.instructions := by
  unfold emitInvoke
  dsimp only
  split
  · exact hw
  · split
    · exact hw
    · split
      · exact hw
      · next opcode hopcode =>
          split
          · exact hw
          · next written hwritten =>
              obtain ⟨front, back, hops, -⟩ := List.lookup_eq_some_iff.1 hopcode
              obtain ⟨hused, hmethod⟩ := invokeOps_regular (String.ofList op, opcode) (by rw [hops]; simp)
              unfold putInvokeInternal at hwritten
              split at hwritten
              · exact absurd hwritten (by simp)
              · split at hwritten
                · exact absurd hwritten (by simp)
                · split at hwritten
                  · exact absurd hwritten (by simp)
                  · obtain rfl := Option.some.inj hwritten
                    refine hw.append ⟨hused, fun o ho t ht => ?_⟩
                    rw [hmethod]
                    simp only [List.mem_cons, List.not_mem_nil, or_false] at ho
                    rcases ho with rfl | rfl <;> simpa [SymbolicOperand.indexType] using ht.symm

theorem regular_emitInsn {w : Smali.Writer} {op : List Char} {args : List (List Char)}
    (hw : Regular w.instructions) : Regular (emitInsn w op args).1.instructions := by
  unfold emitInsn
  split
  · next row hrow =>
      obtain ⟨front, back, hrows, -⟩ := List.lookup_eq_some_iff.1 hrow
      have hregular := rows_regular (String.ofList op, row) (by rw [hrows]; simp)
      have hsame := readOperands_instructions w op row.forms args
      split
      · exact hw
      · split
        · next hread =>
            rw [hread] at hsame
            exact hsame ▸ hw
        · next hread =>
            rw [hread] at hsame
            exact Regular.append (hsame ▸ hw) (hregular _ (gives_readOperands hread))
  · split
    · exact regular_emitInvoke hw
    · exact hw

theorem regular_emitLine {w : Smali.Writer} {raw : List Char} (hw : Regular w.instructions) :
    Regular (emitLine w raw).1.instructions := by
  unfold emitLine
  split
  · exact hw
  · next op args _ =>
      split
      · split <;> exact hw
      · split
        · have hsame := getOrCreateNamedLabel_instructions w op
          exact Regular.append (hsame ▸ hw) trivial
        · exact regular_emitInsn hw

theorem regular_emitLines {w : Smali.Writer} {n : Nat} {lines : List (List Char)} (hw : Regular w.instructions) :
    Regular (emitLines w n lines).1.instructions := by
  induction lines generalizing w n with
  | nil => exact hw
  | cons raw lines ih =>
    rw [emitLines]
    have hnext : Regular (emitLine w raw).1.instructions := regular_emitLine hw
    split
    · next heq =>
        rw [heq] at hnext
        exact ih hnext
    · next heq =>
        rw [heq] at hnext
        exact hnext

theorem regular_emitSmali {w : Smali.Writer} {smali_code : List Char} (hw : Regular w.instructions) :
    Regular (emitSmali w smali_code).1.instructions := regular_emitLines hw

theorem regular_fresh : Regular fresh.instructions := fun _ hi => absurd hi (by simp [fresh])

theorem runsRelocated_of_emitSmali {smali_code : List Char} {w : Smali.Writer} {maps : IndexMaps}
    {ctx : SymbolicOperand → Nat} {out : Assembled} (hread : emitSmali fresh smali_code = (w, none))
    (hasm : assembleInto ctx w.toWriter = .ok out) (hsize : size w.instructions < 2 ^ 31)
    (hnear : BranchesNear w.instructions) (hmapped : Mapped maps ctx w.instructions) :
    RunsRelocated maps ctx w.instructions out.code := by
  have hregular : Regular w.instructions := by
    rw [show w = (emitSmali fresh smali_code).1 by rw [hread]]
    exact regular_emitSmali regular_fresh
  obtain ⟨code', hcode', hof⟩ := writeInstructions_assembled hasm hsize hregular.indexKinds hmapped
  exact ⟨code', hcode', runsAs_of_codeOf hof (checked_of_accepted hasm hsize) hsize hnear hregular.opcodesUsed⟩

def stringText : List Char := "const-string v0, \"art\"\nreturn-object v0".toList

theorem emitSmali_stringText : (emitSmali fresh stringText).1.instructions = stringInsns := by
  rfl

end ArtPi.Interp.Machine
