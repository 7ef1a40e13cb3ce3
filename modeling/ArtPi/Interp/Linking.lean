import ArtPi.Dex.NodeTables
import ArtPi.Interp.Pipeline

set_option autoImplicit false

/-! # From the text to the image

The operands of a list are requests to the builder. With what the builder answers, the code in the image runs as the
list does, and each of its indexes leads through the tables of the image to what the operand names. -/

namespace ArtPi.Interp.Machine

open Dex Dex.Nodes Dex.Tables
open Smali hiding Writer
open Sandbox (kNoIndex)

/-- What pass 2 of `AssembleInto` asks for. -/
def request : SymbolicOperand → Option Request
  | .string strVal => some (.string strVal.toList)
  | .type strVal => some (.type strVal.toList)
  | .field strVal extraType extraSig => some (.field strVal.toList extraType.toList extraSig.toList)
  | .method strVal extraType extraSig => some (.method strVal.toList extraType.toList extraSig.toList)
  | _ => none

/-- The operands are answered as the builder answers these requests. -/
def Answered (rs : List Request) (ns : List Nat) (ctx : SymbolicOperand → Nat) (is : List SymbolicInstruction) : Prop :=
  ∀ opcode operands, .bytecode opcode operands ∈ is → ∀ o ∈ operands, ∀ r, request o = some r → (r, ctx o) ∈ rs.zip ns

/-- There are no more nodes of a kind than the instructions that refer to them can number. -/
def Reached (ir : Ir) (is : List SymbolicInstruction) : Prop :=
  ∀ opcode operands, .bytecode opcode operands ∈ is → ∀ o ∈ operands, ∀ r, request o = some r →
    r.count ir ≤ 2 ^ indexBits (getFormatFromOpcode (effOp opcode))

/-- Every index in the final code leads to what the operand names. -/
def Named (ir : Ir) (ctx : SymbolicOperand → Nat) (is : List SymbolicInstruction) : Prop :=
  ∀ opcode operands, .bytecode opcode operands ∈ is → ∀ o ∈ operands, ∀ r, request o = some r →
    r.TextAt ir.tables (relink ir.indexMaps ctx o)

/-- The operands that ask for something are those that have an index, and they ask for it in the same kind. -/
theorem request_cases (o : SymbolicOperand) : (request o = none ∧ o.indexType = none) ∨
    ∃ r t, request o = some r ∧ o.indexType = some t ∧ ∀ maps : IndexMaps, r.indexes maps = maps.of t := by
  cases o with
  | string strVal => exact .inr ⟨_, _, rfl, rfl, fun _ => rfl⟩
  | type strVal => exact .inr ⟨_, _, rfl, rfl, fun _ => rfl⟩
  | field strVal extraType extraSig => exact .inr ⟨_, _, rfl, rfl, fun _ => rfl⟩
  | method strVal extraType extraSig => exact .inr ⟨_, _, rfl, rfl, fun _ => rfl⟩
  | _ => exact .inl ⟨rfl, rfl⟩

variable {rs : List Request} {ns : List Nat} {b : Nodes.Builder} {ctx : SymbolicOperand → Nat}
  {is : List SymbolicInstruction}

/-- The number of a node and its index are below the number of nodes of the kind. -/
theorem lt_count {ir : Ir} {r : Request} {n index : Nat} (h : r.indexes ir.indexMaps n = some index) :
    n < r.count ir ∧ index < r.count ir := by
  cases r
  all_goals
    obtain ⟨hn, hindex⟩ := Option.ite_none_right_eq_some.1 h
    exact ⟨hn, Option.some.inj hindex ▸ Ranking.rank_lt hn⟩

theorem count_lt {ir : Ir} (hfits : ir.Fits) (r : Request) : r.count ir < kNoIndex := by
  have hsmall : (2 : Nat) ^ 16 < kNoIndex := by decide
  cases r with
  | string value => exact hfits.strings
  | type raw => exact Nat.lt_of_le_of_lt hfits.types hsmall
  | proto signature => exact Nat.lt_of_le_of_lt hfits.protos hsmall
  | field parent name fieldType => exact hfits.fields
  | method parent name signature => exact hfits.methods

theorem mapIndex_eq_some_iff {indexes : Nat → Option Nat} {n index : Nat} :
    mapIndex indexes n = some index ↔ n ≠ kNoIndex ∧ indexes n = some index ∧ index ≠ kNoIndex := by
  rw [mapIndex, Option.ite_none_left_eq_some, Option.filter_eq_some_iff]
  simp

theorem resolved_of_answered (hrun : askAll rs .empty = some (ns, b)) (hplain : ∀ r ∈ rs, r.Plain) (hfits : b.ir.Fits)
    {o : SymbolicOperand} {r : Request} {t : IndexType} (ho : (r, ctx o) ∈ rs.zip ns) (ht : o.indexType = some t)
    (hkind : ∀ maps : IndexMaps, r.indexes maps = maps.of t) :
    ∃ index, mapIndex (b.ir.indexMaps.of t) (u4 (ctx o)) = some index ∧ index < r.count b.ir ∧
      relink b.ir.indexMaps ctx o = index ∧ r.TextAt b.ir.tables index := by
  obtain ⟨index, hindex, htext⟩ := List.forall₂_zip (resolved_askAll hrun hplain hfits) ho
  have hfound := (mapIndex_eq_some_iff.1 hindex).2.1
  obtain ⟨hn, hlt⟩ := lt_count hfound
  have hcount := count_lt hfits r
  have hu4 : u4 (ctx o) = ctx o := Nat.mod_eq_of_lt (by rw [kNoIndex] at hcount; omega)
  rw [hkind] at hindex hfound
  refine ⟨index, by rw [hu4, hindex], hlt, ?_, htext⟩
  rw [relink, ht, Option.map_some, Option.getD_some, hu4, hfound, Option.getD_some]

/-- What the builder answers is what the writer of the image can find again. -/
theorem mapped_and_named (hrun : askAll rs .empty = some (ns, b)) (hplain : ∀ r ∈ rs, r.Plain) (hfits : b.ir.Fits)
    (hanswered : Answered rs ns ctx is) (hreached : Reached b.ir is) :
    Mapped b.ir.indexMaps ctx is ∧ Named b.ir ctx is := by
  constructor
  · intro opcode operands hi o ho t ht
    rcases request_cases o with ⟨-, hnone⟩ | ⟨r, t', hr, ht', hkind⟩
    · exact absurd (ht.symm.trans hnone) (by simp)
    · obtain rfl := Option.some.inj (ht.symm.trans ht')
      obtain ⟨index, hindex, hlt, -, -⟩ :=
        resolved_of_answered hrun hplain hfits (hanswered opcode operands hi o ho r hr) ht hkind
      obtain ⟨hne, hfound, hne'⟩ := mapIndex_eq_some_iff.1 hindex
      exact ⟨hne, index, hfound, hne', Nat.lt_of_lt_of_le hlt (hreached opcode operands hi o ho r hr)⟩
  · intro opcode operands hi o ho r hr
    rcases request_cases o with ⟨hnone, -⟩ | ⟨r', t, hr', ht, hkind⟩
    · exact absurd (hr.symm.trans hnone) (by simp)
    · obtain rfl := Option.some.inj (hr.symm.trans hr')
      obtain ⟨index, -, -, hrelink, htext⟩ :=
        resolved_of_answered hrun hplain hfits (hanswered opcode operands hi o ho r hr) ht hkind
      rwa [hrelink]

/-- From the text to the image: the code runs as the list that was read, and what it refers to is what the text names. -/
theorem runsAs_linked {smali_code : List Char} {w : Smali.Writer} {out : Assembled}
    (hread : emitSmali fresh smali_code = (w, none)) (hasm : assembleInto ctx w.toWriter = .ok out)
    (hsize : size w.instructions < 2 ^ 31) (hnear : BranchesNear w.instructions)
    (hrun : askAll rs .empty = some (ns, b)) (hplain : ∀ r ∈ rs, r.Plain) (hfits : b.ir.Fits)
    (hanswered : Answered rs ns ctx w.instructions) (hreached : Reached b.ir w.instructions) :
    RunsRelocated b.ir.indexMaps ctx w.instructions out.code ∧ Named b.ir ctx w.instructions := by
  obtain ⟨hmapped, hnamed⟩ := mapped_and_named hrun hplain hfits hanswered hreached
  exact ⟨runsRelocated_of_emitSmali hread hasm hsize hnear hmapped, hnamed⟩

/-- The nodes of a program with the one string `art`. -/
def artNodes : Nodes.Builder := { Nodes.Builder.empty with strings := ⟨[(['a', 'r', 't'], 0)], [[0x61, 0x72, 0x74]]⟩ }

theorem askAll_art : askAll [.string ['a', 'r', 't']] .empty = some ([0], artNodes) := by
  have hstr : str ['a', 'r', 't'] .empty = some (0, artNodes) := str_new rfl (by decide)
  simp only [askAll, Request.ask, hstr, Option.bind_eq_bind, Option.bind_some]

theorem answered_stringInsns : Answered [.string ['a', 'r', 't']] [0] (fun _ => 0) stringInsns := by
  intro opcode operands hi o ho r hr
  rcases stringInsns_cases hi with ⟨rfl, rfl⟩ | ⟨rfl, rfl⟩
  · rcases ho with _ | ⟨_, _ | ⟨_, ⟨⟩⟩⟩
    · exact absurd hr (by simp [request])
    · obtain rfl := Option.some.inj hr
      exact List.mem_cons_self
  · obtain rfl := List.mem_singleton.1 ho
    exact absurd hr (by simp [request])

theorem reached_stringInsns : Reached artNodes.ir stringInsns := by
  intro opcode operands hi o ho r hr
  rcases stringInsns_cases hi with ⟨rfl, rfl⟩ | ⟨rfl, rfl⟩
  · rcases ho with _ | ⟨_, _ | ⟨_, ⟨⟩⟩⟩
    · exact absurd hr (by simp [request])
    · obtain rfl := Option.some.inj hr
      decide
  · obtain rfl := List.mem_singleton.1 ho
    exact absurd hr (by simp [request])

theorem runsAs_linked_string :
    RunsRelocated artNodes.ir.indexMaps (fun _ => 0) stringInsns [0x1a, 0, 0x11] ∧
      Named artNodes.ir (fun _ => 0) stringInsns := by
  have hread : emitSmali fresh stringText = ((emitSmali fresh stringText).1, none) := Prod.ext rfl (by decide)
  have hasm : assembleInto (fun _ => 0) (emitSmali fresh stringText).1.toWriter = .ok ⟨[0x1a, 0, 0x11], 0⟩ := by
    rfl
  have hfits : artNodes.ir.Fits := ⟨by decide, by decide, by decide, by decide, by decide⟩
  have hplain : ∀ r ∈ [Request.string ['a', 'r', 't']], r.Plain := fun r hr => List.mem_singleton.1 hr ▸ trivial
  rw [← emitSmali_stringText]
  refine runsAs_linked hread hasm ?_ (branchesNear_of_size ?_) askAll_art hplain hfits ?_ ?_ <;>
    rw [emitSmali_stringText]
  · decide
  · decide
  · exact answered_stringInsns
  · exact reached_stringInsns

end ArtPi.Interp.Machine
