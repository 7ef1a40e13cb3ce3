import ArtPi.Interp.Machine
import ArtPi.Lib.Search

set_option autoImplicit false

/-! # Switch tables and array data (`vm/Interp.cpp`)

The handlers of the two switches and of `fill-array-data` get a pointer to a table behind the code.
`switch_lookup` says that a table of either kind is searched as a list of cases is: the packed one by
subtraction, the sparse one by bisection. -/

namespace ArtPi.Interp.Machine

open Dex

/-- The length of the switch instructions. -/
def kInstrLen : Int := 3

def unitAt (data : List Nat) (i : Nat) : Nat := (data.getD i 0) % 2 ^ 16

/-- `s4FromSwitchData`, at a unit. -/
def wordAt (data : List Nat) (i : Nat) : BitVec 32 :=
  BitVec.ofNat 32 (unitAt data i ||| unitAt data (i + 1) <<< 16)

/-- Where the switch goes, and the exception it leaves behind. A difference that overflows, which is undefined in C++,
    is taken to wrap. -/
def dvmInterpHandlePackedSwitch (switchData : List Nat) (testVal : BitVec 32) : Int × Option Thrown :=
  if unitAt switchData 0 ≠ kPackedSwitchSignature then (kInstrLen, some (.internal "bad packed switch magic"))
  else
    let size := unitAt switchData 1
    let firstKey := wordAt switchData 2
    let index := (testVal - firstKey).toInt
    if index < 0 ∨ index ≥ size then (kInstrLen, none)
    else ((wordAt switchData (4 + 2 * index.toNat)).toInt, none)

/-- On which side of the key in a slot the value is. -/
def sparseSide (switchData : List Nat) (testVal : BitVec 32) (mid : Nat) : Ordering :=
  let foundVal := wordAt switchData (2 + 2 * mid)
  if testVal.slt foundVal then .lt else if foundVal.slt testVal then .gt else .eq

def dvmInterpHandleSparseSwitch (switchData : List Nat) (testVal : BitVec 32) : Int × Option Thrown :=
  if unitAt switchData 0 ≠ kSparseSwitchSignature then (kInstrLen, some (.internal "bad sparse switch magic"))
  else
    let size := unitAt switchData 1
    match Search.bisect (sparseSide switchData testVal) 0 ((size : Int) - 1) with
    | some mid => ((wordAt switchData (2 + 2 * (size + mid))).toInt, none)
    | none => (kInstrLen, none)

/-- `dvmInterpHandleFillArrayData`: the exception thrown, or the width and the number of elements to copy. -/
def dvmInterpHandleFillArrayData (arrayObj : Ref) (arrayLength : BitVec 32) (arrayData : List Nat) :
    Except Thrown (Nat × Nat) :=
  if arrayObj = 0 then .error .nullPointer
  else if unitAt arrayData 0 ≠ kArrayDataSignature then .error (.internal "bad array data magic")
  else
    let size := wordAt arrayData 2
    if arrayLength.ult size then .error (.arrayIndexOutOfBounds arrayLength size)
    else .ok (unitAt arrayData 1, size.toNat)

/-! ## Tables as the format has them -/

/-- The two units of a word. -/
def wordUnits (v : BitVec 32) : List Nat := [v.toNat % 2 ^ 16, v.toNat / 2 ^ 16]

/-- A `packed-switch-payload` with something behind it. -/
def packedTable (firstKey : BitVec 32) (targets : List (BitVec 32)) (rest : List Nat) : List Nat :=
  kPackedSwitchSignature :: targets.length :: (wordUnits firstKey ++ (targets.flatMap wordUnits ++ rest))

/-- A `sparse-switch-payload` with something behind it. -/
def sparseTable (cases : List (BitVec 32 × BitVec 32)) (rest : List Nat) : List Nat :=
  kSparseSwitchSignature :: cases.length ::
    ((cases.map Prod.fst).flatMap wordUnits ++ ((cases.map Prod.snd).flatMap wordUnits ++ rest))

/-- `BytecodeEncoder::Visit` of a `PackedSwitchPayload`, for a number of targets that `Pack_16` takes: they are
    zeros until they are fixed up. -/
def visitPackedSwitch (firstKey : BitVec 32) (targets : Nat) : List Nat :=
  kPackedSwitchSignature :: targets :: (wordUnits firstKey ++ (List.replicate targets 0).flatMap wordUnits)

/-- And of a `SparseSwitchPayload`. -/
def visitSparseSwitch (keys : List (BitVec 32)) : List Nat :=
  kSparseSwitchSignature :: keys.length ::
    (keys.flatMap wordUnits ++ (List.replicate keys.length 0).flatMap wordUnits)

/-- The loops of `FixupPackedSwitch` and `FixupSparseSwitch`: words are written from a unit on. -/
def fixupTargets (code : List Nat) (i : Nat) : List (BitVec 32) → List Nat
  | [] => code
  | t :: ts => fixupTargets ((code.set i (t.toNat % 2 ^ 16)).set (i + 1) (t.toNat / 2 ^ 16)) (i + 2) ts

/-- The target of the case of a value, or the next instruction. -/
def caseTarget (cases : List (BitVec 32 × BitVec 32)) (testVal : BitVec 32) : Int :=
  match cases.find? (fun c => c.1 = testVal) with
  | some c => c.2.toInt
  | none => kInstrLen

/-- The cases of a packed table: the keys count up from the first one. -/
def packedCases (firstKey : BitVec 32) (targets : List (BitVec 32)) : List (BitVec 32 × BitVec 32) :=
  targets.zipIdx.map (fun t => (firstKey + BitVec.ofNat 32 t.2, t.1))

/-- The keys of a sparse table are in order. -/
def KeysSorted (cases : List (BitVec 32 × BitVec 32)) : Prop :=
  cases.Pairwise (fun c d => c.1.slt d.1 = true)

/-! ## Words of a table -/

theorem length_flatMap_wordUnits (vs : List (BitVec 32)) : (vs.flatMap wordUnits).length = 2 * vs.length := by
  induction vs with
  | nil => rfl
  | cons v vs ih =>
    rw [List.flatMap_cons, List.length_append, ih, List.length_cons]
    simp only [wordUnits, List.length_cons, List.length_nil]
    omega

theorem wordAt_wordUnits (v : BitVec 32) (rest : List Nat) : wordAt (wordUnits v ++ rest) 0 = v := by
  have hlt := v.isLt
  have hlow : unitAt (wordUnits v ++ rest) 0 = v.toNat % 2 ^ 16 := Nat.mod_mod _ _
  have hhigh : unitAt (wordUnits v ++ rest) 1 = v.toNat / 2 ^ 16 :=
    Nat.mod_eq_of_lt (show v.toNat / 2 ^ 16 < 2 ^ 16 by omega)
  rw [wordAt, hlow, hhigh, Nat.or_comm, ← Nat.shiftLeft_add_eq_or_of_lt (Nat.mod_lt _ (by decide)),
    Nat.shiftLeft_eq, Nat.div_add_mod', BitVec.ofNat_toNat, BitVec.setWidth_eq]

theorem unitAt_append (front data : List Nat) (i : Nat) :
    unitAt (front ++ data) (front.length + i) = unitAt data i := by
  rw [unitAt, List.getD_append_right _ _ _ _ (Nat.le_add_right _ _), Nat.add_sub_cancel_left, unitAt]

theorem wordAt_append (front data : List Nat) (i : Nat) :
    wordAt (front ++ data) (front.length + i) = wordAt data i := by
  rw [wordAt, unitAt_append, Nat.add_assoc, unitAt_append, wordAt]

theorem wordAt_flatMap (vs : List (BitVec 32)) (front rest : List Nat) {i : Nat} (h : i < vs.length) :
    wordAt (front ++ (vs.flatMap wordUnits ++ rest)) (front.length + 2 * i) = vs.get ⟨i, h⟩ := by
  rw [wordAt_append]
  induction vs generalizing i with
  | nil => exact absurd h (Nat.not_lt_zero i)
  | cons v vs ih =>
    rw [List.flatMap_cons, List.append_assoc]
    cases i with
    | zero => exact wordAt_wordUnits v _
    | succ i =>
      have hword := wordAt_append (wordUnits v) (vs.flatMap wordUnits ++ rest) (2 * i)
      rw [show (wordUnits v).length + 2 * i = 2 * (i + 1) by
        simp only [wordUnits, List.length_cons, List.length_nil]; omega] at hword
      rw [hword]
      exact ih (Nat.lt_of_succ_lt_succ h)

/-! ## The tables of the encoder -/

theorem fixupTargets_append (front rest : List Nat) {vs ts : List (BitVec 32)} (h : vs.length = ts.length) :
    fixupTargets (front ++ (vs.flatMap wordUnits ++ rest)) front.length ts =
      front ++ (ts.flatMap wordUnits ++ rest) := by
  induction ts generalizing front vs with
  | nil =>
    rw [List.length_eq_zero_iff.1 h]
    rfl
  | cons t ts ih =>
    obtain ⟨v, vs, rfl⟩ := List.exists_cons_of_length_eq_add_one h
    have hrest := ih (front ++ wordUnits t) (Nat.succ.inj h)
    rw [fixupTargets]
    simpa [wordUnits, List.set_append] using hrest

/-- What is emitted for a packed payload is the table of its targets, once these are written. -/
theorem fixup_visitPackedSwitch (firstKey : BitVec 32) (targets : List (BitVec 32)) (rest : List Nat) :
    fixupTargets (visitPackedSwitch firstKey targets.length ++ rest) 4 targets = packedTable firstKey targets rest := by
  have h := fixupTargets_append (kPackedSwitchSignature :: targets.length :: wordUnits firstKey) rest
    (@List.length_replicate _ targets.length (0 : BitVec 32))
  simpa [visitPackedSwitch, packedTable, wordUnits] using h

theorem fixup_visitSparseSwitch (cases : List (BitVec 32 × BitVec 32)) (rest : List Nat) :
    fixupTargets (visitSparseSwitch (cases.map Prod.fst) ++ rest) (2 + 2 * cases.length) (cases.map Prod.snd) =
      sparseTable cases rest := by
  have h := @fixupTargets_append (kSparseSwitchSignature :: cases.length :: (cases.map Prod.fst).flatMap wordUnits)
    rest (List.replicate cases.length 0) (cases.map Prod.snd) (by simp)
  have hfront : (kSparseSwitchSignature :: cases.length :: (cases.map Prod.fst).flatMap wordUnits).length =
      2 + 2 * cases.length := by
    rw [List.length_cons, List.length_cons, length_flatMap_wordUnits, List.length_map]
    omega
  rw [hfront] at h
  simpa [visitSparseSwitch, sparseTable] using h

/-! ## The searches -/

theorem wordAt_packedTable (firstKey : BitVec 32) (targets : List (BitVec 32)) (rest : List Nat) :
    wordAt (packedTable firstKey targets rest) 2 = firstKey :=
  (wordAt_append [kPackedSwitchSignature, targets.length] _ 0).trans (wordAt_wordUnits firstKey _)

theorem wordAt_packedTable_target (firstKey : BitVec 32) (targets : List (BitVec 32)) (rest : List Nat)
    {i : Nat} (h : i < targets.length) :
    wordAt (packedTable firstKey targets rest) (4 + 2 * i) = targets.get ⟨i, h⟩ :=
  wordAt_flatMap targets (kPackedSwitchSignature :: targets.length :: wordUnits firstKey) rest h

/-- The case of a packed table is the one at the distance of the value from the first key. -/
theorem find?_packedCases (firstKey : BitVec 32) {targets : List (BitVec 32)} (hsize : targets.length < 2 ^ 16)
    (testVal : BitVec 32) :
    (packedCases firstKey targets).find? (fun c => c.1 = testVal) =
      targets[(testVal - firstKey).toNat]?.map (fun t => (testVal, t)) := by
  have hkey : ∀ i < targets.length, firstKey + BitVec.ofNat 32 i = testVal ↔ (testVal - firstKey).toNat = i := by
    intro i hi
    have hmod : (BitVec.ofNat 32 i).toNat = i := Nat.mod_eq_of_lt (by omega)
    constructor
    · rintro rfl
      rw [BitVec.add_comm, BitVec.add_sub_cancel, hmod]
    · rintro rfl
      rw [BitVec.ofNat_toNat, BitVec.setWidth_eq, BitVec.add_comm, BitVec.sub_add_cancel]
  cases hget : targets[(testVal - firstKey).toNat]? with
  | none =>
    rw [Option.map_none, List.find?_eq_none]
    intro c hc
    obtain ⟨⟨t, i⟩, hmem, rfl⟩ := List.mem_map.1 hc
    obtain ⟨-, hi, -⟩ := List.mem_zipIdx hmem
    have hlen := List.getElem?_eq_none_iff.1 hget
    simp only [decide_eq_true_eq]
    intro heq
    have := (hkey i (by omega)).1 heq
    omega
  | some t =>
    obtain ⟨hlt, ht⟩ := List.getElem?_eq_some_iff.1 hget
    rw [Option.map_some, List.find?_eq_some_iff_getElem]
    refine ⟨by simp, (testVal - firstKey).toNat, by simpa [packedCases] using hlt, ?_, ?_⟩
    · simp only [packedCases, List.getElem_map, List.getElem_zipIdx, Nat.zero_add, ht]
      rw [(hkey _ hlt).2 rfl]
    · intro j hj
      simp only [packedCases, List.getElem_map, List.getElem_zipIdx, Nat.zero_add, Bool.not_eq_true',
        decide_eq_false_iff_not]
      intro heq
      have := (hkey j (by omega)).1 heq
      omega

theorem packedSwitch_lookup (firstKey : BitVec 32) {targets : List (BitVec 32)} (hsize : targets.length < 2 ^ 16)
    (rest : List Nat) (testVal : BitVec 32) :
    dvmInterpHandlePackedSwitch (packedTable firstKey targets rest) testVal =
      (caseTarget (packedCases firstKey targets) testVal, none) := by
  have hmagic : unitAt (packedTable firstKey targets rest) 0 = kPackedSwitchSignature := rfl
  have hcount : unitAt (packedTable firstKey targets rest) 1 = targets.length := Nat.mod_eq_of_lt hsize
  rw [dvmInterpHandlePackedSwitch, if_neg (by simp [hmagic]), hcount, wordAt_packedTable, caseTarget,
    find?_packedCases firstKey hsize]
  have hint : (testVal - firstKey).toInt =
      if (testVal - firstKey).toNat < 2 ^ 31 then ((testVal - firstKey).toNat : Int)
      else (testVal - firstKey).toNat - 2 ^ 32 := by
    rw [BitVec.toInt_eq_toNat_cond]
    split <;> split <;> omega
  have hbound := (testVal - firstKey).isLt
  by_cases hlt : (testVal - firstKey).toNat < targets.length
  · have hidx : (testVal - firstKey).toInt.toNat = (testVal - firstKey).toNat := by
      rw [hint, if_pos (by omega), Int.toNat_natCast]
    rw [if_neg (by rw [hint, if_pos (by omega)]; omega), hidx, wordAt_packedTable_target _ _ _ hlt,
      List.getElem?_eq_getElem hlt]
    rfl
  · rw [if_pos (by rw [hint]; split <;> omega), List.getElem?_eq_none (by omega)]
    rfl

theorem wordAt_sparseTable_key (cases : List (BitVec 32 × BitVec 32)) (rest : List Nat) {i : Nat}
    (h : i < cases.length) : wordAt (sparseTable cases rest) (2 + 2 * i) = (cases.get ⟨i, h⟩).1 := by
  have hword := wordAt_flatMap (cases.map Prod.fst) [kSparseSwitchSignature, cases.length]
    ((cases.map Prod.snd).flatMap wordUnits ++ rest) (by simpa using h)
  rw [List.get_eq_getElem, List.getElem_map] at hword
  exact hword

theorem wordAt_sparseTable_target (cases : List (BitVec 32 × BitVec 32)) (rest : List Nat) {i : Nat}
    (h : i < cases.length) :
    wordAt (sparseTable cases rest) (2 + 2 * (cases.length + i)) = (cases.get ⟨i, h⟩).2 := by
  have hword := wordAt_flatMap (cases.map Prod.snd)
    (kSparseSwitchSignature :: cases.length :: (cases.map Prod.fst).flatMap wordUnits) rest (by simpa using h)
  rw [List.get_eq_getElem, List.getElem_map] at hword
  rw [show 2 + 2 * (cases.length + i) = (kSparseSwitchSignature :: cases.length ::
      (cases.map Prod.fst).flatMap wordUnits).length + 2 * i by
    simp only [List.length_cons, length_flatMap_wordUnits, List.length_map]; omega]
  exact hword

/-- On which side of a case the value is. -/
def caseSide (testVal : BitVec 32) (c : BitVec 32 × BitVec 32) : Ordering :=
  if testVal.slt c.1 then .lt else if c.1.slt testVal then .gt else .eq

theorem caseSide_eq_compare (testVal : BitVec 32) (c : BitVec 32 × BitVec 32) :
    caseSide testVal c = compare testVal.toInt c.1.toInt := by
  simp only [caseSide, BitVec.slt_eq_decide, decide_eq_true_eq, Int.compare_eq_ite_lt]

theorem caseSide_eq_iff (testVal : BitVec 32) (c : BitVec 32 × BitVec 32) :
    caseSide testVal c = .eq ↔ c.1 = testVal := by
  rw [caseSide_eq_compare, compare_eq_iff_eq, BitVec.toInt_inj, eq_comm]

theorem ordered_of_slt {testVal : BitVec 32} {c d : BitVec 32 × BitVec 32} (h : c.1.slt d.1 = true) :
    Search.Ordered (caseSide testVal) c d := by
  have hlt : c.1.toInt < d.1.toInt := by simpa [BitVec.slt_eq_decide] using h
  constructor
  · intro hc
    rw [caseSide_eq_compare, compare_lt_iff_lt] at hc ⊢
    exact hc.trans hlt
  · intro hd
    rw [caseSide_eq_compare, compare_gt_iff_gt] at hd ⊢
    exact hlt.trans hd
  · intro hc hd
    rw [caseSide_eq_iff] at hc hd
    rw [hc, hd] at hlt
    exact lt_irrefl _ hlt

theorem sparseSwitch_lookup {cases : List (BitVec 32 × BitVec 32)} (hsize : cases.length < 2 ^ 16)
    (hsorted : KeysSorted cases) (rest : List Nat) (testVal : BitVec 32) :
    dvmInterpHandleSparseSwitch (sparseTable cases rest) testVal = (caseTarget cases testVal, none) := by
  have hmagic : unitAt (sparseTable cases rest) 0 = kSparseSwitchSignature := rfl
  have hcount : unitAt (sparseTable cases rest) 1 = cases.length := Nat.mod_eq_of_lt hsize
  -- in the slots of the table the search meets the cases of the list
  have hslots : Search.bisect (sparseSide (sparseTable cases rest) testVal) 0 ((cases.length : Int) - 1) =
      Search.bisect (fun i => (cases[i]?.map (caseSide testVal)).getD .eq) 0 ((cases.length : Int) - 1) := by
    refine Search.bisect_congr (fun i (hi : i < cases.length) => ?_) (by omega) (by omega)
    rw [sparseSide, wordAt_sparseTable_key _ _ hi, List.getElem?_eq_getElem hi]
    rfl
  have hfind := Search.bisect_eq_find? (caseSide testVal) (hsorted.imp ordered_of_slt) .eq
  rw [← hslots] at hfind
  have hfits : cases.find? (fun c => caseSide testVal c = .eq) = cases.find? (fun c => c.1 = testVal) := by
    simp only [caseSide_eq_iff]
  rw [hfits] at hfind
  rw [dvmInterpHandleSparseSwitch, if_neg (by simp [hmagic]), hcount, caseTarget, ← hfind]
  cases hmid : Search.bisect (sparseSide (sparseTable cases rest) testVal) 0 ((cases.length : Int) - 1) with
  | none => simp only [hmid, Option.bind_none]
  | some mid =>
    have hlt : mid < cases.length := by
      have := Search.bisect_mem (by omega) hmid
      omega
    simp only [hmid, Option.bind_some, List.getElem?_eq_getElem hlt, wordAt_sparseTable_target _ _ hlt,
      List.get_eq_getElem]

/-- A table of either kind takes the interpreter where its list of cases says, or to the instruction behind
    the switch, and leaves no exception. -/
theorem switch_lookup (firstKey : BitVec 32) {targets : List (BitVec 32)} (hpacked : targets.length < 2 ^ 16)
    {cases : List (BitVec 32 × BitVec 32)} (hsparse : cases.length < 2 ^ 16) (hsorted : KeysSorted cases)
    (rest : List Nat) (testVal : BitVec 32) :
    dvmInterpHandlePackedSwitch (packedTable firstKey targets rest) testVal =
        (caseTarget (packedCases firstKey targets) testVal, none) ∧
      dvmInterpHandleSparseSwitch (sparseTable cases rest) testVal = (caseTarget cases testVal, none) :=
  ⟨packedSwitch_lookup firstKey hpacked rest testVal, sparseSwitch_lookup hsparse hsorted rest testVal⟩

/-- The smallest `int`: the packed table counts up to it from the largest one, and it is the first key of the
    sparse one. -/
theorem switch_lookup_intMin :
    dvmInterpHandlePackedSwitch (packedTable 0x7fffffff [10, 20] []) 0x80000000 = (20, none) ∧
      dvmInterpHandleSparseSwitch (sparseTable [(0x80000000, 30), (0, 40), (7, 50)] []) 0x80000000 = (30, none) :=
  have hpacked : ([10, 20] : List (BitVec 32)).length < 2 ^ 16 := by decide
  have hsparse : ([(0x80000000, 30), (0, 40), (7, 50)] : List (BitVec 32 × BitVec 32)).length < 2 ^ 16 := by decide
  switch_lookup 0x7fffffff hpacked hsparse (by simp [KeysSorted]) [] 0x80000000

end ArtPi.Interp.Machine
