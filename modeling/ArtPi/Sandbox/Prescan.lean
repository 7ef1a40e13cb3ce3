import ArtPi.Dex.Opcode

set_option autoImplicit false

/-! # The scan before a run (`src/sandbox/pi_interp_executor.cpp`, `prescanInsns`)

Before the interpreter runs a method, `prescanInsns` goes through its code units once. It is the
only check between a code item and the computed goto of the interpreter, so what it lets through is
executed. `executable_iff` says when an accepted array is one the interpreter can run. -/

namespace ArtPi.Sandbox

open Dex (Opcode getWidthFromFormat getFormatFromOpcode inRanges formats getElem?_formats mem_zipIdx_zip)

/-- A number as `uint32_t`. -/
def u32 (n : Nat) : Nat := n % 2 ^ 32

/-- `kInstructionSizes` of `src/dex/pi_smali.cpp`. -/
def kInstructionSizes : List Nat :=
  [1, 1, 2, 3, 1, 2, 3, 1, 2, 3, 1, 1, 1, 1, 1, 1,
   1, 1, 1, 2, 3, 2, 2, 3, 5, 2, 2, 3, 2, 1, 1, 2,
   2, 1, 2, 2, 3, 3, 3, 1, 1, 2, 3, 3, 3, 2, 2, 2,
   2, 2, 2, 2, 2, 2, 2, 2, 2, 2, 2, 2, 2, 2, 1, 1,
   1, 1, 1, 1, 2, 2, 2, 2, 2, 2, 2, 2, 2, 2, 2, 2,
   2, 2, 2, 2, 2, 2, 2, 2, 2, 2, 2, 2, 2, 2, 2, 2,
   2, 2, 2, 2, 2, 2, 2, 2, 2, 2, 2, 2, 2, 2, 3, 3,
   3, 3, 3, 1, 3, 3, 3, 3, 3, 1, 1, 1, 1, 1, 1, 1,
   1, 1, 1, 1, 1, 1, 1, 1, 1, 1, 1, 1, 1, 1, 1, 1,
   2, 2, 2, 2, 2, 2, 2, 2, 2, 2, 2, 2, 2, 2, 2, 2,
   2, 2, 2, 2, 2, 2, 2, 2, 2, 2, 2, 2, 2, 2, 2, 2,
   1, 1, 1, 1, 1, 1, 1, 1, 1, 1, 1, 1, 1, 1, 1, 1,
   1, 1, 1, 1, 1, 1, 1, 1, 1, 1, 1, 1, 1, 1, 1, 1,
   2, 2, 2, 2, 2, 2, 2, 2, 2, 2, 2, 2, 2, 2, 2, 2,
   2, 2, 2, 1, 1, 1, 1, 1, 1, 1, 1, 1, 1, 1, 1, 1,
   1, 1, 1, 1, 1, 1, 1, 1, 1, 1, 4, 4, 3, 3, 2, 2]

/-- The memory `insns` points to, of which `size` units are the array. Nothing is known about the
    units behind it. -/
structure Insns where
  unit : Nat → UInt16
  size : Nat
  size_lt : size < 2 ^ 32

namespace Insns

variable (i : Insns)

/-- `insns[k]`, with the index computed as `uint32_t`. -/
def read (k : Nat) : Nat := (i.unit (u32 k)).toNat

def op (pc : Nat) : Nat := i.read pc &&& 0xff

def elemCount (pc : Nat) : Nat := i.read (pc + 2) ||| i.read (pc + 3) <<< 16

/-! ## The scan -/

/-- The indices one round of the loop reads. -/
def reads (pc : Nat) : List Nat :=
  if i.read pc = 0x0100 ∨ i.read pc = 0x0200 then [u32 pc, u32 (pc + 1)]
  else if i.read pc = 0x0300 then [u32 pc, u32 (pc + 2), u32 (pc + 3), u32 (pc + 1)]
  else [u32 pc]

/-- One round of the loop: the next `pc`, or nothing if the array is rejected. -/
def round (pc : Nat) : Option Nat :=
  if i.op pc = 0 ∧ i.read pc ≠ 0 then
    if i.read pc = 0x0100 then some (u32 (pc + (4 + 2 * i.read (pc + 1))))
    else if i.read pc = 0x0200 then some (u32 (pc + (2 + 4 * i.read (pc + 1))))
    else if i.read pc = 0x0300 then
      some (u32 (pc + (4 + u32 (i.elemCount pc * i.read (pc + 1) + 1) / 2)))
    else none
  else if i.op pc ≥ 0xe3 then none
  else
    let sz := kInstructionSizes.getD (i.op pc) 0
    if sz = 0 then none
    else if u32 (pc + sz) > i.size then none
    else some (u32 (pc + sz))

/-- The loop from `pc` on: the result, and the positions at which it found an instruction or a
    table. Nothing is returned while the loop is still running. -/
def scan : Nat → Nat → Option (Bool × List Nat)
  | 0, _ => none
  | fuel + 1, pc =>
    if pc < i.size then
      match i.round pc with
      | some pc' => (scan fuel pc').map (fun (r, found) => (r, pc :: found))
      | none => some (false, [])
    else some (pc = i.size, [])

def prescanInsns (fuel : Nat) : Option (Bool × List Nat) := i.scan fuel 0

/-! ## Executable arrays -/

/-- The opcodes whose handler in `InterpC-portable.cpp` has a body. The others are `OP_UNUSED_*`,
    `OP_RETURN_VOID_NO_BARRIER` (0x73 of the goto table), the quick opcodes, and those from 0xfa on:
    their labels stand directly before the next label. -/
def isImplemented (opcode : Nat) : Bool :=
  !inRanges [(0x3e, 0x43), (0x73, 0x73), (0x79, 0x7a), (0xe3, 0xff)] (UInt8.ofNat opcode)

def isTable (p : Nat) : Prop := i.read p = 0x0100 ∨ i.read p = 0x0200 ∨ i.read p = 0x0300

/-- The code units of the instruction or table at `p`, as the formats say and without overflow. -/
def itemSize (p : Nat) : Nat :=
  if i.read p = 0x0100 then 4 + 2 * i.read (p + 1)
  else if i.read p = 0x0200 then 2 + 4 * i.read (p + 1)
  else if i.read p = 0x0300 then 4 + (i.elemCount p * i.read (p + 1) + 1) / 2
  else getWidthFromFormat (getFormatFromOpcode (UInt8.ofNat (i.op p)))

/-- The array from `p` on is the items at the given positions, one directly after the other. -/
def Tiles : Nat → List Nat → Prop
  | p, [] => p = i.size
  | p, q :: qs => q = p ∧ p + i.itemSize p ≤ i.size ∧ Tiles (p + i.itemSize p) qs

/-- What an accepted array, found to consist of the items at `found`, should be. -/
structure Executable (found : List Nat) : Prop where
  tiles : i.Tiles 0 found
  inside : ∀ p ∈ found, ∀ k ∈ i.reads p, k < i.size
  implemented : ∀ p ∈ found, i.isTable p ∨ isImplemented (i.op p) = true

/-- The positions of the items when the array is gone through with exact sizes. -/
inductive Boundary : Nat → Prop where
  | zero : Boundary 0
  | next {p : Nat} : Boundary p → p < i.size → Boundary (p + i.itemSize p)

/-- No item is an instruction without a handler, and the 32-bit arithmetic does not wrap: neither
    in the size of an array table, nor where an item ends. -/
structure Regular : Prop where
  implemented : ∀ p, i.Boundary p → p < i.size → i.isTable p ∨ isImplemented (i.op p) = true
  arrayData : ∀ p, i.Boundary p → p < i.size → i.read p = 0x0300 →
    i.elemCount p * i.read (p + 1) + 1 < 2 ^ 32
  ends : ∀ p, i.Boundary p → p < i.size → p + i.itemSize p < 2 ^ 32

/-! ## One round -/

set_option maxRecDepth 8192 in
/-- The table is right but for the opcodes that only a running system has in its code. -/
theorem kInstructionSizes_eq {op : Nat} (hlt : op < 256) (hop : op < 0xe3 ∨ 0xfa ≤ op) :
    kInstructionSizes.getD op 0 = getWidthFromFormat (getFormatFromOpcode (UInt8.ofNat op)) := by
  have hall : ∀ x ∈ (kInstructionSizes.zip formats).zipIdx, x.2 < 0xe3 ∨ 0xfa ≤ x.2 →
      x.1.1 = getWidthFromFormat x.1.2 := by decide
  have hlength : kInstructionSizes.length = 256 := by decide
  have hget : op < kInstructionSizes.length := by omega
  rw [List.getD_eq_getElem _ _ hget]
  exact hall _ (mem_zipIdx_zip (List.getElem?_eq_getElem hget) (getElem?_formats hlt)) hop

theorem itemSize_pos (p : Nat) : 0 < i.itemSize p := by
  rw [itemSize]
  split
  · omega
  split
  · omega
  split
  · omega
  · exact Dex.getWidthFromFormat_pos _

theorem low_byte (u : Nat) : u &&& 0xff = u % 256 := Nat.and_two_pow_sub_one_eq_mod u 8

variable {i}

/-- The next position of a round is the end of the item, computed in 32 bits. -/
theorem round_eq {p p' : Nat} (h : i.round p = some p') :
    (i.read p = 0x0300 ∧ p' = u32 (p + (4 + u32 (i.elemCount p * i.read (p + 1) + 1) / 2))) ∨
      (i.read p ≠ 0x0300 ∧ p' = u32 (p + i.itemSize p)) := by
  rw [round] at h
  split at h
  · split at h
    · rename_i hu
      refine .inr ⟨by omega, ?_⟩
      rw [itemSize, if_pos hu]
      exact (Option.some.inj h).symm
    split at h
    · rename_i hu' hu
      refine .inr ⟨by omega, ?_⟩
      rw [itemSize, if_neg hu', if_pos hu]
      exact (Option.some.inj h).symm
    split at h
    · rename_i hu
      exact .inl ⟨hu, (Option.some.inj h).symm⟩
    · exact absurd h (by simp)
  · rename_i hinsn
    split at h
    · exact absurd h (by simp)
    rename_i hop
    -- a table would have been seen above
    have hne : i.read p ≠ 0x0100 ∧ i.read p ≠ 0x0200 ∧ i.read p ≠ 0x0300 := by
      rw [op, low_byte] at hinsn
      omega
    refine .inr ⟨hne.2.2, ?_⟩
    rw [itemSize, if_neg hne.1, if_neg hne.2.1, if_neg hne.2.2,
      ← kInstructionSizes_eq (by omega) (.inl (by omega))]
    dsimp only at h
    split at h
    · exact absurd h (by simp)
    split at h
    · exact absurd h (by simp)
    · exact (Option.some.inj h).symm

theorem round_exact {p p' : Nat} (h : i.round p = some p')
    (harray : i.read p = 0x0300 → i.elemCount p * i.read (p + 1) + 1 < 2 ^ 32)
    (hend : p + i.itemSize p < 2 ^ 32) : p' = p + i.itemSize p := by
  rcases round_eq h with ⟨hu, rfl⟩ | ⟨_, rfl⟩
  · have hsize : i.itemSize p = 4 + (i.elemCount p * i.read (p + 1) + 1) / 2 := by
      rw [itemSize, if_neg (by omega), if_neg (by omega), if_pos hu]
    rw [hsize] at hend ⊢
    rw [u32, u32, Nat.mod_eq_of_lt (harray hu), Nat.mod_eq_of_lt hend]
  · exact Nat.mod_eq_of_lt hend

theorem arrayData_of_round {p : Nat} (h : i.round p = some (p + i.itemSize p))
    (hu : i.read p = 0x0300) : i.elemCount p * i.read (p + 1) + 1 < 2 ^ 32 := by
  rcases round_eq h with ⟨_, heq⟩ | ⟨hne, _⟩
  · have hsize : i.itemSize p = 4 + (i.elemCount p * i.read (p + 1) + 1) / 2 := by
      rw [itemSize, if_neg (by omega), if_neg (by omega), if_pos hu]
    rw [hsize] at heq
    generalize i.elemCount p * i.read (p + 1) = data at heq ⊢
    rw [u32, u32] at heq
    omega
  · exact absurd hu hne

theorem reads_inside {p : Nat} (h : p + i.itemSize p ≤ i.size) :
    ∀ k ∈ i.reads p, k < i.size := by
  have hsize := i.size_lt
  have hpos := i.itemSize_pos p
  have hsmall : ∀ k, k < i.size → u32 k < i.size := fun k hk => by
    rwa [u32, Nat.mod_eq_of_lt (by omega)]
  intro k hk
  rw [reads] at hk
  split at hk
  · rename_i hu
    have : 2 ≤ i.itemSize p := by
      rw [itemSize]
      rcases hu with hu | hu
      · rw [if_pos hu]; omega
      · rw [if_neg (by omega), if_pos hu]; omega
    simp only [List.mem_cons, List.not_mem_nil, or_false] at hk
    rcases hk with rfl | rfl
    all_goals exact hsmall _ (by omega)
  split at hk
  · rename_i hu
    have : 4 ≤ i.itemSize p := by
      rw [itemSize, if_neg (by omega), if_neg (by omega), if_pos hu]
      omega
    simp only [List.mem_cons, List.not_mem_nil, or_false] at hk
    rcases hk with rfl | rfl | rfl | rfl
    all_goals exact hsmall _ (by omega)
  · rw [List.mem_singleton.mp hk]
    exact hsmall _ (by omega)

/-! ## The whole scan -/

theorem scan_cases {fuel p : Nat} {found : List Nat} (h : i.scan fuel p = some (true, found)) :
    (p = i.size ∧ found = []) ∨
      ∃ fuel' p' found', fuel = fuel' + 1 ∧ p < i.size ∧ i.round p = some p' ∧
        i.scan fuel' p' = some (true, found') ∧ found = p :: found' := by
  cases fuel with
  | zero => exact absurd h (by simp [scan])
  | succ fuel =>
    rw [scan] at h
    split at h
    · rename_i hlt
      cases hr : i.round p with
      | none => simp [hr] at h
      | some p' =>
        rw [hr] at h
        obtain ⟨⟨r, found'⟩, hs, heq⟩ := Option.map_eq_some_iff.mp h
        obtain ⟨rfl, rfl⟩ := Prod.mk.inj heq
        exact .inr ⟨fuel, p', found', rfl, hlt, rfl, hs, rfl⟩
    · obtain ⟨hp, rfl⟩ := Prod.mk.inj (Option.some.inj h)
      exact .inl ⟨of_decide_eq_true hp, rfl⟩

theorem scan_le {fuel p : Nat} {found : List Nat} (h : i.scan fuel p = some (true, found)) :
    p ≤ i.size := by
  rcases scan_cases h with ⟨rfl, _⟩ | ⟨_, _, _, _, hlt, _⟩
  · exact Nat.le_refl _
  · exact Nat.le_of_lt hlt

/-- With regular items the loop goes from boundary to boundary. -/
theorem Regular.scan_tiles (hreg : i.Regular) (fuel : Nat) : ∀ (p : Nat) (found : List Nat),
    i.Boundary p → i.scan fuel p = some (true, found) →
    i.Tiles p found ∧ ∀ q ∈ found, i.Boundary q ∧ q < i.size ∧ q + i.itemSize q ≤ i.size := by
  induction fuel with
  | zero => intro p found _ h; exact absurd h (by simp [scan])
  | succ fuel ih =>
    intro p found hp h
    rcases scan_cases h with ⟨hend, rfl⟩ | ⟨_, p', found', hf, hlt, hr, hs, rfl⟩
    · exact ⟨hend, by simp⟩
    · obtain rfl := Nat.succ.inj hf
      obtain rfl := round_exact hr (hreg.arrayData p hp hlt) (hreg.ends p hp hlt)
      have hle := scan_le hs
      obtain ⟨htiles, hall⟩ := ih _ found' (.next hp hlt) hs
      refine ⟨⟨rfl, hle, htiles⟩, ?_⟩
      intro q hq
      rcases List.mem_cons.mp hq with rfl | hq
      · exact ⟨hp, hlt, hle⟩
      · exact hall q hq

/-- When the items found tile the array, every round went to the end of its item. -/
theorem Tiles.rounds (fuel : Nat) : ∀ (p : Nat) (found : List Nat), i.Tiles p found →
    i.scan fuel p = some (true, found) →
    ∀ q ∈ found, i.round q = some (q + i.itemSize q) ∧ q + i.itemSize q ≤ i.size ∧
      (q + i.itemSize q < i.size → q + i.itemSize q ∈ found) := by
  induction fuel with
  | zero => intro p found _ h; exact absurd h (by simp [scan])
  | succ fuel ih =>
    intro p found htiles h
    rcases scan_cases h with ⟨_, rfl⟩ | ⟨_, p', found', hf, _, hr, hs, rfl⟩
    · simp
    · obtain rfl := Nat.succ.inj hf
      obtain ⟨_, hle, hrest⟩ := htiles
      -- the rest of the scan starts at the first item found there
      have hp' : p' = p + i.itemSize p ∧
          (p + i.itemSize p < i.size → p + i.itemSize p ∈ found') := by
        rcases scan_cases hs with ⟨rfl, rfl⟩ | ⟨_, _, found'', _, _, _, _, rfl⟩
        · have hend : p + i.itemSize p = i.size := hrest
          exact ⟨hend.symm, fun hlt => absurd hend (by omega)⟩
        · obtain ⟨heq, _, _⟩ := hrest
          exact ⟨heq, fun _ => by rw [heq]; exact List.mem_cons_self⟩
      obtain ⟨rfl, hmem⟩ := hp'
      intro q hq
      rcases List.mem_cons.mp hq with rfl | hq
      · exact ⟨hr, hle, fun hlt => List.mem_cons_of_mem _ (hmem hlt)⟩
      · obtain ⟨hround, hqle, hnext⟩ := ih _ found' hrest hs q hq
        exact ⟨hround, hqle, fun hlt => List.mem_cons_of_mem _ (hnext hlt)⟩

theorem Regular.executable (hreg : i.Regular) {fuel : Nat} {found : List Nat}
    (h : i.prescanInsns fuel = some (true, found)) : i.Executable found := by
  obtain ⟨htiles, hall⟩ := hreg.scan_tiles fuel 0 found .zero h
  refine ⟨htiles, ?_, ?_⟩
  · intro p hp
    exact reads_inside (hall p hp).2.2
  · intro p hp
    obtain ⟨hb, hlt, _⟩ := hall p hp
    exact hreg.implemented p hb hlt

theorem Executable.regular {fuel : Nat} {found : List Nat} (hex : i.Executable found)
    (h : i.prescanInsns fuel = some (true, found)) : i.Regular := by
  have hsize := i.size_lt
  have hrounds := Tiles.rounds fuel 0 found hex.tiles h
  have hfound : ∀ p, i.Boundary p → p < i.size → p ∈ found := by
    intro p hp
    induction hp with
    | zero =>
      intro hlt
      rcases scan_cases h with ⟨h0, _⟩ | ⟨_, _, _, _, _, _, _, rfl⟩
      · omega
      · exact List.mem_cons_self
    | next _ hlt ih => exact (hrounds _ (ih hlt)).2.2
  refine ⟨?_, ?_, ?_⟩
  · intro p hp hlt
    exact hex.implemented p (hfound p hp hlt)
  · intro p hp hlt
    exact arrayData_of_round (hrounds p (hfound p hp hlt)).1
  · intro p hp hlt
    have := (hrounds p (hfound p hp hlt)).2.1
    omega

/-- An accepted array is executable exactly when it is regular. -/
theorem executable_iff {fuel : Nat} {found : List Nat}
    (h : i.prescanInsns fuel = some (true, found)) : i.Executable found ↔ i.Regular :=
  ⟨fun hex => hex.regular h, fun hreg => hreg.executable h⟩

/-- A return, a nop to align, and an array table of three bytes. -/
def withTable : Insns where
  unit := fun k => [0x000e, 0x0000, 0x0300, 1, 3, 0, 0x0201, 0x0003].getD k 0
  size := 8
  size_lt := by decide

theorem executable_withTable : withTable.Executable [0, 1, 2] ↔ withTable.Regular :=
  executable_iff (show withTable.prescanInsns 4 = some (true, [0, 1, 2]) by decide)

/-- One unit, the unused opcode 0x3e. -/
def unused3e : Insns where
  unit := fun _ => 0x003e
  size := 1
  size_lt := by decide

theorem unused3e_accepted :
    unused3e.prescanInsns 2 = some (true, [0]) ∧ ¬ unused3e.Executable [0] := by
  refine ⟨by decide, fun hex => ?_⟩
  rcases hex.implemented 0 (by simp) with (h | h | h) | h
  all_goals exact absurd h (by decide)

end Insns

end ArtPi.Sandbox
