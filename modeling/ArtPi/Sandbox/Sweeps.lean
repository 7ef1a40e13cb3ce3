import ArtPi.Sandbox.Prescan

set_option autoImplicit false

/-! # Linear sweeps (`pi_smali.cpp`, `pi_interp_executor.cpp`, `agent_trace.cpp`)

Three loops go through code units from instruction to instruction: that of `dumpSmali`, which lists them, that
of `prescanInsns`, and that of `WarmMethodRefs`, which looks for classes. Each computes the sizes on its own.
On a stream that is made of instructions and tables they are compared with the starts of these. -/

namespace ArtPi.Sandbox.Insns

open Dex (Opcode getWidthFromFormat getFormatFromOpcode inRanges)

/-! ## Sweeps -/

/-- A loop from `p` on: the positions it comes to. `next` is where a round goes on, or nothing if the loop
    ends there. -/
def sweep (next : Nat → Option Nat) (size : Nat) : Nat → Nat → Option (List Nat)
  | 0, _ => none
  | fuel + 1, p =>
    if p < size then
      match next p with
      | some p' => (sweep next size fuel p').map (p :: ·)
      | none => some [p]
    else some []

variable (i : Insns)

/-- `cur[k]`, by pointer. -/
def cur (k : Nat) : Nat := (i.unit k).toNat

/-- The four bytes behind the element width of an array table. -/
def curCount (p : Nat) : Nat := i.cur (p + 2) ||| i.cur (p + 3) <<< 16

/-- The size `dumpSmali` computes. -/
def dumpSize (p : Nat) : Nat :=
  if i.cur p = 0x0100 then 4 + i.cur (p + 1) * 2
  else if i.cur p = 0x0200 then 2 + i.cur (p + 1) * 4
  else if i.cur p = 0x0300 then u32 (4 + u32 (i.cur (p + 1) * i.curCount p + 1) / 2)
  else kInstructionSizes.getD (i.cur p &&& 0xff) 0

/-- One round of `dumpSmali`. -/
def dumpNext (p : Nat) : Option Nat :=
  let insnSize := i.dumpSize p
  some (p + if insnSize = 0 ∨ insnSize > 500 ∨ p + insnSize > i.size then 1 else insnSize)

/-- One round of `WarmMethodRefs`. -/
def warmNext (p : Nat) : Option Nat :=
  let sz :=
    if i.cur p = 0x0100 ∧ p + 1 < i.size then 4 + i.cur (p + 1) * 2
    else if i.cur p = 0x0200 ∧ p + 1 < i.size then 2 + i.cur (p + 1) * 4
    else if i.cur p = 0x0300 ∧ p + 3 < i.size then
      u32 (4 + u32 (i.cur (p + 1) * i.curCount p + 1) / 2)
    else kInstructionSizes.getD (i.cur p &&& 0xff) 0
  some (u32 (p + if sz = 0 then 1 else sz))

def dumpSmali (fuel : Nat) : Option (List Nat) := sweep i.dumpNext i.size fuel 0

/-- The rounds are those of `Prescan`. -/
def prescan (fuel : Nat) : Option (List Nat) := sweep i.round i.size fuel 0

def warmMethodRefs (fuel : Nat) : Option (List Nat) :=
  if i.size = 0 ∨ i.size > 0x100000 then some [] else sweep i.warmNext i.size fuel 0

/-! ## Streams -/

/-- The opcodes that the DEX format does not use. -/
def isUnused (op : Nat) : Bool :=
  inRanges [(0x3e, 0x43), (0x73, 0x73), (0x79, 0x7a), (0xe3, 0xf9)] (UInt8.ofNat op)

def opOf (u : UInt16) : Nat := u.toNat &&& 0xff

def widthOf (op : Nat) : Nat := getWidthFromFormat (getFormatFromOpcode (UInt8.ofNat op))

/-- The code units of an instruction or of a table. -/
inductive WellFormed : List UInt16 → Prop where
  | insn {u : UInt16} {rest : List UInt16} :
      isUnused (opOf u) = false → (opOf u = 0 → u = 0) → rest.length + 1 = widthOf (opOf u) →
      WellFormed (u :: rest)
  | packedSwitch {size : UInt16} {data : List UInt16} :
      data.length = 2 + 2 * size.toNat → WellFormed (0x0100 :: size :: data)
  | sparseSwitch {size : UInt16} {data : List UInt16} :
      data.length = 4 * size.toNat → WellFormed (0x0200 :: size :: data)
  | fillArrayData {width low high : UInt16} {data : List UInt16} :
      data.length = (width.toNat * (low.toNat + 65536 * high.toNat) + 1) / 2 →
      WellFormed (0x0300 :: width :: low :: high :: data)

/-- Instructions and tables, one directly after the other, and what lies behind them in memory. -/
structure Stream where
  items : List (List UInt16)
  wellFormed : ∀ u ∈ items, WellFormed u
  size_lt : items.flatten.length < 2 ^ 32
  behind : Nat → UInt16

namespace Stream

def insns (s : Stream) : Insns where
  unit := fun k => s.items.flatten.getD k (s.behind k)
  size := s.items.flatten.length
  size_lt := s.size_lt

/-- Where items start that stand from `p` on, up to the first one with `last`. -/
def startsUntil (last : List UInt16 → Bool) : Nat → List (List UInt16) → List Nat
  | _, [] => []
  | p, u :: us => if last u then [p] else p :: startsUntil last (p + u.length) us

/-- The starts of the items. -/
def starts (s : Stream) : List Nat := startsUntil (fun _ => false) 0 s.items

/-- An instruction of `invoke-polymorphic` and the opcodes above. -/
def isLate : List UInt16 → Bool
  | [] => false
  | u :: _ => opOf u ≥ 0xe3

end Stream

/-! ## An item in memory -/

/-- The item at a position, and its size. -/
inductive ItemAt (p : Nat) : Nat → Prop where
  | insn : isUnused (i.cur p &&& 0xff) = false → (i.cur p &&& 0xff = 0 → i.cur p = 0) →
      ItemAt p (widthOf (i.cur p &&& 0xff))
  | packedSwitch : i.cur p = 0x0100 → ItemAt p (4 + i.cur (p + 1) * 2)
  | sparseSwitch : i.cur p = 0x0200 → ItemAt p (2 + i.cur (p + 1) * 4)
  | fillArrayData : i.cur p = 0x0300 →
      ItemAt p (4 + (i.cur (p + 1) * i.curCount p + 1) / 2)

variable {i}

theorem kInstructionSizes_eq_widthOf :
    ∀ op < 256, isUnused op = false → kInstructionSizes.getD op 0 = widthOf op := by
  intro op hlt hused
  refine kInstructionSizes_eq hlt ?_
  simp only [isUnused, inRanges, List.any_cons, List.any_nil, UInt8.toNat_ofNat_of_lt' hlt,
    Bool.or_eq_false_iff, Bool.and_eq_false_iff, decide_eq_false_iff_not] at hused
  omega

theorem or_shiftLeft_16 {a b : Nat} (ha : a < 2 ^ 16) : a ||| b <<< 16 = a + 65536 * b := by
  rw [Nat.or_comm, ← Nat.shiftLeft_add_eq_or_of_lt ha, Nat.shiftLeft_eq]
  omega

theorem itemAt_of_wellFormed {u : List UInt16} (h : WellFormed u) {p : Nat}
    (hunits : ∀ k (hk : k < u.length), i.unit (p + k) = u[k]) : i.ItemAt p u.length := by
  cases h with
  | @insn w rest hused hnop hlen =>
    have hw : i.cur p = w.toNat := congrArg UInt16.toNat (hunits 0 (Nat.succ_pos _))
    rw [List.length_cons, hlen, opOf, ← hw]
    refine .insn ?_ ?_
    · rw [hw]; exact hused
    · intro hop
      rw [hw] at hop ⊢
      rw [hnop hop]
      rfl
  | @packedSwitch size data hlen =>
    have hw : i.cur p = 0x0100 := congrArg UInt16.toNat (hunits 0 (Nat.succ_pos _))
    have hsize : i.cur (p + 1) = size.toNat :=
      congrArg UInt16.toNat (hunits 1 (Nat.succ_lt_succ (Nat.succ_pos _)))
    have htotal : (0x0100 :: size :: data).length = 4 + i.cur (p + 1) * 2 := by
      rw [List.length_cons, List.length_cons, hlen, hsize]
      omega
    rw [htotal]
    exact .packedSwitch hw
  | @sparseSwitch size data hlen =>
    have hw : i.cur p = 0x0200 := congrArg UInt16.toNat (hunits 0 (Nat.succ_pos _))
    have hsize : i.cur (p + 1) = size.toNat :=
      congrArg UInt16.toNat (hunits 1 (Nat.succ_lt_succ (Nat.succ_pos _)))
    have htotal : (0x0200 :: size :: data).length = 2 + i.cur (p + 1) * 4 := by
      rw [List.length_cons, List.length_cons, hlen, hsize]
      omega
    rw [htotal]
    exact .sparseSwitch hw
  | @fillArrayData width low high data hlen =>
    have hw : i.cur p = 0x0300 := congrArg UInt16.toNat (hunits 0 (by simp))
    have hwidth : i.cur (p + 1) = width.toNat := congrArg UInt16.toNat (hunits 1 (by simp))
    have hlow : i.cur (p + 2) = low.toNat := congrArg UInt16.toNat (hunits 2 (by simp))
    have hhigh : i.cur (p + 3) = high.toNat := congrArg UInt16.toNat (hunits 3 (by simp))
    have htotal : (0x0300 :: width :: low :: high :: data).length =
        4 + (i.cur (p + 1) * i.curCount p + 1) / 2 := by
      rw [curCount, hwidth, hlow, hhigh, or_shiftLeft_16 low.toNat_lt, List.length_cons,
        List.length_cons, List.length_cons, List.length_cons, hlen]
      omega
    rw [htotal]
    exact .fillArrayData hw

/-! ## One round of each sweep -/

variable {p n : Nat}

theorem ItemAt.pos (h : i.ItemAt p n) : 0 < n := by
  cases h with
  | insn => exact Dex.getWidthFromFormat_pos _
  | packedSwitch => omega
  | sparseSwitch => omega
  | fillArrayData => omega

/-- The first unit of an instruction is none of the marks of a table. -/
theorem ne_mark_of_insn {w : Nat} (h : w &&& 0xff = 0 → w = 0) :
    w ≠ 0x0100 ∧ w ≠ 0x0200 ∧ w ≠ 0x0300 := by
  refine ⟨?_, ?_, ?_⟩ <;> rintro rfl <;> exact absurd (h rfl) (by decide)

theorem op_lt (w : Nat) : w &&& 0xff < 256 := by
  rw [low_byte]
  exact Nat.mod_lt _ (by decide)

/-- `dumpSmali` computes the size of an item, up to the 32 bits of a table's bytes. -/
theorem ItemAt.dumpSize (h : i.ItemAt p n) :
    i.dumpSize p = n ∨ (i.cur p = 0x0300 ∧ i.dumpSize p < n ∧ 2 ^ 31 ≤ n) := by
  cases h with
  | insn hused hnop =>
    obtain ⟨h1, h2, h3⟩ := ne_mark_of_insn hnop
    left
    rw [Insns.dumpSize, if_neg h1, if_neg h2, if_neg h3]
    exact kInstructionSizes_eq_widthOf _ (op_lt _) hused
  | packedSwitch hw =>
    left
    rw [Insns.dumpSize, if_pos hw]
  | sparseSwitch hw =>
    left
    rw [Insns.dumpSize, if_neg (by omega), if_pos hw]
  | fillArrayData hw =>
    rw [Insns.dumpSize, if_neg (by omega), if_neg (by omega), if_pos hw]
    generalize i.cur (p + 1) * i.curCount p = bytes
    by_cases hwrap : bytes + 1 < 2 ^ 32
    · left
      rw [u32, u32, Nat.mod_eq_of_lt hwrap, Nat.mod_eq_of_lt (by omega)]
    · right
      refine ⟨hw, ?_, by omega⟩
      rw [u32, u32]
      omega

theorem ItemAt.dumpNext (h : i.ItemAt p n) (hend : p + n ≤ i.size) (hcap : n ≤ 500) :
    i.dumpNext p = some (p + n) := by
  have hpos := h.pos
  rcases h.dumpSize with hsize | ⟨-, -, hlarge⟩
  · unfold Insns.dumpNext
    rw [hsize]
    dsimp only
    rw [if_neg (by omega)]
  · omega

/-- Behind an item of more than 500 units `dumpSmali` does not go on. -/
theorem ItemAt.dumpNext_inside (h : i.ItemAt p n) (hcap : 500 < n) :
    ∃ p', i.dumpNext p = some p' ∧ p < p' ∧ p' < p + n := by
  refine ⟨_, rfl, ?_⟩
  rcases h.dumpSize with hsize | ⟨-, hlt, -⟩
  · rw [hsize, if_pos (by omega)]
    omega
  · split <;> omega

theorem ItemAt.warmNext (h : i.ItemAt p n) (hend : p + n ≤ i.size) (hcap : i.size ≤ 0x100000) :
    i.warmNext p = some (p + n) := by
  have hpos := h.pos
  unfold Insns.warmNext
  cases h with
  | insn hused hnop =>
    obtain ⟨h1, h2, h3⟩ := ne_mark_of_insn hnop
    rw [if_neg (fun hc => h1 hc.1), if_neg (fun hc => h2 hc.1), if_neg (fun hc => h3 hc.1),
      kInstructionSizes_eq_widthOf _ (op_lt _) hused]
    dsimp only
    rw [if_neg (by omega), u32, Nat.mod_eq_of_lt (by omega)]
  | packedSwitch hw =>
    rw [if_pos ⟨hw, by omega⟩]
    dsimp only
    rw [if_neg (by omega), u32, Nat.mod_eq_of_lt (by omega)]
  | sparseSwitch hw =>
    have hlt : p + 1 < i.size := by omega
    rw [if_neg (by omega), if_pos ⟨hw, hlt⟩]
    dsimp only
    rw [if_neg (by omega), u32, Nat.mod_eq_of_lt (by omega)]
  | fillArrayData hw =>
    rw [if_neg (by omega), if_neg (by omega), if_pos ⟨hw, by omega⟩]
    generalize i.cur (p + 1) * i.curCount p = bytes at *
    dsimp only
    rw [u32, u32, u32, Nat.mod_eq_of_lt (show bytes + 1 < 2 ^ 32 by omega),
      Nat.mod_eq_of_lt (show 4 + (bytes + 1) / 2 < 2 ^ 32 by omega), if_neg (by omega),
      Nat.mod_eq_of_lt (by omega)]

theorem read_eq_cur {k : Nat} (h : k < 2 ^ 32) : i.read k = i.cur k := by
  unfold read cur
  rw [u32, Nat.mod_eq_of_lt h]

/-- `prescanInsns` stops at an opcode from 0xe3 on. The bytes of an array table of less than `2 ^ 31` units
    fit in 32 bits. -/
theorem ItemAt.round (h : i.ItemAt p n) (hend : p + n ≤ i.size)
    (hcap : n < 2 ^ 31 + 4) :
    i.round p = if i.cur p &&& 0xff ≥ 0xe3 then none else some (p + n) := by
  have hpos := h.pos
  have hsize := i.size_lt
  have hread : i.read p = i.cur p := read_eq_cur (by omega)
  have hop : i.op p = i.cur p &&& 0xff := by rw [op, hread]
  unfold Insns.round
  rw [hop, hread]
  cases h with
  | insn hused hnop =>
    have hwidth := kInstructionSizes_eq_widthOf _ (op_lt (i.cur p)) hused
    rw [if_neg (fun hc => hc.2 (hnop hc.1))]
    by_cases hlate : i.cur p &&& 0xff ≥ 0xe3
    · rw [if_pos hlate, if_pos hlate]
    · rw [if_neg hlate, if_neg hlate]
      dsimp only
      rw [hwidth, if_neg (by omega), u32, Nat.mod_eq_of_lt (by omega), if_neg (by omega)]
  | packedSwitch hw =>
    rw [read_eq_cur (show p + 1 < 2 ^ 32 by omega), hw, if_pos (by decide), if_pos rfl,
      if_neg (by decide), u32, Nat.mul_comm, Nat.mod_eq_of_lt (by omega)]
  | sparseSwitch hw =>
    have hlt : p + 1 < 2 ^ 32 := by omega
    rw [read_eq_cur hlt, hw, if_pos (by decide), if_neg (by decide), if_pos rfl,
      if_neg (by decide), u32, Nat.mul_comm, Nat.mod_eq_of_lt (by omega)]
  | fillArrayData hw =>
    have hbytes : i.cur (p + 1) * i.curCount p + 1 < 2 ^ 32 := by omega
    have hcount : i.elemCount p = i.curCount p := by
      rw [elemCount, curCount, read_eq_cur (by omega), read_eq_cur (by omega)]
    rw [read_eq_cur (show p + 1 < 2 ^ 32 by omega), hcount, hw, if_pos (by decide),
      if_neg (by decide), if_neg (by decide), if_pos rfl, if_neg (by decide),
      Nat.mul_comm (i.curCount p)]
    generalize i.cur (p + 1) * i.curCount p = bytes at *
    rw [u32, u32, Nat.mod_eq_of_lt hbytes, Nat.mod_eq_of_lt (by omega)]

/-! ## A whole sweep -/

/-- If a round goes from item to item, up to the first one with `last`, then the sweep finds the starts up
    to there. -/
theorem sweep_startsUntil {next : Nat → Option Nat} {size : Nat} {last : List UInt16 → Bool}
    {items : List (List UInt16)} (hpos : ∀ u ∈ items, 0 < u.length)
    {p : Nat} (hsize : p + items.flatten.length = size)
    (hnext : ∀ pre u post, items = pre ++ u :: post →
      next (p + pre.flatten.length) =
        if last u then none else some (p + pre.flatten.length + u.length))
    {fuel : Nat} (hfuel : items.length < fuel) :
    sweep next size fuel p = some (Stream.startsUntil last p items) := by
  induction items generalizing p fuel with
  | nil =>
    obtain ⟨fuel, rfl⟩ : ∃ f, fuel = f + 1 := ⟨fuel - 1, by omega⟩
    rw [List.flatten_nil, List.length_nil, Nat.add_zero] at hsize
    rw [sweep, if_neg (by omega), Stream.startsUntil]
  | cons u us ih =>
    obtain ⟨fuel, rfl⟩ : ∃ f, fuel = f + 1 := ⟨fuel - 1, by omega⟩
    obtain ⟨hu, hus⟩ := List.forall_mem_cons.1 hpos
    rw [List.flatten_cons, List.length_append] at hsize
    have hfirst : next p = if last u then none else some (p + u.length) := hnext [] u us rfl
    rw [sweep, if_pos (by omega), hfirst, Stream.startsUntil]
    by_cases hlast : last u = true
    · rw [if_pos hlast, if_pos hlast]
    · rw [if_neg hlast, if_neg hlast]
      dsimp only
      rw [ih hus (by omega) ?_ (by simpa using hfuel), Option.map_some]
      intro pre v post hsplit
      have hrest := hnext (u :: pre) v post (by rw [hsplit, List.cons_append])
      rw [List.flatten_cons, List.length_append, ← Nat.add_assoc] at hrest
      exact hrest

/-! ## The sweeps over a stream -/

theorem length_le_flatten {items : List (List UInt16)} (h : ∀ u ∈ items, 0 < u.length) :
    items.length ≤ items.flatten.length := by
  induction items with
  | nil => exact Nat.zero_le _
  | cons u us ih =>
    obtain ⟨hu, hus⟩ := List.forall_mem_cons.1 h
    have hle := ih hus
    rw [List.flatten_cons, List.length_append, List.length_cons]
    omega

namespace Stream

variable (s : Stream) {pre post : List (List UInt16)} {u : List UInt16}

theorem unit_of_split (hsplit : s.items = pre ++ u :: post) {k : Nat} (hk : k < u.length) :
    s.insns.unit (pre.flatten.length + k) = u[k] := by
  have hget : s.items.flatten[pre.flatten.length + k]? = some u[k] := by
    rw [hsplit, List.flatten_append, List.getElem?_append_right (Nat.le_add_right _ _),
      Nat.add_sub_cancel_left, List.flatten_cons, List.getElem?_append_left hk,
      List.getElem?_eq_getElem hk]
  change s.items.flatten.getD _ _ = _
  rw [List.getD_eq_getElem?_getD, hget, Option.getD_some]

theorem itemAt (hsplit : s.items = pre ++ u :: post) :
    s.insns.ItemAt pre.flatten.length u.length :=
  itemAt_of_wellFormed (s.wellFormed u (by rw [hsplit]; simp)) (fun _ hk => s.unit_of_split hsplit hk)

theorem end_le (hsplit : s.items = pre ++ u :: post) :
    pre.flatten.length + u.length ≤ s.insns.size := by
  change _ ≤ s.items.flatten.length
  rw [hsplit, List.flatten_append, List.length_append, List.flatten_cons, List.length_append]
  omega

theorem length_pos : ∀ u ∈ s.items, 0 < u.length := by
  intro u hu
  cases s.wellFormed u hu <;> exact Nat.succ_pos _

theorem isLate_iff (hsplit : s.items = pre ++ u :: post) :
    isLate u = decide (s.insns.cur pre.flatten.length &&& 0xff ≥ 0xe3) := by
  have hpos := s.length_pos u (by rw [hsplit]; simp)
  have hunit := s.unit_of_split hsplit hpos
  rw [Nat.add_zero] at hunit
  cases u with
  | nil => exact absurd hpos (Nat.lt_irrefl 0)
  | cons w rest =>
    rw [cur, hunit]
    rfl

theorem length_items_le : s.items.length ≤ s.insns.size :=
  length_le_flatten s.length_pos

/-- Where no item has more than 500 units, `dumpSmali` comes to the starts. -/
theorem dumpSmali_starts (hcap : ∀ u ∈ s.items, u.length ≤ 500) {fuel : Nat}
    (hfuel : s.insns.size < fuel) : s.insns.dumpSmali fuel = some s.starts := by
  refine sweep_startsUntil s.length_pos (Nat.zero_add _) (fun pre u post hsplit => ?_)
    (Nat.lt_of_le_of_lt s.length_items_le hfuel)
  rw [Nat.zero_add, if_neg Bool.false_ne_true]
  exact (s.itemAt hsplit).dumpNext (s.end_le hsplit) (hcap u (by rw [hsplit]; simp))

theorem warmMethodRefs_starts {fuel : Nat} (hfuel : s.insns.size < fuel) :
    s.insns.warmMethodRefs fuel =
      some (if s.insns.size ≤ 0x100000 then s.starts else []) := by
  unfold warmMethodRefs
  by_cases hcap : s.insns.size ≤ 0x100000
  · rw [if_pos hcap]
    by_cases hempty : s.insns.size = 0
    · have hitems : s.items = [] :=
        List.length_eq_zero_iff.1 (Nat.le_zero.1 (hempty ▸ s.length_items_le))
      rw [if_pos (Or.inl hempty), starts, hitems]
      rfl
    · rw [if_neg (by omega)]
      refine sweep_startsUntil s.length_pos (Nat.zero_add _) (fun pre u post hsplit => ?_)
        (Nat.lt_of_le_of_lt s.length_items_le hfuel)
      rw [Nat.zero_add, if_neg Bool.false_ne_true]
      exact (s.itemAt hsplit).warmNext (s.end_le hsplit) hcap
  · rw [if_neg hcap, if_pos (Or.inr (Nat.lt_of_not_le hcap))]

/-- `prescanInsns` comes to the starts up to the first opcode from 0xe3 on. -/
theorem prescan_starts (hcap : ∀ u ∈ s.items, u.length < 2 ^ 31 + 4) {fuel : Nat}
    (hfuel : s.insns.size < fuel) :
    s.insns.prescan fuel = some (startsUntil isLate 0 s.items) := by
  refine sweep_startsUntil s.length_pos (Nat.zero_add _) (fun pre u post hsplit => ?_)
    (Nat.lt_of_le_of_lt s.length_items_le hfuel)
  rw [Nat.zero_add, s.isLate_iff hsplit,
    (s.itemAt hsplit).round (s.end_le hsplit) (hcap u (by rw [hsplit]; simp))]
  simp only [decide_eq_true_eq]

/-! ## Items of more than 500 units -/

theorem head?_sweep {next : Nat → Option Nat} {size fuel p : Nat} (h : p < size) {l : List Nat}
    (hl : sweep next size fuel p = some l) : l.head? = some p := by
  cases fuel with
  | zero => exact absurd hl (by simp [sweep])
  | succ fuel =>
    rw [sweep, if_pos h] at hl
    cases hnext : next p with
    | none =>
      rw [hnext] at hl
      obtain rfl := Option.some.inj hl
      rfl
    | some p' =>
      rw [hnext] at hl
      obtain ⟨l', -, rfl⟩ := Option.map_eq_some_iff.1 hl
      rfl

theorem le_of_sweep_dumpNext {rest : List (List UInt16)} {pre : List (List UInt16)}
    (hsplit : s.items = pre ++ rest) {fuel : Nat}
    (h : sweep s.insns.dumpNext s.insns.size fuel pre.flatten.length =
      some (startsUntil (fun _ => false) pre.flatten.length rest)) :
    ∀ u ∈ rest, u.length ≤ 500 := by
  induction rest generalizing pre fuel with
  | nil => exact List.forall_mem_nil _
  | cons u us ih =>
    have hitem := s.itemAt hsplit
    have hend := s.end_le hsplit
    have hpos := hitem.pos
    cases fuel with
    | zero => exact absurd h (by simp [sweep])
    | succ fuel =>
      rw [sweep, if_pos (by omega), startsUntil, if_neg Bool.false_ne_true] at h
      by_cases hcap : u.length ≤ 500
      · rw [hitem.dumpNext hend hcap] at h
        obtain ⟨l, hl, hcons⟩ := Option.map_eq_some_iff.1 h
        obtain rfl := (List.cons.inj hcons).2
        have hflat : (pre ++ [u]).flatten.length = pre.flatten.length + u.length := by
          rw [List.flatten_append, List.length_append, List.flatten_singleton]
        refine List.forall_mem_cons.2 ⟨hcap, @ih (pre ++ [u]) ?_ fuel ?_⟩
        · rw [hsplit, List.append_assoc, List.singleton_append]
        · rw [hflat]
          exact hl
      · -- the sweep is inside the item then, and no item starts there
        obtain ⟨p', hnext, hlow, hhigh⟩ := hitem.dumpNext_inside (Nat.lt_of_not_le hcap)
        rw [hnext] at h
        obtain ⟨l, hl, hcons⟩ := Option.map_eq_some_iff.1 h
        obtain rfl := (List.cons.inj hcons).2
        have hhead := head?_sweep (by omega) hl
        cases us with
        | nil => exact absurd hhead (by simp [startsUntil])
        | cons v vs =>
          rw [startsUntil, if_neg Bool.false_ne_true, List.head?_cons] at hhead
          exact absurd (Option.some.inj hhead) (by omega)

/-! ## The three sweeps -/

/-- For every stream. `dumpSmali` comes to the starts if no item has more than 500 units;
    `prescanInsns` comes to those up to the first opcode from 0xe3 on, at which it rejects the method, as
    long as no table has `2 ^ 31` units; and `WarmMethodRefs` to all, or to none if the stream has more
    than 0x100000 units. -/
theorem sweeps_starts {fuel : Nat} (hfuel : s.insns.size < fuel) :
    ((∀ u ∈ s.items, u.length ≤ 500) → s.insns.dumpSmali fuel = some s.starts) ∧
      ((∀ u ∈ s.items, u.length < 2 ^ 31 + 4) →
        s.insns.prescan fuel = some (startsUntil isLate 0 s.items)) ∧
      s.insns.warmMethodRefs fuel = some (if s.insns.size ≤ 0x100000 then s.starts else []) :=
  ⟨fun hcap => s.dumpSmali_starts hcap hfuel, fun hcap => s.prescan_starts hcap hfuel,
    s.warmMethodRefs_starts hfuel⟩

/-- A `packed-switch` table with one case, and `return-void`. -/
def withSwitch : Stream where
  items := [[0x0100, 1, 0, 0, 0, 0], [0x000e]]
  wellFormed := List.forall_mem_cons.2
    ⟨.packedSwitch rfl, List.forall_mem_singleton.2 (.insn (by decide) (by decide) rfl)⟩
  size_lt := by decide
  behind := fun _ => 0

theorem withSwitch_starts :
    withSwitch.insns.dumpSmali 8 = some [0, 6] ∧ withSwitch.insns.prescan 8 = some [0, 6] ∧
      withSwitch.insns.warmMethodRefs 8 = some [0, 6] := by
  obtain ⟨hdump, hprescan, hwarm⟩ := @sweeps_starts withSwitch 8 (by decide)
  exact ⟨hdump (by decide), hprescan (by decide), hwarm⟩

/-- An `invoke-polymorphic`, and `return-void`. -/
def polymorphic : Stream where
  items := [[0x00fa, 0, 0, 0], [0x000e]]
  wellFormed := List.forall_mem_cons.2
    ⟨.insn (by decide) (by decide) (by decide),
      List.forall_mem_singleton.2 (.insn (by decide) (by decide) rfl)⟩
  size_lt := by decide
  behind := fun _ => 0

/-- A `sparse-switch` table with 125 cases, and `return-void`. -/
def longSwitch : Stream where
  items := [0x0200 :: 125 :: List.replicate 500 0, [0x000e]]
  wellFormed := List.forall_mem_cons.2
    ⟨.sparseSwitch List.length_replicate,
      List.forall_mem_singleton.2 (.insn (by decide) (by decide) rfl)⟩
  size_lt := by
    rw [List.flatten_cons, List.length_append, List.length_cons, List.length_cons,
      List.length_replicate]
    decide
  behind := fun _ => 0

/-- `n` times `nop`. -/
def nops (n : Nat) (h : n < 2 ^ 32) : Stream where
  items := List.replicate n [0x0000]
  wellFormed := by
    intro u hu
    rw [List.eq_of_mem_replicate hu]
    exact .insn (by decide) (by decide) rfl
  size_lt := by rwa [List.flatten_replicate_singleton, List.length_replicate]
  behind := fun _ => 0

theorem size_insns_nops {n : Nat} (h : n < 2 ^ 32) : (nops n h).insns.size = n := by
  change (List.replicate n [(0 : UInt16)]).flatten.length = n
  rw [List.flatten_replicate_singleton, List.length_replicate]

theorem starts_nops_ne_nil {n : Nat} (h : n + 1 < 2 ^ 32) : (nops (n + 1) h).starts ≠ [] :=
  List.cons_ne_nil _ _

/-- None of the three sweeps finds all starts in every stream. -/
theorem not_sweeps_starts :
    (∀ fuel, longSwitch.insns.dumpSmali fuel ≠ some longSwitch.starts) ∧
      (∀ fuel, polymorphic.insns.prescan fuel ≠ some polymorphic.starts) ∧
      (∀ fuel, (nops 0x100001 (by decide)).insns.warmMethodRefs fuel ≠
        some (nops 0x100001 (by decide)).starts) := by
  refine ⟨fun fuel h => ?_, fun fuel h => ?_, fun fuel h => ?_⟩
  · have hcap := @le_of_sweep_dumpNext longSwitch _ [] rfl _ h _ List.mem_cons_self
    rw [List.length_cons, List.length_cons, List.length_replicate] at hcap
    exact absurd hcap (by decide)
  · cases fuel with
    | zero => exact absurd h (by simp [prescan, sweep])
    | succ fuel =>
      have hstop : polymorphic.insns.prescan (fuel + 1) = some [0] := rfl
      rw [hstop] at h
      exact absurd h (by decide)
  · have hnone : (nops 0x100001 (by decide)).insns.warmMethodRefs fuel = some [] := by
      rw [warmMethodRefs, size_insns_nops, if_pos (Or.inr (by decide))]
    rw [hnone] at h
    exact starts_nops_ne_nil (n := 0x100000) (by decide) (Option.some.inj h).symm

end Stream

end ArtPi.Sandbox.Insns
