import ArtPi.Debug.NativeCfg

set_option autoImplicit false

/-! # The blocks of an exploration

What a scan of one instruction does to the worklist, the sets and the blocks, and what holds of them in every run. Each
block that was started is added unless its scan comes to a word that is no instruction, or to code that is known. -/

namespace ArtPi.Debug.NativeCfg

/-! ## Addresses -/

theorem mul_ofNat_toNat {k : Nat} (hk : k < 2 ^ 61) : (4 * UInt64.ofNat k).toNat = 4 * k := by
  rw [UInt64.toNat_mul, UInt64.toNat_ofNat']
  have hfour : (4 : UInt64).toNat = 4 := rfl
  rw [hfour]
  omega

theorem offset_toNat (start : UInt64) {k : Nat} (hk : k < 2 ^ 61) :
    (start + 4 * UInt64.ofNat k - start).toNat / 4 = k := by
  rw [UInt64.add_comm, UInt64.add_sub_cancel, mul_ofNat_toNat hk]
  omega

theorem add_four (start : UInt64) (k : Nat) : start + 4 * UInt64.ofNat k + 4 = start + 4 * UInt64.ofNat (k + 1) := by
  rw [UInt64.ofNat_add, UInt64.mul_add, UInt64.add_assoc]
  rfl

theorem pcsFrom_succ (start : UInt64) (n : Nat) :
    pcsFrom start (n + 1) = pcsFrom start n ++ [start + 4 * UInt64.ofNat n] := by
  unfold pcsFrom
  rw [List.range_succ, List.map_append]
  rfl

theorem pcsFrom_nodup (start : UInt64) {n : Nat} (hn : n < 2 ^ 61) : (pcsFrom start n).Nodup := by
  unfold pcsFrom
  refine List.Nodup.map_on (fun i hi j hj h => ?_) List.nodup_range
  rw [UInt64.add_right_inj] at h
  have hval := congrArg UInt64.toNat h
  have hilt := List.mem_range.mp hi
  have hjlt := List.mem_range.mp hj
  rw [mul_ofNat_toNat (by omega), mul_ofNat_toNat (by omega)] at hval
  omega

/-- The instructions of the block so far. -/
def scannedPcs (start cur : UInt64) : List UInt64 := pcsFrom start ((cur - start).toNat / 4)

/-- The place is so many instructions behind the start of the block. -/
def IsAt (start cur : UInt64) (k : Nat) : Prop := k < 2 ^ 60 ∧ cur = start + 4 * UInt64.ofNat k

variable {start cur : UInt64} {k : Nat}

theorem IsAt.scannedPcs (h : IsAt start cur k) : scannedPcs start cur = pcsFrom start k := by
  obtain ⟨hk, rfl⟩ := h
  unfold NativeCfg.scannedPcs
  rw [offset_toNat start (by omega)]

theorem IsAt.pcs {b : Block} (h : IsAt start cur k) (hstart : b.startPc = start) (hend : b.endPc = cur) :
    b.pcs = pcsFrom start (k + 1) := by
  obtain ⟨hk, rfl⟩ := h
  unfold Block.pcs
  rw [hstart, hend, offset_toNat start (by omega)]

theorem IsAt.pcs_eq {b : Block} (h : IsAt start cur k) (hstart : b.startPc = start) (hend : b.endPc = cur) :
    b.pcs = NativeCfg.scannedPcs start cur ++ [cur] := by
  rw [h.pcs hstart hend, h.scannedPcs, pcsFrom_succ, ← h.2]

theorem IsAt.next (h : IsAt start cur k) (hk : k + 1 < 2 ^ 60) : IsAt start (cur + 4) (k + 1) := by
  obtain ⟨-, rfl⟩ := h
  exact ⟨hk, add_four start k⟩

theorem IsAt.scannedPcs_next (h : IsAt start cur k) (hk : k + 1 < 2 ^ 60) :
    NativeCfg.scannedPcs start (cur + 4) = NativeCfg.scannedPcs start cur ++ [cur] := by
  rw [(h.next hk).scannedPcs, h.scannedPcs, pcsFrom_succ, ← h.2]

theorem isAt_start (start : UInt64) : IsAt start start 0 := by
  refine ⟨by decide, ?_⟩
  have hzero : 4 * UInt64.ofNat 0 = 0 := rfl
  rw [hzero, UInt64.add_zero]

/-! ## What a scan does -/

namespace Explore

/-- The instruction is counted. -/
def mark (s : Explore) (cur : UInt64) : Explore := { s with reachablePcs := cur :: s.reachablePcs }

/-- The targets and successors of a block are noted, and the block is added. -/
def note (s : Explore) (targets : List UInt64) (b : Block) : Explore :=
  { b.succs.foldl push s with
    branchTargets := targets ++ (b.succs.foldl push s).branchTargets
    blocks := (b.succs.foldl push s).blocks ++ [b] }

/-- What is still to be scanned, the next address first. -/
def pending (s : Explore) : List UInt64 := (s.current.map Prod.snd).toList ++ s.worklist

variable {p : Process} {f : Function} {s : Explore}

/-- How a scan ends: the block is dropped or finished, or goes on. -/
inductive Scanned (p : Process) (f : Function) (s : Explore) (start cur : UInt64) : Explore → Prop where
  | dropped
      (why : flow p f cur = .absent ∨
        flow p f cur = .runs false ∧ cur + 4 ∉ s.branchTargets ∧ cur + 4 ∈ cur :: s.reachablePcs ∧ cur + 4 ≠ start) :
      Scanned p f s start cur (s.mark cur).pop
  | finished (b : Block) (startPc : b.startPc = start) (endPc : b.endPc = cur) (code : flow p f cur ≠ .absent)
      (succs : (b.succs = (flow p f cur).nexts cur ∧ flow p f cur ≠ .runs false) ∨
        ∃ symbolNext, flow p f cur = .runs symbolNext ∧ cur + 4 ∈ s.branchTargets ∧ b.succs = [cur + 4]) :
      Scanned p f s start cur ((s.mark cur).note (flow p f cur).targets b).pop
  | continued (runs : flow p f cur = .runs false) (uncut : cur + 4 ∉ s.branchTargets)
      (fresh : cur + 4 ∉ cur :: s.reachablePcs ∨ cur + 4 = start) :
      Scanned p f s start cur { s.mark cur with current := some (start, cur + 4) }

theorem scanned (p : Process) (f : Function) (s : Explore) (start cur : UInt64) :
    Scanned p f s start cur (s.scan p f start cur) := by
  unfold scan
  cases hflow : flow p f cur with
  | absent => exact .dropped (.inl hflow)
  | ends ret tailCall =>
    have h := Scanned.finished (p := p) (f := f) (s := s) ⟨start, cur, [], ret, tailCall⟩ rfl rfl
      (by rw [hflow]; exact Flow.noConfusion) (.inl ⟨by rw [hflow]; rfl, by rw [hflow]; exact Flow.noConfusion⟩)
    rwa [hflow] at h
  | jump t =>
    have h := Scanned.finished (p := p) (f := f) (s := s) ⟨start, cur, [t], false, false⟩ rfl rfl
      (by rw [hflow]; exact Flow.noConfusion) (.inl ⟨by rw [hflow]; rfl, by rw [hflow]; exact Flow.noConfusion⟩)
    rwa [hflow] at h
  | branch t =>
    have h := Scanned.finished (p := p) (f := f) (s := s) ⟨start, cur, t.toList ++ [cur + 4], false, false⟩ rfl rfl
      (by rw [hflow]; exact Flow.noConfusion) (.inl ⟨by rw [hflow]; rfl, by rw [hflow]; exact Flow.noConfusion⟩)
    rwa [hflow] at h
  | runs symbolNext =>
    dsimp only
    split
    · rename_i hcut
      have h := Scanned.finished (p := p) (f := f) (s := s) ⟨start, cur, [cur + 4], false, false⟩ rfl rfl
        (by rw [hflow]; exact Flow.noConfusion) (.inr ⟨symbolNext, hflow, hcut, rfl⟩)
      rwa [hflow] at h
    · rename_i huncut
      cases symbolNext with
      | true =>
        have h := Scanned.finished (p := p) (f := f) (s := s) ⟨start, cur, [], false, false⟩ rfl rfl
          (by rw [hflow]; exact Flow.noConfusion)
          (.inl ⟨by rw [hflow]; rfl, by rw [hflow]; intro h; cases h⟩)
        rwa [hflow] at h
      | false =>
        rw [if_neg Bool.false_ne_true]
        unfold goOn
        split
        · rename_i hjoin
          exact .dropped (.inr ⟨hflow, huncut, hjoin.1, hjoin.2⟩)
        · rename_i hfresh
          refine .continued hflow huncut ?_
          by_cases hmem : cur + 4 ∈ cur :: s.reachablePcs
          · exact .inr (Classical.byContradiction (fun hne => hfresh ⟨hmem, hne⟩))
          · exact .inl hmem

/-! ## Notes and the worklist -/

theorem foldl_push_fields (pcs : List UInt64) :
    (pcs.foldl push s).reachablePcs = s.reachablePcs ∧ (pcs.foldl push s).branchTargets = s.branchTargets ∧
      (pcs.foldl push s).blocks = s.blocks := by
  induction pcs generalizing s with
  | nil => exact ⟨rfl, rfl, rfl⟩
  | cons pc pcs ih =>
    obtain ⟨hreachable, htargets, hblocks⟩ := ih (s := s.push pc)
    have hpush : (s.push pc).reachablePcs = s.reachablePcs ∧ (s.push pc).branchTargets = s.branchTargets ∧
        (s.push pc).blocks = s.blocks := by
      unfold push
      split <;> exact ⟨rfl, rfl, rfl⟩
    rw [List.foldl_cons, hreachable, htargets, hblocks]
    exact hpush

theorem mem_foldl_push_visited {pcs : List UInt64} {pc : UInt64} :
    pc ∈ (pcs.foldl push s).visitedBlocks ↔ pc ∈ pcs ∨ pc ∈ s.visitedBlocks := by
  induction pcs generalizing s with
  | nil => simp
  | cons a pcs ih =>
    have hpush : pc ∈ (s.push a).visitedBlocks ↔ pc = a ∨ pc ∈ s.visitedBlocks := by
      unfold push
      split
      · rename_i ha
        constructor
        · exact .inr
        · rintro (rfl | h)
          · exact ha
          · exact h
      · exact List.mem_cons
    rw [List.foldl_cons, ih, hpush, List.mem_cons]
    tauto

theorem mem_foldl_push_worklist {pcs : List UInt64} {pc : UInt64} :
    pc ∈ (pcs.foldl push s).worklist ↔ pc ∈ s.worklist ∨ (pc ∈ pcs ∧ pc ∉ s.visitedBlocks) := by
  induction pcs generalizing s with
  | nil => simp
  | cons a pcs ih =>
    rw [List.foldl_cons, ih]
    unfold push
    split
    · rename_i ha
      rw [List.mem_cons]
      constructor
      · rintro (h | ⟨h, hnot⟩)
        · exact .inl h
        · exact .inr ⟨.inr h, hnot⟩
      · rintro (h | ⟨rfl | h, hnot⟩)
        · exact .inl h
        · exact absurd ha hnot
        · exact .inr ⟨h, hnot⟩
    · rename_i ha
      dsimp only
      rw [List.mem_cons, List.mem_cons, List.mem_cons, not_or]
      constructor
      · rintro ((rfl | h) | ⟨h, -, hnot⟩)
        · exact .inr ⟨.inl rfl, ha⟩
        · exact .inl h
        · exact .inr ⟨.inr h, hnot⟩
      · rintro (h | ⟨rfl | h, hnot⟩)
        · exact .inl (.inr h)
        · exact .inl (.inl rfl)
        · by_cases hpc : pc = a
          · exact .inl (.inl hpc)
          · exact .inr ⟨h, hpc, hnot⟩

theorem nodup_foldl_push {pcs : List UInt64} (hnodup : s.worklist.Nodup)
    (hsub : ∀ pc ∈ s.worklist, pc ∈ s.visitedBlocks) :
    (pcs.foldl push s).worklist.Nodup := by
  induction pcs generalizing s with
  | nil => exact hnodup
  | cons a pcs ih =>
    rw [List.foldl_cons]
    unfold push
    split
    · exact ih hnodup hsub
    · rename_i ha
      refine ih (List.nodup_cons.mpr ⟨fun hmem => ha (hsub a hmem), hnodup⟩) (fun pc hpc => ?_)
      rcases List.mem_cons.mp hpc with rfl | hpc
      · exact List.mem_cons_self
      · exact List.mem_cons_of_mem a (hsub pc hpc)

theorem pop_fields : s.pop.visitedBlocks = s.visitedBlocks ∧ s.pop.branchTargets = s.branchTargets ∧
    s.pop.reachablePcs = s.reachablePcs ∧ s.pop.blocks = s.blocks ∧ s.pop.pending = s.worklist := by
  unfold pop pending
  split <;> simp [*]

end Explore

/-! ## The worklist in every run -/

/-- Between two blocks: what is on the worklist is visited and not started, and the successors of blocks are visited. -/
structure Idle (f : Function) (s : Explore) : Prop where
  entry : f.funcStart ∈ s.visitedBlocks
  worklist : ∀ pc ∈ s.worklist, pc ∈ s.visitedBlocks
  nodup : s.worklist.Nodup
  blocks : ∀ b ∈ s.blocks, b.startPc ∈ s.visitedBlocks ∧ b.startPc ∉ s.worklist
  succs : ∀ b ∈ s.blocks, ∀ t ∈ b.succs, t ∈ s.visitedBlocks
  pushed : ∀ pc ∈ s.visitedBlocks, pc = f.funcStart ∨ ∃ b ∈ s.blocks, pc ∈ b.succs

/-- A block was started and is not waiting, and there is no block of its start. -/
structure Explore.Started (s : Explore) (start : UInt64) : Prop where
  visited : start ∈ s.visitedBlocks
  worklist : start ∉ s.worklist
  blocks : ∀ b ∈ s.blocks, b.startPc ≠ start

structure Visits (f : Function) (s : Explore) : Prop extends Idle f s where
  current : ∀ start cur, s.current = some (start, cur) → s.Started start

/-- A block that was left without being added. -/
structure Explore.Dropped (s : Explore) (start : UInt64) : Prop extends s.Started start where
  left : ∀ cur, s.current ≠ some (start, cur)

/-- No block was left. -/
def Explore.Whole (s : Explore) : Prop :=
  ∀ pc ∈ s.visitedBlocks, pc ∈ s.worklist ∨ (∃ cur, s.current = some (pc, cur)) ∨ ∃ b ∈ s.blocks, b.startPc = pc

namespace Explore

variable {p : Process} {f : Function} {s : Explore}

theorem pop_cases (s : Explore) : (s.worklist = [] ∧ s.pop = { s with current := none }) ∨
    ∃ pc rest, s.worklist = pc :: rest ∧ s.pop = { s with worklist := rest, current := some (pc, pc) } := by
  unfold pop
  cases hlist : s.worklist with
  | nil => exact .inl ⟨rfl, rfl⟩
  | cons pc rest => exact .inr ⟨pc, rest, rfl, rfl⟩

end Explore

section

variable {p : Process} {f : Function} {s : Explore}

theorem Idle.pop (h : Idle f s) : Visits f s.pop := by
  rcases Explore.pop_cases s with ⟨hlist, hpop⟩ | ⟨pc, rest, hlist, hpop⟩
  · rw [hpop]
    exact { entry := h.entry, worklist := h.worklist, nodup := h.nodup, blocks := h.blocks, succs := h.succs,
            pushed := h.pushed, current := fun _ _ hcur => by cases hcur }
  · have hnodup := h.nodup
    have hworklist := h.worklist
    have hblocks := h.blocks
    rw [hlist] at hnodup hworklist hblocks
    obtain ⟨hpc, hrest⟩ := List.nodup_cons.mp hnodup
    rw [hpop]
    refine { entry := h.entry, worklist := fun x hx => hworklist x (List.mem_cons_of_mem pc hx), nodup := hrest,
             blocks := fun b hb => ?_, succs := h.succs, pushed := h.pushed, current := ?_ }
    · obtain ⟨hvisited, hnot⟩ := hblocks b hb
      exact ⟨hvisited, fun hx => hnot (List.mem_cons_of_mem pc hx)⟩
    · intro start cur hcur
      obtain ⟨rfl, -⟩ := Prod.mk.inj (Option.some.inj hcur)
      refine ⟨hworklist pc List.mem_cons_self, hpc, fun b hb heq => ?_⟩
      have hnot := (hblocks b hb).2
      rw [heq] at hnot
      exact hnot List.mem_cons_self

theorem Idle.mark (h : Idle f s) (cur : UInt64) : Idle f (s.mark cur) :=
  ⟨h.entry, h.worklist, h.nodup, h.blocks, h.succs, h.pushed⟩

theorem Idle.note (h : Idle f s) {b : Block} (hb : s.Started b.startPc) (targets : List UInt64) :
    Idle f (s.note targets b) := by
  have hfields := Explore.foldl_push_fields (s := s) b.succs
  have hmem : ∀ c ∈ (s.note targets b).blocks, c ∈ s.blocks ∨ c = b := by
    intro c hc
    unfold Explore.note at hc
    rw [hfields.2.2, List.mem_append, List.mem_singleton] at hc
    exact hc
  have hvisited : ∀ pc, pc ∈ (s.note targets b).visitedBlocks ↔ pc ∈ b.succs ∨ pc ∈ s.visitedBlocks :=
    fun pc => Explore.mem_foldl_push_visited
  have hworklist : ∀ pc, pc ∈ (s.note targets b).worklist ↔ pc ∈ s.worklist ∨ (pc ∈ b.succs ∧ pc ∉ s.visitedBlocks) :=
    fun pc => Explore.mem_foldl_push_worklist
  have hself : b ∈ (s.note targets b).blocks := List.mem_append_right _ List.mem_cons_self
  refine { entry := (hvisited _).mpr (.inr h.entry), worklist := fun pc hpc => ?_,
           nodup := Explore.nodup_foldl_push h.nodup h.worklist, blocks := fun c hc => ?_, succs := fun c hc t ht => ?_,
           pushed := fun pc hpc => ?_ }
  · rcases (hworklist pc).mp hpc with hpc | ⟨hpc, -⟩
    · exact (hvisited pc).mpr (.inr (h.worklist pc hpc))
    · exact (hvisited pc).mpr (.inl hpc)
  · have hstart : c.startPc ∈ s.visitedBlocks ∧ c.startPc ∉ s.worklist := by
      rcases hmem c hc with hc | rfl
      · exact h.blocks c hc
      · exact ⟨hb.visited, hb.worklist⟩
    refine ⟨(hvisited _).mpr (.inr hstart.1), fun hin => ?_⟩
    rcases (hworklist _).mp hin with hin | ⟨-, hnot⟩
    · exact hstart.2 hin
    · exact hnot hstart.1
  · rcases hmem c hc with hc | rfl
    · exact (hvisited t).mpr (.inr (h.succs c hc t ht))
    · exact (hvisited t).mpr (.inl ht)
  · rcases (hvisited pc).mp hpc with hpc | hpc
    · exact .inr ⟨b, hself, hpc⟩
    · rcases h.pushed pc hpc with heq | ⟨c, hc, hpc⟩
      · exact .inl heq
      · refine .inr ⟨c, ?_, hpc⟩
        unfold Explore.note
        rw [hfields.2.2]
        exact List.mem_append_left _ hc

theorem Visits.scan {start cur : UInt64} (h : Visits f s) (hcur : s.current = some (start, cur)) :
    Visits f (s.scan p f start cur) := by
  have hstarted := h.current start cur hcur
  have hscan := Explore.scanned p f s start cur
  generalize s.scan p f start cur = next at hscan ⊢
  cases hscan with
  | dropped why => exact (h.toIdle.mark cur).pop
  | finished b startPc endPc code succs =>
    have hb : (s.mark cur).Started b.startPc := by
      rw [startPc]
      exact ⟨hstarted.visited, hstarted.worklist, hstarted.blocks⟩
    exact ((h.toIdle.mark cur).note hb _).pop
  | continued runs uncut fresh =>
    refine { h.toIdle.mark cur with current := fun start' cur' hcur' => ?_ }
    obtain ⟨rfl, -⟩ := Prod.mk.inj (Option.some.inj hcur')
    exact ⟨hstarted.visited, hstarted.worklist, hstarted.blocks⟩

end

/-! ## Blocks that are left -/

section

variable {p : Process} {f : Function} {s : Explore} {start : UInt64}

theorem Explore.Started.pop (h : s.Started start) : s.pop.Dropped start := by
  rcases Explore.pop_cases s with ⟨hlist, hpop⟩ | ⟨pc, rest, hlist, hpop⟩
  · rw [hpop]
    exact { visited := h.visited, worklist := h.worklist, blocks := h.blocks, left := fun _ hcur => by cases hcur }
  · have hnot := h.worklist
    rw [hlist, List.mem_cons, not_or] at hnot
    rw [hpop]
    refine { visited := h.visited, worklist := hnot.2, blocks := h.blocks, left := fun cur hcur => ?_ }
    exact hnot.1 (Prod.mk.inj (Option.some.inj hcur)).1.symm

theorem Explore.Started.note (h : s.Started start) {b : Block} (hb : b.startPc ≠ start) (targets : List UInt64) :
    (s.note targets b).Started start := by
  refine ⟨Explore.mem_foldl_push_visited.mpr (.inr h.visited), fun hin => ?_, fun c hc => ?_⟩
  · rcases Explore.mem_foldl_push_worklist.mp hin with hin | ⟨-, hnot⟩
    · exact h.worklist hin
    · exact hnot h.visited
  · unfold Explore.note at hc
    rw [(Explore.foldl_push_fields b.succs).2.2, List.mem_append, List.mem_singleton] at hc
    rcases hc with hc | rfl
    · exact h.blocks c hc
    · exact hb

theorem Explore.Dropped.scan (h : s.Dropped start) {block cur : UInt64} (hcur : s.current = some (block, cur)) :
    (s.scan p f block cur).Dropped start := by
  have hne : block ≠ start := by
    rintro rfl
    exact h.left cur hcur
  have hmark : (s.mark cur).Started start := ⟨h.visited, h.worklist, h.blocks⟩
  have hscan := Explore.scanned p f s block cur
  generalize s.scan p f block cur = next at hscan ⊢
  cases hscan with
  | dropped why => exact hmark.pop
  | finished b startPc endPc code succs => exact (hmark.note (by rw [startPc]; exact hne) _).pop
  | continued runs uncut fresh =>
    refine { hmark with left := fun cur' hcur' => ?_ }
    exact hne (Prod.mk.inj (Option.some.inj hcur')).1

theorem Explore.Whole.not_dropped (h : s.Whole) : ¬ s.Dropped start := by
  intro hdropped
  rcases h start hdropped.visited with hin | ⟨cur, hcur⟩ | ⟨b, hb, heq⟩
  · exact hdropped.worklist hin
  · exact hdropped.left cur hcur
  · exact hdropped.blocks b hb heq

theorem Explore.whole_of_pop_mark {cur : UInt64} (h : (s.mark cur).pop.Whole) (hstarted : s.Started start) : False :=
  h.not_dropped (Explore.Started.pop ⟨hstarted.visited, hstarted.worklist, hstarted.blocks⟩)

/-- Where no block was left after a block is done, none was before. -/
theorem Explore.Whole.of_note {cur : UInt64} {b : Block} {targets : List UInt64}
    (h : ((s.mark cur).note targets b).pop.Whole) (hcur : s.current = some (b.startPc, cur)) : s.Whole := by
  obtain ⟨hvisited, -, -, hblocks, -⟩ := Explore.pop_fields (s := (s.mark cur).note targets b)
  have hold : ∀ pc ∈ s.visitedBlocks, pc ∈ ((s.mark cur).note targets b).worklist → pc ∈ s.worklist := by
    intro pc hpc hin
    rcases Explore.mem_foldl_push_worklist.mp hin with hin | ⟨-, hnot⟩
    · exact hin
    · exact absurd hpc hnot
  intro pc hpc
  have hpc' : pc ∈ ((s.mark cur).note targets b).pop.visitedBlocks := by
    rw [hvisited]
    exact Explore.mem_foldl_push_visited.mpr (.inr hpc)
  have hpending : pc ∈ ((s.mark cur).note targets b).worklist ∨
      ∃ c ∈ ((s.mark cur).note targets b).pop.blocks, c.startPc = pc := by
    rcases Explore.pop_cases ((s.mark cur).note targets b) with ⟨hlist, hpop⟩ | ⟨first, rest, hlist, hpop⟩
    · rcases h pc hpc' with hin | ⟨cur', hcur'⟩ | hblock
      · rw [hpop] at hin
        exact .inl hin
      · rw [hpop] at hcur'
        cases hcur'
      · exact .inr hblock
    · rcases h pc hpc' with hin | ⟨cur', hcur'⟩ | hblock
      · rw [hpop] at hin
        exact .inl (by rw [hlist]; exact List.mem_cons_of_mem first hin)
      · rw [hpop] at hcur'
        rw [← (Prod.mk.inj (Option.some.inj hcur')).1, hlist]
        exact .inl List.mem_cons_self
      · exact .inr hblock
  rcases hpending with hin | ⟨c, hc, heq⟩
  · exact .inl (hold pc hpc hin)
  · rw [hblocks] at hc
    unfold Explore.note at hc
    rw [(Explore.foldl_push_fields b.succs).2.2, List.mem_append, List.mem_singleton] at hc
    rcases hc with hc | rfl
    · exact .inr (.inr ⟨c, hc, heq⟩)
    · exact .inr (.inl ⟨cur, by rw [hcur, heq]⟩)

end

/-! ## The pieces of a run -/

/-- The instructions of the block that is scanned. -/
def Explore.openPcs (s : Explore) : List UInt64 :=
  match s.current with
  | none => []
  | some (start, cur) => scannedPcs start cur

/-- The blocks hold code, each address once, and the entry at the start of one only; where none was left, they hold what
    was counted. -/
structure Pieces (p : Process) (f : Function) (s : Explore) : Prop where
  place : ∀ start cur, s.current = some (start, cur) → ∃ k, k ≤ s.reachablePcs.length ∧ IsAt start cur k ∧
    (∀ pc ∈ scannedPcs start cur, flow p f pc ≠ .absent) ∧
      (f.funcStart ∈ scannedPcs start cur ++ [cur] → start = f.funcStart)
  entry : f.funcStart ∈ s.reachablePcs ∨ s.current = some (f.funcStart, f.funcStart)
  blocks : ∀ b ∈ s.blocks, b.pcs.Nodup ∧ (∀ pc ∈ b.pcs, flow p f pc ≠ .absent) ∧
    (f.funcStart ∈ b.pcs → b.startPc = f.funcStart)
  whole : s.Whole → s.reachablePcs.Perm (s.openPcs ++ s.blocks.flatMap Block.pcs)

section

variable {p : Process} {f : Function} {s : Explore}

theorem scannedPcs_start (start : UInt64) : scannedPcs start start = [] := by
  rw [(isAt_start start).scannedPcs]
  rfl

/-- After a block is dropped or done, the next one has no instructions yet. -/
theorem Explore.pop_current (s : Explore) :
    s.pop.openPcs = [] ∧ ∀ start cur, s.pop.current = some (start, cur) → cur = start := by
  rcases Explore.pop_cases s with ⟨hlist, hpop⟩ | ⟨pc, rest, hlist, hpop⟩
  · rw [hpop]
    exact ⟨rfl, fun _ _ hcur => by cases hcur⟩
  · rw [hpop]
    refine ⟨scannedPcs_start pc, fun start cur hcur => ?_⟩
    obtain ⟨rfl, rfl⟩ := Prod.mk.inj (Option.some.inj hcur)
    rfl

theorem Pieces.place_pop (s : Explore) : ∀ start cur, s.pop.current = some (start, cur) →
    ∃ k, k ≤ s.pop.reachablePcs.length ∧ IsAt start cur k ∧
      (∀ pc ∈ scannedPcs start cur, flow p f pc ≠ .absent) ∧
        (f.funcStart ∈ scannedPcs start cur ++ [cur] → start = f.funcStart) := by
  intro start cur hcur
  obtain rfl := s.pop_current.2 start cur hcur
  refine ⟨0, Nat.zero_le _, isAt_start cur, ?_⟩
  rw [scannedPcs_start]
  exact ⟨fun pc hpc => absurd hpc List.not_mem_nil, fun hin => (List.mem_singleton.mp hin).symm⟩

theorem Pieces.scan {start cur : UInt64} (h : Pieces p f s) (hvisits : Visits f s)
    (hcur : s.current = some (start, cur)) (hlen : s.reachablePcs.length < kMaxInsnsExplored) :
    Pieces p f (s.scan p f start cur) := by
  have hstarted := hvisits.current start cur hcur
  obtain ⟨k, hk, hat, hcode, hfirst⟩ := h.place start cur hcur
  have hbound : k + 1 < 2 ^ 60 := by
    unfold kMaxInsnsExplored at hlen
    omega
  have hentry : f.funcStart ∈ cur :: s.reachablePcs := by
    rcases h.entry with hin | heq
    · exact List.mem_cons_of_mem cur hin
    · rw [hcur, Option.some.injEq, Prod.mk.injEq] at heq
      rw [heq.2]
      exact List.mem_cons_self
  have hopen : s.openPcs = scannedPcs start cur := by
    unfold Explore.openPcs
    rw [hcur]
  have hscan := Explore.scanned p f s start cur
  generalize s.scan p f start cur = next at hscan ⊢
  cases hscan with
  | dropped why =>
    obtain ⟨-, -, hreachable, hblocks, -⟩ := Explore.pop_fields (s := s.mark cur)
    refine ⟨Pieces.place_pop _, .inl (by rw [hreachable]; exact hentry), ?_, ?_⟩
    · rw [hblocks]
      exact h.blocks
    · intro hwhole
      exact absurd hwhole (fun hw => Explore.whole_of_pop_mark hw hstarted)
  | finished b startPc endPc code succs =>
    obtain ⟨-, -, hreachable, hblocks, -⟩ :=
      Explore.pop_fields (s := (s.mark cur).note (flow p f cur).targets b)
    have hfields := Explore.foldl_push_fields (s := s.mark cur) b.succs
    have hreachable' : ((s.mark cur).note (flow p f cur).targets b).pop.reachablePcs = cur :: s.reachablePcs := by
      rw [hreachable]
      exact hfields.1
    have hblocks' : ((s.mark cur).note (flow p f cur).targets b).pop.blocks = s.blocks ++ [b] := by
      rw [hblocks]
      unfold Explore.note
      rw [hfields.2.2]
      rfl
    have hpcs := hat.pcs_eq startPc endPc
    refine ⟨Pieces.place_pop _, .inl (by rw [hreachable']; exact hentry), ?_, ?_⟩
    · rw [hblocks']
      intro c hc
      rcases List.mem_append.mp hc with hc | hc
      · exact h.blocks c hc
      · rw [List.mem_singleton.mp hc]
        refine ⟨by rw [hat.pcs startPc endPc]; exact pcsFrom_nodup start (by omega), ?_, ?_⟩
        · rw [hpcs]
          intro pc hpc
          rcases List.mem_append.mp hpc with hpc | hpc
          · exact hcode pc hpc
          · rw [List.mem_singleton.mp hpc]
            exact code
        · rw [hpcs, startPc]
          exact hfirst
    · intro hwhole
      have hperm := h.whole (hwhole.of_note (by rw [hcur, startPc]))
      rw [hreachable', hblocks', (Explore.pop_current _).1, List.flatMap_append, List.flatMap_singleton, hpcs]
      rw [hopen] at hperm
      rw [List.perm_iff_count] at hperm ⊢
      intro pc
      have hcount := hperm pc
      simp only [List.count_cons, List.count_append, List.count_nil] at hcount ⊢
      omega
  | continued runs uncut fresh =>
    have hnext := hat.scannedPcs_next hbound
    refine ⟨?_, .inl hentry, h.blocks, ?_⟩
    · intro start' cur' hcur'
      obtain ⟨rfl, rfl⟩ := Prod.mk.inj (Option.some.inj hcur')
      refine ⟨k + 1, Nat.succ_le_succ hk, hat.next hbound, ?_, ?_⟩
      · rw [hnext]
        intro pc hpc
        rcases List.mem_append.mp hpc with hpc | hpc
        · exact hcode pc hpc
        · rw [List.mem_singleton.mp hpc, runs]
          exact Flow.noConfusion
      · rw [hnext]
        intro hin
        rcases List.mem_append.mp hin with hin | hin
        · exact hfirst hin
        · -- the entry is known code
          have heq := List.mem_singleton.mp hin
          rcases fresh with hfresh | hstart
          · rw [← heq] at hfresh
            exact absurd hentry hfresh
          · rw [← hstart, heq]
    · intro hwhole
      have hbefore : s.Whole := by
        intro pc hpc
        rcases hwhole pc hpc with hin | ⟨cur', hcur'⟩ | hblock
        · exact .inl hin
        · exact .inr (.inl ⟨cur, by rw [hcur, (Prod.mk.inj (Option.some.inj hcur')).1]⟩)
        · exact .inr (.inr hblock)
      have hperm := h.whole hbefore
      have hopen' : ({ s.mark cur with current := some (start, cur + 4) } : Explore).openPcs =
          scannedPcs start cur ++ [cur] := hnext
      rw [hopen'] 
      rw [hopen] at hperm
      rw [List.perm_iff_count] at hperm ⊢
      intro pc
      have hcount := hperm pc
      have hmark : ({ s.mark cur with current := some (start, cur + 4) } : Explore).reachablePcs =
          cur :: s.reachablePcs := rfl
      have hsame : ({ s.mark cur with current := some (start, cur + 4) } : Explore).blocks = s.blocks := rfl
      rw [hmark, hsame]
      simp only [List.count_cons, List.count_append, List.count_nil] at hcount ⊢
      omega

end

/-! ## What is known of the code -/

/-- What is waiting or counted can be reached, what can be reached from what is counted is waiting or counted, and where
    visited addresses and targets come from. -/
structure Marks (p : Process) (f : Function) (s : Explore) : Prop where
  targetsVisited : ∀ t ∈ s.branchTargets, t ∈ s.visitedBlocks
  targetsFrom : ∀ t ∈ s.branchTargets, ∃ pc ∈ s.reachablePcs, t ∈ (flow p f pc).targets
  targetsOf : ∀ pc ∈ s.reachablePcs, ∀ t ∈ (flow p f pc).targets, t ∈ s.branchTargets
  visited : ∀ x ∈ s.visitedBlocks,
    x = f.funcStart ∨ x ∈ s.branchTargets ∨ ∃ pc ∈ s.reachablePcs, x = pc + 4 ∧ ∃ t, flow p f pc = .branch t
  passed : ∀ x, x ∈ s.reachablePcs ∨ x ∈ s.pending →
    x ∈ s.visitedBlocks ∨ ∃ pc ∈ s.reachablePcs, x = pc + 4 ∧ flow p f pc = .runs false
  kept : ∀ x ∈ s.visitedBlocks, x ∈ s.reachablePcs ∨ x ∈ s.pending
  closed : ∀ x ∈ s.reachablePcs, ∀ y ∈ (flow p f x).nexts x, y ∈ s.reachablePcs ∨ y ∈ s.pending
  sound : ∀ x, x ∈ s.reachablePcs ∨ x ∈ s.pending → Reachable p f x

section

variable {p : Process} {f : Function} {s : Explore} {start cur : UInt64}

theorem Flow.mem_nexts_of_mem_targets {pc t : UInt64} {fl : Flow} (h : t ∈ fl.targets) : t ∈ fl.nexts pc := by
  cases fl with
  | absent => cases h
  | ends ret tailCall => cases h
  | jump target => exact h
  | branch target => exact List.mem_append_left _ h
  | runs symbolNext => cases h

theorem Flow.mem_nexts {pc y : UInt64} {fl : Flow} (h : y ∈ fl.nexts pc) :
    y ∈ fl.targets ∨ y = pc + 4 ∧ ((∃ t, fl = .branch t) ∨ fl = .runs false) := by
  cases fl with
  | absent => cases h
  | ends ret tailCall => cases h
  | jump target => exact .inl h
  | branch target =>
    rcases List.mem_append.mp h with h | h
    · exact .inl h
    · exact .inr ⟨List.mem_singleton.mp h, .inl ⟨target, rfl⟩⟩
  | runs symbolNext =>
    cases symbolNext with
    | true => cases h
    | false => exact .inr ⟨List.mem_singleton.mp h, .inr rfl⟩

theorem Explore.pending_eq (hcur : s.current = some (start, cur)) : s.pending = cur :: s.worklist := by
  unfold pending
  rw [hcur]
  rfl

theorem Marks.reachable_cur (h : Marks p f s) (hcur : s.current = some (start, cur)) : Reachable p f cur := by
  refine h.sound cur (.inr ?_)
  rw [Explore.pending_eq hcur]
  exact List.mem_cons_self

/-- Successors of a block are next addresses or known targets. -/
theorem Marks.succs_cases {b : Block} (hsuccs : (b.succs = (flow p f cur).nexts cur ∧ flow p f cur ≠ .runs false) ∨
      ∃ symbolNext, flow p f cur = .runs symbolNext ∧ cur + 4 ∈ s.branchTargets ∧ b.succs = [cur + 4]) {y : UInt64}
    (hy : y ∈ b.succs) : y ∈ (flow p f cur).targets ∨ (y = cur + 4 ∧ ∃ t, flow p f cur = .branch t) ∨
      y ∈ s.branchTargets := by
  rcases hsuccs with ⟨heq, hruns⟩ | ⟨symbolNext, hflow, hcut, heq⟩
  · rw [heq] at hy
    rcases Flow.mem_nexts hy with hy | ⟨hy, hbranch | hfall⟩
    · exact .inl hy
    · exact .inr (.inl ⟨hy, hbranch⟩)
    · exact absurd hfall hruns
  · rw [heq, List.mem_singleton] at hy
    rw [hy]
    exact .inr (.inr hcut)

theorem Marks.step {next : Explore} (h : Marks p f s) (hcur : s.current = some (start, cur))
    (hreachable : next.reachablePcs = cur :: s.reachablePcs)
    (htargets : ∀ t, t ∈ next.branchTargets ↔ t ∈ (flow p f cur).targets ∨ t ∈ s.branchTargets)
    (added : List UInt64)
    (hadded : ∀ y ∈ added, y ∈ (flow p f cur).targets ∨ (y = cur + 4 ∧ ∃ t, flow p f cur = .branch t) ∨
      y ∈ s.branchTargets)
    (htargetsAdded : ∀ t ∈ (flow p f cur).targets, t ∈ added)
    (hvisited : ∀ x, x ∈ next.visitedBlocks ↔ x ∈ added ∨ x ∈ s.visitedBlocks)
    (hpending : ∀ x, x ∈ next.pending ↔ x ∈ s.worklist ∨ (x ∈ added ∧ x ∉ s.visitedBlocks) ∨
      (x = cur + 4 ∧ flow p f cur = .runs false ∧ x ∈ next.pending))
    (hnexts : ∀ y ∈ (flow p f cur).nexts cur, y ∈ added ∨ y ∈ cur :: s.reachablePcs ∨ y ∈ next.pending) :
    Marks p f next := by
  have hself : cur ∈ next.reachablePcs := by
    rw [hreachable]
    exact List.mem_cons_self
  have hold : ∀ x ∈ s.reachablePcs, x ∈ next.reachablePcs := by
    rw [hreachable]
    exact fun x hx => List.mem_cons_of_mem cur hx
  have hkept : ∀ x, x ∈ s.reachablePcs ∨ x ∈ s.pending → x ∈ next.reachablePcs ∨ x ∈ next.pending := by
    rintro x (hx | hx)
    · exact .inl (hold x hx)
    · rw [Explore.pending_eq hcur] at hx
      rcases List.mem_cons.mp hx with rfl | hx
      · exact .inl hself
      · exact .inr ((hpending x).mpr (.inl hx))
  have haddedKept : ∀ y ∈ added, y ∈ next.reachablePcs ∨ y ∈ next.pending := by
    intro y hy
    by_cases hmem : y ∈ s.visitedBlocks
    · exact hkept y (h.kept y hmem)
    · exact .inr ((hpending y).mpr (.inr (.inl ⟨hy, hmem⟩)))
  have hreach := h.reachable_cur hcur
  have haddedReach : ∀ y ∈ added, Reachable p f y := by
    intro y hy
    rcases hadded y hy with ht | ⟨heq, t, hbranch⟩ | ht
    · exact hreach.tail (Flow.mem_nexts_of_mem_targets ht)
    · refine hreach.tail ?_
      rw [hbranch, heq]
      exact List.mem_append_right _ List.mem_cons_self
    · exact h.sound y (h.kept y (h.targetsVisited y ht))
  refine { targetsVisited := fun t ht => ?_, targetsFrom := fun t ht => ?_, targetsOf := fun pc hpc t ht => ?_,
           visited := fun x hx => ?_, passed := fun x hx => ?_, kept := fun x hx => ?_, closed := fun x hx y hy => ?_,
           sound := fun x hx => ?_ }
  · rcases (htargets t).mp ht with ht | ht
    · exact (hvisited t).mpr (.inl (htargetsAdded t ht))
    · exact (hvisited t).mpr (.inr (h.targetsVisited t ht))
  · rcases (htargets t).mp ht with ht | ht
    · exact ⟨cur, hself, ht⟩
    · obtain ⟨pc, hpc, ht⟩ := h.targetsFrom t ht
      exact ⟨pc, hold pc hpc, ht⟩
  · rw [hreachable] at hpc
    rcases List.mem_cons.mp hpc with rfl | hpc
    · exact (htargets t).mpr (.inl ht)
    · exact (htargets t).mpr (.inr (h.targetsOf pc hpc t ht))
  · rcases (hvisited x).mp hx with hx | hx
    · rcases hadded x hx with ht | ⟨heq, hbranch⟩ | ht
      · exact .inr (.inl ((htargets x).mpr (.inl ht)))
      · exact .inr (.inr ⟨cur, hself, heq, hbranch⟩)
      · exact .inr (.inl ((htargets x).mpr (.inr ht)))
    · rcases h.visited x hx with heq | ht | ⟨pc, hpc, hx⟩
      · exact .inl heq
      · exact .inr (.inl ((htargets x).mpr (.inr ht)))
      · exact .inr (.inr ⟨pc, hold pc hpc, hx⟩)
  · have hbefore : x ∈ s.reachablePcs ∨ x ∈ s.pending →
        x ∈ next.visitedBlocks ∨ ∃ pc ∈ next.reachablePcs, x = pc + 4 ∧ flow p f pc = .runs false := by
      intro hx
      rcases h.passed x hx with hx | ⟨pc, hpc, hx⟩
      · exact .inl ((hvisited x).mpr (.inr hx))
      · exact .inr ⟨pc, hold pc hpc, hx⟩
    have hwaiting := Explore.pending_eq hcur
    rcases hx with hx | hx
    · rw [hreachable] at hx
      rcases List.mem_cons.mp hx with rfl | hx
      · exact hbefore (.inr (by rw [hwaiting]; exact List.mem_cons_self))
      · exact hbefore (.inl hx)
    · rcases (hpending x).mp hx with hx | ⟨hx, -⟩ | ⟨heq, hruns, -⟩
      · exact hbefore (.inr (by rw [hwaiting]; exact List.mem_cons_of_mem cur hx))
      · exact .inl ((hvisited x).mpr (.inl hx))
      · exact .inr ⟨cur, hself, heq, hruns⟩
  · rcases (hvisited x).mp hx with hx | hx
    · exact haddedKept x hx
    · exact hkept x (h.kept x hx)
  · rw [hreachable] at hx
    rcases List.mem_cons.mp hx with rfl | hx
    · rcases hnexts y hy with hy | hy | hy
      · exact haddedKept y hy
      · rw [hreachable]
        exact .inl hy
      · exact .inr hy
    · exact hkept y (h.closed x hx y hy)
  · rcases hx with hx | hx
    · rw [hreachable] at hx
      rcases List.mem_cons.mp hx with rfl | hx
      · exact hreach
      · exact h.sound x (.inl hx)
    · rcases (hpending x).mp hx with hx | ⟨hx, -⟩ | ⟨heq, hruns, -⟩
      · refine h.sound x (.inr ?_)
        rw [Explore.pending_eq hcur]
        exact List.mem_cons_of_mem cur hx
      · exact haddedReach x hx
      · refine hreach.tail ?_
        rw [hruns, heq]
        exact List.mem_cons_self

theorem Marks.scan (h : Marks p f s) (hcur : s.current = some (start, cur)) : Marks p f (s.scan p f start cur) := by
  have hscan := Explore.scanned p f s start cur
  generalize s.scan p f start cur = next at hscan ⊢
  cases hscan with
  | dropped why =>
    obtain ⟨hvisited, htargets, hreachable, -, hpending⟩ := Explore.pop_fields (s := s.mark cur)
    have hnone : (flow p f cur).targets = [] := by
      rcases why with hflow | ⟨hflow, -⟩ <;> rw [hflow] <;> rfl
    refine h.step hcur hreachable (fun t => ?_) [] (fun y hy => by cases hy) (fun t ht => ?_) (fun x => ?_)
      (fun x => ?_) (fun y hy => ?_)
    · rw [htargets, hnone]
      exact ⟨.inr, fun ht => ht.elim (fun h => by cases h) id⟩
    · rw [hnone] at ht
      exact ht
    · rw [hvisited]
      exact ⟨.inr, fun hx => hx.elim (fun h => by cases h) id⟩
    · rw [hpending]
      constructor
      · exact .inl
      · rintro (hx | ⟨hx, -⟩ | ⟨-, -, hx⟩)
        · exact hx
        · cases hx
        · exact hx
    · rcases why with hflow | ⟨hflow, -, hknown, -⟩
      · rw [hflow] at hy
        cases hy
      · rw [hflow] at hy
        rw [List.mem_singleton.mp hy]
        exact .inr (.inl hknown)
  | finished b startPc endPc code succs =>
    obtain ⟨hvisited, htargets, hreachable, -, hpending⟩ :=
      Explore.pop_fields (s := (s.mark cur).note (flow p f cur).targets b)
    have hfields := Explore.foldl_push_fields (s := s.mark cur) b.succs
    refine h.step hcur ?_ (fun t => ?_) b.succs (fun y hy => Marks.succs_cases succs hy) (fun t ht => ?_)
      (fun x => ?_) (fun x => ?_) (fun y hy => ?_)
    · rw [hreachable]
      exact hfields.1
    · rw [htargets]
      unfold Explore.note
      rw [hfields.2.1, List.mem_append]
      rfl
    · rcases succs with ⟨heq, -⟩ | ⟨symbolNext, hflow, -⟩
      · rw [heq]
        exact Flow.mem_nexts_of_mem_targets ht
      · rw [hflow] at ht
        cases ht
    · rw [hvisited]
      exact Explore.mem_foldl_push_visited
    · rw [hpending]
      constructor
      · intro hx
        rcases Explore.mem_foldl_push_worklist.mp hx with hx | hx
        · exact .inl hx
        · exact .inr (.inl hx)
      · rintro (hx | hx | ⟨-, -, hx⟩)
        · exact Explore.mem_foldl_push_worklist.mpr (.inl hx)
        · exact Explore.mem_foldl_push_worklist.mpr (.inr hx)
        · exact hx
    · rcases succs with ⟨heq, -⟩ | ⟨symbolNext, hflow, -, heq⟩
      · rw [heq]
        exact .inl hy
      · rw [hflow] at hy
        cases symbolNext with
        | true => cases hy
        | false =>
          rw [heq]
          exact .inl hy
  | continued runs uncut fresh =>
    have hnone : (flow p f cur).targets = [] := by
      rw [runs]
      rfl
    refine h.step hcur rfl (fun t => ?_) [] (fun y hy => by cases hy) (fun t ht => ?_) (fun x => ?_)
      (fun x => ?_) (fun y hy => ?_)
    · rw [hnone]
      exact ⟨.inr, fun ht => ht.elim (fun h => by cases h) id⟩
    · rw [hnone] at ht
      exact ht
    · exact ⟨.inr, fun hx => hx.elim (fun h => by cases h) id⟩
    · have hpending : ({ s.mark cur with current := some (start, cur + 4) } : Explore).pending =
          (cur + 4) :: s.worklist := rfl
      rw [hpending, List.mem_cons]
      constructor
      · rintro (heq | hx)
        · exact .inr (.inr ⟨heq, runs, .inl heq⟩)
        · exact .inl hx
      · rintro (hx | ⟨hx, -⟩ | ⟨-, -, hx⟩)
        · exact .inr hx
        · cases hx
        · exact hx
    · rw [runs] at hy
      rw [List.mem_singleton.mp hy]
      exact .inr (.inr List.mem_cons_self)

end

end ArtPi.Debug.NativeCfg
