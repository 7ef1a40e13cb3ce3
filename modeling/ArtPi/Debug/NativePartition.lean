import ArtPi.Debug.NativeBlocks

set_option autoImplicit false

/-! # When the blocks partition the code

The blocks of an exploration are a partition exactly where no block was left and nothing was scanned twice. Such a run
visits the code in the order of a search with a stack; so it is known from the code alone whether a branch to an
address comes before the scan runs into it. -/

namespace ArtPi.Debug.NativeCfg

open Lib.StackSearch

variable {p : Process} {f : Function}

/-! ## Runs -/

structure Invariant (p : Process) (f : Function) (s : Explore) : Prop where
  visits : Visits f s
  pieces : Pieces p f s
  marks : Marks p f s
  stopped : s.current = none → s.worklist = []

theorem invariant_init : Invariant p f (init f) where
  visits :=
    { entry := List.mem_cons_self
      worklist := fun _ hpc => by cases hpc
      nodup := List.nodup_nil
      blocks := fun _ hb => by cases hb
      succs := fun _ hb => by cases hb
      pushed := fun _ hpc => .inl (List.mem_singleton.mp hpc)
      current := fun start cur hcur => by
        obtain ⟨rfl, -⟩ := Prod.mk.inj (Option.some.inj hcur)
        exact ⟨List.mem_cons_self, List.not_mem_nil, fun _ hb => by cases hb⟩ }
  pieces :=
    { place := fun start cur hcur => by
        obtain ⟨rfl, rfl⟩ := Prod.mk.inj (Option.some.inj hcur)
        refine ⟨0, Nat.zero_le _, isAt_start _, ?_⟩
        rw [scannedPcs_start]
        exact ⟨fun pc hpc => absurd hpc List.not_mem_nil, fun _ => rfl⟩
      entry := .inr rfl
      blocks := fun _ hb => by cases hb
      whole := fun _ => by
        have hopen : (init f).openPcs = [] := scannedPcs_start f.funcStart
        rw [hopen]
        exact List.Perm.nil }
  marks :=
    { targetsVisited := fun _ ht => by cases ht
      targetsFrom := fun _ ht => by cases ht
      targetsOf := fun _ hpc => by cases hpc
      visited := fun _ hx => .inl (List.mem_singleton.mp hx)
      passed := fun x hx => hx.elim (fun h => by cases h) .inl
      kept := fun _ hx => .inr hx
      closed := fun _ hx => by cases hx
      sound := fun x hx => hx.elim (fun h => by cases h) (fun h => by
        rw [List.mem_singleton.mp h]
        exact Relation.ReflTransGen.refl) }
  stopped := fun h => by cases h

section

variable {s : Explore} {start cur : UInt64}

theorem scan_reachablePcs : (s.scan p f start cur).reachablePcs = cur :: s.reachablePcs := by
  have hscan := Explore.scanned p f s start cur
  generalize s.scan p f start cur = next at hscan ⊢
  cases hscan with
  | dropped why => exact Explore.pop_fields.2.2.1
  | finished b startPc endPc code succs =>
    rw [Explore.pop_fields.2.2.1]
    exact (Explore.foldl_push_fields b.succs).1
  | continued runs uncut fresh => rfl

theorem pop_stopped (s : Explore) : s.pop.current = none → s.pop.worklist = [] := by
  rcases s.pop_cases with ⟨hlist, hpop⟩ | ⟨pc, rest, hlist, hpop⟩
  · rw [hpop]
    exact fun _ => hlist
  · rw [hpop]
    exact fun h => by cases h

theorem Invariant.scan (h : Invariant p f s) (hcur : s.current = some (start, cur))
    (hlen : s.reachablePcs.length < kMaxInsnsExplored) : Invariant p f (s.scan p f start cur) := by
  refine ⟨h.visits.scan hcur, h.pieces.scan h.visits hcur hlen, h.marks.scan hcur, ?_⟩
  have hscan := Explore.scanned p f s start cur
  generalize s.scan p f start cur = next at hscan ⊢
  cases hscan with
  | dropped why => exact pop_stopped _
  | finished b startPc endPc code succs => exact pop_stopped _
  | continued runs uncut fresh => exact fun h => by cases h

theorem Invariant.explore {n : Nat} (h : Invariant p f s) (hlen : s.reachablePcs.length + n ≤ kMaxInsnsExplored) :
    Invariant p f (explore p f n s) := by
  induction n generalizing s with
  | zero => exact h
  | succ n ih =>
    rw [NativeCfg.explore]
    cases hcur : s.current with
    | none => exact h
    | some place =>
      obtain ⟨start, cur⟩ := place
      refine ih (h.scan hcur (by omega)) ?_
      rw [scan_reachablePcs, List.length_cons]
      omega

theorem explore_current {n : Nat} (hlen : s.reachablePcs.length + n = kMaxInsnsExplored)
    (hcap : (explore p f n s).reachablePcs.length < kMaxInsnsExplored) : (explore p f n s).current = none := by
  induction n generalizing s with
  | zero =>
    rw [explore] at hcap
    omega
  | succ n ih =>
    rw [explore] at hcap ⊢
    cases hcur : s.current with
    | none => exact hcur
    | some place =>
      obtain ⟨start, cur⟩ := place
      rw [hcur] at hcap
      refine ih ?_ hcap
      rw [scan_reachablePcs, List.length_cons]
      omega

theorem Invariant.pending_eq_nil (h : Invariant p f s) (hcur : s.current = none) : s.pending = [] := by
  unfold Explore.pending
  rw [hcur, h.stopped hcur]
  rfl

theorem Invariant.mem_reachablePcs (h : Invariant p f s) (hpending : s.pending = []) {pc : UInt64} :
    pc ∈ s.reachablePcs ↔ Reachable p f pc := by
  have hnone : ∀ x, x ∉ s.pending := by
    rw [hpending]
    exact fun x => List.not_mem_nil
  constructor
  · exact fun hpc => h.marks.sound pc (.inl hpc)
  · intro hreach
    induction hreach with
    | refl => exact (h.marks.kept _ h.visits.entry).resolve_right (hnone _)
    | tail _ hstep ih => exact (h.marks.closed _ ih _ hstep).resolve_right (hnone _)

theorem Invariant.mem_branchTargets (h : Invariant p f s) (hpending : s.pending = []) {t : UInt64} :
    t ∈ s.branchTargets ↔ IsTarget p f t := by
  constructor
  · intro ht
    obtain ⟨pc, hpc, ht⟩ := h.marks.targetsFrom t ht
    exact ⟨pc, (h.mem_reachablePcs hpending).mp hpc, ht⟩
  · rintro ⟨pc, hpc, ht⟩
    exact h.marks.targetsOf pc ((h.mem_reachablePcs hpending).mpr hpc) t ht

end

/-! ## Partitions and runs -/

theorem count_flatMap_pcs {blocks : List Block} (h : ∀ b ∈ blocks, b.pcs.Nodup) (pc : UInt64) :
    (blocks.flatMap Block.pcs).count pc = blocks.countP (fun b => pc ∈ b.pcs) := by
  induction blocks with
  | nil => rfl
  | cons b blocks ih =>
    obtain ⟨hb, hblocks⟩ := List.forall_mem_cons.mp h
    rw [List.flatMap_cons, List.count_append, ih hblocks, List.countP_cons, hb.count]
    by_cases hpc : pc ∈ b.pcs
    · rw [if_pos hpc, if_pos (decide_eq_true hpc), Nat.add_comm]
    · rw [if_neg hpc, if_neg (by rw [decide_eq_true_eq]; exact hpc), Nat.add_comm]

theorem eq_of_countP_eq_one {α : Type} {q : α → Bool} {xs : List α} (h : xs.countP q = 1) {a b : α} (ha : a ∈ xs)
    (hb : b ∈ xs) (hqa : q a = true) (hqb : q b = true) : a = b := by
  rw [List.countP_eq_length_filter] at h
  obtain ⟨c, hc⟩ := List.length_eq_one_iff.mp h
  have hmem : ∀ x ∈ xs, q x = true → x = c := by
    intro x hx hq
    have hin : x ∈ xs.filter q := List.mem_filter.mpr ⟨hx, hq⟩
    rw [hc] at hin
    exact List.mem_singleton.mp hin
  rw [hmem a ha hqa, hmem b hb hqb]

theorem startPc_mem_pcs (b : Block) : b.startPc ∈ b.pcs := by
  unfold Block.pcs pcsFrom
  refine List.mem_map.mpr ⟨0, List.mem_range.mpr (Nat.succ_pos _), ?_⟩
  have hzero : 4 * UInt64.ofNat 0 = 0 := rfl
  rw [hzero, UInt64.add_zero]

/-- At the end, the blocks partition the code exactly where no block was left and nothing was scanned twice. -/
theorem Invariant.partitions_iff {s : Explore} (h : Invariant p f s) (hcur : s.current = none)
    (hcode : flow p f f.funcStart ≠ .absent) : Partitions p f s.blocks ↔ s.Whole ∧ s.reachablePcs.Nodup := by
  have hpending := h.pending_eq_nil hcur
  have hnodups : ∀ b ∈ s.blocks, b.pcs.Nodup := fun b hb => (h.pieces.blocks b hb).1
  have hperm : s.Whole → ∀ pc, s.reachablePcs.count pc = s.blocks.countP (fun b => pc ∈ b.pcs) := by
    intro hwhole pc
    have hopen : s.openPcs = [] := by
      unfold Explore.openPcs
      rw [hcur]
    have hall := h.pieces.whole hwhole
    rw [hopen, List.nil_append] at hall
    rw [hall.count_eq, count_flatMap_pcs hnodups]
  have hblock : s.Whole → ∀ pc ∈ s.visitedBlocks, ∃ b ∈ s.blocks, b.startPc = pc := by
    intro hwhole pc hpc
    rcases hwhole pc hpc with hin | ⟨cur, hcur'⟩ | hb
    · rw [h.stopped hcur] at hin
      cases hin
    · rw [hcur] at hcur'
      cases hcur'
    · exact hb
  constructor
  · intro hpart
    have hwhole : s.Whole := by
      intro pc hpc
      refine .inr (.inr ?_)
      rcases h.visits.pushed pc hpc with rfl | ⟨b, hb, ht⟩
      · have hone := hpart.covered f.funcStart Relation.ReflTransGen.refl hcode
        obtain ⟨b, hb, hin⟩ := List.countP_pos_iff.mp (by rw [hone]; exact Nat.one_pos)
        exact ⟨b, hb, (h.pieces.blocks b hb).2.2 (of_decide_eq_true hin)⟩
      · exact hpart.succs b hb pc ht
    refine ⟨hwhole, List.nodup_iff_count_le_one.mpr (fun pc => ?_)⟩
    by_cases hpc : pc ∈ s.reachablePcs
    · have hpos := List.count_pos_iff.mpr hpc
      rw [hperm hwhole] at hpos ⊢
      obtain ⟨b, hb, hin⟩ := List.countP_pos_iff.mp hpos
      have hinsn := (h.pieces.blocks b hb).2.1 pc (of_decide_eq_true hin)
      rw [hpart.covered pc ((h.mem_reachablePcs hpending).mp hpc) hinsn]
    · rw [List.count_eq_zero.mpr hpc]
      exact Nat.zero_le 1
  · rintro ⟨hwhole, hnodup⟩
    have hone : ∀ pc, Reachable p f pc → s.blocks.countP (fun b => pc ∈ b.pcs) = 1 := by
      intro pc hpc
      rw [← hperm hwhole]
      exact List.count_eq_one_of_mem hnodup ((h.mem_reachablePcs hpending).mpr hpc)
    refine ⟨fun pc hpc _ => hone pc hpc, fun b hb t ht hin => ?_, fun b hb t ht => ?_⟩
    · have hvisited := h.marks.targetsVisited t ((h.mem_branchTargets hpending).mpr ht)
      obtain ⟨c, hc, heq⟩ := hblock hwhole t hvisited
      have hself : t ∈ c.pcs := by
        rw [← heq]
        exact startPc_mem_pcs c
      obtain ⟨pc, hpc, htargets⟩ := ht
      have hreach : Reachable p f t := hpc.tail (Flow.mem_nexts_of_mem_targets htargets)
      rw [eq_of_countP_eq_one (hone t hreach) hb hc (decide_eq_true hin) (decide_eq_true hself), heq]
    · exact hblock hwhole t (h.visits.succs b hb t ht)

/-! ## Clean scans -/

/-- A branch goes to no address that was scanned within a block, and code is run into that is new. -/
structure Clean (p : Process) (f : Function) (s : Explore) (cur : UInt64) : Prop where
  targets : ∀ t ∈ (flow p f cur).targets, t ∈ cur :: s.reachablePcs → t ∈ s.visitedBlocks
  runs : flow p f cur = .runs false → cur + 4 ∉ s.branchTargets →
    cur + 4 ∉ s.visitedBlocks ∧ cur + 4 ∉ cur :: s.reachablePcs

/-- The front of a search at the same place. -/
structure Simulates (s : Explore) (front : Front UInt64) : Prop where
  stack : front.stack = s.pending
  marked : ∀ x, x ∈ front.marked ↔ x ∈ s.visitedBlocks ∨ x ∈ s.reachablePcs ∨ x ∈ s.pending

section

variable {s : Explore} {front : Front UInt64} {start cur : UInt64}

theorem pushAll_stack {pcs marked : List UInt64} (h : ∀ pc ∈ pcs, pc ∈ marked ↔ pc ∈ s.visitedBlocks) :
    (Front.pushAll ⟨s.worklist, marked⟩ pcs).stack = (pcs.foldl Explore.push s).worklist := by
  induction pcs generalizing s marked with
  | nil => rfl
  | cons a pcs ih =>
    obtain ⟨ha, hpcs⟩ := List.forall_mem_cons.mp h
    have hstep : Front.pushAll ⟨s.worklist, marked⟩ (a :: pcs) =
        Front.pushAll (Front.push ⟨s.worklist, marked⟩ a) pcs := rfl
    rw [hstep, List.foldl_cons]
    unfold Front.push Explore.push
    by_cases hmem : a ∈ s.visitedBlocks
    · rw [if_pos (ha.mpr hmem), if_pos hmem]
      exact ih hpcs
    · rw [if_neg (fun hm => hmem (ha.mp hm)), if_neg hmem]
      refine ih (s := { s with visitedBlocks := a :: s.visitedBlocks, worklist := a :: s.worklist })
        (fun pc hpc => ?_)
      rw [List.mem_cons, List.mem_cons, hpcs pc hpc]

theorem ne_add_four (x : UInt64) : x + 4 ≠ x := by
  intro h
  have hzero : x + 4 - x = 0 := by rw [h, UInt64.sub_self]
  rw [UInt64.add_comm, UInt64.add_sub_cancel] at hzero
  exact absurd hzero (by decide)

theorem foldl_push_of_visited {pcs : List UInt64} (h : ∀ pc ∈ pcs, pc ∈ s.visitedBlocks) :
    pcs.foldl Explore.push s = s := by
  induction pcs with
  | nil => rfl
  | cons a pcs ih =>
    obtain ⟨ha, hpcs⟩ := List.forall_mem_cons.mp h
    have hpush : s.push a = s := if_pos ha
    rw [List.foldl_cons, hpush, ih hpcs]

/-- After a clean scan, the successors of the block are pushed as the next addresses are in the search. -/
theorem clean_succs (h : Invariant p f s) (hclean : Clean p f s cur)
    (hmarked : ∀ x, x ∈ front.marked ↔ x ∈ s.visitedBlocks ∨ x ∈ cur :: s.reachablePcs) {b : Block}
    (succs : (b.succs = (flow p f cur).nexts cur ∧ flow p f cur ≠ .runs false) ∨
      ∃ symbolNext, flow p f cur = .runs symbolNext ∧ cur + 4 ∈ s.branchTargets ∧ b.succs = [cur + 4]) :
    (∀ pc ∈ (flow p f cur).nexts cur, pc ∈ front.marked ↔ pc ∈ s.visitedBlocks) ∧
      (∀ pc ∈ (flow p f cur).nexts cur, pc ∈ b.succs ∨ pc ∈ s.visitedBlocks) ∧
      (∀ pc ∈ b.succs, pc ∈ (flow p f cur).nexts cur ∨ pc ∈ s.visitedBlocks) ∧
      (Front.pushAll ⟨s.worklist, front.marked⟩ ((flow p f cur).nexts cur)).stack =
        (b.succs.foldl Explore.push (s.mark cur)).worklist := by
  rcases succs with ⟨heq, hnot⟩ | ⟨symbolNext, hflow, hcut, heq⟩
  · have hsame : ∀ pc ∈ (flow p f cur).nexts cur, pc ∈ front.marked ↔ pc ∈ s.visitedBlocks := by
      intro pc hpc
      rw [hmarked]
      refine ⟨fun hx => hx.elim id (fun hx => ?_), .inl⟩
      rcases Flow.mem_nexts hpc with ht | ⟨hfour, ⟨t, hbranch⟩ | hfall⟩
      · exact hclean.targets pc ht hx
      · rcases List.mem_cons.mp hx with hx | hx
        · rw [hx] at hfour
          exact absurd hfour.symm (ne_add_four cur)
        · rcases h.marks.passed pc (.inl hx) with hx | ⟨q, -, hq, hruns⟩
          · exact hx
          · rw [hfour, UInt64.add_left_inj] at hq
            rw [← hq, hbranch] at hruns
            cases hruns
      · exact absurd hfall hnot
    rw [heq]
    exact ⟨hsame, fun _ hpc => .inl hpc, fun _ hpc => .inl hpc, pushAll_stack (s := s.mark cur) hsame⟩
  · have hvisit := h.marks.targetsVisited _ hcut
    have hnexts : ∀ pc ∈ (flow p f cur).nexts cur, pc ∈ s.visitedBlocks := by
      intro pc hpc
      rw [hflow] at hpc
      cases symbolNext with
      | true => cases hpc
      | false =>
        rw [List.mem_singleton.mp hpc]
        exact hvisit
    have hsuccs : ∀ pc ∈ b.succs, pc ∈ (s.mark cur).visitedBlocks := by
      intro pc hpc
      rw [heq, List.mem_singleton] at hpc
      rw [hpc]
      exact hvisit
    have hsame : ∀ pc ∈ (flow p f cur).nexts cur, pc ∈ front.marked ↔ pc ∈ s.visitedBlocks :=
      fun pc hpc => ⟨fun _ => hnexts pc hpc, fun hx => (hmarked pc).mpr (.inl hx)⟩
    refine ⟨hsame, fun pc hpc => .inr (hnexts pc hpc), fun pc hpc => .inr (hsuccs pc hpc), ?_⟩
    rw [pushAll_stack hsame, foldl_push_of_visited hnexts, foldl_push_of_visited hsuccs]
    rfl

theorem Simulates.scan (hsim : Simulates s front) (h : Invariant p f s) (hcur : s.current = some (start, cur))
    (hclean : Clean p f s cur) :
    Simulates (s.scan p f start cur) (Front.pushAll ⟨s.worklist, front.marked⟩ ((flow p f cur).nexts cur)) := by
  have hpending := Explore.pending_eq hcur
  have hmarked : ∀ x, x ∈ front.marked ↔ x ∈ s.visitedBlocks ∨ x ∈ cur :: s.reachablePcs := by
    intro x
    rw [hsim.marked, hpending, List.mem_cons, List.mem_cons]
    constructor
    · rintro (hx | hx | hx | hx)
      · exact .inl hx
      · exact .inr (.inr hx)
      · exact .inr (.inl hx)
      · exact .inl (h.visits.worklist x hx)
    · rintro (hx | hx | hx)
      · exact .inl hx
      · exact .inr (.inr (.inl hx))
      · exact .inr (.inl hx)
  have hscan := Explore.scanned p f s start cur
  generalize s.scan p f start cur = next at hscan ⊢
  cases hscan with
  | dropped why =>
    obtain ⟨hvisited, -, hreachable, -, hwaiting⟩ := Explore.pop_fields (s := s.mark cur)
    have habsent : flow p f cur = .absent := by
      rcases why with hflow | ⟨hflow, huncut, hknown, -⟩
      · exact hflow
      · exact absurd hknown (hclean.runs hflow huncut).2
    rw [habsent]
    refine ⟨hwaiting.symm, fun x => ?_⟩
    rw [hvisited, hreachable, hwaiting]
    have hstep : x ∈ (Front.pushAll ⟨s.worklist, front.marked⟩ (Flow.absent.nexts cur)).marked ↔
        x ∈ front.marked := Iff.rfl
    rw [hstep, hmarked]
    have hsub := h.visits.worklist x
    exact ⟨fun hx => hx.elim .inl (fun hx => .inr (.inl hx)),
      fun hx => hx.elim .inl (fun hx => hx.elim .inr (fun hx => .inl (hsub hx)))⟩
  | finished b startPc endPc code succs =>
    obtain ⟨hvisited, -, hreachable, -, hwaiting⟩ :=
      Explore.pop_fields (s := (s.mark cur).note (flow p f cur).targets b)
    have hreachable' : ((s.mark cur).note (flow p f cur).targets b).pop.reachablePcs = cur :: s.reachablePcs := by
      rw [hreachable]
      exact (Explore.foldl_push_fields b.succs).1
    have hvisited' : ∀ x, x ∈ ((s.mark cur).note (flow p f cur).targets b).pop.visitedBlocks ↔
        x ∈ b.succs ∨ x ∈ s.visitedBlocks := by
      intro x
      rw [hvisited]
      exact Explore.mem_foldl_push_visited
    have hworklist : ∀ x, x ∈ ((s.mark cur).note (flow p f cur).targets b).pop.pending →
        x ∈ b.succs ∨ x ∈ s.visitedBlocks := by
      intro x hx
      rw [hwaiting] at hx
      rcases Explore.mem_foldl_push_worklist.mp hx with hx | ⟨hx, -⟩
      · exact .inr (h.visits.worklist x hx)
      · exact .inl hx
    obtain ⟨hsame, hnexts, hsuccs, hstack⟩ := clean_succs h hclean hmarked succs
    refine ⟨hstack.trans hwaiting.symm, fun x => ?_⟩
    rw [Front.mem_pushAll_marked, hmarked, hvisited', hreachable']
    constructor
    · rintro (hx | hx | hx)
      · exact .inl (hnexts x hx)
      · exact .inl (.inr hx)
      · exact .inr (.inl hx)
    · rintro (hx | hx | hx)
      · rcases hx with hx | hx
        · exact (hsuccs x hx).imp id .inl
        · exact .inr (.inl hx)
      · exact .inr (.inr hx)
      · rcases hworklist x hx with hx | hx
        · exact (hsuccs x hx).imp id .inl
        · exact .inr (.inl hx)
  | continued runs uncut fresh =>
    obtain ⟨hnotVisited, hnotKnown⟩ := hclean.runs runs uncut
    have hnew : cur + 4 ∉ front.marked := by
      rw [hmarked]
      exact fun hx => hx.elim hnotVisited hnotKnown
    have hpush : Front.pushAll ⟨s.worklist, front.marked⟩ ((flow p f cur).nexts cur) =
        ⟨(cur + 4) :: s.worklist, (cur + 4) :: front.marked⟩ := by
      rw [runs]
      exact if_neg hnew
    rw [hpush]
    refine ⟨rfl, fun x => ?_⟩
    have hwaiting : ({ s.mark cur with current := some (start, cur + 4) } : Explore).pending =
        (cur + 4) :: s.worklist := rfl
    have hreachable : ({ s.mark cur with current := some (start, cur + 4) } : Explore).reachablePcs =
        cur :: s.reachablePcs := rfl
    have hvisited : ({ s.mark cur with current := some (start, cur + 4) } : Explore).visitedBlocks =
        s.visitedBlocks := rfl
    rw [hwaiting, hreachable, hvisited, List.mem_cons, hmarked]
    constructor
    · rintro (hx | hx | hx)
      · exact .inr (.inr (List.mem_cons.mpr (.inl hx)))
      · exact .inl hx
      · exact .inr (.inl hx)
    · rintro (hx | hx | hx)
      · exact .inr (.inl hx)
      · exact .inr (.inr hx)
      · rcases List.mem_cons.mp hx with hx | hx
        · exact .inl hx
        · exact .inr (.inl (h.visits.worklist x hx))

end

/-! ## Runs that come to nothing twice -/

section

variable {s : Explore} {front : Front UInt64} {start cur : UInt64}

theorem worklist_sub_pending : ∀ x ∈ s.worklist, x ∈ (s.scan p f start cur).pending := by
  have hscan := Explore.scanned p f s start cur
  generalize s.scan p f start cur = next at hscan ⊢
  intro x hx
  cases hscan with
  | dropped why =>
    rw [Explore.pop_fields.2.2.2.2]
    exact hx
  | finished b startPc endPc code succs =>
    rw [Explore.pop_fields.2.2.2.2]
    exact Explore.mem_foldl_push_worklist.mpr (.inl hx)
  | continued runs uncut fresh => exact List.mem_cons_of_mem (cur + 4) hx

theorem explore_scans {n : Nat} (hend : (explore p f n s).pending = []) :
    ∃ later, (explore p f n s).reachablePcs = later ++ s.reachablePcs ∧ ∀ x ∈ s.pending, x ∈ later := by
  induction n generalizing s with
  | zero =>
    rw [explore] at hend ⊢
    exact ⟨[], rfl, fun x hx => by rwa [hend] at hx⟩
  | succ n ih =>
    rw [explore] at hend ⊢
    cases hcur : s.current with
    | none =>
      rw [hcur] at hend
      exact ⟨[], rfl, fun x hx => by rwa [hend] at hx⟩
    | some place =>
      obtain ⟨start, cur⟩ := place
      rw [hcur] at hend
      obtain ⟨later, heq, hlater⟩ := ih hend
      refine ⟨later ++ [cur], ?_, fun x hx => ?_⟩
      · rw [heq, scan_reachablePcs, List.append_assoc]
        rfl
      · rw [Explore.pending_eq hcur] at hx
        rcases List.mem_cons.mp hx with rfl | hx
        · exact List.mem_append_right _ List.mem_cons_self
        · exact List.mem_append_left _ (hlater x (worklist_sub_pending x hx))

theorem notMem_of_pending {n : Nat} (hend : (explore p f n s).pending = [])
    (hnodup : (explore p f n s).reachablePcs.Nodup) {x : UInt64} (hx : x ∈ s.pending) : x ∉ s.reachablePcs := by
  obtain ⟨later, heq, hlater⟩ := explore_scans hend
  rw [heq] at hnodup
  exact fun hin => (List.nodup_append.mp hnodup).2.2 x (hlater x hx) x hin rfl

theorem Explore.Dropped.explore {n : Nat} (h : s.Dropped start) : (explore p f n s).Dropped start := by
  induction n generalizing s with
  | zero => exact h
  | succ n ih =>
    rw [NativeCfg.explore]
    cases hcur : s.current with
    | none => exact h
    | some place => exact ih (h.scan hcur)

/-- How a run ends that leaves no block and scans nothing twice. -/
structure EndsWell (p : Process) (f : Function) (n : Nat) (s : Explore) : Prop where
  pending : (explore p f n s).pending = []
  whole : (explore p f n s).Whole
  nodup : (explore p f n s).reachablePcs.Nodup

theorem EndsWell.next {n : Nat} (h : EndsWell p f (n + 1) s) (hcur : s.current = some (start, cur)) :
    EndsWell p f n (s.scan p f start cur) := by
  have hstep : explore p f (n + 1) s = explore p f n (s.scan p f start cur) := by
    rw [explore, hcur]
  obtain ⟨hpending, hwhole, hnodup⟩ := h
  rw [hstep] at hpending hwhole hnodup
  exact ⟨hpending, hwhole, hnodup⟩

theorem EndsWell.clean {n : Nat} (hwell : EndsWell p f (n + 1) s) (h : Invariant p f s)
    (hcur : s.current = some (start, cur)) : Clean p f s cur := by
  have hnext := hwell.next hcur
  have hnew : ∀ x ∈ (s.scan p f start cur).pending, x ∉ cur :: s.reachablePcs := by
    intro x hx
    have hscanned : (s.scan p f start cur).reachablePcs = cur :: s.reachablePcs := scan_reachablePcs
    rw [← hscanned]
    exact notMem_of_pending hnext.pending hnext.nodup hx
  have hstarted := h.visits.current start cur hcur
  have hentry : f.funcStart ∈ cur :: s.reachablePcs := by
    rcases h.pieces.entry with hin | heq
    · exact List.mem_cons_of_mem cur hin
    · rw [hcur, Option.some.injEq, Prod.mk.injEq] at heq
      rw [heq.2]
      exact List.mem_cons_self
  have hleft : ¬ (s.scan p f start cur).Dropped start :=
    fun hdropped => hnext.whole.not_dropped hdropped.explore
  have hscan := Explore.scanned p f s start cur
  generalize s.scan p f start cur = next at hscan hnew hleft
  cases hscan with
  | dropped why =>
    have hmark : (s.mark cur).Started start := ⟨hstarted.visited, hstarted.worklist, hstarted.blocks⟩
    exact absurd hmark.pop hleft
  | finished b startPc endPc code succs =>
    refine ⟨fun t ht hin => ?_, fun hruns huncut => ?_⟩
    · refine Classical.byContradiction (fun hnot => hnew t ?_ hin)
      rw [Explore.pop_fields.2.2.2.2]
      refine Explore.mem_foldl_push_worklist.mpr (.inr ⟨?_, hnot⟩)
      rcases succs with ⟨heq, -⟩ | ⟨symbolNext, hflow, -⟩
      · rw [heq]
        exact Flow.mem_nexts_of_mem_targets ht
      · rw [hflow] at ht
        cases ht
    · rcases succs with ⟨-, hnot⟩ | ⟨-, -, hcut, -⟩
      · exact absurd hruns hnot
      · exact absurd hcut huncut
  | continued runs uncut fresh =>
    have hnone : (flow p f cur).targets = [] := by
      rw [runs]
      rfl
    have hfour : cur + 4 ∉ cur :: s.reachablePcs := hnew (cur + 4) List.mem_cons_self
    refine ⟨fun t ht => ?_, fun _ _ => ⟨fun hvisited => ?_, hfour⟩⟩
    · rw [hnone] at ht
      cases ht
    · rcases h.marks.visited _ hvisited with heq | ht | ⟨pc, -, heq, t, hbranch⟩
      · rw [heq] at hfour
        exact hfour hentry
      · exact uncut ht
      · rw [UInt64.add_left_inj] at heq
        rw [← heq, runs] at hbranch
        cases hbranch

theorem EndsWell.notMem_visited {n : Nat} (hwell : EndsWell p f n s) {x : UInt64}
    (hx : x ∈ s.reachablePcs ∨ ∃ start, s.current = some (start, x)) (hnot : x ∉ s.visitedBlocks) :
    x ∉ (explore p f n s).visitedBlocks := by
  induction n generalizing s with
  | zero => exact hnot
  | succ n ih =>
    cases hcur : s.current with
    | none =>
      rw [explore, hcur]
      exact hnot
    | some place =>
      obtain ⟨start, cur⟩ := place
      have hnext := hwell.next hcur
      have hscanned : x ∈ (s.scan p f start cur).reachablePcs := by
        rw [scan_reachablePcs]
        rcases hx with hx | ⟨start', hplace⟩
        · exact List.mem_cons_of_mem cur hx
        · rw [hcur, Option.some.injEq, Prod.mk.injEq] at hplace
          rw [← hplace.2]
          exact List.mem_cons_self
      rw [explore, hcur]
      refine ih hnext (.inl hscanned) (fun hvisited => ?_)
      refine notMem_of_pending hnext.pending hnext.nodup ?_ hscanned
      have hscan := Explore.scanned p f s start cur
      generalize s.scan p f start cur = next at hscan hvisited ⊢
      cases hscan with
      | dropped why =>
        rw [Explore.pop_fields.1] at hvisited
        exact absurd hvisited hnot
      | finished b startPc endPc code succs =>
        rw [Explore.pop_fields.1] at hvisited
        rw [Explore.pop_fields.2.2.2.2]
        rcases Explore.mem_foldl_push_visited.mp hvisited with hin | hin
        · exact Explore.mem_foldl_push_worklist.mpr (.inr ⟨hin, hnot⟩)
        · exact absurd hin hnot
      | continued runs uncut fresh => exact absurd hvisited hnot

theorem EndsWell.order_eq {n : Nat} (hwell : EndsWell p f n s) (h : Invariant p f s) (hsim : Simulates s front)
    (hlen : s.reachablePcs.length + n ≤ kMaxInsnsExplored) :
    s.reachablePcs.reverse ++ order (fun pc => (flow p f pc).nexts pc) n front =
      (explore p f n s).reachablePcs.reverse := by
  induction n generalizing s front with
  | zero => exact List.append_nil _
  | succ n ih =>
    cases hcur : s.current with
    | none =>
      rw [order_of_nil _ (hsim.stack.trans (h.pending_eq_nil hcur)), List.append_nil, explore, hcur]
    | some place =>
      obtain ⟨start, cur⟩ := place
      have hlen' : (s.scan p f start cur).reachablePcs.length + n ≤ kMaxInsnsExplored := by
        rw [scan_reachablePcs, List.length_cons]
        omega
      have hstep := ih (hwell.next hcur) (h.scan hcur (by omega)) (hsim.scan h hcur (hwell.clean h hcur)) hlen'
      obtain ⟨stack, marked⟩ := front
      obtain rfl : stack = cur :: s.worklist := hsim.stack.trans (Explore.pending_eq hcur)
      rw [explore, hcur]
      dsimp only
      rw [← hstep, order_succ, scan_reachablePcs, List.reverse_cons, List.append_assoc]
      rfl

theorem EndsWell.known {n : Nat} (hwell : EndsWell p f n s) (h : Invariant p f s)
    (hlen : s.reachablePcs.length + n ≤ kMaxInsnsExplored) {after before : List UInt64} {pc : UInt64}
    (hsplit : (explore p f n s).reachablePcs = after ++ pc :: before) (hlater : s.reachablePcs <:+ before)
    (hruns : flow p f pc = .runs false)
    (htarget : pc + 4 = f.funcStart ∨ pc + 4 ∈ (explore p f n s).branchTargets) :
    ∃ q ∈ before, pc + 4 ∈ (flow p f q).targets := by
  induction n generalizing s with
  | zero =>
    have hle := hlater.length_le
    rw [explore] at hsplit
    rw [hsplit, List.length_append, List.length_cons] at hle
    omega
  | succ n ih =>
    cases hcur : s.current with
    | none =>
      have hle := hlater.length_le
      rw [explore, hcur] at hsplit
      rw [hsplit, List.length_append, List.length_cons] at hle
      omega
    | some place =>
      obtain ⟨start, cur⟩ := place
      have hnext := hwell.next hcur
      have hinv := h.scan hcur (by omega)
      have hlen' : (s.scan p f start cur).reachablePcs.length + n ≤ kMaxInsnsExplored := by
        rw [scan_reachablePcs, List.length_cons]
        omega
      have hclean := hwell.clean h hcur
      have hstep : explore p f (n + 1) s = explore p f n (s.scan p f start cur) := by
        rw [explore, hcur]
      rw [hstep] at hsplit htarget
      obtain ⟨later, heq, -⟩ := explore_scans hnext.pending
      rw [scan_reachablePcs] at heq
      have hsuffix : pc :: before <:+ (explore p f n (s.scan p f start cur)).reachablePcs := ⟨after, hsplit.symm⟩
      have hsuffix' : cur :: s.reachablePcs <:+ (explore p f n (s.scan p f start cur)).reachablePcs :=
        ⟨later, heq.symm⟩
      by_cases hsame : before.length = s.reachablePcs.length
      · obtain ⟨rfl, rfl⟩ : pc = cur ∧ before = s.reachablePcs := by
          have hboth := List.suffix_of_suffix_length_le hsuffix hsuffix' (by simp [hsame])
          have hall := hboth.eq_of_length (by simp [hsame])
          exact List.cons.inj hall
        by_cases hcut : pc + 4 ∈ s.branchTargets
        · exact h.marks.targetsFrom _ hcut
        · -- it is scanned next, within the block
          obtain ⟨hnotVisited, hnotKnown⟩ := hclean.runs hruns hcut
          have hfinal : pc + 4 ∉ (explore p f n (s.scan p f start pc)).visitedBlocks := by
            have hscan := Explore.scanned p f s start pc
            generalize s.scan p f start pc = next at hscan hnext ⊢
            cases hscan with
            | dropped why =>
              rcases why with hflow | ⟨-, -, hin, -⟩
              · rw [hruns] at hflow
                cases hflow
              · exact absurd hin hnotKnown
            | finished b startPc endPc code succs =>
              rcases succs with ⟨-, hnot⟩ | ⟨-, -, hin, -⟩
              · exact absurd hruns hnot
              · exact absurd hin hcut
            | continued runs uncut fresh => exact hnext.notMem_visited (.inr ⟨start, rfl⟩) hnotVisited
          have hinvEnd := hinv.explore hlen'
          rcases htarget with heq' | ht
          · rw [heq'] at hnotVisited
            exact absurd h.visits.entry hnotVisited
          · exact absurd (hinvEnd.marks.targetsVisited _ ht) hfinal
      · have hle := hlater.length_le
        refine ih hnext hinv hlen' hsplit ?_ htarget
        rw [scan_reachablePcs]
        refine List.suffix_of_suffix_length_le hsuffix' ((List.suffix_cons pc before).trans hsuffix) ?_
        rw [List.length_cons]
        omega

end

/-! ## Targets that are known in time -/

theorem visitOrder_nodup (p : Process) (f : Function) : (visitOrder p f).Nodup :=
  (order_nodup kMaxInsnsExplored ⟨List.nodup_singleton _, fun _ ha => ha⟩).1

section

variable {s : Explore} {front : Front UInt64} {start cur : UInt64}

/-- Along the search, scans are clean where targets are known in time. -/
theorem TargetsKnown.clean (hknown : TargetsKnown p f) (h : Invariant p f s) (hcur : s.current = some (start, cur))
    {rest : List UInt64} (hbegins : visitOrder p f = s.reachablePcs.reverse ++ cur :: rest) : Clean p f s cur := by
  have hreach := h.marks.reachable_cur hcur
  have hnodup := visitOrder_nodup p f
  have hnew : cur ∉ s.reachablePcs := by
    rw [hbegins] at hnodup
    intro hin
    exact (List.nodup_append.mp hnodup).2.2 cur (List.mem_reverse.mpr hin) cur List.mem_cons_self rfl
  -- what is run into at a counted address, or at this one, is a target that was noted
  have hnoted : ∀ pc before after, visitOrder p f = before ++ pc :: after →
      (∀ q ∈ before, q ∈ s.reachablePcs) → flow p f pc = .runs false →
      (pc + 4 = f.funcStart ∨ IsTarget p f (pc + 4)) → pc + 4 ∈ s.branchTargets := by
    intro pc before after hsplit hbefore hruns htarget
    have hback : pc + 4 - 4 = pc := UInt64.add_sub_cancel pc 4
    obtain ⟨q, hq, ht⟩ :=
      hknown (pc + 4) htarget (by rw [hback]; exact hruns) before after (by rw [hback]; exact hsplit)
    exact h.marks.targetsOf q (hbefore q hq) _ ht
  refine ⟨fun t ht hin => ?_, fun hruns huncut => ?_⟩
  · have hpassed : t ∈ s.reachablePcs ∨ t ∈ s.pending := by
      rcases List.mem_cons.mp hin with rfl | hin
      · rw [Explore.pending_eq hcur]
        exact .inr List.mem_cons_self
      · exact .inl hin
    rcases h.marks.passed t hpassed with hvisited | ⟨pc, hpc, rfl, hruns⟩
    · exact hvisited
    · obtain ⟨before, after, hsplit⟩ := List.append_of_mem (List.mem_reverse.mpr hpc)
      refine h.marks.targetsVisited _ (hnoted pc before (after ++ cur :: rest) ?_ (fun q hq => ?_) hruns
        (.inr ⟨cur, hreach, ht⟩))
      · rw [hbegins, hsplit, List.append_assoc]
        rfl
      · rw [← List.mem_reverse, hsplit]
        exact List.mem_append_left _ hq
  · have hnotVisited : cur + 4 ∉ s.visitedBlocks := by
      intro hvisited
      rcases h.marks.visited _ hvisited with heq | ht | ⟨pc, -, heq, t, hbranch⟩
      · exact huncut (hnoted cur _ rest hbegins (fun q hq => List.mem_reverse.mp hq) hruns (.inl heq))
      · exact huncut ht
      · rw [UInt64.add_left_inj] at heq
        rw [← heq, hruns] at hbranch
        cases hbranch
    refine ⟨hnotVisited, fun hin => ?_⟩
    rcases List.mem_cons.mp hin with heq | hin
    · exact ne_add_four cur heq
    · rcases h.marks.passed _ (.inl hin) with hvisited | ⟨pc, hpc, heq, -⟩
      · exact hnotVisited hvisited
      · rw [UInt64.add_left_inj] at heq
        rw [← heq] at hpc
        exact hnew hpc

theorem Explore.Whole.scan (hwhole : s.Whole) (hcur : s.current = some (start, cur)) (hclean : Clean p f s cur)
    (hcode : flow p f cur ≠ .absent) : (s.scan p f start cur).Whole := by
  have hscan := Explore.scanned p f s start cur
  generalize s.scan p f start cur = next at hscan ⊢
  cases hscan with
  | dropped why =>
    rcases why with hflow | ⟨hflow, huncut, hknown, -⟩
    · exact absurd hflow hcode
    · exact absurd hknown (hclean.runs hflow huncut).2
  | finished b startPc endPc code succs =>
    obtain ⟨hvisited, -, -, hblocks, -⟩ := Explore.pop_fields (s := (s.mark cur).note (flow p f cur).targets b)
    have hblocks' : ((s.mark cur).note (flow p f cur).targets b).pop.blocks = s.blocks ++ [b] := by
      rw [hblocks]
      unfold Explore.note
      rw [(Explore.foldl_push_fields b.succs).2.2]
      rfl
    have hwaiting : ∀ pc ∈ ((s.mark cur).note (flow p f cur).targets b).worklist,
        pc ∈ ((s.mark cur).note (flow p f cur).targets b).pop.worklist ∨
          ∃ cur', ((s.mark cur).note (flow p f cur).targets b).pop.current = some (pc, cur') := by
      intro pc hpc
      rcases Explore.pop_cases ((s.mark cur).note (flow p f cur).targets b) with
        ⟨hlist, hpop⟩ | ⟨first, rest, hlist, hpop⟩
      · rw [hlist] at hpc
        cases hpc
      · rw [hlist] at hpc
        rw [hpop]
        rcases List.mem_cons.mp hpc with rfl | hpc
        · exact .inr ⟨pc, rfl⟩
        · exact .inl hpc
    intro pc hpc
    rw [hvisited] at hpc
    rw [hblocks']
    have hlist : pc ∈ ((s.mark cur).note (flow p f cur).targets b).worklist ∨
        ∃ c ∈ s.blocks ++ [b], c.startPc = pc := by
      by_cases hold : pc ∈ s.visitedBlocks
      · rcases hwhole pc hold with hin | ⟨cur', hplace⟩ | ⟨c, hc, heq⟩
        · exact .inl (Explore.mem_foldl_push_worklist.mpr (.inl hin))
        · rw [hcur, Option.some.injEq, Prod.mk.injEq] at hplace
          exact .inr ⟨b, List.mem_append_right _ List.mem_cons_self, by rw [startPc, hplace.1]⟩
        · exact .inr ⟨c, List.mem_append_left _ hc, heq⟩
      · have hin := (Explore.mem_foldl_push_visited.mp hpc).resolve_right hold
        exact .inl (Explore.mem_foldl_push_worklist.mpr (.inr ⟨hin, hold⟩))
    rcases hlist with hin | hblock
    · rcases hwaiting pc hin with hin | hplace
      · exact .inl hin
      · exact .inr (.inl hplace)
    · exact .inr (.inr hblock)
  | continued runs uncut fresh =>
    intro pc hpc
    rcases hwhole pc hpc with hin | ⟨cur', hplace⟩ | hblock
    · exact .inl hin
    · rw [hcur, Option.some.injEq, Prod.mk.injEq] at hplace
      rw [← hplace.1]
      exact .inr (.inl ⟨cur + 4, rfl⟩)
    · exact .inr (.inr hblock)

theorem TargetsKnown.endsWell {n : Nat} (hknown : TargetsKnown p f)
    (hcode : ∀ pc, Reachable p f pc → flow p f pc ≠ .absent) (h : Invariant p f s) (hsim : Simulates s front)
    (hlen : s.reachablePcs.length + n ≤ kMaxInsnsExplored) (hwhole : s.Whole)
    (hbegins : visitOrder p f = s.reachablePcs.reverse ++ order (fun pc => (flow p f pc).nexts pc) n front) :
    (explore p f n s).Whole ∧ ∃ rest, visitOrder p f = (explore p f n s).reachablePcs.reverse ++ rest := by
  induction n generalizing s front with
  | zero => exact ⟨hwhole, _, hbegins⟩
  | succ n ih =>
    cases hcur : s.current with
    | none =>
      rw [explore, hcur]
      exact ⟨hwhole, _, hbegins⟩
    | some place =>
      obtain ⟨start, cur⟩ := place
      obtain ⟨stack, marked⟩ := front
      obtain rfl : stack = cur :: s.worklist := hsim.stack.trans (Explore.pending_eq hcur)
      rw [order_succ] at hbegins
      have hclean := hknown.clean h hcur hbegins
      rw [explore, hcur]
      refine ih (h.scan hcur (by omega)) (hsim.scan h hcur hclean) ?_
        (hwhole.scan hcur hclean (hcode cur (h.marks.reachable_cur hcur))) ?_
      · rw [scan_reachablePcs, List.length_cons]
        omega
      · rw [hbegins, scan_reachablePcs, List.reverse_cons, List.append_assoc]
        rfl

end

theorem simulates_init (f : Function) : Simulates (init f) ⟨[f.funcStart], [f.funcStart]⟩ where
  stack := rfl
  marked := fun x => by
    have hfields : (init f).visitedBlocks = [f.funcStart] ∧ (init f).reachablePcs = [] ∧
        (init f).pending = [f.funcStart] := ⟨rfl, rfl, rfl⟩
    rw [hfields.1, hfields.2.1, hfields.2.2]
    exact ⟨.inl, fun hx => hx.elim id (fun hx => hx.elim (fun h => by cases h) id)⟩

theorem whole_init (f : Function) : (init f).Whole := by
  intro pc hpc
  rw [List.mem_singleton.mp hpc]
  exact .inr (.inl ⟨f.funcStart, rfl⟩)

theorem partitions_of_absent (hcode : flow p f f.funcStart = .absent) : Partitions p f (dumpCfg p f).blocks := by
  have hblocks : (dumpCfg p f).blocks = [] := by
    have hscan : (init f).scan p f f.funcStart f.funcStart =
        { init f with current := none, reachablePcs := [f.funcStart] } := by
      unfold Explore.scan
      rw [hcode]
      rfl
    have hstep : dumpCfg p f = explore p f 4095 ((init f).scan p f f.funcStart f.funcStart) := rfl
    rw [hstep, hscan]
    rfl
  have hentry : ∀ pc, Reachable p f pc → pc = f.funcStart := by
    intro pc hpc
    induction hpc with
    | refl => rfl
    | tail _ hnext ih =>
      rw [ih, hcode] at hnext
      cases hnext
  rw [hblocks]
  refine ⟨fun pc hpc hinsn => ?_, fun b hb => absurd hb List.not_mem_nil, fun b hb => absurd hb List.not_mem_nil⟩
  rw [hentry pc hpc] at hinsn
  exact absurd hcode hinsn

/-- Below the limit, the blocks partition the code exactly where the targets that it runs into are known in time. -/
theorem blocks_partition_iff (p : Process) (f : Function)
    (hcap : (dumpCfg p f).reachablePcs.length < kMaxInsnsExplored) :
    Partitions p f (dumpCfg p f).blocks ↔ IsCuttable p f := by
  by_cases hcode : flow p f f.funcStart = .absent
  · exact ⟨fun _ => .inl hcode, fun _ => partitions_of_absent hcode⟩
  have hlen : (init f).reachablePcs.length + kMaxInsnsExplored ≤ kMaxInsnsExplored := Nat.le_of_eq (Nat.zero_add _)
  have hinv : Invariant p f (dumpCfg p f) := invariant_init.explore hlen
  have hcur : (dumpCfg p f).current = none := explore_current (Nat.zero_add _) hcap
  have hpending := hinv.pending_eq_nil hcur
  rw [hinv.partitions_iff hcur hcode]
  constructor
  · rintro ⟨hwhole, hnodup⟩
    have hwell : EndsWell p f kMaxInsnsExplored (init f) := ⟨hpending, hwhole, hnodup⟩
    have horder : visitOrder p f = (dumpCfg p f).reachablePcs.reverse :=
      hwell.order_eq invariant_init (simulates_init f) hlen
    refine .inr ⟨fun pc hpc => ?_, fun t ht hruns before after hsplit => ?_⟩
    · have hin := (hinv.mem_reachablePcs hpending).mpr hpc
      have hopen : (dumpCfg p f).openPcs = [] := by
        unfold Explore.openPcs
        rw [hcur]
      rw [(hinv.pieces.whole hwhole).mem_iff, hopen, List.nil_append, List.mem_flatMap] at hin
      obtain ⟨b, hb, hin⟩ := hin
      exact (hinv.pieces.blocks b hb).2.1 pc hin
    · have hback : t - 4 + 4 = t := UInt64.sub_add_cancel t 4
      have hscanned : (dumpCfg p f).reachablePcs = after.reverse ++ (t - 4) :: before.reverse := by
        rw [← List.reverse_reverse (dumpCfg p f).reachablePcs, ← horder, hsplit]
        simp
      obtain ⟨q, hq, htargets⟩ := hwell.known invariant_init hlen hscanned List.nil_suffix hruns
        (by rw [hback]; exact ht.imp id (hinv.mem_branchTargets hpending).mpr)
      rw [hback] at htargets
      exact ⟨q, List.mem_reverse.mp hq, htargets⟩
  · rintro (habsent | ⟨hall, hknown⟩)
    · exact absurd habsent hcode
    · obtain ⟨hwhole, rest, hbegins⟩ :=
        hknown.endsWell hall invariant_init (simulates_init f) hlen (whole_init f) rfl
      refine ⟨hwhole, ?_⟩
      have hnodup := visitOrder_nodup p f
      have hbegins' : visitOrder p f = (dumpCfg p f).reachablePcs.reverse ++ rest := hbegins
      rw [hbegins'] at hnodup
      exact List.nodup_reverse.mp (List.nodup_append.mp hnodup).1

/-- The loop of the fixed input stays below the limit, and its blocks are no partition. -/
theorem blocks_partition_iff_loop : (dumpCfg loopProcess loopFunction).reachablePcs.length < kMaxInsnsExplored ∧
    (Partitions loopProcess loopFunction (dumpCfg loopProcess loopFunction).blocks ↔
      IsCuttable loopProcess loopFunction) :=
  ⟨by decide, blocks_partition_iff loopProcess loopFunction (by decide)⟩

/-- Its second instruction is a target within the block of the entry, and no block starts there. -/
theorem loop_not_partition : ¬ ∀ (p : Process) (f : Function),
    (dumpCfg p f).reachablePcs.length < kMaxInsnsExplored → Partitions p f (dumpCfg p f).blocks := by
  intro h
  have hpart := h loopProcess loopFunction (by decide)
  have hblock : (⟨0x1000, 0x1008, [0x1004, 0x100c], false, false⟩ : Block) ∈
      (dumpCfg loopProcess loopFunction).blocks := by decide
  obtain ⟨next, hnext, hstart⟩ := hpart.succs _ hblock 0x1004 (by decide)
  have hnone : ∀ b ∈ (dumpCfg loopProcess loopFunction).blocks, b.startPc ≠ 0x1004 := by decide
  exact hnone next hnext hstart

end ArtPi.Debug.NativeCfg
