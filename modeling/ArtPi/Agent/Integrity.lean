import ArtPi.Hash.Checksums
import ArtPi.Lib.Breaks
import ArtPi.Lib.Memory
import Mathlib.Data.UInt

set_option autoImplicit false

/-! # The integrity scan (`src/agent/agent_integrity.cpp`)

`JsVerifyCodeIntegrity` reads every page of the executable segments of a module from its file and compares it with the
memory. A page of which only a part was read counts as checked when this part is equal. -/

namespace ArtPi.Agent.Integrity

open Lib Hash

structure ExecSegment where
  vaddrStart : UInt64
  vaddrEnd : UInt64
  fileOffset : UInt64

structure PageDiffRecord where
  memAddr : UInt64
  fileOffset : UInt64
  diskCrc : UInt32
  memCrc : UInt32
  diffBytes : Nat
  firstDiff : Nat
  symbols : List String

structure IntegrityReport where
  checkedPages : UInt64 := 0
  cleanPages : UInt64 := 0
  isComplete : Bool := false
  diffs : List PageDiffRecord := []
  error : String := ""

/-- What the scan meets. The numbers of the segment and of the page in it say when: the file, the memory and its
    protection may change while the scan goes on. -/
structure Env where
  pageSize : UInt64
  /-- the file offset of the map at the start of a segment, if there is one, and that of the map at the base -/
  segMapOffset : Nat → UInt64 → Option UInt64
  baseMapOffset : UInt64
  /-- `pread64`, repeated while it is interrupted: no bytes where it fails or the file has ended -/
  pread : Nat → Nat → UInt64 → {bs : List UInt8 // bs.length ≤ pageSize.toNat}
  strerror : Nat → Nat → String
  isReadable : Nat → Nat → UInt64 → Nat → Bool
  memory : Nat → Nat → Memory
  /-- the symbol of the module at an altered address, as it is shown -/
  symbols : UInt64 → List String

variable (e : Env)

/-! ## The pages -/

def pageStart (seg : ExecSegment) : UInt64 := seg.vaddrStart &&& ~~~(e.pageSize - 1)

def pageEnd (seg : ExecSegment) : UInt64 := (seg.vaddrEnd + e.pageSize - 1) &&& ~~~(e.pageSize - 1)

def pageCount (seg : ExecSegment) : UInt64 := (pageEnd e seg - pageStart e seg) / e.pageSize

def expectedPages (segs : List ExecSegment) : UInt64 := segs.foldl (fun n seg => n + pageCount e seg) 0

/-- A segment with its number. -/
abbrev Numbered := ExecSegment × Nat

def memPageAddr (seg : Numbered) (p : Nat) : UInt64 := pageStart e seg.1 + UInt64.ofNat p * e.pageSize

def fileOff (seg : Numbered) (p : Nat) : UInt64 :=
  (e.segMapOffset seg.2 (pageStart e seg.1)).getD (e.baseMapOffset + seg.1.fileOffset) + UInt64.ofNat p * e.pageSize

/-- `diskBuf`, as far as it was read -/
def diskBytes (seg : Numbered) (p : Nat) : List UInt8 := (e.pread seg.2 p (fileOff e seg p)).val

/-- The first bytes of the page. -/
def memBytes (seg : Numbered) (p n : Nat) : List UInt8 := (e.memory seg.2 p).read (memPageAddr e seg p).toNat n

/-! ## The scan -/

def pageDiff (seg : Numbered) (p : Nat) (disk mem : List UInt8) : PageDiffRecord :=
  let differs := (disk.zip mem).map fun b => b.1 != b.2
  let firstDiff := if true ∈ differs then differs.findIdx id else 0
  { memAddr := memPageAddr e seg p
    fileOffset := fileOff e seg p
    diskCrc := crc32 (.bytes disk) 0
    memCrc := crc32 (.bytes mem) 0
    diffBytes := differs.countP id
    firstDiff := firstDiff
    symbols := e.symbols (memPageAddr e seg p + UInt64.ofNat firstDiff) }

/-- One turn of the inner loop. -/
def scanPage (seg : Numbered) (rep : IntegrityReport) (p : Nat) : Except IntegrityReport IntegrityReport :=
  let disk := diskBytes e seg p
  if disk = [] then
    .error { rep with
      error := s!"Disk read failed at file offset {fileOff e seg p} ({e.strerror seg.2 p})"
      isComplete := false }
  else if ¬ e.isReadable seg.2 p (memPageAddr e seg p) disk.length then
    .error { rep with
      error := s!"Memory page not readable at address 0x{memPageAddr e seg p}"
      isComplete := false }
  else
    let mem := memBytes e seg p disk.length
    let rep := { rep with checkedPages := rep.checkedPages + 1 }
    .ok (if disk = mem then { rep with cleanPages := rep.cleanPages + 1 }
      else { rep with diffs := rep.diffs ++ [pageDiff e seg p disk mem] })

/-- One turn of the outer loop: `if (!rep.isComplete) break;` behind the pages. -/
def scanSegment (rep : IntegrityReport) (seg : Numbered) : Except IntegrityReport IntegrityReport :=
  let rep := leave ((List.range (pageCount e seg.1).toNat).foldlM (scanPage e seg) rep)
  if rep.isComplete then .ok rep else .error rep

def startReport (segs : List ExecSegment) : IntegrityReport :=
  if expectedPages e segs = 0 then
    { isComplete := false, error := "No executable code pages found in target module" }
  else { isComplete := true }

/-- The report behind the loops. -/
def scan (segs : List ExecSegment) : IntegrityReport :=
  let rep := leave (segs.zipIdx.foldlM (scanSegment e) (startReport e segs))
  if rep.checkedPages < expectedPages e segs then
    { rep with
      isComplete := false
      error := if rep.error = "" then
          s!"Scan interrupted: checked {rep.checkedPages} of {expectedPages e segs} expected pages"
        else rep.error }
  else rep

def isClean (segs : List ExecSegment) : Bool :=
  let rep := scan e segs
  rep.isComplete ∧ 0 < rep.checkedPages ∧ rep.checkedPages = expectedPages e segs ∧ rep.diffs = [] ∧ rep.error = ""

/-! ## What the verdict says -/

/-- Every byte of the page was read and is equal in memory. -/
def Compared (seg : Numbered) (p : Nat) : Prop :=
  (diskBytes e seg p).length = e.pageSize.toNat ∧ memBytes e seg p e.pageSize.toNat = diskBytes e seg p

/-- The bytes of the page that were read are equal in memory. -/
def Passes (seg : Numbered) (p : Nat) : Prop :=
  diskBytes e seg p ≠ [] ∧ e.isReadable seg.2 p (memPageAddr e seg p) (diskBytes e seg p).length ∧
    diskBytes e seg p = memBytes e seg p (diskBytes e seg p).length

def OnPages (segs : List ExecSegment) (P : Numbered → Nat → Prop) : Prop :=
  ∀ seg ∈ segs.zipIdx, ∀ p ∈ List.range (pageCount e seg.1).toNat, P seg p

/-- No page is read in part, or something else is wrong with a page or there is none. -/
def NoShortRead (segs : List ExecSegment) : Prop :=
  expectedPages e segs ≠ 0 → OnPages e segs (Passes e) →
    OnPages e segs fun seg p => ¬ (diskBytes e seg p).length < e.pageSize.toNat

/-- Each page that was checked is counted as clean or reported. -/
def IntegrityReport.Balanced (rep : IntegrityReport) : Prop :=
  rep.checkedPages = rep.cleanPages + UInt64.ofNat rep.diffs.length

def IntegrityReport.Clean (rep : IntegrityReport) : Prop := rep.isComplete ∧ rep.diffs = [] ∧ rep.error = ""

/-! ## One page -/

theorem scanPage_error {seg : Numbered} {rep t : IntegrityReport} {p : Nat} (h : scanPage e seg rep p = .error t) :
    t.isComplete = false := by
  unfold scanPage at h
  dsimp only at h
  split at h
  · cases h
    rfl
  · split at h
    · cases h
      rfl
    · cases h

theorem scanPage_ok {seg : Numbered} {rep t : IntegrityReport} {p : Nat} (h : scanPage e seg rep p = .ok t) :
    t.checkedPages = rep.checkedPages + 1 := by
  unfold scanPage at h
  dsimp only at h
  split at h
  · cases h
  · split at h
    · cases h
    · cases h
      split <;> rfl

theorem scanPage_clean (seg : Numbered) (rep : IntegrityReport) (p : Nat) :
    (leave (scanPage e seg rep p)).Clean ↔ rep.Clean ∧ Passes e seg p := by
  unfold scanPage Passes
  dsimp only
  by_cases hread : diskBytes e seg p = []
  · rw [if_pos hread]
    simp [IntegrityReport.Clean, leave, hread]
  · rw [if_neg hread]
    by_cases hmem : e.isReadable seg.2 p (memPageAddr e seg p) (diskBytes e seg p).length
    · rw [if_neg (not_not.2 hmem)]
      by_cases heq : diskBytes e seg p = memBytes e seg p (diskBytes e seg p).length
      · rw [if_pos heq]
        simp [IntegrityReport.Clean, leave, hread, hmem, ← heq]
      · rw [if_neg heq]
        simp [IntegrityReport.Clean, leave, heq]
    · rw [if_pos hmem]
      simp [IntegrityReport.Clean, leave, hmem]

theorem scanPage_balanced {seg : Numbered} {rep : IntegrityReport} (h : rep.Balanced) (p : Nat) :
    (leave (scanPage e seg rep p)).Balanced := by
  unfold scanPage
  dsimp only
  split
  · exact h
  · split
    · exact h
    · unfold IntegrityReport.Balanced at h ⊢
      simp only [leave]
      split
      · rw [h]
        exact add_right_comm _ _ _
      · rw [h, List.length_append, List.length_singleton, UInt64.ofNat_add]
        exact add_assoc _ _ _

/-! ## The loops -/

theorem scanSegment_error {rep t : IntegrityReport} {seg : Numbered} (h : scanSegment e rep seg = .error t) :
    ¬ t.Clean := by
  unfold scanSegment at h
  dsimp only at h
  split at h
  · cases h
  next hincomplete =>
    cases h
    exact fun hclean => hincomplete hclean.1

theorem leave_scanSegment (rep : IntegrityReport) (seg : Numbered) :
    leave (scanSegment e rep seg) = leave ((List.range (pageCount e seg.1).toNat).foldlM (scanPage e seg) rep) := by
  unfold scanSegment
  dsimp only
  split <;> rfl

theorem scanSegment_clean (rep : IntegrityReport) (seg : Numbered) :
    (leave (scanSegment e rep seg)).Clean ↔
      rep.Clean ∧ ∀ p ∈ List.range (pageCount e seg.1).toNat, Passes e seg p := by
  rw [leave_scanSegment]
  refine leave_verdict (fun rep p _ => scanPage_clean e seg rep p) fun rep p t herr hclean => ?_
  rw [IntegrityReport.Clean, scanPage_error e herr] at hclean
  exact absurd hclean.1 (by decide)

theorem scanSegment_balanced {rep : IntegrityReport} (h : rep.Balanced) (seg : Numbered) :
    (leave (scanSegment e rep seg)).Balanced := by
  rw [leave_scanSegment]
  exact leave_invariant h fun rep hrep p _ => scanPage_balanced e hrep p

/-- Behind all segments nothing is wrong exactly if there is a page and every page passes. -/
theorem scanSegments_clean (segs : List ExecSegment) :
    (leave (segs.zipIdx.foldlM (scanSegment e) (startReport e segs))).Clean ↔
      expectedPages e segs ≠ 0 ∧ OnPages e segs (Passes e) := by
  have hstart : (startReport e segs).Clean ↔ expectedPages e segs ≠ 0 := by
    unfold startReport
    split <;> simp [IntegrityReport.Clean, *]
  rw [← hstart]
  exact leave_verdict (fun rep seg _ => scanSegment_clean e rep seg) fun rep seg t herr => scanSegment_error e herr

theorem scanSegments_balanced (segs : List ExecSegment) :
    (leave (segs.zipIdx.foldlM (scanSegment e) (startReport e segs))).Balanced := by
  have hstart : (startReport e segs).Balanced := by
    unfold startReport
    split <;> rfl
  exact leave_invariant hstart fun rep hrep seg _ => scanSegment_balanced e hrep seg

theorem scan_balanced (segs : List ExecSegment) : (scan e segs).Balanced := by
  have h := scanSegments_balanced e segs
  unfold scan
  dsimp only
  split <;> exact h

/-! ## The counters -/

theorem sum_expectedPages (segs : List ExecSegment) :
    expectedPages e segs = (segs.zipIdx.map fun seg => pageCount e seg.1).sum := by
  have hmap : (segs.zipIdx.map fun seg => pageCount e seg.1) = segs.map (pageCount e) := by
    have hfst : segs.zipIdx.map Prod.fst = segs := List.zipIdx_map_fst 0 segs
    nth_rewrite 2 [← hfst]
    rw [List.map_map]
    rfl
  rw [hmap, List.sum_eq_foldl, List.foldl_map]
  rfl

theorem sum_ones (n : UInt64) : ((List.range n.toNat).map fun _ => (1 : UInt64)).sum = n := by
  have h (k : Nat) : ((List.range k).map fun _ => (1 : UInt64)).sum = UInt64.ofNat k := by
    induction k with
    | zero => rfl
    | succ k ih => rw [List.range_succ, List.map_append, List.sum_append, ih, UInt64.ofNat_add]; rfl
  rw [h, UInt64.ofNat_toNat]

theorem scanSegment_ok {rep t : IntegrityReport} {seg : Numbered} (h : scanSegment e rep seg = .ok t) :
    t.checkedPages = rep.checkedPages + pageCount e seg.1 := by
  unfold scanSegment at h
  dsimp only at h
  cases hpages : (List.range (pageCount e seg.1).toNat).foldlM (scanPage e seg) rep with
  | ok t' =>
    rw [hpages, leave_ok] at h
    have htotal : t'.checkedPages =
        rep.checkedPages + ((List.range (pageCount e seg.1).toNat).map fun _ => 1).sum :=
      foldlM_total (fun _ _ _ => scanPage_ok e) hpages
    rw [sum_ones] at htotal
    split at h
    · cases h
      exact htotal
    · cases h
  | error t' =>
    obtain ⟨s, p, -, hbreak⟩ := exists_of_foldlM_error hpages
    rw [hpages, leave_error, if_neg (by rw [scanPage_error e hbreak]; decide)] at h
    cases h

theorem checkedPages_of_clean {segs : List ExecSegment}
    (h : (leave (segs.zipIdx.foldlM (scanSegment e) (startReport e segs))).Clean) :
    (leave (segs.zipIdx.foldlM (scanSegment e) (startReport e segs))).checkedPages = expectedPages e segs := by
  cases hsegs : segs.zipIdx.foldlM (scanSegment e) (startReport e segs) with
  | ok t =>
    have hstart : (startReport e segs).checkedPages = 0 := by
      unfold startReport
      split <;> rfl
    have htotal : t.checkedPages =
        (startReport e segs).checkedPages + (segs.zipIdx.map fun seg => pageCount e seg.1).sum :=
      foldlM_total (fun _ _ _ => scanSegment_ok e) hsegs
    rw [hstart, zero_add, ← sum_expectedPages] at htotal
    exact htotal
  | error t =>
    rw [hsegs] at h
    obtain ⟨s, seg, -, hbreak⟩ := exists_of_foldlM_error hsegs
    exact absurd h (scanSegment_error e hbreak)

/-! ## The verdict -/

theorem isClean_iff (segs : List ExecSegment) :
    isClean e segs ↔ expectedPages e segs ≠ 0 ∧ OnPages e segs (Passes e) := by
  rw [← scanSegments_clean]
  unfold isClean scan
  dsimp only
  rw [decide_eq_true_iff]
  generalize hrep : leave (segs.zipIdx.foldlM (scanSegment e) (startReport e segs)) = rep
  constructor
  · intro h
    split at h
    · exact absurd h.1 (by simp)
    · exact ⟨h.1, h.2.2.2⟩
  · intro h
    have hcount : rep.checkedPages = expectedPages e segs := by
      rw [← hrep] at h ⊢
      exact checkedPages_of_clean e h
    have hpos : expectedPages e segs ≠ 0 := by
      rw [← hrep] at h
      exact ((scanSegments_clean e segs).1 h).1
    rw [if_neg (by rw [hcount]; exact UInt64.lt_irrefl _), hcount]
    exact ⟨h.1, UInt64.pos_iff_ne_zero.2 hpos, rfl, h.2⟩

/-- The verdict is right and the counters agree exactly if no page that was read in part gets lost among pages that
    are all in order. -/
theorem verdict_iff_noShortRead (segs : List ExecSegment) :
    ((isClean e segs → OnPages e segs (Compared e)) ∧ (scan e segs).Balanced) ↔ NoShortRead e segs := by
  rw [and_iff_left (scan_balanced e segs), isClean_iff, NoShortRead, and_imp]
  refine imp_congr_right fun _ => imp_congr_right fun hpass => ?_
  constructor
  · intro h seg hseg p hp hshort
    exact absurd (h seg hseg p hp).1 (Nat.ne_of_lt hshort)
  · intro h seg hseg p hp
    have hfull : (diskBytes e seg p).length = e.pageSize.toNat :=
      Nat.le_antisymm (e.pread seg.2 p (fileOff e seg p)).property (Nat.le_of_not_lt (h seg hseg p hp))
    refine ⟨hfull, ?_⟩
    rw [← hfull]
    exact (hpass seg hseg p hp).2.2.symm

/-- One page; the file ends in its first byte. -/
def truncated : Env where
  pageSize := 4096
  segMapOffset _ _ := some 0
  baseMapOffset := 0
  pread _ _ _ := ⟨[0xd6], by decide⟩
  strerror _ _ := "Success"
  isReadable _ _ _ _ := true
  memory _ _ := fun _ => 0xd6
  symbols _ := []

theorem not_verdict_truncated :
    ¬ ∀ (e : Env) (segs : List ExecSegment),
      (isClean e segs → OnPages e segs (Compared e)) ∧ (scan e segs).Balanced := by
  intro h
  have hclean : isClean truncated [⟨0x7000001000, 0x7000002000, 0x1000⟩] := by decide
  have hfull := (h truncated _).1 hclean _ List.mem_cons_self 0 (by decide)
  exact absurd hfull.1 (by decide)

end ArtPi.Agent.Integrity
