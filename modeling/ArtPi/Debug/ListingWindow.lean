import ArtPi.Lib.Runs
import Mathlib.Algebra.Order.Ring.Int
import Mathlib.Data.List.Basic

set_option autoImplicit false

/-! # The window of a listing (`src/native/pi_native.cpp`, `src/dex/pi_smali.cpp`)

At a stop the debugger lists the code around the current instruction. A listing that is longer than the window shows a
part of it: that of bytecode is laid out anew each time, while that of native code starts where it started before, and
scrolls when the instruction comes near to one of its ends. -/

namespace ArtPi.Debug.ListingWindow

open Lib

/-! ## Native code -/

/-- The bounds that the analysis of the code found, the size of the symbol (0 where it is not known), the instruction
    that is highlighted, and the words that can be read. -/
structure NativeListing where
  funcStart : Nat
  funcEnd : Nat
  symSize : Nat
  highlightPc : Nat
  maxInstructions : Int
  readable : Nat → Bool
  windowed : 0x1000 ≤ highlightPc
  aligned : funcStart % 4 = 0
  bounds : funcStart < funcEnd
  /-- addresses of user space -/
  user : funcEnd < 2 ^ 56 ∧ highlightPc < 2 ^ 56
  isInt : maxInstructions < 2 ^ 31

/-- `t_nativeWinState` -/
structure NativeWindowState where
  funcStart : Nat := 0
  winBegin : Nat := 0

/-- The lines from `winBegin` up to `winEnd` are printed. -/
structure Window where
  winBegin : Nat
  winEnd : Nat

def listingWindow (maxInstructions : Int) : Nat := if 0 < maxInstructions then maxInstructions.toNat else 21

namespace NativeListing

def win (l : NativeListing) : Nat := listingWindow l.maxInstructions

def readWord (l : NativeListing) (pc : Nat) : Bool := pc % 4 = 0 && l.readable pc

def dumpStart (l : NativeListing) : Nat :=
  let before := l.win / 2 * 4
  let start := if l.highlightPc > before then l.highlightPc - before else 0
  let start := start - start % 4
  if l.funcStart ≤ l.highlightPc ∧ start < l.funcStart then l.funcStart else start

/-- None where the sum `listing_window + 4` overflows. -/
def dumpEnd (l : NativeListing) : Option Nat :=
  if 2 ^ 31 ≤ l.win + 4 then none else some (min l.funcEnd (l.dumpStart + (l.win + 4) * 4))

end NativeListing

/-- The addresses of the words up to one that cannot be read. -/
def wordsFrom (readWord : Nat → Bool) : Nat → Nat → List Nat
  | 0, _ => []
  | n + 1, pc => if readWord pc then pc :: wordsFrom readWord n (pc + 4) else []

/-- The addresses of `insns_list`. -/
def NativeListing.insnsList (l : NativeListing) (dumpEnd : Nat) : List Nat :=
  wordsFrom l.readWord ((dumpEnd - l.dumpStart + 3) / 4) l.dumpStart

/-- The line that is marked: that of the address, or one next to it. -/
def hiIdx (insns : List Nat) (highlightPc : Nat) : Nat :=
  match insns.findIdx? (· = highlightPc) with
  | some i => i
  | none =>
    match insns.findIdx? (fun a => highlightPc < a + 4) with
    | some i => i
    | none => insns.length - 1

def margin : Nat := 3

/-- Where the window starts before it scrolls. -/
def NativeWindowState.start (s : NativeWindowState) (funcStart total win hi : Nat) : Nat :=
  if s.funcStart = funcStart ∧ s.winBegin < total then s.winBegin
  else if win / 3 < hi then hi - win / 3
  else 0

/-- The difference with the margin is that of a `size_t`. -/
def scroll (start win hi : Nat) : Nat :=
  if (start + win + 2 ^ 64 - margin) % 2 ^ 64 ≤ hi then (if win ≤ hi + margin then hi + margin - win + 1 else 0)
  else if hi < start + margin then (if margin ≤ hi then hi - margin else 0)
  else start

def clampStart (start win total : Nat) : Nat :=
  if total < start + win then (if win < total then total - win else 0) else start

/-- The window of a listing and what is kept for the next one. -/
def nativeWindow (s : NativeWindowState) (l : NativeListing) (insns : List Nat) : Window × NativeWindowState :=
  if insns ≠ [] ∧ l.win < insns.length then
    let hi := hiIdx insns l.highlightPc
    let start := clampStart (scroll (s.start l.funcStart insns.length l.win hi) l.win hi) l.win insns.length
    (⟨start, start + l.win⟩, ⟨l.funcStart, start⟩)
  else (⟨0, insns.length⟩, s)

/-! ## Bytecode -/

/-- The offsets of the lines, and the offset that is highlighted. -/
structure SmaliListing where
  offsets : List Nat
  highlightPc : Nat
  maxInstructions : Int
  increasing : offsets.Pairwise (· < ·)

def smaliHiIdx (offsets : List Nat) (highlightPc : Nat) : Nat :=
  match offsets.findIdx? (· = highlightPc) with
  | some i => i
  | none =>
    match offsets.findIdx? (fun o => highlightPc ≤ o) with
    | some i => i
    | none => offsets.length - 1

def smaliWindow (l : SmaliListing) : Window :=
  let win := listingWindow l.maxInstructions
  let total := l.offsets.length
  let hi := smaliHiIdx l.offsets l.highlightPc
  if win < total then
    let before := win / 2
    let winBegin := if before < hi then hi - before else 0
    let winEnd := winBegin + win
    if total < winEnd then ⟨if win < total then total - win else 0, total⟩
    else ⟨winBegin, winEnd⟩
  else ⟨0, total⟩

/-! ## Sequences of listings -/

inductive Listing where
  | native (l : NativeListing)
  | smali (l : SmaliListing)

def step (s : NativeWindowState) : Listing → NativeWindowState
  | .native l =>
    match l.dumpEnd with
    | none => s
    | some e => (nativeWindow s l (l.insnsList e)).2
  | .smali _ => s

/-- The window has as many lines as fit, all of the listing, and the marked one is among them. -/
structure Window.Shows (w : Window) (win total hi : Nat) : Prop where
  lines : w.winEnd - w.winBegin = min win total
  inside : w.winBegin ≤ w.winEnd ∧ w.winEnd ≤ total
  marked : 0 < total → w.winBegin ≤ hi ∧ hi < w.winEnd

/-- An instruction within the bounds that were found, or within the symbol. -/
def NativeListing.InFunction (l : NativeListing) : Prop :=
  l.highlightPc % 4 = 0 ∧ l.funcStart ≤ l.highlightPc ∧
    (l.highlightPc < l.funcEnd ∨ l.highlightPc < l.funcStart + l.symSize)

/-- The current instruction is shown. -/
def Listing.ShowsCurrent (s : NativeWindowState) : Listing → Prop
  | .native l => ∃ e, l.dumpEnd = some e ∧
      (nativeWindow s l (l.insnsList e)).1.Shows l.win (l.insnsList e).length
        (hiIdx (l.insnsList e) l.highlightPc) ∧
      (l.InFunction → l.highlightPc ∈ l.insnsList e)
  | .smali l => (smaliWindow l).Shows (listingWindow l.maxInstructions) l.offsets.length
      (smaliHiIdx l.offsets l.highlightPc)

/-! ## The condition -/

/-- For a window of at most three lines: the marked line is one of the last of the listing where it has come to the
    end of the window, and one of the first elsewhere. -/
def FitsMargin (start win total hi : Nat) : Prop :=
  win ≤ 3 → win < total → if 3 ≤ start + win ∧ start + win ≤ hi + 3 then total ≤ hi + win else hi < win

/-- The instruction of a function is within the bounds found, and the words up to it can be read. -/
def NativeListing.Reached (l : NativeListing) : Prop :=
  l.InFunction → l.highlightPc < l.funcEnd ∧
    ∀ pc, l.dumpStart ≤ pc → pc ≤ l.highlightPc → pc % 4 = 0 → l.readable pc = true

def Listing.Fits (s : NativeWindowState) : Listing → Prop
  | .native l => ∃ e, l.dumpEnd = some e ∧
      FitsMargin (s.start l.funcStart (l.insnsList e).length l.win (hiIdx (l.insnsList e) l.highlightPc)) l.win
        (l.insnsList e).length (hiIdx (l.insnsList e) l.highlightPc) ∧
      l.Reached
  | .smali _ => True

/-! ## Windows -/

section

variable {start win total hi : Nat}

theorem listingWindow_pos (n : Int) : 0 < listingWindow n := by
  unfold listingWindow
  split <;> omega

/-- At the end of the window, as a `size_t` has it. -/
theorem atEnd_iff (hsize : start + win < 2 ^ 64) (hhi : hi < 2 ^ 63) :
    (start + win + 2 ^ 64 - margin) % 2 ^ 64 ≤ hi ↔ 3 ≤ start + win ∧ start + win ≤ hi + 3 := by
  unfold margin
  omega

theorem clampStart_eq (hwin : win < total) : clampStart start win total = min start (total - win) := by
  unfold clampStart
  rw [if_pos hwin]
  split <;> omega

theorem scrollDown_shows_iff (hhi : hi < total) (hwin : win < total) (hend : start + win ≤ hi + 3) :
    (clampStart (if win ≤ hi + margin then hi + margin - win + 1 else 0) win total ≤ hi ∧
        hi < clampStart (if win ≤ hi + margin then hi + margin - win + 1 else 0) win total + win) ↔
      (win ≤ 3 → total ≤ hi + win) := by
  unfold margin
  rw [if_pos (by omega), clampStart_eq hwin]
  omega

theorem scrollUp_shows_iff (hhi : hi < total) (hwin : win < total)
    (hend : ¬ (3 ≤ start + win ∧ start + win ≤ hi + 3)) :
    (clampStart (if hi < start + margin then (if margin ≤ hi then hi - margin else 0) else start) win total ≤ hi ∧
        hi < clampStart (if hi < start + margin then (if margin ≤ hi then hi - margin else 0) else start) win total +
          win) ↔
      (win ≤ 3 → hi < win) := by
  unfold margin
  rw [clampStart_eq hwin]
  split
  · split <;> omega
  · omega

theorem scroll_shows_iff (hhi : hi < total) (hwin : win < total) (hsize : start + win < 2 ^ 64)
    (htotal : total < 2 ^ 63) :
    (clampStart (scroll start win hi) win total ≤ hi ∧ hi < clampStart (scroll start win hi) win total + win) ↔
      FitsMargin start win total hi := by
  have hatEnd := atEnd_iff hsize (Nat.lt_trans hhi htotal)
  unfold FitsMargin scroll
  simp only [hwin, forall_const]
  by_cases hend : 3 ≤ start + win ∧ start + win ≤ hi + 3
  · rw [if_pos (hatEnd.mpr hend), if_pos hend]
    exact scrollDown_shows_iff hhi hwin hend.2
  · rw [if_neg (fun h => hend (hatEnd.mp h)), if_neg hend]
    exact scrollUp_shows_iff hhi hwin hend

end

/-! ## The lines of a listing -/

theorem length_wordsFrom_le (readWord : Nat → Bool) (n pc : Nat) : (wordsFrom readWord n pc).length ≤ n := by
  induction n generalizing pc with
  | zero => exact Nat.le_refl 0
  | succ n ih =>
    unfold wordsFrom
    split
    · exact Nat.succ_le_succ (ih (pc + 4))
    · exact Nat.zero_le _

/-- A word is listed where it and those before it can be read. -/
theorem mem_wordsFrom {readWord : Nat → Bool} {n pc a : Nat} :
    a ∈ wordsFrom readWord n pc ↔ ∃ k < n, a = pc + 4 * k ∧ ∀ j ≤ k, readWord (pc + 4 * j) = true := by
  induction n generalizing pc with
  | zero => simp [wordsFrom]
  | succ n ih =>
    unfold wordsFrom
    by_cases hread : readWord pc = true
    · rw [if_pos hread, List.mem_cons, ih]
      constructor
      · rintro (rfl | ⟨k, hk, rfl, hall⟩)
        · refine ⟨0, by omega, rfl, fun j hj => ?_⟩
          obtain rfl : j = 0 := by omega
          exact hread
        · refine ⟨k + 1, by omega, by omega, fun j hj => ?_⟩
          cases j with
          | zero => exact hread
          | succ j =>
            have heq : pc + 4 * (j + 1) = pc + 4 + 4 * j := by omega
            rw [heq]
            exact hall j (by omega)
      · rintro ⟨k, hk, rfl, hall⟩
        cases k with
        | zero => exact .inl rfl
        | succ k =>
          refine .inr ⟨k, by omega, by omega, fun j hj => ?_⟩
          have heq : pc + 4 + 4 * j = pc + 4 * (j + 1) := by omega
          rw [heq]
          exact hall (j + 1) (by omega)
    · rw [if_neg hread]
      constructor
      · intro h
        cases h
      · rintro ⟨k, -, -, hall⟩
        exact absurd (hall 0 (Nat.zero_le k)) hread

theorem hiIdx_lt {insns : List Nat} (h : 0 < insns.length) (highlightPc : Nat) :
    hiIdx insns highlightPc < insns.length := by
  unfold hiIdx
  split
  · rename_i i hi
    exact (List.findIdx?_eq_some_iff_getElem.mp hi).1
  · split
    · rename_i i hi
      exact (List.findIdx?_eq_some_iff_getElem.mp hi).1
    · omega

theorem smaliHiIdx_lt {offsets : List Nat} (h : 0 < offsets.length) (highlightPc : Nat) :
    smaliHiIdx offsets highlightPc < offsets.length := by
  unfold smaliHiIdx
  split
  · rename_i i hi
    exact (List.findIdx?_eq_some_iff_getElem.mp hi).1
  · split
    · rename_i i hi
      exact (List.findIdx?_eq_some_iff_getElem.mp hi).1
    · omega

section

variable {l : NativeListing} {e : Nat}

theorem dumpStart_mod (l : NativeListing) : l.dumpStart % 4 = 0 := by
  have haligned := l.aligned
  unfold NativeListing.dumpStart
  dsimp only
  split <;> split <;> omega

theorem dumpStart_le (h : l.funcStart ≤ l.highlightPc) :
    l.dumpStart ≤ l.highlightPc ∧ l.highlightPc < l.dumpStart + (l.win + 4) * 4 := by
  unfold NativeListing.dumpStart
  dsimp only
  split <;> split <;> omega

theorem dumpEnd_eq (h : l.dumpEnd = some e) :
    l.win + 4 < 2 ^ 31 ∧ e = min l.funcEnd (l.dumpStart + (l.win + 4) * 4) := by
  unfold NativeListing.dumpEnd at h
  split at h
  · cases h
  · exact ⟨by omega, (Option.some.inj h).symm⟩

theorem length_insnsList_le (h : l.dumpEnd = some e) : (l.insnsList e).length ≤ l.win + 4 := by
  have hlen := length_wordsFrom_le l.readWord ((e - l.dumpStart + 3) / 4) l.dumpStart
  have he := (dumpEnd_eq h).2
  unfold NativeListing.insnsList
  omega

/-- An instruction of the function is listed where the bounds and the words that can be read reach it. -/
theorem mem_insnsList_iff (h : l.dumpEnd = some e) (hin : l.InFunction) :
    l.highlightPc ∈ l.insnsList e ↔ l.highlightPc < l.funcEnd ∧
      ∀ pc, l.dumpStart ≤ pc → pc ≤ l.highlightPc → pc % 4 = 0 → l.readable pc = true := by
  obtain ⟨haligned, hstart, -⟩ := hin
  have hmod := dumpStart_mod l
  obtain ⟨hle, hlt⟩ := dumpStart_le hstart
  have he := (dumpEnd_eq h).2
  unfold NativeListing.insnsList
  rw [mem_wordsFrom]
  unfold NativeListing.readWord
  simp only [Bool.and_eq_true, decide_eq_true_eq]
  constructor
  · rintro ⟨k, hk, hpc, hall⟩
    refine ⟨by omega, fun pc hlo hhi hpcmod => ?_⟩
    have heq : l.dumpStart + 4 * ((pc - l.dumpStart) / 4) = pc := by omega
    have hread := (hall ((pc - l.dumpStart) / 4) (by omega)).2
    rwa [heq] at hread
  · rintro ⟨hend, hall⟩
    refine ⟨(l.highlightPc - l.dumpStart) / 4, by omega, by omega, fun j hj => ⟨by omega, ?_⟩⟩
    exact hall _ (by omega) (by omega) (by omega)

/-! ## One listing -/

variable (s : NativeWindowState)

theorem start_lt {total hi : Nat} (win funcStart : Nat) (hhi : hi < total) : s.start funcStart total win hi < total := by
  unfold NativeWindowState.start
  split
  · rename_i h
    exact h.2
  · split <;> omega

theorem nativeWindow_shows_iff (h : l.dumpEnd = some e) :
    (nativeWindow s l (l.insnsList e)).1.Shows l.win (l.insnsList e).length
        (hiIdx (l.insnsList e) l.highlightPc) ↔
      FitsMargin (s.start l.funcStart (l.insnsList e).length l.win (hiIdx (l.insnsList e) l.highlightPc)) l.win
        (l.insnsList e).length (hiIdx (l.insnsList e) l.highlightPc) := by
  have hlen := length_insnsList_le h
  have hsmall := (dumpEnd_eq h).1
  unfold nativeWindow
  by_cases hwin : l.win < (l.insnsList e).length
  · have hne : l.insnsList e ≠ [] := List.ne_nil_of_length_pos (by omega)
    rw [if_pos ⟨hne, hwin⟩]
    have hhi := hiIdx_lt (List.length_pos_of_ne_nil hne) l.highlightPc
    have hstart := start_lt s l.win l.funcStart hhi
    rw [← scroll_shows_iff hhi hwin (by omega) (by omega)]
    constructor
    · intro hshows
      exact hshows.marked (by omega)
    · intro hmarked
      refine ⟨?_, ?_, fun _ => hmarked⟩
      · dsimp only
        omega
      · dsimp only
        rw [clampStart_eq hwin]
        omega
  · rw [if_neg (fun h => hwin h.2)]
    refine iff_of_true ⟨?_, ?_, ?_⟩ (fun _ h => absurd h hwin)
    · dsimp only
      omega
    · exact ⟨Nat.zero_le _, Nat.le_refl _⟩
    · intro hpos
      exact ⟨Nat.zero_le _, hiIdx_lt hpos _⟩

theorem smaliWindow_shows (l : SmaliListing) :
    (smaliWindow l).Shows (listingWindow l.maxInstructions) l.offsets.length
      (smaliHiIdx l.offsets l.highlightPc) := by
  have hpos := listingWindow_pos l.maxInstructions
  have hhi : 0 < l.offsets.length → smaliHiIdx l.offsets l.highlightPc < l.offsets.length :=
    fun h => smaliHiIdx_lt h l.highlightPc
  unfold smaliWindow
  dsimp only
  generalize listingWindow l.maxInstructions = win at *
  generalize l.offsets.length = total at *
  generalize smaliHiIdx l.offsets l.highlightPc = hi at *
  by_cases hwin : win < total
  · have hlt := hhi (by omega)
    rw [if_pos hwin, if_pos hwin]
    by_cases hbefore : win / 2 < hi
    · rw [if_pos hbefore]
      split
      · exact ⟨by dsimp only; omega, by dsimp only; omega, fun _ => by dsimp only; omega⟩
      · exact ⟨by dsimp only; omega, by dsimp only; omega, fun _ => by dsimp only; omega⟩
    · rw [if_neg hbefore, if_neg (by omega)]
      exact ⟨by dsimp only; omega, by dsimp only; omega, fun _ => by dsimp only; omega⟩
  · rw [if_neg hwin]
    exact ⟨by dsimp only; omega, ⟨Nat.zero_le _, Nat.le_refl _⟩, fun htotal => ⟨Nat.zero_le _, hhi htotal⟩⟩

theorem showsCurrent_iff (o : Listing) : o.ShowsCurrent s ↔ o.Fits s := by
  cases o with
  | smali l => exact iff_of_true (smaliWindow_shows l) trivial
  | native l =>
    refine exists_congr (fun e => and_congr_right (fun he => ?_))
    rw [nativeWindow_shows_iff s he]
    exact and_congr_right (fun _ => forall_congr' (fun hin => mem_insnsList_iff he hin))

end

/-! ## Sequences -/

/-- The current instruction is shown in each of a sequence of listings exactly where the window fits the margin and
    the listing reaches the instruction. -/
theorem run_showsCurrent_iff (listings : List Listing) :
    Along step (fun s o => o.ShowsCurrent s) {} listings ↔ Along step (fun s o => o.Fits s) {} listings := by
  have hkeep : ∀ (s : NativeWindowState) (o : Listing), True → True → o.ShowsCurrent s → True :=
    fun _ _ _ _ _ => trivial
  have hiff : ∀ (s : NativeWindowState) (o : Listing), True → True → (o.ShowsCurrent s ↔ o.Fits s) :=
    fun s o _ _ => showsCurrent_iff s o
  exact Along.iff_of_invariant hkeep hiff trivial (Along.of_forall (fun _ _ => trivial) listings _)

/-- Six instructions, the second of which is highlighted, in a window of two lines. -/
def narrow : NativeListing where
  funcStart := 0x10000
  funcEnd := 0x10018
  symSize := 0x18
  highlightPc := 0x10004
  maxInstructions := 2
  readable := fun _ => true
  windowed := by decide
  aligned := by decide
  bounds := by decide
  user := by decide
  isInt := by decide

/-- The lines shown are the fourth and the fifth. -/
theorem narrow_hides : ¬ ∀ listings : List Listing, Along step (fun s o => o.ShowsCurrent s) {} listings := by
  intro h
  obtain ⟨e, he, hshows, -⟩ := (h [.native narrow]).1
  obtain rfl : e = 0x10018 := Option.some.inj (he.symm.trans (by decide))
  have hmarked := hshows.marked (by decide)
  exact absurd hmarked.1 (by decide)

end ArtPi.Debug.ListingWindow
