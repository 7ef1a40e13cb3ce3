import ArtPi.Lib.Faults
import ArtPi.Lib.Memory

set_option autoImplicit false

/-! # Symbols of an ELF file (`cli/injector/elf_util.cpp`)

`ElfSymbolOffset` reads a whole file and looks for one of several names in its dynamic symbol table. Offsets and sizes
are 64-bit numbers of the file; the code adds them before it compares the sum with the size of the file, and compares
names with `strcmp`. A read outside of the buffer is `none` here. -/

namespace ArtPi.Inject.Elf

open Lib

/-- What `pread` gives: a file has less than 2^63 bytes. -/
structure File where
  bytes : List UInt8
  size_lt : bytes.length < 2 ^ 63

namespace File

variable (f : File)

def size : Nat := f.bytes.length

/-- The number in `n` bytes, without a check. -/
def word (pos n : Nat) : Nat := Bytes.leNat ((f.bytes.drop pos).take n)

def le (pos n : Nat) : Option Nat := if pos + n ≤ f.size then some (f.word pos n) else none

/-- `strcmp(buf + pos, want) == 0`: it reads up to a difference or the terminator of `want`. -/
def strEq (pos : Nat) : List UInt8 → Option Bool
  | [] => (f.bytes[pos]?).bind fun c => some (c = 0)
  | w :: ws => (f.bytes[pos]?).bind fun c => if c = w then strEq (pos + 1) ws else some false

end File

/-- 64-bit addition. -/
def sum64 (a b : Nat) : Nat := (a + b) % 2 ^ 64

/-- `Elf64_Shdr`, the fields that are read -/
structure Shdr where
  type : Nat
  offset : Nat
  size : Nat
  link : Nat
  deriving DecidableEq

def sizeofEhdr : Nat := 64
def sizeofShdr : Nat := 64
def sizeofSym : Nat := 24
def elfMag : Nat := 0x464c457f
def elfClass64 : Nat := 2
def shtDynsym : Nat := 11

variable (f : File)

/-- `shdrs[i]` -/
def readShdr (shoff i : Nat) : Option Shdr := do
  let pos := shoff + sizeofShdr * i
  let type ← f.le (pos + 4) 4
  let offset ← f.le (pos + 24) 8
  let size ← f.le (pos + 32) 8
  let link ← f.le (pos + 40) 4
  some ⟨type, offset, size, link⟩

/-- One turn of the innermost loop: the value, if symbol `s` is the wanted one. -/
def trySymbol (sec strtab : Shdr) (want : List UInt8) (s : Nat) : Option (Option Nat) := do
  let sym := sec.offset + sizeofSym * s
  let value ← f.le (sym + 8) 8
  if value = 0 then some none
  else do
    let name ← f.le sym 4
    if name = 0 ∨ strtab.size ≤ name then some none
    else do
      let eq ← f.strEq (strtab.offset + name) want
      some (if eq then some value else none)

/-- The loops over the names and the symbols of a section. -/
def searchNames (names : List CStr) (sec strtab : Shdr) : Option (Option Nat) :=
  names.findSomeM? fun want => (List.range (sec.size / sizeofSym)).findSomeM? (trySymbol f sec strtab want.val)

/-- One turn of the loop over the sections: what is returned, if this was the section. -/
def trySection (names : List CStr) (shoff shnum i : Nat) : Option (Option Nat) := do
  let sec ← readShdr f shoff i
  if sec.type ≠ shtDynsym ∨ shnum ≤ sec.link then some none
  else do
    let strtab ← readShdr f shoff sec.link
    if f.size < sum64 sec.offset sec.size ∨ f.size < sum64 strtab.offset strtab.size then some none
    else do
      let found ← searchNames f names sec strtab
      some (some (found.getD 0))

def elfSymbolOffset (names : List CStr) : Option Nat :=
  if f.size < sizeofEhdr then some 0
  else do
    let magic ← f.le 0 4
    let cls ← f.le 4 1
    if magic ≠ elfMag ∨ cls ≠ elfClass64 then some 0
    else do
      let shoff ← f.le 40 8
      let shentsize ← f.le 58 2
      if shoff = 0 ∨ shentsize ≠ sizeofShdr then some 0
      else do
        let shnum ← f.le 60 2
        if f.size < sum64 shoff (shnum * shentsize) then some 0
        else do
          let found ← (List.range shnum).findSomeM? (trySection f names shoff shnum)
          some (found.getD 0)

/-! ## The symbols of a file -/

/-- Up to the terminator. -/
def cString (bs : List UInt8) : Option (List UInt8) := if 0 ∈ bs then some (bs.takeWhile (· ≠ 0)) else none

def File.nameAt (pos : Nat) : Option (List UInt8) := cString (f.bytes.drop pos)

def File.shoff : Nat := f.word 40 8
def File.shnum : Nat := f.word 60 2

def File.sec (i : Nat) : Shdr :=
  let pos := f.shoff + sizeofShdr * i
  ⟨f.word (pos + 4) 4, f.word (pos + 24) 8, f.word (pos + 32) 8, f.word (pos + 40) 4⟩

/-- An ELF file of the right class, with a table of sections. -/
def File.HasHeader : Prop :=
  sizeofEhdr ≤ f.size ∧ f.word 0 4 = elfMag ∧ f.word 4 1 = elfClass64 ∧ f.shoff ≠ 0 ∧ f.word 58 2 = sizeofShdr

instance : Decidable f.HasHeader := instDecidableAnd

def File.HasSections : Prop := f.HasHeader ∧ f.shoff + sizeofShdr * f.shnum ≤ f.size

instance : Decidable f.HasSections := instDecidableAnd

/-- A dynamic symbol table that lies in the file, with its strings. -/
def File.IsTable (i : Nat) : Prop :=
  (f.sec i).type = shtDynsym ∧ (f.sec i).link < f.shnum ∧ (f.sec i).offset + (f.sec i).size ≤ f.size ∧
    (f.sec (f.sec i).link).offset + (f.sec (f.sec i).link).size ≤ f.size

instance (i : Nat) : Decidable (f.IsTable i) := instDecidableAnd

/-- The value of symbol `s`, if it has one and has the name. -/
def symbolValue (sec strtab : Shdr) (want : List UInt8) (s : Nat) : Option Nat :=
  let sym := sec.offset + sizeofSym * s
  if f.word (sym + 8) 8 ≠ 0 ∧ f.word sym 4 ≠ 0 ∧ f.word sym 4 < strtab.size ∧
      f.nameAt (strtab.offset + f.word sym 4) = some want then some (f.word (sym + 8) 8)
  else none

def firstSymbol (sec strtab : Shdr) (want : List UInt8) : Option Nat :=
  (List.range (sec.size / sizeofSym)).findSome? (symbolValue f sec strtab want)

/-- The first symbol of the earliest name that occurs. -/
def lookup (names : List CStr) (i : Nat) : Option Nat :=
  names.findSome? fun want => firstSymbol f (f.sec i) (f.sec (f.sec i).link) want.val

def symbolOffset (names : List CStr) : Nat :=
  if f.HasSections then ((List.range f.shnum).find? (fun i => f.IsTable i)).elim 0 (fun i => (lookup f names i).getD 0)
  else 0

/-! ## The condition -/

/-- The value of the symbol is in the file, and where its name is compared there is a difference or the end of the
    name before the end of the file. -/
def ComparedInside (sec strtab : Shdr) (want : List UInt8) (s : Nat) : Prop :=
  let sym := sec.offset + sizeofSym * s
  sym + 16 ≤ f.size ∧
    (f.word (sym + 8) 8 ≠ 0 → f.word sym 4 ≠ 0 → f.word sym 4 < strtab.size →
      ¬ f.bytes.drop (strtab.offset + f.word sym 4) <+: want)

/-- The same for all symbols up to the first hit, and all names up to the one with a hit. -/
def SearchedInside (names : List CStr) (sec strtab : Shdr) : Prop :=
  ∀ want ∈ visited (fun want : CStr => firstSymbol f sec strtab want.val) names,
    ∀ s ∈ visited (symbolValue f sec strtab want.val) (List.range (sec.size / sizeofSym)),
      ComparedInside f sec strtab want.val s

/-- What the loop takes for a table. -/
def File.Accepts (i : Nat) : Prop :=
  (f.sec i).type = shtDynsym ∧ (f.sec i).link < f.shnum ∧ sum64 (f.sec i).offset (f.sec i).size ≤ f.size ∧
    sum64 (f.sec (f.sec i).link).offset (f.sec (f.sec i).link).size ≤ f.size

instance (i : Nat) : Decidable (f.Accepts i) := instDecidableAnd

/-- The table of sections is in the file where its end is, and in the section that is taken for the symbol table the
    comparisons are; it is a table of the file, or has what that has. -/
def TableFits (names : List CStr) : Prop :=
  f.HasHeader → sum64 f.shoff (sizeofShdr * f.shnum) ≤ f.size →
    f.shoff + sizeofShdr * f.shnum ≤ f.size ∧
      ∀ i, (List.range f.shnum).find? (fun i => f.Accepts i) = some i →
        SearchedInside f names (f.sec i) (f.sec (f.sec i).link) ∧
          (f.IsTable i ∨ (lookup f names i).getD 0 = symbolOffset f names)

/-! ## Reads -/

theorem le_guards (pos n : Nat) : Guards (f.le pos n) (f.word pos n) (pos + n ≤ f.size) where
  runs h := if_pos h
  faults h := if_neg h

theorem cString_cons (c : UInt8) (cs : List UInt8) :
    cString (c :: cs) = if c = 0 then some [] else (cString cs).map (c :: ·) := by
  unfold cString
  by_cases hc : c = 0
  · simp [hc]
  · by_cases h : 0 ∈ cs <;> simp [hc, h, Ne.symm hc]

theorem strEq_guards {want : List UInt8} (h0 : 0 ∉ want) (pos : Nat) :
    Guards (f.strEq pos want) (decide (f.nameAt pos = some want)) (¬ f.bytes.drop pos <+: want) := by
  unfold File.nameAt
  induction want generalizing pos with
  | nil =>
    rw [File.strEq, ← List.head?_drop]
    cases f.bytes.drop pos with
    | nil => exact ⟨fun h => absurd List.nil_prefix h, fun _ => rfl⟩
    | cons c cs =>
      refine (Guards.pure _).congr (fun _ => ?_) (by simp)
      rw [cString_cons]
      by_cases hc : c = 0 <;> simp [hc]
  | cons w ws ih =>
    rw [List.mem_cons, not_or] at h0
    rw [File.strEq, ← List.head?_drop]
    cases hdrop : f.bytes.drop pos with
    | nil => exact ⟨fun h => absurd List.nil_prefix h, fun _ => rfl⟩
    | cons c cs =>
      have hrest : f.bytes.drop (pos + 1) = cs := by rw [← List.tail_drop, hdrop, List.tail_cons]
      have hih := ih h0.2 (pos + 1)
      rw [hrest] at hih
      rw [cString_cons, List.cons_prefix_cons, List.head?_cons, Option.bind_some]
      by_cases hcw : c = w
      · have hc0 : c ≠ 0 := fun hc => h0.1 (hc.symm.trans hcw)
        rw [if_pos hcw, if_neg hc0]
        refine hih.congr (fun _ => ?_) (by simp [hcw])
        cases cString cs <;> simp [hcw]
      · rw [if_neg hcw]
        refine (Guards.pure _).congr (fun _ => ?_) (by simp [hcw])
        by_cases hc0 : c = 0
        · simp [hc0]
        · cases cString cs <;> simp [hc0, hcw]

/-! ## The loops -/

theorem trySymbol_guards (sec strtab : Shdr) (want : CStr) (s : Nat) :
    Guards (trySymbol f sec strtab want.val s) (symbolValue f sec strtab want.val s)
      (ComparedInside f sec strtab want.val s) := by
  unfold trySymbol
  refine Guards.congr (Guards.bind (le_guards f _ 8) fun _ => Guards.ite (fun _ => Guards.pure none) fun _ =>
    Guards.bind (le_guards f _ 4) fun _ => Guards.ite (fun _ => Guards.pure none) fun _ =>
      Guards.bind (strEq_guards f want.property _) fun _ => Guards.pure _) (fun _ => ?_) ?_
  · unfold symbolValue
    by_cases hv : f.word (sec.offset + sizeofSym * s + 8) 8 = 0
    · simp [hv]
    · by_cases hn : f.word (sec.offset + sizeofSym * s) 4 = 0 ∨ strtab.size ≤ f.word (sec.offset + sizeofSym * s) 4
      · rw [if_neg hv, if_pos hn, if_neg]
        omega
      · rw [not_or, Nat.not_le] at hn
        simp [hv, hn]
  · unfold ComparedInside
    simp only [not_or, Nat.not_le]
    grind

theorem searchNames_guards (names : List CStr) (sec strtab : Shdr) :
    Guards (searchNames f names sec strtab) (names.findSome? fun want => firstSymbol f sec strtab want.val)
      (SearchedInside f names sec strtab) :=
  Guards.findSomeM? fun want _ => Guards.findSomeM? fun s _ => trySymbol_guards f sec strtab want s

theorem readShdr_eq {i : Nat} (hi : i < f.shnum) (h : f.shoff + sizeofShdr * f.shnum ≤ f.size) :
    readShdr f f.shoff i = some (f.sec i) := by
  have hle (k n : Nat) (hk : k + n ≤ sizeofShdr) :
      f.le (f.shoff + sizeofShdr * i + k) n = some (f.word (f.shoff + sizeofShdr * i + k) n) := by
    refine if_pos ?_
    unfold sizeofShdr at h hk ⊢
    omega
  unfold readShdr File.sec
  dsimp only
  rw [hle 4 4 (by decide), hle 24 8 (by decide), hle 32 8 (by decide), hle 40 4 (by decide)]
  rfl

/-- What a turn of the outer loop returns. -/
def sectionValue (names : List CStr) (i : Nat) : Option Nat :=
  if f.Accepts i then some ((lookup f names i).getD 0) else none

theorem isSome_sectionValue (names : List CStr) (i : Nat) :
    (sectionValue f names i).isSome = decide (f.Accepts i) := by
  unfold sectionValue
  split <;> simp [*]

theorem trySection_guards (names : List CStr) {i : Nat} (hi : i < f.shnum)
    (h : f.shoff + sizeofShdr * f.shnum ≤ f.size) :
    Guards (trySection f names f.shoff f.shnum i) (sectionValue f names i)
      ((sectionValue f names i).isSome → SearchedInside f names (f.sec i) (f.sec (f.sec i).link)) := by
  rw [isSome_sectionValue, decide_eq_true_iff]
  unfold trySection sectionValue
  rw [readShdr_eq f hi h, Option.bind_eq_bind, Option.bind_some]
  by_cases hskip : (f.sec i).type ≠ shtDynsym ∨ f.shnum ≤ (f.sec i).link
  · have hno : ¬ f.Accepts i := fun hacc => hskip.elim (fun ht => ht hacc.1) (fun hl => Nat.not_lt.2 hl hacc.2.1)
    rw [if_pos hskip, if_neg hno]
    exact (Guards.pure none).congr (fun _ => rfl) (by simp [hno])
  · have htype : (f.sec i).type = shtDynsym := by
      by_contra hne
      exact hskip (.inl hne)
    have hlink : (f.sec i).link < f.shnum := Nat.lt_of_not_le fun hle => hskip (.inr hle)
    rw [if_neg hskip, readShdr_eq f hlink h, Option.bind_eq_bind, Option.bind_some]
    by_cases hout : f.size < sum64 (f.sec i).offset (f.sec i).size ∨
        f.size < sum64 (f.sec (f.sec i).link).offset (f.sec (f.sec i).link).size
    · have hno : ¬ f.Accepts i := fun hacc =>
        hout.elim (fun ht => Nat.not_le.2 ht hacc.2.2.1) (fun hl => Nat.not_le.2 hl hacc.2.2.2)
      rw [if_pos hout, if_neg hno]
      exact (Guards.pure none).congr (fun _ => rfl) (by simp [hno])
    · rw [not_or, Nat.not_lt, Nat.not_lt] at hout
      have hacc : f.Accepts i := ⟨htype, hlink, hout.1, hout.2⟩
      rw [if_neg (by omega), if_pos hacc]
      have hfound := searchNames_guards f names (f.sec i) (f.sec (f.sec i).link)
      exact Guards.congr (hfound.bind fun _ => Guards.pure _) (fun _ => rfl) (by simp [hacc])

theorem accepts_of_isTable {i : Nat} (h : f.IsTable i) : f.Accepts i := by
  have hsize : f.size < 2 ^ 63 := f.size_lt
  obtain ⟨htype, hlink, hsec, hstr⟩ := h
  refine ⟨htype, hlink, ?_, ?_⟩ <;>
  · unfold sum64
    rw [Nat.mod_eq_of_lt (by omega)]
    assumption

theorem findSome?_sectionValue (names : List CStr) :
    (List.range f.shnum).findSome? (sectionValue f names) =
      ((List.range f.shnum).find? (fun i => f.Accepts i)).map (fun i => (lookup f names i).getD 0) := by
  induction List.range f.shnum with
  | nil => rfl
  | cons i is ih =>
    rw [List.findSome?_cons, List.find?_cons, ih]
    unfold sectionValue
    by_cases h : f.Accepts i
    · simp [h]
    · simp [h]

/-- Where the section that is taken is a table, it is the first one. -/
theorem find?_isTable {i : Nat} (h : (List.range f.shnum).find? (fun i => f.Accepts i) = some i)
    (htable : f.IsTable i) : (List.range f.shnum).find? (fun i => f.IsTable i) = some i := by
  rw [List.find?_eq_some_iff_append] at h ⊢
  obtain ⟨-, as, bs, heq, has⟩ := h
  refine ⟨by simpa using htable, as, bs, heq, fun j hj => ?_⟩
  have hj' := has j hj
  simp only [Bool.not_eq_true', decide_eq_false_iff_not] at hj' ⊢
  exact fun hjt => hj' (accepts_of_isTable f hjt)

/-! ## The whole function -/

theorem elfSymbolOffset_of_not_hasHeader {names : List CStr} (h : ¬ f.HasHeader) :
    elfSymbolOffset f names = some 0 := by
  unfold elfSymbolOffset
  split
  · rfl
  next hsize =>
    have hle (pos n : Nat) (hn : pos + n ≤ sizeofEhdr) : f.le pos n = some (f.word pos n) := if_pos (by omega)
    rw [hle 0 4 (by decide), hle 4 1 (by decide), hle 40 8 (by decide), hle 58 2 (by decide), hle 60 2 (by decide)]
    simp only [Option.bind_eq_bind, Option.bind_some]
    split
    · rfl
    next hident =>
      split
      · rfl
      next htable =>
        rw [not_or, not_not, not_not] at hident
        rw [not_or, not_not] at htable
        exact absurd ⟨Nat.le_of_not_lt hsize, hident.1, hident.2, htable.1, htable.2⟩ h

theorem elfSymbolOffset_of_hasHeader {names : List CStr} (h : f.HasHeader) :
    elfSymbolOffset f names =
      if f.size < sum64 f.shoff (sizeofShdr * f.shnum) then some 0
      else ((List.range f.shnum).findSomeM? (trySection f names f.shoff f.shnum)).bind
        fun found => some (found.getD 0) := by
  obtain ⟨hsize, hmagic, hclass, hshoff, hshentsize⟩ := h
  have hle (pos n : Nat) (hn : pos + n ≤ sizeofEhdr) : f.le pos n = some (f.word pos n) := if_pos (by omega)
  unfold elfSymbolOffset
  rw [hle 0 4 (by decide), hle 4 1 (by decide), hle 40 8 (by decide), hle 58 2 (by decide), hle 60 2 (by decide),
    if_neg (by omega)]
  simp only [Option.bind_eq_bind, Option.bind_some]
  rw [if_neg (by simp [hmagic, hclass]), if_neg (by simp [hshentsize]; exact hshoff), hshentsize,
    Nat.mul_comm sizeofShdr]
  rfl

/-- Where the end of the table of sections wraps, the first header is read outside of the file. -/
theorem trySection_of_wrap {names : List CStr} (h : f.size ≤ f.shoff) (i : Nat) :
    trySection f names f.shoff f.shnum i = none := by
  have hle : f.le (f.shoff + sizeofShdr * i + 4) 4 = none := if_neg (by omega)
  unfold trySection readShdr
  dsimp only
  rw [hle]
  rfl

theorem shoff_lt : f.shoff < 2 ^ 64 := by
  have hlt := Bytes.leNat_lt ((f.bytes.drop 40).take 8)
  have hlen : ((f.bytes.drop 40).take 8).length ≤ 8 := List.length_take_le _ _
  exact lt_of_lt_of_le hlt (Nat.pow_le_pow_right (n := 256) (by decide) hlen)

theorem shnum_lt : f.shnum < 2 ^ 16 := by
  have hlt := Bytes.leNat_lt ((f.bytes.drop 60).take 2)
  have hlen : ((f.bytes.drop 60).take 2).length ≤ 2 := List.length_take_le _ _
  exact lt_of_lt_of_le hlt (Nat.pow_le_pow_right (n := 256) (by decide) hlen)

/-- The sections in the file: the loop takes the first that it accepts. -/
theorem sections_iff (names : List CStr) (hheader : f.HasHeader)
    (hin : f.shoff + sizeofShdr * f.shnum ≤ f.size) :
    ((List.range f.shnum).findSomeM? (trySection f names f.shoff f.shnum)).bind
        (fun found => some (found.getD 0)) = some (symbolOffset f names) ↔
      ∀ i, (List.range f.shnum).find? (fun i => f.Accepts i) = some i →
        SearchedInside f names (f.sec i) (f.sec (f.sec i).link) ∧
          (f.IsTable i ∨ (lookup f names i).getD 0 = symbolOffset f names) := by
  have hturn (i : Nat) (hi : i ∈ List.range f.shnum) := trySection_guards f names (List.mem_range.1 hi) hin
  have hsecs := Guards.findSomeM? hturn
  have hloop : Guards (((List.range f.shnum).findSomeM? (trySection f names f.shoff f.shnum)).bind
      fun found => some (found.getD 0)) (((List.range f.shnum).findSome? (sectionValue f names)).getD 0) _ :=
    Guards.bind hsecs fun _ => Guards.pure _
  rw [hloop.eq_some_iff, and_true, forall_visited_iff, findSome?_sectionValue]
  simp only [isSome_sectionValue]
  have hspec : symbolOffset f names =
      ((List.range f.shnum).find? (fun i => f.IsTable i)).elim 0 (fun i => (lookup f names i).getD 0) :=
    if_pos ⟨hheader, hin⟩
  cases hfind : (List.range f.shnum).find? (fun i => f.Accepts i) with
  | none =>
    have hnone : (List.range f.shnum).find? (fun i => f.IsTable i) = none := by
      rw [List.find?_eq_none] at hfind ⊢
      intro i hi htable
      exact hfind i hi (by simpa using accepts_of_isTable f (by simpa using htable))
    rw [hspec, hnone]
    simp
  | some i =>
    rw [Option.map_some, Option.getD_some]
    have hfirst (htable : f.IsTable i) : (lookup f names i).getD 0 = symbolOffset f names := by
      rw [hspec, find?_isTable f hfind htable, Option.elim_some]
    constructor
    · rintro ⟨hinside, hvalue⟩ j hj
      rw [← Option.some.inj hj]
      exact ⟨hinside i rfl, .inr hvalue⟩
    · intro h
      refine ⟨fun j hj => (h j hj).1, (h i rfl).2.elim hfirst id⟩

/-- Every read is in the file and the result is the symbol's value exactly if the tables fit into the file. -/
theorem elfSymbolOffset_iff_tableFits (names : List CStr) :
    elfSymbolOffset f names = some (symbolOffset f names) ↔ TableFits f names := by
  have hsize : f.size < 2 ^ 63 := f.size_lt
  have hoff := shoff_lt f
  by_cases hheader : f.HasHeader
  · rw [elfSymbolOffset_of_hasHeader f hheader, TableFits, forall_prop_of_true hheader]
    by_cases hsum : f.size < sum64 f.shoff (sizeofShdr * f.shnum)
    · have hno : ¬ f.HasSections := by
        rintro ⟨-, hin⟩
        have hle : sum64 f.shoff (sizeofShdr * f.shnum) ≤ f.shoff + sizeofShdr * f.shnum := Nat.mod_le _ _
        omega
      rw [if_pos hsum, symbolOffset, if_neg hno]
      exact iff_of_true rfl fun hle => absurd hsum (Nat.not_lt.2 hle)
    · rw [if_neg hsum, forall_prop_of_true (Nat.le_of_not_lt hsum)]
      by_cases hin : f.shoff + sizeofShdr * f.shnum ≤ f.size
      · rw [and_iff_right hin]
        exact sections_iff f names hheader hin
      · refine iff_of_false ?_ fun h => hin h.1
        -- the sum has wrapped, so there is a section and its header lies behind the file
        have hnum := shnum_lt f
        have hwrap : 2 ^ 64 ≤ f.shoff + sizeofShdr * f.shnum := by
          by_contra hlt
          unfold sum64 at hsum
          rw [Nat.mod_eq_of_lt (by omega)] at hsum
          omega
        unfold sizeofShdr at hwrap
        obtain ⟨n, hn⟩ : ∃ n, f.shnum = n + 1 := Nat.exists_eq_succ_of_ne_zero (by omega)
        rw [hn, List.range_succ_eq_map, List.findSomeM?_cons, ← hn, trySection_of_wrap f (by omega)]
        exact nofun
  · have hno : ¬ f.HasSections := fun h => hheader h.1
    rw [elfSymbolOffset_of_not_hasHeader f hheader, symbolOffset, if_neg hno]
    exact iff_of_true rfl fun h => absurd h hheader

/-- One section, at 2^64 - 64. -/
def wrapped : File where
  bytes := [0x7f, 0x45, 0x4c, 0x46, 2] ++ List.replicate 35 0 ++
    [0xc0, 0xff, 0xff, 0xff, 0xff, 0xff, 0xff, 0xff] ++ List.replicate 10 0 ++ [64, 0, 1, 0, 0, 0]
  size_lt := by decide

theorem not_elfSymbolOffset_wrapped :
    ¬ ∀ (f : File) (names : List CStr), elfSymbolOffset f names = some (symbolOffset f names) :=
  fun h => absurd (h wrapped [⟨[0x6d, 0x6d, 0x61, 0x70], by decide⟩]) (by decide)

end ArtPi.Inject.Elf
