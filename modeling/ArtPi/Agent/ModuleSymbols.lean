import ArtPi.Agent.LoadedModules
import ArtPi.Inject.ElfSymbol
import Mathlib.Data.List.Find

set_option autoImplicit false

/-! # The symbols of a module (`src/agent/agent_native.cpp`)

`EnumerateModuleSymbols` reads the dynamic symbols of a module from its file into two buffers and hands them over one
by one. The buffer of the symbols has whole entries, the read into it has the size of the section. -/

namespace ArtPi.Agent.ModuleSymbols

open Lib Lib.Listing Lib.ProcMaps LoadedModules
open Inject.Elf (File cString sum64 sizeofEhdr sizeofShdr sizeofSym elfMag elfClass64 shtDynsym)

/-! ## Reads -/

/-- The number in `n` bytes of a buffer. -/
def word (bs : List UInt8) (pos n : Nat) : Nat := Bytes.leNat ((bs.drop pos).take n)

/-- `PreadExact` into a buffer with that much room: what is read, if all of it is there. `none` where bytes are written
behind the buffer. An empty buffer has no memory, and `pread` refuses a null pointer. -/
def preadExact (f : File) (room len off : Nat) : Option (Option (List UInt8)) :=
  if len = 0 then some (some [])
  else if room = 0 then some none
  else if room < min len (f.size - off) then none
  else if off + len ≤ f.size then some (some ((f.bytes.drop off).take len))
  else some none

/-- `Elf64_Shdr`, the fields that are read -/
structure Shdr where
  type : Nat
  offset : Nat
  size : Nat
  link : Nat
  entsize : Nat
  deriving DecidableEq

def readShdr (bs : List UInt8) (pos : Nat) : Shdr :=
  ⟨word bs (pos + 4) 4, word bs (pos + 24) 8, word bs (pos + 32) 8, word bs (pos + 40) 4, word bs (pos + 56) 8⟩

/-- `Elf64_Sym`, the fields that are read -/
structure Sym where
  name : Nat
  value : Nat
  deriving DecidableEq

def readSyms (bs : List UInt8) (nsyms : Nat) : List Sym :=
  (List.range nsyms).map fun s => ⟨word bs (sizeofSym * s) 4, word bs (sizeofSym * s + 8) 8⟩

/-- What the callback gets. -/
structure Symbol where
  name : List UInt8
  addr : UInt64
  deriving DecidableEq

/-- Whether the callback goes on, by what it has got so far. -/
abbrev Callback := List Symbol → Bool

/-- The loop over the symbols. The callback reads the name up to its terminator, `none` where that is behind the
buffer. -/
def report (strs : List UInt8) (base : UInt64) (cb : Callback) (received : List Symbol) :
    List Sym → Option (List Symbol)
  | [] => some received
  | s :: syms =>
    if s.value = 0 ∨ s.name = 0 ∨ strs.length ≤ s.name then report strs base cb received syms
    else
      match cString (strs.drop s.name) with
      | none => none
      | some name =>
        let received := received ++ [⟨name, base + UInt64.ofNat s.value⟩]
        if cb received then report strs base cb received syms else some received

structure Enumeration where
  ok : Bool
  received : List Symbol

def failed : Enumeration := ⟨false, []⟩

/-- 64 MiB -/
def sizeLimit : Nat := 64 * 1024 * 1024

/-- Behind the checks of the two sections. -/
def readSymbols (f : File) (fileBaseOffset : Nat) (base : UInt64) (cb : Callback) (dyn str : Shdr) :
    Option Enumeration :=
  match preadExact f (sizeofSym * (dyn.size / sizeofSym)) dyn.size (sum64 fileBaseOffset dyn.offset) with
  | none => none
  | some none => some failed
  | some (some syms) =>
    match preadExact f str.size str.size (sum64 fileBaseOffset str.offset) with
    | none => none
    | some none => some failed
    | some (some strs) =>
      (report strs base cb [] (readSyms syms (dyn.size / sizeofSym))).map (⟨true, ·⟩)

/-- The two sections, if the first section of dynamic symbols passes the checks. -/
def chooseSections (table : List UInt8) (shnum : Nat) : Option (Shdr × Shdr) :=
  match (List.range shnum).find? (fun i => (readShdr table (sizeofShdr * i)).type = shtDynsym) with
  | none => none
  | some i =>
    let dyn := readShdr table (sizeofShdr * i)
    if shnum ≤ dyn.link then none
    else
      let str := readShdr table (sizeofShdr * dyn.link)
      if dyn.entsize ≠ sizeofSym ∨ dyn.size = 0 then none
      else if sizeLimit < dyn.size ∨ sizeLimit < str.size then none
      else some (dyn, str)

def enumerateFile (f : File) (fileBaseOffset : Nat) (base : UInt64) (cb : Callback) : Option Enumeration :=
  match preadExact f sizeofEhdr sizeofEhdr fileBaseOffset with
  | none => none
  | some none => some failed
  | some (some ehdr) =>
    let shoff := word ehdr 40 8
    let shnum := word ehdr 60 2
    if word ehdr 0 4 ≠ elfMag ∨ word ehdr 4 1 ≠ elfClass64 ∨ shoff = 0 ∨ word ehdr 58 2 ≠ sizeofShdr ∨ shnum = 0 then
      some failed
    else
      match preadExact f (sizeofShdr * shnum) (sizeofShdr * shnum) (sum64 fileBaseOffset shoff) with
      | none => none
      | some none => some failed
      | some (some table) =>
        match chooseSections table shnum with
        | none => some failed
        | some (dyn, str) => readSymbols f fileBaseOffset base cb dyn str

/-- What is in front of the first `!/`. -/
def frontOfBang : Text → Option Text
  | [] => none
  | a :: rest =>
    if a = exclam ∧ rest.head? = some slash then some [] else (frontOfBang rest).map (a :: ·)

def filePathOf (path : Text) : Text := (frontOfBang path).getD path

/-- `%lx-%*x %*s %lx` -/
def scanStartOffset (line : Text) : Option (UInt64 × UInt64) := do
  let ((start, _), rest) ← scanRange line
  let (_, rest) ← scanWord rest.length rest
  let (off, _) ← scanHex rest
  some (start, off)

/-- Where the file of the module begins in its archive. -/
def fileBaseOffset (maps : Option Text) (mod : LoadedModuleInfo) : UInt64 :=
  if frontOfBang mod.path = none then 0
  else
    match maps with
    | none => 0
    | some maps =>
      ((fgets 1023 maps).findSome? fun line =>
        match scanStartOffset line with
        | none => none
        | some (start, off) => if start = mod.base then some off else none).getD 0

/-- `EnumerateModuleSymbols`; `files` is what `open` finds. -/
def enumerateModuleSymbols (files : Text → Option File) (maps : Option Text) (mod : LoadedModuleInfo) (cb : Callback) :
    Option Enumeration :=
  match files (filePathOf mod.path) with
  | none => some failed
  | some f => enumerateFile f (fileBaseOffset maps mod).toNat mod.base cb

/-! ## ELF files -/

section Image

variable (image : List UInt8)

def shoff : Nat := word image 40 8
def shnum : Nat := word image 60 2
def sec (i : Nat) : Shdr := readShdr image (shoff image + sizeofShdr * i)

/-- The number of sections, which the first section has where the header has no room for it. -/
def sections : Nat := if shnum image = 0 then (sec image 0).size else shnum image

/-- The section of the dynamic symbols and that of their names. A file may have no sections. -/
def dynsym : Option (Shdr × Shdr) :=
  if shoff image = 0 then none
  else ((List.range (sections image)).find? fun i => (sec image i).type = shtDynsym).map fun i =>
    (sec image i, sec image (sec image i).link)

def contents (s : Shdr) : List UInt8 := (image.drop s.offset).take s.size

/-- Entries of that size, and names that end in the section of the names. -/
structure WellFormedTable (dyn str : Shdr) : Prop where
  entsize : dyn.entsize = sizeofSym
  whole : dyn.size % sizeofSym = 0
  inside : dyn.offset + dyn.size ≤ image.length
  strings : str.offset + str.size ≤ image.length
  names : ∀ s ∈ readSyms (contents image dyn) (dyn.size / sizeofSym), s.name ≠ 0 → s.name < str.size
  last : ∀ b ∈ (contents image str).getLast?, b = 0

structure WellFormed : Prop where
  header : sizeofEhdr ≤ image.length ∧ word image 0 4 = elfMag ∧ word image 4 1 = elfClass64
  table : shoff image ≠ 0 → word image 58 2 = sizeofShdr ∧ shoff image + sizeofShdr ≤ image.length ∧
    shoff image + sizeofShdr * sections image ≤ image.length
  link : shoff image ≠ 0 → ∀ i < sections image, (sec image i).type = shtDynsym → (sec image i).link < sections image
  tables : ∀ dyn str, dynsym image = some (dyn, str) → WellFormedTable image dyn str

/-- A dynamic symbol with a name and a value, in memory. -/
def symbolOf (strs : List UInt8) (bias : UInt64) (s : Sym) : Option Symbol :=
  if s.value ≠ 0 ∧ s.name ≠ 0 ∧ s.name < strs.length then
    some ⟨(strs.drop s.name).takeWhile (· ≠ 0), bias + UInt64.ofNat s.value⟩
  else none

/-- The symbols of the file, in the order of the table. -/
def symbols (bias : UInt64) : List Symbol :=
  match dynsym image with
  | none => []
  | some (dyn, str) =>
    (readSyms (contents image dyn) (dyn.size / sizeofSym)).filterMap (symbolOf (contents image str) bias)

end Image

/-- What a callback gets of a list: all up to the first that it stops at. -/
def handOver (cb : Callback) (received : List Symbol) : List Symbol → List Symbol
  | [] => received
  | s :: rest => if cb (received ++ [s]) then handOver cb (received ++ [s]) rest else received ++ [s]

/-- The bytes of the module's file, in an archive those from the file on. -/
def elfImage (files : Text → Option File) (maps : Option Text) (mod : LoadedModuleInfo) : Option (List UInt8) :=
  (files (filePathOf mod.path)).map fun f => f.bytes.drop (fileBaseOffset maps mod).toNat

/-- No byte outside of the buffers is touched, whatever the callback does, and of a well-formed file it gets the
symbols. -/
def Right (files : Text → Option File) (maps : Option Text) (mod : LoadedModuleInfo) (bias : UInt64) : Prop :=
  ∀ cb, ∃ e, enumerateModuleSymbols files maps mod cb = some e ∧
    ∀ image, elfImage files maps mod = some image → WellFormed image → e.received = handOver cb [] (symbols image bias)

/-! ## The condition -/

/-- The two sections that are read, by the bytes of the file. -/
def tables (f : File) (off : Nat) : Option (Shdr × Shdr) :=
  let ehdr := (f.bytes.drop off).take sizeofEhdr
  let shoff := word ehdr 40 8
  let shnum := word ehdr 60 2
  if off + sizeofEhdr ≤ f.size ∧ word ehdr 0 4 = elfMag ∧ word ehdr 4 1 = elfClass64 ∧ shoff ≠ 0 ∧
      word ehdr 58 2 = sizeofShdr ∧ shnum ≠ 0 ∧ sum64 off shoff + sizeofShdr * shnum ≤ f.size then
    chooseSections ((f.bytes.drop (sum64 off shoff)).take (sizeofShdr * shnum)) shnum
  else none

/-- The bytes of a section, in the file that is read. -/
def sectionBytes (f : File) (off : Nat) (s : Shdr) : List UInt8 := (f.bytes.drop (sum64 off s.offset)).take s.size

def sectionInside (f : File) (off : Nat) (s : Shdr) : Prop := sum64 off s.offset + s.size ≤ f.size

instance (f : File) (off : Nat) (s : Shdr) : Decidable (sectionInside f off s) := inferInstanceAs (Decidable (_ ≤ _))

/-- A section of symbols that is no whole number of entries ends the file before the first byte that has no room, and
where both sections are read the name of each symbol that is handed over ends in the buffer. -/
structure WithinBuffers (f : File) (off : Nat) (dyn str : Shdr) : Prop where
  symbols : sizeofSym ≤ dyn.size → dyn.size % sizeofSym ≠ 0 →
    f.size ≤ sum64 off dyn.offset + sizeofSym * (dyn.size / sizeofSym)
  names : dyn.size % sizeofSym = 0 → sectionInside f off dyn → sectionInside f off str →
    ∀ s ∈ readSyms (sectionBytes f off dyn) (dyn.size / sizeofSym),
      s.value ≠ 0 → s.name ≠ 0 → s.name < str.size → 0 ∈ (sectionBytes f off str).drop s.name

/-- The buffers are large enough; and a well-formed file has no symbol with a name and a value, or its base is the
bias, its header has the number of sections, and its two sections are within the limit. -/
structure Fits (f : File) (off : Nat) (base bias : UInt64) : Prop where
  buffers : ∀ dyn str, tables f off = some (dyn, str) → WithinBuffers f off dyn str
  symbols : WellFormed (f.bytes.drop off) → symbols (f.bytes.drop off) bias = [] ∨
    (base = bias ∧ shnum (f.bytes.drop off) ≠ 0 ∧
      ∀ dyn str, dynsym (f.bytes.drop off) = some (dyn, str) → dyn.size ≤ sizeLimit ∧ str.size ≤ sizeLimit)

/-! ## Reads that fit -/

theorem preadExact_self (f : File) {len : Nat} (h : len ≠ 0) (off : Nat) : preadExact f len len off =
    some (if off + len ≤ f.size then some ((f.bytes.drop off).take len) else none) := by
  unfold preadExact
  rw [if_neg h, if_neg h, if_neg (Nat.not_lt.mpr (Nat.min_le_left _ _))]
  split <;> rfl

/-- Everything up to the two sections is read into buffers of the right size. -/
theorem enumerateFile_eq (f : File) (off : Nat) (base : UInt64) (cb : Callback) : enumerateFile f off base cb =
    match tables f off with
    | none => some failed
    | some (dyn, str) => readSymbols f off base cb dyn str := by
  unfold enumerateFile tables
  rw [preadExact_self f (by decide)]
  by_cases hheader : off + sizeofEhdr ≤ f.size
  · rw [if_pos hheader]
    dsimp only
    generalize (f.bytes.drop off).take sizeofEhdr = ehdr
    by_cases hbad : word ehdr 0 4 ≠ elfMag ∨ word ehdr 4 1 ≠ elfClass64 ∨ word ehdr 40 8 = 0 ∨
        word ehdr 58 2 ≠ sizeofShdr ∨ word ehdr 60 2 = 0
    · rw [if_pos hbad, if_neg]
      rintro ⟨-, hmag, hclass, hshoff, hentsize, hshnum, -⟩
      rcases hbad with h | h | h | h | h
      · exact h hmag
      · exact h hclass
      · exact hshoff h
      · exact h hentsize
      · exact hshnum h
    · rw [if_neg hbad]
      simp only [not_or, not_not] at hbad
      obtain ⟨hmag, hclass, hshoff, hentsize, hshnum⟩ := hbad
      rw [preadExact_self f (Nat.mul_ne_zero (by decide) hshnum)]
      by_cases htable : sum64 off (word ehdr 40 8) + sizeofShdr * word ehdr 60 2 ≤ f.size
      · rw [if_pos htable, if_pos ⟨hheader, hmag, hclass, hshoff, hentsize, hshnum, htable⟩]
      · rw [if_neg htable, if_neg fun h => htable h.2.2.2.2.2.2]
  · rw [if_neg hheader]
    dsimp only
    rw [if_neg fun h => hheader h.1]

theorem chooseSections_some {table : List UInt8} {n : Nat} {dyn str : Shdr}
    (h : chooseSections table n = some (dyn, str)) : dyn.size ≠ 0 := by
  unfold chooseSections at h
  cases hfind : (List.range n).find? fun i => (readShdr table (sizeofShdr * i)).type = shtDynsym with
  | none =>
    rw [hfind] at h
    cases h
  | some i =>
    rw [hfind] at h
    dsimp only at h
    split_ifs at h with hlink hsize hlimit
    obtain ⟨rfl, -⟩ := Prod.mk.inj (Option.some.inj h)
    exact fun hzero => hsize (.inr hzero)

theorem tables_some {f : File} {off : Nat} {dyn str : Shdr} (h : tables f off = some (dyn, str)) : dyn.size ≠ 0 := by
  unfold tables at h
  dsimp only at h
  split_ifs at h
  exact chooseSections_some h

/-! ## The loop -/

theorem cString_of_mem {bs : List UInt8} (h : 0 ∈ bs) : cString bs = some (bs.takeWhile (· ≠ 0)) := if_pos h

/-- Where the names end in the buffer the callback gets the symbols. -/
theorem report_eq {strs : List UInt8} {syms : List Sym} (base : UInt64) (cb : Callback)
    (h : ∀ s ∈ syms, s.value ≠ 0 → s.name ≠ 0 → s.name < strs.length → 0 ∈ strs.drop s.name)
    (received : List Symbol) :
    report strs base cb received syms = some (handOver cb received (syms.filterMap (symbolOf strs base))) := by
  induction syms generalizing received with
  | nil => rfl
  | cons s syms ih =>
    obtain ⟨hs, hrest⟩ := List.forall_mem_cons.mp h
    rw [report]
    by_cases hskip : s.value = 0 ∨ s.name = 0 ∨ strs.length ≤ s.name
    · have hnone : symbolOf strs base s = none := by
        refine if_neg fun hall => ?_
        rcases hskip with h | h | h
        · exact hall.1 h
        · exact hall.2.1 h
        · exact absurd hall.2.2 (Nat.not_lt.mpr h)
      rw [if_pos hskip, List.filterMap_cons_none hnone]
      exact ih hrest received
    · rw [if_neg hskip]
      simp only [not_or, Nat.not_le] at hskip
      obtain ⟨hvalue, hname, hlt⟩ := hskip
      have hsome : symbolOf strs base s =
          some ⟨(strs.drop s.name).takeWhile (· ≠ 0), base + UInt64.ofNat s.value⟩ := if_pos ⟨hvalue, hname, hlt⟩
      rw [cString_of_mem (hs hvalue hname hlt), List.filterMap_cons_some hsome, handOver]
      dsimp only
      split
      · exact ih hrest _
      · rfl

/-- A callback that takes all symbols gets to a name that does not end. -/
theorem report_none {strs : List UInt8} {syms : List Sym} (base : UInt64)
    (h : ∃ s ∈ syms, s.value ≠ 0 ∧ s.name ≠ 0 ∧ s.name < strs.length ∧ 0 ∉ strs.drop s.name)
    (received : List Symbol) : report strs base (fun _ => true) received syms = none := by
  induction syms generalizing received with
  | nil => simp at h
  | cons s syms ih =>
    rw [report]
    by_cases hskip : s.value = 0 ∨ s.name = 0 ∨ strs.length ≤ s.name
    · rw [if_pos hskip]
      refine ih ?_ received
      obtain ⟨bad, hmem, hvalue, hname, hlt, hnul⟩ := h
      rcases List.mem_cons.mp hmem with rfl | hmem
      · rcases hskip with h | h | h
        · exact absurd h hvalue
        · exact absurd h hname
        · exact absurd hlt (Nat.not_lt.mpr h)
      · exact ⟨bad, hmem, hvalue, hname, hlt, hnul⟩
    · rw [if_neg hskip]
      by_cases hnul : 0 ∈ strs.drop s.name
      · rw [cString_of_mem hnul]
        refine ih ?_ _
        obtain ⟨bad, hmem, hbad⟩ := h
        rcases List.mem_cons.mp hmem with rfl | hmem
        · exact absurd hnul hbad.2.2.2
        · exact ⟨bad, hmem, hbad⟩
      · have hnone : cString (strs.drop s.name) = none := if_neg hnul
        rw [hnone]

theorem handOver_ne_nil (cb : Callback) {received symbols : List Symbol} (h : received ≠ [] ∨ symbols ≠ []) :
    handOver cb received symbols ≠ [] := by
  induction symbols generalizing received with
  | nil => exact h.resolve_right (by simp)
  | cons s rest ih =>
    rw [handOver]
    split
    · exact ih (.inl (by simp))
    · simp

theorem handOver_head? (cb : Callback) (received symbols : List Symbol) :
    (handOver cb received symbols).head? = (received ++ symbols).head? := by
  induction symbols generalizing received with
  | nil => rw [handOver, List.append_nil]
  | cons s rest ih =>
    rw [handOver]
    split
    · rw [ih, List.append_assoc, List.singleton_append]
    · rw [List.head?_append, List.head?_append]
      rfl

/-! ## Both sections -/

section Sections

variable {f : File} {off : Nat} {dyn str : Shdr} (base : UInt64)

theorem length_sectionBytes {s : Shdr} (h : sectionInside f off s) : (sectionBytes f off s).length = s.size := by
  unfold sectionInside File.size at h
  unfold sectionBytes
  rw [List.length_take, List.length_drop]
  omega

theorem preadExact_str (f : File) (off : Nat) (str : Shdr) :
    preadExact f str.size str.size (sum64 off str.offset) =
      some (if str.size = 0 ∨ sectionInside f off str then some (sectionBytes f off str) else none) := by
  by_cases hsize : str.size = 0
  · rw [if_pos (.inl hsize)]
    unfold preadExact sectionBytes
    rw [if_pos hsize, hsize, List.take_zero]
  · rw [preadExact_self f hsize]
    simp only [hsize, false_or]
    rfl

/-- The read of the symbols: behind the buffer, or short, or whole. -/
theorem preadExact_dyn (hsize : dyn.size ≠ 0)
    (h : sizeofSym ≤ dyn.size → dyn.size % sizeofSym ≠ 0 →
      f.size ≤ sum64 off dyn.offset + sizeofSym * (dyn.size / sizeofSym)) :
    preadExact f (sizeofSym * (dyn.size / sizeofSym)) dyn.size (sum64 off dyn.offset) =
      some (if dyn.size % sizeofSym = 0 ∧ sectionInside f off dyn then some (sectionBytes f off dyn) else none) := by
  have hdiv := Nat.div_add_mod dyn.size sizeofSym
  unfold preadExact
  rw [if_neg hsize]
  by_cases hwhole : dyn.size % sizeofSym = 0
  · have hroom : sizeofSym * (dyn.size / sizeofSym) = dyn.size := by omega
    rw [hroom, if_neg hsize, if_neg (Nat.not_lt.mpr (Nat.min_le_left _ _))]
    unfold sectionInside sectionBytes
    by_cases hin : sum64 off dyn.offset + dyn.size ≤ f.size
    · rw [if_pos hin, if_pos ⟨hwhole, hin⟩]
    · have hno : ¬ (dyn.size % sizeofSym = 0 ∧ sum64 off dyn.offset + dyn.size ≤ f.size) := fun hand => hin hand.2
      rw [if_neg hin, if_neg hno]
  · have hno : ¬ (dyn.size % sizeofSym = 0 ∧ sectionInside f off dyn) := fun hand => hwhole hand.1
    rw [if_neg hno]
    by_cases hsmall : sizeofSym * (dyn.size / sizeofSym) = 0
    · rw [if_pos hsmall]
    · have hle : sizeofSym ≤ dyn.size := by
        by_contra hlt
        rw [Nat.div_eq_of_lt (Nat.lt_of_not_le hlt)] at hsmall
        exact hsmall rfl
      have hend := h hle hwhole
      rw [if_neg hsmall, if_neg, if_neg]
      · omega
      · rw [Nat.not_lt, Nat.min_def]
        split <;> omega

/-- With buffers that are large enough the callback gets the symbols if both sections can be read. -/
theorem readSymbols_eq (hsize : dyn.size ≠ 0) (h : WithinBuffers f off dyn str) (cb : Callback) :
    readSymbols f off base cb dyn str =
      some (if dyn.size % sizeofSym = 0 ∧ sectionInside f off dyn ∧ (str.size = 0 ∨ sectionInside f off str) then
        ⟨true, handOver cb [] ((readSyms (sectionBytes f off dyn) (dyn.size / sizeofSym)).filterMap
          (symbolOf (sectionBytes f off str) base))⟩
      else failed) := by
  unfold readSymbols
  rw [preadExact_dyn hsize h.symbols, preadExact_str]
  by_cases hdyn : dyn.size % sizeofSym = 0 ∧ sectionInside f off dyn
  · rw [if_pos hdyn]
    by_cases hstr : str.size = 0 ∨ sectionInside f off str
    · rw [if_pos hstr, if_pos ⟨hdyn.1, hdyn.2, hstr⟩]
      dsimp only
      rw [report_eq base cb]
      · rfl
      · intro s hs hvalue hname hlt
        rcases hstr with hempty | hstr
        · unfold sectionBytes at hlt
          rw [hempty, List.take_zero] at hlt
          exact absurd hlt (Nat.not_lt_zero _)
        · rw [length_sectionBytes hstr] at hlt
          exact h.names hdyn.1 hdyn.2 hstr s hs hvalue hname hlt
    · rw [if_neg hstr, if_neg fun hall => hstr hall.2.2]
  · have hno : ¬ (dyn.size % sizeofSym = 0 ∧ sectionInside f off dyn ∧ (str.size = 0 ∨ sectionInside f off str)) :=
      fun hall => hdyn ⟨hall.1, hall.2.1⟩
    rw [if_neg hdyn, if_neg hno]

/-- Without, some byte behind a buffer is touched when all symbols are asked for. -/
theorem readSymbols_none (hsize : dyn.size ≠ 0) (h : ¬ WithinBuffers f off dyn str) :
    readSymbols f off base (fun _ => true) dyn str = none := by
  unfold readSymbols
  by_cases hsymbols : sizeofSym ≤ dyn.size → dyn.size % sizeofSym ≠ 0 →
      f.size ≤ sum64 off dyn.offset + sizeofSym * (dyn.size / sizeofSym)
  · rw [preadExact_dyn hsize hsymbols, preadExact_str]
    -- a name does not end
    by_contra hsome
    refine h ⟨hsymbols, fun hwhole hdyn hstr s hs hvalue hname hlt => ?_⟩
    by_contra hnul
    rw [if_pos ⟨hwhole, hdyn⟩, if_pos (.inr hstr)] at hsome
    dsimp only at hsome
    rw [report_none base ⟨s, hs, hvalue, hname, by rwa [length_sectionBytes hstr], hnul⟩] at hsome
    exact hsome rfl
  · -- bytes of the file have no room
    simp only [not_forall, Nat.not_le] at hsymbols
    obtain ⟨hle, hwhole, hlt⟩ := hsymbols
    have hdiv := Nat.div_add_mod dyn.size sizeofSym
    have hpos : 0 < dyn.size / sizeofSym := Nat.div_pos hle (by decide)
    have hroom : sizeofSym * (dyn.size / sizeofSym) ≠ 0 := Nat.mul_ne_zero (by decide) (by omega)
    have houtside : preadExact f (sizeofSym * (dyn.size / sizeofSym)) dyn.size (sum64 off dyn.offset) = none := by
      unfold preadExact
      rw [if_neg hsize, if_neg hroom, if_pos]
      rw [Nat.min_def]
      split <;> omega
    rw [houtside]

end Sections

/-! ## Well-formed files -/

theorem word_drop (bs : List UInt8) (a pos n : Nat) : word (bs.drop a) pos n = word bs (a + pos) n := by
  unfold word
  rw [List.drop_drop]

theorem word_take {bs : List UInt8} {m pos n : Nat} (h : pos + n ≤ m) : word (bs.take m) pos n = word bs pos n := by
  unfold word
  rw [List.drop_take, List.take_take, Nat.min_eq_left (by omega)]

theorem readShdr_drop (bs : List UInt8) (a pos : Nat) : readShdr (bs.drop a) pos = readShdr bs (a + pos) := by
  unfold readShdr
  simp only [word_drop, Nat.add_assoc]

theorem readShdr_take {bs : List UInt8} {m pos : Nat} (h : pos + sizeofShdr ≤ m) :
    readShdr (bs.take m) pos = readShdr bs pos := by
  unfold sizeofShdr at h
  unfold readShdr
  rw [word_take (by omega), word_take (by omega), word_take (by omega), word_take (by omega), word_take (by omega)]

/-- A symbol of another bias. -/
def Symbol.shift (bias : UInt64) (s : Symbol) : Symbol := ⟨s.name, bias + s.addr⟩

theorem symbols_eq_map (image : List UInt8) (bias : UInt64) :
    symbols image bias = (symbols image 0).map (Symbol.shift bias) := by
  unfold symbols
  cases dynsym image with
  | none => rfl
  | some p =>
    dsimp only
    rw [List.map_filterMap]
    refine congrArg (List.filterMap · _) (funext fun s => ?_)
    unfold symbolOf Symbol.shift
    split_ifs
    · simp
    · rfl

theorem symbols_eq_nil_of {image : List UInt8} (bias bias' : UInt64) (h : symbols image bias = []) :
    symbols image bias' = [] := by
  rw [symbols_eq_map, List.map_eq_nil_iff] at h ⊢
  exact h

theorem bias_eq_of_head? {image : List UInt8} {base bias : UInt64} (hne : symbols image bias ≠ [])
    (h : (symbols image base).head? = (symbols image bias).head?) : base = bias := by
  rw [symbols_eq_map, Ne, List.map_eq_nil_iff] at hne
  obtain ⟨s, rest, hsymbols⟩ := List.exists_cons_of_ne_nil hne
  rw [symbols_eq_map image base, symbols_eq_map image bias, hsymbols, List.map_cons, List.map_cons, List.head?_cons,
    List.head?_cons, Option.some.injEq] at h
  exact UInt64.add_left_inj s.addr |>.mp (congrArg Symbol.addr h)

section WellFormed

variable {f : File} {off : Nat} (hwf : WellFormed (f.bytes.drop off))

include hwf

theorem length_image : (f.bytes.drop off).length = f.size - off ∧ off + sizeofEhdr ≤ f.size := by
  have hlen := hwf.header.1
  rw [List.length_drop] at hlen ⊢
  unfold File.size sizeofEhdr at *
  omega

theorem sum64_of_le {pos : Nat} (h : pos ≤ (f.bytes.drop off).length) :
    sum64 off pos = off + pos ∧ sum64 off pos + ((f.bytes.drop off).length - pos) = f.size := by
  obtain ⟨hlen, hhead⟩ := length_image hwf
  have hlt := f.size_lt
  unfold sum64
  rw [hlen] at h ⊢
  unfold File.size sizeofEhdr at *
  rw [Nat.mod_eq_of_lt (by omega)]
  omega

theorem sectionBytes_eq {s : Shdr} (h : s.offset + s.size ≤ (f.bytes.drop off).length) :
    sectionBytes f off s = contents (f.bytes.drop off) s ∧ sectionInside f off s := by
  obtain ⟨hsum, hend⟩ := sum64_of_le hwf (Nat.le_trans (Nat.le_add_right _ _) h)
  unfold sectionBytes contents sectionInside
  refine ⟨by rw [hsum, List.drop_drop], by omega⟩

theorem tables_eq : tables f off =
    if shnum (f.bytes.drop off) = 0 then none
    else (dynsym (f.bytes.drop off)).bind fun (dyn, str) =>
      if dyn.size = 0 ∨ sizeLimit < dyn.size ∨ sizeLimit < str.size then none else some (dyn, str) := by
  obtain ⟨-, hhead⟩ := length_image hwf
  have hehdr {pos n : Nat} (h : pos + n ≤ sizeofEhdr) :
      word ((f.bytes.drop off).take sizeofEhdr) pos n = word (f.bytes.drop off) pos n := word_take h
  unfold tables
  simp only [hehdr (show 40 + 8 ≤ sizeofEhdr by decide), hehdr (show 60 + 2 ≤ sizeofEhdr by decide),
    hehdr (show 0 + 4 ≤ sizeofEhdr by decide), hehdr (show 4 + 1 ≤ sizeofEhdr by decide),
    hehdr (show 58 + 2 ≤ sizeofEhdr by decide)]
  have hshoff : word (f.bytes.drop off) 40 8 = shoff (f.bytes.drop off) := rfl
  have hshnum : word (f.bytes.drop off) 60 2 = shnum (f.bytes.drop off) := rfl
  rw [hshoff, hshnum]
  by_cases hnum : shnum (f.bytes.drop off) = 0
  · rw [if_pos hnum]
    exact if_neg fun h => h.2.2.2.2.2.1 hnum
  · rw [if_neg hnum]
    by_cases hoff : shoff (f.bytes.drop off) = 0
    · have hno : dynsym (f.bytes.drop off) = none := if_pos hoff
      rw [hno, if_neg fun h => h.2.2.2.1 hoff]
      rfl
    · obtain ⟨hentsize, -, htable⟩ := hwf.table hoff
      have hsections : sections (f.bytes.drop off) = shnum (f.bytes.drop off) := if_neg hnum
      have hlink := hwf.link hoff
      have htables := hwf.tables
      unfold dynsym at htables ⊢
      rw [hsections] at htable hlink
      rw [if_neg hoff, hsections] at htables ⊢
      obtain ⟨hsum, hend⟩ := sum64_of_le hwf (Nat.le_trans (Nat.le_add_right _ _) htable)
      rw [if_pos ⟨hhead, hwf.header.2.1, hwf.header.2.2, hoff, hentsize, hnum, by omega⟩]
      unfold chooseSections
      generalize hbytes : (f.bytes.drop (sum64 off (shoff (f.bytes.drop off)))).take
        (sizeofShdr * shnum (f.bytes.drop off)) = table
      -- a section of the table that is read is one of the file
      have hsec (i : Nat) (hi : i < shnum (f.bytes.drop off)) :
          readShdr table (sizeofShdr * i) = sec (f.bytes.drop off) i := by
        have hfit : sizeofShdr * i + sizeofShdr ≤ sizeofShdr * shnum (f.bytes.drop off) := by
          rw [← Nat.mul_succ]
          exact Nat.mul_le_mul_left _ hi
        rw [← hbytes, hsum, ← List.drop_drop, readShdr_take hfit, readShdr_drop]
        rfl
      have hfind : ((List.range (shnum (f.bytes.drop off))).find? fun i =>
            (readShdr table (sizeofShdr * i)).type = shtDynsym) =
          (List.range (shnum (f.bytes.drop off))).find? fun i => (sec (f.bytes.drop off) i).type = shtDynsym :=
        List.find?_congr fun i hi => by rw [hsec i (List.mem_range.mp hi)]
      rw [hfind]
      cases hfound : (List.range (shnum (f.bytes.drop off))).find? fun i =>
          (sec (f.bytes.drop off) i).type = shtDynsym with
      | none => rfl
      | some i =>
        rw [hfound] at htables
        have hi : i < shnum (f.bytes.drop off) := List.mem_range.mp (List.mem_of_find?_eq_some hfound)
        have htype : (sec (f.bytes.drop off) i).type = shtDynsym := by
          simpa using List.find?_some hfound
        have hlt := hlink i hi htype
        have hentry := (htables _ _ rfl).entsize
        dsimp only
        rw [Option.map_some, Option.bind_some, hsec i hi, if_neg (Nat.not_le.mpr hlt), hsec _ hlt]
        dsimp only
        simp only [hentry, ne_eq, not_true_eq_false, false_or]
        by_cases hzero : (sec (f.bytes.drop off) i).size = 0
        · rw [if_pos hzero, if_pos (.inl hzero)]
        · simp only [hzero, if_false, false_or]

theorem tables_eq_some_iff {dyn str : Shdr} : tables f off = some (dyn, str) ↔
    shnum (f.bytes.drop off) ≠ 0 ∧ dynsym (f.bytes.drop off) = some (dyn, str) ∧ dyn.size ≠ 0 ∧
      dyn.size ≤ sizeLimit ∧ str.size ≤ sizeLimit := by
  rw [tables_eq hwf]
  by_cases hnum : shnum (f.bytes.drop off) = 0
  · rw [if_pos hnum]
    exact iff_of_false nofun fun h => h.1 hnum
  · rw [if_neg hnum, Option.bind_eq_some_iff]
    constructor
    · rintro ⟨⟨dyn', str'⟩, hdyn, hchosen⟩
      dsimp only at hchosen
      split_ifs at hchosen with hbad
      obtain ⟨rfl, rfl⟩ := Prod.mk.inj (Option.some.inj hchosen)
      simp only [not_or, Nat.not_lt] at hbad
      exact ⟨hnum, hdyn, hbad⟩
    · rintro ⟨-, hdyn, hsize, hdynLimit, hstrLimit⟩
      refine ⟨_, hdyn, if_neg ?_⟩
      simp only [not_or, Nat.not_lt]
      exact ⟨hsize, hdynLimit, hstrLimit⟩

/-- With buffers that are large enough the callback gets the symbols, at the base, if the sections are chosen. -/
theorem readSymbols_wellFormed {dyn str : Shdr} (hdyn : dynsym (f.bytes.drop off) = some (dyn, str))
    (hsize : dyn.size ≠ 0) (h : WithinBuffers f off dyn str) (base : UInt64) (cb : Callback) :
    readSymbols f off base cb dyn str = some ⟨true, handOver cb [] (symbols (f.bytes.drop off) base)⟩ := by
  obtain ⟨-, hwhole, hinside, hstrings, -, -⟩ := hwf.tables dyn str hdyn
  obtain ⟨hdynBytes, hdynIn⟩ := sectionBytes_eq hwf hinside
  obtain ⟨hstrBytes, hstrIn⟩ := sectionBytes_eq hwf hstrings
  rw [readSymbols_eq base hsize h, if_pos ⟨hwhole, hdynIn, .inr hstrIn⟩, hdynBytes, hstrBytes]
  unfold symbols
  rw [hdyn]

/-- Of a well-formed file a callback gets the symbols exactly if there are none, or both are chosen and the base is the
bias. -/
theorem received_iff (h : ∀ dyn str, tables f off = some (dyn, str) → WithinBuffers f off dyn str)
    (base bias : UInt64) (cb : Callback) {e : Enumeration} (he : enumerateFile f off base cb = some e) :
    e.received = handOver cb [] (symbols (f.bytes.drop off) bias) ↔
      symbols (f.bytes.drop off) bias = [] ∨ (base = bias ∧ tables f off ≠ none) := by
  rw [enumerateFile_eq] at he
  cases htables : tables f off with
  | none =>
    rw [htables] at he
    obtain rfl := Option.some.inj he
    constructor
    · intro heq
      by_contra hno
      exact handOver_ne_nil cb (.inr fun hempty => hno (.inl hempty)) heq.symm
    · rintro (hempty | ⟨-, hne⟩)
      · rw [hempty]
        rfl
      · exact absurd rfl hne
  | some p =>
    obtain ⟨dyn, str⟩ := p
    have hdyn := (tables_eq_some_iff hwf).mp htables |>.2.1
    rw [htables] at he
    dsimp only at he
    rw [readSymbols_wellFormed hwf hdyn (tables_some htables) (h dyn str htables)] at he
    obtain rfl := Option.some.inj he
    dsimp only
    constructor
    · intro heq
      by_cases hempty : symbols (f.bytes.drop off) bias = []
      · exact .inl hempty
      · refine .inr ⟨?_, by simp⟩
        have hhead := congrArg List.head? heq
        rw [handOver_head?, handOver_head?, List.nil_append, List.nil_append] at hhead
        exact bias_eq_of_head? hempty hhead
    · rintro (hempty | ⟨rfl, -⟩)
      · rw [hempty, symbols_eq_nil_of bias base hempty]
      · rfl

end WellFormed

/-- The enumeration stays within its buffers for every callback exactly where they are large enough. -/
theorem forall_enumerateFile_some_iff (f : File) (off : Nat) (base : UInt64) :
    (∀ cb, ∃ e, enumerateFile f off base cb = some e) ↔
      ∀ dyn str, tables f off = some (dyn, str) → WithinBuffers f off dyn str := by
  constructor
  · intro h dyn str htables
    obtain ⟨e, he⟩ := h fun _ => true
    by_contra hno
    rw [enumerateFile_eq, htables] at he
    dsimp only at he
    rw [readSymbols_none base (tables_some htables) hno] at he
    cases he
  · intro h cb
    rw [enumerateFile_eq]
    cases htables : tables f off with
    | none => exact ⟨failed, rfl⟩
    | some p => exact ⟨_, readSymbols_eq base (tables_some htables) (h p.1 p.2 htables) cb⟩

/-- Of a well-formed file with a symbol the sections are chosen if the header has their number and they are within the
limit. -/
theorem tables_ne_none_iff {f : File} {off : Nat} (hwf : WellFormed (f.bytes.drop off)) {bias : UInt64}
    (hne : symbols (f.bytes.drop off) bias ≠ []) : tables f off ≠ none ↔
      shnum (f.bytes.drop off) ≠ 0 ∧
        ∀ dyn str, dynsym (f.bytes.drop off) = some (dyn, str) → dyn.size ≤ sizeLimit ∧ str.size ≤ sizeLimit := by
  cases hdyn : dynsym (f.bytes.drop off) with
  | none =>
    unfold symbols at hne
    rw [hdyn] at hne
    exact absurd rfl hne
  | some p =>
    obtain ⟨dyn, str⟩ := p
    have hsize : dyn.size ≠ 0 := by
      intro hzero
      unfold symbols at hne
      rw [hdyn] at hne
      simp [hzero, readSyms] at hne
    rw [Option.ne_none_iff_exists']
    constructor
    · rintro ⟨⟨dyn', str'⟩, htables⟩
      obtain ⟨hnum, hdyn', -, hlimits⟩ := (tables_eq_some_iff hwf).mp htables
      obtain ⟨rfl, rfl⟩ := Prod.mk.inj (Option.some.inj (hdyn.symm.trans hdyn'))
      refine ⟨hnum, fun dyn' str' heq => ?_⟩
      obtain ⟨rfl, rfl⟩ := Prod.mk.inj (Option.some.inj heq)
      exact hlimits
    · rintro ⟨hnum, hlimits⟩
      exact ⟨(dyn, str), (tables_eq_some_iff hwf).mpr ⟨hnum, hdyn, hsize, hlimits dyn str rfl⟩⟩

theorem buffers_of_right {files : Text → Option File} {maps : Option Text} {mod : LoadedModuleInfo} {bias : UInt64}
    (h : Right files maps mod bias) {f : File} (hfile : files (filePathOf mod.path) = some f) (dyn str : Shdr)
    (htables : tables f (fileBaseOffset maps mod).toNat = some (dyn, str)) :
    WithinBuffers f (fileBaseOffset maps mod).toNat dyn str := by
  have hall (cb : List Symbol → Bool) : ∃ e, enumerateFile f (fileBaseOffset maps mod).toNat mod.base cb = some e := by
    obtain ⟨e, he, -⟩ := h cb
    unfold enumerateModuleSymbols at he
    rw [hfile] at he
    exact ⟨e, he⟩
  exact (forall_enumerateFile_some_iff f _ mod.base).mp hall dyn str htables

/-- The callback is right exactly where the buffers are large enough and the base is the bias. -/
theorem enumerateModuleSymbols_right_iff (files : Text → Option File) (maps : Option Text) (mod : LoadedModuleInfo)
    (bias : UInt64) : Right files maps mod bias ↔
      ∀ f, files (filePathOf mod.path) = some f → Fits f (fileBaseOffset maps mod).toNat mod.base bias := by
  unfold Right enumerateModuleSymbols elfImage
  cases hfile : files (filePathOf mod.path) with
  | none => exact iff_of_true (fun _ => ⟨failed, rfl, nofun⟩) nofun
  | some f =>
    generalize (fileBaseOffset maps mod).toNat = off
    simp only [Option.map_some, Option.some.injEq, forall_eq']
    constructor
    · intro h
      have hbuffers := (forall_enumerateFile_some_iff f off mod.base).mp fun cb => (h cb).imp fun _ he => he.1
      refine ⟨hbuffers, fun hwf => ?_⟩
      obtain ⟨e, he, hreceived⟩ := h fun _ => true
      by_cases hempty : symbols (f.bytes.drop off) bias = []
      · exact .inl hempty
      · obtain ⟨hbase, hne⟩ :=
          ((received_iff hwf hbuffers mod.base bias _ he).mp (hreceived hwf)).resolve_left hempty
        exact .inr ⟨hbase, (tables_ne_none_iff hwf hempty).mp hne⟩
    · intro h cb
      obtain ⟨e, he⟩ := (forall_enumerateFile_some_iff f off mod.base).mpr h.buffers cb
      refine ⟨e, he, fun hwf => (received_iff hwf h.buffers mod.base bias cb he).mpr ?_⟩
      by_cases hempty : symbols (f.bytes.drop off) bias = []
      · exact .inl hempty
      · obtain ⟨hbase, hboth⟩ := (h.symbols hwf).resolve_left hempty
        exact .inr ⟨hbase, (tables_ne_none_iff hwf hempty).mpr hboth⟩

set_option maxRecDepth 8192 in
/-- Two sections, of which that of the symbols has 47 bytes: one entry, and 23 bytes for which there is no room. -/
def brokenFile : File where
  bytes := [0x7f, 0x45, 0x4c, 0x46, 2] ++ List.replicate 35 0 ++ [64, 0, 0, 0, 0, 0, 0, 0] ++ List.replicate 10 0 ++
    [64, 0, 2, 0, 0, 0] ++
    (List.replicate 4 0 ++ [11] ++ List.replicate 19 0 ++ [192, 0, 0, 0, 0, 0, 0, 0, 47, 0, 0, 0, 0, 0, 0, 0, 1] ++
      List.replicate 15 0 ++ [24] ++ List.replicate 7 0) ++
    (List.replicate 4 0 ++ [3] ++ List.replicate 19 0 ++ [192, 0, 0, 0, 0, 0, 0, 0, 8] ++ List.replicate 31 0) ++
    List.replicate 48 0
  size_lt := by decide

def brokenModule : LoadedModuleInfo := ⟨Wildcard.chars "libx.so", Wildcard.chars "/data/app/a/libx.so", 0x7000000000⟩

set_option maxRecDepth 8192 in
theorem not_enumerateModuleSymbols_right :
    ¬ ∀ (files : Text → Option File) (maps : Option Text) (mod : LoadedModuleInfo), Right files maps mod mod.base := by
  intro h
  have hbuffers := buffers_of_right (h (fun _ => some brokenFile) none brokenModule) rfl
  have htables : tables brokenFile 0 = some (⟨11, 192, 47, 1, 24⟩, ⟨3, 192, 8, 0, 0⟩) := by decide
  have hsymbols := (hbuffers _ _ htables).symbols (by decide) (by decide)
  exact absurd hsymbols (by decide)

end ArtPi.Agent.ModuleSymbols
