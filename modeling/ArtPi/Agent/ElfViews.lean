import ArtPi.HwHook.CtorFilter
import ArtPi.Lib.Memory

set_option autoImplicit false

/-! # Libraries in memory (`src/agent/agent_hw_hook.cpp`, `src/agent/agent_linker.cpp`)

The constructor relay and the view of the linker read the program headers and the dynamic section of a mapped library.
Addresses of the file become addresses of memory with the load bias, which is the base without the address of the first
segment; a loader may have added it already. -/

namespace ArtPi.Agent.ElfViews

open Lib HwHook.CtorFilter

/-! ## Memory -/

/-- What can be read, the symbol that `xdl_addr` finds, the text at an address and the file that `dladdr` names. -/
structure Process where
  mem : Memory
  readable : UInt64 → Nat → Bool
  symbolAt : UInt64 → Option Text
  cString : UInt64 → Text
  fileName : UInt64 → Option Text

namespace Process

variable (p : Process)

def u8 (a : UInt64) : Nat := p.mem.load a.toNat 1

def u16 (a : UInt64) : Nat := p.mem.load a.toNat 2

def u32 (a : UInt64) : Nat := p.mem.load a.toNat 4

def u64 (a : UInt64) : UInt64 := UInt64.ofNat (p.mem.load a.toNat 8)

end Process

/-- `ElfW(Phdr)`, the fields that are read -/
structure Phdr where
  type : Nat
  vaddr : UInt64
  memsz : UInt64
  deriving DecidableEq

/-- `ElfW(Dyn)` -/
structure Dyn where
  tag : UInt64
  val : UInt64
  deriving DecidableEq

/-- `ElfW(Sym)` -/
structure Sym where
  name : Nat
  info : Nat
  shndx : Nat
  value : UInt64
  size : UInt64
  deriving DecidableEq

def sizeofEhdr : Nat := 64
def sizeofPhdr : Nat := 56
def sizeofDyn : Nat := 16
def sizeofSym : Nat := 24

def elfMag : Nat := 0x464c457f

def ptLoad : Nat := 1
def ptDynamic : Nat := 2

def dtNull : UInt64 := 0
def dtNeeded : UInt64 := 1
def dtStrtab : UInt64 := 5
def dtSymtab : UInt64 := 6
def dtStrsz : UInt64 := 10
def dtSyment : UInt64 := 11
def dtInit : UInt64 := 12
def dtFini : UInt64 := 13
def dtSoname : UInt64 := 14
def dtInitArray : UInt64 := 25
def dtFiniArray : UInt64 := 26
def dtInitArraysz : UInt64 := 27
def dtFiniArraysz : UInt64 := 28
def dtPreinitArray : UInt64 := 32
def dtPreinitArraysz : UInt64 := 33

section

variable (p : Process)

def phdrAt (a : UInt64) : Phdr := ⟨p.u32 a, p.u64 (a + 16), p.u64 (a + 40)⟩

def dynAt (a : UInt64) : Dyn := ⟨p.u64 a, p.u64 (a + 8)⟩

def symAt (a : UInt64) : Sym := ⟨p.u32 a, p.u8 (a + 4), p.u16 (a + 6), p.u64 (a + 8), p.u64 (a + 16)⟩

/-- The element of an array of elements of a size. -/
def nth (a : UInt64) (size i : Nat) : UInt64 := a + UInt64.ofNat (size * i)

def phoff (base : UInt64) : UInt64 := p.u64 (base + 32)

def phnum (base : UInt64) : Nat := p.u16 (base + 56)

def phdrsAt (a : UInt64) (n : Nat) : List Phdr := (List.range n).map (fun i => phdrAt p (nth a sizeofPhdr i))

/-- The entries up to `DT_NULL` or one that cannot be read; the first argument only bounds the recursion. -/
def dynsFrom : Nat → UInt64 → List Dyn
  | 0, _ => []
  | n + 1, d =>
    if !p.readable d sizeofDyn then []
    else if (dynAt p d).tag = dtNull then []
    else dynAt p d :: dynsFrom n (d + 16)

/-- As many entries as there is room for. -/
def maxDyns : Nat := 2 ^ 60

def loadBias (base : UInt64) (phdrs : List Phdr) : UInt64 :=
  match phdrs.find? (fun h => h.type = ptLoad) with
  | some h => base - h.vaddr
  | none => base

/-- Relocated pointers are not below the base, as both functions take it. -/
def pointer (base bias ptr : UInt64) : UInt64 := if ptr < base then bias + ptr else ptr

/-- The words of an array of functions. -/
def wordsAt (a sz : UInt64) : List UInt64 :=
  if p.readable a sz.toNat then (List.range (sz.toNat / 8)).map (fun i => p.u64 (nth a 8 i)) else []

def functionsAt (a sz : UInt64) : List UInt64 := if a ≠ 0 ∧ 0 < sz then wordsAt p a sz else []

/-- The name in the string table, or that of the file. -/
def soNameAt (base strtab sonameIdx : UInt64) : Text :=
  let name := if strtab ≠ 0 ∧ sonameIdx ≠ 0 ∧ p.readable (strtab + sonameIdx) 1 = true then
    p.cString (strtab + sonameIdx) else []
  if name ≠ [] then name
  else
    match p.fileName base with
    | none => []
    | some path => (path.reverse.takeWhile (· ≠ byte '/')).reverse

/-! ## `ExtractConstructorsFromSoinfo` -/

def isElfBase (c : UInt64) : Bool :=
  0x1000 ≤ c && c &&& 0xfff = 0 && p.readable c 4 && p.u32 c = elfMag

/-- The slots of a soinfo from one on; 0 where none of them points to a library. -/
def scanSlots : Nat → UInt64 → UInt64
  | 0, _ => 0
  | n + 1, slot =>
    if !p.readable slot 8 then 0
    else if isElfBase p (p.u64 slot) then p.u64 slot
    else scanSlots n (slot + 8)

/-- Offsets up to 0x120. -/
def slotCount : Nat := 37

structure ExtractedDyn where
  strtab : UInt64 := 0
  sonameIdx : UInt64 := 0
  initFunc : UInt64 := 0
  initArray : UInt64 := 0
  initArraySz : UInt64 := 0

def ExtractedDyn.step (base bias : UInt64) (s : ExtractedDyn) (d : Dyn) : ExtractedDyn :=
  if d.tag = dtStrtab then { s with strtab := pointer base bias d.val }
  else if d.tag = dtSoname then { s with sonameIdx := d.val }
  else if d.tag = dtInit then { s with initFunc := pointer base bias d.val }
  else if d.tag = dtInitArray then { s with initArray := pointer base bias d.val }
  else if d.tag = dtInitArraysz then { s with initArraySz := d.val }
  else s

structure ExtractedConstructors where
  soName : Text
  base : UInt64
  ctors : List Ctor

def extractConstructorsFromSoinfo (soinfo : UInt64) : Option ExtractedConstructors :=
  if soinfo < 0x1000 ∨ p.readable soinfo 0x50 = false then none
  else
    let base := scanSlots p slotCount soinfo
    if base = 0 ∨ p.readable base sizeofEhdr = false ∨ phoff p base = 0 ∨ phnum p base = 0 ∨
        p.readable (base + phoff p base) (sizeofPhdr * phnum p base) = false then none
    else
      let phdrs := phdrsAt p (base + phoff p base) (phnum p base)
      let bias := loadBias base phdrs
      match phdrs.find? (fun h => h.type = ptDynamic) with
      | none => none
      | some h =>
        if bias + h.vaddr = 0 ∨ p.readable (bias + h.vaddr) sizeofDyn = false then none
        else
          let d := (dynsFrom p maxDyns (bias + h.vaddr)).foldl (ExtractedDyn.step base bias) {}
          let name := soNameAt p base d.strtab d.sonameIdx
          some {
            soName := if name = [] then ascii "lib@0x" ++ hexText base else name
            base := base
            ctors := collectCtors base d.initFunc (functionsAt p d.initArray d.initArraySz) p.symbolAt }

/-! ## `ParseElfFromBase` -/

structure ElfFuncEntry where
  func : UInt64
  tag : Text
  type : Text
  symbol : Text
  desc : Text
  offset : UInt64

/-- `resolveAndFill` -/
def ElfFuncEntry.resolveAndFill (e : ElfFuncEntry) : ElfFuncEntry :=
  if e.func < 0x1000 then e
  else
    let symbol := (p.symbolAt e.func).getD []
    { e with symbol := symbol, desc := if symbol = [] then e.tag else e.tag ++ ascii " (" ++ symbol ++ ascii ")" }

def funcEntries (base : UInt64) (type : Text) (fn : UInt64) : List ElfFuncEntry :=
  if isFunction fn then [⟨fn, type, type, [], [], offsetOf base fn⟩] else []

def arrayEntries (base : UInt64) (type : Text) (words : List UInt64) : List ElfFuncEntry :=
  (words.zipIdx.filter (fun e => isFunction e.1)).map (fun e =>
    ⟨e.1, type ++ ascii "[" ++ ascii (toString e.2) ++ ascii "] (+0x" ++ hexText (offsetOf base e.1) ++ ascii ")",
      type, [], [], offsetOf base e.1⟩)

structure ParsedDyn where
  strtab : UInt64 := 0
  strtabSize : UInt64 := 0
  symtab : UInt64 := 0
  symentSize : UInt64 := 0
  sonameIdx : UInt64 := 0
  neededOffsets : List UInt64 := []
  initFunc : UInt64 := 0
  initArray : UInt64 := 0
  initArraySz : UInt64 := 0
  preinitArray : UInt64 := 0
  preinitArraySz : UInt64 := 0
  finiFunc : UInt64 := 0
  finiArray : UInt64 := 0
  finiArraySz : UInt64 := 0

def ParsedDyn.step (base bias : UInt64) (s : ParsedDyn) (d : Dyn) : ParsedDyn :=
  if d.tag = dtStrtab then { s with strtab := pointer base bias d.val }
  else if d.tag = dtStrsz then { s with strtabSize := d.val }
  else if d.tag = dtSymtab then { s with symtab := pointer base bias d.val }
  else if d.tag = dtSyment then { s with symentSize := d.val }
  else if d.tag = dtSoname then { s with sonameIdx := d.val }
  else if d.tag = dtNeeded then { s with neededOffsets := s.neededOffsets ++ [d.val] }
  else if d.tag = dtInit then { s with initFunc := pointer base bias d.val }
  else if d.tag = dtInitArray then { s with initArray := pointer base bias d.val }
  else if d.tag = dtInitArraysz then { s with initArraySz := d.val }
  else if d.tag = dtPreinitArray then { s with preinitArray := pointer base bias d.val }
  else if d.tag = dtPreinitArraysz then { s with preinitArraySz := d.val }
  else if d.tag = dtFini then { s with finiFunc := pointer base bias d.val }
  else if d.tag = dtFiniArray then { s with finiArray := pointer base bias d.val }
  else if d.tag = dtFiniArraysz then { s with finiArraySz := d.val }
  else s

structure ParsedElfInfo where
  soName : Text := []
  base : UInt64
  size : UInt64
  loadBias : UInt64
  strtab : UInt64 := 0
  strtabSize : UInt64 := 0
  symtab : UInt64 := 0
  symentSize : UInt64 := 0
  needed : List Text := []
  ctors : List ElfFuncEntry := []
  preinit : List ElfFuncEntry := []
  dtors : List ElfFuncEntry := []

/-- From the lowest to the highest address of a segment. -/
def estimateSize (phdrs : List Phdr) : UInt64 :=
  let loads := phdrs.filter (fun h => h.type = ptLoad)
  let lo := loads.foldl (fun m h => if h.vaddr < m then h.vaddr else m) minusOne
  let hi := loads.foldl (fun m h => if m < h.vaddr + h.memsz then h.vaddr + h.memsz else m) 0
  if lo < hi then hi - lo else 0

def parseElfFromBase (base : UInt64) : Option ParsedElfInfo :=
  if base < 0x1000 ∨ p.readable base sizeofEhdr = false ∨ p.u32 base ≠ elfMag ∨ phoff p base = 0 ∨
      phnum p base = 0 ∨ p.readable (base + phoff p base) (sizeofPhdr * phnum p base) = false then none
  else
    let phdrs := phdrsAt p (base + phoff p base) (phnum p base)
    let bias := loadBias base phdrs
    let out : ParsedElfInfo := { base := base, size := estimateSize phdrs, loadBias := bias }
    match phdrs.find? (fun h => h.type = ptDynamic) with
    | none => some out
    | some h =>
      if bias + h.vaddr = 0 ∨ p.readable (bias + h.vaddr) sizeofDyn = false then some out
      else
        let d := (dynsFrom p maxDyns (bias + h.vaddr)).foldl (ParsedDyn.step base bias) {}
        some { out with
          soName := soNameAt p base d.strtab d.sonameIdx
          strtab := d.strtab
          strtabSize := d.strtabSize
          symtab := d.symtab
          symentSize := d.symentSize
          needed := (d.neededOffsets.filter (fun off => d.strtab ≠ 0 && (off < d.strtabSize || d.strtabSize = 0) &&
            p.readable (d.strtab + off) 1)).map (fun off => p.cString (d.strtab + off))
          ctors := (funcEntries base (ascii "DT_INIT") d.initFunc ++
            arrayEntries base (ascii "DT_INIT_ARRAY") (functionsAt p d.initArray d.initArraySz)).map
              (ElfFuncEntry.resolveAndFill p)
          preinit := (arrayEntries base (ascii "DT_PREINIT_ARRAY")
            (functionsAt p d.preinitArray d.preinitArraySz)).map (ElfFuncEntry.resolveAndFill p)
          dtors := (funcEntries base (ascii "DT_FINI") d.finiFunc ++
            arrayEntries base (ascii "DT_FINI_ARRAY") (functionsAt p d.finiArray d.finiArraySz)).map
              (ElfFuncEntry.resolveAndFill p) }

/-! ## `JsLinkerSymbols` -/

/-- What is reported of a symbol; addresses and values are written as hexadecimal numbers. -/
structure SymbolItem where
  index : Nat
  name : Text
  value : UInt64
  address : UInt64
  size : UInt64
  bind : Nat
  type : Nat

/-- The largest number of items, from the argument of the call and the size of the table. -/
def symbolLimit (maxCount : Option Int32) (totalSymbols : Nat) : Nat :=
  let limit :=
    match maxCount with
    | none => 100
    | some n => if 0 < n then n.toInt.toNat else if n < 0 then 1000000 else 100
  if totalSymbols < limit ∧ 0 < totalSymbols then totalSymbols else limit

/-- Where a symbol is reported. -/
def shownAddress (base value : UInt64) : UInt64 := if value ≠ 0 then base + value else 0

theorem shownAddress_eq_iff (base vaddr value : UInt64) :
    shownAddress base value = base - vaddr + value ↔ (value = 0 → base - vaddr = 0) ∧ (value ≠ 0 → vaddr = 0) := by
  unfold shownAddress
  by_cases hvalue : value = 0
  · rw [hvalue, if_neg (by simp), UInt64.add_zero]
    exact ⟨fun h => ⟨fun _ => h.symm, fun hne => absurd rfl hne⟩, fun h => (h.1 rfl).symm⟩
  · rw [if_pos hvalue, UInt64.add_left_inj, eq_comm, UInt64.sub_eq_iff_eq_add]
    constructor
    · intro h
      refine ⟨fun hzero => absurd hzero hvalue, fun _ => ?_⟩
      have hadd : base + vaddr = base + 0 := by rw [← h, UInt64.add_zero]
      exact (UInt64.add_right_inj _).mp hadd
    · intro h
      rw [h.2 hvalue, UInt64.add_zero]

def symbolItem (info : ParsedElfInfo) (i : Nat) (s : Sym) : SymbolItem where
  index := i
  name :=
    if s.name < info.strtabSize.toNat ∧ p.readable (info.strtab + UInt64.ofNat s.name) 1 = true then
      p.cString (info.strtab + UInt64.ofNat s.name)
    else []
  value := s.value
  address := shownAddress info.base s.value
  size := s.size
  bind := s.info / 16
  type := s.info % 16

/-- The symbols from one on, up to one that cannot be read. -/
def symbolsFrom (info : ParsedElfInfo) : Nat → Nat → List SymbolItem
  | 0, _ => []
  | n + 1, i =>
    if !p.readable (nth info.symtab sizeofSym i) sizeofSym then []
    else symbolItem p info i (symAt p (nth info.symtab sizeofSym i)) :: symbolsFrom info n (i + 1)

def totalSymbols (info : ParsedElfInfo) : Nat :=
  if info.symtab < info.strtab then (info.strtab - info.symtab).toNat / info.symentSize.toNat else 0

def jsLinkerSymbols (info : ParsedElfInfo) (maxCount : Option Int32) : List SymbolItem :=
  if info.symtab = 0 ∨ info.strtab = 0 ∨ info.symentSize = 0 ∨ 2 ^ 63 ≤ info.symentSize.toNat then []
  else symbolsFrom p info (symbolLimit maxCount (totalSymbols info)) 0

end

/-! ## Mapped libraries -/

/-- The tags of pointers. -/
def isPointer (tag : UInt64) : Bool :=
  [dtStrtab, dtSymtab, dtInit, dtFini, dtInitArray, dtFiniArray, dtPreinitArray].contains tag

/-- A well-formed library that is mapped at `base`, with the soinfo of the linker. The entries of the dynamic section
    are those of the file; in memory the pointers among them may have been relocated. -/
structure Image (p : Process) where
  base : UInt64
  limit : UInt64
  soinfo : UInt64
  slot : Nat
  phdrs : List Phdr
  firstLoad : Phdr
  dynamic : Phdr
  dyns : List Dyn
  relocated : Bool
  isBase : isElfBase p base = true
  /-- the first slot of the soinfo with the address of a library has that of this one -/
  soinfo_readable : 0x1000 ≤ soinfo ∧ p.readable soinfo 0x50 = true
  slot_lt : slot < slotCount
  slots_readable : ∀ j ≤ slot, p.readable (nth soinfo 8 j) 8 = true
  slots_before : ∀ j < slot, isElfBase p (p.u64 (nth soinfo 8 j)) = false
  slot_base : p.u64 (nth soinfo 8 slot) = base
  header : p.readable base sizeofEhdr = true ∧ phoff p base ≠ 0 ∧ phnum p base = phdrs.length ∧ 0 < phdrs.length
  table_readable : p.readable (base + phoff p base) (sizeofPhdr * phdrs.length) = true
  table : phdrsAt p (base + phoff p base) phdrs.length = phdrs
  load : phdrs.find? (fun h => h.type = ptLoad) = some firstLoad
  load_aligned : firstLoad.vaddr &&& 0xfff = 0
  hasDynamic : phdrs.find? (fun h => h.type = ptDynamic) = some dynamic
  dynamic_in : base ≤ base - firstLoad.vaddr + dynamic.vaddr
  dyns_lt : dyns.length < maxDyns
  dyns_readable : ∀ j ≤ dyns.length, p.readable (nth (base - firstLoad.vaddr + dynamic.vaddr) sizeofDyn j) sizeofDyn = true
  dyns_at : ∀ j d, dyns[j]? = some d → dynAt p (nth (base - firstLoad.vaddr + dynamic.vaddr) sizeofDyn j) =
    ⟨d.tag, if isPointer d.tag && relocated then base - firstLoad.vaddr + d.val else d.val⟩
  dyns_end : (dynAt p (nth (base - firstLoad.vaddr + dynamic.vaddr) sizeofDyn dyns.length)).tag = dtNull
  dyns_tags : ∀ d ∈ dyns, d.tag ≠ dtNull
  dyns_once : ((dyns.map Dyn.tag).filter (· ≠ dtNeeded)).Nodup
  /-- what the pointers denote is in the image; `DT_INIT` and `DT_FINI` of 0 or -1 denote no function -/
  pointers_in : ∀ d ∈ dyns, isPointer d.tag = true → (d.tag = dtInit ∨ d.tag = dtFini → isFunction d.val = true) →
    base ≤ base - firstLoad.vaddr + d.val ∧ base - firstLoad.vaddr + d.val < limit
  array_readable : ∀ d ∈ dyns, ∀ e ∈ dyns, d.tag = dtInitArray → e.tag = dtInitArraysz →
    p.readable (base - firstLoad.vaddr + d.val) e.val.toNat = true

namespace Image

variable {p : Process} (im : Image p)

def bias : UInt64 := im.base - im.firstLoad.vaddr

/-- The value of an entry of the file. -/
def entry (tag : UInt64) : Option UInt64 := (im.dyns.find? (fun d => d.tag = tag)).map Dyn.val

/-- The functions of an array that are called. -/
def called (fns : List UInt64) : List UInt64 := fns.filter isFunction

/-- The functions of `DT_INIT_ARRAY`. -/
def arrayFunctions : List UInt64 :=
  called (match im.entry dtInitArray with
    | none => []
    | some a => wordsAt p (im.bias + a) ((im.entry dtInitArraysz).getD 0))

/-- The constructors: the function of `DT_INIT`, if that is not 0 or -1, and those of `DT_INIT_ARRAY`. -/
def constructors : List UInt64 :=
  (called (im.entry dtInit).toList).map (im.bias + ·) ++ im.arrayFunctions

/-- Symbol `i` of the table. -/
def symbol (i : Nat) : Sym := symAt p (nth (im.bias + (im.entry dtSymtab).getD 0) sizeofSym i)

def isDefined (s : Sym) : Bool := s.shndx ≠ 0

/-- The two lists are those of the constructors, and the addresses of symbols are those of memory. -/
structure ViewsRight : Prop where
  extracted : (extractConstructorsFromSoinfo p im.soinfo).map (fun e => e.ctors.map Ctor.addr) = some im.constructors
  parsed : (parseElfFromBase p im.base).map (fun e => e.ctors.map ElfFuncEntry.func) = some im.constructors
  symbols : ∀ info, parseElfFromBase p im.base = some info → ∀ maxCount, ∀ item ∈ jsLinkerSymbols p info maxCount,
    isDefined (im.symbol item.index) = true → item.address = im.bias + (im.symbol item.index).value

/-! ## The condition -/

/-- A pointer as it is in memory. -/
def inMemory (v : UInt64) : UInt64 := if im.relocated then im.bias + v else v

/-- What the code takes a pointer for. -/
def seen (v : UInt64) : UInt64 := pointer im.base im.bias (im.inMemory v)

/-- The code tells what the pointer denotes: it has been relocated, or it is below the base and so taken for one of the
    file, or it is the same in both. -/
def Told (v : UInt64) : Prop := im.relocated = true ∨ v < im.base ∨ im.bias = 0

/-- What is taken for the function of `DT_INIT` although that is 0 or -1: nothing where this is 0 or -1 as well. -/
def stray : List UInt64 := called (((im.entry dtInit).toList.filter (fun v => !isFunction v)).map im.seen)

/-- A symbol of value 0 is reported at 0, and one of another value at that distance from the base. -/
structure SymbolPlaced (symtab : UInt64) (i : Nat) : Prop where
  told : im.Told symtab → ((im.symbol i).value = 0 → im.bias = 0) ∧
    ((im.symbol i).value ≠ 0 → im.firstLoad.vaddr = 0)
  /-- where the table is not found, what is read instead leads to the same address -/
  untold : ¬ im.Told symtab → shownAddress im.base (symAt p (nth symtab sizeofSym i)).value =
    im.bias + (im.symbol i).value

/-- As many symbols as there is room for between the two tables; 0 where it is not known. -/
def room (symtab strtab syment : UInt64) : Nat :=
  if im.seen symtab < im.seen strtab then (im.seen strtab - im.seen symtab).toNat / syment.toNat else 0

/-- Some call asks for the symbol, and all up to it can be read. -/
structure Reached (symtab strtab syment : UInt64) (i : Nat) : Prop where
  lt_max : i < 2 ^ 31 - 1
  lt_room : 0 < im.room symtab strtab syment → i < im.room symtab strtab syment
  readable : ∀ j ≤ i, p.readable (nth (im.seen symtab) sizeofSym j) sizeofSym = true

structure IsPlain : Prop where
  init : ∀ v, im.entry dtInit = some v → isFunction v = true → im.Told v
  /-- where the array, if there is one, is found -/
  noInit : (∀ a, im.entry dtInitArray = some a → im.Told a) → im.stray = []
  /-- where it is not found, the words at its address in the file are those of the same functions -/
  array : ∀ a, im.entry dtInitArray = some a → ¬ im.Told a →
    im.stray ++ called (wordsAt p a ((im.entry dtInitArraysz).getD 0)) = im.arrayFunctions
  symbols : ∀ symtab strtab syment, im.entry dtSymtab = some symtab → im.entry dtStrtab = some strtab →
    im.entry dtSyment = some syment → syment ≠ 0 → syment.toNat < 2 ^ 63 →
      ∀ i, im.Reached symtab strtab syment i → isDefined (im.symbol i) = true → im.SymbolPlaced symtab i

/-! ## What is read of an image -/

/-- An entry in memory. -/
def stored (d : Dyn) : Dyn := ⟨d.tag, if isPointer d.tag && im.relocated then im.bias + d.val else d.val⟩

def seenArrayFunctions : List UInt64 :=
  called (match im.entry dtInitArray with
    | none => []
    | some a => wordsAt p (im.seen a) ((im.entry dtInitArraysz).getD 0))

def seenConstructors : List UInt64 := called ((im.entry dtInit).toList.map im.seen) ++ im.seenArrayFunctions

end Image

section

variable {p : Process}

theorem nth_zero (a : UInt64) (size : Nat) : nth a size 0 = a := by
  unfold nth
  rw [Nat.mul_zero]
  exact UInt64.add_zero a

theorem nth_succ (a : UInt64) (size i : Nat) : nth a size (i + 1) = nth (a + UInt64.ofNat size) size i := by
  unfold nth
  rw [Nat.mul_succ, Nat.add_comm, UInt64.ofNat_add, UInt64.add_assoc]

theorem scanSlots_eq {n k : Nat} {a : UInt64} (hk : k < n) (hread : ∀ j ≤ k, p.readable (nth a 8 j) 8 = true)
    (hbefore : ∀ j < k, isElfBase p (p.u64 (nth a 8 j)) = false)
    (hbase : isElfBase p (p.u64 (nth a 8 k)) = true) : scanSlots p n a = p.u64 (nth a 8 k) := by
  induction n generalizing k a with
  | zero => exact absurd hk (Nat.not_lt_zero k)
  | succ n ih =>
    have hread0 := hread 0 (Nat.zero_le k)
    rw [nth_zero] at hread0
    unfold scanSlots
    rw [hread0]
    cases k with
    | zero =>
      rw [nth_zero] at hbase ⊢
      rw [hbase]
      rfl
    | succ k =>
      have hbefore0 := hbefore 0 (Nat.succ_pos k)
      rw [nth_zero] at hbefore0
      have hsucc : ∀ j, nth a 8 (j + 1) = nth (a + 8) 8 j := nth_succ a 8
      rw [hsucc] at hbase
      rw [hbefore0, hsucc]
      refine ih (Nat.lt_of_succ_lt_succ hk) (fun j hj => ?_) (fun j hj => ?_) hbase
      · rw [← hsucc]
        exact hread (j + 1) (Nat.succ_le_succ hj)
      · rw [← hsucc]
        exact hbefore (j + 1) (Nat.succ_lt_succ hj)

/-- The entries up to `DT_NULL`. -/
theorem dynsFrom_eq {ds : List Dyn} {n : Nat} {a : UInt64} (hn : ds.length < n)
    (hread : ∀ j ≤ ds.length, p.readable (nth a sizeofDyn j) sizeofDyn = true)
    (hat : ∀ j d, ds[j]? = some d → dynAt p (nth a sizeofDyn j) = d) (htags : ∀ d ∈ ds, d.tag ≠ dtNull)
    (hend : (dynAt p (nth a sizeofDyn ds.length)).tag = dtNull) : dynsFrom p n a = ds := by
  induction ds generalizing n a with
  | nil =>
    cases n with
    | zero => rfl
    | succ n =>
      have hread0 := hread 0 (Nat.le_refl 0)
      rw [List.length_nil, nth_zero] at hend
      rw [nth_zero] at hread0
      unfold dynsFrom
      rw [hread0, if_neg (by simp), if_pos hend]
  | cons d ds ih =>
    cases n with
    | zero => exact absurd hn (Nat.not_lt_zero _)
    | succ n =>
      have hread0 := hread 0 (Nat.zero_le _)
      have hat0 := hat 0 d rfl
      rw [nth_zero] at hread0 hat0
      have htag := htags d (List.mem_cons_self)
      unfold dynsFrom
      rw [hread0, hat0, if_neg (by simp), if_neg htag]
      have hsucc : ∀ j, nth a sizeofDyn (j + 1) = nth (a + 16) sizeofDyn j := nth_succ a sizeofDyn
      rw [List.length_cons, hsucc] at hend
      rw [ih (Nat.lt_of_succ_lt_succ hn) (fun j hj => ?_) (fun j e he => ?_)
        (fun e he => htags e (List.mem_cons_of_mem d he)) hend]
      · rw [← hsucc]
        exact hread (j + 1) (Nat.succ_le_succ hj)
      · rw [← hsucc]
        exact hat (j + 1) e he

/-- A field that is set by one tag has the value of the entry of that tag, where there is only one. -/
theorem foldl_field {σ : Type} {step : σ → Dyn → σ} {field : σ → UInt64} {tag : UInt64} (value : UInt64 → UInt64)
    (hstep : ∀ s d, field (step s d) = if d.tag = tag then value d.val else field s) (hneeded : tag ≠ dtNeeded)
    {ds : List Dyn} (honce : ((ds.map Dyn.tag).filter (· ≠ dtNeeded)).Nodup) (s : σ) :
    field (ds.foldl step s) = (((ds.find? (fun d => d.tag = tag)).map (fun d => value d.val)).getD (field s)) := by
  induction ds generalizing s with
  | nil => rfl
  | cons d ds ih =>
    have hrest : ((ds.map Dyn.tag).filter (· ≠ dtNeeded)).Nodup := by
      rw [List.map_cons, List.filter_cons] at honce
      split at honce
      · exact (List.nodup_cons.mp honce).2
      · exact honce
    rw [List.foldl_cons, ih hrest, hstep, List.find?_cons]
    by_cases htag : d.tag = tag
    · -- no other entry has the tag
      have hnone : ds.find? (fun e => e.tag = tag) = none := by
        rw [List.find?_eq_none]
        intro e he heq
        rw [decide_eq_true_eq] at heq
        rw [List.map_cons, List.filter_cons, if_pos (by simpa [htag] using hneeded)] at honce
        refine (List.nodup_cons.mp honce).1 (List.mem_filter.mpr ⟨?_, by simpa [htag] using hneeded⟩)
        rw [htag, ← heq]
        exact List.mem_map_of_mem he
      simp [htag, hnone]
    · simp [htag]

theorem map_fst_filter_zipIdx (fns : List UInt64) :
    ((fns.zipIdx.filter (fun e => isFunction e.1)).map Prod.fst) = Image.called fns := by
  have hmap : fns.zipIdx.map Prod.fst = fns := List.zipIdx_map_fst 0 fns
  have hfilter := List.filter_map (f := Prod.fst) (p := isFunction) (l := fns.zipIdx)
  rw [hmap] at hfilter
  exact hfilter.symm

theorem addr_withSymbol (symbolAt : UInt64 → Option Text) (c : Ctor) : (withSymbol symbolAt c).addr = c.addr := by
  unfold withSymbol
  split
  · rfl
  · split <;> rfl

theorem func_resolveAndFill (e : ElfFuncEntry) : (e.resolveAndFill p).func = e.func := by
  unfold ElfFuncEntry.resolveAndFill
  split <;> rfl

theorem collectCtors_addr (base initFunc : UInt64) (words : List UInt64) (symbolAt : UInt64 → Option Text) :
    (collectCtors base initFunc words symbolAt).map Ctor.addr = Image.called [initFunc] ++ Image.called words := by
  have hinit : (initCtors initFunc).map Ctor.addr = Image.called [initFunc] := by
    unfold initCtors Image.called
    rw [List.filter_cons]
    split <;> rfl
  have harray : (arrayCtors base words).map Ctor.addr = Image.called words := by
    unfold arrayCtors
    rw [List.map_map, ← map_fst_filter_zipIdx]
    rfl
  have hsymbol : (Ctor.addr ∘ withSymbol symbolAt) = Ctor.addr := funext (addr_withSymbol symbolAt)
  unfold collectCtors
  rw [List.map_map, hsymbol, List.map_append, hinit, harray]

theorem entries_func (base initFunc : UInt64) (type type' : Text) (words : List UInt64) :
    ((funcEntries base type initFunc ++ arrayEntries base type' words).map (ElfFuncEntry.resolveAndFill p)).map
      ElfFuncEntry.func = Image.called [initFunc] ++ Image.called words := by
  have hinit : (funcEntries base type initFunc).map ElfFuncEntry.func = Image.called [initFunc] := by
    unfold funcEntries Image.called
    rw [List.filter_cons]
    split <;> rfl
  have harray : (arrayEntries base type' words).map ElfFuncEntry.func = Image.called words := by
    unfold arrayEntries
    rw [List.map_map, ← map_fst_filter_zipIdx]
    rfl
  have hsymbol : (ElfFuncEntry.func ∘ ElfFuncEntry.resolveAndFill p) = ElfFuncEntry.func :=
    funext func_resolveAndFill
  rw [List.map_map, hsymbol, List.map_append, hinit, harray]

theorem ExtractedDyn.step_fields (base bias : UInt64) (s : ExtractedDyn) (d : Dyn) :
    (s.step base bias d).initFunc = (if d.tag = dtInit then pointer base bias d.val else s.initFunc) ∧
    (s.step base bias d).initArray = (if d.tag = dtInitArray then pointer base bias d.val else s.initArray) ∧
    (s.step base bias d).initArraySz = (if d.tag = dtInitArraysz then d.val else s.initArraySz) := by
  obtain ⟨tag, val⟩ := d
  unfold ExtractedDyn.step
  dsimp only
  by_cases h1 : tag = dtStrtab
  · subst h1; exact ⟨rfl, rfl, rfl⟩
  by_cases h2 : tag = dtSoname
  · subst h2; exact ⟨rfl, rfl, rfl⟩
  by_cases h3 : tag = dtInit
  · subst h3; exact ⟨rfl, rfl, rfl⟩
  by_cases h4 : tag = dtInitArray
  · subst h4; exact ⟨rfl, rfl, rfl⟩
  by_cases h5 : tag = dtInitArraysz
  · subst h5; exact ⟨rfl, rfl, rfl⟩
  simp [h1, h2, h3, h4, h5]

theorem ParsedDyn.step_fields (base bias : UInt64) (s : ParsedDyn) (d : Dyn) :
    (s.step base bias d).initFunc = (if d.tag = dtInit then pointer base bias d.val else s.initFunc) ∧
    (s.step base bias d).initArray = (if d.tag = dtInitArray then pointer base bias d.val else s.initArray) ∧
    (s.step base bias d).initArraySz = (if d.tag = dtInitArraysz then d.val else s.initArraySz) ∧
    (s.step base bias d).symtab = (if d.tag = dtSymtab then pointer base bias d.val else s.symtab) ∧
    (s.step base bias d).strtab = (if d.tag = dtStrtab then pointer base bias d.val else s.strtab) ∧
    (s.step base bias d).symentSize = (if d.tag = dtSyment then d.val else s.symentSize) := by
  obtain ⟨tag, val⟩ := d
  unfold ParsedDyn.step
  dsimp only
  by_cases h1 : tag = dtStrtab
  · subst h1; exact ⟨rfl, rfl, rfl, rfl, rfl, rfl⟩
  by_cases h2 : tag = dtStrsz
  · subst h2; exact ⟨rfl, rfl, rfl, rfl, rfl, rfl⟩
  by_cases h3 : tag = dtSymtab
  · subst h3; exact ⟨rfl, rfl, rfl, rfl, rfl, rfl⟩
  by_cases h4 : tag = dtSyment
  · subst h4; exact ⟨rfl, rfl, rfl, rfl, rfl, rfl⟩
  by_cases h5 : tag = dtSoname
  · subst h5; exact ⟨rfl, rfl, rfl, rfl, rfl, rfl⟩
  by_cases h6 : tag = dtNeeded
  · subst h6; exact ⟨rfl, rfl, rfl, rfl, rfl, rfl⟩
  by_cases h7 : tag = dtInit
  · subst h7; exact ⟨rfl, rfl, rfl, rfl, rfl, rfl⟩
  by_cases h8 : tag = dtInitArray
  · subst h8; exact ⟨rfl, rfl, rfl, rfl, rfl, rfl⟩
  by_cases h9 : tag = dtInitArraysz
  · subst h9; exact ⟨rfl, rfl, rfl, rfl, rfl, rfl⟩
  -- the tags that are left do not set these fields
  simp only [h1, h2, h3, h4, h5, h6, h7, h8, h9, if_false]
  split_ifs <;> exact ⟨rfl, rfl, rfl, rfl, rfl, rfl⟩

namespace Image

variable (im : Image p)

theorem base_ne_zero : im.base ≠ 0 := by
  intro h
  have hbase := im.isBase
  unfold isElfBase at hbase
  rw [h] at hbase
  simp at hbase

theorem scan_soinfo : scanSlots p slotCount im.soinfo = im.base := by
  have hbase : isElfBase p (p.u64 (nth im.soinfo 8 im.slot)) = true := by
    rw [im.slot_base]
    exact im.isBase
  exact (scanSlots_eq im.slot_lt im.slots_readable im.slots_before hbase).trans im.slot_base

theorem phdrs_eq : phdrsAt p (im.base + phoff p im.base) (phnum p im.base) = im.phdrs := by
  rw [im.header.2.2.1]
  exact im.table

theorem loadBias_eq : loadBias im.base im.phdrs = im.bias := by
  unfold loadBias
  rw [im.load]
  rfl

theorem dynamic_ne_zero : im.bias + im.dynamic.vaddr ≠ 0 := by
  intro h
  have hin : im.base ≤ im.bias + im.dynamic.vaddr := im.dynamic_in
  rw [h] at hin
  exact im.base_ne_zero (UInt64.le_antisymm hin (UInt64.zero_le))

theorem dynamic_readable : p.readable (im.bias + im.dynamic.vaddr) sizeofDyn = true := by
  have h := im.dyns_readable 0 (Nat.zero_le _)
  rwa [nth_zero] at h

theorem dyns_eq : dynsFrom p maxDyns (im.bias + im.dynamic.vaddr) = im.dyns.map im.stored := by
  have hlen : (im.dyns.map im.stored).length = im.dyns.length := List.length_map _
  apply dynsFrom_eq
  · rw [hlen]
    exact im.dyns_lt
  · rw [hlen]
    exact im.dyns_readable
  · intro j d hd
    rw [List.getElem?_map, Option.map_eq_some_iff] at hd
    obtain ⟨e, he, rfl⟩ := hd
    exact im.dyns_at j e he
  · intro d hd
    obtain ⟨e, he, rfl⟩ := List.mem_map.mp hd
    exact im.dyns_tags e he
  · rw [hlen]
    exact im.dyns_end

theorem stored_once : (((im.dyns.map im.stored).map Dyn.tag).filter (· ≠ dtNeeded)).Nodup := by
  rw [List.map_map]
  exact im.dyns_once

theorem mem_of_entry {tag v : UInt64} (h : im.entry tag = some v) : ⟨tag, v⟩ ∈ im.dyns := by
  unfold entry at h
  rw [Option.map_eq_some_iff] at h
  obtain ⟨d, hd, rfl⟩ := h
  have htag := List.find?_some hd
  rw [decide_eq_true_eq] at htag
  rw [← htag]
  exact List.mem_of_find?_eq_some hd

theorem pointer_in {tag v : UInt64} (h : im.entry tag = some v) (htag : isPointer tag = true)
    (hfunction : tag = dtInit ∨ tag = dtFini → isFunction v = true) :
    im.base ≤ im.bias + v ∧ im.bias + v < im.limit :=
  im.pointers_in ⟨tag, v⟩ (im.mem_of_entry h) htag hfunction

/-- A value that is read is that of the entry as it is stored. -/
theorem find_stored (tag : UInt64) (value : UInt64 → UInt64) :
    ((im.dyns.map im.stored).find? (fun d => d.tag = tag)).map (fun d => value d.val) =
      (im.entry tag).map (fun v => value (im.stored ⟨tag, v⟩).val) := by
  unfold entry
  rw [List.find?_map]
  have hsame : ((fun d : Dyn => decide (d.tag = tag)) ∘ im.stored) = fun d => decide (d.tag = tag) := rfl
  rw [hsame]
  cases hd : im.dyns.find? (fun d => d.tag = tag) with
  | none => rfl
  | some d =>
    have htag := List.find?_some hd
    rw [decide_eq_true_eq] at htag
    simp only [Option.map_some, ← htag]

theorem pointer_stored {tag : UInt64} (v : UInt64) (htag : isPointer tag = true) :
    pointer im.base im.bias (im.stored ⟨tag, v⟩).val = im.seen v := by
  unfold stored seen inMemory
  rw [htag, Bool.true_and]

theorem pointer_field {σ : Type} {step : σ → Dyn → σ} {field : σ → UInt64} {tag : UInt64}
    (hstep : ∀ s d, field (step s d) = if d.tag = tag then pointer im.base im.bias d.val else field s)
    (htag : isPointer tag = true) (hneeded : tag ≠ dtNeeded) (s : σ) :
    field ((im.dyns.map im.stored).foldl step s) = ((im.entry tag).map im.seen).getD (field s) := by
  rw [foldl_field (pointer im.base im.bias) hstep hneeded im.stored_once, im.find_stored]
  cases hv : im.entry tag with
  | none => rfl
  | some v => rw [Option.map_some, Option.map_some, im.pointer_stored v htag]

theorem value_field {σ : Type} {step : σ → Dyn → σ} {field : σ → UInt64} {tag : UInt64}
    (hstep : ∀ s d, field (step s d) = if d.tag = tag then d.val else field s)
    (htag : isPointer tag = false) (hneeded : tag ≠ dtNeeded) (s : σ) :
    field ((im.dyns.map im.stored).foldl step s) = (im.entry tag).getD (field s) := by
  rw [foldl_field id hstep hneeded im.stored_once, im.find_stored]
  cases hv : im.entry tag with
  | none => rfl
  | some v =>
    rw [Option.map_some, Option.getD_some, Option.getD_some]
    simp [stored, htag]

/-! ## What pointers are taken for -/

theorem seen_of_told {v : UInt64} (hin : im.base ≤ im.bias + v) (h : im.Told v) : im.seen v = im.bias + v := by
  have hnot : ¬ im.bias + v < im.base := UInt64.not_lt.mpr hin
  unfold seen inMemory pointer
  cases hrel : im.relocated with
  | true => rw [if_pos rfl, if_neg hnot]
  | false =>
    rw [if_neg Bool.false_ne_true]
    split
    · rfl
    · rename_i hge
      have hbias : im.bias = 0 := (h.resolve_left (by simp [hrel])).resolve_left hge
      rw [hbias, UInt64.zero_add]

theorem seen_of_untold {v : UInt64} (h : ¬ im.Told v) : im.seen v = v := by
  unfold Told at h
  unfold seen inMemory pointer
  rw [not_or, not_or] at h
  simp [h.1, h.2.1]

theorem seen_ne_zero {v : UInt64} (hin : im.base ≤ im.bias + v) : im.seen v ≠ 0 := by
  intro hzero
  have hpos : ¬ im.base ≤ 0 := UInt64.not_le.mpr (UInt64.pos_iff_ne_zero.mpr im.base_ne_zero)
  by_cases htold : im.Told v
  · rw [← im.seen_of_told hin htold, hzero] at hin
    exact hpos hin
  · have hge : ¬ v < im.base := fun hlt => htold (.inr (.inl hlt))
    rw [← im.seen_of_untold htold, hzero] at hge
    exact hpos (UInt64.not_lt.mp hge)

theorem called_init : called [((im.entry dtInit).map im.seen).getD 0] =
    called ((im.entry dtInit).toList.map im.seen) := by
  cases im.entry dtInit with
  | none => rfl
  | some v => rfl

theorem functionsAt_array : functionsAt p (((im.entry dtInitArray).map im.seen).getD 0)
    ((im.entry dtInitArraysz).getD 0) =
      match im.entry dtInitArray with
      | none => []
      | some a => wordsAt p (im.seen a) ((im.entry dtInitArraysz).getD 0) := by
  unfold functionsAt
  cases ha : im.entry dtInitArray with
  | none => rfl
  | some a =>
    rw [Option.map_some, Option.getD_some]
    have hne := im.seen_ne_zero (im.pointer_in ha (by decide) (fun h => absurd h (by decide))).1
    by_cases hsz : 0 < (im.entry dtInitArraysz).getD 0
    · rw [if_pos ⟨hne, hsz⟩]
    · -- an array of size 0 has no words
      have hzero : (im.entry dtInitArraysz).getD 0 = 0 := by
        by_contra hnot
        exact hsz (UInt64.pos_iff_ne_zero.mpr hnot)
      have hwords : wordsAt p (im.seen a) 0 = [] := by
        unfold wordsAt
        split <;> rfl
      rw [if_neg (fun h => hsz h.2), hzero]
      exact hwords.symm

theorem extracted_eq : (extractConstructorsFromSoinfo p im.soinfo).map (fun e => e.ctors.map Ctor.addr) =
    some im.seenConstructors := by
  have hfields := fun s d => ExtractedDyn.step_fields im.base im.bias s d
  have hinit := im.pointer_field (fun s d => (hfields s d).1) (by decide) (by decide) {}
  have harray := im.pointer_field (fun s d => (hfields s d).2.1) (by decide) (by decide) {}
  have hsz := im.value_field (fun s d => (hfields s d).2.2) (by decide) (by decide) {}
  have hsoinfo : ¬ (im.soinfo < 0x1000 ∨ p.readable im.soinfo 0x50 = false) := by
    rintro (h | h)
    · exact absurd h (UInt64.not_lt.mpr im.soinfo_readable.1)
    · rw [im.soinfo_readable.2] at h
      exact Bool.noConfusion h
  have hheader : ¬ (im.base = 0 ∨ p.readable im.base sizeofEhdr = false ∨ phoff p im.base = 0 ∨
      phnum p im.base = 0 ∨
      p.readable (im.base + phoff p im.base) (sizeofPhdr * phnum p im.base) = false) := by
    obtain ⟨hread, hoff, hnum, hpos⟩ := im.header
    rw [hread, hnum, im.table_readable]
    simp [im.base_ne_zero, hoff, Nat.ne_of_gt hpos]
  have hdynamic : ¬ (im.bias + im.dynamic.vaddr = 0 ∨
      p.readable (im.bias + im.dynamic.vaddr) sizeofDyn = false) := by
    rw [im.dynamic_readable]
    simp [im.dynamic_ne_zero]
  unfold extractConstructorsFromSoinfo
  rw [if_neg hsoinfo]
  dsimp only
  rw [im.scan_soinfo, if_neg hheader, im.phdrs_eq, im.loadBias_eq, im.hasDynamic]
  dsimp only
  rw [if_neg hdynamic, im.dyns_eq, Option.map_some]
  dsimp only
  rw [collectCtors_addr]
  unfold seenConstructors seenArrayFunctions
  rw [hinit, harray, hsz, im.called_init, im.functionsAt_array]

theorem parsed_eq : ∃ info, parseElfFromBase p im.base = some info ∧ info.base = im.base ∧
    info.symtab = ((im.entry dtSymtab).map im.seen).getD 0 ∧
    info.strtab = ((im.entry dtStrtab).map im.seen).getD 0 ∧
    info.symentSize = (im.entry dtSyment).getD 0 ∧
    info.ctors.map ElfFuncEntry.func = im.seenConstructors := by
  have hfields := fun s d => ParsedDyn.step_fields im.base im.bias s d
  have hinit := im.pointer_field (fun s d => (hfields s d).1) (by decide) (by decide) {}
  have harray := im.pointer_field (fun s d => (hfields s d).2.1) (by decide) (by decide) {}
  have hsz := im.value_field (fun s d => (hfields s d).2.2.1) (by decide) (by decide) {}
  have hsymtab := im.pointer_field (fun s d => (hfields s d).2.2.2.1) (by decide) (by decide) {}
  have hstrtab := im.pointer_field (fun s d => (hfields s d).2.2.2.2.1) (by decide) (by decide) {}
  have hsyment := im.value_field (fun s d => (hfields s d).2.2.2.2.2) (by decide) (by decide) {}
  have hbase := im.isBase
  unfold isElfBase at hbase
  simp only [Bool.and_eq_true, decide_eq_true_eq] at hbase
  have hheader : ¬ (im.base < 0x1000 ∨ p.readable im.base sizeofEhdr = false ∨ p.u32 im.base ≠ elfMag ∨
      phoff p im.base = 0 ∨ phnum p im.base = 0 ∨
      p.readable (im.base + phoff p im.base) (sizeofPhdr * phnum p im.base) = false) := by
    obtain ⟨hread, hoff, hnum, hpos⟩ := im.header
    rw [hread, hnum, im.table_readable]
    simp [UInt64.not_lt.mpr hbase.1.1.1, hbase.2, hoff, Nat.ne_of_gt hpos]
  have hdynamic : ¬ (im.bias + im.dynamic.vaddr = 0 ∨
      p.readable (im.bias + im.dynamic.vaddr) sizeofDyn = false) := by
    rw [im.dynamic_readable]
    simp [im.dynamic_ne_zero]
  unfold parseElfFromBase
  rw [if_neg hheader]
  dsimp only
  rw [im.phdrs_eq, im.loadBias_eq, im.hasDynamic]
  dsimp only
  rw [if_neg hdynamic, im.dyns_eq]
  refine ⟨_, rfl, rfl, hsymtab, hstrtab, hsyment, ?_⟩
  dsimp only
  rw [entries_func]
  unfold seenConstructors seenArrayFunctions
  rw [hinit, harray, hsz, im.called_init, im.functionsAt_array]

/-! ## Constructors -/

theorem seen_eq_iff {v : UInt64} (hin : im.base ≤ im.bias + v) : im.seen v = im.bias + v ↔ im.Told v := by
  constructor
  · intro heq
    by_contra hnot
    rw [im.seen_of_untold hnot] at heq
    have hadd : 0 + v = im.bias + v := (UInt64.zero_add v).trans heq
    exact hnot (.inr (.inr ((UInt64.add_left_inj v).mp hadd).symm))
  · exact im.seen_of_told hin

/-- The function of `DT_INIT` is taken for a function. -/
theorem isFunction_seen {v : UInt64} (h : im.entry dtInit = some v) (hfunction : isFunction v = true) :
    isFunction (im.seen v) = true := by
  obtain ⟨hlo, hhi⟩ := im.pointer_in h (by decide) (fun _ => hfunction)
  by_cases htold : im.Told v
  · have hminus : im.bias + v ≠ minusOne := by
      intro heq
      rw [heq] at hhi
      have hmax : im.limit ≤ minusOne := by
        rw [UInt64.le_iff_toNat_le]
        have hlt := im.limit.toNat_lt
        have hval : minusOne.toNat = 2 ^ 64 - 1 := by decide
        omega
      exact absurd hhi (UInt64.not_lt.mpr hmax)
    have hzero := im.seen_ne_zero hlo
    rw [im.seen_of_told hlo htold] at hzero ⊢
    unfold isFunction
    simp [hzero, hminus]
  · rw [im.seen_of_untold htold]
    exact hfunction

theorem seenConstructors_eq : im.seenConstructors =
    (called (im.entry dtInit).toList).map im.seen ++ (im.stray ++ im.seenArrayFunctions) := by
  unfold seenConstructors stray
  rw [← List.append_assoc]
  congr 1
  cases hv : im.entry dtInit with
  | none => rfl
  | some v =>
    unfold called
    cases hfunction : isFunction v with
    | false => simp [hfunction]
    | true => simp [hfunction, im.isFunction_seen hv hfunction]

/-- The first items are the same where the function of `DT_INIT` is told. -/
theorem init_iff : (called (im.entry dtInit).toList).map im.seen = (called (im.entry dtInit).toList).map (im.bias + ·) ↔
    ∀ v, im.entry dtInit = some v → isFunction v = true → im.Told v := by
  cases hv : im.entry dtInit with
  | none => simp [called]
  | some v =>
    unfold called
    cases hfunction : isFunction v with
    | false => simp [hfunction]
    | true =>
      have hlo := (im.pointer_in hv (by decide) (fun _ => hfunction)).1
      simp [hfunction, im.seen_eq_iff hlo]

/-- The rest is the same where the array is told and nothing stands in front of it, or by chance. -/
theorem array_iff : im.stray ++ im.seenArrayFunctions = im.arrayFunctions ↔
    ((∀ a, im.entry dtInitArray = some a → im.Told a) → im.stray = []) ∧
      ∀ a, im.entry dtInitArray = some a → ¬ im.Told a →
        im.stray ++ called (wordsAt p a ((im.entry dtInitArraysz).getD 0)) = im.arrayFunctions := by
  unfold seenArrayFunctions arrayFunctions
  cases ha : im.entry dtInitArray with
  | none => simp [called]
  | some a =>
    dsimp only
    by_cases htold : im.Told a
    · rw [im.seen_of_told (im.pointer_in ha (by decide) (fun h => absurd h (by decide))).1 htold]
      simp [htold]
    · rw [im.seen_of_untold htold]
      simp [htold]

/-- The constructors that are found are those of the library where `DT_INIT` and the array are told. -/
theorem seenConstructors_iff : im.seenConstructors = im.constructors ↔
    (∀ v, im.entry dtInit = some v → isFunction v = true → im.Told v) ∧
      ((∀ a, im.entry dtInitArray = some a → im.Told a) → im.stray = []) ∧
        ∀ a, im.entry dtInitArray = some a → ¬ im.Told a →
          im.stray ++ called (wordsAt p a ((im.entry dtInitArraysz).getD 0)) = im.arrayFunctions := by
  have hlen : ((called (im.entry dtInit).toList).map im.seen).length =
      ((called (im.entry dtInit).toList).map (im.bias + ·)).length := by rw [List.length_map, List.length_map]
  rw [im.seenConstructors_eq, ← im.init_iff, ← im.array_iff]
  exact ⟨fun h => List.append_inj h hlen, fun ⟨hinit, harray⟩ => by rw [hinit, harray]; rfl⟩

/-! ## Symbols -/

theorem mem_symbolsFrom {info : ParsedElfInfo} {n k : Nat} {item : SymbolItem}
    (h : item ∈ symbolsFrom p info n k) :
    item = symbolItem p info item.index (symAt p (nth info.symtab sizeofSym item.index)) := by
  induction n generalizing k with
  | zero => cases h
  | succ n ih =>
    unfold symbolsFrom at h
    split at h
    · cases h
    · rcases List.mem_cons.mp h with rfl | hrest
      · rfl
      · exact ih hrest

theorem symbolItem_address (info : ParsedElfInfo) (i : Nat) (s : Sym) :
    (symbolItem p info i s).address = shownAddress info.base s.value := rfl

/-- The symbols that are listed are those up to the first one that cannot be read. -/
theorem exists_mem_symbolsFrom_iff (info : ParsedElfInfo) (n k i : Nat) :
    (∃ item ∈ symbolsFrom p info n k, item.index = i) ↔
      k ≤ i ∧ i < k + n ∧ ∀ j, k ≤ j → j ≤ i → p.readable (nth info.symtab sizeofSym j) sizeofSym = true := by
  induction n generalizing k with
  | zero =>
    constructor
    · rintro ⟨item, hitem, _⟩
      cases hitem
    · rintro ⟨hlo, hhi, _⟩
      omega
  | succ n ih =>
    unfold symbolsFrom
    cases hread : p.readable (nth info.symtab sizeofSym k) sizeofSym with
    | false =>
      constructor
      · rintro ⟨item, hitem, _⟩
        cases hitem
      · rintro ⟨hlo, _, hall⟩
        exact absurd (hall k (Nat.le_refl k) hlo) (by simp [hread])
    | true =>
      rw [if_neg (by simp)]
      constructor
      · rintro ⟨item, hitem, hindex⟩
        rcases List.mem_cons.mp hitem with rfl | hrest
        · obtain rfl : k = i := hindex
          exact ⟨Nat.le_refl k, by omega, fun j hlo hhi => by rwa [Nat.le_antisymm hhi hlo]⟩
        · obtain ⟨hlo, hhi, hall⟩ := (ih (k + 1)).mp ⟨item, hrest, hindex⟩
          refine ⟨by omega, by omega, fun j hj hji => ?_⟩
          rcases Nat.eq_or_lt_of_le hj with rfl | hlt
          · exact hread
          · exact hall j hlt hji
      · rintro ⟨hlo, hhi, hall⟩
        rcases Nat.eq_or_lt_of_le hlo with rfl | hlt
        · exact ⟨_, List.mem_cons_self, rfl⟩
        · obtain ⟨item, hitem, hindex⟩ :=
            (ih (k + 1)).mpr ⟨hlt, by omega, fun j hj hji => hall j (by omega) hji⟩
          exact ⟨item, List.mem_cons_of_mem _ hitem, hindex⟩

/-- The largest argument asks for everything that any argument asks for. -/
theorem exists_lt_symbolLimit_iff (total i : Nat) :
    (∃ maxCount, i < symbolLimit maxCount total) ↔ i < 2 ^ 31 - 1 ∧ (0 < total → i < total) := by
  unfold symbolLimit
  constructor
  · rintro ⟨maxCount, hlt⟩
    have hmax : ∀ n : Int32, n.toInt.toNat ≤ 2 ^ 31 - 1 := fun n => by
      have hn := n.toInt_lt
      omega
    cases maxCount with
    | none => dsimp only at hlt; split at hlt <;> omega
    | some n =>
      have hn := hmax n
      dsimp only at hlt
      split at hlt <;> split_ifs at hlt <;> omega
  · rintro ⟨hmax, htotal⟩
    refine ⟨some Int32.maxValue, ?_⟩
    have hlimit : Int32.maxValue.toInt.toNat = 2 ^ 31 - 1 := by decide
    have hpos : (0 : Int32) < Int32.maxValue := by decide
    dsimp only
    rw [if_pos hpos, hlimit]
    split
    · rename_i hroom
      exact htotal hroom.2
    · exact hmax

theorem entry_ne_zero {tag : UInt64} (htag : isPointer tag = true) (hfunction : ¬ (tag = dtInit ∨ tag = dtFini)) :
    ((im.entry tag).map im.seen).getD 0 ≠ 0 ↔ ∃ v, im.entry tag = some v := by
  cases hv : im.entry tag with
  | none => simp
  | some v =>
    have hne := im.seen_ne_zero (im.pointer_in hv htag (fun h => absurd h hfunction)).1
    simp [hne]

theorem reported_iff {info : ParsedElfInfo} (hinfo : parseElfFromBase p im.base = some info) (i : Nat) :
    (∃ maxCount, ∃ item ∈ jsLinkerSymbols p info maxCount, item.index = i) ↔
      ∃ symtab strtab syment, im.entry dtSymtab = some symtab ∧ im.entry dtStrtab = some strtab ∧
        im.entry dtSyment = some syment ∧ syment ≠ 0 ∧ syment.toNat < 2 ^ 63 ∧
        im.Reached symtab strtab syment i := by
  obtain ⟨info', hinfo', -, hsymtab, hstrtab, hsyment, -⟩ := im.parsed_eq
  obtain rfl : info = info' := Option.some.inj (hinfo.symm.trans hinfo')
  have hsymtabs := @entry_ne_zero p im dtSymtab (by decide) (by decide)
  have hstrtabs := @entry_ne_zero p im dtStrtab (by decide) (by decide)
  rw [← hsymtab] at hsymtabs
  rw [← hstrtab] at hstrtabs
  unfold jsLinkerSymbols
  constructor
  · rintro ⟨maxCount, item, hitem, hindex⟩
    split at hitem
    · cases hitem
    rename_i hguard
    rw [not_or, not_or, not_or] at hguard
    obtain ⟨hsym, hstr, hent, hsmall⟩ := hguard
    obtain ⟨symtab, hsym⟩ := hsymtabs.mp hsym
    obtain ⟨strtab, hstr⟩ := hstrtabs.mp hstr
    obtain ⟨hlo, hhi, hall⟩ := (exists_mem_symbolsFrom_iff info _ 0 i).mp ⟨item, hitem, hindex⟩
    obtain ⟨hmax, htotal⟩ := (exists_lt_symbolLimit_iff (totalSymbols info) i).mp ⟨maxCount, by omega⟩
    unfold totalSymbols at htotal
    rw [hsym, Option.map_some, Option.getD_some] at hsymtab
    rw [hstr, Option.map_some, Option.getD_some] at hstrtab
    cases hsize : im.entry dtSyment with
    | none => rw [hsize] at hsyment; exact absurd hsyment hent
    | some syment =>
      rw [hsize, Option.getD_some] at hsyment
      rw [hsyment] at hent hsmall
      rw [hsymtab, hstrtab, hsyment] at htotal
      rw [hsymtab] at hall
      exact ⟨symtab, strtab, syment, hsym, hstr, rfl, hent, Nat.not_le.mp hsmall, hmax, htotal,
        fun j hj => hall j (Nat.zero_le j) hj⟩
  · rintro ⟨symtab, strtab, syment, hsym, hstr, hsize, hent, hsmall, hreached⟩
    rw [hsym, Option.map_some, Option.getD_some] at hsymtab
    rw [hstr, Option.map_some, Option.getD_some] at hstrtab
    rw [hsize, Option.getD_some] at hsyment
    have htotal : totalSymbols info = im.room symtab strtab syment := by
      unfold totalSymbols room
      rw [hsymtab, hstrtab, hsyment]
    obtain ⟨maxCount, hlt⟩ := (exists_lt_symbolLimit_iff (totalSymbols info) i).mpr
      ⟨hreached.lt_max, by rw [htotal]; exact hreached.lt_room⟩
    refine ⟨maxCount, ?_⟩
    rw [if_neg (by
      rw [not_or, not_or, not_or, hsyment]
      exact ⟨hsymtabs.mpr ⟨symtab, hsym⟩, hstrtabs.mpr ⟨strtab, hstr⟩, hent, Nat.not_le.mpr hsmall⟩)]
    refine (exists_mem_symbolsFrom_iff info _ 0 i).mpr ⟨Nat.zero_le i, by omega, fun j _ hj => ?_⟩
    rw [hsymtab]
    exact hreached.readable j hj

/-- A symbol is reported where the condition says it is placed. -/
theorem address_iff {info : ParsedElfInfo} (hinfo : parseElfFromBase p im.base = some info) {v : UInt64}
    (hv : im.entry dtSymtab = some v) {maxCount : Option Int32} {item : SymbolItem}
    (hitem : item ∈ jsLinkerSymbols p info maxCount) :
    item.address = im.bias + (im.symbol item.index).value ↔ im.SymbolPlaced v item.index := by
  obtain ⟨info', hinfo', hbase, hsymtab, -, -, -⟩ := im.parsed_eq
  obtain rfl : info = info' := Option.some.inj (hinfo.symm.trans hinfo')
  unfold jsLinkerSymbols at hitem
  split at hitem
  · cases hitem
  rw [hv, Option.map_some, Option.getD_some] at hsymtab
  have haddress : item.address = shownAddress im.base (symAt p (nth (im.seen v) sizeofSym item.index)).value := by
    have hshown := congrArg SymbolItem.address (mem_symbolsFrom hitem)
    rw [symbolItem_address, hsymtab, hbase] at hshown
    exact hshown
  have hsymbol : im.symbol item.index = symAt p (nth (im.bias + v) sizeofSym item.index) := by
    unfold symbol
    rw [hv, Option.getD_some]
  rw [haddress]
  by_cases htold : im.Told v
  · rw [im.seen_of_told (im.pointer_in hv (by decide) (fun h => absurd h (by decide))).1 htold, ← hsymbol, bias,
      shownAddress_eq_iff]
    exact ⟨fun h => ⟨fun _ => h, fun hnot => absurd htold hnot⟩, fun h => h.told htold⟩
  · rw [im.seen_of_untold htold]
    exact ⟨fun h => ⟨fun hyes => absurd hyes htold, fun _ => h⟩, fun h => h.untold htold⟩

end Image

end

/-! ## The views of an image -/

/-- The views are right exactly where pointers are told, a `DT_INIT` that is none is taken for none, the first segment
    is at 0 for the symbols that are reported, and no other memory looks like the library. -/
theorem viewsRight_iff {p : Process} (im : Image p) : im.ViewsRight ↔ im.IsPlain := by
  obtain ⟨info, hinfo, -, -, -, -, hctors⟩ := im.parsed_eq
  constructor
  · intro h
    have hextracted := h.extracted
    rw [im.extracted_eq] at hextracted
    obtain ⟨hinit, hnone, harray⟩ := im.seenConstructors_iff.mp (Option.some.inj hextracted)
    refine ⟨hinit, hnone, harray, fun symtab strtab syment hsym hstr hsize hent hsmall i hreached hdefined => ?_⟩
    obtain ⟨maxCount, item, hitem, rfl⟩ := (im.reported_iff hinfo i).mpr
      ⟨symtab, strtab, syment, hsym, hstr, hsize, hent, hsmall, hreached⟩
    exact (im.address_iff hinfo hsym hitem).mp (h.symbols info hinfo maxCount item hitem hdefined)
  · intro h
    have hsame := im.seenConstructors_iff.mpr ⟨h.init, h.noInit, h.array⟩
    refine ⟨?_, ?_, fun info hinfo maxCount item hitem hdefined => ?_⟩
    · rw [im.extracted_eq, hsame]
    · rw [hinfo, Option.map_some, hctors, hsame]
    · obtain ⟨symtab, strtab, syment, hsym, hstr, hsize, hent, hsmall, hreached⟩ :=
        (im.reported_iff hinfo item.index).mp ⟨maxCount, item, hitem, rfl⟩
      exact (im.address_iff hinfo hsym hitem).mpr
        (h.symbols symtab strtab syment hsym hstr hsize hent hsmall item.index hreached hdefined)

/-- The words of a library at 0x7000000000 whose first segment is at 0x1000 of the file, with one symbol, and of its
    soinfo. -/
def libraryWords : List (Nat × Nat) :=
  [(0x6000000000, 0x7000000000), (0x7000000000, elfMag), (0x7000000020, 64), (0x7000000038, 2),
    -- program headers
    (0x7000000040, ptLoad), (0x7000000050, 0x1000), (0x7000000078, ptDynamic), (0x7000000088, 0x1200),
    -- the dynamic section
    (0x7000000200, 5), (0x7000000208, 0x1400), (0x7000000210, 6), (0x7000000218, 0x1300), (0x7000000220, 11),
    (0x7000000228, 24), (0x7000000230, 10), (0x7000000238, 16),
    -- the symbol
    (0x7000000318, 0x0007001200000001), (0x7000000320, 0x1500), (0x7000000328, 4)]

def libraryProcess : Process where
  mem := fun a => UInt8.ofNat ((libraryWords.lookup (a / 8 * 8)).getD 0 / 256 ^ (a % 8))
  readable := fun _ _ => true
  symbolAt := fun _ => none
  cString := fun _ => []
  fileName := fun _ => none

def library : Image libraryProcess where
  base := 0x7000000000
  limit := 0x7000002000
  soinfo := 0x6000000000
  slot := 0
  phdrs := [⟨ptLoad, 0x1000, 0⟩, ⟨ptDynamic, 0x1200, 0⟩]
  firstLoad := ⟨ptLoad, 0x1000, 0⟩
  dynamic := ⟨ptDynamic, 0x1200, 0⟩
  dyns := [⟨dtStrtab, 0x1400⟩, ⟨dtSymtab, 0x1300⟩, ⟨dtSyment, 24⟩, ⟨dtStrsz, 16⟩]
  relocated := false
  isBase := by decide
  soinfo_readable := by decide
  slot_lt := by decide
  slots_readable := fun _ _ => rfl
  slots_before := fun j hj => absurd hj (Nat.not_lt_zero j)
  slot_base := by decide
  header := by decide
  table_readable := rfl
  table := by decide
  load := rfl
  load_aligned := by decide
  hasDynamic := rfl
  dynamic_in := by decide
  dyns_lt := by decide
  dyns_readable := fun _ _ => rfl
  dyns_at := by
    intro j d hd
    match j with
    | 0 | 1 | 2 | 3 =>
      obtain rfl := Option.some.inj hd
      decide
    | j + 4 => cases hd
  dyns_end := by decide
  dyns_tags := by decide
  dyns_once := by decide
  pointers_in := by decide
  array_readable := fun _ _ _ _ _ _ => rfl

/-- The symbol at 0x7000000500 is reported at 0x7000001500. -/
theorem library_misplaced : ¬ ∀ (p : Process) (im : Image p), im.ViewsRight := by
  intro h
  have hitem : ((parseElfFromBase libraryProcess library.base).bind
      (fun info => (jsLinkerSymbols libraryProcess info none)[1]?)).map (fun item => (item.index, item.address)) =
        some (1, 0x7000001500) := by decide
  rw [Option.map_eq_some_iff] at hitem
  obtain ⟨item, hbind, hshown⟩ := hitem
  obtain ⟨info, hinfo, hget⟩ := Option.bind_eq_some_iff.mp hbind
  have hindex : item.index = 1 := congrArg Prod.fst hshown
  have haddress : item.address = 0x7000001500 := congrArg Prod.snd hshown
  have hright := (h libraryProcess library).symbols info hinfo none item (List.mem_of_getElem? hget)
  rw [hindex, haddress] at hright
  exact absurd (hright (by decide)) (by decide)

end ArtPi.Agent.ElfViews
