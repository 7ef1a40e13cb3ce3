import ArtPi.Agent.LoadedModules
import Mathlib.Data.Bool.AllAny
import Mathlib.Data.Finset.Dedup
import Mathlib.Data.Finset.Max

set_option autoImplicit false

/-! # The module at an address (`src/agent/agent_native.cpp`)

`Process.findModuleByAddress` takes the text of the mapping that has the address, and looks it up as a query for
modules: in order, by name and by path, with wildcards and without case. A third scan of the listing gives the size. -/

namespace ArtPi.Agent.LoadedModules

open Lib Lib.Listing Lib.ProcMaps
open Wildcard (chars)

/-! ## The scans of the listing -/

/-- What the two scans take from a line: the range, and the text from the first slash on. -/
structure Entry where
  start : UInt64
  stop : UInt64
  path : Text
  deriving DecidableEq

/-- A line without a slash has the empty path. -/
def readEntry (line : Text) : Option Entry :=
  (scanRange line).map fun ((start, stop), _) => ⟨start, stop, trimEnd (line.dropWhile (· ≠ slash))⟩

def entries (maps : Text) : List Entry := (fgets 1023 maps).filterMap readEntry

def Entry.has (e : Entry) (addr : UInt64) : Bool := e.start ≤ addr && addr < e.stop

/-- The path of the first line that has the address. -/
def hitPath (maps : Text) (addr : UInt64) : Text :=
  match (entries maps).find? (·.has addr) with
  | some e => e.path
  | none => []

/-- A line is counted to the module. -/
def Entry.isOf (modPath : Text) (modBase : UInt64) (e : Entry) : Bool :=
  e.path ≠ [] && (e.path = modPath || (modBase ≠ 0 && e.start = modBase))

/-- `minStart` and `maxEnd` -/
def widen (modPath : Text) (modBase : UInt64) (span : UInt64 × UInt64) (e : Entry) : UInt64 × UInt64 :=
  if e.isOf modPath modBase = true then
    (if e.start < span.1 then e.start else span.1, if span.2 < e.stop then e.stop else span.2)
  else span

def uintptrMax : UInt64 := 0xffffffffffffffff

def computeModuleMappedSize (maps : Option Text) (modPath : Text) (modBase : UInt64) : UInt64 :=
  match maps with
  | none => 0
  | some maps =>
    let (minStart, maxEnd) := (entries maps).foldl (widen modPath modBase) (uintptrMax, 0)
    if minStart < maxEnd then maxEnd - minStart else 0

/-- The object of a module, without its methods. -/
structure ModuleObject where
  name : Text
  path : Text
  base : UInt64
  size : UInt64
  deriving DecidableEq

def makeModuleObject (maps : Option Text) (m : LoadedModuleInfo) : ModuleObject :=
  ⟨m.name, m.path, m.base, computeModuleMappedSize maps m.path m.base⟩

/-- `JsProcessFindModuleByAddress`, with what `EnumerateAllLoadedModules` returns. -/
def findModuleByAddress (modules : List LoadedModuleInfo) (maps : Option Text) (addr : UInt64) : Option ModuleObject :=
  if addr < 0x1000 then none
  else
    match maps with
    | none => none
    | some text =>
      if hitPath text addr = [] then none
      else (findLoadedModule modules (hitPath text addr)).map (makeModuleObject maps)

/-! ## Attribution -/

/-- The address is below the end of the object. -/
def ModuleObject.Covers (o : ModuleObject) (addr : UInt64) : Prop :=
  o.base ≤ addr ∧ addr.toNat < o.base.toNat + o.size.toNat

/-- The module of the file that is mapped at the address where the file has one, and no other module. -/
structure Attributed (mm : MemoryMap) (modules : List LoadedModuleInfo) (addr : UInt64) (found : Option ModuleObject) :
    Prop where
  own : ∀ r ∈ mm.regions, r.Contains addr → ∀ m ∈ modules, r.file = some m.path →
    ∃ o, found = some o ∧ o.path = m.path ∧ o.Covers addr
  foreign : ∀ o, found = some o → ∃ r ∈ mm.regions, r.Contains addr ∧ r.file = some o.path

/-- The lines that are counted to the module reach from one to another one, and the address is as far from the base as
it can be from the first of them. -/
def WithinSpan (maps : Text) (m : LoadedModuleInfo) (addr : UInt64) : Prop :=
  m.base ≤ addr ∧ ∃ first ∈ entries maps, ∃ last ∈ entries maps,
    first.isOf m.path m.base = true ∧ last.isOf m.path m.base = true ∧
      (∀ e ∈ entries maps, e.isOf m.path m.base = true → first.start ≤ e.start ∧ e.stop ≤ last.stop) ∧
      addr.toNat + first.start.toNat < m.base.toNat + last.stop.toNat

/-- The text at the address finds the module of the file first, and no module where the file has none. -/
structure Uncontested (mm : MemoryMap) (modules : List LoadedModuleInfo) (addr : UInt64) : Prop where
  own : ∀ r ∈ mm.regions, r.Contains addr → ∀ front m rest, modules = front ++ m :: rest → r.file = some m.path →
    0x1000 ≤ addr ∧ hitPath mm.text addr ≠ [] ∧ isFound (hitPath mm.text addr) m = true ∧
      (∀ other ∈ front, isFound (hitPath mm.text addr) other = false) ∧ WithinSpan mm.text m addr
  foreign : (∀ r ∈ mm.regions, r.Contains addr → ∀ m ∈ modules, r.file ≠ some m.path) →
    0x1000 ≤ addr → hitPath mm.text addr ≠ [] → ∀ m ∈ modules, isFound (hitPath mm.text addr) m = false

/-! ## The size -/

/-- The span holds the lines counted so far, and each end of it is the end of one of them. -/
structure SpanOf (modPath : Text) (modBase : UInt64) (es : List Entry) (span : UInt64 × UInt64) : Prop where
  bounds : ∀ e ∈ es, e.isOf modPath modBase = true → span.1 ≤ e.start ∧ e.stop ≤ span.2
  first : span.1 = uintptrMax ∨ ∃ e ∈ es, e.isOf modPath modBase = true ∧ e.start = span.1
  last : span.2 = 0 ∨ ∃ e ∈ es, e.isOf modPath modBase = true ∧ e.stop = span.2

variable {modPath : Text} {modBase : UInt64}

theorem SpanOf.widen {es : List Entry} {span : UInt64 × UInt64} (h : SpanOf modPath modBase es span) (e : Entry) :
    SpanOf modPath modBase (es ++ [e]) (widen modPath modBase span e) := by
  have hfirst : span.1 = uintptrMax ∨ ∃ e' ∈ es ++ [e], e'.isOf modPath modBase = true ∧ e'.start = span.1 :=
    h.first.imp_right fun ⟨e', he', hprop⟩ => ⟨e', List.mem_append_left _ he', hprop⟩
  have hlast : span.2 = 0 ∨ ∃ e' ∈ es ++ [e], e'.isOf modPath modBase = true ∧ e'.stop = span.2 :=
    h.last.imp_right fun ⟨e', he', hprop⟩ => ⟨e', List.mem_append_left _ he', hprop⟩
  have hmem : e ∈ es ++ [e] := by simp
  unfold LoadedModules.widen
  by_cases hof : e.isOf modPath modBase = true
  · rw [if_pos hof]
    refine ⟨fun e' he' hof' => ?_, ?_, ?_⟩
    · dsimp only
      rcases List.mem_append.mp he' with he' | he'
      · obtain ⟨hlow, hhigh⟩ := h.bounds e' he' hof'
        rw [UInt64.le_iff_toNat_le] at hlow hhigh ⊢
        rw [UInt64.le_iff_toNat_le]
        split_ifs with h1 h2 h2 <;> simp only [UInt64.lt_iff_toNat_lt] at h1 h2 <;> omega
      · obtain rfl := List.mem_singleton.mp he'
        rw [UInt64.le_iff_toNat_le, UInt64.le_iff_toNat_le]
        split_ifs with h1 h2 h2 <;> simp only [UInt64.lt_iff_toNat_lt] at h1 h2 <;> omega
    · dsimp only
      split_ifs
      · exact .inr ⟨e, hmem, hof, rfl⟩
      · exact hfirst
    · dsimp only
      split_ifs
      · exact .inr ⟨e, hmem, hof, rfl⟩
      · exact hlast
  · rw [if_neg hof]
    refine ⟨fun e' he' hof' => ?_, hfirst, hlast⟩
    rcases List.mem_append.mp he' with he' | he'
    · exact h.bounds e' he' hof'
    · obtain rfl := List.mem_singleton.mp he'
      exact absurd hof' hof

theorem spanOf_foldl (modPath : Text) (modBase : UInt64) (es : List Entry) :
    SpanOf modPath modBase es (es.foldl (widen modPath modBase) (uintptrMax, 0)) := by
  have hrun (done rest : List Entry) (span : UInt64 × UInt64) (h : SpanOf modPath modBase done span) :
      SpanOf modPath modBase (done ++ rest) (rest.foldl (widen modPath modBase) span) := by
    induction rest generalizing done span with
    | nil =>
      rw [List.append_nil]
      exact h
    | cons e rest ih =>
      have hnext := ih (done ++ [e]) (widen modPath modBase span e) (h.widen e)
      rw [List.append_assoc, List.singleton_append] at hnext
      exact hnext
  exact hrun [] es (uintptrMax, 0) ⟨by simp, .inl rfl, .inl rfl⟩

/-- An object covers an address exactly where the lines that are counted to it reach. -/
theorem covers_iff (maps : Text) (m : LoadedModuleInfo) (addr : UInt64) :
    (makeModuleObject (some maps) m).Covers addr ↔ WithinSpan maps m addr := by
  have hspan := spanOf_foldl m.path m.base (entries maps)
  unfold ModuleObject.Covers WithinSpan makeModuleObject computeModuleMappedSize
  dsimp only
  generalize (entries maps).foldl (widen m.path m.base) (uintptrMax, 0) = span at hspan ⊢
  obtain ⟨lo, hi⟩ := span
  dsimp only at hspan ⊢
  refine and_congr_right fun hbase => ?_
  rw [UInt64.le_iff_toNat_le] at hbase
  constructor
  · intro hlt
    have hlohi : lo < hi := by
      by_contra hnot
      rw [if_neg hnot] at hlt
      have hzero : (0 : UInt64).toNat = 0 := rfl
      omega
    rw [if_pos hlohi, UInt64.toNat_sub_of_le _ _ (UInt64.le_of_lt hlohi)] at hlt
    rw [UInt64.lt_iff_toNat_lt] at hlohi
    obtain ⟨first, hfirst, hfirstOf, hfirstStart⟩ : ∃ e ∈ entries maps, e.isOf m.path m.base = true ∧ e.start = lo := by
      refine hspan.first.resolve_left fun hmax => ?_
      have hmaxNat : lo.toNat = 2 ^ 64 - 1 := by
        rw [show lo = uintptrMax from hmax]
        rfl
      have := hi.toNat_lt
      omega
    obtain ⟨last, hlast, hlastOf, hlastStop⟩ : ∃ e ∈ entries maps, e.isOf m.path m.base = true ∧ e.stop = hi := by
      refine hspan.last.resolve_left fun hzero => ?_
      have hzeroNat : hi.toNat = 0 := by
        rw [show hi = 0 from hzero]
        rfl
      omega
    refine ⟨first, hfirst, last, hlast, hfirstOf, hlastOf, fun e he hof => ?_, ?_⟩
    · rw [hfirstStart, hlastStop]
      exact hspan.bounds e he hof
    · rw [hfirstStart, hlastStop]
      omega
  · rintro ⟨first, hfirst, last, hlast, hfirstOf, hlastOf, hall, hlt⟩
    -- the ends of the span are these two
    have hlow : lo = first.start := by
      rcases hspan.first with hmax | ⟨e, he, hof, hstart⟩
      · refine UInt64.le_antisymm (hspan.bounds first hfirst hfirstOf).1 ?_
        rw [show lo = uintptrMax from hmax, UInt64.le_iff_toNat_le]
        have := first.start.toNat_lt
        have hmaxNat : uintptrMax.toNat = 2 ^ 64 - 1 := rfl
        omega
      · refine UInt64.le_antisymm (hspan.bounds first hfirst hfirstOf).1 ?_
        have hle := (hall e he hof).1
        rwa [hstart] at hle
    have hhigh : hi = last.stop := by
      rcases hspan.last with hzero | ⟨e, he, hof, hstop⟩
      · refine UInt64.le_antisymm ?_ (hspan.bounds last hlast hlastOf).2
        rw [show hi = 0 from hzero, UInt64.le_iff_toNat_le]
        exact Nat.zero_le _
      · refine UInt64.le_antisymm ?_ (hspan.bounds last hlast hlastOf).2
        have hle := (hall e he hof).2
        rwa [hstop] at hle
    rw [hlow, hhigh]
    have hlohi : first.start < last.stop := by
      rw [UInt64.lt_iff_toNat_lt]
      omega
    rw [if_pos hlohi, UInt64.toNat_sub_of_le _ _ (UInt64.le_of_lt hlohi)]
    rw [UInt64.lt_iff_toNat_lt] at hlohi
    omega

/-! ## The search -/

variable {mm : MemoryMap} {xdl dl : List Loaded} (all : Enumerated xdl (some mm.text) dl) (addr : UInt64)

theorem findModuleByAddress_eq_some_iff {modules : List LoadedModuleInfo} {maps : Text} {o : ModuleObject} :
    findModuleByAddress modules (some maps) addr = some o ↔
      0x1000 ≤ addr ∧ hitPath maps addr ≠ [] ∧ ∃ front m rest, modules = front ++ m :: rest ∧
        isFound (hitPath maps addr) m = true ∧ (∀ other ∈ front, isFound (hitPath maps addr) other = false) ∧
        o = makeModuleObject (some maps) m := by
  unfold findModuleByAddress findLoadedModule
  by_cases haddr : addr < 0x1000
  · rw [if_pos haddr]
    exact ⟨nofun, fun h => absurd haddr (UInt64.not_lt.mpr h.1)⟩
  · rw [if_neg haddr]
    dsimp only
    by_cases hhit : hitPath maps addr = []
    · rw [if_pos hhit]
      exact ⟨nofun, fun h => absurd hhit h.2.1⟩
    · rw [if_neg hhit]
      constructor
      · intro h
        obtain ⟨m, hm, rfl⟩ := Option.map_eq_some_iff.mp h
        obtain ⟨hfound, front, rest, hsplit, hfront⟩ := List.find?_eq_some_iff_append.mp hm
        exact ⟨UInt64.not_lt.mp haddr, hhit, front, m, rest, hsplit, hfound, by simpa using hfront, rfl⟩
      · rintro ⟨-, -, front, m, rest, hsplit, hfound, hfront, rfl⟩
        refine Option.map_eq_some_iff.mpr ⟨m, List.find?_eq_some_iff_append.mpr ⟨hfound, front, rest, hsplit, ?_⟩, rfl⟩
        simpa using hfront

theorem exists_first_found {modules : List LoadedModuleInfo} {query : Text}
    (h : ∃ m ∈ modules, isFound query m = true) : ∃ front m rest, modules = front ++ m :: rest ∧
      isFound query m = true ∧ ∀ other ∈ front, isFound query other = false := by
  obtain ⟨m, hm⟩ := Option.isSome_iff_exists.mp (List.find?_isSome.mpr h)
  obtain ⟨hfound, front, rest, hsplit, hfront⟩ := List.find?_eq_some_iff_append.mp hm
  exact ⟨front, m, rest, hsplit, hfound, by simpa using hfront⟩

include all in
/-- Where an address is attributed to the module that contains it, the text of its mapping is uncontested. -/
theorem uncontested_of_attributed
    (h : Attributed mm all.modules addr (findModuleByAddress all.modules (some mm.text) addr)) :
    Uncontested mm all.modules addr := by
  refine ⟨fun r hr hin front m rest hsplit hfile => ?_, fun hnone haddr hhit m hm => ?_⟩
  · have hmem : m ∈ all.modules := by rw [hsplit]; simp
    obtain ⟨o, hfound, hpath, hcovers⟩ := h.own r hr hin m hmem hfile
    obtain ⟨haddr, hhit, front', m', rest', hsplit', hmatch, hfront, rfl⟩ :=
      (findModuleByAddress_eq_some_iff addr).mp hfound
    -- the module that is found is the one of the path, and it is in the list once
    obtain rfl : m' = m := all.path_inj (by rw [hsplit']; simp) hmem hpath
    obtain rfl : front = front' := (all.split_inj hsplit hsplit').1
    exact ⟨haddr, hhit, hmatch, hfront, (covers_iff mm.text m' addr).mp hcovers⟩
  · by_contra hmatch
    rw [Bool.not_eq_false] at hmatch
    obtain ⟨front, first, rest, hsplit, hfirst, hfront⟩ := exists_first_found ⟨m, hm, hmatch⟩
    have hfound := (findModuleByAddress_eq_some_iff addr).mpr
      ⟨haddr, hhit, front, first, rest, hsplit, hfirst, hfront, rfl⟩
    obtain ⟨r, hr, hin, hfile⟩ := h.foreign _ hfound
    exact hnone r hr hin first (by rw [hsplit]; simp) hfile

include all in
/-- An address is attributed to the module that contains it exactly where the text of its mapping is uncontested. -/
theorem findModuleByAddress_attributed_iff :
    Attributed mm all.modules addr (findModuleByAddress all.modules (some mm.text) addr) ↔
      Uncontested mm all.modules addr := by
  constructor
  · exact uncontested_of_attributed all addr
  · intro h
    refine ⟨fun r hr hin m hm hfile => ?_, fun o hfound => ?_⟩
    · obtain ⟨front, rest, hsplit⟩ := List.append_of_mem hm
      obtain ⟨haddr, hhit, hmatch, hfront, hspan⟩ := h.own r hr hin front m rest hsplit hfile
      refine ⟨makeModuleObject (some mm.text) m, ?_, rfl, (covers_iff mm.text m addr).mpr hspan⟩
      exact (findModuleByAddress_eq_some_iff addr).mpr ⟨haddr, hhit, front, m, rest, hsplit, hmatch, hfront, rfl⟩
    · obtain ⟨haddr, hhit, front, m, rest, hsplit, hmatch, hfront, rfl⟩ :=
        (findModuleByAddress_eq_some_iff addr).mp hfound
      by_contra hno
      have hnone : ∀ r ∈ mm.regions, r.Contains addr → ∀ m ∈ all.modules, r.file ≠ some m.path := by
        intro r hr hin own hown hfile
        obtain ⟨front', rest', hsplit'⟩ := List.append_of_mem hown
        obtain ⟨-, -, hmatch', hfront', -⟩ := h.own r hr hin front' own rest' hsplit' hfile
        -- both come first among those that match
        have hfirst : all.modules.find? (isFound (hitPath mm.text addr)) = some m :=
          List.find?_eq_some_iff_append.mpr ⟨hmatch, front, rest, hsplit, by simpa using hfront⟩
        have hfirst' : all.modules.find? (isFound (hitPath mm.text addr)) = some own :=
          List.find?_eq_some_iff_append.mpr ⟨hmatch', front', rest', hsplit', by simpa using hfront'⟩
        obtain rfl : m = own := Option.some.inj (hfirst.symm.trans hfirst')
        exact hno ⟨r, hr, hin, hfile⟩
      have hfalse := h.foreign hnone haddr hhit m (by rw [hsplit]; simp)
      exact Bool.false_ne_true (hfalse.symm.trans hmatch)

/-! ## Two names that differ in case -/

def upperPath : Text := chars "/data/app/a/libX.so"
def lowerPath : Text := chars "/data/app/a/libx.so"

def columns : Text := chars " r-xp 00000000 fd:05 17 "

def twoLibraries : MemoryMap where
  regions := [⟨0x7000000000, 0x7000001000, columns, upperPath⟩, ⟨0x7100000000, 0x7100001000, columns, lowerPath⟩]
  plain := by
    intro r hr
    rcases List.mem_pair.mp hr with rfl | rfl
    · exact ⟨by decide, by decide, by decide⟩
    · exact ⟨by decide, by decide, by decide⟩
  ordered := by decide

def upperModule : LoadedModuleInfo := ⟨chars "libX.so", upperPath, 0x7000000000⟩
def lowerModule : LoadedModuleInfo := ⟨chars "libx.so", lowerPath, 0x7100000000⟩

/-- The linker's list has both. -/
def twoEnumerated :
    Enumerated [⟨upperPath, 0x7000000000⟩, ⟨lowerPath, 0x7100000000⟩] (some twoLibraries.text) [] where
  modules := [upperModule, lowerModule]
  perm := by
    have hcollect : (offered [⟨upperPath, 0x7000000000⟩, ⟨lowerPath, 0x7100000000⟩] (some twoLibraries.text)
        []).foldl record [] = [upperModule, lowerModule] := by
      decide
    rw [hcollect]
  sorted := by decide

/-- For an address in one the other is returned. -/
theorem not_findModuleByAddress_attributed :
    ¬ ∀ (mm : MemoryMap) (xdl dl : List Loaded) (all : Enumerated xdl (some mm.text) dl) (addr : UInt64),
      Attributed mm all.modules addr (findModuleByAddress all.modules (some mm.text) addr) := by
  intro h
  have huncontested := uncontested_of_attributed twoEnumerated 0x7100000010
    (h twoLibraries _ _ twoEnumerated 0x7100000010)
  obtain ⟨-, -, -, hfront, -⟩ := huncontested.own ⟨0x7100000000, 0x7100001000, columns, lowerPath⟩
    (List.mem_cons_of_mem _ List.mem_cons_self) (by decide) [upperModule] lowerModule [] rfl (by decide)
  have hhit : hitPath twoLibraries.text 0x7100000010 = lowerPath := by decide
  have hno := hfront upperModule List.mem_cons_self
  rw [hhit, ← Bool.not_eq_true, isFound_ordinary ⟨by decide, List.all_iff_forall_prop.mp (by decide)⟩ (by decide)
    (by decide)] at hno
  exact hno (.inl (by decide))

end ArtPi.Agent.LoadedModules
