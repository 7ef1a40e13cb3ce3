import ArtPi.Agent.Wildcard
import ArtPi.Lib.Firsts
import ArtPi.Lib.ProcMaps
import ArtPi.Lib.Segments
import Mathlib.Data.List.DropRight
import Mathlib.Data.List.Infix

set_option autoImplicit false

/-! # The loaded modules (`src/agent/agent_native.cpp`)

`EnumerateAllLoadedModules` puts together what the linker's lists and `/proc/self/maps` name, one module a path, and
sorts it. The base of a module is the bias that a list has for it, or the start of a mapping where the listing of the
memory has the path first. -/

namespace ArtPi.Agent.LoadedModules

open Lib Lib.Listing Lib.ProcMaps Lib.Glob
open Wildcard (chars matchWildcard matchWildcard_iff_plain wildcards tolower)

/-- `LoadedModuleInfo` -/
structure LoadedModuleInfo where
  name : Text
  path : Text
  base : UInt64
  deriving DecidableEq

/-- `dlpi_name` and `dlpi_addr`, or a path of the listing and the start of its mapping. -/
structure Loaded where
  pathStr : Text
  base : UInt64
  deriving DecidableEq

/-! ## Enumeration -/

/-- The characters that are taken off the end of a path. -/
def isTail (b : UInt8) : Bool := b = newline || b = 0x0d || b = 0x20

def trimEnd (path : Text) : Text := path.rdropWhile isTail

/-- What is behind the last of these characters. -/
def behindLast (sep : UInt8) (s : Text) : Text :=
  match splitLast sep s with
  | some (_, back) => back
  | none => s

def exclam : UInt8 := 0x21

def nameOf (path : Text) : Text := behindLast slash (behindLast exclam (behindLast slash path))

/-- `record`; the paths seen are those of the modules. -/
def record (modules : List LoadedModuleInfo) (l : Loaded) : List LoadedModuleInfo :=
  if l.pathStr = [] then modules
  else if chars "libartpi_agent.so" <:+: l.pathStr then modules
  else if (modules.map LoadedModuleInfo.path).any (· = trimEnd l.pathStr) = true then modules
  else modules ++ [⟨nameOf (trimEnd l.pathStr), trimEnd l.pathStr, l.base⟩]

/-- `%lx-%lx %4s %lx %*x:%*x %*d %511s`: the start and the path. -/
def scanMapsLine (line : Text) : Option Loaded := do
  let ((start, _), rest) ← scanRange line
  let (_, rest) ← scanWord 4 rest
  let (_, rest) ← scanHex rest
  let (_, rest) ← scanHex rest
  let rest ← if rest.head? = some 0x3a then some rest.tail else none
  let (_, rest) ← scanHex rest
  let inode ← Numerals.read 10 rest
  let (path, _) ← scanWord 511 inode.rest
  some ⟨path, start⟩

/-- A line of the listing that is recorded. -/
def readMapsLine (line : Text) : Option Loaded :=
  match scanMapsLine line with
  | none => none
  | some l => if l.pathStr.head? = some slash ∧ chars ".so" <:+: l.pathStr then some l else none

/-- What is recorded; `maps` is `none` where the listing cannot be opened. -/
def offered (xdl : List Loaded) (maps : Option Text) (dl : List Loaded) : List Loaded :=
  xdl ++ ((maps.map (fgets 1023)).getD []).filterMap readMapsLine ++ dl

def isApp (m : LoadedModuleInfo) : Bool :=
  ["/data/app/", "/data/data/", "/data/user/"].any (fun dir => chars dir <+: m.path) ||
    ["/system/", "/apex/", "/vendor/", "/product/", "/system_ext/"].all (fun dir => !(chars dir <+: m.path))

/-- The comparison that the modules are sorted with. -/
def before (a b : LoadedModuleInfo) : Bool :=
  if isApp a ≠ isApp b then isApp a else a.name < b.name

/-- What `EnumerateAllLoadedModules` may return: `std::sort` leaves the order of equal modules open. -/
structure Enumerated (xdl : List Loaded) (maps : Option Text) (dl : List Loaded) where
  modules : List LoadedModuleInfo
  perm : modules.Perm ((offered xdl maps dl).foldl record [])
  sorted : modules.Pairwise fun a b => before b a = false

/-! ## Queries -/

def dotSo : Text := chars ".so"

/-- The text is the query with the extension behind it. -/
def isStem (s query : Text) : Bool := s.length > 3 && dotSo <:+ s && s.take (s.length - 3) = query

def moduleNameMatchesSingle (modField query : Text) : Bool :=
  if query = [] ∨ query = chars "*" then true
  else
    let base := behindLast slash modField
    modField = query || base = query || isStem modField query || isStem base query || matchWildcard base query ||
      matchWildcard modField query

def bar : UInt8 := 0x7c

def moduleNameMatches (modField query : Text) : Bool :=
  if query = [] ∨ query = chars "*" then true
  else (query.splitOn bar).any fun sub => sub ≠ [] && moduleNameMatchesSingle modField sub

/-- The module is what is looked for. -/
def isFound (query : Text) (m : LoadedModuleInfo) : Bool :=
  moduleNameMatches m.name query || moduleNameMatches m.path query

def findLoadedModule (modules : List LoadedModuleInfo) (query : Text) : Option LoadedModuleInfo :=
  modules.find? (isFound query)

/-! ## Texts without special characters -/

/-- No character of the query is special. -/
def Ordinary (query : Text) : Prop := query ≠ [] ∧ ∀ b ∈ query, b ≠ wildcards.star ∧ b ≠ wildcards.one ∧ b ≠ bar

/-- The texts differ in the case of letters only. -/
def SameText (s query : Text) : Prop := s.map tolower = query.map tolower

instance (s query : Text) : Decidable (SameText s query) := inferInstanceAs (Decidable (_ = _))

theorem plain_iff_sameText {query : Text} (h : ∀ b ∈ query, b ≠ wildcards.star ∧ b ≠ wildcards.one ∧ b ≠ bar)
    (s : Text) : Plain wildcards query s ↔ SameText s query := by
  unfold SameText
  induction query generalizing s with
  | nil =>
    rw [plain_nil_left]
    simp
  | cons q query ih =>
    obtain ⟨⟨hstar, hone, hbar⟩, hrest⟩ := List.forall_mem_cons.mp h
    cases s with
    | nil =>
      rw [plain_nil_right]
      exact iff_of_false (fun hall => hstar (hall q List.mem_cons_self)) (by simp)
    | cons c s =>
      have htakes : wildcards.Takes q c ↔ tolower c = tolower q := by
        unfold Letters.Takes
        rw [or_iff_right hone]
        simp only [wildcards, decide_eq_true_eq]
        exact eq_comm
      rw [plain_char hstar, htakes, ih hrest, List.map_cons, List.map_cons, List.cons.injEq]

theorem Ordinary.ne_star {query : Text} (h : Ordinary query) : query ≠ chars "*" := by
  rintro rfl
  exact (h.2 wildcards.star (by decide)).1 rfl

theorem isStem_iff {s query : Text} (h : query ≠ []) : isStem s query = true ↔ s = query ++ dotSo := by
  unfold isStem
  simp only [Bool.and_eq_true, decide_eq_true_eq]
  constructor
  · rintro ⟨⟨hlen, front, rfl⟩, rfl⟩
    have hdot : dotSo.length = 3 := by decide
    rw [List.length_append, hdot, Nat.add_sub_cancel, List.take_left]
  · rintro rfl
    have hdot : dotSo.length = 3 := by decide
    have hpos := List.length_pos_iff.mpr h
    rw [List.length_append, hdot, Nat.add_sub_cancel, List.take_left]
    exact ⟨⟨by omega, query, rfl⟩, rfl⟩

/-- Where a query has no special character, a module is found by its name or its path, up to case, or by one of them
without its extension. -/
theorem moduleNameMatches_ordinary {query : Text} (h : Ordinary query) (modField : Text) :
    moduleNameMatches modField query = true ↔
      SameText (behindLast slash modField) query ∨ SameText modField query ∨
        behindLast slash modField = query ++ dotSo ∨ modField = query ++ dotSo := by
  have hsplit : query.splitOn bar = [query] := List.splitOn_eq_singleton fun hmem => (h.2 bar hmem).2.2 rfl
  have hsame {s : Text} (hs : s = query) : SameText s query := by rw [hs]; exact Eq.refl _
  unfold moduleNameMatches moduleNameMatchesSingle
  rw [if_neg (not_or.mpr ⟨h.1, h.ne_star⟩), hsplit]
  simp only [List.any_cons, List.any_nil, Bool.or_false, Bool.and_eq_true, decide_eq_true_eq,
    if_neg (not_or.mpr ⟨h.1, h.ne_star⟩), Bool.or_eq_true, isStem_iff h.1, matchWildcard_iff_plain,
    plain_iff_sameText h.2]
  constructor
  · rintro ⟨-, ((((hs | hs) | hs) | hs) | hs) | hs⟩
    · exact .inr (.inl (hsame hs))
    · exact .inl (hsame hs)
    · exact .inr (.inr (.inr hs))
    · exact .inr (.inr (.inl hs))
    · exact .inl hs
    · exact .inr (.inl hs)
  · rintro (hs | hs | hs | hs)
    · exact ⟨h.1, .inl (.inr hs)⟩
    · exact ⟨h.1, .inr hs⟩
    · exact ⟨h.1, .inl (.inl (.inr hs))⟩
    · exact ⟨h.1, .inl (.inl (.inl (.inr hs)))⟩

theorem slash_notMem_behindLast (s : Text) : slash ∉ behindLast slash s := by
  unfold behindLast
  by_cases hmem : slash ∈ s
  · obtain ⟨front, back, hback, -, hsplit⟩ := exists_splitLast hmem
    rw [hsplit]
    exact hback
  · rw [splitLast_none hmem]
    exact hmem

set_option maxRecDepth 8192 in
theorem tolower_eq_slash {b : UInt8} : tolower b = slash ↔ b = slash := by
  have hall : ∀ n : Fin 256, tolower (UInt8.ofNat n) = slash ↔ UInt8.ofNat n = slash := by decide
  have h := hall ⟨b.toNat, b.toNat_lt⟩
  rwa [UInt8.ofNat_toNat] at h

theorem not_sameText_of_slash {name query : Text} (hname : slash ∉ name) (hquery : slash ∈ query) :
    ¬ SameText name query := by
  intro h
  have hmem : slash ∈ name.map tolower := by
    rw [show name.map tolower = query.map tolower from h]
    exact List.mem_map.mpr ⟨slash, hquery, by decide⟩
  obtain ⟨b, hb, heq⟩ := List.mem_map.mp hmem
  rw [tolower_eq_slash.mp heq] at hb
  exact hname hb

/-- A path without special characters finds the modules with that path up to case, and that with the extension behind
it. -/
theorem isFound_ordinary {query : Text} (h : Ordinary query) (hslash : slash ∈ query) {m : LoadedModuleInfo}
    (hname : m.name = nameOf m.path) :
    isFound query m = true ↔ SameText m.path query ∨ m.path = query ++ dotSo := by
  have hno : slash ∉ m.name := by
    rw [hname]
    exact slash_notMem_behindLast _
  have hbase (s : Text) : ¬ SameText (behindLast slash s) query ∧ behindLast slash s ≠ query ++ dotSo := by
    have hs := slash_notMem_behindLast s
    refine ⟨not_sameText_of_slash hs hslash, fun heq => ?_⟩
    rw [heq, List.mem_append, not_or] at hs
    exact hs.1 hslash
  have hfull : ¬ SameText m.name query ∧ m.name ≠ query ++ dotSo := by
    refine ⟨not_sameText_of_slash hno hslash, fun heq => ?_⟩
    rw [heq, List.mem_append, not_or] at hno
    exact hno.1 hslash
  unfold isFound
  rw [Bool.or_eq_true, moduleNameMatches_ordinary h, moduleNameMatches_ordinary h]
  simp only [(hbase _).1, (hbase _).2, hfull.1, hfull.2, false_or, or_false]

/-! ## Paths and bases -/

/-- The entry is not passed over. -/
def Recorded (l : Loaded) : Prop := l.pathStr ≠ [] ∧ ¬ chars "libartpi_agent.so" <:+: l.pathStr

instance (l : Loaded) : Decidable (Recorded l) := instDecidableAnd

def Loaded.path (l : Loaded) : Text := trimEnd l.pathStr

def Loaded.toModule (l : Loaded) : LoadedModuleInfo := ⟨nameOf l.path, l.path, l.base⟩

theorem foldl_record (entries : List Loaded) :
    entries.foldl record [] = (firsts Loaded.path (entries.filter Recorded)).map Loaded.toModule := by
  induction entries using List.reverseRecOn with
  | nil => rfl
  | append_singleton entries l ih =>
    have hpaths (ls : List Loaded) : (ls.map Loaded.toModule).map LoadedModuleInfo.path = ls.map Loaded.path := by
      rw [List.map_map]
      rfl
    rw [List.foldl_append, List.foldl_cons, List.foldl_nil, ih, List.filter_append, List.filter_cons, List.filter_nil]
    unfold record
    rw [hpaths]
    by_cases hempty : l.pathStr = []
    · have hno : ¬ decide (Recorded l) = true := by simp [Recorded, hempty]
      rw [if_pos hempty, if_neg hno, List.append_nil]
    · by_cases hagent : chars "libartpi_agent.so" <:+: l.pathStr
      · have hno : ¬ decide (Recorded l) = true := by simp [Recorded, hagent]
        rw [if_neg hempty, if_pos hagent, if_neg hno, List.append_nil]
      · have hyes : decide (Recorded l) = true := decide_eq_true ⟨hempty, hagent⟩
        rw [if_neg hempty, if_neg hagent, if_pos hyes, firsts_concat]
        unfold addFirst
        have hany : ((firsts Loaded.path (entries.filter Recorded)).map Loaded.path).any (· = trimEnd l.pathStr) = true ↔
            l.path ∈ (firsts Loaded.path (entries.filter Recorded)).map Loaded.path := by
          rw [List.any_eq_true]
          simp [Loaded.path]
        by_cases hseen : l.path ∈ (firsts Loaded.path (entries.filter Recorded)).map Loaded.path
        · rw [if_pos hseen]
          exact if_pos (hany.mpr hseen)
        · rw [if_neg hseen, List.map_append]
          exact if_neg (mt hany.mp hseen)

variable {xdl dl : List Loaded} {maps : Option Text} (all : Enumerated xdl maps dl)

theorem Enumerated.paths_nodup : (all.modules.map LoadedModuleInfo.path).Nodup := by
  have hnodup := firsts_nodup Loaded.path ((offered xdl maps dl).filter Recorded)
  rw [(all.perm.map LoadedModuleInfo.path).nodup_iff, foldl_record, List.map_map]
  exact hnodup

theorem Enumerated.path_inj {m m' : LoadedModuleInfo} (hm : m ∈ all.modules) (hm' : m' ∈ all.modules)
    (h : m.path = m'.path) : m = m' :=
  List.inj_on_of_nodup_map all.paths_nodup hm hm' h

theorem Enumerated.split_inj {m : LoadedModuleInfo} {front front' rest rest' : List LoadedModuleInfo}
    (h : all.modules = front ++ m :: rest) (h' : all.modules = front' ++ m :: rest') :
    front = front' ∧ rest = rest' := by
  have hnodup : all.modules.Nodup := all.paths_nodup.of_map
  have hfront {front rest : List LoadedModuleInfo} (hsplit : all.modules = front ++ m :: rest) : m ∉ front := by
    rw [hsplit] at hnodup
    exact fun hm => (List.nodup_append.mp hnodup).2.2 m hm m List.mem_cons_self rfl
  exact append_sep_inj (hfront h) (hfront h') (h.symm.trans h')

end ArtPi.Agent.LoadedModules
