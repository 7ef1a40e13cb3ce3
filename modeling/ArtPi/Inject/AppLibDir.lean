import ArtPi.Lib.ProcMaps
import ArtPi.Lib.Segments
import Mathlib.Data.List.Infix

set_option autoImplicit false

/-! # The directory of the target's package (`cli/injector/main.cpp`, `cli/injector/elf_util.cpp`)

`FindAppLibDir` goes through the mappings of the target for an apk under `/data/app`. The package is looked for as a
piece of the path, behind a slash or in front of a hyphen or a slash, and a second pass takes any apk. -/

namespace ArtPi.Inject.AppLibDir

open Lib Lib.Listing Lib.ProcMaps

/-! ## Mappings -/

structure Mapping where
  start : UInt64
  stop : UInt64
  path : Text
  deriving DecidableEq

def kSuffix : Text := deletedMark

/-- `StripDeletedSuffix` -/
def stripDeletedSuffix (path : Text) : Text :=
  if kSuffix <:+ path then path.take (path.length - kSuffix.length) else path

/-- The character ends what `strcspn(p, "\r\n")` counts. -/
def endsPath (b : UInt8) : Bool := b = 0x0d || b = newline

/-- One line of the file, which has no zero bytes. -/
def readMapping (line : Text) : Option Mapping :=
  match scanRange line with
  | none => none
  | some ((start, stop), _) =>
    if slash ∈ line then
      let p := (line.dropWhile (· ≠ slash)).takeWhile (!endsPath ·)
      some ⟨start, stop, stripDeletedSuffix p⟩
    else none

/-- `GetMappings`, of the text of `/proc/<pid>/maps`. -/
def getMappings (maps : Text) : List Mapping := (fgets 1023 maps).filterMap readMapping

/-! ## The search -/

/-- The lambda `accepts`. -/
def accepts (p : Text) (pkg : Option Text) : Bool :=
  ascii "/data/app/" <+: p && ascii ".apk" <:+ p &&
    match pkg with
    | some name => name = [] || slash :: name <:+: p || name ++ [hyphen] <:+: p || name ++ [slash] <:+: p
    | none => true

/-- `outLibDir` and `outApkPath`. -/
structure Dirs where
  libDir : Text
  apkPath : Text
  deriving DecidableEq

/-- The loop of one pass. -/
def findApk (maps : List Mapping) (pkg : Option Text) : Option Dirs :=
  maps.findSome? fun mp =>
    if accepts mp.path pkg then
      (splitLast slash mp.path).map fun (dir, _) => ⟨dir ++ ascii "/lib/arm64", mp.path⟩
    else none

/-- `FindAppLibDir`; `maps` is `none` where the listing cannot be opened. -/
def findAppLibDir (maps : Option Text) (pkgName : Text) : Option Dirs :=
  match maps with
  | none => none
  | some maps =>
    ((if pkgName = [] then none else findApk (getMappings maps) (some pkgName)).orElse
      fun _ => findApk (getMappings maps) none)

/-! ## Packages -/

/-- An apk below `/data/app`. -/
def IsApk (p : Text) : Prop := ascii "/data/app/" <+: p ∧ ascii ".apk" <:+ p

instance (p : Text) : Decidable (IsApk p) := instDecidableAnd

/-- The directory below `/data/app` that the file lies in has this name. -/
def InstalledIn (p name : Text) : Prop :=
  slash ∉ name ∧ ∃ above file, slash ∉ file ∧ (above = [] ∨ [slash] <:+ above) ∧
    p = ascii "/data/app/" ++ (above ++ (name ++ slash :: file))

/-- The install directory of the apk is that of the package. -/
def BelongsTo (p pkg : Text) : Prop :=
  IsApk p ∧ ∃ name, InstalledIn p name ∧ (name = pkg ∨ pkg ++ [hyphen] <+: name)

/-- The apk and the library directory of the package where an apk of it is mapped, and no apk of another package where
    none is. -/
structure Right (maps : List Mapping) (pkg : Text) (found : Option Dirs) : Prop where
  own : (∃ mp ∈ maps, BelongsTo mp.path pkg) → ∃ mp ∈ maps, BelongsTo mp.path pkg ∧
    ∃ dir file, slash ∉ file ∧ mp.path = dir ++ slash :: file ∧ found = some ⟨dir ++ ascii "/lib/arm64", mp.path⟩
  foreign : (¬ ∃ mp ∈ maps, BelongsTo mp.path pkg) →
    ∀ dirs, found = some dirs → ¬ (IsApk dirs.apkPath ∧ ¬ BelongsTo dirs.apkPath pkg)

/-- No apk of another package comes first: in front of the first apk of the package none with its name in the path, and
    none at all where no apk of the package is mapped. -/
structure OwnFirst (maps : List Mapping) (pkg : Text) : Prop where
  own : ∀ pre mp post, maps = pre ++ mp :: post → BelongsTo mp.path pkg →
    (∀ other ∈ pre, ¬ BelongsTo other.path pkg) → ∀ other ∈ pre, accepts other.path (some pkg) = false
  foreign : (¬ ∃ mp ∈ maps, BelongsTo mp.path pkg) → ∀ mp ∈ maps, ¬ IsApk mp.path

/-! ## One path -/

theorem accepts_none_iff (p : Text) : accepts p none = true ↔ IsApk p := by
  simp [accepts, IsApk]

theorem isApk_of_accepts {p : Text} {pkg : Option Text} (h : accepts p pkg = true) : IsApk p := by
  unfold accepts at h
  rw [Bool.and_eq_true, Bool.and_eq_true, decide_eq_true_iff, decide_eq_true_iff] at h
  exact h.1

/-- The name of the package stands behind a slash in the path of its apk, and in front of a slash or a hyphen. -/
theorem infix_of_belongsTo {p pkg : Text} (h : BelongsTo p pkg) :
    slash :: (pkg ++ [slash]) <:+: p ∨ slash :: (pkg ++ [hyphen]) <:+: p := by
  obtain ⟨-, name, ⟨-, above, file, -, habove, hp⟩, hname⟩ := h
  -- the directory above ends in a slash
  obtain ⟨front, hfront⟩ : ∃ front, ascii "/data/app/" ++ above = front ++ [slash] := by
    rcases habove with rfl | ⟨front, rfl⟩
    · exact ⟨ascii "/data/app", by decide⟩
    · exact ⟨ascii "/data/app/" ++ front, by rw [List.append_assoc]⟩
  have hpath : p = front ++ (slash :: (name ++ [slash]) ++ file) := by
    rw [hp, ← List.append_assoc, hfront]
    simp
  rcases hname with rfl | ⟨rest, rfl⟩
  · exact .inl ⟨front, file, by rw [hpath, List.append_assoc]⟩
  · exact .inr ⟨front, rest ++ slash :: file, by rw [hpath]; simp⟩

theorem accepts_of_belongsTo {p pkg : Text} (h : BelongsTo p pkg) : accepts p (some pkg) = true := by
  have hbehind : slash :: pkg <:+: p := by
    have hstart (b : UInt8) : slash :: pkg <:+: slash :: (pkg ++ [b]) := ⟨[], [b], by simp⟩
    rcases infix_of_belongsTo h with h | h
    · exact (hstart slash).trans h
    · exact (hstart hyphen).trans h
  unfold accepts
  simp [h.1.1, h.1.2, hbehind]

/-- The directories of an apk, as the loop returns them. -/
def dirsOf (p : Text) : Option Dirs := (splitLast slash p).map fun (dir, _) => ⟨dir ++ ascii "/lib/arm64", p⟩

theorem dirsOf_of_isApk {p : Text} (h : IsApk p) : ∃ dir file, slash ∉ file ∧ p = dir ++ slash :: file ∧
    dirsOf p = some ⟨dir ++ ascii "/lib/arm64", p⟩ := by
  obtain ⟨dir, file, hfile, hp, hsplit⟩ := exists_splitLast (h.1.subset (show slash ∈ ascii "/data/app/" by decide))
  exact ⟨dir, file, hfile, hp, by rw [dirsOf, hsplit, Option.map_some]⟩

/-! ## The passes -/

/-- The first mapping that a pass accepts. -/
def firstAccepted (maps : List Mapping) (pkg : Option Text) : Option Mapping :=
  maps.find? fun mp => accepts mp.path pkg

theorem firstAccepted_some {maps : List Mapping} {pkg : Option Text} {mp : Mapping}
    (h : firstAccepted maps pkg = some mp) : mp ∈ maps ∧ accepts mp.path pkg = true :=
  ⟨List.mem_of_find?_eq_some h, List.find?_some (p := fun mp : Mapping => accepts mp.path pkg) h⟩

theorem firstAccepted_none {maps : List Mapping} {pkg : Option Text} :
    firstAccepted maps pkg = none ↔ ∀ mp ∈ maps, accepts mp.path pkg = false := by
  simp [firstAccepted]

theorem firstAccepted_append (pre post : List Mapping) (pkg : Option Text) :
    firstAccepted (pre ++ post) pkg = (firstAccepted pre pkg).or (firstAccepted post pkg) := List.find?_append

theorem findApk_eq (maps : List Mapping) (pkg : Option Text) :
    findApk maps pkg = (firstAccepted maps pkg).bind fun mp => dirsOf mp.path := by
  induction maps with
  | nil => rfl
  | cons mp maps ih =>
    unfold findApk firstAccepted at ih ⊢
    rw [List.findSome?_cons, List.find?_cons]
    cases hmp : accepts mp.path pkg with
    | false => rw [if_neg Bool.false_ne_true, ih]
    | true =>
      obtain ⟨dir, file, -, -, hdirs⟩ := dirsOf_of_isApk (isApk_of_accepts hmp)
      have hloop : ((splitLast slash mp.path).map fun (dir, _) => Dirs.mk (dir ++ ascii "/lib/arm64") mp.path) =
          dirsOf mp.path := rfl
      rw [if_pos rfl, hloop, Option.bind_some, hdirs]

theorem findApk_some {maps : List Mapping} {pkg : Option Text} {mp : Mapping} (h : firstAccepted maps pkg = some mp) :
    ∃ dir file, slash ∉ file ∧ mp.path = dir ++ slash :: file ∧
      findApk maps pkg = some ⟨dir ++ ascii "/lib/arm64", mp.path⟩ := by
  obtain ⟨dir, file, hfile, hpath, hdirs⟩ := dirsOf_of_isApk (isApk_of_accepts (firstAccepted_some h).2)
  exact ⟨dir, file, hfile, hpath, by rw [findApk_eq, h, Option.bind_some, hdirs]⟩

theorem findApk_eq_none_iff {maps : List Mapping} {pkg : Option Text} :
    findApk maps pkg = none ↔ ∀ mp ∈ maps, accepts mp.path pkg = false := by
  rw [← firstAccepted_none]
  constructor
  · intro h
    refine Option.eq_none_iff_forall_ne_some.mpr fun mp hmp => ?_
    obtain ⟨dir, file, -, -, hfound⟩ := findApk_some hmp
    rw [h] at hfound
    cases hfound
  · intro h
    rw [findApk_eq, h, Option.bind_none]

theorem exists_of_findApk {maps : List Mapping} {pkg : Option Text} {dirs : Dirs}
    (h : findApk maps pkg = some dirs) : ∃ mp ∈ maps, IsApk mp.path ∧ dirs.apkPath = mp.path := by
  cases hfirst : firstAccepted maps pkg with
  | none =>
    rw [findApk_eq, hfirst] at h
    cases h
  | some mp =>
    obtain ⟨dir, file, -, -, hfound⟩ := findApk_some hfirst
    obtain ⟨hmem, hacc⟩ := firstAccepted_some hfirst
    rw [h, Option.some.injEq] at hfound
    exact ⟨mp, hmem, isApk_of_accepts hacc, by rw [hfound]⟩

variable {maps : Text} {pkg : Text}

theorem findAppLibDir_eq (hpkg : pkg ≠ []) :
    findAppLibDir (some maps) pkg =
      (findApk (getMappings maps) (some pkg)).orElse fun _ => findApk (getMappings maps) none := by
  unfold findAppLibDir
  dsimp only
  rw [if_neg hpkg]

theorem exists_first_own {maps : List Mapping} (h : ∃ mp ∈ maps, BelongsTo mp.path pkg) :
    ∃ pre mp post, maps = pre ++ mp :: post ∧ BelongsTo mp.path pkg ∧ ∀ other ∈ pre, ¬ BelongsTo other.path pkg := by
  induction maps with
  | nil => simp at h
  | cons mp maps ih =>
    by_cases hmp : BelongsTo mp.path pkg
    · exact ⟨[], mp, maps, rfl, hmp, by simp⟩
    · rw [List.exists_mem_cons_iff] at h
      obtain ⟨pre, own, post, rfl, hown, hpre⟩ := ih (h.resolve_left hmp)
      exact ⟨mp :: pre, own, post, rfl, hown, List.forall_mem_cons.mpr ⟨hmp, hpre⟩⟩

/-- Where an apk of the package is mapped, the first pass ends at the first path with the name in it. -/
theorem right_own_iff {maps pre post : List Mapping} {mp : Mapping} (hsplit : maps = pre ++ mp :: post)
    (hown : BelongsTo mp.path pkg) (hpre : ∀ other ∈ pre, ¬ BelongsTo other.path pkg) :
    (∃ own ∈ maps, BelongsTo own.path pkg ∧ ∃ dir file, slash ∉ file ∧ own.path = dir ++ slash :: file ∧
        findApk maps (some pkg) = some ⟨dir ++ ascii "/lib/arm64", own.path⟩) ↔
      ∀ other ∈ pre, accepts other.path (some pkg) = false := by
  constructor
  · rintro ⟨own, -, hbelongs, dir, file, -, -, hfound⟩
    rw [← firstAccepted_none]
    refine Option.eq_none_iff_forall_ne_some.mpr fun first hfirst => ?_
    -- the pass would end in front of the apk of the package
    have hall : firstAccepted maps (some pkg) = some first := by
      rw [hsplit, firstAccepted_append, hfirst, Option.some_or]
    obtain ⟨dir', file', -, -, hother⟩ := findApk_some hall
    rw [hfound, Option.some.injEq, Dirs.mk.injEq] at hother
    rw [hother.2] at hbelongs
    exact hpre first (firstAccepted_some hfirst).1 hbelongs
  · intro hnone
    have hall : firstAccepted maps (some pkg) = some mp := by
      rw [hsplit, firstAccepted_append, firstAccepted_none.mpr hnone, Option.none_or]
      exact List.find?_cons_of_pos (accepts_of_belongsTo hown)
    obtain ⟨dir, file, hfile, hpath, hfound⟩ := findApk_some hall
    exact ⟨mp, (firstAccepted_some hall).1, hown, dir, file, hfile, hpath, hfound⟩

theorem exists_of_orElse {maps : List Mapping} {p q : Option Text} {dirs : Dirs}
    (h : ((findApk maps p).orElse fun _ => findApk maps q) = some dirs) :
    ∃ mp ∈ maps, IsApk mp.path ∧ dirs.apkPath = mp.path := by
  cases hfirst : findApk maps p with
  | none =>
    rw [hfirst] at h
    exact exists_of_findApk h
  | some first =>
    rw [hfirst] at h
    obtain rfl := Option.some.inj h
    exact exists_of_findApk hfirst

/-- The first pass finds something where the package has an apk. -/
theorem findApk_ne_none {ms : List Mapping} (hown : ∃ mp ∈ ms, BelongsTo mp.path pkg) :
    findApk ms (some pkg) ≠ none := by
  obtain ⟨mp, hmem, hmp⟩ := hown
  rw [Ne, findApk_eq_none_iff]
  exact fun hnone => Bool.false_ne_true ((hnone mp hmem).symm.trans (accepts_of_belongsTo hmp))

theorem orElse_of_own {ms : List Mapping} (hown : ∃ mp ∈ ms, BelongsTo mp.path pkg) :
    ((findApk ms (some pkg)).orElse fun _ => findApk ms none) = findApk ms (some pkg) := by
  obtain ⟨dirs, hdirs⟩ := Option.ne_none_iff_exists'.mp (findApk_ne_none hown)
  rw [hdirs]
  rfl

/-- The directories are those of the package exactly if no apk of another package comes first. -/
theorem findAppLibDir_right_iff (hpkg : pkg ≠ []) :
    Right (getMappings maps) pkg (findAppLibDir (some maps) pkg) ↔ OwnFirst (getMappings maps) pkg := by
  rw [findAppLibDir_eq hpkg]
  generalize getMappings maps = ms
  by_cases hown : ∃ mp ∈ ms, BelongsTo mp.path pkg
  · obtain ⟨pre, mp, post, hsplit, hmp, hpre⟩ := exists_first_own hown
    rw [orElse_of_own hown]
    constructor
    · intro h
      refine ⟨fun pre' mp' post' hsplit' hmp' hpre' => ?_, fun hno => absurd hown hno⟩
      exact (right_own_iff hsplit' hmp' hpre').mp (h.own hown)
    · intro h
      refine ⟨fun _ => (right_own_iff hsplit hmp hpre).mpr (h.own pre mp post hsplit hmp hpre), ?_⟩
      exact fun hno => absurd hown hno
  · constructor
    · intro h
      refine ⟨fun pre mp post hsplit hmp _ => absurd ⟨mp, by rw [hsplit]; simp, hmp⟩ hown, fun _ mp hmp hapk => ?_⟩
      -- one of the passes finds an apk, and it is foreign
      cases hfound : (findApk ms (some pkg)).orElse fun _ => findApk ms none with
      | none =>
        have hsecond : findApk ms none = none := by
          cases hfirst : findApk ms (some pkg) with
          | none => rwa [hfirst] at hfound
          | some dirs =>
            rw [hfirst] at hfound
            cases hfound
        have hno := findApk_eq_none_iff.mp hsecond mp hmp
        exact Bool.false_ne_true (hno.symm.trans ((accepts_none_iff mp.path).mpr hapk))
      | some dirs =>
        obtain ⟨found, hmem, hfoundApk, hpath⟩ := exists_of_orElse hfound
        rw [← hpath] at hfoundApk
        exact h.foreign hown dirs hfound ⟨hfoundApk, fun hb => hown ⟨found, hmem, hpath ▸ hb⟩⟩
    · intro h
      have hnone (p : Option Text) : findApk ms p = none := by
        refine findApk_eq_none_iff.mpr fun mp hmp => ?_
        by_contra hacc
        rw [Bool.not_eq_false] at hacc
        exact h.foreign hown mp hmp (isApk_of_accepts hacc)
      refine ⟨fun hyes => absurd hyes hown, fun _ dirs hdirs => ?_⟩
      rw [hnone, hnone] at hdirs
      cases hdirs

/-! ## Listings -/

def package : Text := ascii "com.example.app"

def ownApk : Mapping :=
  ⟨0x7000000000, 0x7000001000, ascii "/data/app/com.example.app-1/base.apk"⟩

/-- An apk of another package, which has the name in its path. -/
def suffixApk : Mapping :=
  ⟨0x6000000000, 0x6000001000, ascii "/data/app/org.com.example.app-1/base.apk"⟩

def ownListing : Text := ascii "7000000000-7000001000 r--p 00000000 fd:05 17 /data/app/com.example.app-1/base.apk\n"

def suffixListing : Text :=
  ascii "6000000000-6000001000 r--p 00000000 fd:05 11 /data/app/org.com.example.app-1/base.apk\n" ++ ownListing

/-- An apk of another package, which has not. -/
def otherApk : Mapping := ⟨0x6000000000, 0x6000001000, ascii "/data/app/org.other-1/base.apk"⟩

def otherListing : Text :=
  ascii "6000000000-6000001000 r--p 00000000 fd:05 11 /data/app/org.other-1/base.apk\n" ++ ownListing

theorem getMappings_otherListing : getMappings otherListing = [otherApk, ownApk] := by
  rw [otherListing, ownListing, otherApk, ownApk, ascii_ofList, ascii_ofList, ascii_ofList, ascii_ofList]
  decide

theorem getMappings_suffixListing : getMappings suffixListing = [suffixApk, ownApk] := by
  rw [suffixListing, ownListing, suffixApk, ownApk, ascii_ofList, ascii_ofList, ascii_ofList, ascii_ofList]
  decide

theorem ownApk_belongsTo : BelongsTo ownApk.path package := by
  refine ⟨by decide, ascii "com.example.app-1", ⟨by decide, [], ascii "base.apk", by decide, .inl rfl, by decide⟩, ?_⟩
  exact .inr (by decide)

theorem not_suffixApk_belongsTo : ¬ BelongsTo suffixApk.path package := by
  intro h
  rcases infix_of_belongsTo h with h | h
  · exact absurd h (by decide)
  · exact absurd h (by decide)

/-- The apk behind the one of the other package is found. -/
theorem findAppLibDir_right_own :
    Right (getMappings otherListing) package (findAppLibDir (some otherListing) package) := by
  refine (findAppLibDir_right_iff (by decide)).mpr ⟨fun pre mp post hsplit _ _ other hother => ?_, fun hno => ?_⟩
  · rw [getMappings_otherListing] at hsplit
    match pre with
    | [] => cases hother
    | [first] =>
      obtain ⟨rfl, -⟩ := List.cons.inj hsplit
      rw [List.mem_singleton.mp hother]
      decide
    | _ :: _ :: _ => simp at hsplit
  · rw [getMappings_otherListing] at hno
    exact absurd ⟨ownApk, by simp, ownApk_belongsTo⟩ hno

/-- The search ends at the other package, which comes first. -/
theorem not_findAppLibDir_right : ¬ ∀ (maps pkg : Text), pkg ≠ [] →
    Right (getMappings maps) pkg (findAppLibDir (some maps) pkg) := by
  intro h
  have hright := h suffixListing package (by decide)
  rw [findAppLibDir_eq (by decide)] at hright
  have hsplit : getMappings suffixListing = [suffixApk] ++ ownApk :: [] := getMappings_suffixListing
  have hown : ∃ mp ∈ getMappings suffixListing, BelongsTo mp.path package :=
    ⟨ownApk, by rw [hsplit]; simp, ownApk_belongsTo⟩
  rw [orElse_of_own hown] at hright
  have hfirst := (right_own_iff hsplit ownApk_belongsTo (List.forall_mem_singleton.mpr not_suffixApk_belongsTo)).mp
    (hright.own hown)
  exact absurd (hfirst suffixApk List.mem_cons_self) (by decide)

end ArtPi.Inject.AppLibDir
