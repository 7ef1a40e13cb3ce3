import ArtPi.Agent.DumpDex
import ArtPi.Lib.Firsts

set_option autoImplicit false

/-! # Sequences of dumps

What a sequence of calls leaves in the files. A file of a dump stays as it is as long as DEX files of its size and
checksum come; `Undisturbed` says by the memory at each call when that is right. -/

namespace ArtPi.Agent.DumpDex

open Lib Lib.Listing Lib.ProcMaps Hash

/-! ## Images -/

/-- The native DEX files that are reached. -/
def nativeDexFiles (elements : List Element) : List UInt64 := ((candidates elements).map Prod.snd).filter (· ≠ 0)

/-- The bytes of a DEX in memory. -/
def imageAt (m : Mem) (dfp : UInt64) : Option (List UInt8) :=
  (dexMemoryFromArtDexFile m dfp).bind fun (base, size) => m.read base size

def images (m : Mem) (elements : List Element) : List (List UInt8) := (nativeDexFiles elements).filterMap (imageAt m)

/-- The image with the checksum that it has. -/
def repair (bytes : List UInt8) : List UInt8 := bytes.take 8 ++ (le32 (calculated bytes) ++ bytes.drop 12)

/-- Each image is written once, with its checksum repaired, and nothing else is written; and the files have it. -/
def AllRight (m : Mem) (elements : List Element) (result : Option AllState) : Prop :=
  ∃ s, result = some s ∧
    (∀ bytes ∈ images m elements, (s.written.map Written.content).count (repair bytes) = 1) ∧
    (∀ w ∈ s.written, ∃ bytes ∈ images m elements, w.content = repair bytes) ∧
    ∀ w ∈ s.written, s.fs w.path = some w.content

/-- The DEX, if it is one, can be read. -/
def Readable (m : Mem) (dfp : UInt64) : Prop :=
  ∀ base size, dexMemoryFromArtDexFile m dfp = some (base, size) → m.read base size ≠ none

/-- Size and checksum. -/
def tag (bytes : List UInt8) : Nat × UInt32 := (bytes.length, calculated bytes)

/-- Every DEX that is found can be read, images of one size and checksum do not differ elsewhere, and the write of the
first image of each size and checksum completes. -/
structure Distinct (m : Mem) (ios : Nat → Io) (elements : List Element) : Prop where
  readable : ∀ dfp ∈ nativeDexFiles elements, Readable m dfp
  distinct : ∀ a ∈ images m elements, ∀ b ∈ images m elements, tag a = tag b → repair a = repair b
  written : ∀ k bytes, (firsts tag (images m elements))[k]? = some bytes →
    (ios (k + 1)).completes bytes.length bytes.length = true

/-! ## Runs -/

inductive Call where
  | method (m : Mem) (art : UInt64) (io : Io)
  | all (m : Mem) (outDir : Text) (ios : Nat → Io) (elements : List Element)

/-- The address of the DEX. -/
def Dex.base (d : Dex) : UInt64 := if d.dexBegin = 0 then d.data else d.dexBegin

namespace Call

/-- The files behind the call. Where it faults, they are as they were. -/
def next (fs : Files) : Call → Files
  | .method m art io =>
    match dumpDexFromArtMethod m art io fs with
    | none => fs
    | some r => r.fs
  | .all m outDir ios elements =>
    match dumpAllDex m outDir ios elements fs with
    | none => fs
    | some s => s.fs

/-- What is said of the call. -/
def Right (fs : Files) : Call → Prop
  | .method m art io => ∀ r, dumpDexFromArtMethod m art io fs = some r → r.ok = true →
      ∃ d bytes, resolveDex m art = some (some d) ∧ m.read d.base d.size = some bytes ∧ r.fs r.path = some bytes
  | .all m outDir ios elements => AllRight m elements (dumpAllDex m outDir ios elements fs)

/-- The DEX of the method. -/
def dex : Call → Option Dex
  | .method m art _ => (resolveDex m art).join
  | .all _ _ _ _ => none

/-- What it has in memory. -/
def image (c : Call) (d : Dex) : Option (List UInt8) :=
  match c with
  | .method m _ _ => m.read d.base d.size
  | .all _ _ _ _ => none

/-- What the call writes. -/
def dumps (c : Call) (d : Dex) : List UInt8 :=
  match c with
  | .method m _ _ => m.readable d.data d.size
  | .all _ _ _ _ => []

def completes (c : Call) (d : Dex) : Bool :=
  match c with
  | .method m _ io => io.completes (m.readable d.data d.size).length d.size
  | .all _ _ _ _ => false

end Call

/-- What is said of each call of a run. -/
def RunRight (fs : Files) : List Call → Prop
  | [] => True
  | c :: calls => c.Right fs ∧ RunRight (c.next fs) calls

/-- A file that is there from the start with the name and the size of a DEX has its bytes; what the first call of a name
writes are the bytes of the DEX of that call and of all later ones of the name; and the calls for all DEX files have
distinct images. -/
structure Undisturbed (fs : Files) (calls : List Call) : Prop where
  kept : ∀ c ∈ calls, ∀ d, c.dex = some d → ∀ file, d.found fs = some file → c.image d = some file
  fresh : ∀ pre c rest, calls = pre ++ c :: rest → ∀ d, c.dex = some d → c.completes d = true → d.found fs = none →
    (∀ e ∈ pre, ∀ d', e.dex = some d' → d'.path = d.path → e.completes d' = false) →
      ∀ c' ∈ c :: rest, ∀ d', c'.dex = some d' → d'.path = d.path → c'.image d' = some (c.dumps d)
  all : ∀ m outDir ios elements, .all m outDir ios elements ∈ calls → Distinct m ios elements

/-! ## Writes -/

/-- The loop writes no more than can be read, and ends with less than the size or with all of it. -/
theorem writeLoop_spec {avail : Nat} (size : Nat) (ws : List Int) {written : Nat} (h : written ≤ avail) :
    (writeLoop avail size written ws).1 ≤ avail ∧
      ((writeLoop avail size written ws).2 = true ↔ size ≤ (writeLoop avail size written ws).1) := by
  induction ws generalizing written with
  | nil =>
    rw [writeLoop]
    exact ⟨h, decide_eq_true_iff⟩
  | cons w ws ih =>
    rw [writeLoop]
    split_ifs with hdone hzero
    · exact ⟨h, iff_of_true rfl hdone⟩
    · exact ⟨h, iff_of_false nofun hdone⟩
    · exact ih (by omega)

/-- A write that completes leaves the data, and one that does not leaves less than the size, or what was there. -/
theorem writeFile_cases (fs : Files) (path : Text) {data : List UInt8} {size : Nat} (io : Io) (h : data.length ≤ size) :
    (io.completes data.length size = true ∧ data.length = size ∧
        writeFile fs path data size io = (fs.put path data, true)) ∨
      (io.completes data.length size = false ∧ ∃ fs', writeFile fs path data size io = (fs', false) ∧
        (fs' = fs ∨ ∃ content, content.length < size ∧ fs' = fs.put path content)) := by
  unfold writeFile Io.completes
  cases io with
  | none => exact .inr ⟨rfl, fs, rfl, .inl rfl⟩
  | some ws =>
    obtain ⟨hle, hiff⟩ := writeLoop_spec size ws (Nat.zero_le data.length)
    dsimp only
    cases hdone : (writeLoop data.length size 0 ws).2 with
    | true =>
      have hall := hiff.mp hdone
      refine .inl ⟨rfl, by omega, ?_⟩
      rw [List.take_of_length_le (by omega)]
    | false =>
      have hless : ¬ size ≤ (writeLoop data.length size 0 ws).1 := fun hall => by
        rw [hiff.mpr hall] at hdone
        cases hdone
      refine .inr ⟨rfl, _, rfl, .inr ⟨_, ?_, rfl⟩⟩
      rw [List.length_take]
      omega

theorem Files.put_self (fs : Files) (path : Text) (content : List UInt8) : fs.put path content path = some content :=
  if_pos rfl

theorem Files.put_of_ne (fs : Files) {path p : Text} (content : List UInt8) (h : p ≠ path) :
    fs.put path content p = fs p := if_neg h

theorem Mem.length_readable (m : Mem) (a : UInt64) (n : Nat) : (m.readable a n).length ≤ n := by
  induction n generalizing a with
  | zero => exact Nat.le_refl _
  | succ n ih =>
    rw [Mem.readable]
    cases m a with
    | none => exact Nat.zero_le _
    | some b => exact Nat.succ_le_succ (ih (a + 1))

theorem Mem.length_of_read {m : Mem} {a : UInt64} {n : Nat} {bytes : List UInt8} (h : m.read a n = some bytes) :
    bytes.length = n := by
  unfold Mem.read at h
  split_ifs at h with hlen
  rw [← Option.some.inj h]
  exact hlen

/-! ## Names -/

theorem digits_ne {base : Nat} (hle : base ≤ 16) {ds : List UInt8} (h : ds.all (Numerals.isDigit base) = true)
    {b : UInt8} (hb : Numerals.isDigit 16 b = false) : b ∉ ds := by
  intro hmem
  have hdigit := List.all_eq_true.mp h b hmem
  unfold Numerals.isDigit at hdigit hb
  rw [decide_eq_true_iff] at hdigit
  rw [decide_eq_false_iff_not] at hb
  omega

theorem Dex.path_inj {d d' : Dex} (h : d.path = d'.path) : d.size = d'.size ∧ d.checksum = d'.checksum := by
  unfold Dex.path at h
  have hsize (n : Nat) : underscore ∉ Numerals.spell 16 n :=
    digits_ne (Nat.le_refl 16) (Numerals.spell_spec 16 (by decide) (by decide) n).1 (by decide)
  obtain ⟨hspell, hrest⟩ := append_sep_inj (hsize d.size) (hsize d'.size) (List.append_cancel_left h)
  have hvalue := (Numerals.spell_spec 16 (by decide) (by decide) d.size).2.1
  rw [hspell, (Numerals.spell_spec 16 (by decide) (by decide) d'.size).2.1] at hvalue
  exact ⟨hvalue.symm, UInt32.toNat_inj.mp
    (Numerals.padded_inj (by decide) (by decide) (List.append_cancel_right hrest))⟩

theorem fileName_inj {index index' : Nat} {origName origName' : Text} {crc crc' : UInt32}
    (h : fileName index origName crc = fileName index' origName' crc') : index = index' := by
  unfold fileName at h
  have hindex (n : Nat) : underscore ∉ Numerals.padded 10 4 n :=
    digits_ne (by decide) (Numerals.padded_spec 10 (by decide) (by decide) 4 n).1 (by decide)
  exact Numerals.padded_inj (by decide) (by decide) (append_sep_inj (hindex index) (hindex index') h).1

set_option maxRecDepth 8192 in
theorem slash_notMem_sanitizeName (s : Text) : slash ∉ sanitizeName s := by
  have hbyte : ∀ n : Fin 256, sanitizeByte (UInt8.ofNat n) ≠ slash := by decide
  unfold sanitizeName
  split_ifs
  · decide
  · intro hmem
    obtain ⟨b, -, hb⟩ := List.mem_map.mp hmem
    have hno := hbyte ⟨b.toNat, b.toNat_lt⟩
    rw [UInt8.ofNat_toNat] at hno
    exact hno hb

theorem mem_of_mem_stripDexExt {n : Text} {b : UInt8} (h : b ∈ stripDexExt n) : b ∈ n := by
  unfold stripDexExt at h
  split at h
  · exact List.mem_of_mem_take h
  · exact h

theorem slash_notMem_fileName (index : Nat) (origName : Text) (crc : UInt32) : slash ∉ fileName index origName crc := by
  have hindex : slash ∉ Numerals.padded 10 4 index :=
    digits_ne (by decide) (Numerals.padded_spec 10 (by decide) (by decide) 4 index).1 (by decide)
  have hcrc : slash ∉ Numerals.padded 16 8 crc.toNat :=
    digits_ne (by decide) (Numerals.padded_spec 16 (by decide) (by decide) 8 crc.toNat).1 (by decide)
  have hname : slash ∉ stripDexExt (sanitizeName origName) := fun hmem =>
    slash_notMem_sanitizeName origName (mem_of_mem_stripDexExt hmem)
  have hext : slash ∉ ascii ".dex" := by decide
  have hunder : slash ≠ underscore := by decide
  unfold fileName
  simp only [List.mem_append, List.mem_cons, hindex, hcrc, hname, hext, hunder, or_self, not_false_eq_true]

/-- The names of the two functions differ behind the last slash. -/
theorem fileName_ne_path (outDir : Text) (index : Nat) (origName : Text) (crc : UInt32) (d : Dex) :
    outDir ++ slash :: fileName index origName crc ≠ d.path := by
  intro h
  have hpath : d.path = ascii "/data/local/tmp/jtmp" ++ slash :: (ascii "dex_" ++
      (Numerals.spell 16 d.size ++ underscore :: (Numerals.padded 16 8 d.checksum.toNat ++ ascii ".dex"))) := by
    rfl
  have hsize : slash ∉ Numerals.spell 16 d.size :=
    digits_ne (Nat.le_refl 16) (Numerals.spell_spec 16 (by decide) (by decide) d.size).1 (by decide)
  have hcrc : slash ∉ Numerals.padded 16 8 d.checksum.toNat :=
    digits_ne (by decide) (Numerals.padded_spec 16 (by decide) (by decide) 8 d.checksum.toNat).1 (by decide)
  have htail : slash ∉ ascii "dex_" ++
      (Numerals.spell 16 d.size ++ underscore :: (Numerals.padded 16 8 d.checksum.toNat ++ ascii ".dex")) := by
    have hdex : slash ∉ ascii "dex_" := by decide
    have hext : slash ∉ ascii ".dex" := by decide
    have hunder : slash ≠ underscore := by decide
    simp only [List.mem_append, List.mem_cons, hsize, hcrc, hdex, hext, hunder, or_self, not_false_eq_true]
  have hsplit := splitLast_append slash outDir (slash_notMem_fileName index origName crc)
  rw [h, hpath, splitLast_append slash _ htail, Option.some.injEq, Prod.mk.injEq] at hsplit
  -- one begins with a letter, the other with a digit
  have hall := (Numerals.padded_spec 10 (by decide) (by decide) 4 index).1
  have hhead := congrArg List.head? hsplit.2
  unfold fileName at hhead
  cases hdigits : Numerals.padded 10 4 index with
  | nil =>
    rw [hdigits] at hhead
    have hb : (0x64 : UInt8) = underscore := Option.some.inj hhead
    exact absurd hb (by decide)
  | cons b bs =>
    rw [hdigits, List.all_cons, Bool.and_eq_true] at hall
    rw [hdigits, List.cons_append, List.head?_cons] at hhead
    have hb : (0x64 : UInt8) = b := Option.some.inj hhead
    rw [← hb] at hall
    exact absurd hall.1 (by decide)

/-! ## One method -/

theorem Dex.found_eq_some {d : Dex} {fs : Files} {file : List UInt8} :
    d.found fs = some file ↔ fs d.path = some file ∧ file.length = d.size := by
  unfold Dex.found
  rw [Option.filter_eq_some_iff, decide_eq_true_iff]

theorem Dex.found_congr {d d' : Dex} (h : d.path = d'.path) (fs : Files) : d.found fs = d'.found fs := by
  unfold Dex.found
  rw [h, (Dex.path_inj h).1]

theorem Dex.found_put {d : Dex} (fs : Files) {content : List UInt8} (h : content.length = d.size) :
    d.found (fs.put d.path content) = some content := Dex.found_eq_some.mpr ⟨fs.put_self _ _, h⟩

theorem Dex.found_put_short {d : Dex} (fs : Files) {content : List UInt8} (h : content.length < d.size) :
    d.found (fs.put d.path content) = none := by
  refine Option.eq_none_iff_forall_ne_some.mpr fun file hfile => ?_
  rw [Dex.found_eq_some, fs.put_self, Option.some.injEq] at hfile
  rw [hfile.1, hfile.2] at h
  exact Nat.lt_irrefl _ h

theorem Dex.found_put_of_ne {d : Dex} (fs : Files) {path : Text} (content : List UInt8) (h : d.path ≠ path) :
    d.found (fs.put path content) = d.found fs := by
  unfold Dex.found
  rw [fs.put_of_ne content h]

namespace Call

variable {c : Call} {fs : Files} {d : Dex}

theorem dex_method {m : Mem} {art : UInt64} {io : Io} :
    (Call.method m art io).dex = some d ↔ resolveDex m art = some (some d) := Option.join_eq_some_iff

theorem exists_of_dex (h : c.dex = some d) :
    ∃ m art io, c = .method m art io ∧ resolveDex m art = some (some d) := by
  cases c with
  | method m art io => exact ⟨m, art, io, rfl, dex_method.mp h⟩
  | all m outDir ios elements => cases h

/-- What the call does: a file of the name and size stays, a write that completes leaves what is dumped, and another one
leaves no such file. -/
theorem dump_cases (fs : Files) (h : c.dex = some d) :
    (∃ file, d.found fs = some file ∧ c.next fs = fs) ∨
      (d.found fs = none ∧ c.completes d = true ∧ (c.dumps d).length = d.size ∧
        c.next fs = fs.put d.path (c.dumps d)) ∨
      (d.found fs = none ∧ c.completes d = false ∧
        (c.next fs = fs ∨ ∃ content, content.length < d.size ∧ c.next fs = fs.put d.path content)) := by
  obtain ⟨m, art, io, rfl, hres⟩ := exists_of_dex h
  unfold next dumpDexFromArtMethod
  simp only [hres]
  cases hfound : d.found fs with
  | some file => exact .inl ⟨file, rfl, rfl⟩
  | none =>
    rcases writeFile_cases fs d.path io (m.length_readable d.data d.size) with
      ⟨hdone, hlen, hwrite⟩ | ⟨hdone, fs', hwrite, hfs⟩
    · refine .inr (.inl ⟨rfl, hdone, hlen, ?_⟩)
      simp only [hwrite]
      rfl
    · refine .inr (.inr ⟨rfl, hdone, ?_⟩)
      simp only [hwrite]
      exact hfs

/-- Whether a DEX is found behind a call: as in front of it, or it is what the call has written. -/
theorem found_next (h : c.dex = some d) (d' : Dex) : d'.found (c.next fs) =
    (d'.found fs).or (if d'.path = d.path ∧ c.completes d = true then some (c.dumps d) else none) := by
  by_cases hpath : d'.path = d.path
  · rw [Dex.found_congr hpath, Dex.found_congr hpath]
    rcases dump_cases fs h with ⟨file, hfile, hnext⟩ | ⟨hnone, hdone, hlen, hnext⟩ | ⟨hnone, hdone, hnext⟩
    · rw [hnext, hfile, Option.some_or]
    · rw [hnext, hnone, Option.none_or, if_pos ⟨hpath, hdone⟩, Dex.found_put fs hlen]
    · have hno : ¬ (d'.path = d.path ∧ c.completes d = true) := fun hand => by
        rw [hdone] at hand
        cases hand.2
      rw [hnone, Option.none_or, if_neg hno]
      rcases hnext with hnext | ⟨content, hlen, hnext⟩
      · rw [hnext, hnone]
      · rw [hnext, Dex.found_put_short fs hlen]
  · have hno : ¬ (d'.path = d.path ∧ c.completes d = true) := fun hand => hpath hand.1
    rw [if_neg hno, Option.or_none]
    rcases dump_cases fs h with ⟨file, -, hnext⟩ | ⟨-, -, -, hnext⟩ | ⟨-, -, hnext | ⟨content, -, hnext⟩⟩
    · rw [hnext]
    · rw [hnext, Dex.found_put_of_ne fs _ hpath]
    · rw [hnext]
    · rw [hnext, Dex.found_put_of_ne fs _ hpath]

/-- A call for a method is right if the file that is found, or else what is written, is the DEX. -/
theorem right_method_iff (h : c.dex = some d) : c.Right fs ↔
    (∀ file, d.found fs = some file → c.image d = some file) ∧
      (d.found fs = none → c.completes d = true → c.image d = some (c.dumps d)) := by
  obtain ⟨m, art, io, rfl, hres⟩ := exists_of_dex h
  have hdump : dumpDexFromArtMethod m art io fs =
      if (d.found fs).isSome = true then some ⟨true, d.path, fs⟩
      else some ⟨(writeFile fs d.path (m.readable d.data d.size) d.size io).2, d.path,
        (writeFile fs d.path (m.readable d.data d.size) d.size io).1⟩ := by
    unfold dumpDexFromArtMethod
    rw [hres]
  have himage {bytes : List UInt8} : (∃ d' bytes', resolveDex m art = some (some d') ∧
      m.read d'.base d'.size = some bytes' ∧ bytes = bytes') ↔ m.read d.base d.size = some bytes := by
    constructor
    · rintro ⟨d', bytes', hres', hread, hbytes⟩
      rw [hres, Option.some.injEq, Option.some.injEq] at hres'
      rw [hres', hbytes]
      exact hread
    · exact fun hread => ⟨d, bytes, hres, hread, rfl⟩
  unfold Right image completes dumps
  simp only [hdump]
  cases hfound : d.found fs with
  | some file =>
    obtain ⟨hfile, -⟩ := Dex.found_eq_some.mp hfound
    simp only [Option.isSome_some, if_true, Option.some.injEq, forall_eq', forall_const, hfile, himage]
    exact ⟨fun hread => ⟨hread, nofun⟩, fun hboth => hboth.1⟩
  | none =>
    simp only [Option.isSome_none, Bool.false_eq_true, if_false, Option.some.injEq, forall_eq', forall_const]
    rcases writeFile_cases fs d.path io (m.length_readable d.data d.size) with
      ⟨hdone, -, hwrite⟩ | ⟨hdone, fs', hwrite, -⟩
    · simp only [hwrite, hdone, forall_const, fs.put_self, Option.some.injEq, himage]
      exact ⟨fun hread => ⟨nofun, hread⟩, fun hboth => hboth.2⟩
    · simp only [hwrite, hdone]
      exact iff_of_true nofun ⟨nofun, nofun⟩

end Call

/-! ## Repaired images -/

theorem length_le32 (v : UInt32) : (le32 v).length = 4 := by
  unfold le32
  rw [List.length_map, List.length_range]

theorem leNat_le32 (v : UInt32) : Bytes.leNat (le32 v) = v.toNat := by
  unfold le32
  rw [Bytes.leNat_map_shr]
  exact Nat.mod_eq_of_lt v.toNat_lt

theorem le32_leNat {bs : List UInt8} (h : bs.length = 4) : le32 (UInt32.ofNat (Bytes.leNat bs)) = bs := by
  have hlt := Bytes.leNat_lt bs
  rw [h] at hlt
  refine Bytes.leNat_inj (by rw [length_le32, h]) ?_
  rw [leNat_le32, UInt32.toNat_ofNat_of_lt' hlt]

section Repair

variable {bytes : List UInt8}

theorem length_repair (h : 12 ≤ bytes.length) : (repair bytes).length = bytes.length := by
  unfold repair
  rw [List.length_append, List.length_append, length_le32, List.length_take, List.length_drop]
  omega

theorem calculated_repair (h : 12 ≤ bytes.length) : calculated (repair bytes) = calculated bytes := by
  have hfront : (bytes.take 8 ++ le32 (calculated bytes)).length = 12 := by
    rw [List.length_append, length_le32, List.length_take]
    omega
  unfold calculated repair
  rw [← List.append_assoc]
  exact congrArg dexAdler32 (by rw [← hfront, List.drop_left, hfront])

theorem stored_repair (h : 12 ≤ bytes.length) : stored (repair bytes) = calculated bytes := by
  have hfront : (bytes.take 8).length = 8 := by
    rw [List.length_take]
    omega
  have hfield : ((repair bytes).drop 8).take 4 = le32 (calculated bytes) := by
    unfold repair
    rw [List.drop_append_of_le_length (by omega), List.drop_of_length_le (by omega), List.nil_append,
      List.take_append_of_le_length (by rw [length_le32]), List.take_of_length_le (by rw [length_le32])]
  unfold stored
  rw [hfield, leNat_le32, UInt32.ofNat_toNat]

theorem buildRepairedDex_out (h : 12 ≤ bytes.length) : (buildRepairedDex bytes).out = repair bytes := by
  unfold buildRepairedDex
  dsimp only
  split_ifs with hstored
  · rfl
  · rw [not_not] at hstored
    have hfield : le32 (calculated bytes) = (bytes.drop 8).take 4 := by
      rw [← hstored]
      exact le32_leNat (by rw [List.length_take, List.length_drop]; omega)
    unfold repair
    rw [hfield, ← List.drop_drop (i := 4) (j := 8), List.take_append_drop, List.take_append_drop]

theorem tag_repair (h : 12 ≤ bytes.length) : tag (repair bytes) = tag bytes := by
  unfold tag
  rw [length_repair h, calculated_repair h]

end Repair

theorem key_inj {a b : Nat} {c d : UInt32} (ha : a < 2 ^ 32) (hb : b < 2 ^ 32) :
    (UInt64.ofNat a <<< 32) ^^^ c.toUInt64 = (UInt64.ofNat b <<< 32) ^^^ d.toUInt64 ↔ a = b ∧ c = d := by
  have hkey {n : Nat} (hn : n < 2 ^ 32) (v : UInt32) :
      ((UInt64.ofNat n <<< 32) ^^^ v.toUInt64).toNat = (n * 2 ^ 32) ^^^ v.toNat := by
    have hmul : n * 2 ^ 32 < 2 ^ 64 := by omega
    rw [UInt64.toNat_xor, UInt64.toNat_shiftLeft, UInt64.toNat_ofNat_of_lt' (show n < 2 ^ 64 by omega),
      UInt32.toNat_toUInt64, show ((32 : UInt64).toNat % 64) = 32 from rfl, Nat.shiftLeft_eq, Nat.mod_eq_of_lt hmul]
  -- the size is above the checksum
  have hsize {n : Nat} (v : UInt32) : ((n * 2 ^ 32) ^^^ v.toNat) / 2 ^ 32 = n := by
    rw [Nat.xor_div_two_pow, Nat.mul_div_cancel _ (by decide), Nat.div_eq_of_lt v.toNat_lt, Nat.xor_zero]
  have hcheck {n : Nat} (v : UInt32) : ((n * 2 ^ 32) ^^^ v.toNat) % 2 ^ 32 = v.toNat := by
    rw [Nat.xor_mod_two_pow, Nat.mul_mod_left, Nat.mod_eq_of_lt v.toNat_lt, Nat.zero_xor]
  rw [← UInt64.toNat_inj, hkey ha, hkey hb]
  constructor
  · intro h
    have hdiv := congrArg (· / 2 ^ 32) h
    have hmod := congrArg (· % 2 ^ 32) h
    rw [hsize, hsize] at hdiv
    rw [hcheck, hcheck] at hmod
    exact ⟨hdiv, UInt32.toNat_inj.mp hmod⟩
  · rintro ⟨rfl, rfl⟩
    rfl

theorem keyOf_repair {bytes : List UInt8} (h : 12 ≤ bytes.length) :
    keyOf (repair bytes) = (UInt64.ofNat bytes.length <<< 32) ^^^ (calculated bytes).toUInt64 := by
  unfold keyOf
  rw [length_repair h, stored_repair h]

/-- Within their range of sizes the keys are size and checksum. -/
theorem keyOf_repair_inj {a b : List UInt8} (ha : 12 ≤ a.length ∧ a.length ≤ maxDexSize)
    (hb : 12 ≤ b.length ∧ b.length ≤ maxDexSize) : keyOf (repair a) = keyOf (repair b) ↔ tag a = tag b := by
  unfold maxDexSize at ha hb
  rw [keyOf_repair ha.1, keyOf_repair hb.1, key_inj (by omega) (by omega)]
  unfold tag
  rw [Prod.mk.injEq]

/-! ## All DEX files -/

/-- The images of candidates. -/
def imagesOf (m : Mem) (cs : List (Text × UInt64)) : List (List UInt8) :=
  ((cs.map Prod.snd).filter (· ≠ 0)).filterMap (imageAt m)

theorem imagesOf_concat (m : Mem) (cs : List (Text × UInt64)) (c : Text × UInt64) :
    imagesOf m (cs ++ [c]) = imagesOf m cs ++ if c.2 = 0 then [] else (imageAt m c.2).toList := by
  unfold imagesOf
  rw [List.map_append, List.filter_append, List.filterMap_append]
  by_cases hzero : c.2 = 0
  · simp [hzero]
  · cases himage : imageAt m c.2 <;> simp [hzero, himage]

theorem length_of_imageAt {m : Mem} {dfp : UInt64} {bytes : List UInt8} (h : imageAt m dfp = some bytes) :
    12 ≤ bytes.length ∧ bytes.length ≤ maxDexSize := by
  obtain ⟨⟨base, size⟩, hdex, hread⟩ := Option.bind_eq_some_iff.mp h
  rw [Mem.length_of_read hread]
  unfold dexMemoryFromArtDexFile at hdex
  split at hdex
  · cases hdex
  · dsimp only at hdex
    split_ifs at hdex
    all_goals
      rename_i hrange
      obtain ⟨-, rfl⟩ := Prod.mk.inj (Option.some.inj hdex)
      omega

theorem length_of_mem_imagesOf {m : Mem} {cs : List (Text × UInt64)} {bytes : List UInt8} (h : bytes ∈ imagesOf m cs) :
    12 ≤ bytes.length ∧ bytes.length ≤ maxDexSize := by
  obtain ⟨dfp, -, himage⟩ := List.mem_filterMap.mp h
  exact length_of_imageAt himage

/-- The images that are left in the files: those whose write completes. -/
def saved (ios : Nat → Io) (i : Nat) : List (List UInt8) → List (List UInt8)
  | [] => []
  | b :: bs =>
    if (ios (i + 1)).completes b.length b.length = true then repair b :: saved ios (i + 1) bs
    else saved ios (i + 1) bs

theorem saved_concat (ios : Nat → Io) (i : Nat) (bs : List (List UInt8)) (b : List UInt8) :
    saved ios i (bs ++ [b]) =
      saved ios i bs ++ if (ios (i + bs.length + 1)).completes b.length b.length = true then [repair b] else [] := by
  induction bs generalizing i with
  | nil =>
    rw [List.nil_append, saved, saved, saved, List.nil_append]
    rfl
  | cons a bs ih =>
    have hindex : i + 1 + bs.length + 1 = i + (a :: bs).length + 1 := by
      rw [List.length_cons]
      omega
    rw [List.cons_append, saved, saved, ih, hindex]
    split
    · rw [List.cons_append]
    · rfl

theorem mem_saved_iff {ios : Nat → Io} {i : Nat} {bs : List (List UInt8)} {x : List UInt8} :
    x ∈ saved ios i bs ↔
      ∃ k b, bs[k]? = some b ∧ (ios (i + k + 1)).completes b.length b.length = true ∧ x = repair b := by
  induction bs using List.reverseRecOn with
  | nil => simp [saved]
  | append_singleton bs b ih =>
    rw [saved_concat, List.mem_append, ih]
    constructor
    · rintro (⟨k, a, hk, hdone, rfl⟩ | hmem)
      · exact ⟨k, a, by rw [List.getElem?_append_left (List.getElem?_eq_some_iff.mp hk).1, hk], hdone, rfl⟩
      · split_ifs at hmem with hdone
        · exact ⟨bs.length, b, by simp, hdone, List.mem_singleton.mp hmem⟩
        · cases hmem
    · rintro ⟨k, a, hk, hdone, rfl⟩
      by_cases hlt : k < bs.length
      · rw [List.getElem?_append_left hlt] at hk
        exact .inl ⟨k, a, hk, hdone, rfl⟩
      · have hlast := (List.getElem?_eq_some_iff.mp hk).1
        rw [List.length_append, List.length_singleton] at hlast
        obtain rfl : k = bs.length := by omega
        rw [List.getElem?_concat_length, Option.some.injEq] at hk
        rw [← hk] at hdone ⊢
        exact .inr (by rw [if_pos hdone]; exact List.mem_cons_self)

theorem saved_eq_map {ios : Nat → Io} {i : Nat} {bs : List (List UInt8)}
    (h : ∀ k b, bs[k]? = some b → (ios (i + k + 1)).completes b.length b.length = true) :
    saved ios i bs = bs.map repair := by
  induction bs generalizing i with
  | nil => rfl
  | cons b bs ih =>
    have hfirst := h 0 b rfl
    rw [saved, if_pos hfirst, List.map_cons, ih]
    intro k a hk
    have hnext := h (k + 1) a hk
    rwa [show i + (k + 1) + 1 = i + 1 + k + 1 by omega] at hnext

/-- What the loops have done with the candidates so far. -/
structure Swept (m : Mem) (outDir : Text) (ios : Nat → Io) (fs : Files) (done : List (Text × UInt64)) (s : AllState) :
    Prop where
  ptrs : ∀ p, p ∈ s.seenPtrs ↔ p ≠ 0 ∧ p ∈ done.map Prod.snd
  readable : ∀ p ∈ s.seenPtrs, Readable m p
  seen : s.seen = (firsts tag (imagesOf m done)).map fun b => keyOf (repair b)
  index : s.index = (firsts tag (imagesOf m done)).length
  written : s.written.map Written.content = saved ios 0 (firsts tag (imagesOf m done))
  names : ∀ w ∈ s.written, ∃ k name crc, k ≤ s.index ∧ w.path = outDir ++ slash :: fileName k name crc
  files : ∀ w ∈ s.written, s.fs w.path = some w.content
  frame : ∀ p, (∀ k name crc, p ≠ outDir ++ slash :: fileName k name crc) → s.fs p = fs p

section Sweep

variable {m : Mem} {outDir : Text} {ios : Nat → Io} {fs : Files} {done : List (Text × UInt64)} {s : AllState}
variable {c : Text × UInt64}

theorem swept_start : Swept m outDir ios fs [] (.start fs) :=
  ⟨by simp [AllState.start], by simp [AllState.start], rfl, rfl, rfl, by simp [AllState.start], by simp [AllState.start], fun _ _ => rfl⟩

theorem Swept.skip (h : Swept m outDir ios fs done s) {s' : AllState}
    (hptrs : ∀ p, p ∈ s'.seenPtrs ↔ p ≠ 0 ∧ p ∈ (done ++ [c]).map Prod.snd) (hread : ∀ p ∈ s'.seenPtrs, Readable m p)
    (himages : firsts tag (imagesOf m (done ++ [c])) = firsts tag (imagesOf m done))
    (hsame : s'.seen = s.seen ∧ s'.index = s.index ∧ s'.written = s.written ∧ s'.fs = s.fs) :
    Swept m outDir ios fs (done ++ [c]) s' := by
  obtain ⟨hseen, hindex, hwritten, hfs⟩ := hsame
  refine ⟨hptrs, hread, ?_, ?_, ?_, ?_, ?_, ?_⟩
  · rw [hseen, himages, h.seen]
  · rw [hindex, himages, h.index]
  · rw [hwritten, himages, h.written]
  · rw [hwritten, hindex]
    exact h.names
  · rw [hwritten, hfs]
    exact h.files
  · rw [hfs]
    exact h.frame

/-- An image whose size and checksum have been seen is no new one. -/
theorem firsts_concat_of_seen {bytes : List UInt8} (himages : imagesOf m (done ++ [c]) = imagesOf m done ++ [bytes])
    (hseen : tag bytes ∈ (firsts tag (imagesOf m done)).map tag) :
    firsts tag (imagesOf m (done ++ [c])) = firsts tag (imagesOf m done) := by
  rw [himages, firsts_concat]
  exact if_pos hseen

theorem images_of_seen (h : Swept m outDir ios fs done s) (hseen : c.2 = 0 ∨ c.2 ∈ s.seenPtrs) :
    firsts tag (imagesOf m (done ++ [c])) = firsts tag (imagesOf m done) := by
  by_cases hzero : c.2 = 0
  · rw [imagesOf_concat, if_pos hzero, List.append_nil]
  · have hptr := ((h.ptrs c.2).mp (hseen.resolve_left hzero)).2
    cases himage : imageAt m c.2 with
    | none => rw [imagesOf_concat, if_neg hzero, himage, Option.toList_none, List.append_nil]
    | some bytes =>
      refine firsts_concat_of_seen (by rw [imagesOf_concat, if_neg hzero, himage, Option.toList_some]) ?_
      have hmem : bytes ∈ imagesOf m done :=
        List.mem_filterMap.mpr ⟨c.2, List.mem_filter.mpr ⟨hptr, decide_eq_true hzero⟩, himage⟩
      obtain ⟨b, hb, htag⟩ := exists_firsts tag hmem
      exact List.mem_map.mpr ⟨b, hb, htag⟩

theorem ptrs_of_seen (h : Swept m outDir ios fs done s) (hseen : c.2 = 0 ∨ c.2 ∈ s.seenPtrs) (p : UInt64) :
    p ∈ s.seenPtrs ↔ p ≠ 0 ∧ p ∈ (done ++ [c]).map Prod.snd := by
  rw [h.ptrs, List.map_append, List.mem_append, List.map_singleton, List.mem_singleton]
  refine and_congr_right fun hp => ⟨.inl, ?_⟩
  rintro (hmem | rfl)
  · exact hmem
  · exact ((h.ptrs c.2).mp (hseen.resolve_left hp)).2

theorem ptrs_of_new (h : Swept m outDir ios fs done s) (hzero : c.2 ≠ 0) (p : UInt64) :
    p ∈ s.seenPtrs ++ [c.2] ↔ p ≠ 0 ∧ p ∈ (done ++ [c]).map Prod.snd := by
  rw [List.mem_append, h.ptrs, List.map_append, List.mem_append, List.map_singleton, and_or_left]
  refine or_congr_right ?_
  rw [List.mem_singleton]
  exact ⟨fun hp => ⟨hp ▸ hzero, hp⟩, fun hp => hp.2⟩

theorem readable_of_new (h : Swept m outDir ios fs done s) (hread : Readable m c.2) (p : UInt64)
    (hp : p ∈ s.seenPtrs ++ [c.2]) : Readable m p := by
  rcases List.mem_append.mp hp with hp | hp
  · exact h.readable p hp
  · rw [List.mem_singleton.mp hp]
    exact hread

/-- The keys that have been seen are those of the sizes and checksums. -/
theorem Swept.mem_seen (h : Swept m outDir ios fs done s) {bytes : List UInt8}
    (hsize : 12 ≤ bytes.length ∧ bytes.length ≤ maxDexSize) :
    keyOf (repair bytes) ∈ s.seen ↔ tag bytes ∈ (firsts tag (imagesOf m done)).map tag := by
  rw [h.seen, List.mem_map, List.mem_map]
  refine exists_congr fun b => and_congr_right fun hb => ?_
  exact keyOf_repair_inj (length_of_mem_imagesOf (mem_of_mem_firsts hb)) hsize

theorem Swept.add (h : Swept m outDir ios fs done s) (hzero : c.2 ≠ 0) {bytes : List UInt8}
    (himage : imageAt m c.2 = some bytes) (hnew : tag bytes ∉ (firsts tag (imagesOf m done)).map tag)
    {s' : AllState} (repaired : Bool) (kind : Text)
    (hptrs : s'.seenPtrs = s.seenPtrs ++ [c.2]) (hseen : s'.seen = s.seen ++ [keyOf (repair bytes)])
    (hindex : s'.index = s.index + 1) (hread : Readable m c.2)
    (hwrite : let path := outDir ++ slash :: fileName (s.index + 1) c.1 (stored (repair bytes))
      let w := writeFile s.fs path (repair bytes) (repair bytes).length (ios (s.index + 1))
      s'.fs = w.1 ∧
        s'.written = if w.2 = true then s.written ++ [⟨path, repair bytes, repaired, kind⟩] else s.written) :
    Swept m outDir ios fs (done ++ [c]) s' := by
  have hlen := length_of_imageAt himage
  have hfirsts : firsts tag (imagesOf m (done ++ [c])) = firsts tag (imagesOf m done) ++ [bytes] := by
    rw [imagesOf_concat, if_neg hzero, himage, Option.toList_some, firsts_concat]
    exact if_neg hnew
  have hold (w : Written) (hw : w ∈ s.written) :
      w.path ≠ outDir ++ slash :: fileName (s.index + 1) c.1 (stored (repair bytes)) := by
    obtain ⟨k, name, crc, hk, hpath⟩ := h.names w hw
    rw [hpath]
    intro heq
    have hindices := fileName_inj (List.cons.inj (List.append_cancel_left heq)).2
    omega
  obtain ⟨hfs, hwritten⟩ := hwrite
  have hsaved := saved_concat ios 0 (firsts tag (imagesOf m done)) bytes
  rw [Nat.zero_add, ← h.index, ← length_repair hlen.1] at hsaved
  have hframe (content : List UInt8) (p : Text) (hp : ∀ k name crc, p ≠ outDir ++ slash :: fileName k name crc) :
      s.fs.put (outDir ++ slash :: fileName (s.index + 1) c.1 (stored (repair bytes))) content p = fs p := by
    rw [s.fs.put_of_ne content (hp _ _ _), h.frame p hp]
  rcases writeFile_cases s.fs (outDir ++ slash :: fileName (s.index + 1) c.1 (stored (repair bytes)))
      (ios (s.index + 1)) (Nat.le_refl (repair bytes).length) with ⟨hdone, -, hfile⟩ | ⟨hdone, fs', hfile, hcases⟩
  · rw [hfile] at hfs hwritten
    rw [if_pos rfl] at hwritten
    rw [if_pos hdone] at hsaved
    refine ⟨by rw [hptrs]; exact ptrs_of_new h hzero, by rw [hptrs]; exact readable_of_new h hread, ?_, ?_, ?_, ?_, ?_, ?_⟩
    · rw [hseen, hfirsts, List.map_append, h.seen, List.map_singleton]
    · rw [hindex, hfirsts, List.length_append, h.index, List.length_singleton]
    · rw [hwritten, hfirsts, hsaved, List.map_append, h.written, List.map_singleton]
    · rw [hwritten, hindex]
      intro w hw
      rcases List.mem_append.mp hw with hw | hw
      · obtain ⟨k, name, crc, hk, hpath⟩ := h.names w hw
        exact ⟨k, name, crc, Nat.le_succ_of_le hk, hpath⟩
      · rw [List.mem_singleton.mp hw]
        exact ⟨_, _, _, Nat.le_refl _, rfl⟩
    · rw [hwritten, hfs]
      intro w hw
      rcases List.mem_append.mp hw with hw | hw
      · exact (s.fs.put_of_ne _ (hold w hw)).trans (h.files w hw)
      · rw [List.mem_singleton.mp hw]
        exact s.fs.put_self _ _
    · rw [hfs]
      exact hframe _
  · rw [hfile] at hfs hwritten
    rw [if_neg nofun] at hwritten
    rw [if_neg (by rw [hdone]; nofun), List.append_nil] at hsaved
    refine ⟨by rw [hptrs]; exact ptrs_of_new h hzero, by rw [hptrs]; exact readable_of_new h hread, ?_, ?_, ?_, ?_, ?_, ?_⟩
    · rw [hseen, hfirsts, List.map_append, h.seen, List.map_singleton]
    · rw [hindex, hfirsts, List.length_append, h.index, List.length_singleton]
    · rw [hwritten, hfirsts, hsaved, h.written]
    · rw [hwritten, hindex]
      intro w hw
      obtain ⟨k, name, crc, hk, hpath⟩ := h.names w hw
      exact ⟨k, name, crc, Nat.le_succ_of_le hk, hpath⟩
    · rw [hwritten, hfs]
      intro w hw
      rcases hcases with rfl | ⟨content, -, rfl⟩
      · exact h.files w hw
      · exact (s.fs.put_of_ne _ (hold w hw)).trans (h.files w hw)
    · rw [hfs]
      rcases hcases with rfl | ⟨content, -, rfl⟩
      · exact h.frame
      · exact hframe _

/-- What one candidate does: it faults where its bytes cannot be read, and else the loops have done with it. -/
theorem Swept.step (h : Swept m outDir ios fs done s) (c : Text × UInt64) :
    (dumpOne m outDir ios c.1 s c.2 = none ∧ c.2 ≠ 0 ∧ ¬ Readable m c.2) ∨
      ∃ s', dumpOne m outDir ios c.1 s c.2 = some s' ∧ Swept m outDir ios fs (done ++ [c]) s' := by
  unfold dumpOne
  split_ifs with hseen
  · exact .inr ⟨s, rfl, h.skip (ptrs_of_seen h hseen) h.readable (images_of_seen h hseen) ⟨rfl, rfl, rfl, rfl⟩⟩
  · rw [not_or] at hseen
    cases hdex : dexMemoryFromArtDexFile m c.2 with
    | none =>
      have hread : Readable m c.2 := fun base size hsome => by
        rw [hdex] at hsome
        cases hsome
      have hnone : imageAt m c.2 = none := by
        unfold imageAt
        rw [hdex, Option.bind_none]
      refine .inr ⟨_, rfl, h.skip (ptrs_of_new h hseen.1) (readable_of_new h hread) ?_ ⟨rfl, rfl, rfl, rfl⟩⟩
      rw [imagesOf_concat, if_neg hseen.1, hnone, Option.toList_none, List.append_nil]
    | some dex =>
      obtain ⟨base, size⟩ := dex
      dsimp only
      cases hbytes : m.read base size with
      | none => exact .inl ⟨rfl, hseen.1, fun hread => hread base size hdex hbytes⟩
      | some bytes =>
        have hread : Readable m c.2 := fun base' size' hsome => by
          rw [hdex, Option.some.injEq, Prod.mk.injEq] at hsome
          rw [← hsome.1, ← hsome.2, hbytes]
          nofun
        have himage : imageAt m c.2 = some bytes := by
          unfold imageAt
          rw [hdex, Option.bind_some]
          exact hbytes
        have hlen := length_of_imageAt himage
        dsimp only
        rw [buildRepairedDex_out hlen.1]
        right
        by_cases hkey : keyOf (repair bytes) ∈ s.seen
        · rw [if_pos hkey]
          refine ⟨_, rfl, h.skip (ptrs_of_new h hseen.1) (readable_of_new h hread) ?_ ⟨rfl, rfl, rfl, rfl⟩⟩
          exact firsts_concat_of_seen (by rw [imagesOf_concat, if_neg hseen.1, himage, Option.toList_some])
            ((h.mem_seen hlen).mp hkey)
        · rw [if_neg hkey]
          have hnew := fun htag => hkey ((h.mem_seen hlen).mpr htag)
          split_ifs with hdone
          · exact ⟨_, rfl, h.add hseen.1 himage hnew _ _ rfl rfl rfl hread ⟨rfl, by rw [if_pos hdone]⟩⟩
          · exact ⟨_, rfl, h.add hseen.1 himage hnew false [] rfl rfl rfl hread ⟨rfl, by rw [if_neg hdone]⟩⟩

theorem Swept.run (h : Swept m outDir ios fs done s) (rest : List (Text × UInt64)) :
    (rest.foldlM (fun s c => dumpOne m outDir ios c.1 s c.2) s = none ∧ ∃ c ∈ rest, c.2 ≠ 0 ∧ ¬ Readable m c.2) ∨
      ∃ s', rest.foldlM (fun s c => dumpOne m outDir ios c.1 s c.2) s = some s' ∧
        Swept m outDir ios fs (done ++ rest) s' := by
  induction rest generalizing done s with
  | nil => exact .inr ⟨s, rfl, by rw [List.append_nil]; exact h⟩
  | cons c rest ih =>
    rw [List.foldlM_cons]
    rcases h.step c with ⟨hfault, hzero, hread⟩ | ⟨s', hs, hswept⟩
    · rw [hfault]
      exact .inl ⟨rfl, c, List.mem_cons_self, hzero, hread⟩
    · rw [hs, Option.bind_eq_bind, Option.bind_some, List.append_cons]
      refine (ih hswept).imp_left fun hfault => ⟨hfault.1, ?_⟩
      obtain ⟨c', hmem, hc'⟩ := hfault.2
      exact ⟨c', List.mem_cons_of_mem c hmem, hc'⟩

/-- What `JsDumpAllDex` does: it faults at a DEX that cannot be read, and else has done with all of them. -/
theorem dumpAllDex_cases (m : Mem) (outDir : Text) (ios : Nat → Io) (elements : List Element) (fs : Files) :
    (dumpAllDex m outDir ios elements fs = none ∧ ∃ dfp ∈ nativeDexFiles elements, ¬ Readable m dfp) ∨
      ∃ s, dumpAllDex m outDir ios elements fs = some s ∧ Swept m outDir ios fs (candidates elements) s ∧
        ∀ dfp ∈ nativeDexFiles elements, Readable m dfp := by
  have hnative (dfp : UInt64) : dfp ∈ nativeDexFiles elements ↔ dfp ≠ 0 ∧ dfp ∈ (candidates elements).map Prod.snd := by
    unfold nativeDexFiles
    rw [List.mem_filter, decide_eq_true_iff, and_comm]
  rcases swept_start.run (candidates elements) (m := m) with ⟨hfault, c, hc, hzero, hread⟩ | ⟨s, hs, hswept⟩
  · exact .inl ⟨hfault, c.2, (hnative c.2).mpr ⟨hzero, List.mem_map_of_mem hc⟩, hread⟩
  · rw [List.nil_append] at hswept
    exact .inr ⟨s, hs, hswept, fun dfp hdfp => hswept.readable dfp ((hswept.ptrs dfp).mpr ((hnative dfp).mp hdfp))⟩

end Sweep

/-- The images of one size and checksum are represented by their first. -/
theorem saved_right_iff (ios : Nat → Io) {bs : List (List UInt8)} (hlen : ∀ b ∈ bs, 12 ≤ b.length) :
    (∀ b ∈ bs, (saved ios 0 (firsts tag bs)).count (repair b) = 1) ↔
      (∀ a ∈ bs, ∀ b ∈ bs, tag a = tag b → repair a = repair b) ∧
        ∀ k b, (firsts tag bs)[k]? = some b → (ios (k + 1)).completes b.length b.length = true := by
  have hnodup := firsts_nodup tag bs
  have hfirst {b : List UInt8} (hb : b ∈ firsts tag bs) : b ∈ bs := mem_of_mem_firsts hb
  constructor
  · intro hcount
    have hsaved {b : List UInt8} (hb : b ∈ bs) : ∃ k f, (firsts tag bs)[k]? = some f ∧
        (ios (k + 1)).completes f.length f.length = true ∧ repair b = repair f := by
      have hmem := mem_saved_iff.mp (List.count_pos_iff.mp (by rw [hcount b hb]; exact Nat.one_pos))
      simpa only [Nat.zero_add] using hmem
    have htag {b f : List UInt8} (hb : b ∈ bs) (hf : f ∈ firsts tag bs) (h : repair b = repair f) : tag b = tag f := by
      rw [← tag_repair (hlen b hb), h, tag_repair (hlen f (hfirst hf))]
    constructor
    · intro a ha b hb htags
      obtain ⟨i, f, hi, -, hf⟩ := hsaved ha
      obtain ⟨j, g, hj, -, hg⟩ := hsaved hb
      have hfmem := List.mem_of_getElem? hi
      have hgmem := List.mem_of_getElem? hj
      have hsame : f = g :=
        eq_of_mem_firsts hfmem hgmem ((htag ha hfmem hf).symm.trans (htags.trans (htag hb hgmem hg)))
      rw [hf, hg, hsame]
    · intro k b hk
      have hbmem := List.mem_of_getElem? hk
      obtain ⟨j, f, hj, hdone, hf⟩ := hsaved (hfirst hbmem)
      have hfmem := List.mem_of_getElem? hj
      obtain rfl : b = f := eq_of_mem_firsts hbmem hfmem (htag (hfirst hbmem) hfmem hf)
      obtain rfl : j = k := by
        have hjlt := (List.getElem?_eq_some_iff.mp hj).1
        exact (List.Nodup.of_map tag hnodup).getElem_inj_iff.mp
          (by rw [(List.getElem?_eq_some_iff.mp hj).2, (List.getElem?_eq_some_iff.mp hk).2])
      exact hdone
  · rintro ⟨hdistinct, hwritten⟩ b hb
    rw [saved_eq_map (by simpa only [Nat.zero_add] using hwritten)]
    have htags : ((firsts tag bs).map repair).map tag = (firsts tag bs).map tag := by
      rw [List.map_map]
      exact List.map_congr_left fun f hf => tag_repair (hlen f (hfirst hf))
    refine List.count_eq_one_of_mem (List.Nodup.of_map tag (by rw [htags]; exact hnodup)) ?_
    obtain ⟨f, hf, htag⟩ := exists_firsts tag hb
    exact List.mem_map.mpr ⟨f, hf, hdistinct f (hfirst hf) b hb htag⟩

/-- A call for all DEX files is right exactly when their images are distinct and can be read and written. -/
theorem allRight_iff (m : Mem) (outDir : Text) (ios : Nat → Io) (elements : List Element) (fs : Files) :
    AllRight m elements (dumpAllDex m outDir ios elements fs) ↔ Distinct m ios elements := by
  rcases dumpAllDex_cases m outDir ios elements fs with ⟨hfault, dfp, hdfp, hread⟩ | ⟨s, hs, hswept, hread⟩
  · rw [hfault]
    constructor
    · rintro ⟨s, hs, -⟩
      cases hs
    · exact fun h => absurd (h.readable dfp hdfp) hread
  · have himages : imagesOf m (candidates elements) = images m elements := rfl
    have hlen (b : List UInt8) (hb : b ∈ images m elements) : 12 ≤ b.length := (length_of_mem_imagesOf hb).1
    have hwritten := hswept.written
    rw [himages] at hwritten
    have hright := saved_right_iff ios hlen
    rw [← hwritten] at hright
    rw [hs]
    constructor
    · rintro ⟨s', hs', hcount, -⟩
      obtain rfl := Option.some.inj hs'
      obtain ⟨hdistinct, hall⟩ := hright.mp hcount
      exact ⟨hread, hdistinct, hall⟩
    · intro h
      refine ⟨s, rfl, hright.mpr ⟨h.distinct, h.written⟩, fun w hw => ?_, hswept.files⟩
      have hmem := List.mem_map_of_mem (f := Written.content) hw
      rw [hwritten] at hmem
      obtain ⟨k, b, hk, -, hcontent⟩ := mem_saved_iff.mp hmem
      exact ⟨b, mem_of_mem_firsts (List.mem_of_getElem? hk), hcontent⟩

/-! ## Runs of calls -/

namespace Call

variable {c : Call} {fs : Files}

theorem found_next_of_none (h : c.dex = none) (d : Dex) : d.found (c.next fs) = d.found fs := by
  cases c with
  | method m art io =>
    have hnext : (Call.method m art io).next fs = fs := by
      unfold next dumpDexFromArtMethod
      cases hres : resolveDex m art with
      | none => simp only [hres]
      | some r =>
        cases r with
        | none => simp only [hres]
        | some d => rw [dex_method.mpr hres] at h; cases h
    rw [hnext]
  | all m outDir ios elements =>
    unfold next
    dsimp only
    rcases dumpAllDex_cases m outDir ios elements fs with ⟨hfault, -⟩ | ⟨s, hs, hswept, -⟩
    · rw [hfault]
    · rw [hs]
      unfold Dex.found
      dsimp only
      rw [hswept.frame d.path fun k name crc => (fileName_ne_path outDir k name crc d).symm]

/-- It is right if its images, where it is one for all DEX files, are distinct. -/
theorem right_iff_of_none (h : c.dex = none) :
    c.Right fs ↔ ∀ m outDir ios elements, c = .all m outDir ios elements → Distinct m ios elements := by
  cases c with
  | method m art io =>
    refine iff_of_true (fun r hr hok => ?_) nofun
    unfold dumpDexFromArtMethod at hr
    cases hres : resolveDex m art with
    | none =>
      rw [hres] at hr
      cases hr
    | some r' =>
      cases r' with
      | none =>
        rw [hres] at hr
        rw [← Option.some.inj hr] at hok
        cases hok
      | some d =>
        rw [dex_method.mpr hres] at h
        cases h
  | all m outDir ios elements =>
    unfold Right
    dsimp only
    rw [allRight_iff]
    constructor
    · rintro hdistinct _ _ _ _ ⟨⟩
      exact hdistinct
    · exact fun hdistinct => hdistinct m outDir ios elements rfl

end Call

section Runs

variable {fs : Files} {c : Call} {calls : List Call}

theorem undisturbed_cons_of_none (h : c.dex = none) :
    Undisturbed fs (c :: calls) ↔ c.Right fs ∧ Undisturbed (c.next fs) calls := by
  rw [Call.right_iff_of_none h]
  have hfound (d : Dex) : d.found (c.next fs) = d.found fs := Call.found_next_of_none h d
  constructor
  · intro hrun
    refine ⟨fun m outDir ios elements hc => hrun.all m outDir ios elements (hc ▸ List.mem_cons_self),
      fun c' hmem d hd file hfile => ?_, fun pre c' rest hsplit d hd hdone hnone hpre => ?_,
      fun m outDir ios elements hmem => hrun.all m outDir ios elements (List.mem_cons_of_mem c hmem)⟩
    · rw [hfound] at hfile
      exact hrun.kept c' (List.mem_cons_of_mem c hmem) d hd file hfile
    · rw [hfound] at hnone
      refine hrun.fresh (c :: pre) c' rest (by rw [hsplit, List.cons_append]) d hd hdone hnone fun e he d' hd' => ?_
      rcases List.mem_cons.mp he with rfl | he
      · rw [h] at hd'
        cases hd'
      · exact hpre e he d' hd'
  · rintro ⟨hright, hrun⟩
    refine ⟨fun c' hmem d hd file hfile => ?_, fun pre c' rest hsplit d hd hdone hnone hpre => ?_,
      fun m outDir ios elements hmem => ?_⟩
    · rcases List.mem_cons.mp hmem with rfl | hmem
      · rw [h] at hd
        cases hd
      · exact hrun.kept c' hmem d hd file (by rw [hfound, hfile])
    · cases pre with
      | nil =>
        obtain ⟨rfl, -⟩ := List.cons.inj hsplit
        rw [h] at hd
        cases hd
      | cons e pre =>
        obtain ⟨rfl, hrest⟩ := List.cons.inj hsplit
        exact hrun.fresh pre c' rest hrest d hd hdone (by rw [hfound, hnone])
          fun e he => hpre e (List.mem_cons_of_mem c he)
    · rcases List.mem_cons.mp hmem with hc | hmem
      · exact hright m outDir ios elements hc.symm
      · exact hrun.all m outDir ios elements hmem

theorem undisturbed_cons_of_some {d : Dex} (h : c.dex = some d) :
    Undisturbed fs (c :: calls) ↔ c.Right fs ∧ Undisturbed (c.next fs) calls := by
  rw [Call.right_method_iff h]
  have hfound (d' : Dex) : d'.found (c.next fs) =
      (d'.found fs).or (if d'.path = d.path ∧ c.completes d = true then some (c.dumps d) else none) :=
    Call.found_next h d'
  constructor
  · intro hrun
    refine ⟨⟨hrun.kept c List.mem_cons_self d h, fun hnone hdone => ?_⟩,
      fun c' hmem d' hd' file hfile => ?_, fun pre c' rest hsplit d' hd' hdone hnone hpre => ?_,
      fun m outDir ios elements hmem => hrun.all m outDir ios elements (List.mem_cons_of_mem c hmem)⟩
    · exact hrun.fresh [] c calls rfl d h hdone hnone nofun c List.mem_cons_self d h rfl
    · rw [hfound, Option.or_eq_some_iff] at hfile
      rcases hfile with hfile | ⟨hnone, hwrite⟩
      · exact hrun.kept c' (List.mem_cons_of_mem c hmem) d' hd' file hfile
      · split_ifs at hwrite with hsame
        obtain rfl := Option.some.inj hwrite
        rw [Dex.found_congr hsame.1] at hnone
        exact hrun.fresh [] c calls rfl d h hsame.2 hnone nofun c' (List.mem_cons_of_mem c hmem) d' hd' hsame.1
    · rw [hfound, Option.or_eq_none_iff] at hnone
      refine hrun.fresh (c :: pre) c' rest (by rw [hsplit, List.cons_append]) d' hd' hdone hnone.1
        fun e he d'' hd'' hpath => ?_
      rcases List.mem_cons.mp he with rfl | he
      · obtain rfl := Option.some.inj (h.symm.trans hd'')
        by_contra hnot
        rw [if_pos ⟨hpath.symm, (Bool.not_eq_false _).mp hnot⟩] at hnone
        cases hnone.2
      · exact hpre e he d'' hd'' hpath
  · rintro ⟨⟨hkept, hwrites⟩, hrun⟩
    refine ⟨fun c' hmem d' hd' file hfile => ?_, fun pre c' rest hsplit d' hd' hdone hnone hpre => ?_,
      fun m outDir ios elements hmem => ?_⟩
    · rcases List.mem_cons.mp hmem with rfl | hmem
      · obtain rfl := Option.some.inj (h.symm.trans hd')
        exact hkept file hfile
      · exact hrun.kept c' hmem d' hd' file (by rw [hfound, hfile, Option.some_or])
    · cases pre with
      | nil =>
        obtain ⟨rfl, rfl⟩ := List.cons.inj hsplit
        obtain rfl := Option.some.inj (h.symm.trans hd')
        intro c' hmem e he hpath
        rcases List.mem_cons.mp hmem with rfl | hmem
        · obtain rfl := Option.some.inj (h.symm.trans he)
          exact hwrites hnone hdone
        · refine hrun.kept c' hmem e he _ ?_
          rw [hfound, Dex.found_congr hpath, hnone, Option.none_or, if_pos ⟨hpath, hdone⟩]
      | cons e pre =>
        obtain ⟨rfl, hrest⟩ := List.cons.inj hsplit
        refine hrun.fresh pre c' rest hrest d' hd' hdone ?_ fun e he => hpre e (List.mem_cons_of_mem c he)
        rw [hfound, hnone, Option.none_or]
        refine if_neg fun hsame => ?_
        rw [hpre c List.mem_cons_self d h hsame.1.symm] at hsame
        cases hsame.2
    · rcases List.mem_cons.mp hmem with rfl | hmem
      · cases h
      · exact hrun.all m outDir ios elements hmem

/-- Every call of a run is right exactly when the run is undisturbed. -/
theorem runRight_iff (fs : Files) (calls : List Call) : RunRight fs calls ↔ Undisturbed fs calls := by
  induction calls generalizing fs with
  | nil =>
    refine iff_of_true trivial ⟨nofun, fun pre c rest hsplit => ?_, nofun⟩
    cases pre <;> cases hsplit
  | cons c calls ih =>
    rw [RunRight, ih]
    cases hdex : c.dex with
    | none => exact (undisturbed_cons_of_none hdex).symm
    | some d => exact (undisturbed_cons_of_some hdex).symm

end Runs

/-- A DEX of 113 bytes at 0x5000 that ends with that byte, and the objects from its method to it. -/
def sampleMem (last : UInt8) : Mem := fun a =>
  some (if a = 0x1001 then 0x20 else if a = 0x2011 then 0x30 else if a = 0x3011 then 0x40 else if a = 0x4009 then 0x50
    else if a = 0x4010 then 0x71 else if 0x5000 ≤ a ∧ a < 0x5008 then (ascii "dex\n035\x00").getD (a - 0x5000).toNat 0
    else if a = 0x5070 then last else 0)

set_option maxRecDepth 8192 in
/-- Code behind the header is replaced between two dumps: the file of the first stays and is taken for the second. -/
theorem not_runRight : ¬ ∀ fs calls, RunRight fs calls := by
  intro h
  obtain ⟨-, hsecond, -⟩ := h (fun _ => none)
    [.method (sampleMem 1) 0x1000 (some [113]), .method (sampleMem 2) 0x1000 (some [113])]
  have hdex (last : UInt8) (hlast : last = 1 ∨ last = 2) :
      (Call.method (sampleMem last) 0x1000 (some [113])).dex = some ⟨0x5000, 0x5000, 113, 0⟩ := by
    rcases hlast with rfl | rfl <;> decide
  have himage := ((Call.right_method_iff (hdex 2 (.inr rfl))).mp hsecond).1
    ((Call.method (sampleMem 1) 0x1000 (some [113])).dumps ⟨0x5000, 0x5000, 113, 0⟩)
    (by rw [Call.found_next (hdex 1 (.inl rfl))]; decide)
  exact absurd himage (by decide)

end ArtPi.Agent.DumpDex
