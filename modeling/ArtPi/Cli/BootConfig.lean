import ArtPi.Cli.StringLiteral
import ArtPi.Lib.Keyed
import ArtPi.Lib.Numerals
import Mathlib.Data.List.DropRight

set_option autoImplicit false

/-! # The boot configuration (`cli/injector/main.cpp`, `src/agent/agent_main.cpp`)

The options of a launch in spawn mode reach the agent twice: in a file of lines that the injector writes and the agent
reads before it serves, and in the script that is sent on the first connection. -/

namespace ArtPi.Cli.BootConfig

open Lib.Keyed Lib.Numerals StringLiteral Unity Net

abbrev Text := List UInt8

/-- A text without a newline or a NUL. -/
abbrev Line := { t : Text // lf ∉ t ∧ (0 : UInt8) ∉ t }

/-- The options of the command line that the agent is told. -/
structure Options where
  serverMode : Bool
  pauseMainThread : Bool
  libLog : Bool
  libConstructors : Bool
  fullLog : Bool
  stopLib : Line
  qbdiFilter : Line
  maxLog : UInt64

/-- `ShouldAutoGateSpawn`, where the target is spawned. -/
def shouldAutoGateSpawn (opt : Options) : Bool :=
  !opt.pauseMainThread && (opt.libLog || opt.libConstructors || opt.stopLib.1 ≠ [])

def writtenMaxLog (opt : Options) : UInt64 := if opt.fullLog then 0 else opt.maxLog

/-! ## The file -/

def equals : UInt8 := 0x3d

/-- `"%d"` of a flag -/
def flag (b : Bool) : Text := ascii (if b then "1" else "0")

def bootLines (opt : Options) (unityLibDir : Line) : List (Text × Text) :=
  [(ascii "libLog", flag opt.libLog),
    (ascii "stopLib", opt.stopLib.1),
    (ascii "autoResume", flag (shouldAutoGateSpawn opt)),
    (ascii "ctors", flag opt.libConstructors),
    (ascii "qbdiFilter", opt.qbdiFilter.1),
    (ascii "qbdiMaxLog", decimal (writtenMaxLog opt).toNat),
    (ascii "unityLibDir", unityLibDir.1)]

/-- `artpi_boot.cfg`: what `snprintf` puts into `buf[512]`. -/
def bootFile (opt : Options) (unityLibDir : Line) : Text := (render equals lf (bootLines opt unityLibDir)).take 511

structure Boot where
  libLog : Bool
  stopLib : Text
  autoResume : Bool
  ctors : Bool
  qbdiFilter : Text
  qbdiMaxLog : UInt64
  unityLibDir : Text
  deriving DecidableEq

/-- `c.find(key) != npos` -/
def isFound (key c : Text) : Bool := (after key c).isSome

/-- What follows `c.find(key)` up to the newline. -/
def valueOf (key c : Text) : Option Text := (after key c).map (fun r => r.takeWhile (fun b => decide (b ≠ lf)))

/-- `qbdiMaxLog`, 100 where nothing is said. -/
def maxLogOf : Option Text → UInt64
  | none => 100
  | some s => if s = [] then 100 else strtoull 0 s

def isTrailing (b : UInt8) : Bool := b = cr || b = 0x20

def trimmed (t : Text) : Text := t.rdropWhile isTrailing

/-- What `AgentThreadEntry` takes from the file. -/
def readBoot (file : Text) : Boot :=
  let c := (file.take 511).takeWhile (fun b => decide (b ≠ 0))
  { libLog := isFound (ascii "libLog=1") c
    stopLib := (valueOf (ascii "stopLib=") c).getD []
    autoResume := isFound (ascii "autoResume=1") c
    ctors := isFound (ascii "ctors=1") c
    qbdiFilter := (valueOf (ascii "qbdiFilter=") c).getD []
    qbdiMaxLog := maxLogOf (valueOf (ascii "qbdiMaxLog=") c)
    unityLibDir := trimmed ((valueOf (ascii "unityLibDir=") c).getD []) }

/-- What was written. -/
def writtenBoot (opt : Options) (unityLibDir : Line) : Boot where
  libLog := opt.libLog
  stopLib := opt.stopLib.1
  autoResume := shouldAutoGateSpawn opt
  ctors := opt.libConstructors
  qbdiFilter := opt.qbdiFilter.1
  qbdiMaxLog := writtenMaxLog opt
  unityLibDir := unityLibDir.1

/-! ## The script -/

def scriptHead : Text := ascii "HW.watchDlopen(\x7b stopLib: "

def boolText (b : Bool) : Text := ascii (if b then "true" else "false")

def scriptTail (opt : Options) : Text :=
  ascii ", libLog: " ++ boolText opt.libLog ++ ascii ", constructors: " ++ boolText opt.libConstructors ++
    ascii " \x7d);"

/-- The script that `HandleConnectedSession` sends. -/
def sentScript (opt : Options) : Option Text :=
  if opt.serverMode then none
  else if opt.libLog || opt.libConstructors || opt.stopLib.1 ≠ [] then
    some (scriptHead ++ dquote :: (opt.stopLib.1 ++ dquote :: scriptTail opt))
  else none

/-- The string that the script is evaluated with: the literal behind `stopLib`. -/
def watchedLib (script : Text) : Option Text :=
  (literal ((preprocessUnityLine script).drop (scriptHead.length + 1))).map Prod.fst

/-! ## What reaches the agent -/

structure Unchanged (opt : Options) (unityLibDir : Line) : Prop where
  boot : readBoot (bootFile opt unityLibDir) = writtenBoot opt unityLibDir
  script : ∀ script, sentScript opt = some script → watchedLib script = some opt.stopLib.1

/-- What is kept of the filter. -/
def keptFilter (opt : Options) : Text := opt.qbdiFilter.1.take (461 - opt.stopLib.1.length)

/-- What is kept of the directory. -/
def keptUnityLibDir (opt : Options) (unityLibDir : Line) : Text :=
  unityLibDir.1.take (436 - opt.stopLib.1.length - opt.qbdiFilter.1.length - (decimal (writtenMaxLog opt).toNat).length)

/-- A piece of text stands in one of the values. -/
def InValue (opt : Options) (unityLibDir : Line) (key : Text) : Prop :=
  ∃ v ∈ [opt.stopLib.1, keptFilter opt, keptUnityLibDir opt unityLibDir], key <:+: v

/-- A flag that is set fits, or is said within a value; one that is not is not said there. -/
def FlagIntact (written : Bool) (fits found : Prop) : Prop := if written = true then fits ∨ found else ¬ found

/-- A key is taken from the first value above its line that has it, else from its line. -/
def TakenFrom (key : Text) (above : List Text) (right : Text → Prop) (own : Prop) : Prop :=
  match above.findSome? (after key) with
  | some v => right v
  | none => own

/-- Nothing is cut off, no value has the key of another one, and the literal is plain, as far as it matters. -/
structure Intact (opt : Options) (unityLibDir : Line) : Prop where
  stopLib : opt.stopLib.1.length ≤ 494
  libLog : FlagIntact opt.libLog True (InValue opt unityLibDir (ascii "libLog=1"))
  autoResume : FlagIntact (shouldAutoGateSpawn opt) (opt.stopLib.1.length ≤ 481)
    (InValue opt unityLibDir (ascii "autoResume=1"))
  ctors : FlagIntact opt.libConstructors (opt.stopLib.1.length ≤ 473) (InValue opt unityLibDir (ascii "ctors=1"))
  qbdiFilter : TakenFrom (ascii "qbdiFilter=") [opt.stopLib.1] (fun v => v = opt.qbdiFilter.1)
    (opt.stopLib.1.length + opt.qbdiFilter.1.length ≤ 461 ∨ opt.qbdiFilter.1 = [])
  qbdiMaxLog : TakenFrom (ascii "qbdiMaxLog=") [opt.stopLib.1, keptFilter opt]
    (fun v => maxLogOf (some v) = writtenMaxLog opt)
    (opt.stopLib.1.length + opt.qbdiFilter.1.length + (decimal (writtenMaxLog opt).toNat).length ≤ 449 ∨
      449 ≤ opt.stopLib.1.length + opt.qbdiFilter.1.length ∧ writtenMaxLog opt = 100)
  unityLibDir : TakenFrom (ascii "unityLibDir=") [opt.stopLib.1, keptFilter opt] (fun v => trimmed v = unityLibDir.1)
    ((opt.stopLib.1.length + opt.qbdiFilter.1.length + (decimal (writtenMaxLog opt).toNat).length +
      unityLibDir.1.length ≤ 436 ∨ unityLibDir.1 = []) ∧ trimmed unityLibDir.1 = unityLibDir.1)
  script : sentScript opt = none ∨ IsPlain opt.stopLib.1 ∧ IsText opt.stopLib.1

/-! ## The lines -/

section

variable (opt : Options) (unityLibDir : Line)

theorem decimal_notMem {n : Nat} {b : UInt8} (hb : isDigit 10 b = false) : b ∉ decimal n := by
  intro hmem
  have hdigit := List.all_eq_true.mp (decimal_spec n).1 b hmem
  rw [hb] at hdigit
  cases hdigit

theorem length_flag (b : Bool) : (flag b).length = 1 := by
  cases b <;> rfl

theorem flag_notMem (b : Bool) : lf ∉ flag b ∧ (0 : UInt8) ∉ flag b := by
  cases b <;> decide

def keys : List Text :=
  [ascii "libLog", ascii "stopLib", ascii "autoResume", ascii "ctors", ascii "qbdiFilter", ascii "qbdiMaxLog",
    ascii "unityLibDir"]

theorem bootLines_clean :
    ∀ l ∈ bootLines opt unityLibDir, (equals ∉ l.1 ∧ (0 : UInt8) ∉ l.1) ∧ lf ∉ l.2 ∧ (0 : UInt8) ∉ l.2 := by
  intro l hl
  have hkeys : ∀ k ∈ keys, equals ∉ k ∧ (0 : UInt8) ∉ k := by decide
  refine ⟨hkeys l.1 (List.mem_map_of_mem hl : l.1 ∈ (bootLines opt unityLibDir).map Prod.fst), ?_⟩
  simp only [bootLines, List.mem_cons, List.not_mem_nil, or_false] at hl
  rcases hl with rfl | rfl | rfl | rfl | rfl | rfl | rfl
  · exact flag_notMem _
  · exact opt.stopLib.2
  · exact flag_notMem _
  · exact flag_notMem _
  · exact opt.qbdiFilter.2
  · exact ⟨decimal_notMem (by decide), decimal_notMem (by decide)⟩
  · exact unityLibDir.2

theorem read_bootFile :
    ((bootFile opt unityLibDir).take 511).takeWhile (fun b => decide (b ≠ 0)) =
      (render equals lf (bootLines opt unityLibDir)).take 511 := by
  unfold bootFile
  rw [List.take_take, Nat.min_self]
  refine takeWhile_self (fun hmem => ?_)
  rcases mem_render (List.mem_of_mem_take hmem) with h | h | ⟨l, hl, h⟩
  · exact absurd h (by decide)
  · exact absurd h (by decide)
  · obtain ⟨⟨-, hkey⟩, -, hvalue⟩ := bootLines_clean opt unityLibDir l hl
    exact h.elim hkey hvalue

theorem valueOf_boot {k w : Text} (hk : equals ∉ k ∧ lf ∉ k) (hw : lf ∉ w) :
    valueOf (k ++ equals :: w) ((render equals lf (bootLines opt unityLibDir)).take 511) =
      lookup equals k w 511 (bootLines opt unityLibDir) := by
  refine after_take_render hk.1 hk.2 hw (by decide) (fun l hl => ?_) 511
  obtain ⟨⟨hkey, -⟩, hvalue, -⟩ := bootLines_clean opt unityLibDir l hl
  exact ⟨hkey, hvalue⟩

theorem isFound_boot {k w : Text} (hk : equals ∉ k ∧ lf ∉ k) (hw : lf ∉ w) :
    isFound (k ++ equals :: w) ((render equals lf (bootLines opt unityLibDir)).take 511) =
      (lookup equals k w 511 (bootLines opt unityLibDir)).isSome := by
  rw [← valueOf_boot opt unityLibDir hk hw]
  unfold isFound valueOf
  rw [Option.isSome_map]

/-! ## What is kept -/

theorem length_keys : (ascii "libLog").length = 6 ∧ (ascii "stopLib").length = 7 ∧ (ascii "autoResume").length = 10 ∧
    (ascii "ctors").length = 5 ∧ (ascii "qbdiFilter").length = 10 ∧ (ascii "qbdiMaxLog").length = 10 ∧
    (ascii "unityLibDir").length = 11 := by
  decide

theorem keptValues_bootLines : keptValues 511 (bootLines opt unityLibDir) =
    [(flag opt.libLog).take 504, opt.stopLib.1.take 494,
      (flag (shouldAutoGateSpawn opt)).take (482 - opt.stopLib.1.length),
      (flag opt.libConstructors).take (474 - opt.stopLib.1.length), keptFilter opt,
      (decimal (writtenMaxLog opt).toNat).take (449 - opt.stopLib.1.length - opt.qbdiFilter.1.length),
      keptUnityLibDir opt unityLibDir] := by
  obtain ⟨hlibLog, hstopLib, hautoResume, hctors, hfilter, hmaxLog, hunity⟩ := length_keys
  simp only [bootLines, keptValues, length_flag, hlibLog, hstopLib, hautoResume, hctors, hfilter, hmaxLog, hunity,
    keptFilter, keptUnityLibDir, List.cons.injEq, and_true]
  refine ⟨trivial, trivial, ?_, ?_, ?_, ?_, ?_⟩
  all_goals
    congr 1
    omega

theorem size_above : size ((bootLines opt unityLibDir).take 1) = 9 ∧
    size ((bootLines opt unityLibDir).take 2) = 18 + opt.stopLib.1.length ∧
    size ((bootLines opt unityLibDir).take 3) = 31 + opt.stopLib.1.length ∧
    size ((bootLines opt unityLibDir).take 4) = 39 + opt.stopLib.1.length ∧
    size ((bootLines opt unityLibDir).take 5) = 51 + opt.stopLib.1.length + opt.qbdiFilter.1.length ∧
    size ((bootLines opt unityLibDir).take 6) = 63 + opt.stopLib.1.length + opt.qbdiFilter.1.length +
      (decimal (writtenMaxLog opt).toNat).length := by
  obtain ⟨hlibLog, hstopLib, hautoResume, hctors, hfilter, hmaxLog, -⟩ := length_keys
  simp only [bootLines, List.take_succ_cons, List.take_zero, size, length_flag, hlibLog, hstopLib, hautoResume, hctors,
    hfilter, hmaxLog, true_and]
  refine ⟨?_, ?_, ?_, ?_, ?_⟩
  all_goals omega

theorem after_flag {key : Text} (hkey : 1 < key.length) (b : Bool) (n : Nat) : after key ((flag b).take n) = none := by
  refine after_eq_none_of_length_lt (Nat.lt_of_le_of_lt ?_ hkey)
  rw [List.length_take, length_flag]
  exact Nat.min_le_right _ _

theorem after_decimal {key : Text} (hkey : equals ∈ key) (m n : Nat) : after key ((decimal m).take n) = none :=
  after_eq_none_of_notMem hkey (fun hmem => decimal_notMem (by decide) (List.mem_of_mem_take hmem))

/-- A value is taken from the values above its line, or from what is left of its own. -/
theorem lookup_line {i : Nat} {k v : Text}
    (hline : (bootLines opt unityLibDir).drop i = (k, v) :: (bootLines opt unityLibDir).drop (i + 1))
    (habove : ∀ key ∈ keys.take i, ¬ k <:+ key) :
    lookup equals k [] 511 (bootLines opt unityLibDir) =
      (((keptValues 511 (bootLines opt unityLibDir)).take i).findSome? (after (k ++ [equals]))).or
        (if k.length < 511 - size ((bootLines opt unityLibDir).take i) then
          some (v.take (511 - size ((bootLines opt unityLibDir).take i) - (k.length + 1)))
        else none) := by
  have hsplit := List.take_append_drop i (bootLines opt unityLibDir)
  rw [hline] at hsplit
  have hkeys : ∀ l ∈ (bootLines opt unityLibDir).take i, ¬ k <:+ l.1 := by
    intro l hl
    refine habove l.1 ?_
    have hmap : ((bootLines opt unityLibDir).take i).map Prod.fst = keys.take i := List.map_take
    rw [← hmap]
    exact List.mem_map_of_mem hl
  rw [← keptValues_take, ← lookup_key (e := equals) _ v ((bootLines opt unityLibDir).drop (i + 1)),
    ← lookup_append hkeys, hsplit]

theorem lookup_stopLib :
    lookup equals (ascii "stopLib") [] 511 (bootLines opt unityLibDir) = some (opt.stopLib.1.take 494) := by
  have hline : (bootLines opt unityLibDir).drop 1 =
      (ascii "stopLib", opt.stopLib.1) :: (bootLines opt unityLibDir).drop 2 := rfl
  have hkey : 1 < (ascii "stopLib" ++ [equals]).length := by decide
  obtain ⟨hsize, -⟩ := size_above opt unityLibDir
  rw [lookup_line opt unityLibDir hline (by decide), hsize, keptValues_bootLines]
  simp only [List.take_succ_cons, List.take_zero, List.findSome?_cons, List.findSome?_nil, after_flag hkey]
  rfl

theorem lookup_qbdiFilter (hlen : opt.stopLib.1.length ≤ 494) :
    lookup equals (ascii "qbdiFilter") [] 511 (bootLines opt unityLibDir) =
      ([opt.stopLib.1].findSome? (after (ascii "qbdiFilter="))).or
        (if opt.stopLib.1.length ≤ 461 then some (keptFilter opt) else none) := by
  have hline : (bootLines opt unityLibDir).drop 4 =
      (ascii "qbdiFilter", opt.qbdiFilter.1) :: (bootLines opt unityLibDir).drop 5 := rfl
  have hkey : 1 < (ascii "qbdiFilter" ++ [equals]).length := by decide
  obtain ⟨-, -, -, hsize, -⟩ := size_above opt unityLibDir
  obtain ⟨-, -, -, -, hfilter, -⟩ := length_keys
  have hown : 10 < 511 - (39 + opt.stopLib.1.length) ↔ opt.stopLib.1.length ≤ 461 := by omega
  have hleft : 511 - (39 + opt.stopLib.1.length) - (10 + 1) = 461 - opt.stopLib.1.length := by omega
  rw [lookup_line opt unityLibDir hline (by decide), hsize, hfilter, hleft, keptValues_bootLines,
    List.take_of_length_le hlen]
  simp only [List.take_succ_cons, List.take_zero, List.findSome?_cons, List.findSome?_nil, after_flag hkey, hown]
  rfl

theorem lookup_qbdiMaxLog (hlen : opt.stopLib.1.length ≤ 494) :
    lookup equals (ascii "qbdiMaxLog") [] 511 (bootLines opt unityLibDir) =
      ([opt.stopLib.1, keptFilter opt].findSome? (after (ascii "qbdiMaxLog="))).or
        (if opt.stopLib.1.length + opt.qbdiFilter.1.length ≤ 449 then
          some ((decimal (writtenMaxLog opt).toNat).take (449 - opt.stopLib.1.length - opt.qbdiFilter.1.length))
        else none) := by
  have hline : (bootLines opt unityLibDir).drop 5 =
      (ascii "qbdiMaxLog", decimal (writtenMaxLog opt).toNat) :: (bootLines opt unityLibDir).drop 6 := rfl
  have hkey : 1 < (ascii "qbdiMaxLog" ++ [equals]).length := by decide
  obtain ⟨-, -, -, -, hsize, -⟩ := size_above opt unityLibDir
  obtain ⟨-, -, -, -, -, hmaxLog, -⟩ := length_keys
  have hown : 10 < 511 - (51 + opt.stopLib.1.length + opt.qbdiFilter.1.length) ↔
      opt.stopLib.1.length + opt.qbdiFilter.1.length ≤ 449 := by omega
  have hleft : 511 - (51 + opt.stopLib.1.length + opt.qbdiFilter.1.length) - (10 + 1) =
      449 - opt.stopLib.1.length - opt.qbdiFilter.1.length := by omega
  rw [lookup_line opt unityLibDir hline (by decide), hsize, hmaxLog, hleft, keptValues_bootLines,
    List.take_of_length_le hlen]
  simp only [List.take_succ_cons, List.take_zero, List.findSome?_cons, List.findSome?_nil, after_flag hkey, hown]
  rfl

theorem lookup_unityLibDir (hlen : opt.stopLib.1.length ≤ 494) :
    lookup equals (ascii "unityLibDir") [] 511 (bootLines opt unityLibDir) =
      ([opt.stopLib.1, keptFilter opt].findSome? (after (ascii "unityLibDir="))).or
        (if opt.stopLib.1.length + opt.qbdiFilter.1.length + (decimal (writtenMaxLog opt).toNat).length ≤ 436 then
          some (keptUnityLibDir opt unityLibDir)
        else none) := by
  have hline : (bootLines opt unityLibDir).drop 6 =
      (ascii "unityLibDir", unityLibDir.1) :: (bootLines opt unityLibDir).drop 7 := rfl
  have hkey : 1 < (ascii "unityLibDir" ++ [equals]).length := by decide
  have hsign : equals ∈ ascii "unityLibDir" ++ [equals] := by decide
  obtain ⟨-, -, -, -, -, hsize⟩ := size_above opt unityLibDir
  obtain ⟨-, -, -, -, -, -, hunity⟩ := length_keys
  have hown : 11 < 511 - (63 + opt.stopLib.1.length + opt.qbdiFilter.1.length +
      (decimal (writtenMaxLog opt).toNat).length) ↔
      opt.stopLib.1.length + opt.qbdiFilter.1.length + (decimal (writtenMaxLog opt).toNat).length ≤ 436 := by omega
  have hleft : 511 - (63 + opt.stopLib.1.length + opt.qbdiFilter.1.length +
      (decimal (writtenMaxLog opt).toNat).length) - (11 + 1) =
      436 - opt.stopLib.1.length - opt.qbdiFilter.1.length - (decimal (writtenMaxLog opt).toNat).length := by omega
  rw [lookup_line opt unityLibDir hline (by decide), hsize, hunity, hleft, keptValues_bootLines,
    List.take_of_length_le hlen]
  simp only [List.take_succ_cons, List.take_zero, List.findSome?_cons, List.findSome?_nil, after_flag hkey,
    after_decimal hsign, hown]
  rfl

theorem exists_kept_iff (hlen : opt.stopLib.1.length ≤ 494) {key : Text} (hkey : 1 < key.length)
    (hsign : equals ∈ key) :
    (∃ v ∈ keptValues 511 (bootLines opt unityLibDir), key <:+: v) ↔ InValue opt unityLibDir key := by
  have hflag : ∀ b n, ¬ key <:+: (flag b).take n := by
    intro b n h
    rw [← after_isSome_iff, after_flag hkey] at h
    cases h
  have hdecimal : ∀ m n, ¬ key <:+: (decimal m).take n := by
    intro m n h
    rw [← after_isSome_iff, after_decimal hsign] at h
    cases h
  rw [keptValues_bootLines, List.take_of_length_le hlen]
  unfold InValue
  simp only [List.mem_cons, List.not_mem_nil, or_false, or_and_right, exists_or, exists_eq_left, hflag, hdecimal,
    false_or]

theorem isFound_line (hlen : opt.stopLib.1.length ≤ 494) {i : Nat} {k : Text} {written : Bool}
    (hline : (bootLines opt unityLibDir).drop i = (k, flag written) :: (bootLines opt unityLibDir).drop (i + 1))
    (hkeys : ∀ key ∈ keys.take i ++ keys.drop (i + 1), ¬ k <:+ key) (hk : equals ∉ k ∧ lf ∉ k)
    {fits : Prop} (hfits : k.length + 2 ≤ 511 - size ((bootLines opt unityLibDir).take i) ↔ fits) :
    isFound (k ++ equals :: ascii "1") ((render equals lf (bootLines opt unityLibDir)).take 511) = written ↔
      FlagIntact written fits (InValue opt unityLibDir (k ++ equals :: ascii "1")) := by
  have hmap : (bootLines opt unityLibDir).map Prod.fst = keys := rfl
  have habove : ∀ l ∈ (bootLines opt unityLibDir).take i, ¬ k <:+ l.1 := by
    intro l hl
    refine hkeys l.1 (List.mem_append_left _ ?_)
    rw [← hmap, ← List.map_take]
    exact List.mem_map_of_mem hl
  have hbelow : ∀ l ∈ (bootLines opt unityLibDir).drop (i + 1), ¬ k <:+ l.1 := by
    intro l hl
    refine hkeys l.1 (List.mem_append_right _ ?_)
    rw [← hmap, ← List.map_drop]
    exact List.mem_map_of_mem hl
  have hsplit := List.take_append_drop i (bootLines opt unityLibDir)
  rw [hline] at hsplit
  have hsome := lookup_isSome_iff (e := equals) (w := ascii "1") habove hbelow 511 (flag written)
  rw [hsplit, exists_kept_iff opt unityLibDir hlen (by simp [ascii]) (by simp)] at hsome
  rw [isFound_boot opt unityLibDir hk (by decide), Bool.eq_iff_iff, hsome]
  unfold FlagIntact
  cases written with
  | true =>
    have hone : ∀ n, ascii "1" <+: (flag true).take n ↔ 1 ≤ n := by
      intro n
      cases n with
      | zero => exact ⟨fun h => absurd h (by decide), fun h => absurd h (by decide)⟩
      | succ n => exact ⟨fun _ => Nat.succ_le_succ (Nat.zero_le n), fun _ => by simp [flag, ascii]⟩
    rw [if_pos rfl, hone, ← hfits]
    constructor
    · intro h
      exact (h.mpr rfl).imp (fun hown => by omega) id
    · intro h
      exact ⟨fun _ => rfl, fun _ => h.imp (fun hown => by omega) id⟩
  | false =>
    have hnone : ∀ n, ¬ ascii "1" <+: (flag false).take n := by
      intro n
      cases n with
      | zero => decide
      | succ n => simp [flag, ascii]
    rw [if_neg Bool.false_ne_true]
    constructor
    · intro h hfound
      exact Bool.false_ne_true (h.mp (.inr hfound))
    · intro h
      exact ⟨fun hor => hor.elim (fun hown => absurd hown.2 (hnone _)) (fun hfound => absurd hfound h),
        fun hfalse => absurd hfalse Bool.false_ne_true⟩

/-! ## What is read -/

theorem takenFrom_iff (key : Text) (above : List Text) (right : Option Text → Prop) (o : Option Text) :
    right ((above.findSome? (after key)).or o) ↔ TakenFrom key above (fun v => right (some v)) (right o) := by
  unfold TakenFrom
  cases above.findSome? (after key) with
  | none => rfl
  | some v => rfl

theorem takenFrom_congr {key : Text} {above : List Text} {right : Text → Prop} {own own' : Prop} (h : own ↔ own') :
    TakenFrom key above right own ↔ TakenFrom key above right own' := by
  unfold TakenFrom
  cases above.findSome? (after key) with
  | none => exact h
  | some v => rfl

theorem stopLib_iff :
    (valueOf (ascii "stopLib=") ((render equals lf (bootLines opt unityLibDir)).take 511)).getD [] = opt.stopLib.1 ↔
      opt.stopLib.1.length ≤ 494 := by
  have hkey : ascii "stopLib=" = ascii "stopLib" ++ equals :: [] := rfl
  rw [hkey, valueOf_boot opt unityLibDir (by decide) List.not_mem_nil, lookup_stopLib, Option.getD_some,
    List.take_eq_self_iff]

theorem qbdiFilter_iff (hlen : opt.stopLib.1.length ≤ 494) :
    (valueOf (ascii "qbdiFilter=") ((render equals lf (bootLines opt unityLibDir)).take 511)).getD [] =
        opt.qbdiFilter.1 ↔
      TakenFrom (ascii "qbdiFilter=") [opt.stopLib.1] (fun v => v = opt.qbdiFilter.1)
        (opt.stopLib.1.length + opt.qbdiFilter.1.length ≤ 461 ∨ opt.qbdiFilter.1 = []) := by
  have hkey : ascii "qbdiFilter=" = ascii "qbdiFilter" ++ equals :: [] := rfl
  rw [hkey, valueOf_boot opt unityLibDir (by decide) List.not_mem_nil, lookup_qbdiFilter opt unityLibDir hlen, ← hkey,
    takenFrom_iff _ _ (fun o => o.getD [] = opt.qbdiFilter.1)]
  refine takenFrom_congr ?_
  split
  · rw [Option.getD_some, keptFilter, List.take_eq_self_iff]
    constructor
    · intro h
      exact .inl (by omega)
    · rintro (h | h)
      · omega
      · rw [h]
        exact Nat.zero_le _
  · rw [Option.getD_none]
    constructor
    · intro h
      exact .inr h.symm
    · rintro (h | h)
      · omega
      · exact h.symm

theorem qbdiMaxLog_iff (hlen : opt.stopLib.1.length ≤ 494) :
    maxLogOf (valueOf (ascii "qbdiMaxLog=") ((render equals lf (bootLines opt unityLibDir)).take 511)) =
        writtenMaxLog opt ↔
      TakenFrom (ascii "qbdiMaxLog=") [opt.stopLib.1, keptFilter opt]
        (fun v => maxLogOf (some v) = writtenMaxLog opt)
        (opt.stopLib.1.length + opt.qbdiFilter.1.length + (decimal (writtenMaxLog opt).toNat).length ≤ 449 ∨
          449 ≤ opt.stopLib.1.length + opt.qbdiFilter.1.length ∧ writtenMaxLog opt = 100) := by
  have hkey : ascii "qbdiMaxLog=" = ascii "qbdiMaxLog" ++ equals :: [] := rfl
  have hpos := List.length_pos_of_ne_nil (decimal_ne_nil (writtenMaxLog opt).toNat)
  rw [hkey, valueOf_boot opt unityLibDir (by decide) List.not_mem_nil, lookup_qbdiMaxLog opt unityLibDir hlen, ← hkey,
    takenFrom_iff _ _ (fun o => maxLogOf o = writtenMaxLog opt)]
  refine takenFrom_congr ?_
  split
  · rename_i hfits
    by_cases hedge : 449 - opt.stopLib.1.length - opt.qbdiFilter.1.length = 0
    · -- the digits are cut off
      rw [hedge, List.take_zero, maxLogOf, if_pos rfl, eq_comm]
      constructor
      · intro h
        exact .inr ⟨by omega, h⟩
      · rintro (h | h)
        · omega
        · exact h.2
    · have hne : (decimal (writtenMaxLog opt).toNat).take
          (449 - opt.stopLib.1.length - opt.qbdiFilter.1.length) ≠ [] := by
        rw [Ne, List.take_eq_nil_iff, not_or]
        exact ⟨hedge, decimal_ne_nil _⟩
      rw [maxLogOf, if_neg hne, strtoull_take_decimal _ (Nat.pos_of_ne_zero hedge)]
      omega
  · rw [maxLogOf, eq_comm]
    constructor
    · intro h
      exact .inr ⟨by omega, h⟩
    · rintro (h | h)
      · omega
      · exact h.2

theorem trimmed_length_le (t : Text) : (trimmed t).length ≤ t.length := (List.rdropWhile_prefix isTrailing t).length_le

theorem unityLibDir_iff (hlen : opt.stopLib.1.length ≤ 494) :
    trimmed ((valueOf (ascii "unityLibDir=") ((render equals lf (bootLines opt unityLibDir)).take 511)).getD []) =
        unityLibDir.1 ↔
      TakenFrom (ascii "unityLibDir=") [opt.stopLib.1, keptFilter opt] (fun v => trimmed v = unityLibDir.1)
        ((opt.stopLib.1.length + opt.qbdiFilter.1.length + (decimal (writtenMaxLog opt).toNat).length +
          unityLibDir.1.length ≤ 436 ∨ unityLibDir.1 = []) ∧ trimmed unityLibDir.1 = unityLibDir.1) := by
  have hkey : ascii "unityLibDir=" = ascii "unityLibDir" ++ equals :: [] := rfl
  have hnil : trimmed [] = [] := rfl
  rw [hkey, valueOf_boot opt unityLibDir (by decide) List.not_mem_nil, lookup_unityLibDir opt unityLibDir hlen, ← hkey,
    takenFrom_iff _ _ (fun o => trimmed (o.getD []) = unityLibDir.1)]
  refine takenFrom_congr ?_
  split
  · rename_i hfits
    rw [Option.getD_some, keptUnityLibDir]
    constructor
    · intro h
      -- what is cut off is missing
      have hle := trimmed_length_le (unityLibDir.1.take (436 - opt.stopLib.1.length - opt.qbdiFilter.1.length -
        (decimal (writtenMaxLog opt).toNat).length))
      rw [h, List.length_take] at hle
      rw [List.take_of_length_le (by omega)] at h
      exact ⟨.inl (by omega), h⟩
    · rintro ⟨hshort | hempty, htrimmed⟩
      · rw [List.take_of_length_le (by omega), htrimmed]
      · rw [hempty, List.take_nil, hnil]
  · rw [Option.getD_none, hnil, eq_comm]
    constructor
    · intro h
      exact ⟨.inr h, by rw [h, hnil]⟩
    · rintro ⟨h | h, -⟩
      · omega
      · exact h

/-! ## The literal -/

theorem watchedLib_iff : watchedLib (scriptHead ++ dquote :: (opt.stopLib.1 ++ dquote :: scriptTail opt)) =
    some opt.stopLib.1 ↔ IsPlain opt.stopLib.1 ∧ IsText opt.stopLib.1 := by
  have hsoft : ∀ c ∈ scriptHead, Soft c := List.all_iff_forall_prop.mp (by decide)
  have hopen : ∀ before rest, step .code before dquote rest = ⟨0, [dquote], .doubleQuote⟩ := fun _ _ => rfl
  have htail : dquote ∉ scriptTail opt := by
    unfold scriptTail
    cases opt.libLog <;> cases opt.libConstructors <;> decide
  unfold watchedLib preprocessUnityLine
  rw [run_soft hsoft, Lib.Scan.run_one (hopen _ _)]
  have hdrop : ∀ t : Text, (scriptHead ++ ([dquote] ++ t)).drop (scriptHead.length + 1) = t := by
    intro t
    rw [List.drop_length_add_append]
    rfl
  rw [hdrop]
  exact literal_run_iff htail _ _

theorem script_iff : (∀ script, sentScript opt = some script → watchedLib script = some opt.stopLib.1) ↔
    sentScript opt = none ∨ IsPlain opt.stopLib.1 ∧ IsText opt.stopLib.1 := by
  have hsent : sentScript opt = none ∨
      sentScript opt = some (scriptHead ++ dquote :: (opt.stopLib.1 ++ dquote :: scriptTail opt)) := by
    unfold sentScript
    split_ifs
    · exact .inl rfl
    · exact .inr rfl
    · exact .inl rfl
  rw [← watchedLib_iff]
  rcases hsent with hnone | hsome
  · rw [hnone]
    exact ⟨fun _ => .inl rfl, fun _ script h => by cases h⟩
  · rw [hsome]
    constructor
    · intro h
      exact .inr (h _ rfl)
    · rintro (h | h) script hscript
      · cases h
      · rw [← Option.some.inj hscript]
        exact h

theorem flags_iff (hlen : opt.stopLib.1.length ≤ 494) :
    (isFound (ascii "libLog=1") ((render equals lf (bootLines opt unityLibDir)).take 511) = opt.libLog ↔
        FlagIntact opt.libLog True (InValue opt unityLibDir (ascii "libLog=1"))) ∧
      (isFound (ascii "autoResume=1") ((render equals lf (bootLines opt unityLibDir)).take 511) =
          shouldAutoGateSpawn opt ↔
        FlagIntact (shouldAutoGateSpawn opt) (opt.stopLib.1.length ≤ 481)
          (InValue opt unityLibDir (ascii "autoResume=1"))) ∧
      (isFound (ascii "ctors=1") ((render equals lf (bootLines opt unityLibDir)).take 511) = opt.libConstructors ↔
        FlagIntact opt.libConstructors (opt.stopLib.1.length ≤ 473) (InValue opt unityLibDir (ascii "ctors=1"))) := by
  obtain ⟨-, hautoSize, hctorsSize, -⟩ := size_above opt unityLibDir
  refine ⟨?_, ?_, ?_⟩
  · have hline : (bootLines opt unityLibDir).drop 0 =
        (ascii "libLog", flag opt.libLog) :: (bootLines opt unityLibDir).drop 1 := rfl
    refine isFound_line opt unityLibDir hlen hline (by decide) (by decide) (iff_true_intro ?_)
    rw [List.take_zero, size]
    decide
  · have hline : (bootLines opt unityLibDir).drop 2 =
        (ascii "autoResume", flag (shouldAutoGateSpawn opt)) :: (bootLines opt unityLibDir).drop 3 := rfl
    refine isFound_line opt unityLibDir hlen hline (by decide) (by decide) ?_
    have hkey : (ascii "autoResume").length = 10 := rfl
    rw [hautoSize, hkey]
    omega
  · have hline : (bootLines opt unityLibDir).drop 3 =
        (ascii "ctors", flag opt.libConstructors) :: (bootLines opt unityLibDir).drop 4 := rfl
    refine isFound_line opt unityLibDir hlen hline (by decide) (by decide) ?_
    have hkey : (ascii "ctors").length = 5 := rfl
    rw [hctorsSize, hkey]
    omega

theorem readBoot_iff : readBoot (bootFile opt unityLibDir) = writtenBoot opt unityLibDir ↔
    isFound (ascii "libLog=1") ((render equals lf (bootLines opt unityLibDir)).take 511) = opt.libLog ∧
      (valueOf (ascii "stopLib=") ((render equals lf (bootLines opt unityLibDir)).take 511)).getD [] = opt.stopLib.1 ∧
      isFound (ascii "autoResume=1") ((render equals lf (bootLines opt unityLibDir)).take 511) =
        shouldAutoGateSpawn opt ∧
      isFound (ascii "ctors=1") ((render equals lf (bootLines opt unityLibDir)).take 511) = opt.libConstructors ∧
      (valueOf (ascii "qbdiFilter=") ((render equals lf (bootLines opt unityLibDir)).take 511)).getD [] =
        opt.qbdiFilter.1 ∧
      maxLogOf (valueOf (ascii "qbdiMaxLog=") ((render equals lf (bootLines opt unityLibDir)).take 511)) =
        writtenMaxLog opt ∧
      trimmed ((valueOf (ascii "unityLibDir=") ((render equals lf (bootLines opt unityLibDir)).take 511)).getD []) =
        unityLibDir.1 := by
  unfold readBoot writtenBoot
  rw [read_bootFile]
  rw [Boot.mk.injEq]

/-- The options reach the agent exactly where nothing of them is cut off or read in another way. -/
theorem launch_unchanged_iff : Unchanged opt unityLibDir ↔ Intact opt unityLibDir := by
  constructor
  · rintro ⟨hboot, hscript⟩
    obtain ⟨hlibLog, hstopLib, hautoResume, hctors, hfilter, hmaxLog, hunity⟩ := (readBoot_iff opt unityLibDir).mp hboot
    have hlen := (stopLib_iff opt unityLibDir).mp hstopLib
    obtain ⟨hlibLogIff, hautoResumeIff, hctorsIff⟩ := flags_iff opt unityLibDir hlen
    exact
      { stopLib := hlen
        libLog := hlibLogIff.mp hlibLog
        autoResume := hautoResumeIff.mp hautoResume
        ctors := hctorsIff.mp hctors
        qbdiFilter := (qbdiFilter_iff opt unityLibDir hlen).mp hfilter
        qbdiMaxLog := (qbdiMaxLog_iff opt unityLibDir hlen).mp hmaxLog
        unityLibDir := (unityLibDir_iff opt unityLibDir hlen).mp hunity
        script := (script_iff opt).mp hscript }
  · intro h
    obtain ⟨hlibLogIff, hautoResumeIff, hctorsIff⟩ := flags_iff opt unityLibDir h.stopLib
    refine ⟨(readBoot_iff opt unityLibDir).mpr ⟨hlibLogIff.mpr h.libLog, ?_, hautoResumeIff.mpr h.autoResume,
      hctorsIff.mpr h.ctors, ?_, ?_, ?_⟩, (script_iff opt).mpr h.script⟩
    · exact (stopLib_iff opt unityLibDir).mpr h.stopLib
    · exact (qbdiFilter_iff opt unityLibDir h.stopLib).mpr h.qbdiFilter
    · exact (qbdiMaxLog_iff opt unityLibDir h.stopLib).mpr h.qbdiMaxLog
    · exact (unityLibDir_iff opt unityLibDir h.stopLib).mpr h.unityLibDir

end

/-- A library whose name says that constructors are shown, as `--stop-lib` gives it. -/
def ctorsNamed : Options where
  serverMode := false
  pauseMainThread := false
  libLog := true
  libConstructors := false
  fullLog := false
  stopLib := ⟨ascii "ctors=1", by decide⟩
  qbdiFilter := ⟨[], by decide⟩
  maxLog := 100

theorem ctorsNamed_changed : ¬ ∀ (opt : Options) (unityLibDir : Line), Unchanged opt unityLibDir := by
  intro h
  have hboot := (h ctorsNamed ⟨[], by decide⟩).boot
  exact absurd (congrArg Boot.ctors hboot) (by decide)

end ArtPi.Cli.BootConfig
