import ArtPi.Lib.Numerals
import Mathlib.Algebra.Order.Ring.Int
import Mathlib.Data.List.Infix
import Mathlib.Data.List.Nodup

set_option autoImplicit false

/-! # The constructor filter (`src/agent/agent_hw_hook.cpp`)

A filter names the constructors of a library that are emulated: all of them, the one of an index, those at an address,
or those whose description has a text. -/

namespace ArtPi.HwHook.CtorFilter

open Lib.Numerals

abbrev Text := List UInt8

/-- A text without a NUL, as filters come from C strings. -/
abbrev CString := { t : Text // (0 : UInt8) ∉ t }

def byte (c : Char) : UInt8 := UInt8.ofNat c.toNat

def ascii (s : String) : Text := s.toList.map byte

/-- `"%lx"` -/
def hexText (n : UInt64) : Text := (Nat.toDigits 16 n.toNat).map byte

/-- `text.find(part) != npos` -/
def contains (text part : Text) : Bool := decide (part <:+: text)

/-! ## Constructors and their descriptions -/

structure Ctor where
  addr : UInt64
  desc : Text
  deriving DecidableEq

/-- What `-1` is as an address. -/
def minusOne : UInt64 := 0 - 1

def offsetOf (base addr : UInt64) : UInt64 := if base ≤ addr then addr - base else addr

def isFunction (fn : UInt64) : Bool := fn ≠ 0 && fn ≠ minusOne

def initDesc : Text := ascii "DT_INIT"

def arrayDesc (base : UInt64) (i : Nat) (fn : UInt64) : Text :=
  ascii "DT_INIT_ARRAY[" ++ ascii (toString i) ++ ascii "] (+0x" ++ hexText (offsetOf base fn) ++ ascii ")"

/-- The name of a symbol behind the description. -/
def withSymbol (symbolAt : UInt64 → Option Text) (c : Ctor) : Ctor :=
  match symbolAt c.addr with
  | none => c
  | some name => if name = [] then c else { c with desc := c.desc ++ ascii " (" ++ name ++ ascii ")" }

def arrayCtors (base : UInt64) (initArray : List UInt64) : List Ctor :=
  (initArray.zipIdx.filter (fun e => isFunction e.1)).map (fun e => ⟨e.1, arrayDesc base e.2 e.1⟩)

def initCtors (initFunc : UInt64) : List Ctor := if isFunction initFunc then [⟨initFunc, initDesc⟩] else []

def collectCtors (base initFunc : UInt64) (initArray : List UInt64) (symbolAt : UInt64 → Option Text) : List Ctor :=
  (initCtors initFunc ++ arrayCtors base initArray).map (withSymbol symbolAt)

structure Library where
  soName : Text
  base : UInt64
  ctors : List Ctor
  /-- a vector does not have more -/
  few : ctors.length < 2 ^ 63 - 1

/-! ## The filter -/

def isLibWildcard (libPart : Text) : Bool := libPart = [] || libPart = ascii "*"

def libMatches (soName libPart : Text) : Bool := isLibWildcard libPart || contains soName libPart

def isAll (filter : Text) : Bool := filter = ascii "*" || filter = ascii "all" || filter = ascii "ALL"

/-- In front of the first separator, and behind it. -/
def before (sep : UInt8) (t : Text) : Text := t.takeWhile (· ≠ sep)

def after (sep : UInt8) (t : Text) : Text := (t.dropWhile (· ≠ sep)).drop 1

def atSign : UInt8 := byte '@'

def colon : UInt8 := byte ':'

/-- The constructor is at the number, or has its digits in the description. -/
def hits (base : UInt64) (targetVal : UInt64) (c : Ctor) : Bool :=
  offsetOf base c.addr = targetVal || c.addr = targetVal || contains c.desc (hexText targetVal)

def matchesQbdiFilter (soName : Text) (c : Ctor) (idx : Nat) (base : UInt64) (filter : Text) : Bool :=
  if filter = [] then false
  else if isAll filter then true
  else if atSign ∈ filter then
    let libPart := before atSign filter
    let targetPart := after atSign filter
    if !libMatches soName libPart then false
    else if isLibWildcard targetPart then true
    else hits base (strtoull 16 targetPart) c
  else if colon ∈ filter then
    let libPart := before colon filter
    let ctorPart := after colon filter
    if !libMatches soName libPart then false
    else if isLibWildcard ctorPart then true
    else
      let (num, rest) := strtol ctorPart
      if rest = [] then (idx : Int) = num || ((idx + 1 : Nat) : Int) = num
      else contains c.desc ctorPart
  else if contains soName filter then true
  else contains c.desc filter

/-! ## What the help says -/

/-- The forms of a filter. -/
inductive Form where
  | nothing
  | everything
  | library (libPart : Text)
  | address (libPart target : Text)
  | index (libPart : Text) (n : Int)
  | text (libPart t : Text)
  | plain (lib : Text)
  deriving DecidableEq

/-- An `@` stands in front of a number; what stands behind a colon is an index where it is a number. -/
def readFilter (filter : Text) : Form :=
  if filter = [] then .nothing
  else if isAll filter then .everything
  else if atSign ∈ filter then
    if isLibWildcard (after atSign filter) then .library (before atSign filter)
    else .address (before atSign filter) (after atSign filter)
  else if colon ∈ filter then
    if isLibWildcard (after colon filter) then .library (before colon filter)
    else
      match number 0 (after colon filter) with
      | some n => .index (before colon filter) n
      | none => .text (before colon filter) (after colon filter)
  else .plain filter

/-- The offset or the address of the constructor is the number. -/
def IsAt (base : UInt64) (target : Text) (c : Ctor) : Prop :=
  ∃ v, hexNumber target = some v ∧ ((offsetOf base c.addr).toNat = v ∨ c.addr.toNat = v)

/-- The constructors that a form names. -/
def Form.Names (lib : Library) (i : Nat) (c : Ctor) : Form → Prop
  | .nothing => False
  | .everything => True
  | .library libPart => libMatches lib.soName libPart = true
  | .address libPart target => libMatches lib.soName libPart = true ∧ IsAt lib.base target c
  | .index libPart n => libMatches lib.soName libPart = true ∧ (i : Int) = n
  | .text libPart t => libMatches lib.soName libPart = true ∧ contains c.desc t = true
  | .plain part => contains lib.soName part = true

def Form.isNumeric : Form → Bool
  | .address _ _ | .index _ _ => true
  | .nothing | .everything | .library _ | .text _ _ | .plain _ => false

def Library.accepts (lib : Library) (filter : Text) (i : Nat) (c : Ctor) : Bool :=
  matchesQbdiFilter lib.soName c i lib.base filter

/-- The constructors that are accepted are those named, and a number accepts at most one of those of a library with
    distinct addresses. -/
structure SelectsNamed (lib : Library) (filter : Text) : Prop where
  exact : ∀ i c, lib.ctors[i]? = some c → (lib.accepts filter i c = true ↔ (readFilter filter).Names lib i c)
  single : (readFilter filter).isNumeric = true → (lib.ctors.map Ctor.addr).Nodup →
    ∀ i j c d, lib.ctors[i]? = some c → lib.ctors[j]? = some d →
      lib.accepts filter i c = true → lib.accepts filter j d = true → i = j

/-! ## The condition -/

/-- A constructor somewhere else has the digits of the number in its description (or is at what `strtoull` reads from
    a text that is no number). -/
def IsStray (base : UInt64) (target : Text) (c : Ctor) : Prop :=
  ¬ IsAt base target c ∧ (hexText (strtoull 16 target) <:+: c.desc ∨
    offsetOf base c.addr = strtoull 16 target ∨ c.addr = strtoull 16 target)

/-- The number is the address of a constructor and the offset of another one. -/
def IsAmbiguous (lib : Library) (target : Text) : Prop :=
  ∃ v, hexNumber target = some v ∧ ∃ c ∈ lib.ctors, ∃ d ∈ lib.ctors,
    c.addr.toNat = v ∧ (offsetOf lib.base d.addr).toNat = v ∧ d.addr ≠ c.addr

/-- Where the fallbacks of the code find nothing. -/
def Form.IsClear (lib : Library) : Form → Prop
  | .nothing | .everything | .library _ | .text _ _ => True
  | .address libPart target => libMatches lib.soName libPart = true → (∀ c ∈ lib.ctors, ¬ IsStray lib.base target c) ∧
      ((lib.ctors.map Ctor.addr).Nodup → ¬ IsAmbiguous lib target)
  -- the index before that of the number
  | .index libPart n => libMatches lib.soName libPart = true → n < 1 ∨ lib.ctors.length < n
  | .plain part => contains lib.soName part = true ∨ ∀ c ∈ lib.ctors, contains c.desc part = false

/-! ## What the code tests -/

/-- A form as the code tests it. -/
def Form.accepts (lib : Library) (i : Nat) (c : Ctor) : Form → Bool
  | .nothing => false
  | .everything => true
  | .library libPart => libMatches lib.soName libPart
  | .address libPart target => libMatches lib.soName libPart && hits lib.base (strtoull 16 target) c
  | .index libPart n =>
    libMatches lib.soName libPart && ((i : Int) = clampLong n || ((i + 1 : Nat) : Int) = clampLong n)
  | .text libPart t => libMatches lib.soName libPart && contains c.desc t
  | .plain part => contains lib.soName part || contains c.desc part

section

variable {lib : Library} {filter : Text} {i j : Nat} {c d : Ctor}

theorem accepts_readFilter : lib.accepts filter i c = (readFilter filter).accepts lib i c := by
  unfold Library.accepts matchesQbdiFilter readFilter
  by_cases hnil : filter = []
  · simp [hnil, Form.accepts]
  rw [if_neg hnil, if_neg hnil]
  by_cases hall : isAll filter = true
  · simp [hall, Form.accepts]
  rw [if_neg hall, if_neg hall]
  by_cases hat : atSign ∈ filter
  · rw [if_pos hat, if_pos hat]
    dsimp only
    by_cases hwild : isLibWildcard (after atSign filter) = true
    · simp [hwild, Form.accepts]
    · cases hlib : libMatches lib.soName (before atSign filter) <;> simp [hwild, hlib, Form.accepts]
  rw [if_neg hat, if_neg hat]
  by_cases hcolon : colon ∈ filter
  · rw [if_pos hcolon, if_pos hcolon]
    dsimp only
    by_cases hwild : isLibWildcard (after colon filter) = true
    · simp [hwild, Form.accepts]
    · rw [if_neg hwild, if_neg hwild]
      have hne : after colon filter ≠ [] := by
        intro hempty
        simp [isLibWildcard, hempty] at hwild
      cases hn : number 0 (after colon filter) with
      | some n =>
        rw [strtol_of_number hn]
        cases hlib : libMatches lib.soName (before colon filter) <;> simp [hlib, Form.accepts]
      | none =>
        rw [if_neg (strtol_of_number_none hne hn)]
        cases hlib : libMatches lib.soName (before colon filter) <;> simp [hlib, Form.accepts]
  · rw [if_neg hcolon, if_neg hcolon]
    cases hname : contains lib.soName filter <;> simp [hname, Form.accepts]

theorem lt_of_getElem? (h : lib.ctors[i]? = some c) : i < lib.ctors.length := (List.getElem?_eq_some_iff.mp h).1

/-- A constructor of which the index is read one too high is accepted with that of the number. -/
theorem index_accepts_iff (libPart : Text) (n : Int) (h : lib.ctors[i]? = some c) :
    (Form.index libPart n).accepts lib i c = true ↔
      libMatches lib.soName libPart = true ∧ ((i : Int) = n ∨ ((i + 1 : Nat) : Int) = n) := by
  have hi := lt_of_getElem? h
  have hfew := lib.few
  unfold Form.accepts
  rw [Bool.and_eq_true, Bool.or_eq_true, decide_eq_true_eq, decide_eq_true_eq]
  rw [clampLong_eq_iff (by omega), clampLong_eq_iff (by omega)]

theorem hits_of_isAt {base : UInt64} {target : Text} (h : IsAt base target c) :
    hits base (strtoull 16 target) c = true := by
  obtain ⟨v, hv, hat⟩ := h
  have hlt : v < 2 ^ 64 := by
    rcases hat with rfl | rfl
    · exact (offsetOf base c.addr).toNat_lt
    · exact c.addr.toNat_lt
  have hval : (strtoull 16 target).toNat = v := strtoull_hexNumber hv hlt
  unfold hits
  rw [Bool.or_eq_true, Bool.or_eq_true, decide_eq_true_eq, decide_eq_true_eq]
  rcases hat with h | h
  · exact .inl (.inl (UInt64.toNat_inj.mp (h.trans hval.symm)))
  · exact .inl (.inr (UInt64.toNat_inj.mp (h.trans hval.symm)))

theorem isStray_iff {base : UInt64} {target : Text} :
    IsStray base target c ↔ ¬ IsAt base target c ∧ hits base (strtoull 16 target) c = true := by
  unfold IsStray hits contains
  simp only [Bool.or_eq_true, decide_eq_true_eq]
  tauto

/-- The constructors that are accepted at a number are those named where there are no strays. -/
theorem address_exact_iff (libPart target : Text) :
    (∀ i c, lib.ctors[i]? = some c →
        ((Form.address libPart target).accepts lib i c = true ↔ (Form.address libPart target).Names lib i c)) ↔
      (libMatches lib.soName libPart = true → ∀ c ∈ lib.ctors, ¬ IsStray lib.base target c) := by
  simp only [Form.accepts, Form.Names]
  constructor
  · intro h hlib c hc hstray
    rw [isStray_iff] at hstray
    obtain ⟨i, hi⟩ := List.mem_iff_getElem?.mp hc
    have hnamed := (h i c hi).mp (by rw [hlib, hstray.2, Bool.and_self])
    exact hstray.1 hnamed.2
  · intro h i c hi
    rw [Bool.and_eq_true]
    refine and_congr_right (fun hlib => ⟨fun hhits => ?_, hits_of_isAt⟩)
    by_contra hnot
    exact h hlib c (List.mem_iff_getElem?.mpr ⟨i, hi⟩) (isStray_iff.mpr ⟨hnot, hhits⟩)

theorem index_exact_iff (libPart : Text) (n : Int) :
    (∀ i c, lib.ctors[i]? = some c →
        ((Form.index libPart n).accepts lib i c = true ↔ (Form.index libPart n).Names lib i c)) ↔
      (libMatches lib.soName libPart = true → n < 1 ∨ lib.ctors.length < n) := by
  constructor
  · intro h hlib
    by_contra hnot
    obtain ⟨hone, hlen⟩ := not_or.mp hnot
    -- the constructor before that of the number
    have hlt : n.toNat - 1 < lib.ctors.length := by omega
    have hget : lib.ctors[n.toNat - 1]? = some lib.ctors[n.toNat - 1] := List.getElem?_eq_getElem hlt
    have haccepts := (index_accepts_iff libPart n hget).mpr ⟨hlib, .inr (by omega)⟩
    have hnamed := ((h _ _ hget).mp haccepts).2
    omega
  · intro h i c hi
    have hlt := lt_of_getElem? hi
    rw [index_accepts_iff libPart n hi]
    refine and_congr_right (fun hlib => ?_)
    have hclear := h hlib
    omega

theorem plain_exact_iff (part : Text) :
    (∀ i c, lib.ctors[i]? = some c →
        ((Form.plain part).accepts lib i c = true ↔ (Form.plain part).Names lib i c)) ↔
      (contains lib.soName part = true ∨ ∀ c ∈ lib.ctors, contains c.desc part = false) := by
  simp only [Form.accepts, Form.Names]
  constructor
  · intro h
    by_cases hname : contains lib.soName part = true
    · exact .inl hname
    · refine .inr (fun c hc => ?_)
      obtain ⟨i, hi⟩ := List.mem_iff_getElem?.mp hc
      by_contra hdesc
      rw [Bool.not_eq_false] at hdesc
      exact hname ((h i c hi).mp (by rw [hdesc, Bool.or_true]))
  · intro h i c hi
    rcases h with hname | hdesc
    · simp [hname]
    · rw [hdesc c (List.mem_iff_getElem?.mpr ⟨i, hi⟩), Bool.or_false]

theorem eq_of_addr_eq (hdistinct : (lib.ctors.map Ctor.addr).Nodup) (hc : lib.ctors[i]? = some c)
    (hd : lib.ctors[j]? = some d) (h : c.addr = d.addr) : i = j := by
  have hi : (lib.ctors.map Ctor.addr)[i]? = some c.addr := by rw [List.getElem?_map, hc, Option.map_some]
  have hj : (lib.ctors.map Ctor.addr)[j]? = some d.addr := by rw [List.getElem?_map, hd, Option.map_some]
  rw [h] at hi
  exact (List.getElem?_inj (List.getElem?_eq_some_iff.mp hi).1 hdistinct).mp (hi.trans hj.symm)

/-- An offset is that of one address from the base on, or an address below. -/
theorem addr_eq_of_offsetOf_eq {base a b : UInt64} (h : offsetOf base a = offsetOf base b) :
    a = b ∨ a = offsetOf base b ∨ b = offsetOf base a := by
  unfold offsetOf at *
  split at h <;> split at h
  · left
    have := congrArg (· + base) h
    simpa [UInt64.sub_add_cancel] using this
  · rename_i ha hb
    right; right
    rw [if_pos ha, h]
  · rename_i ha hb
    right; left
    rw [if_pos hb, h]
  · exact .inl h

theorem isAmbiguous_of_isAt {target : Text} (hc : c ∈ lib.ctors) (hd : d ∈ lib.ctors) (hne : c.addr ≠ d.addr)
    (hatc : IsAt lib.base target c) (hatd : IsAt lib.base target d) : IsAmbiguous lib target := by
  obtain ⟨v, hv, hatc⟩ := hatc
  obtain ⟨w, hw, hatd⟩ := hatd
  obtain rfl : v = w := Option.some.inj (hv.symm.trans hw)
  rcases hatc with hoffc | haddrc
  · rcases hatd with hoffd | haddrd
    · have hoff : offsetOf lib.base c.addr = offsetOf lib.base d.addr :=
        UInt64.toNat_inj.mp (hoffc.trans hoffd.symm)
      rcases addr_eq_of_offsetOf_eq hoff with h | h | h
      · exact absurd h hne
      · exact ⟨v, hv, c, hc, d, hd, by rw [h, hoffd], hoffd, Ne.symm hne⟩
      · exact ⟨v, hv, d, hd, c, hc, by rw [h, hoffc], hoffc, hne⟩
    · exact ⟨v, hv, d, hd, c, hc, haddrd, hoffc, hne⟩
  · rcases hatd with hoffd | haddrd
    · exact ⟨v, hv, c, hc, d, hd, haddrc, hoffd, Ne.symm hne⟩
    · exact absurd (UInt64.toNat_inj.mp (haddrc.trans haddrd.symm)) hne

/-- A number names at most one of the constructors with distinct addresses where it is not that of two. -/
theorem address_single_iff (target : Text) :
    (∀ (i j : Nat) (c d : Ctor), lib.ctors[i]? = some c → lib.ctors[j]? = some d →
        IsAt lib.base target c → IsAt lib.base target d → i = j) ∨ ¬ (lib.ctors.map Ctor.addr).Nodup ↔
      ((lib.ctors.map Ctor.addr).Nodup → ¬ IsAmbiguous lib target) := by
  by_cases hdistinct : (lib.ctors.map Ctor.addr).Nodup
  · simp only [hdistinct, not_true_eq_false, or_false, forall_const]
    constructor
    · rintro h ⟨v, hv, c, hc, d, hd, hatc, hatd, hne⟩
      obtain ⟨i, hi⟩ := List.mem_iff_getElem?.mp hc
      obtain ⟨j, hj⟩ := List.mem_iff_getElem?.mp hd
      obtain rfl : i = j := h i j c d hi hj ⟨v, hv, .inr hatc⟩ ⟨v, hv, .inl hatd⟩
      obtain rfl : c = d := Option.some.inj (hi.symm.trans hj)
      exact hne rfl
    · intro h i j c d hi hj hatc hatd
      by_contra hij
      have hne : c.addr ≠ d.addr := fun heq => hij (eq_of_addr_eq hdistinct hi hj heq)
      exact h (isAmbiguous_of_isAt (List.mem_iff_getElem?.mpr ⟨i, hi⟩) (List.mem_iff_getElem?.mpr ⟨j, hj⟩) hne hatc hatd)
  · simp [hdistinct]

end

/-! ## Filters and libraries -/

section

variable (lib : Library)

theorem single_of_exact {f : Form} {accepts : Nat → Ctor → Bool}
    (hexact : ∀ i c, lib.ctors[i]? = some c → (accepts i c = true ↔ f.Names lib i c))
    (hclear : f.IsClear lib) (hnumeric : f.isNumeric = true) (hdistinct : (lib.ctors.map Ctor.addr).Nodup)
    {i j : Nat} {c d : Ctor} (hi : lib.ctors[i]? = some c) (hj : lib.ctors[j]? = some d)
    (hci : accepts i c = true) (hdj : accepts j d = true) : i = j := by
  have hc := (hexact i c hi).mp hci
  have hd := (hexact j d hj).mp hdj
  cases f with
  | address libPart target =>
    have hnot := (hclear hc.1).2
    exact ((address_single_iff target).mpr hnot).elim (fun h => h i j c d hi hj hc.2 hd.2) (fun h => absurd hdistinct h)
  | index libPart n =>
    have heq := hc.2.trans hd.2.symm
    omega
  | nothing | everything | library _ | text _ _ | plain _ => exact absurd hnumeric Bool.false_ne_true

/-- A filter selects the constructors that the help says exactly when the fallbacks of the code find nothing more. -/
theorem selectsNamed_iff (filter : CString) : SelectsNamed lib filter ↔ (readFilter filter).IsClear lib := by
  constructor
  · rintro ⟨hexact, hsingle⟩
    simp only [accepts_readFilter] at hexact hsingle
    cases hform : readFilter filter with
    | nothing | everything | library _ | text _ _ => trivial
    | address libPart target =>
      rw [hform] at hexact hsingle
      intro hlib
      have hstray := (address_exact_iff libPart target).mp hexact hlib
      refine ⟨hstray, (address_single_iff target).mp ?_⟩
      by_cases hdistinct : (lib.ctors.map Ctor.addr).Nodup
      · left
        intro i j c d hi hj hc hd
        exact hsingle rfl hdistinct i j c d hi hj ((hexact i c hi).mpr ⟨hlib, hc⟩) ((hexact j d hj).mpr ⟨hlib, hd⟩)
      · exact .inr hdistinct
    | index libPart n =>
      rw [hform] at hexact
      exact (index_exact_iff libPart n).mp hexact
    | plain part =>
      rw [hform] at hexact
      exact (plain_exact_iff part).mp hexact
  · intro hclear
    have hexact : ∀ i c, lib.ctors[i]? = some c →
        (lib.accepts filter i c = true ↔ (readFilter filter).Names lib i c) := by
      simp only [accepts_readFilter]
      cases hform : readFilter filter with
      | nothing | everything | library _ | text _ _ => simp [Form.accepts, Form.Names]
      | address libPart target =>
        rw [hform] at hclear
        exact (address_exact_iff libPart target).mpr (fun hlib => (hclear hlib).1)
      | index libPart n =>
        rw [hform] at hclear
        exact (index_exact_iff libPart n).mpr hclear
      | plain part =>
        rw [hform] at hclear
        exact (plain_exact_iff part).mpr hclear
    exact ⟨hexact, fun hnumeric hdistinct i j c d hi hj hc hd =>
      single_of_exact lib hexact hclear hnumeric hdistinct hi hj hc hd⟩

end

/-- Two functions of an array, at 0x475bc and 0x48000. -/
def fooLibrary : Library where
  soName := ascii "libfoo.so"
  base := 0x7000000000
  ctors := collectCtors 0x7000000000 0 [0x70000475bc, 0x7000048000] (fun _ => none)
  few := by decide

def indexOne : CString := ⟨ascii "libfoo.so:1", by decide⟩

/-- The filter for index 1 accepts both. -/
theorem indexOne_accepts : ¬ ∀ (lib : Library) (filter : CString), SelectsNamed lib filter := by
  intro h
  have hexact := (h fooLibrary indexOne).exact 0 ⟨0x70000475bc, ascii "DT_INIT_ARRAY[0] (+0x475bc)"⟩ (by decide)
  have haccepts : fooLibrary.accepts indexOne 0 ⟨0x70000475bc, ascii "DT_INIT_ARRAY[0] (+0x475bc)"⟩ = true := by decide
  have hform : readFilter indexOne = .index (ascii "libfoo.so") 1 := by decide
  rw [hform] at hexact
  exact absurd (hexact.mp haccepts).2 (by decide)

end ArtPi.HwHook.CtorFilter
