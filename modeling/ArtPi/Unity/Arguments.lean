import ArtPi.Lib.AapcsPlace
import ArtPi.Lib.ProcMaps
import ArtPi.Unity.Fields

set_option autoImplicit false

/-! # Arguments at a breakpoint (`src/agent/agent_unity.cpp`)

`BfFormatArg` takes an argument from the next general register, or from as many vector registers as it has floats, and
counts both files on. It has no counter for the stack. What `snprintf` makes of a float is left to it. -/

namespace ArtPi.Unity

open Lib Lib.Listing Lib.ProcMaps Lib.Aapcs

/-! ## Texts -/

/-- `BfFormatFloat` and `BfFormatDouble`; there is a number that is not printed as zero is. -/
structure Formats where
  float : UInt32 → Text
  double : UInt64 → Text
  float_ne : ∃ a, float a ≠ float 0
  double_ne : ∃ a, double a ≠ double 0

/-- `std::to_string` -/
def toText (v : Int) : Text := if v < 0 then 0x2d :: Numerals.decimal v.natAbs else Numerals.decimal v.natAbs

/-- `HexStr` -/
def hexStr (v : UInt64) : Text := ascii "0x" ++ Numerals.spell 16 v.toNat

/-- `BfTruncate` -/
def bfTruncate (s : Text) : Text :=
  let s := s.map fun c => if c = 0x0a ∨ c = 0x0d ∨ c = 0x09 then 0x20 else c
  if 64 < s.length then s.take 64 ++ ascii "..." else s

def joined (fmt : Formats) : List UInt32 → Text
  | [] => []
  | [v] => fmt.float v
  | v :: vs => fmt.float v ++ (ascii ", " ++ joined fmt vs)

/-- Floats in parentheses. -/
def group (fmt : Formats) (vs : List UInt32) : Text := ascii "(" ++ (joined fmt vs ++ ascii ")")

/-- The low half of a word, as a number with a sign. -/
def lowInt (raw : UInt64) : Int := s32.wrap raw.toNat

/-- The end of `BfFormatArg`, for a word. -/
def formatWord (strings : Strings) (t : UnityType) (raw : UInt64) : Text :=
  if t.name = "System.Boolean" then if raw &&& 1 ≠ 0 then ascii "true" else ascii "false"
  else if t.name = "System.String" then
    if raw < 0x1000 then [0x22, 0x22] else 0x22 :: (bfTruncate (unityStringToUtf8 (strings raw)) ++ [0x22])
  else if t.name = "System.Int64" ∨ t.name = "System.UInt64" ∨ t.name = "System.IntPtr" ∨ t.name = "System.UIntPtr" then
    toText (s64.wrap raw.toNat)
  else if 0 < t.size ∧ t.size ≤ 4 then toText (lowInt raw)
  else if "System.".toList.isPrefixOf t.name.toList = true then toText (lowInt raw)
  else hexStr raw

/-! ## Registers -/

/-- The state at the entry of a method; of the vector registers the low halves. -/
structure Entry where
  x : Nat → UInt64
  v : Nat → UInt64
  sp : Nat
  mem : Memory
  strings : Strings

inductive FloatArg where
  | single
  | double
  | hfa (count : Nat)
  deriving DecidableEq

/-- The names of the types with floats in `BfFormatArg`. -/
def floatArgs : List (String × FloatArg) :=
  [("System.Single", .single), ("System.Double", .double), ("UnityEngine.Vector2", .hfa 2),
    ("UnityEngine.Vector3", .hfa 3), ("UnityEngine.Vector4", .hfa 4), ("UnityEngine.Quaternion", .hfa 4),
    ("UnityEngine.Color", .hfa 4)]

section Format

variable (fmt : Formats) (st : Entry)

/-- The float in a vector register, if there is such a one. -/
def floatReg (n : Nat) : UInt32 := if n < 32 then (st.v n).toUInt32 else 0

/-- `BfFormatArg`: the text, and the counters behind it. -/
def bfFormatArg (t : UnityType) (gpr fpr : Nat) : Text × Nat × Nat :=
  match floatArgs.lookup t.name with
  | some .single => (fmt.float (floatReg st fpr), gpr, fpr + 1)
  | some .double => (fmt.double (if fpr < 32 then st.v fpr else 0), gpr, fpr + 1)
  | some (.hfa count) => (group fmt ((List.range count).map fun k => floatReg st (fpr + k)), gpr, fpr + count)
  | none => (formatWord st.strings t (if gpr < 8 then st.x gpr else 0), gpr + 1, fpr)

/-- The texts of the arguments, in the loops of `BfOnEnter`. -/
def argTexts (gpr fpr : Nat) : List UnityType → List Text
  | [] => []
  | t :: ts =>
    let r := bfFormatArg fmt st t gpr fpr
    r.1 :: argTexts r.2.1 r.2.2 ts

end Format

/-- A type of a parameter; of the structs without floats by name only two are looked at. -/
structure ArgType extends RuntimeType where
  listed : ∀ n, kind = .struct n → name = "UnityEngine.Rect" ∨ name = "UnityEngine.Bounds"

/-- `BfHookRecord`, with its method. -/
structure HookRecord where
  class_name : Text
  signature : Text
  klass : UInt64
  max_calls : Nat
  detailed : Bool
  name : Text
  static_function : Bool
  address : UInt64
  function : UInt64
  /-- the types, with their addresses, and the names -/
  args : List (ArgType × UInt64 × Text)

section OnEnter

variable (fmt : Formats) (st : Entry) (rec : HookRecord)

/-- `this` has the first general register. -/
def HookRecord.texts : List Text :=
  argTexts fmt st (if rec.static_function = true then 0 else 1) 0 (rec.args.map fun arg => arg.1.toUnityType)

/-- The line of an argument. -/
def detailedLine (i : Nat) (text : Text) (arg : ArgType × UInt64 × Text) : Text :=
  ascii "  arg" ++ (Numerals.decimal i ++ (ascii "  |   " ++ (text ++ (ascii "    " ++
    ((if arg.1.name = "" then ascii "?" else ascii arg.1.name) ++ (ascii " ( " ++ (hexStr arg.2.1 ++ (ascii " )" ++
      ((if arg.2.2 = [] then [] else ascii "  // " ++ arg.2.2) ++ [0x0a])))))))))

/-- `BfOnEnter`: what is logged for the call with that number, if anything. `base` is where the module of the function
begins, and `now` is the time. -/
def bfOnEnter (calls : Nat) (base : Option UInt64) (now : Text) : Option Text :=
  if rec.max_calls < calls then none
  else if rec.detailed = true then
    let rp := if rec.function = 0 then 0 else base.elim 0 (rec.function - ·)
    some (rec.class_name ++ (ascii " | " ++ (rec.signature ++ (ascii "    [ " ++ (hexStr rec.address ++ (ascii " -> " ++
      (hexStr rec.function ++ (ascii " -> " ++ (hexStr rp ++ (ascii " ] | " ++ (now ++ (0x0a ::
        (List.replicate 55 0x2d ++ (0x0a ::
          ((if rec.static_function = true then []
            else ascii "  inst  |   " ++ (hexStr (st.x 0) ++ (ascii "    [ " ++ (rec.class_name ++ (ascii " ] ( " ++
              (hexStr rec.klass ++ ascii " )\n")))))) ++
            (((rec.texts fmt st).zip rec.args).zipIdx.flatMap fun x => detailedLine x.2 x.1.1 x.1.2))))))))))))))))
  else
    let this := if rec.static_function = true then [] else [ascii "this=" ++ hexStr (st.x 0)]
    some (rec.class_name ++ (ascii "::" ++ (rec.name ++ (ascii "(" ++
      ((ascii ", ").intercalate (this ++ rec.texts fmt st) ++ ascii ")")))))

theorem isSome_bfOnEnter (calls : Nat) (base : Option UInt64) (now : Text) :
    (bfOnEnter fmt st rec calls base now).isSome = true ↔ calls ≤ rec.max_calls := by
  unfold bfOnEnter
  split
  · next h => exact iff_of_false (by simp) (Nat.not_le.mpr h)
  · next h =>
    refine iff_of_true ?_ (Nat.not_lt.mp h)
    split <;> rfl

/-- Of all calls, in their order, the first `max_calls` are logged. -/
theorem length_logged (entries : List (Entry × Option UInt64 × Text)) (n : Nat) :
    ((entries.zipIdx (n + 1)).filterMap fun c => bfOnEnter fmt c.1.1 rec c.2 c.1.2.1 c.1.2.2).length =
      min entries.length (rec.max_calls - n) := by
  induction entries generalizing n with
  | nil => simp
  | cons e entries ih =>
    have hsome := isSome_bfOnEnter fmt e.1 rec (n + 1) e.2.1 e.2.2
    rw [List.zipIdx_cons, List.filterMap_cons, List.length_cons]
    cases hlog : bfOnEnter fmt e.1 rec (n + 1) e.2.1 e.2.2 with
    | none =>
      rw [hlog] at hsome
      have hover : ¬ n + 1 ≤ rec.max_calls := fun h => absurd (hsome.mpr h) (by simp)
      rw [ih]
      omega
    | some line =>
      rw [hlog] at hsome
      have hleft : n + 1 ≤ rec.max_calls := hsome.mp rfl
      rw [List.length_cons, ih]
      omega

end OnEnter

/-! ## Where the arguments are -/

/-- The class of a parameter: `Rect` has four floats, `Bounds` has six. -/
def ArgType.argClass (t : ArgType) : ArgClass :=
  match t.kind with
  | .single => .members 1 4
  | .double => .members 1 8
  | .floats names => .members names.length 4
  | .struct _ => if t.name = "UnityEngine.Rect" then .members 4 4 else .indirect
  | _ => .general

namespace Entry

variable (st : Entry)

def word : Place → UInt64
  | .x n => st.x n
  | .v n => st.v n
  | .stack offset => UInt64.ofNat (st.mem.load (st.sp + offset) 8)

/-- The members of four bytes. -/
def member : Place → Nat → UInt32
  | .x n, _ => (st.x n).toUInt32
  | .v n, k => (st.v (n + k)).toUInt32
  | .stack offset, k => UInt32.ofNat (st.mem.load (st.sp + offset + 4 * k) 4)

/-- The floats of a copy. -/
def copied (a : UInt64) (k : Nat) : UInt32 := UInt32.ofNat (st.mem.load (a.toNat + 4 * k) 4)

end Entry

/-- The text of an argument at a place. A struct of floats is printed by its floats. -/
def textAt (fmt : Formats) (st : Entry) (t : ArgType) (place : Place) : Text :=
  match t.kind with
  | .single => fmt.float (st.member place 0)
  | .double => fmt.double (st.word place)
  | .floats names => group fmt ((List.range names.length).map (st.member place))
  | .struct _ =>
    if t.name = "UnityEngine.Rect" then group fmt ((List.range 4).map (st.member place))
    else group fmt ((List.range 6).map (st.copied (st.word place)))
  | _ => formatWord st.strings t.toUnityType (st.word place)

/-- The texts of arguments at the places that the calling convention gives them. -/
def placedTexts (fmt : Formats) (st : Entry) (c : Counters) : List ArgType → List Text
  | [] => []
  | t :: ts => textAt fmt st t (c.next t.argClass).1 :: placedTexts fmt st (c.next t.argClass).2 ts

/-- What the log should have; `this` is the first argument of an instance method. -/
def HookRecord.placed (fmt : Formats) (st : Entry) (rec : HookRecord) : List Text :=
  placedTexts fmt st ⟨if rec.static_function = true then 0 else 1, 0, 0⟩ (rec.args.map Prod.fst)

/-- No struct but those of up to four floats with a name, and each file has registers for all that are left. -/
structure InRegisters (gpr fpr : Nat) (ts : List ArgType) : Prop where
  named : ∀ t ∈ ts, ∀ n, t.kind ≠ .struct n
  general : gpr + (ts.map fun t => t.argClass.gprs).sum ≤ 8
  floating : fpr + (ts.map fun t => t.argClass.fprs).sum ≤ 8

/-! ## Distinct texts -/

theorem joined_concat (fmt : Formats) (vs : List UInt32) : ∃ front, ∀ v, joined fmt (vs ++ [v]) = front ++ fmt.float v := by
  induction vs with
  | nil => exact ⟨[], fun v => rfl⟩
  | cons u vs ih =>
    obtain ⟨front, hfront⟩ := ih
    refine ⟨fmt.float u ++ (ascii ", " ++ front), fun v => ?_⟩
    have hcons : joined fmt (u :: (vs ++ [v])) = fmt.float u ++ (ascii ", " ++ joined fmt (vs ++ [v])) := by
      cases vs <;> rfl
    rw [List.cons_append, hcons, hfront, List.append_assoc, List.append_assoc]

theorem group_concat_inj {fmt : Formats} {vs : List UInt32} {a b : UInt32}
    (h : group fmt (vs ++ [a]) = group fmt (vs ++ [b])) : fmt.float a = fmt.float b := by
  obtain ⟨front, hfront⟩ := joined_concat fmt vs
  unfold group at h
  rw [hfront, hfront] at h
  exact List.append_cancel_left (List.append_cancel_right (List.append_cancel_left h))

theorem hexStr_ne_group (fmt : Formats) (raw : UInt64) (vs : List UInt32) : hexStr raw ≠ group fmt vs := by
  intro h
  have hhead := congrArg List.head? h
  unfold hexStr group at hhead
  exact absurd (Option.some.inj hhead) (by decide)

theorem formatWord_ne (t : RuntimeType) :
    ∃ w strings, formatWord strings t.toUnityType w ≠ formatWord strings t.toUnityType 0 := by
  have hsize : ¬ (0 < t.size ∧ t.size ≤ 4) := by
    rw [t.size_eq]
    decide
  by_cases hbool : t.name = "System.Boolean"
  · refine ⟨1, fun _ => [], ?_⟩
    unfold formatWord
    rw [if_pos hbool, if_pos hbool]
    decide
  · by_cases hstring : t.name = "System.String"
    · refine ⟨0x1000, fun _ => [0x61], ?_⟩
      unfold formatWord
      rw [if_neg hbool, if_pos hstring, if_neg hbool, if_pos hstring]
      decide
    · refine ⟨1, fun _ => [], ?_⟩
      unfold formatWord
      simp only [hbool, hstring, hsize, if_false]
      split_ifs <;> decide

/-! ## One argument -/

/-- The floats of a type by its name in `BfFormatArg`. -/
def Kind.floatArg : Kind → Option FloatArg
  | .single => some .single
  | .double => some .double
  | .floats names => some (.hfa names.length)
  | _ => none

theorem lookup_floatArgs (t : RuntimeType) : floatArgs.lookup t.name = t.kind.floatArg := by
  have hbuiltin : ∀ x ∈ builtins, floatArgs.lookup x.1 = x.2.floatArg := by decide
  have hsub : ∀ x ∈ floatArgs, x.1 ∈ builtins.map Prod.fst := by decide
  cases h : builtins.lookup t.name with
  | some k =>
    rw [t.builtin k h]
    exact hbuiltin (t.name, k) (t.mem_builtins h)
  | none =>
    have hother := t.other h
    rw [lookup_eq_none hsub h]
    cases hk : t.kind with
    | single => rw [hk] at hother; exact hother.elim
    | double => rw [hk] at hother; exact hother.elim
    | floats _ => rw [hk] at hother; exact hother.elim
    | _ => rfl

section Argument

variable {fmt : Formats} {t : ArgType} {gpr fpr nsaa : Nat}

theorem load_zero (a n : Nat) : Memory.load (fun _ => 0) a n = 0 := by
  have hread : Memory.read (fun _ => 0) a n = List.replicate n 0 := by
    unfold Memory.read
    rw [List.map_const', List.length_range]
  have hzeros := leNat_append_zeros [] n
  rw [List.nil_append] at hzeros
  unfold Memory.load
  rw [hread, hzeros]
  rfl

/-- A state without anything but a number on the stack. -/
def onStack (offset bytes v : Nat) (strings : Strings) : Entry :=
  ⟨fun _ => 0, fun _ => 0, 0, Memory.store (fun _ => 0) offset bytes v, strings⟩

theorem word_iff (hclass : t.argClass = .general) (hfloat : t.kind.floatArg = none)
    (htext : ∀ st place, textAt fmt st t place = formatWord st.strings t.toUnityType (st.word place)) :
    (∀ st, (bfFormatArg fmt st t.toUnityType gpr fpr).1 =
        textAt fmt st t ((⟨gpr, fpr, nsaa⟩ : Counters).next t.argClass).1) ↔ gpr < 8 := by
  have hcode (st : Entry) : (bfFormatArg fmt st t.toUnityType gpr fpr).1 =
      formatWord st.strings t.toUnityType (if gpr < 8 then st.x gpr else 0) := by
    unfold bfFormatArg
    rw [lookup_floatArgs, hfloat]
  rw [hclass]
  constructor
  · intro h
    by_contra hgpr
    obtain ⟨w, strings, hne⟩ := formatWord_ne t.toRuntimeType
    have hst := h (onStack nsaa 8 w.toNat strings)
    rw [hcode, htext, if_neg hgpr, Counters.next_general_stack hgpr] at hst
    unfold Entry.word onStack at hst
    dsimp only at hst
    rw [Nat.zero_add, Memory.load_store, Nat.mod_eq_of_lt (toNat_lt_256 w), UInt64.ofNat_toNat] at hst
    exact hne hst.symm
  · intro hgpr st
    rw [hcode, htext, if_pos hgpr, Counters.next_general hgpr]
    rfl

/-- A number with a point is from its place exactly if there is a register. -/
theorem double_iff (hk : t.kind = .double) :
    (∀ st, (bfFormatArg fmt st t.toUnityType gpr fpr).1 =
        textAt fmt st t ((⟨gpr, fpr, nsaa⟩ : Counters).next t.argClass).1) ↔ fpr + 1 ≤ 8 := by
  have hcode (st : Entry) : (bfFormatArg fmt st t.toUnityType gpr fpr).1 =
      fmt.double (if fpr < 32 then st.v fpr else 0) := by
    unfold bfFormatArg
    rw [lookup_floatArgs, hk]
    rfl
  have hclass : t.argClass = .members 1 8 := by
    unfold ArgType.argClass
    rw [hk]
  have htext (st : Entry) (place : Place) : textAt fmt st t place = fmt.double (st.word place) := by
    unfold textAt
    rw [hk]
  rw [hclass]
  constructor
  · intro h
    by_contra hfpr
    obtain ⟨w, hne⟩ := fmt.double_ne
    have hst := h (onStack nsaa 8 w.toNat fun _ => [])
    rw [hcode, htext, Counters.next_members_stack hfpr] at hst
    unfold Entry.word onStack at hst
    dsimp only at hst
    rw [Nat.zero_add, Memory.load_store, Nat.mod_eq_of_lt (toNat_lt_256 w), UInt64.ofNat_toNat, ite_self] at hst
    exact hne hst.symm
  · intro hfpr st
    rw [hcode, htext, Counters.next_members hfpr, if_pos (by omega)]
    rfl

/-- Floats are from their place exactly if there are registers for all of them. -/
theorem floats_iff {count : Nat} (hcount : 0 < count) (print : List UInt32 → Text)
    (hcode : ∀ st, (bfFormatArg fmt st t.toUnityType gpr fpr).1 =
      print ((List.range count).map fun k => floatReg st (fpr + k)))
    (hclass : t.argClass = .members count 4)
    (htext : ∀ st place, textAt fmt st t place = print ((List.range count).map (st.member place)))
    (hprint : ∀ vs a b, vs.length + 1 = count → print (vs ++ [a]) = print (vs ++ [b]) → fmt.float a = fmt.float b) :
    (∀ st, (bfFormatArg fmt st t.toUnityType gpr fpr).1 =
        textAt fmt st t ((⟨gpr, fpr, nsaa⟩ : Counters).next t.argClass).1) ↔ fpr + count ≤ 8 := by
  rw [hclass]
  constructor
  · intro h
    by_contra hfpr
    obtain ⟨a, hne⟩ := fmt.float_ne
    obtain ⟨k, rfl⟩ := Nat.exists_eq_succ_of_ne_zero (Nat.pos_iff_ne_zero.mp hcount)
    have hst := h (onStack (nsaa + 4 * k) 4 a.toNat fun _ => [])
    rw [hcode, htext, Counters.next_members_stack hfpr, List.range_succ, List.map_append, List.map_append,
      List.map_singleton, List.map_singleton] at hst
    -- in front of the last one there are zeros
    have hfront : (List.range k).map ((onStack (nsaa + 4 * k) 4 a.toNat fun _ => []).member (.stack nsaa)) =
        (List.range k).map fun i => floatReg (onStack (nsaa + 4 * k) 4 a.toNat fun _ => []) (fpr + i) := by
      refine List.map_congr_left fun i hi => ?_
      have hlt := List.mem_range.mp hi
      unfold Entry.member floatReg onStack
      dsimp only
      rw [Memory.load_store_of_disjoint _ _ (.inr (by omega)), load_zero]
      split_ifs <;> rfl
    have hlast : (onStack (nsaa + 4 * k) 4 a.toNat fun _ => []).member (.stack nsaa) k = a := by
      unfold Entry.member onStack
      dsimp only
      rw [Nat.zero_add, Memory.load_store, Nat.mod_eq_of_lt (show a.toNat < 256 ^ 4 from a.toNat_lt),
        UInt32.ofNat_toNat]
    have hzero : floatReg (onStack (nsaa + 4 * k) 4 a.toNat fun _ => []) (fpr + k) = 0 := by
      unfold floatReg onStack
      dsimp only
      split_ifs <;> rfl
    rw [hfront, hlast, hzero] at hst
    exact hne (hprint _ _ _ (by rw [List.length_map, List.length_range]) hst).symm
  · intro hfpr st
    rw [hcode, htext, Counters.next_members hfpr]
    refine congrArg print (List.map_congr_left fun k hk => ?_)
    have hlt := List.mem_range.mp hk
    unfold floatReg Entry.member
    rw [if_pos (by omega)]

/-- A struct without a name in `BfFormatArg` is printed as a word. -/
theorem struct_ne {n : Nat} (hk : t.kind = .struct n) (st : Entry) (place : Place) :
    (bfFormatArg fmt st t.toUnityType gpr fpr).1 ≠ textAt fmt st t place := by
  have hword (raw : UInt64) : formatWord st.strings t.toUnityType raw = hexStr raw := by
    have hsize : ¬ (0 < t.size ∧ t.size ≤ 4) := by
      rw [t.size_eq]
      decide
    unfold formatWord
    rcases t.listed n hk with hname | hname
    · rw [hname, if_neg (by decide), if_neg (by decide), if_neg (by decide), if_neg hsize, if_neg (by decide)]
    · rw [hname, if_neg (by decide), if_neg (by decide), if_neg (by decide), if_neg hsize, if_neg (by decide)]
  unfold bfFormatArg textAt
  rw [lookup_floatArgs, hk]
  dsimp only [Kind.floatArg]
  rw [hword]
  split_ifs
  all_goals exact hexStr_ne_group fmt _ _

theorem floats_pos {names : List String} (hk : t.kind = .floats names) : 0 < names.length := by
  have hall : ∀ x ∈ builtins, x.2.floatArg ≠ some (.hfa 0) := by decide
  cases hlookup : builtins.lookup t.name with
  | none =>
    have hother := t.other hlookup
    rw [hk] at hother
    exact hother.elim
  | some k =>
    have hkind := t.builtin k hlookup
    refine Nat.pos_of_ne_zero fun hzero => hall _ (t.mem_builtins hlookup) ?_
    rw [← hkind, hk, Kind.floatArg, hzero]

/-- An argument is from its place exactly if it is no other struct and there are registers for it. -/
theorem arg_iff (fmt : Formats) (t : ArgType) {gpr fpr : Nat} (nsaa : Nat) (hgpr : gpr ≤ 8) (hfpr : fpr ≤ 8) :
    (∀ st, (bfFormatArg fmt st t.toUnityType gpr fpr).1 =
      textAt fmt st t ((⟨gpr, fpr, nsaa⟩ : Counters).next t.argClass).1) ↔
    (∀ n, t.kind ≠ .struct n) ∧ (⟨gpr, fpr, nsaa⟩ : Counters).Room t.argClass := by
  cases hk : t.kind with
  | struct n =>
    refine iff_of_false (fun h => ?_) fun h => h.1 n rfl
    exact struct_ne hk (onStack 0 0 0 fun _ => []) _ (h _)
  | single =>
    have hcode (st : Entry) : (bfFormatArg fmt st t.toUnityType gpr fpr).1 =
        fmt.float (((List.range 1).map fun k => floatReg st (fpr + k)).headD 0) := by
      unfold bfFormatArg
      rw [lookup_floatArgs, hk]
      rfl
    have hclass : t.argClass = .members 1 4 := by
      unfold ArgType.argClass
      rw [hk]
    have htext (st : Entry) (place : Place) :
        textAt fmt st t place = fmt.float (((List.range 1).map (st.member place)).headD 0) := by
      unfold textAt
      rw [hk]
      rfl
    rw [floats_iff Nat.one_pos (fun vs => fmt.float (vs.headD 0)) hcode hclass htext, hclass]
    · exact ⟨fun h => ⟨nofun, hgpr, h⟩, fun h => h.2.2⟩
    · intro vs a b hlen h
      rw [List.length_eq_zero_iff.mp (Nat.succ.inj hlen)] at h
      exact h
  | double =>
    have hclass : t.argClass = .members 1 8 := by
      unfold ArgType.argClass
      rw [hk]
    rw [double_iff hk, hclass]
    exact ⟨fun h => ⟨nofun, hgpr, h⟩, fun h => h.2.2⟩
  | floats names =>
    have hcode (st : Entry) : (bfFormatArg fmt st t.toUnityType gpr fpr).1 =
        group fmt ((List.range names.length).map fun k => floatReg st (fpr + k)) := by
      unfold bfFormatArg
      rw [lookup_floatArgs, hk]
      rfl
    have hclass : t.argClass = .members names.length 4 := by
      unfold ArgType.argClass
      rw [hk]
    have htext (st : Entry) (place : Place) :
        textAt fmt st t place = group fmt ((List.range names.length).map (st.member place)) := by
      unfold textAt
      rw [hk]
    rw [floats_iff (floats_pos hk) (group fmt) hcode hclass htext fun vs a b _ h => group_concat_inj h, hclass]
    exact ⟨fun h => ⟨nofun, hgpr, h⟩, fun h => h.2.2⟩
  | _ =>
    have hclass : t.argClass = .general := by
      unfold ArgType.argClass
      rw [hk]
    have htext (st : Entry) (place : Place) :
        textAt fmt st t place = formatWord st.strings t.toUnityType (st.word place) := by
      unfold textAt
      rw [hk]
    rw [word_iff hclass (by rw [hk]; rfl) htext, hclass]
    exact ⟨fun h => ⟨nofun, h, hfpr⟩, fun h => h.2.1⟩

/-- What `BfFormatArg` counts on is what the argument takes of each file. -/
theorem bfFormatArg_snd (hstruct : ∀ n, t.kind ≠ .struct n) (st : Entry) :
    (bfFormatArg fmt st t.toUnityType gpr fpr).2 = (gpr + t.argClass.gprs, fpr + t.argClass.fprs) := by
  unfold bfFormatArg ArgType.argClass
  rw [lookup_floatArgs]
  cases hk : t.kind with
  | struct n => exact absurd hk (hstruct n)
  | _ => rfl

end Argument

/-! ## All arguments -/

variable {fmt : Formats}

theorem argTexts_iff {gpr fpr : Nat} (hgpr : gpr ≤ 8) (hfpr : fpr ≤ 8) (nsaa : Nat) (ts : List ArgType) :
    (∀ st, argTexts fmt st gpr fpr (ts.map fun t => t.toUnityType) = placedTexts fmt st ⟨gpr, fpr, nsaa⟩ ts) ↔
      InRegisters gpr fpr ts := by
  induction ts generalizing gpr fpr with
  | nil => exact iff_of_true (fun _ => rfl) ⟨nofun, hgpr, hfpr⟩
  | cons t ts ih =>
    have hsplit : InRegisters gpr fpr (t :: ts) ↔
        (∀ n, t.kind ≠ .struct n) ∧ InRegisters (gpr + t.argClass.gprs) (fpr + t.argClass.fprs) ts := by
      constructor
      · rintro ⟨hnamed, hgeneral, hfloating⟩
        rw [List.map_cons, List.sum_cons, ← Nat.add_assoc] at hgeneral hfloating
        exact ⟨hnamed t List.mem_cons_self, fun t' ht' => hnamed t' (List.mem_cons_of_mem t ht'), hgeneral, hfloating⟩
      · rintro ⟨hfirst, hnamed, hgeneral, hfloating⟩
        refine ⟨List.forall_mem_cons.mpr ⟨hfirst, hnamed⟩, ?_, ?_⟩
        · rw [List.map_cons, List.sum_cons, ← Nat.add_assoc]
          exact hgeneral
        · rw [List.map_cons, List.sum_cons, ← Nat.add_assoc]
          exact hfloating
    rw [hsplit]
    have harg := arg_iff fmt t nsaa hgpr hfpr
    constructor
    · intro h
      have hhead (st : Entry) := (List.cons.inj (h st)).1
      obtain ⟨hstruct, hroom⟩ := harg.mp hhead
      refine ⟨hstruct, (ih hroom.1 hroom.2).mp fun st => ?_⟩
      have htail := (List.cons.inj (h st)).2
      rw [bfFormatArg_snd hstruct, Counters.next_snd_of_room hroom] at htail
      exact htail
    · rintro ⟨hstruct, hrest⟩ st
      have hroom : (⟨gpr, fpr, nsaa⟩ : Counters).Room t.argClass :=
        ⟨Nat.le_trans (Nat.le_add_right _ _) hrest.general, Nat.le_trans (Nat.le_add_right _ _) hrest.floating⟩
      rw [List.map_cons, argTexts, placedTexts, harg.mpr ⟨hstruct, hroom⟩ st, bfFormatArg_snd hstruct, Counters.next_snd_of_room hroom,
        (ih hroom.1 hroom.2).mpr hrest st]

/-- The arguments are printed from their places, in every state, exactly if they are all in registers. -/
theorem bfOnEnter_args_iff (fmt : Formats) (rec : HookRecord) :
    (∀ st, rec.texts fmt st = rec.placed fmt st) ↔
      InRegisters (if rec.static_function = true then 0 else 1) 0 (rec.args.map Prod.fst) := by
  have htypes : (rec.args.map fun arg => arg.1.toUnityType) = (rec.args.map Prod.fst).map fun t => t.toUnityType := by
    rw [List.map_map]
    rfl
  unfold HookRecord.texts HookRecord.placed
  rw [htypes]
  exact argTexts_iff (by split_ifs <;> decide) (by decide) 0 _

def rect : ArgType where
  name := "UnityEngine.Rect"
  size := -1
  kind := .struct 16
  builtin k h := by
    rw [show builtins.lookup "UnityEngine.Rect" = some (.struct 16) by decide] at h
    exact Option.some.inj h
  other _ := trivial
  size_eq := unknown_size
  listed _ _ := .inl rfl

/-- Zero and one. -/
def digitFormats : Formats where
  float a := if a = 0 then ascii "0" else ascii "1"
  double a := if a = 0 then ascii "0" else ascii "1"
  float_ne := ⟨0x3f800000, by decide⟩
  double_ne := ⟨0x3ff0000000000000, by decide⟩

/-- A static method with a rectangle. -/
def rectRecord : HookRecord where
  class_name := ascii "Panel"
  signature := ascii "void Show(Rect)"
  klass := 0
  max_calls := 10
  detailed := false
  name := ascii "Show"
  static_function := true
  address := 0
  function := 0
  args := [(rect, 0, ascii "area")]

/-- It is in four vector registers, and what is printed is a general one. -/
theorem not_bfOnEnter_args : ¬ ∀ fmt (rec : HookRecord) st, rec.texts fmt st = rec.placed fmt st := by
  intro h
  have hregs := (argTexts_iff (Nat.zero_le 8) (Nat.zero_le 8) 0 [rect]).mp (h digitFormats rectRecord)
  exact hregs.named rect List.mem_cons_self 16 rfl

end ArtPi.Unity
