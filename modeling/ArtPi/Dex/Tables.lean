import ArtPi.Dex.Relocate
import ArtPi.Dex.StringPool
import ArtPi.Lib.Codec
import ArtPi.Lib.Ranking
import Mathlib.Data.List.Lex

set_option autoImplicit false

/-! # The index tables (`slicer/dex_ir.cc`, `slicer/dex_utf8.cc`, `slicer/writer.cc`)

`Normalize` sorts the strings of an IR, and with the indexes that they get its types, and so on up to the methods;
`FillTypes` and its relatives put the new indexes into the tables of the image. A node of the IR is its number in the
order in which it was made, which is also the index that the code has before `WriteInstructions`. -/

namespace ArtPi.Dex.Tables

open Codec Ranking StringPool
open Sandbox (kNoIndex)

/-! ## The nodes -/

structure Proto where
  shorty : Nat
  returnType : Nat
  paramTypes : List Nat
deriving DecidableEq

structure FieldDecl where
  parent : Nat
  name : Nat
  type : Nat
deriving DecidableEq

structure MethodDecl where
  parent : Nat
  name : Nat
  prototype : Nat
deriving DecidableEq

/-- The nodes of an `ir::DexFile`. A string is its UTF-16 units, and a type its descriptor. -/
structure Ir where
  strings : List (List UInt16)
  types : List Nat
  protos : List Proto
  fields : List FieldDecl
  methods : List MethodDecl

/-! ## `Utf8Cmp` -/

/-- `c_str()` of a string -/
def cStr (units : List UInt16) : List UInt8 := units.flatMap appendMutf8Unit ++ [0]

def getUtf16FromUtf8 : Reader UInt8 Nat := do
  let one ← next
  if one &&& 0x80 ≠ 0 then
    let two ← next
    if one &&& 0x20 ≠ 0 then
      let three ← next
      pure ((one.toNat &&& 0x0f) <<< 12 ||| (two.toNat &&& 0x3f) <<< 6 ||| three.toNat &&& 0x3f)
    else pure ((one.toNat &&& 0x1f) <<< 6 ||| two.toNat &&& 0x3f)
  else pure one.toNat

/-- The loop of `Utf8Cmp`, which does not go beyond the end of a string. -/
def utf8CmpLoop : Nat → List UInt8 → List UInt8 → Option Int
  | 0, _, _ => none
  | rounds + 1, s1, s2 => do
    let c1 ← s1.head?
    let c2 ← s2.head?
    if c1 = 0 then
      if c2 = 0 then some 0 else some (-1)
    else if c2 = 0 then some 1
    else
      let (utf1, s1) ← getUtf16FromUtf8 s1
      let (utf2, s2) ← getUtf16FromUtf8 s2
      let diff : Int := (utf1 : Int) - utf2
      if diff ≠ 0 then some diff else utf8CmpLoop rounds s1 s2

def utf8Cmp (s1 s2 : List UInt8) : Option Int := utf8CmpLoop s1.length s1 s2

/-! ## `Normalize` -/

/-- `std::lexicographical_compare` -/
def lexicographicalCompare (less : Nat → Nat → Bool) : List Nat → List Nat → Bool
  | _, [] => false
  | [], _ :: _ => true
  | a :: as, b :: bs => if less a b then true else if less b a then false else lexicographicalCompare less as bs

namespace Ir

variable (ir : Ir)

def string (s : Nat) : List UInt16 := ir.strings.getD s []

def descriptor (t : Nat) : Nat := ir.types.getD t 0

def proto (p : Nat) : Proto := ir.protos.getD p ⟨0, 0, []⟩

def field (f : Nat) : FieldDecl := ir.fields.getD f ⟨0, 0, 0⟩

def method (m : Nat) : MethodDecl := ir.methods.getD m ⟨0, 0, 0⟩

/-- The strings in their new order. -/
def stringOrder : List Nat :=
  sortIds ir.strings.length (fun a b => (utf8Cmp (cStr (ir.string a)) (cStr (ir.string b))).any (· < 0))

def stringIndex (s : Nat) : Nat := ir.stringOrder.idxOf s

def typeOrder : List Nat :=
  sortIds ir.types.length (fun a b => ir.stringIndex (ir.descriptor a) < ir.stringIndex (ir.descriptor b))

def typeIndex (t : Nat) : Nat := ir.typeOrder.idxOf t

def protoLess (a b : Proto) : Bool :=
  if ir.typeIndex a.returnType ≠ ir.typeIndex b.returnType then ir.typeIndex a.returnType < ir.typeIndex b.returnType
  else lexicographicalCompare (fun t1 t2 => ir.typeIndex t1 < ir.typeIndex t2) a.paramTypes b.paramTypes

def protoOrder : List Nat := sortIds ir.protos.length (fun a b => ir.protoLess (ir.proto a) (ir.proto b))

def protoIndex (p : Nat) : Nat := ir.protoOrder.idxOf p

def fieldLess (a b : FieldDecl) : Bool :=
  if ir.typeIndex a.parent ≠ ir.typeIndex b.parent then ir.typeIndex a.parent < ir.typeIndex b.parent
  else if ir.stringIndex a.name ≠ ir.stringIndex b.name then ir.stringIndex a.name < ir.stringIndex b.name
  else ir.typeIndex a.type < ir.typeIndex b.type

def fieldOrder : List Nat := sortIds ir.fields.length (fun a b => ir.fieldLess (ir.field a) (ir.field b))

def fieldIndex (f : Nat) : Nat := ir.fieldOrder.idxOf f

def methodLess (a b : MethodDecl) : Bool :=
  if ir.typeIndex a.parent ≠ ir.typeIndex b.parent then ir.typeIndex a.parent < ir.typeIndex b.parent
  else if ir.stringIndex a.name ≠ ir.stringIndex b.name then ir.stringIndex a.name < ir.stringIndex b.name
  else ir.protoIndex a.prototype < ir.protoIndex b.prototype

def methodOrder : List Nat := sortIds ir.methods.length (fun a b => ir.methodLess (ir.method a) (ir.method b))

def methodIndex (m : Nat) : Nat := ir.methodOrder.idxOf m

end Ir

/-! ## The tables -/

/-- A `proto_id_item`, and the `type_list` that it points to. -/
structure ProtoId where
  shortyIdx : Nat
  returnTypeIdx : Nat
  parameters : List Nat
deriving DecidableEq

structure FieldId where
  classIdx : Nat
  typeIdx : Nat
  nameIdx : Nat
deriving DecidableEq

structure MethodId where
  classIdx : Nat
  protoIdx : Nat
  nameIdx : Nat
deriving DecidableEq

structure IndexTables where
  stringIds : List (List UInt16)
  typeIds : List Nat
  protoIds : List ProtoId
  fieldIds : List FieldId
  methodIds : List MethodId

/-- `dex::u2` -/
def u2 (n : Nat) : Nat := n % 2 ^ 16

namespace Ir

variable (ir : Ir)

/-- A row of `FillProtos`, with its parameters from `WriteTypeList`. -/
def protoId (p : Nat) : ProtoId :=
  ⟨ir.stringIndex (ir.proto p).shorty, ir.typeIndex (ir.proto p).returnType,
    (ir.proto p).paramTypes.map (fun t => u2 (ir.typeIndex t))⟩

def fieldId (f : Nat) : FieldId :=
  ⟨u2 (ir.typeIndex (ir.field f).parent), u2 (ir.typeIndex (ir.field f).type), ir.stringIndex (ir.field f).name⟩

def methodId (m : Nat) : MethodId :=
  ⟨u2 (ir.typeIndex (ir.method m).parent), u2 (ir.protoIndex (ir.method m).prototype), ir.stringIndex (ir.method m).name⟩

/-- `CreateStringDataSection`, `FillTypes`, `FillProtos`, `FillFields` and `FillMethods` -/
def tables : IndexTables where
  stringIds := ir.stringOrder.map ir.string
  typeIds := ir.typeOrder.map (fun t => ir.stringIndex (ir.descriptor t))
  protoIds := ir.protoOrder.map ir.protoId
  fieldIds := ir.fieldOrder.map ir.fieldId
  methodIds := ir.methodOrder.map ir.methodId

/-- What `WriteInstructions` finds in the maps of the IR. -/
def indexMaps : IndexMaps where
  string s := if s < ir.strings.length then some (ir.stringIndex s) else none
  type t := if t < ir.types.length then some (ir.typeIndex t) else none
  field f := if f < ir.fields.length then some (ir.fieldIndex f) else none
  method m := if m < ir.methods.length then some (ir.methodIndex m) else none
  proto p := if p < ir.protos.length then some (ir.protoIndex p) else none
  methodHandle _ := none

end Ir

/-! ## The reader -/

abbrev Utf16 : Type := List UInt16

structure ProtoText where
  shorty : Utf16
  returnType : Utf16
  paramTypes : List Utf16
deriving DecidableEq

structure FieldText where
  parent : Utf16
  name : Utf16
  type : Utf16
deriving DecidableEq

structure MethodText where
  parent : Utf16
  name : Utf16
  prototype : ProtoText
deriving DecidableEq

namespace IndexTables

variable (t : IndexTables)

/-- `ParseString` -/
def parseString (index : Nat) : Option Utf16 := t.stringIds[index]?

/-- `ParseType` -/
def parseType (index : Nat) : Option Utf16 := (t.typeIds[index]?).bind t.parseString

/-- `ParseProto`, with `ExtractTypeList` -/
def parseProto (index : Nat) : Option ProtoText := do
  let row ← t.protoIds[index]?
  let shorty ← t.parseString row.shortyIdx
  let returnType ← t.parseType row.returnTypeIdx
  let paramTypes ← row.parameters.mapM t.parseType
  pure ⟨shorty, returnType, paramTypes⟩

def parseFieldDecl (index : Nat) : Option FieldText := do
  let row ← t.fieldIds[index]?
  let name ← t.parseString row.nameIdx
  let type ← t.parseType row.typeIdx
  let parent ← t.parseType row.classIdx
  pure ⟨parent, name, type⟩

def parseMethodDecl (index : Nat) : Option MethodText := do
  let row ← t.methodIds[index]?
  let name ← t.parseString row.nameIdx
  let prototype ← t.parseProto row.protoIdx
  let parent ← t.parseType row.classIdx
  pure ⟨parent, name, prototype⟩

end IndexTables

namespace Ir

variable (ir : Ir)

/-! What the nodes say, without numbers. -/

def typeText (t : Nat) : Utf16 := ir.string (ir.descriptor t)

def protoText (p : Nat) : ProtoText :=
  ⟨ir.string (ir.proto p).shorty, ir.typeText (ir.proto p).returnType, (ir.proto p).paramTypes.map ir.typeText⟩

def fieldText (f : Nat) : FieldText :=
  ⟨ir.typeText (ir.field f).parent, ir.string (ir.field f).name, ir.typeText (ir.field f).type⟩

def methodText (m : Nat) : MethodText :=
  ⟨ir.typeText (ir.method m).parent, ir.string (ir.method m).name, ir.protoText (ir.method m).prototype⟩

end Ir

/-! ## The order of the strings -/

/-- A text, to be compared unit by unit. -/
def unitsKey (units : List UInt16) : List Nat := units.map UInt16.toNat

theorem unitsKey_inj {us vs : List UInt16} (h : unitsKey us = unitsKey vs) : us = vs :=
  List.map_injective_iff.2 (fun _ _ => UInt16.toNat_inj.1) h

theorem low_bits (b : UInt8) :
    b.toNat &&& 0x0f = b.toNat % 16 ∧ b.toNat &&& 0x1f = b.toNat % 32 ∧ b.toNat &&& 0x3f = b.toNat % 64 :=
  ⟨Nat.and_two_pow_sub_one_eq_mod _ 4, Nat.and_two_pow_sub_one_eq_mod _ 5, Nat.and_two_pow_sub_one_eq_mod _ 6⟩

set_option maxRecDepth 8192 in
theorem high_bits (b : UInt8) : (b &&& 0x80 ≠ 0 ↔ 0x80 ≤ b.toNat) ∧
    (0xC0 ≤ b.toNat → b.toNat < 0xF0 → (b &&& 0x20 ≠ 0 ↔ 0xE0 ≤ b.toNat)) := by
  have hall : ∀ n < 256, (UInt8.ofNat n &&& 0x80 ≠ 0 ↔ 0x80 ≤ n) ∧
      (0xC0 ≤ n → n < 0xF0 → (UInt8.ofNat n &&& 0x20 ≠ 0 ↔ 0xE0 ≤ n)) := by
    decide
  have hb := hall b.toNat b.toNat_lt
  rwa [UInt8.ofNat_toNat] at hb

theorem reads_one {one : UInt8} (h : one.toNat < 0x80) : Reads getUtf16FromUtf8 [one] one.toNat := by
  refine (reads_next one).bind_nil ?_
  rw [if_neg ((high_bits one).1.not.2 (Nat.not_le_of_lt h))]
  exact reads_pure _

theorem reads_two {one two : UInt8} (hlow : 0xC0 ≤ one.toNat) (h : one.toNat < 0xE0) :
    Reads getUtf16FromUtf8 [one, two] (one.toNat % 32 * 64 + two.toNat % 64) := by
  refine (reads_next one).bind ?_
  rw [if_pos ((high_bits one).1.2 (by omega))]
  refine (reads_next two).bind_nil ?_
  rw [if_neg (((high_bits one).2 hlow (by omega)).not.2 (Nat.not_le_of_lt h)), (low_bits one).2.1, (low_bits two).2.2,
    or_shiftLeft (Nat.mod_lt _ (by decide))]
  exact reads_pure _

theorem reads_three {one two three : UInt8} (hlow : 0xE0 ≤ one.toNat) (h : one.toNat < 0xF0) :
    Reads getUtf16FromUtf8 [one, two, three] ((one.toNat % 16 * 64 + two.toNat % 64) * 64 + three.toNat % 64) := by
  refine (reads_next one).bind ?_
  rw [if_pos ((high_bits one).1.2 (by omega))]
  refine (reads_next two).bind ?_
  rw [if_pos (((high_bits one).2 (by omega) h).2 hlow)]
  refine (reads_next three).bind_nil ?_
  have hpair : (one.toNat % 16) <<< 12 ||| (two.toNat % 64) <<< 6 = (one.toNat % 16 * 64 + two.toNat % 64) <<< 6 := by
    rw [← or_shiftLeft (Nat.mod_lt _ (by decide)), Nat.shiftLeft_or_distrib, ← Nat.shiftLeft_add]
  rw [(low_bits one).1, (low_bits two).2.2, (low_bits three).2.2, hpair, or_shiftLeft (Nat.mod_lt _ (by decide))]
  exact reads_pure _

/-- The reader reads a unit back from the bytes that `AppendMutf8Unit` writes for it. -/
theorem reads_getUtf16FromUtf8 (u : UInt16) : Reads getUtf16FromUtf8 (appendMutf8Unit u) u.toNat := by
  have hu := u.toNat_lt
  have hbyte : ∀ n < 256, (UInt8.ofNat n).toNat = n := fun n hn => UInt8.toNat_ofNat_of_lt' hn
  rw [appendMutf8Unit_eq, Lib.ModifiedUtf8.encodeUnit]
  split
  · next hone =>
      have hfirst := hbyte u.toNat (by omega)
      have hread := reads_one (show (UInt8.ofNat u.toNat).toNat < 0x80 by omega)
      rwa [hfirst] at hread
  · split
    · next htwo =>
        have hfirst := hbyte (0xC0 + u.toNat / 64) (by omega)
        have hlast := hbyte (0x80 + u.toNat % 64) (by omega)
        have hread : Reads getUtf16FromUtf8 [UInt8.ofNat (0xC0 + u.toNat / 64), UInt8.ofNat (0x80 + u.toNat % 64)] _ :=
          reads_two (by omega) (by omega)
        rw [hfirst, hlast] at hread
        convert hread using 1
        omega
    · next htwo =>
        have hfirst := hbyte (0xE0 + u.toNat / 4096) (by omega)
        have hmid := hbyte (0x80 + u.toNat / 64 % 64) (by omega)
        have hlast := hbyte (0x80 + u.toNat % 64) (by omega)
        have hread : Reads getUtf16FromUtf8 [UInt8.ofNat (0xE0 + u.toNat / 4096),
            UInt8.ofNat (0x80 + u.toNat / 64 % 64), UInt8.ofNat (0x80 + u.toNat % 64)] _ :=
          reads_three (by omega) (by omega)
        rw [hfirst, hmid, hlast] at hread
        convert hread using 1
        omega

theorem cStr_cons (u : UInt16) (us : List UInt16) : cStr (u :: us) = appendMutf8Unit u ++ cStr us := by
  rw [cStr, List.flatMap_cons, List.append_assoc, cStr]

theorem exists_head_cStr (u : UInt16) (us : List UInt16) : ∃ b, (cStr (u :: us)).head? = some b ∧ b ≠ 0 := by
  have hne : appendMutf8Unit u ≠ [] := by
    rw [appendMutf8Unit_eq, Lib.ModifiedUtf8.encodeUnit]
    split_ifs <;> simp
  obtain ⟨b, bs, hbs⟩ := List.exists_cons_of_ne_nil hne
  refine ⟨b, by rw [cStr_cons, hbs]; rfl, ?_⟩
  refine Lib.ModifiedUtf8.ne_zero_of_mem_encodeUnit (u := u) ?_
  rw [← appendMutf8Unit_eq, hbs]
  exact List.mem_cons_self

theorem length_le_cStr (us : List UInt16) : us.length < (cStr us).length := by
  induction us with
  | nil => exact Nat.zero_lt_one
  | cons u us ih =>
    obtain ⟨b, hb, -⟩ := exists_head_cStr u []
    have hpos : 0 < (appendMutf8Unit u).length := by
      rw [appendMutf8Unit]
      split_ifs <;> exact Nat.succ_pos _
    rw [cStr_cons, List.length_append, List.length_cons]
    omega

/-- The loop compares unit by unit, and comes to the end of one of the strings at the latest. -/
theorem utf8CmpLoop_cStr {rounds : Nat} (us vs : List UInt16) (hrounds : us.length < rounds) :
    ∃ diff, utf8CmpLoop rounds (cStr us) (cStr vs) = some diff ∧ (diff < 0 ↔ unitsKey us < unitsKey vs) := by
  induction us generalizing rounds vs with
  | nil =>
    obtain ⟨rounds, rfl⟩ := Nat.exists_eq_succ_of_ne_zero (Nat.ne_of_gt hrounds)
    cases vs with
    | nil => exact ⟨0, rfl, by simp⟩
    | cons v vs =>
      obtain ⟨b, hb, hne⟩ := exists_head_cStr v vs
      refine ⟨-1, ?_, by simp [unitsKey]⟩
      simp only [utf8CmpLoop, hb, show (cStr []).head? = some 0 from rfl, Option.bind_eq_bind, Option.bind_some]
      rw [if_pos trivial, if_neg hne]
  | cons u us ih =>
    obtain ⟨rounds, rfl⟩ := Nat.exists_eq_succ_of_ne_zero (Nat.ne_of_gt (Nat.zero_lt_of_lt hrounds))
    obtain ⟨b, hb, hne⟩ := exists_head_cStr u us
    cases vs with
    | nil =>
      refine ⟨1, ?_, by simp [unitsKey]⟩
      simp only [utf8CmpLoop, hb, show (cStr []).head? = some 0 from rfl, Option.bind_eq_bind, Option.bind_some]
      rw [if_neg hne, if_pos trivial]
    | cons v vs =>
      obtain ⟨c, hc, hcne⟩ := exists_head_cStr v vs
      have hread : getUtf16FromUtf8 (cStr (u :: us)) = some (u.toNat, cStr us) := by
        rw [cStr_cons]
        exact reads_getUtf16FromUtf8 u _
      have hread' : getUtf16FromUtf8 (cStr (v :: vs)) = some (v.toNat, cStr vs) := by
        rw [cStr_cons]
        exact reads_getUtf16FromUtf8 v _
      have hlt : unitsKey (u :: us) < unitsKey (v :: vs) ↔
          u.toNat < v.toNat ∨ u.toNat = v.toNat ∧ unitsKey us < unitsKey vs := List.cons_lt_cons_iff
      simp only [utf8CmpLoop, hb, hc, Option.bind_eq_bind, Option.bind_some]
      rw [if_neg hne, if_neg hcne, hread, Option.bind_some, hread', Option.bind_some, hlt]
      by_cases hdiff : (u.toNat : Int) - v.toNat = 0
      · obtain ⟨diff, hrec, hiff⟩ := ih vs (Nat.lt_of_succ_lt_succ hrounds)
        rw [if_neg (not_not.2 hdiff)]
        refine ⟨diff, hrec, hiff.trans ?_⟩
        have heq : u.toNat = v.toNat := by omega
        simp [heq]
      · rw [if_pos hdiff]
        refine ⟨_, rfl, ?_⟩
        omega

theorem utf8Cmp_cStr (us vs : List UInt16) :
    (utf8Cmp (cStr us) (cStr vs)).any (· < 0) = true ↔ unitsKey us < unitsKey vs := by
  obtain ⟨diff, hdiff, hiff⟩ := utf8CmpLoop_cStr us vs (length_le_cStr us)
  rw [utf8Cmp, hdiff, Option.any_some, decide_eq_true_iff]
  exact hiff

/-! ## The keys of the other tables -/

namespace Ir

variable (ir : Ir)

/-- No two nodes are the same, and what a node refers to is there. -/
structure Interned : Prop where
  strings : ir.strings.Nodup
  types : ir.types.Nodup
  protos : (ir.protos.map (fun p => (p.returnType, p.paramTypes))).Nodup
  fields : ir.fields.Nodup
  methods : ir.methods.Nodup
  descriptor : ∀ d ∈ ir.types, d < ir.strings.length
  proto : ∀ p ∈ ir.protos,
    p.shorty < ir.strings.length ∧ p.returnType < ir.types.length ∧ ∀ t ∈ p.paramTypes, t < ir.types.length
  field : ∀ f ∈ ir.fields, f.parent < ir.types.length ∧ f.name < ir.strings.length ∧ f.type < ir.types.length
  method : ∀ m ∈ ir.methods, m.parent < ir.types.length ∧ m.name < ir.strings.length ∧ m.prototype < ir.protos.length

/-- The indexes fit the fields of the tables. -/
structure Fits : Prop where
  strings : ir.strings.length < kNoIndex
  types : ir.types.length ≤ 2 ^ 16
  protos : ir.protos.length ≤ 2 ^ 16
  fields : ir.fields.length < kNoIndex
  methods : ir.methods.length < kNoIndex

def stringKey (s : Nat) : List Nat := unitsKey (ir.string s)

def typeKey (t : Nat) : Nat := ir.stringIndex (ir.descriptor t)

def protoKey (p : Nat) : List Nat := ir.typeIndex (ir.proto p).returnType :: (ir.proto p).paramTypes.map ir.typeIndex

def fieldKey (f : Nat) : List Nat :=
  [ir.typeIndex (ir.field f).parent, ir.stringIndex (ir.field f).name, ir.typeIndex (ir.field f).type]

def methodKey (m : Nat) : List Nat :=
  [ir.typeIndex (ir.method m).parent, ir.stringIndex (ir.method m).name, ir.protoIndex (ir.method m).prototype]

end Ir

theorem lexicographicalCompare_iff {key : Nat → Nat} (as bs : List Nat) :
    lexicographicalCompare (fun a b => key a < key b) as bs = true ↔ as.map key < bs.map key := by
  induction as generalizing bs with
  | nil => cases bs <;> simp [lexicographicalCompare]
  | cons a as ih =>
    cases bs with
    | nil => simp [lexicographicalCompare]
    | cons b bs =>
      rw [lexicographicalCompare, List.map_cons, List.map_cons, List.cons_lt_cons_iff, ← ih]
      rcases Nat.lt_trichotomy (key a) (key b) with hab | hab | hab
      · simp [hab]
      · simp [hab]
      · simp [hab, Nat.lt_asymm hab, Nat.ne_of_gt hab]

/-- A comparison of three numbers, each for the case that those before it are the same. -/
theorem three_lt_iff (a b c a' b' c' : Nat) :
    [a, b, c] < [a', b', c'] ↔ if a ≠ a' then a < a' else if b ≠ b' then b < b' else c < c' := by
  simp only [List.cons_lt_cons_iff, List.lt_irrefl, and_false, or_false]
  split_ifs <;> omega

theorem map_inj_of_mem {α β : Type} {key : α → β} {as bs : List α} (h : ∀ a ∈ as, ∀ b ∈ bs, key a = key b → a = b)
    (hmap : as.map key = bs.map key) : as = bs := by
  induction as generalizing bs with
  | nil => exact (List.map_eq_nil_iff.1 hmap.symm).symm
  | cons a as ih =>
    cases bs with
    | nil => exact absurd hmap (by simp)
    | cons b bs =>
      obtain ⟨hhead, htail⟩ := List.cons.inj hmap
      obtain rfl := h a List.mem_cons_self b List.mem_cons_self hhead
      rw [ih (fun c hc d hd => h c (List.mem_cons_of_mem _ hc) d (List.mem_cons_of_mem _ hd)) htail]

theorem getD_inj {α : Type} {l : List α} (h : l.Nodup) {d : α} {a b : Nat} (ha : a < l.length) (hb : b < l.length)
    (hab : l.getD a d = l.getD b d) : a = b := by
  rw [List.getD_eq_getElem _ _ ha, List.getD_eq_getElem _ _ hb] at hab
  exact (h.getElem_inj_iff).1 hab

theorem getD_mem {α : Type} {l : List α} {d : α} {a : Nat} (ha : a < l.length) : l.getD a d ∈ l := by
  rw [List.getD_eq_getElem _ _ ha]
  exact List.getElem_mem ha

theorem mapM_of_forall {α β : Type} {f : α → Option β} {g : α → β} {as : List α} (h : ∀ a ∈ as, f a = some (g a)) :
    as.mapM f = some (as.map g) := by
  induction as with
  | nil => rfl
  | cons a as ih =>
    rw [List.mapM_cons, h a List.mem_cons_self, ih fun b hb => h b (List.mem_cons_of_mem a hb)]
    rfl

namespace Ir

variable {ir : Ir}

theorem stringIndex_inj {a b : Nat} (ha : a < ir.strings.length) (hb : b < ir.strings.length)
    (h : ir.stringIndex a = ir.stringIndex b) : a = b := rank_inj ha hb h

theorem typeIndex_inj {a b : Nat} (ha : a < ir.types.length) (hb : b < ir.types.length)
    (h : ir.typeIndex a = ir.typeIndex b) : a = b := rank_inj ha hb h

theorem protoIndex_inj {a b : Nat} (ha : a < ir.protos.length) (hb : b < ir.protos.length)
    (h : ir.protoIndex a = ir.protoIndex b) : a = b := rank_inj ha hb h

section Keys

variable (h : ir.Interned)

include h

theorem stringKey_inj (a : Nat) (ha : a < ir.strings.length) (b : Nat) (hb : b < ir.strings.length)
    (hab : ir.stringKey a = ir.stringKey b) : a = b := getD_inj h.strings ha hb (unitsKey_inj hab)

theorem typeKey_inj (a : Nat) (ha : a < ir.types.length) (b : Nat) (hb : b < ir.types.length)
    (hab : ir.typeKey a = ir.typeKey b) : a = b :=
  getD_inj h.types ha hb (stringIndex_inj (h.descriptor _ (getD_mem ha)) (h.descriptor _ (getD_mem hb)) hab)

theorem protoKey_inj (a : Nat) (ha : a < ir.protos.length) (b : Nat) (hb : b < ir.protos.length)
    (hab : ir.protoKey a = ir.protoKey b) : a = b := by
  obtain ⟨-, hreta, hparama⟩ := h.proto (ir.proto a) (getD_mem ha)
  obtain ⟨-, hretb, hparamb⟩ := h.proto (ir.proto b) (getD_mem hb)
  obtain ⟨hret, hparams⟩ := List.cons.inj hab
  have hparams : (ir.proto a).paramTypes = (ir.proto b).paramTypes := by
    exact map_inj_of_mem (fun t ht u hu => typeIndex_inj (hparama t ht) (hparamb u hu)) hparams
  let pair (p : Proto) := (p.returnType, p.paramTypes)
  have hpair : (ir.protos.map pair).getD a (pair ⟨0, 0, []⟩) = (ir.protos.map pair).getD b (pair ⟨0, 0, []⟩) := by
    rw [List.getD_map, List.getD_map]
    exact Prod.ext (typeIndex_inj hreta hretb hret) hparams
  exact getD_inj h.protos (by simpa using ha) (by simpa using hb) hpair

theorem fieldKey_inj (a : Nat) (ha : a < ir.fields.length) (b : Nat) (hb : b < ir.fields.length)
    (hab : ir.fieldKey a = ir.fieldKey b) : a = b := by
  obtain ⟨hparenta, hnamea, htypea⟩ := h.field (ir.field a) (getD_mem ha)
  obtain ⟨hparentb, hnameb, htypeb⟩ := h.field (ir.field b) (getD_mem hb)
  obtain ⟨hparent, hrest⟩ := List.cons.inj hab
  obtain ⟨hname, hrest⟩ := List.cons.inj hrest
  obtain ⟨htype, -⟩ := List.cons.inj hrest
  have hfield : ir.field a = ir.field b := by
    cases hfa : ir.field a
    cases hfb : ir.field b
    simp only [hfa, hfb] at *
    rw [typeIndex_inj hparenta hparentb hparent, stringIndex_inj hnamea hnameb hname, typeIndex_inj htypea htypeb htype]
  exact getD_inj h.fields ha hb hfield

theorem methodKey_inj (a : Nat) (ha : a < ir.methods.length) (b : Nat) (hb : b < ir.methods.length)
    (hab : ir.methodKey a = ir.methodKey b) : a = b := by
  obtain ⟨hparenta, hnamea, hprotoa⟩ := h.method (ir.method a) (getD_mem ha)
  obtain ⟨hparentb, hnameb, hprotob⟩ := h.method (ir.method b) (getD_mem hb)
  obtain ⟨hparent, hrest⟩ := List.cons.inj hab
  obtain ⟨hname, hrest⟩ := List.cons.inj hrest
  obtain ⟨hproto, -⟩ := List.cons.inj hrest
  have hmethod : ir.method a = ir.method b := by
    cases hma : ir.method a
    cases hmb : ir.method b
    simp only [hma, hmb] at *
    rw [typeIndex_inj hparenta hparentb hparent, stringIndex_inj hnamea hnameb hname, protoIndex_inj hprotoa hprotob hproto]
  exact getD_inj h.methods ha hb hmethod

end Keys

theorem protoLess_iff (a b : Nat) : ir.protoLess (ir.proto a) (ir.proto b) = true ↔ ir.protoKey a < ir.protoKey b := by
  rw [protoKey, protoKey, List.cons_lt_cons_iff, protoLess]
  split_ifs with hret
  · simp [hret]
  · rw [lexicographicalCompare_iff]
    simp [not_not.1 hret]

theorem fieldLess_iff (a b : Nat) : ir.fieldLess (ir.field a) (ir.field b) = true ↔ ir.fieldKey a < ir.fieldKey b := by
  rw [fieldKey, fieldKey, three_lt_iff, fieldLess]
  split_ifs <;> simp

theorem methodLess_iff (a b : Nat) :
    ir.methodLess (ir.method a) (ir.method b) = true ↔ ir.methodKey a < ir.methodKey b := by
  rw [methodKey, methodKey, three_lt_iff, methodLess]
  split_ifs <;> simp

/-! ## The tables are in order -/

/-- Each table is in the order that the format asks for, with no row twice. -/
structure Sorted (t : IndexTables) : Prop where
  strings : t.stringIds.Pairwise (unitsKey · < unitsKey ·)
  types : t.typeIds.Pairwise (· < ·)
  protos : t.protoIds.Pairwise (fun a b => a.returnTypeIdx :: a.parameters < b.returnTypeIdx :: b.parameters)
  fields : t.fieldIds.Pairwise (fun a b => [a.classIdx, a.nameIdx, a.typeIdx] < [b.classIdx, b.nameIdx, b.typeIdx])
  methods : t.methodIds.Pairwise (fun a b => [a.classIdx, a.nameIdx, a.protoIdx] < [b.classIdx, b.nameIdx, b.protoIdx])

section Rows

variable (h : ir.Interned) (hfits : ir.Fits)

include hfits

theorem u2_typeIndex {t : Nat} (ht : t < ir.types.length) : u2 (ir.typeIndex t) = ir.typeIndex t :=
  Nat.mod_eq_of_lt (Nat.lt_of_lt_of_le (rank_lt ht) hfits.types)

theorem u2_protoIndex {p : Nat} (hp : p < ir.protos.length) : u2 (ir.protoIndex p) = ir.protoIndex p :=
  Nat.mod_eq_of_lt (Nat.lt_of_lt_of_le (rank_lt hp) hfits.protos)

include h

theorem protoId_eq {p : Nat} (hp : p < ir.protos.length) : ir.protoId p =
    ⟨ir.stringIndex (ir.proto p).shorty, ir.typeIndex (ir.proto p).returnType,
      (ir.proto p).paramTypes.map ir.typeIndex⟩ := by
  obtain ⟨-, -, hparams⟩ := h.proto (ir.proto p) (getD_mem hp)
  rw [protoId, List.map_congr_left fun t ht => u2_typeIndex hfits (hparams t ht)]

theorem fieldId_eq {f : Nat} (hf : f < ir.fields.length) : ir.fieldId f =
    ⟨ir.typeIndex (ir.field f).parent, ir.typeIndex (ir.field f).type, ir.stringIndex (ir.field f).name⟩ := by
  obtain ⟨hparent, -, htype⟩ := h.field (ir.field f) (getD_mem hf)
  rw [fieldId, u2_typeIndex hfits hparent, u2_typeIndex hfits htype]

theorem methodId_eq {m : Nat} (hm : m < ir.methods.length) : ir.methodId m =
    ⟨ir.typeIndex (ir.method m).parent, ir.protoIndex (ir.method m).prototype, ir.stringIndex (ir.method m).name⟩ := by
  obtain ⟨hparent, -, hproto⟩ := h.method (ir.method m) (getD_mem hm)
  rw [methodId, u2_typeIndex hfits hparent, u2_protoIndex hfits hproto]

theorem sorted_tables : Sorted ir.tables where
  strings := sorted_rows (fun a b => utf8Cmp_cStr (ir.string a) (ir.string b)) (stringKey_inj h) fun s _ => rfl
  types := sorted_rows (fun _ _ => decide_eq_true_iff) (typeKey_inj h) fun t _ => rfl
  protos := sorted_rows protoLess_iff (protoKey_inj h) fun p hp => by rw [protoId_eq h hfits hp, protoKey]
  fields := sorted_rows fieldLess_iff (fieldKey_inj h) fun f hf => by rw [fieldId_eq h hfits hf, fieldKey]
  methods := sorted_rows methodLess_iff (methodKey_inj h) fun m hm => by rw [methodId_eq h hfits hm, methodKey]

/-- A node's row is at its new index, and says what the node says. -/
structure Resolves (ir : Ir) : Prop where
  string : ∀ s < ir.strings.length,
    ∃ index, mapIndex ir.indexMaps.string s = some index ∧ ir.tables.parseString index = some (ir.string s)
  type : ∀ t < ir.types.length,
    ∃ index, mapIndex ir.indexMaps.type t = some index ∧ ir.tables.parseType index = some (ir.typeText t)
  proto : ∀ p < ir.protos.length,
    ∃ index, mapIndex ir.indexMaps.proto p = some index ∧ ir.tables.parseProto index = some (ir.protoText p)
  field : ∀ f < ir.fields.length,
    ∃ index, mapIndex ir.indexMaps.field f = some index ∧ ir.tables.parseFieldDecl index = some (ir.fieldText f)
  method : ∀ m < ir.methods.length,
    ∃ index, mapIndex ir.indexMaps.method m = some index ∧ ir.tables.parseMethodDecl index = some (ir.methodText m)

omit h hfits in
theorem parseString_index {s : Nat} (hs : s < ir.strings.length) :
    ir.tables.parseString (ir.stringIndex s) = some (ir.string s) := getElem?_rank _ hs

omit hfits in
theorem parseType_index {t : Nat} (ht : t < ir.types.length) :
    ir.tables.parseType (ir.typeIndex t) = some (ir.typeText t) := by
  have hrow : ir.tables.typeIds[ir.typeIndex t]? = some (ir.stringIndex (ir.descriptor t)) := getElem?_rank _ ht
  rw [IndexTables.parseType, hrow]
  exact parseString_index (h.descriptor _ (getD_mem ht))

theorem parseProto_index {p : Nat} (hp : p < ir.protos.length) :
    ir.tables.parseProto (ir.protoIndex p) = some (ir.protoText p) := by
  obtain ⟨hshorty, hret, hparams⟩ := h.proto (ir.proto p) (getD_mem hp)
  have hrow : ir.tables.protoIds[ir.protoIndex p]? = some (ir.protoId p) := getElem?_rank _ hp
  have hmap : ((ir.proto p).paramTypes.map ir.typeIndex).mapM ir.tables.parseType =
      some ((ir.proto p).paramTypes.map ir.typeText) := by
    rw [List.mapM_map]
    exact mapM_of_forall fun t ht => parseType_index h (hparams t ht)
  simp only [IndexTables.parseProto, hrow, protoId_eq h hfits hp, Option.bind_eq_bind, Option.bind_some,
    parseString_index hshorty, parseType_index h hret, hmap]
  rfl

theorem parseFieldDecl_index {f : Nat} (hf : f < ir.fields.length) :
    ir.tables.parseFieldDecl (ir.fieldIndex f) = some (ir.fieldText f) := by
  obtain ⟨hparent, hname, htype⟩ := h.field (ir.field f) (getD_mem hf)
  have hrow : ir.tables.fieldIds[ir.fieldIndex f]? = some (ir.fieldId f) := getElem?_rank _ hf
  simp only [IndexTables.parseFieldDecl, hrow, fieldId_eq h hfits hf, Option.bind_eq_bind, Option.bind_some,
    parseString_index hname, parseType_index h htype, parseType_index h hparent]
  rfl

theorem parseMethodDecl_index {m : Nat} (hm : m < ir.methods.length) :
    ir.tables.parseMethodDecl (ir.methodIndex m) = some (ir.methodText m) := by
  obtain ⟨hparent, hname, hproto⟩ := h.method (ir.method m) (getD_mem hm)
  have hrow : ir.tables.methodIds[ir.methodIndex m]? = some (ir.methodId m) := getElem?_rank _ hm
  simp only [IndexTables.parseMethodDecl, hrow, methodId_eq h hfits hm, Option.bind_eq_bind, Option.bind_some,
    parseString_index hname, parseProto_index h hfits hproto, parseType_index h hparent]
  rfl

end Rows

/-- An index that is found in the maps, and is not the one for nothing. -/
theorem mapIndex_rank {count : Nat} {index : Nat → Nat} (hcount : count < kNoIndex)
    (hindex : ∀ n < count, index n < count) {n : Nat} (hn : n < count) : mapIndex (fun n => if n < count then some (index n) else none) n = some (index n) := by
  have hlt := hindex n hn
  rw [mapIndex, if_neg (by omega), if_pos hn, Option.filter_some, if_pos (by simpa using (by omega))]

theorem resolves (h : ir.Interned) (hfits : ir.Fits) : Resolves ir := by
  have hsmall : (2 : Nat) ^ 16 < kNoIndex := by decide
  refine ⟨?_, ?_, ?_, ?_, ?_⟩
  · intro s hs
    exact ⟨_, mapIndex_rank hfits.strings (fun _ => rank_lt) hs, parseString_index hs⟩
  · intro t ht
    exact ⟨_, mapIndex_rank (Nat.lt_of_le_of_lt hfits.types hsmall) (fun _ => rank_lt) ht, parseType_index h ht⟩
  · intro p hp
    exact ⟨_, mapIndex_rank (Nat.lt_of_le_of_lt hfits.protos hsmall) (fun _ => rank_lt) hp, parseProto_index h hfits hp⟩
  · intro f hf
    exact ⟨_, mapIndex_rank hfits.fields (fun _ => rank_lt) hf, parseFieldDecl_index h hfits hf⟩
  · intro m hm
    exact ⟨_, mapIndex_rank hfits.methods (fun _ => rank_lt) hm, parseMethodDecl_index h hfits hm⟩

/-- The tables of an IR are in order, and every index that the code gets leads to what the code had before. -/
theorem tables_spec (h : ir.Interned) (hfits : ir.Fits) : Sorted ir.tables ∧ Resolves ir :=
  ⟨sorted_tables h hfits, resolves h hfits⟩

/-- `int f` and `void f()` of a class `A`. -/
def smallIr : Ir where
  strings := [[0x4c, 0x41, 0x3b], [0x66], [0x56], [0x49]]
  types := [0, 3, 2]
  protos := [⟨2, 2, []⟩]
  fields := [⟨0, 1, 1⟩]
  methods := [⟨0, 1, 0⟩]

theorem tables_spec_smallIr : Sorted smallIr.tables ∧ Resolves smallIr :=
  tables_spec ⟨by decide, by decide, by decide, by decide, by decide, by decide, by decide, by decide, by decide⟩
    ⟨by decide, by decide, by decide, by decide, by decide⟩

end Ir

end ArtPi.Dex.Tables
