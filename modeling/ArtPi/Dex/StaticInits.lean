import ArtPi.Lib.Words
import ArtPi.Dex.StringPool
import Mathlib.Data.List.Sort

set_option autoImplicit false

/-! # The initial values of static fields (`pi_dex_gen.cpp`, `slicer/dex_ir.cc`)

`Builder::AddClass` makes the fields of a class out of their specs and remembers each spec under the class and the
field's name. When the fields have their final order, `BuildStaticInits` looks the specs up again and encodes a
value for each static field. -/

namespace ArtPi.Dex.StaticInits

open StringPool

/-! ## Texts and descriptors -/

/-- A `std::string`. -/
abbrev Text := List UInt8

def ascii (s : String) : Text := s.toList.map (fun c => UInt8.ofNat c.toNat)

/-- The bytes behind `c_str()` of the `ir::String` that `Str` makes. -/
def cStr (value : Text) : Text := (strUnits value).flatMap appendMutf8Unit

def isPrimitiveByte (c : UInt8) : Bool := c ∈ ascii "VZBSCIJFD"

def toDescriptor (type : Text) : Text :=
  match type with
  | [] => []
  | c :: _ =>
    if c = 'L'.toUInt8 ∧ type.getLast? = some ';'.toUInt8 then type
    else if c = '['.toUInt8 then type
    else if type.length = 1 ∧ isPrimitiveByte c = true then type
    else ascii "L" ++ type.map (fun ch => if ch = '.'.toUInt8 then '/'.toUInt8 else ch) ++ ascii ";"

def isIdentifierByte (c : UInt8) : Bool :=
  ('a'.toUInt8 ≤ c && c ≤ 'z'.toUInt8) || ('A'.toUInt8 ≤ c && c ≤ 'Z'.toUInt8) ||
    ('0'.toUInt8 ≤ c && c ≤ '9'.toUInt8) || c = '_'.toUInt8 || c = '$'.toUInt8

def validateIdentifier (name : Text) : Bool :=
  !name.isEmpty && name.all (fun c => isIdentifierByte c || name = ascii "<init>" || name = ascii "<clinit>")

/-! ## Specs and values -/

inductive Kind where
  | none | int | long | bool | string
  deriving DecidableEq

structure FieldSpec where
  name : Text
  type : Text
  accessFlags : UInt32
  kind : Kind
  longValue : Int64
  boolValue : Bool
  stringValue : Text
  deriving DecidableEq

/-- `access_flags & ACC_STATIC` -/
def FieldSpec.isStatic (f : FieldSpec) : Bool := f.accessFlags &&& 0x0008 ≠ 0

/-- A class: its name, interfaces and fields, and the fields (parent, name and type) that the code of its methods
asks the builder for. -/
structure ClassSpec where
  name : Text
  interfaces : List Text
  fields : List FieldSpec
  fieldRefs : List (Text × Text × Text)

/-- The encoded values of fields. A string is named by the text it was made from, a floating-point number by its
bits. -/
inductive EncodedValue where
  | byte (v : Int8)
  | short (v : Int16)
  | char (v : UInt16)
  | int (v : Int32)
  | long (v : Int64)
  | float (bits : UInt32)
  | double (bits : UInt64)
  | string (s : Text)
  | null
  | boolean (b : Bool)
  deriving DecidableEq

/-- The character by which `ValueFor` tells types apart. -/
def typeChar (f : FieldSpec) : Char :=
  match toDescriptor f.type with
  | [] => 'I'
  | c :: _ => Char.ofNat c.toNat

def valueFor (f : FieldSpec) : EncodedValue :=
  match f.kind with
  | .string => .string f.stringValue
  | .bool => .boolean f.boolValue
  | .long | .int => if typeChar f = 'J' then .long f.longValue else .int f.longValue.toInt32
  | .none =>
    if typeChar f = 'L' ∨ typeChar f = '[' then .null
    else if typeChar f = 'J' then .long 0
    else if typeChar f = 'Z' then .boolean false
    else .int 0

/-! ## `Builder` -/

structure FieldDecl where
  parent : Text
  name : Text
  type : Text
  deriving DecidableEq

/-- The key of a declaration in `field_decls_`. -/
def FieldDecl.key (d : FieldDecl) : Text :=
  cStr d.parent ++ ascii "->" ++ d.name ++ ascii ":" ++ cStr d.type

/-- A field of a class. `spec` is what it was made from; the code keeps the other two and looks the spec up again. -/
structure EncodedField where
  decl : FieldDecl
  accessFlags : UInt32
  spec : FieldSpec
  deriving DecidableEq

structure Class where
  desc : Text
  staticFields : List EncodedField
  instanceFields : List EncodedField
  staticInit : Option (List EncodedValue)
  deriving DecidableEq

/-- The maps of the builder: declarations in the order they were made, classes too, specs the last one first. -/
structure Builder where
  fieldDecls : List FieldDecl
  classes : List Class
  fieldSpecs : List (Text × FieldSpec)
  deriving DecidableEq

def Builder.empty : Builder := ⟨[], [], []⟩

/-- `Builder::FieldDecl`: the declaration made under the same key, or else a new one. -/
def fieldDecl (decls : List FieldDecl) (d : FieldDecl) : List FieldDecl × FieldDecl :=
  match decls.find? (·.key = d.key) with
  | some decl => (decls, decl)
  | none => (decls ++ [d], d)

/-- The key of a spec in `field_specs_`. -/
def specKey (desc name : Text) : Text := desc ++ ascii "#" ++ name

/-- What a class asks for as the declaration of a field. -/
def ownDecl (desc : Text) (f : FieldSpec) : FieldDecl := ⟨desc, f.name, toDescriptor f.type⟩

def refDecl (r : Text × Text × Text) : FieldDecl := ⟨toDescriptor r.1, r.2.1, toDescriptor r.2.2⟩

/-- The body of the loop over the fields in `AddClass`. -/
def addField (b : Builder) (cls : Class) (f : FieldSpec) : Builder × Class :=
  let r := fieldDecl b.fieldDecls (ownDecl cls.desc f)
  let encoded : EncodedField := ⟨r.2, f.accessFlags, f⟩
  (⟨r.1, b.classes, (specKey cls.desc f.name, f) :: b.fieldSpecs⟩,
    if f.isStatic then { cls with staticFields := cls.staticFields ++ [encoded] }
    else { cls with instanceFields := cls.instanceFields ++ [encoded] })

def addFields (b : Builder) (cls : Class) : List FieldSpec → Option (Builder × Class)
  | [] => some (b, cls)
  | f :: fields =>
    if validateIdentifier f.name = true then
      addFields (addField b cls f).1 (addField b cls f).2 fields
    else none

def addRefs (decls : List FieldDecl) : List (Text × Text × Text) → List FieldDecl
  | [] => decls
  | r :: refs => addRefs (fieldDecl decls (refDecl r)).1 refs

/-- `Builder::AddClass`, as far as it is about fields. -/
def addClass (b : Builder) (spec : ClassSpec) : Option Builder :=
  let desc := toDescriptor spec.name
  if b.classes.any (·.desc = desc) then none
  else if spec.interfaces.any (toDescriptor · = desc) then none
  else
    match addFields b ⟨desc, [], [], none⟩ spec.fields with
    | none => none
    | some (b, cls) => some ⟨addRefs b.fieldDecls spec.fieldRefs, b.classes ++ [cls], b.fieldSpecs⟩

/-- The classes of `BuildDex`, which also checks that a name makes a class descriptor. -/
def addClasses (b : Builder) : List ClassSpec → Option Builder
  | [] => some b
  | spec :: specs =>
    let desc := toDescriptor spec.name
    if desc.length < 3 ∨ desc.head? ≠ some 'L'.toUInt8 ∨ desc.getLast? ≠ some ';'.toUInt8 then none
    else
      match addClass b spec with
      | none => none
      | some b => addClasses b specs

/-- `SortEncodedFields` by the indexes of the declarations. Its check fails where two fields have one index. -/
def sortEncodedFields (index : FieldDecl → Nat) (fields : List EncodedField) : Option (List EncodedField) :=
  if (fields.map (fun e => index e.decl)).Nodup then
    some (fields.insertionSort (fun a b => index a.decl ≤ index b.decl))
  else none

/-- `NormalizeClass` -/
def normalizeClass (index : FieldDecl → Nat) (cls : Class) : Option Class :=
  match sortEncodedFields index cls.staticFields, sortEncodedFields index cls.instanceFields with
  | some statics, some instances => some { cls with staticFields := statics, instanceFields := instances }
  | _, _ => none

/-- `Normalize`, for the indexes that it gives to the declarations. -/
def normalize (index : FieldDecl → Nat) : List Class → Option (List Class)
  | [] => some []
  | cls :: classes =>
    match normalizeClass index cls, normalize index classes with
    | some cls, some classes => some (cls :: classes)
    | _, _ => none

/-- The values of `BuildStaticInits` for one class: a field whose spec is not found is passed over. -/
def staticValues (specs : List (Text × FieldSpec)) (cls : Class) : List EncodedValue :=
  cls.staticFields.filterMap (fun field =>
    (specs.lookup (specKey cls.desc (cStr field.decl.name))).map valueFor)

def buildStaticInits (specs : List (Text × FieldSpec)) (cls : Class) : Class :=
  if cls.staticFields.isEmpty then cls else { cls with staticInit := some (staticValues specs cls) }

/-- `Finish` -/
def finish (index : FieldDecl → Nat) (b : Builder) : Option (List Class) :=
  (normalize index b.classes).map (List.map (buildStaticInits b.fieldSpecs))

/-- The classes that `BuildDex` makes of its specs. -/
def buildClasses (index : FieldDecl → Nat) (specs : List ClassSpec) : Option (List Class) :=
  (addClasses .empty specs).bind (finish index)

/-! ## What a field declares -/

/-- A number as a value of the type with that character, where it fits. -/
def declaredNumber (c : Char) (v : Int64) : Option EncodedValue :=
  if c = 'B' then if v.toInt8.toInt64 = v then some (.byte v.toInt8) else none
  else if c = 'S' then if v.toInt16.toInt64 = v then some (.short v.toInt16) else none
  else if c = 'C' then
    if v.toUInt64.toUInt16.toUInt64 = v.toUInt64 then some (.char v.toUInt64.toUInt16) else none
  else if c = 'I' then if v.toInt32.toInt64 = v then some (.int v.toInt32) else none
  else if c = 'J' then some (.long v)
  else none

/-- The value of a type that is given none. -/
def declaredZero (c : Char) : Option EncodedValue :=
  if c = 'L' ∨ c = '[' then some .null
  else if c = 'Z' then some (.boolean false)
  else if c = 'F' then some (.float 0)
  else if c = 'D' then some (.double 0)
  else declaredNumber c 0

/-- The value a field declares, encoded as its descriptor says: none where the descriptor has no such value. The only
class with values other than `null` is `String`. -/
def declared (f : FieldSpec) : Option EncodedValue :=
  if toDescriptor f.type = [] then none
  else
    match f.kind with
    | .none => declaredZero (typeChar f)
    | .int | .long => declaredNumber (typeChar f) f.longValue
    | .bool => if typeChar f = 'Z' then some (.boolean f.boolValue) else none
    | .string =>
      if toDescriptor f.type = ascii "Ljava/lang/String;" then some (.string f.stringValue) else none

/-- At the position of each static field the class has the value that the field declares. -/
def StaticInitsMatch (cls : Class) : Prop :=
  ∀ (i : Nat) (field : EncodedField), cls.staticFields[i]? = some field →
    ∃ v, declared field.spec = some v ∧ (cls.staticInit.getD [])[i]? = some v

/-! ## The declaration and the spec that are found -/

/-- The declarations a class asks for, in order. -/
def ClassSpec.decls (spec : ClassSpec) : List FieldDecl :=
  spec.fields.map (ownDecl (toDescriptor spec.name)) ++ spec.fieldRefs.map refDecl

/-- The specs of a class under their keys. -/
def ClassSpec.entries (spec : ClassSpec) : List (Text × FieldSpec) :=
  spec.fields.map (fun f => (specKey (toDescriptor spec.name) f.name, f))

/-- The first of these declarations that has the key of `d`. -/
def firstDecl (ds : List FieldDecl) (d : FieldDecl) : FieldDecl := (ds.find? (·.key = d.key)).getD d

/-- The last spec of the program under a key. -/
def specUnder (specs : List ClassSpec) (key : Text) : Option FieldSpec :=
  (specs.flatMap ClassSpec.entries).reverse.lookup key

/-- The two lists have the same first declaration under every key. -/
def SameFirst (ds es : List FieldDecl) : Prop :=
  ∀ key, ds.find? (fun d => decide (d.key = key)) = es.find? (fun d => decide (d.key = key))

theorem SameFirst.append {ds es : List FieldDecl} (h : SameFirst ds es) (fs : List FieldDecl) :
    SameFirst (ds ++ fs) (es ++ fs) := by
  intro key
  rw [List.find?_append, List.find?_append, h key]

theorem sameFirst_fieldDecl (ds : List FieldDecl) (d : FieldDecl) :
    SameFirst (fieldDecl ds d).1 (ds ++ [d]) := by
  intro key
  unfold fieldDecl
  cases hf : ds.find? (·.key = d.key) with
  | none => rfl
  | some decl =>
    rw [List.find?_append]
    by_cases hk : d.key = key
    · rw [← hk, hf]
      rfl
    · rw [List.find?_cons_of_neg (by simpa using hk), List.find?_nil, Option.or_none]

theorem fieldDecl_snd (ds : List FieldDecl) (d : FieldDecl) : (fieldDecl ds d).2 = firstDecl (ds ++ [d]) d := by
  unfold fieldDecl firstDecl
  rw [List.find?_append]
  cases ds.find? (·.key = d.key) with
  | none => simp
  | some decl => rfl

theorem SameFirst.firstDecl_eq {ds es : List FieldDecl} (h : SameFirst ds es) (d : FieldDecl) :
    firstDecl ds d = firstDecl es d := by
  unfold firstDecl
  rw [h d.key]

theorem firstDecl_append {ds : List FieldDecl} {d : FieldDecl} (hd : d ∈ ds) (more : List FieldDecl) :
    firstDecl (ds ++ more) d = firstDecl ds d := by
  unfold firstDecl
  rw [List.find?_append]
  cases hf : ds.find? (·.key = d.key) with
  | some decl => rfl
  | none =>
    rw [List.find?_eq_none] at hf
    exact absurd (hf d hd) (by simp)

/-! ## The fields of a class -/

def encodedField (ds : List FieldDecl) (desc : Text) (f : FieldSpec) : EncodedField :=
  ⟨firstDecl ds (ownDecl desc f), f.accessFlags, f⟩

def encodedStatics (ds : List FieldDecl) (desc : Text) (fields : List FieldSpec) : List EncodedField :=
  (fields.filter FieldSpec.isStatic).map (encodedField ds desc)

theorem addField_decls {b : Builder} {ds : List FieldDecl} (h : SameFirst b.fieldDecls ds) (cls : Class)
    (f : FieldSpec) : SameFirst (addField b cls f).1.fieldDecls (ds ++ [ownDecl cls.desc f]) := by
  intro key
  exact (sameFirst_fieldDecl b.fieldDecls _ key).trans (h.append _ key)

theorem addField_desc (b : Builder) (cls : Class) (f : FieldSpec) : (addField b cls f).2.desc = cls.desc := by
  unfold addField
  split <;> rfl

theorem addField_statics {b : Builder} {ds : List FieldDecl} (h : SameFirst b.fieldDecls ds) (cls : Class)
    (f : FieldSpec) (more : List FieldDecl) :
    (addField b cls f).2.staticFields =
      cls.staticFields ++ encodedStatics (ds ++ [ownDecl cls.desc f] ++ more) cls.desc [f] := by
  have hdecl : (fieldDecl b.fieldDecls (ownDecl cls.desc f)).2 =
      firstDecl (ds ++ [ownDecl cls.desc f] ++ more) (ownDecl cls.desc f) := by
    rw [fieldDecl_snd, (h.append _).firstDecl_eq,
      firstDecl_append (List.mem_append_right ds (List.mem_singleton_self _)) more]
  unfold addField encodedStatics
  cases hs : f.isStatic with
  | true => simp [hs, hdecl, encodedField]
  | false => simp [hs]

/-- Adding the fields of a class, after the declarations `ds`. -/
theorem addFields_spec {fields : List FieldSpec} {b b' : Builder} {cls cls' : Class} {ds : List FieldDecl}
    (h : SameFirst b.fieldDecls ds) (hadd : addFields b cls fields = some (b', cls')) :
    SameFirst b'.fieldDecls (ds ++ fields.map (ownDecl cls.desc)) ∧
      b'.classes = b.classes ∧
      b'.fieldSpecs = (fields.map (fun f => (specKey cls.desc f.name, f))).reverse ++ b.fieldSpecs ∧
      cls'.desc = cls.desc ∧
      ∀ more, cls'.staticFields =
        cls.staticFields ++ encodedStatics (ds ++ fields.map (ownDecl cls.desc) ++ more) cls.desc fields := by
  induction fields generalizing b cls ds with
  | nil =>
    obtain ⟨rfl, rfl⟩ := Prod.mk.inj (Option.some.inj hadd)
    exact ⟨by simpa using h, rfl, rfl, rfl, fun more => by simp [encodedStatics]⟩
  | cons f fields ih =>
    rw [addFields] at hadd
    split at hadd
    · obtain ⟨hdecls, hclasses, hspecs, hdesc, hstatics⟩ := ih (addField_decls h cls f) hadd
      rw [addField_desc] at hdecls hspecs hdesc
      refine ⟨by simpa using hdecls, hclasses, ?_, hdesc, fun more => ?_⟩
      · rw [hspecs]
        simp [addField]
      · rw [hstatics more, addField_desc,
          addField_statics h cls f (fields.map (ownDecl cls.desc) ++ more)]
        cases hs : f.isStatic <;> simp [encodedStatics, hs]
    · exact absurd hadd (by simp)

theorem addRefs_spec {refs : List (Text × Text × Text)} {decls ds : List FieldDecl} (h : SameFirst decls ds) :
    SameFirst (addRefs decls refs) (ds ++ refs.map refDecl) := by
  induction refs generalizing decls ds with
  | nil => simpa [addRefs] using h
  | cons r refs ih =>
    have hr : SameFirst (fieldDecl decls (refDecl r)).1 (ds ++ [refDecl r]) := by
      intro key
      exact (sameFirst_fieldDecl decls _ key).trans (h.append _ key)
    simpa [addRefs] using ih hr

/-! ## The classes of a program -/

/-- The class has the static fields of the spec, with the declarations found in `ds`. -/
def HasStatics (ds : List FieldDecl) (spec : ClassSpec) (cls : Class) : Prop :=
  cls.desc = toDescriptor spec.name ∧
    cls.staticFields.Perm (encodedStatics ds (toDescriptor spec.name) spec.fields)

theorem addClass_spec {b b' : Builder} {spec : ClassSpec} {ds : List FieldDecl} (h : SameFirst b.fieldDecls ds)
    (hadd : addClass b spec = some b') :
    SameFirst b'.fieldDecls (ds ++ spec.decls) ∧ b'.fieldSpecs = spec.entries.reverse ++ b.fieldSpecs ∧
      ∃ cls, b'.classes = b.classes ++ [cls] ∧ ∀ more, HasStatics (ds ++ spec.decls ++ more) spec cls := by
  simp only [addClass] at hadd
  split at hadd
  · exact absurd hadd (by simp)
  · split at hadd
    · exact absurd hadd (by simp)
    · cases hfields : addFields b ⟨toDescriptor spec.name, [], [], none⟩ spec.fields with
      | none => exact absurd hadd (by simp [hfields])
      | some r =>
        obtain ⟨b₁, cls⟩ := r
        obtain rfl : _ = b' := by simpa [hfields] using hadd
        obtain ⟨hdecls, hclasses, hspecs, hdesc, hstatics⟩ := addFields_spec h hfields
        refine ⟨?_, hspecs, cls, by rw [hclasses], fun more => ⟨hdesc, ?_⟩⟩
        · simpa [ClassSpec.decls] using addRefs_spec hdecls
        · rw [hstatics (spec.fieldRefs.map refDecl ++ more)]
          simp [ClassSpec.decls]

theorem addClasses_spec {specs : List ClassSpec} {b b' : Builder} {ds : List FieldDecl}
    (h : SameFirst b.fieldDecls ds) (hadd : addClasses b specs = some b') :
    b'.fieldSpecs = (specs.flatMap ClassSpec.entries).reverse ++ b.fieldSpecs ∧
      ∃ classes, b'.classes = b.classes ++ classes ∧
        List.Forall₂ (HasStatics (ds ++ specs.flatMap ClassSpec.decls)) specs classes := by
  induction specs generalizing b ds with
  | nil =>
    obtain rfl := Option.some.inj hadd
    exact ⟨rfl, [], by simp, .nil⟩
  | cons spec specs ih =>
    simp only [addClasses] at hadd
    split at hadd
    · exact absurd hadd (by simp)
    · cases hclass : addClass b spec with
      | none => exact absurd hadd (by simp [hclass])
      | some b₁ =>
        obtain ⟨hdecls, hspecs, cls, hcls, hstatics⟩ := addClass_spec h hclass
        obtain ⟨hspecs', classes, hclasses, hall⟩ := ih hdecls (by simpa [hclass] using hadd)
        refine ⟨by rw [hspecs', hspecs]; simp, cls :: classes, by rw [hclasses, hcls]; simp, ?_⟩
        rw [List.flatMap_cons, ← List.append_assoc]
        exact .cons (hstatics _) hall

/-! ## The final order -/

theorem perm_of_sortEncodedFields {index : FieldDecl → Nat} {fields sorted : List EncodedField}
    (h : sortEncodedFields index fields = some sorted) : sorted.Perm fields := by
  unfold sortEncodedFields at h
  split at h
  · obtain rfl := Option.some.inj h
    exact List.perm_insertionSort _ _
  · exact absurd h (by simp)

theorem hasStatics_of_normalizeClass {index : FieldDecl → Nat} {ds : List FieldDecl} {spec : ClassSpec}
    {cls cls' : Class} (h : HasStatics ds spec cls) (hn : normalizeClass index cls = some cls') :
    HasStatics ds spec cls' := by
  unfold normalizeClass at hn
  split at hn
  · rename_i statics instances hs _
    obtain rfl := Option.some.inj hn
    exact ⟨h.1, (perm_of_sortEncodedFields hs).trans h.2⟩
  · exact absurd hn (by simp)

theorem hasStatics_of_normalize {index : FieldDecl → Nat} {ds : List FieldDecl} {specs : List ClassSpec}
    {classes classes' : List Class} (h : List.Forall₂ (HasStatics ds) specs classes)
    (hn : normalize index classes = some classes') : List.Forall₂ (HasStatics ds) specs classes' := by
  induction h generalizing classes' with
  | nil =>
    obtain rfl := Option.some.inj hn
    exact .nil
  | cons hcls _ ih =>
    rw [normalize] at hn
    split at hn
    · rename_i cls' rest hcls' hrest
      obtain rfl := Option.some.inj hn
      exact .cons (hasStatics_of_normalizeClass hcls hcls') (ih hrest)
    · exact absurd hn (by simp)

/-! ## The values -/

theorem getElem?_filterMap_of_isSome {α β : Type} {look : α → Option β} {l : List α} (h : ∀ a ∈ l, (look a).isSome)
    (i : Nat) : (l.filterMap look)[i]? = l[i]?.bind look := by
  induction l generalizing i with
  | nil => rfl
  | cons a l ih =>
    obtain ⟨v, hv⟩ := Option.isSome_iff_exists.mp (h a List.mem_cons_self)
    rw [List.filterMap_cons_some hv]
    cases i with
    | zero => exact hv.symm
    | succ i => exact ih (fun x hx => h x (List.mem_cons_of_mem a hx)) i

/-- Positions agree exactly when every field has a value, and the right one: a field passed over leaves the last
position empty. -/
theorem filterMap_aligned_iff {α β : Type} {look want : α → Option β} (l : List α) :
    (∀ (i : Nat) (a : α), l[i]? = some a → ∃ v, want a = some v ∧ (l.filterMap look)[i]? = some v) ↔
      ∀ a ∈ l, ∃ v, want a = some v ∧ look a = some v := by
  constructor
  · intro h
    have hlen : (l.filterMap look).length = l.length := by
      refine Nat.le_antisymm (List.length_filterMap_le look l) ?_
      rcases Nat.eq_zero_or_pos l.length with hz | hpos
      · omega
      · obtain ⟨v, -, hv⟩ := h (l.length - 1) (l[l.length - 1]) (List.getElem?_eq_getElem _)
        have := (List.getElem?_eq_some_iff.mp hv).1
        omega
    intro a ha
    obtain ⟨i, hi⟩ := List.getElem?_of_mem ha
    obtain ⟨v, hwant, hv⟩ := h i a hi
    rw [getElem?_filterMap_of_isSome (List.filterMap_length_eq_length.mp hlen), hi] at hv
    exact ⟨v, hwant, hv⟩
  · intro h i a hi
    have hsome : ∀ x ∈ l, (look x).isSome := fun x hx => by
      obtain ⟨v, -, hv⟩ := h x hx
      rw [hv]
      rfl
    obtain ⟨v, hwant, hlook⟩ := h a (List.mem_of_getElem? hi)
    refine ⟨v, hwant, ?_⟩
    rw [getElem?_filterMap_of_isSome hsome, hi]
    exact hlook

/-- The spec found for a field. -/
def found (specs : List (Text × FieldSpec)) (desc : Text) (field : EncodedField) : Option FieldSpec :=
  specs.lookup (specKey desc (cStr field.decl.name))

theorem buildStaticInits_match_iff (specs : List (Text × FieldSpec)) (cls : Class) :
    StaticInitsMatch (buildStaticInits specs cls) ↔
      ∀ field ∈ cls.staticFields, ∃ v, declared field.spec = some v ∧
        (found specs cls.desc field).map valueFor = some v := by
  rw [← filterMap_aligned_iff]
  unfold buildStaticInits
  split
  · rename_i hempty
    rw [List.isEmpty_iff] at hempty
    simp [StaticInitsMatch, hempty]
  · rfl

/-- `g` gives the literal that `f` declares. The literals are those of booleans, ints, longs, strings and `null`; a
spec without a value gives the zero of its type, which is an int for every type not named here. -/
def SameLiteral (f g : FieldSpec) : Prop :=
  match declared f with
  | some (.boolean b) =>
    (g.kind = .bool ∧ g.boolValue = b) ∨ (g.kind = .none ∧ typeChar g = 'Z' ∧ b = false)
  | some (.int v) =>
    ((g.kind = .int ∨ g.kind = .long) ∧ typeChar g ≠ 'J' ∧ g.longValue.toInt32 = v) ∨
      (g.kind = .none ∧ typeChar g ∉ ['L', '[', 'J', 'Z'] ∧ v = 0)
  | some (.long v) =>
    typeChar g = 'J' ∧
      (((g.kind = .int ∨ g.kind = .long) ∧ g.longValue = v) ∨ (g.kind = .none ∧ v = 0))
  | some (.string s) => g.kind = .string ∧ g.stringValue = s
  | some .null => g.kind = .none ∧ typeChar g ∈ ['L', '[']
  | _ => False

theorem valueFor_of_number {g : FieldSpec} (h : g.kind = .int ∨ g.kind = .long) :
    valueFor g = if typeChar g = 'J' then .long g.longValue else .int g.longValue.toInt32 := by
  unfold valueFor
  rcases h with h | h <;> simp only [h]

theorem valueFor_of_none {g : FieldSpec} (h : g.kind = .none) :
    valueFor g =
      if typeChar g = 'L' ∨ typeChar g = '[' then .null
      else if typeChar g = 'J' then .long 0
      else if typeChar g = 'Z' then .boolean false
      else .int 0 := by
  unfold valueFor
  rw [h]

theorem sameLiteral_iff (f g : FieldSpec) :
    SameLiteral f g ↔ ∃ v, declared f = some v ∧ valueFor g = v := by
  unfold SameLiteral
  cases hd : declared f with
  | none => simp
  | some v =>
    have hone : (∃ w, some v = some w ∧ valueFor g = w) ↔ valueFor g = v := by
      constructor
      · rintro ⟨w, hw, hg⟩
        exact hg.trans (Option.some.inj hw).symm
      · exact fun hg => ⟨v, rfl, hg⟩
    rw [hone]
    cases hk : g.kind with
    | int | long =>
      rw [valueFor_of_number (by simp [hk])]
      by_cases hJ : typeChar g = 'J' <;> cases v <;> simp [hJ]
    | string => cases v <;> simp [valueFor, hk]
    | bool => cases v <;> simp [valueFor, hk]
    | none =>
      rw [valueFor_of_none hk]
      by_cases hL : typeChar g = 'L' ∨ typeChar g = '['
      · rw [if_pos hL]
        rcases hL with hL | hL <;> cases v <;> simp [hL]
      · by_cases hJ : typeChar g = 'J'
        · cases v <;> simp [hJ, eq_comm]
        · by_cases hZ : typeChar g = 'Z'
          · cases v <;> simp [hZ, eq_comm]
          · push Not at hL
            cases v <;> simp [hL, hJ, hZ, eq_comm]

/-- The spec that is found for a field of a class, among all the specs of the program, gives the literal the field
declares. -/
def InitOf (specs : List ClassSpec) (spec : ClassSpec) (f : FieldSpec) : Prop :=
  let desc := toDescriptor spec.name
  ∃ g, specUnder specs (specKey desc (cStr (firstDecl (specs.flatMap ClassSpec.decls) (ownDecl desc f)).name)) =
    some g ∧ SameLiteral f g

theorem forall_statics_iff {specs : List ClassSpec} {spec : ClassSpec} {cls : Class}
    (h : HasStatics (specs.flatMap ClassSpec.decls) spec cls) :
    (∀ field ∈ cls.staticFields, ∃ v, declared field.spec = some v ∧
        (found (specs.flatMap ClassSpec.entries).reverse cls.desc field).map valueFor = some v) ↔
      ∀ f ∈ spec.fields, f.isStatic = true → InitOf specs spec f := by
  have hone : ∀ f, (∃ v, declared f = some v ∧
      (specUnder specs (specKey (toDescriptor spec.name)
        (cStr (firstDecl (specs.flatMap ClassSpec.decls) (ownDecl (toDescriptor spec.name) f)).name))).map
          valueFor = some v) ↔ InitOf specs spec f := by
    intro f
    simp only [InitOf, sameLiteral_iff, Option.map_eq_some_iff]
    constructor
    · rintro ⟨v, hv, g, hg, rfl⟩
      exact ⟨g, hg, _, hv, rfl⟩
    · rintro ⟨g, hg, _, hv, rfl⟩
      exact ⟨_, hv, g, hg, rfl⟩
  constructor
  · intro hall f hf hs
    have hmem : encodedField (specs.flatMap ClassSpec.decls) (toDescriptor spec.name) f ∈ cls.staticFields :=
      h.2.mem_iff.mpr (List.mem_map_of_mem (List.mem_filter.mpr ⟨hf, hs⟩))
    obtain ⟨v, hv, hfound⟩ := hall _ hmem
    rw [h.1] at hfound
    exact (hone f).mp ⟨v, hv, hfound⟩
  · intro hall field hfield
    obtain ⟨f, hf, rfl⟩ := List.mem_map.mp (h.2.mem_iff.mp hfield)
    obtain ⟨hf, hs⟩ := List.mem_filter.mp hf
    rw [h.1]
    exact (hone f).mpr (hall f hf hs)

theorem forall₂_map_right {α β γ : Type} {R : α → β → Prop} {S : α → γ → Prop} {g : β → γ} {as : List α}
    {bs : List β} (h : List.Forall₂ R as bs) (hS : ∀ a b, R a b → S a (g b)) :
    List.Forall₂ S as (bs.map g) := by
  induction h with
  | nil => exact .nil
  | cons hab _ ih => exact .cons (hS _ _ hab) ih

/-- Whatever the classes and the order of their fields: the values of a class are those its static fields declare
exactly when for each of them the spec that is found gives the literal it declares. -/
theorem staticInits_match_iff {index : FieldDecl → Nat} {specs : List ClassSpec} {classes : List Class}
    (h : buildClasses index specs = some classes) :
    List.Forall₂ (fun spec cls => cls.desc = toDescriptor spec.name ∧
      (StaticInitsMatch cls ↔ ∀ f ∈ spec.fields, f.isStatic = true → InitOf specs spec f)) specs classes := by
  unfold buildClasses at h
  obtain ⟨b, hadd, hfinish⟩ := Option.bind_eq_some_iff.mp h
  have hnone : SameFirst Builder.empty.fieldDecls [] := fun _ => rfl
  obtain ⟨hspecs, made, hmade, hall⟩ := addClasses_spec hnone hadd
  obtain ⟨sorted, hsorted, rfl⟩ := Option.map_eq_some_iff.mp hfinish
  rw [hmade] at hsorted
  rw [hspecs]
  refine forall₂_map_right (hasStatics_of_normalize hall hsorted) (fun spec cls hcls => ⟨?_, ?_⟩)
  · rw [← hcls.1]
    unfold buildStaticInits
    split <;> rfl
  · rw [buildStaticInits_match_iff, Builder.empty, List.append_nil]
    exact forall_statics_iff hcls

/-- A class with fields `d`, `a`, `c` and `b`, of which `c` is not static. -/
def sample : ClassSpec :=
  { name := ascii "p.Sample", interfaces := [],
    fields := [⟨ascii "d", ascii "J", 0x9, .int, 7, false, []⟩, ⟨ascii "a", ascii "p.Other", 0x9, .none, 0, false, []⟩,
      ⟨ascii "c", ascii "I", 0x1, .none, 0, false, []⟩,
      ⟨ascii "b", ascii "Ljava/lang/String;", 0x9, .string, 0, false, ascii "text"⟩],
    fieldRefs := [(ascii "p.Other", ascii "x", ascii "I")] }

def byFirstByte (d : FieldDecl) : Nat := (d.name.headD 0).toNat

theorem staticInits_match_sample :
    ∃ cls, buildClasses byFirstByte [sample] = some [cls] ∧
      cls.staticInit = some [.null, .string (ascii "text"), .long 7] ∧
      List.Forall₂ (fun spec cls => cls.desc = toDescriptor spec.name ∧
        (StaticInitsMatch cls ↔ ∀ f ∈ spec.fields, f.isStatic = true → InitOf [sample] spec f)) [sample] [cls] := by
  obtain ⟨cls, hcls, hinit⟩ : ∃ cls, buildClasses byFirstByte [sample] = some [cls] ∧
      cls.staticInit = some [.null, .string (ascii "text"), .long 7] := by
    cases hb : buildClasses byFirstByte [sample] with
    | none => exact absurd hb (by decide +kernel)
    | some classes =>
      have hmap : (buildClasses byFirstByte [sample]).map (List.map Class.staticInit) =
          some [some [.null, .string (ascii "text"), .long 7]] := by
        decide +kernel
      rw [hb] at hmap
      obtain ⟨cls, rfl, hcls⟩ := List.map_eq_singleton_iff.mp (Option.some.inj hmap)
      exact ⟨cls, rfl, hcls⟩
  exact ⟨cls, hcls, hinit, staticInits_match_iff hcls⟩

/-- A static field of type byte with the value 5. -/
def byteField : FieldSpec := ⟨ascii "x", ascii "B", 0x9, .int, 5, false, []⟩

/-- The value of a byte is encoded as an int. -/
theorem not_staticInits_match_byte :
    ¬ ∀ (index : FieldDecl → Nat) (specs : List ClassSpec) (classes : List Class),
      buildClasses index specs = some classes → ∀ cls ∈ classes, StaticInitsMatch cls := by
  intro h
  have hbuild : buildClasses byFirstByte [⟨ascii "p.C", [], [byteField], []⟩] =
      some [⟨ascii "Lp/C;", [⟨⟨ascii "Lp/C;", ascii "x", ascii "B"⟩, 0x9, byteField⟩], [], some [.int 5]⟩] := by
    decide +kernel
  obtain ⟨v, hdeclared, hv⟩ := h _ _ _ hbuild _ (List.mem_singleton_self _) 0 _ rfl
  obtain rfl : EncodedValue.int 5 = v := Option.some.inj hv
  exact absurd hdeclared (by decide)

end ArtPi.Dex.StaticInits
