import Mathlib.Data.List.Basic

set_option autoImplicit false

/-! # JavaScript values as Java objects (`src/src/agent/agent_java_ref.cpp`)

`JsValueToJavaObject` makes an object of a value, by the name of the type that is wanted: strings and wrappers from
any value, everything else from a handle. What QuickJS and the runtime answer is a parameter. -/

namespace ArtPi.Agent.Convert

/-- A local reference that is not null. -/
abbrev Ref := {r : UInt64 // r ≠ 0}

/-- The conversions of QuickJS, `none` where they throw, with floating-point numbers as their bits; strings,
    wrappers and handles of the runtime, and which objects are instances of a class. -/
structure Scripting (V : Type) where
  isNullish : V → Bool
  toCString : V → Option (List UInt8)
  toBool : V → Bool
  toInt32 : V → Option Int32
  isBigInt : V → Bool
  toBigInt64 : V → Int64
  toInt64 : V → Option Int64
  toFloat64 : V → Option UInt64
  /-- `static_cast<float>` -/
  toFloat : UInt64 → UInt32
  newStringUTF : List UInt8 → Option Ref
  /-- `valueOf` of a wrapper class -/
  valueOf : String → UInt64 → Option Ref
  /-- a local reference to the object of `ExtractJRefHandle` -/
  getJRef : V → Option Ref
  instanceOf : Ref → String → Bool
  newStringUTF_instance : ∀ s o, newStringUTF s = some o → instanceOf o "java.lang.String" = true
  valueOf_instance : ∀ w b o, valueOf w b = some o → instanceOf o w = true

variable {V : Type} (sc : Scripting V)

/-- `JS_FLOAT64_NAN`, which `JS_ToFloat64` leaves where it throws. -/
def nan : UInt64 := 0x7FF8000000000000

namespace Scripting

/-- `JS_ToInt32` into a variable that is zero. -/
def int32 (v : V) : Int32 := (sc.toInt32 v).getD 0

/-- A BigInt modulo 2^64, any other value as a number. -/
def int64 (v : V) : Int64 := if sc.isBigInt v then sc.toBigInt64 v else (sc.toInt64 v).getD 0

def float64 (v : V) : UInt64 := (sc.toFloat64 v).getD nan

/-- The conversion to a primitive type, by its character, does not throw. -/
def Converts (t : Char) (v : V) : Prop :=
  if t = 'B' ∨ t = 'C' ∨ t = 'S' ∨ t = 'I' then sc.toInt32 v ≠ none
  else if t = 'J' then sc.isBigInt v = true ∨ sc.toInt64 v ≠ none
  else if t = 'F' ∨ t = 'D' then sc.toFloat64 v ≠ none
  else True

/-- What `valueOf` gets, by the kind of the wrapper. -/
def boxed (kind : Char) (v : V) : UInt64 :=
  if kind = 'Z' then if sc.toBool v then 1 else 0
  else if kind = 'I' then (sc.int32 v).toUInt32.toUInt64
  else if kind = 'J' then (sc.int64 v).toUInt64
  else if kind = 'C' then (sc.int32 v).toUInt32.toUInt16.toUInt64
  else if kind = 'F' then (sc.toFloat (sc.float64 v)).toUInt64
  else sc.float64 v

end Scripting

/-- Primitive types, their wrappers, and the kind of the conversion. -/
def wrappers : List (String × String × Char) :=
  [("int", "java.lang.Integer", 'I'), ("long", "java.lang.Long", 'J'), ("boolean", "java.lang.Boolean", 'Z'),
    ("short", "java.lang.Short", 'I'), ("byte", "java.lang.Byte", 'I'), ("char", "java.lang.Character", 'C'),
    ("float", "java.lang.Float", 'F'), ("double", "java.lang.Double", 'D')]

def jsValueToJavaObject (v : V) (tn : String) : Option Ref :=
  if sc.isNullish v then none
  else if tn = "java.lang.String" ∨ tn = "Ljava/lang/String;" then (sc.toCString v).bind sc.newStringUTF
  else
    match wrappers.find? (fun w => tn = w.1 ∨ tn = w.2.1) with
    | some w => sc.valueOf w.2.1 (sc.boxed w.2.2 v)
    | none => sc.getJRef v

/-- The conversion in front of `valueOf` does not throw, if there is one. -/
def Boxes (tn : String) (v : V) : Prop :=
  ∀ w, wrappers.find? (fun w => tn = w.1 ∨ tn = w.2.1) = some w → sc.Converts w.2.2 v

/-- The object is made of the value, and is what was wanted. -/
structure ObjectOf (tn : String) (v : V) (o : Ref) : Prop where
  made : jsValueToJavaObject sc v tn = some o
  isInstance : sc.instanceOf o tn = true
  boxes : Boxes sc tn v

theorem objectOf_iff {tn : String} {v : V} {o : Ref} (h : jsValueToJavaObject sc v tn = some o) :
    ObjectOf sc tn v o ↔ sc.instanceOf o tn = true ∧ Boxes sc tn v :=
  ⟨fun ho => ⟨ho.isInstance, ho.boxes⟩, fun ho => ⟨h, ho.1, ho.2⟩⟩

/-- The types whose objects are made of any value. -/
def isMade (tn : String) : Bool :=
  tn = "java.lang.String" || (wrappers.map fun w => w.2.1).contains tn

/-- What is made for a string or a wrapper is an instance of it. -/
theorem instanceOf_made {v : V} {tn : String} (hmade : isMade tn = true) {o : Ref}
    (h : jsValueToJavaObject sc v tn = some o) : sc.instanceOf o tn = true := by
  unfold jsValueToJavaObject at h
  split_ifs at h with hnull hstring
  · rcases hstring with rfl | rfl
    · obtain ⟨s, -, hs⟩ := Option.bind_eq_some_iff.1 h
      exact sc.newStringUTF_instance s o hs
    · exact absurd hmade (by decide)
  · have hmem : tn ∈ wrappers.map fun w => w.2.1 := by
      rw [isMade, Bool.or_eq_true, decide_eq_true_iff] at hmade
      exact List.contains_iff_mem.1 (hmade.resolve_left fun h => hstring (.inl h))
    cases hfind : wrappers.find? (fun w => tn = w.1 ∨ tn = w.2.1) with
    | none =>
      obtain ⟨w, hw, rfl⟩ := List.mem_map.1 hmem
      exact absurd (List.find?_eq_none.1 hfind w hw) (by simp)
    | some w =>
      rw [hfind] at h
      have hw : w.2.1 = tn := by
        have hall : ∀ tn ∈ wrappers.map fun w => w.2.1,
            ∀ w, wrappers.find? (fun w => tn = w.1 ∨ tn = w.2.1) = some w → w.2.1 = tn := by decide
        exact hall tn hmem w hfind
      rw [← hw]
      exact sc.valueOf_instance _ _ o h

end ArtPi.Agent.Convert
