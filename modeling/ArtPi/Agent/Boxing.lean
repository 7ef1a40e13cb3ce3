import ArtPi.Lib.Single
import Mathlib.Algebra.GroupWithZero.Nat

set_option autoImplicit false

/-! # Boxed values in JavaScript (`src/agent/agent_java_ref.cpp`)

`JavaObjectToJsValue` unboxes a number with a lambda that returns a `double`, also a `Long`, which then becomes a BigInt.
`JsValueToJavaObject` boxes it again and loses nothing. A `Long` comes back if and only if 53 bits are enough for it
(`boxed_roundTrip_iff`), but for one more value where the cast of 2^63 saturates. -/

namespace ArtPi.Agent.Boxing

open ArtPi.Lib

/-- The boxed integers. -/
inductive Boxed where
  | boolean (b : Bool)
  | byte (v : Int8)
  | short (v : Int16)
  | character (v : UInt16)
  | integer (v : Int32)
  | long (v : Int64)
  deriving DecidableEq

namespace Boxed

def javaClassName : Boxed → String
  | .boolean _ => "java.lang.Boolean"
  | .byte _ => "java.lang.Byte"
  | .short _ => "java.lang.Short"
  | .character _ => "java.lang.Character"
  | .integer _ => "java.lang.Integer"
  | .long _ => "java.lang.Long"

/-- The name of the type a value is unboxed to. -/
def primitiveName : Boxed → String
  | .boolean _ => "boolean"
  | .byte _ => "byte"
  | .short _ => "short"
  | .character _ => "char"
  | .integer _ => "int"
  | .long _ => "long"

/-- `Boolean.booleanValue`. -/
def booleanValue : Boxed → Bool
  | .boolean b => b
  | _ => false

/-- `Number.intValue`. -/
def intValue : Boxed → Int32
  | .byte v => v.toInt32
  | .short v => v.toInt32
  | .integer v => v
  | .long v => v.toInt32
  | _ => 0

/-- `Character.charValue`. -/
def charValue : Boxed → UInt16
  | .character v => v
  | _ => 0

/-- `Long.longValue`. -/
def longValue : Boxed → Int64
  | .long v => v
  | _ => 0

end Boxed

/-- The JavaScript values that boxed integers become. -/
inductive JsValue where
  | null
  | bool (b : Bool)
  | int32 (v : Int32)
  | bigInt (v : Int64)
  deriving DecidableEq

/-! ## There -/

/-- `callNum`, by the last character of the signature; the double is a whole number. -/
def callNum (obj : Boxed) (sig : Char) : Int :=
  if sig = 'Z' then if obj.booleanValue then 1 else 0
  else if sig = 'I' then intToDouble obj.intValue.toInt
  else if sig = 'J' then intToDouble obj.longValue.toInt
  else if sig = 'C' then intToDouble obj.charValue.toNat
  else 0

/-- `(int64_t)` of a double. `overflow` is what it gives for 2^63, which is not defined. -/
def castInt64 (overflow : Int64) (d : Int) : Int64 :=
  if -2 ^ 63 ≤ d ∧ d < 2 ^ 63 then Int64.ofInt d else overflow

def javaObjectToJsValue (overflow : Int64) (obj : Boxed) : JsValue :=
  let n := obj.javaClassName
  if n = "java.lang.Boolean" then .bool (callNum obj 'Z' ≠ 0)
  else if n = "java.lang.Integer" ∨ n = "java.lang.Short" ∨ n = "java.lang.Byte" then
    .int32 (Int32.ofInt (callNum obj 'I'))
  else if n = "java.lang.Character" then .int32 (Int32.ofInt (callNum obj 'C'))
  else if n = "java.lang.Long" then .bigInt (castInt64 overflow (callNum obj 'J'))
  else .null

/-! ## Back -/

/-- `JS_ToBool`. -/
def JsValue.toBool : JsValue → Bool
  | .null => false
  | .bool b => b
  | .int32 v => v ≠ 0
  | .bigInt v => v ≠ 0

/-- `JS_ToInt32`, which throws for a BigInt and leaves the zero. -/
def JsValue.toInt32 : JsValue → Int32
  | .null => 0
  | .bool b => if b then 1 else 0
  | .int32 v => v
  | .bigInt _ => 0

/-- `JS_ToBigInt64` of a BigInt, `JS_ToInt64` of anything else. -/
def JsValue.toInt64 : JsValue → Int64
  | .bigInt v => v
  | v => v.toInt32.toInt64

def jsValueToJavaObject (v : JsValue) (tn : String) : Option Boxed :=
  if v = .null then none
  else if tn = "int" ∨ tn = "java.lang.Integer" then some (.integer v.toInt32)
  else if tn = "long" ∨ tn = "java.lang.Long" then some (.long v.toInt64)
  else if tn = "boolean" ∨ tn = "java.lang.Boolean" then some (.boolean v.toBool)
  else if tn = "short" ∨ tn = "java.lang.Short" then some (.short v.toInt32.toInt16)
  else if tn = "byte" ∨ tn = "java.lang.Byte" then some (.byte v.toInt32.toInt8)
  else if tn = "char" ∨ tn = "java.lang.Character" then some (.character v.toInt32.toUInt32.toUInt16)
  else none

/-! ## The round trip -/

/-- A `Long` has 53 significant bits, or is rounded to 2^63 and is what the cast makes of that. -/
def Survives (overflow : Int64) : Boxed → Prop
  | .long v => Representable v.toInt.natAbs ∨ (intToDouble v.toInt = 2 ^ 63 ∧ overflow = v)
  | .boolean _ | .byte _ | .short _ | .character _ | .integer _ => True

theorem callNum_integral {obj : Boxed} : callNum obj 'I' = obj.intValue.toInt :=
  intToDouble_of_lt (by have := obj.intValue.toInt_lt; have := obj.intValue.le_toInt; omega)

theorem callNum_char {obj : Boxed} : callNum obj 'C' = (obj.charValue.toNat : Int) := by
  have hlt := obj.charValue.toNat_lt
  show intToDouble (obj.charValue.toNat : Int) = _
  exact intToDouble_of_lt (by omega)

theorem castInt64_eq_iff (overflow v : Int64) :
    castInt64 overflow (intToDouble v.toInt) = v ↔ Survives overflow (.long v) := by
  have hlt := v.toInt_lt
  have hle := v.le_toInt
  have hbounds := @intToDouble_bounds v.toInt 63 (by omega)
  show _ ↔ Representable v.toInt.natAbs ∨ (intToDouble v.toInt = 2 ^ 63 ∧ overflow = v)
  rw [← intToDouble_eq_iff]
  unfold castInt64
  by_cases hmax : intToDouble v.toInt = 2 ^ 63
  · rw [if_neg (by omega)]
    constructor
    · exact fun h => Or.inr ⟨hmax, h⟩
    · rintro (h | ⟨-, h⟩)
      · omega
      · exact h
  · have hcast : (Int64.ofInt (intToDouble v.toInt)).toInt = intToDouble v.toInt :=
      Int64.toInt_ofInt_of_le (by omega) (by omega)
    rw [if_pos ⟨hbounds.1, by omega⟩, ← Int64.toInt_inj, hcast]
    constructor
    · exact Or.inl
    · rintro (h | ⟨h, -⟩)
      · exact h
      · exact absurd h hmax

/-- A boxed integer comes back equal if and only if it is no `Long`, or one that survives as a double. -/
theorem boxed_roundTrip_iff (overflow : Int64) (obj : Boxed) {tn : String}
    (htn : tn = obj.javaClassName ∨ tn = obj.primitiveName) :
    jsValueToJavaObject (javaObjectToJsValue overflow obj) tn = some obj ↔ Survives overflow obj := by
  cases obj with
  | boolean b =>
    refine iff_of_true ?_ trivial
    rcases htn with rfl | rfl <;> cases b <;> rfl
  | byte v =>
    have hback : (Int32.ofInt (callNum (.byte v) 'I')).toInt8 = v := by
      rw [callNum_integral, Int32.ofInt_toInt]
      exact Int8.toInt8_toInt32 v
    refine iff_of_true ?_ trivial
    rcases htn with rfl | rfl
    · exact congrArg (fun v => some (Boxed.byte v)) hback
    · exact congrArg (fun v => some (Boxed.byte v)) hback
  | short v =>
    have hback : (Int32.ofInt (callNum (.short v) 'I')).toInt16 = v := by
      rw [callNum_integral, Int32.ofInt_toInt]
      exact Int16.toInt16_toInt32 v
    refine iff_of_true ?_ trivial
    rcases htn with rfl | rfl
    · exact congrArg (fun v => some (Boxed.short v)) hback
    · exact congrArg (fun v => some (Boxed.short v)) hback
  | character v =>
    have hback : (Int32.ofInt (callNum (.character v) 'C')).toUInt32.toUInt16 = v := by
      rw [callNum_char]
      show (Int32.ofInt (v.toNat : Int)).toUInt32.toUInt16 = v
      rw [Int32.ofInt_eq_ofNat]
      show (UInt32.ofNat v.toNat).toUInt16 = v
      exact UInt16.toNat_inj.1 (by simp)
    refine iff_of_true ?_ trivial
    rcases htn with rfl | rfl
    · exact congrArg (fun v => some (Boxed.character v)) hback
    · exact congrArg (fun v => some (Boxed.character v)) hback
  | integer v =>
    have hback : Int32.ofInt (callNum (.integer v) 'I') = v := by
      rw [callNum_integral, Int32.ofInt_toInt]
      rfl
    refine iff_of_true ?_ trivial
    rcases htn with rfl | rfl
    · exact congrArg (fun v => some (Boxed.integer v)) hback
    · exact congrArg (fun v => some (Boxed.integer v)) hback
  | long v =>
    rw [← castInt64_eq_iff]
    have hback : jsValueToJavaObject (javaObjectToJsValue overflow (.long v)) tn =
        some (.long (castInt64 overflow (intToDouble v.toInt))) := by
      rcases htn with rfl | rfl <;> rfl
    rw [hback]
    simp

theorem boxed_roundTrip_power :
    jsValueToJavaObject (javaObjectToJsValue 0 (.long 0x1000000000000000)) "long" =
      some (.long 0x1000000000000000) :=
  (boxed_roundTrip_iff 0 (.long 0x1000000000000000) (Or.inr rfl)).2 (Or.inl ⟨1, 60, by decide, by decide⟩)

/-- 2^53 + 1 comes back as 2^53. -/
theorem boxed_long_rounded :
    jsValueToJavaObject (javaObjectToJsValue 0 (.long 0x20000000000001)) "java.lang.Long" =
      some (.long 0x20000000000000) ∧
    jsValueToJavaObject (javaObjectToJsValue 0 (.long 0x20000000000001)) "java.lang.Long" ≠
      some (.long 0x20000000000001) := by
  decide

end ArtPi.Agent.Boxing
