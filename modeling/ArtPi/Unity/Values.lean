import ArtPi.Lib.Memory
import ArtPi.Lib.Numerals
import ArtPi.Unity.Strings

set_option autoImplicit false

/-! # Values of the runtime (`src/agent/agent_unity.cpp`)

`ReadValue` and `WriteValue` have a list of type names each, with the access for every one; what is not in the list is
taken for a pointer of eight bytes. UnityResolve leaves the size of a type at -1 where the runtime is IL2CPP. Floats
are bits; what is computed with them, and what the engine makes of a value that has to be another one, is left to the
engine. -/

namespace ArtPi.Unity

open Lib

/-! ## Types -/

/-- `UnityResolve::Type` -/
structure UnityType where
  name : String
  size : Int

/-- An integer type of so many bytes. -/
structure IntType where
  signed : Bool
  bytes : Nat
  bytes_pos : 0 < bytes
  bytes_le : bytes ≤ 8
  deriving DecidableEq

/-- The value of the low bytes. -/
def IntType.wrap (t : IntType) (n : Nat) : Int :=
  if t.signed = true ∧ 256 ^ t.bytes ≤ 2 * (n % 256 ^ t.bytes) then ((n % 256 ^ t.bytes : Nat) : Int) - 256 ^ t.bytes
  else (n % 256 ^ t.bytes : Nat)

theorem four_bytes_pos : 0 < 4 := by decide

theorem four_bytes_le : 4 ≤ 8 := by decide

def u8 : IntType := ⟨false, 1, by decide, by decide⟩
def s8 : IntType := ⟨true, 1, by decide, by decide⟩
def u16 : IntType := ⟨false, 2, by decide, by decide⟩
def s16 : IntType := ⟨true, 2, by decide, by decide⟩
def u32 : IntType := ⟨false, 4, four_bytes_pos, four_bytes_le⟩
def s32 : IntType := ⟨true, 4, four_bytes_pos, four_bytes_le⟩
def u64 : IntType := ⟨false, 8, by decide, by decide⟩
def s64 : IntType := ⟨true, 8, by decide, by decide⟩

/-- What a type is in the runtime. -/
inductive Kind where
  | boolean
  | integer (t : IntType)
  /-- `IntPtr` and `UIntPtr` -/
  | address
  | single
  | double
  | string
  /-- a struct of floats -/
  | floats (names : List String)
  | enum (t : IntType)
  /-- any other struct -/
  | struct (size : Nat)
  /-- any other reference -/
  | reference
  deriving DecidableEq

def Kind.size : Kind → Nat
  | .boolean => 1
  | .integer t | .enum t => t.bytes
  | .single => 4
  | .floats names => 4 * names.length
  | .struct size => size
  | .address | .double | .string | .reference => 8

def Kind.isValueType : Kind → Bool
  | .string | .reference => false
  | _ => true

def xy : List String := ["x", "y"]
def xyz : List String := ["x", "y", "z"]
def xyzw : List String := ["x", "y", "z", "w"]
def rgba : List String := ["r", "g", "b", "a"]

/-- What the types with these names are. -/
def builtins : List (String × Kind) :=
  [("System.Boolean", .boolean), ("System.Byte", .integer u8), ("System.SByte", .integer s8),
    ("System.Char", .integer u16), ("System.Int16", .integer s16), ("System.UInt16", .integer u16),
    ("System.Int32", .integer s32), ("System.UInt32", .integer u32), ("System.Int64", .integer s64),
    ("System.UInt64", .integer u64), ("System.IntPtr", .address), ("System.UIntPtr", .address),
    ("System.Single", .single), ("System.Double", .double), ("System.String", .string),
    ("System.Decimal", .struct 16), ("UnityEngine.Vector2", .floats xy), ("UnityEngine.Vector3", .floats xyz),
    ("UnityEngine.Vector4", .floats xyzw), ("UnityEngine.Quaternion", .floats xyzw), ("UnityEngine.Color", .floats rgba),
    ("UnityEngine.Color32", .struct 4), ("UnityEngine.Rect", .struct 16), ("UnityEngine.Bounds", .struct 24)]

/-- An enumeration, a struct or a reference. -/
def Kind.IsOther : Kind → Prop
  | .enum _ | .struct _ | .reference => True
  | _ => False

/-- A type of IL2CPP: one of the above where it has the name, and another one elsewhere. -/
structure RuntimeType extends UnityType where
  kind : Kind
  builtin : ∀ k, builtins.lookup name = some k → kind = k
  other : builtins.lookup name = none → kind.IsOther
  size_eq : size = -1

theorem unknown_size : (-1 : Int) = -1 := rfl

/-- `RawSize` -/
def rawSize (t : UnityType) : Nat := if t.size ≤ 0 then 8 else if t.size.toNat < 8 then 8 else t.size.toNat

def kValueTypes : List String :=
  ["System.Boolean", "System.Byte", "System.SByte", "System.Char", "System.Int16", "System.UInt16", "System.Int32",
    "System.UInt32", "System.Int64", "System.UInt64", "System.Single", "System.Double", "System.IntPtr",
    "System.UIntPtr", "System.Decimal", "UnityEngine.Vector2", "UnityEngine.Vector3", "UnityEngine.Vector4",
    "UnityEngine.Quaternion", "UnityEngine.Color", "UnityEngine.Color32", "UnityEngine.Rect", "UnityEngine.Bounds"]

/-- `IsValueTypeName` -/
def isValueTypeName (n : String) : Bool := kValueTypes.contains n

/-! ## The engine and the runtime -/

/-- A value of the engine; `number` has the bits of a double, `other` is `undefined` and the like. -/
inductive JsValue where
  | number (bits : UInt64)
  | bigint (n : Int)
  | string (units : List UInt16)
  | object (o : Nat)
  | bool (b : Bool)
  | other (tag : Nat)

inductive JsResult where
  | undefined
  | null
  | typeError
  | bool (b : Bool)
  | number (v : Int)
  | bigint (v : Int)
  | float (bits : UInt64)
  | string (units : List UInt16)
  | object (fields : List (String × UInt64))

/-- The conversions of the engine and of the machine. -/
structure Engine where
  toBool : JsValue → Bool
  /-- `JS_ToInt64` -/
  toInt64 : JsValue → UInt64
  toFloat64 : JsValue → UInt64
  toStr : JsValue → List UInt16
  property : Nat → String → JsValue
  /-- the bytes of units that are no characters, and the units of bytes that are no UTF-8 -/
  wideBytes : List UInt16 → List UInt8
  malformed : List UInt8 → List UInt16
  narrow : UInt64 → UInt32
  widen : UInt32 → UInt64
  /-- a double that is cast to an integer -/
  castInt64 : UInt64 → UInt64

/-- The strings of the runtime, by their addresses. -/
abbrev Strings := UInt64 → List UInt16

/-- `il2cpp_string_new`: where the string is put. -/
structure Runtime where
  place : Strings → List UInt8 → UInt64
  place_ne : ∀ strings bytes, place strings bytes ≠ 0
  malformed : List UInt8 → List UInt16

def Runtime.stringNew (rt : Runtime) (strings : Strings) (bytes : List UInt8) : UInt64 × Strings :=
  (rt.place strings bytes, fun p => if p = rt.place strings bytes then unitsOf rt.malformed bytes else strings p)

namespace Engine

variable (e : Engine)

/-- `ToI64`, and `ToU64`, which has the same bits. -/
def toI64 (v : JsValue) : UInt64 :=
  match v with
  | .bigint n => UInt64.ofInt n
  | v => e.toInt64 v

/-- `ParsePtr` -/
def parsePtr (v : JsValue) : UInt64 :=
  match v with
  | .bigint n => UInt64.ofInt n
  | .number bits => e.castInt64 bits
  | .string units =>
    let s := cstr (bytesOf e.wideBytes units)
    if s.take 2 = [0x30, 0x78] ∨ s.take 2 = [0x30, 0x58] then Numerals.strtoull 16 s else Numerals.strtoull 10 s
  | _ => 0

/-- A component of an object, as a float; what is no object has zeros. -/
def component (v : JsValue) (name : String) : UInt32 :=
  match v with
  | .object o => e.narrow (e.toFloat64 (e.property o name))
  | _ => 0

end Engine

/-! ## Reads and writes -/

/-- The bytes of a number, the least significant first. -/
def leBytes (n v : Nat) : List UInt8 := (List.range n).map fun i => UInt8.ofNat (v >>> (8 * i) &&& 0xff)

inductive Reader where
  | bool
  /-- `JS_NewInt32` and `JS_NewUint32` -/
  | number (t : IntType)
  /-- `NewBigIntOrInt` and `PtrToJs` -/
  | big
  | single
  | double
  | string
  | floats (names : List String)
  deriving DecidableEq

def Reader.width : Reader → Nat
  | .bool => 1
  | .number t => t.bytes
  | .single => 4
  | .big | .double | .string => 8
  | .floats names => 4 * names.length

/-- The names of `ReadValue`. -/
def readers : List (String × Reader) :=
  [("System.Boolean", .bool), ("System.Byte", .number u8), ("System.SByte", .number s8), ("System.Char", .number u16),
    ("System.Int16", .number s16), ("System.UInt16", .number u16), ("System.Int32", .number s32),
    ("System.UInt32", .number u32), ("System.Int64", .big), ("System.UInt64", .big), ("System.IntPtr", .big),
    ("System.UIntPtr", .big), ("System.Single", .single), ("System.Double", .double), ("System.String", .string),
    ("UnityEngine.Vector2", .floats xy), ("UnityEngine.Vector3", .floats xyz), ("UnityEngine.Vector4", .floats xyzw),
    ("UnityEngine.Quaternion", .floats xyzw), ("UnityEngine.Color", .floats rgba)]

inductive Writer where
  | bool
  /-- the low bytes of `ToI64` -/
  | int (bytes : Nat)
  | single
  | double
  | string
  | floats (names : List String)
  deriving DecidableEq

/-- The names of `WriteValue`. -/
def writers : List (String × Writer) :=
  [("System.Boolean", .bool), ("System.Byte", .int 1), ("System.SByte", .int 1), ("System.Char", .int 2),
    ("System.Int16", .int 2), ("System.UInt16", .int 2), ("System.Int32", .int 4), ("System.UInt32", .int 4),
    ("System.Int64", .int 8), ("System.UInt64", .int 8), ("System.IntPtr", .int 8), ("System.UIntPtr", .int 8),
    ("System.Single", .single), ("System.Double", .double), ("System.String", .string),
    ("UnityEngine.Vector2", .floats xy), ("UnityEngine.Vector3", .floats xyz), ("UnityEngine.Vector4", .floats xyzw),
    ("UnityEngine.Quaternion", .floats xyzw), ("UnityEngine.Color", .floats rgba)]

namespace Engine

variable (e : Engine)

/-- The floats in the bytes. -/
def floatsOf : List String → List UInt8 → List (String × UInt64)
  | [], _ => []
  | name :: names, bs => (name, e.widen (UInt32.ofNat (Bytes.leNat (bs.take 4)))) :: floatsOf names (bs.drop 4)

/-- What a read makes of its bytes. -/
def present (strings : Strings) (r : Reader) (bs : List UInt8) : JsResult :=
  match r with
  | .bool => .bool (Bytes.leNat bs ≠ 0)
  | .number t => .number (t.wrap (Bytes.leNat bs))
  | .big => .bigint (Bytes.leNat bs)
  | .single => .float (e.widen (UInt32.ofNat (Bytes.leNat bs)))
  | .double => .float (UInt64.ofNat (Bytes.leNat bs))
  | .string =>
    let s := UInt64.ofNat (Bytes.leNat bs)
    .string (if s = 0 then [] else textOf e.malformed (strings s))
  | .floats names => .object (e.floatsOf names bs)

/-- The bytes of a write, and the strings behind it. -/
def encode (rt : Runtime) (strings : Strings) (w : Writer) (v : JsValue) : List UInt8 × Strings :=
  match w with
  | .bool => ([if e.toBool v = true then 1 else 0], strings)
  | .int bytes => (leBytes bytes (e.toI64 v).toNat, strings)
  | .single => (leBytes 4 (e.narrow (e.toFloat64 v)).toNat, strings)
  | .double => (leBytes 8 (e.toFloat64 v).toNat, strings)
  | .string =>
    let s := rt.stringNew strings (cstr (bytesOf e.wideBytes (e.toStr v)))
    (leBytes 8 s.1.toNat, s.2)
  | .floats names => (names.flatMap fun name => leBytes 4 (e.component v name).toNat, strings)

/-- `ReadValue`; `load` are the bytes at the address, where so many can be read. -/
def readValue (strings : Strings) (t : UnityType) (load : Nat → Option (List UInt8)) : Option JsResult :=
  match readers.lookup t.name with
  | some r => (load r.width).map (e.present strings r)
  | none =>
    if t.size = 8 ∨ isValueTypeName t.name = false then (load 8).map (e.present strings .big)
    else some .undefined

/-- `WriteValue`: the bytes that go to the address. -/
def writeValue (rt : Runtime) (strings : Strings) (t : UnityType) (v : JsValue) : List UInt8 × Strings :=
  match writers.lookup t.name with
  | some w => e.encode rt strings w v
  | none => (leBytes 8 (e.parsePtr v).toNat, strings)

end Engine

/-- A buffer with bytes at its start; `none` where they go past its end. -/
def putFront (buf bs : List UInt8) : Option (List UInt8) :=
  if bs.length ≤ buf.length then some (bs ++ buf.drop bs.length) else none

def takeFront (buf : List UInt8) (n : Nat) : Option (List UInt8) :=
  if n ≤ buf.length then some (buf.take n) else none

/-! ## Fields -/

/-- `UnityResolve::Field`; `storage` is where the runtime has a static one. -/
structure Field where
  type : RuntimeType
  offset : Nat
  static_field : Bool
  storage : Nat

def Field.size (f : Field) : Nat := f.type.kind.size

/-- The memory of the process. -/
structure Proc where
  mem : Memory
  strings : Strings

section Fields

variable (e : Engine) (rt : Runtime) (p : Proc) (f : Field) (obj : Nat)

/-- `ReadField`; `none` where it goes past the end of its buffer. `il2cpp_field_static_get_value` copies as many bytes
as the type has. -/
def readField : Option JsResult :=
  if f.static_field = true then do
    let buf ← putFront (List.replicate (rawSize f.type.toUnityType) 0) (p.mem.read f.storage f.size)
    e.readValue p.strings f.type.toUnityType (takeFront buf)
  else if obj = 0 then some .typeError
  else e.readValue p.strings f.type.toUnityType fun n => some (p.mem.read (obj + f.offset) n)

/-- `WriteField`, with what it returns; `il2cpp_field_static_set_value` copies as many bytes as the type has. -/
def writeField (v : JsValue) : Option (Bool × Proc) :=
  let w := e.writeValue rt p.strings f.type.toUnityType v
  if f.static_field = true then do
    let buf ← putFront (List.replicate (rawSize f.type.toUnityType) 0) w.1
    let bytes ← takeFront buf f.size
    some (true, ⟨p.mem.write f.storage bytes, w.2⟩)
  else if obj = 0 then some (false, p)
  else some (true, ⟨p.mem.write (obj + f.offset) w.1, w.2⟩)

end Fields

/-! ## The two lists -/

/-- The access of `ReadValue` to a type. -/
def Kind.reader : Kind → Option Reader
  | .boolean => some .bool
  | .integer t => some (if t.bytes = 8 then .big else .number t)
  | .address => some .big
  | .single => some .single
  | .double => some .double
  | .string => some .string
  | .floats names => some (.floats names)
  | .enum _ | .struct _ | .reference => none

/-- The access of `WriteValue` to a type. -/
def Kind.writer : Kind → Option Writer
  | .boolean => some .bool
  | .integer t => some (.int t.bytes)
  | .address => some (.int 8)
  | .single => some .single
  | .double => some .double
  | .string => some .string
  | .floats names => some (.floats names)
  | .enum _ | .struct _ | .reference => none

theorem lookup_readers_builtin :
    ∀ x ∈ builtins, readers.lookup x.1 = x.2.reader ∧ writers.lookup x.1 = x.2.writer := by decide

theorem mem_builtins_of_readers :
    (∀ x ∈ readers, x.1 ∈ builtins.map Prod.fst) ∧ ∀ x ∈ writers, x.1 ∈ builtins.map Prod.fst := by decide

theorem lookup_eq_none {α : Type} {l : List (String × α)} {n : String} (h : ∀ x ∈ l, x.1 ∈ builtins.map Prod.fst)
    (hnone : builtins.lookup n = none) : l.lookup n = none := by
  rw [List.lookup_eq_none_iff] at hnone ⊢
  intro x hx
  obtain ⟨y, hy, hxy⟩ := List.mem_map.mp (h x hx)
  rw [← hxy]
  exact hnone y hy

namespace RuntimeType

variable (t : RuntimeType)

theorem mem_builtins {k : Kind} (h : builtins.lookup t.name = some k) : (t.name, k) ∈ builtins := by
  obtain ⟨front, back, hsplit, -⟩ := List.lookup_eq_some_iff.mp h
  rw [hsplit]
  exact List.mem_append_right front List.mem_cons_self

theorem lookup_eq : readers.lookup t.name = t.kind.reader ∧ writers.lookup t.name = t.kind.writer := by
  cases h : builtins.lookup t.name with
  | some k =>
    rw [t.builtin k h]
    exact lookup_readers_builtin (t.name, k) (t.mem_builtins h)
  | none =>
    have hother := t.other h
    rw [lookup_eq_none mem_builtins_of_readers.1 h, lookup_eq_none mem_builtins_of_readers.2 h]
    cases hk : t.kind with
    | enum _ => exact ⟨rfl, rfl⟩
    | struct _ => exact ⟨rfl, rfl⟩
    | reference => exact ⟨rfl, rfl⟩
    | _ =>
      rw [hk] at hother
      exact hother.elim

theorem rawSize_eq : rawSize t.toUnityType = 8 := by
  unfold rawSize
  rw [if_pos (by rw [t.size_eq]; decide)]

end RuntimeType

end ArtPi.Unity
