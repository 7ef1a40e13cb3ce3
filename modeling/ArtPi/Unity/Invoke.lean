import ArtPi.Unity.Fields

set_option autoImplicit false

/-! # Calls of methods (`src/agent/agent_unity.cpp`)

`InvokeMethod` gives every argument storage of its own and passes its address, whatever the type, and unboxes a result
by the name of its type. `il2cpp_runtime_invoke` takes the address of a value for a value type and the reference for a
reference type, and boxes the result of a value type. -/

namespace ArtPi.Unity

open Lib

/-! ## The call -/

/-- `UnityResolve::Method`; `returns` is missing where nothing is returned. -/
structure Method where
  name : String
  args : List RuntimeType
  returns : Option RuntimeType
  not_void : ∀ t, returns = some t → t.name ≠ "System.Void"

def Method.return_type (m : Method) : UnityType :=
  match m.returns with
  | none => ⟨"System.Void", -1⟩
  | some t => t.toUnityType

/-- `IsVoidType` -/
def isVoidType (t : UnityType) : Bool := t.name = "System.Void"

/-- An element of the parameters: the address of a storage, by what is in it, or a reference. -/
inductive Param where
  | storage (bytes : List UInt8)
  | reference (p : UInt64)

/-- Where a result is read: in the object that it is, or in the variable with its reference. -/
inductive Source where
  | unboxed
  | variable
  deriving DecidableEq

/-- What becomes of a call: a TypeError in front of it, or the parameters that are passed, with the strings at that
time, and the result. -/
inductive Outcome where
  | expects (name : String) (size argc : Nat)
  | called (params : List Param) (strings : Strings) (source : Option Source) (result : Option JsResult)

/-- What `il2cpp_runtime_invoke` leaves: the reference it returns and the memory. -/
structure Back where
  result : UInt64
  proc : Proc

section Invoke

variable (e : Engine) (rt : Runtime)

/-- The storage of the arguments; `none` where a write goes past its end. -/
def storeArgs (strings : Strings) : List (RuntimeType × JsValue) → Option (List Param × Strings)
  | [] => some ([], strings)
  | (t, v) :: rest => do
    let w := e.writeValue rt strings t.toUnityType v
    let buf ← putFront (List.replicate (rawSize t.toUnityType) 0) w.1
    let (params, strings) ← storeArgs w.2 rest
    some (.storage buf :: params, strings)

/-- `il2cpp_object_unbox`: the value is behind the header of the object. -/
def objectUnbox (result : UInt64) : Nat := result.toNat + 0x10

/-- What is made of the result. -/
def readResult (m : Method) (back : Back) : Option Source × Option JsResult :=
  if isVoidType m.return_type = true then (none, some .undefined)
  else if back.result = 0 then (none, some .null)
  else if isValueTypeName m.return_type.name = true then
    (some .unboxed, e.readValue back.proc.strings m.return_type fun n => some (back.proc.mem.read (objectUnbox back.result) n))
  else (some .variable, e.readValue back.proc.strings m.return_type (takeFront (leBytes 8 back.result.toNat)))

/-- `InvokeMethod`; `none` where an argument goes past the end of its storage. -/
def invokeMethod (p : Proc) (m : Method) (argv : List JsValue) (back : Back) : Option Outcome :=
  if argv.length < m.args.length then some (.expects m.name m.args.length argv.length)
  else do
    let (params, strings) ← storeArgs e rt p.strings (m.args.zip argv)
    let read := readResult e m back
    some (.called params strings read.1 read.2)

end Invoke

/-! ## What the runtime expects -/

/-- The bytes of a value of a type. -/
def Engine.stored (e : Engine) (k : Kind) (v : JsValue) : Option (List UInt8) :=
  match k with
  | .boolean => some [if e.toBool v = true then 1 else 0]
  | .integer t | .enum t => some (leBytes t.bytes (e.toI64 v).toNat)
  | .address => some (leBytes 8 (e.toI64 v).toNat)
  | .single => some (leBytes 4 (e.narrow (e.toFloat64 v)).toNat)
  | .double => some (leBytes 8 (e.toFloat64 v).toNat)
  | .floats names => some (names.flatMap fun name => leBytes 4 (e.component v name).toNat)
  | .struct size => if size = 8 then some (leBytes 8 (e.parsePtr v).toNat) else none
  | .string | .reference => none

/-- A value type has a storage of at least its size with the value in front, a reference type the reference: that of a
string with the text, or the one that the value is. -/
def ParamRight (e : Engine) (rt : Runtime) (strings : Strings) (k : Kind) (v : JsValue) (param : Param) : Prop :=
  match k with
  | .string => ∃ p, param = .reference p ∧ p ≠ 0 ∧ strings p = newUnits e.wideBytes rt.malformed (e.toStr v)
  | .reference => param = .reference (e.parsePtr v)
  | k => ∃ buf, param = .storage buf ∧ k.size ≤ buf.length ∧ e.stored k v = some (buf.take k.size)

/-- Of a value type the object is read, of a reference type the reference. -/
def sourceOf (k : Kind) : Source := if k.isValueType = true then .unboxed else .variable

/-- What is passed is what the runtime expects, and what comes back is read as what it is; where nothing is called there
is nothing to be said. -/
def InvokeRight (e : Engine) (rt : Runtime) (p : Proc) (m : Method) (argv : List JsValue) (back : Back) : Prop :=
  m.args.length ≤ argv.length → ∃ params strings source result,
    invokeMethod e rt p m argv back = some (.called params strings source result) ∧
      List.Forall₂ (fun x param => ParamRight e rt strings x.1.kind x.2 param) (m.args.zip argv) params ∧
        ∀ t, m.returns = some t → back.result ≠ 0 → source = some (sourceOf t.kind)

/-- No reference, no struct with a size other than eight that is not one of up to two floats, and for an enumeration a
value of which `ParsePtr` makes the same low bytes. -/
def Marshalled (e : Engine) (k : Kind) (v : JsValue) : Prop :=
  match k with
  | .boolean | .integer _ | .address | .single | .double => True
  | .string | .reference => False
  | .floats names => 4 * names.length ≤ 8
  | .enum t => (e.parsePtr v).toNat % 256 ^ t.bytes = (e.toI64 v).toNat % 256 ^ t.bytes
  | .struct size => size = 8

/-- A value type without one of the names is not returned, or is null. -/
def Named (m : Method) (back : Back) : Prop :=
  ∀ t, m.returns = some t → t.kind.isValueType = true → isValueTypeName t.name = false → back.result = 0

/-! ## Parameters -/

section Params

variable {e : Engine} {rt : Runtime} {strings : Strings} {t : RuntimeType} {v : JsValue}

theorem leBytes_inj {n a b : Nat} : leBytes n a = leBytes n b ↔ a % 256 ^ n = b % 256 ^ n := by
  constructor
  · intro h
    rw [← leNat_leBytes, h, leNat_leBytes]
  · intro h
    exact Bytes.leNat_inj (by rw [length_leBytes, length_leBytes]) (by rw [leNat_leBytes, leNat_leBytes, h])

/-- What is written for a value type with an access is its value. -/
theorem stored_eq_encode {w : Writer} (hw : t.kind.writer = some w) (hvalue : t.kind ≠ .string) :
    e.stored t.kind v = some (e.encode rt strings w v).1 := by
  cases hk : t.kind with
  | string => exact absurd hk hvalue
  | enum _ => rw [hk] at hw; cases hw
  | struct _ => rw [hk] at hw; cases hw
  | reference => rw [hk] at hw; cases hw
  | _ =>
    rw [hk] at hw
    obtain rfl := Option.some.inj hw
    rfl

theorem not_paramRight_storage {k : Kind} (h : k.isValueType = false) (buf : List UInt8) :
    ¬ ParamRight e rt strings k v (.storage buf) := by
  cases k with
  | string =>
    rintro ⟨p, hp, -⟩
    cases hp
  | reference => exact nofun
  | _ => cases h

theorem paramRight_storage_iff {k : Kind} (h : k.isValueType = true) (buf : List UInt8) :
    ParamRight e rt strings k v (.storage buf) ↔ k.size ≤ buf.length ∧ e.stored k v = some (buf.take k.size) := by
  have hstorage : (∃ buf', Param.storage buf = .storage buf' ∧ k.size ≤ buf'.length ∧
      e.stored k v = some (buf'.take k.size)) ↔ k.size ≤ buf.length ∧ e.stored k v = some (buf.take k.size) := by
    constructor
    · rintro ⟨buf', hbuf, hright⟩
      obtain rfl := Param.storage.inj hbuf
      exact hright
    · exact fun hright => ⟨buf, rfl, hright⟩
  cases k with
  | string => cases h
  | reference => cases h
  | _ => exact hstorage

/-- One argument: it has no room, or what is passed is right if it is marshalled. -/
theorem arg_cases (e : Engine) (rt : Runtime) (strings : Strings) (t : RuntimeType) (v : JsValue) :
    (putFront (List.replicate (rawSize t.toUnityType) 0) (e.writeValue rt strings t.toUnityType v).1 = none ∧
        ¬ Marshalled e t.kind v) ∨
      ∃ buf, putFront (List.replicate (rawSize t.toUnityType) 0) (e.writeValue rt strings t.toUnityType v).1 = some buf ∧
        ∀ strings', ParamRight e rt strings' t.kind v (.storage buf) ↔ Marshalled e t.kind v := by
  rw [t.rawSize_eq, putFront_zeros]
  unfold Engine.writeValue
  rw [t.lookup_eq.2]
  cases hw : t.kind.writer with
  | some w =>
    have hlen : (e.encode rt strings w v).1.length = t.kind.size := length_encode strings hw
    dsimp only
    rw [hlen]
    by_cases hvalue : t.kind = .string
    · rw [hvalue, if_pos (by decide)]
      exact .inr ⟨_, rfl, fun strings' => iff_of_false (not_paramRight_storage rfl _) nofun⟩
    · have hstored : e.stored t.kind v = some (e.encode rt strings w v).1 := stored_eq_encode hw hvalue
      have htype : t.kind.isValueType = true := by
        cases hk : t.kind with
        | string => exact absurd hk hvalue
        | reference => rw [hk] at hw; cases hw
        | _ => rfl
      -- only structs of floats may be too large
      have hroom : Marshalled e t.kind v ↔ t.kind.size ≤ 8 := by
        cases hk : t.kind with
        | floats names => exact Iff.rfl
        | integer i => exact iff_of_true trivial i.bytes_le
        | string => exact absurd hk hvalue
        | enum _ => rw [hk] at hw; cases hw
        | struct _ => rw [hk] at hw; cases hw
        | reference => rw [hk] at hw; cases hw
        | _ => exact iff_of_true trivial (by decide)
      rw [hroom]
      split_ifs with hsize
      · refine .inr ⟨_, rfl, fun strings' => ?_⟩
        rw [paramRight_storage_iff htype, hstored]
        refine iff_of_true ⟨?_, ?_⟩ hsize
        · rw [List.length_append, hlen]
          omega
        · rw [← hlen, List.take_left]
      · exact .inl ⟨rfl, hsize⟩
  | none =>
    dsimp only
    rw [length_leBytes, if_pos (Nat.le_refl 8), Nat.sub_self, List.replicate_zero, List.append_nil]
    refine .inr ⟨_, rfl, fun strings' => ?_⟩
    cases hk : t.kind with
    | reference => exact iff_of_false (not_paramRight_storage rfl _) nofun
    | enum i =>
      rw [paramRight_storage_iff rfl, length_leBytes]
      unfold Kind.size Engine.stored Marshalled
      dsimp only
      rw [take_leBytes i.bytes_le, Option.some.injEq, leBytes_inj, eq_comm]
      exact ⟨fun h => h.2, fun h => ⟨i.bytes_le, h⟩⟩
    | struct size =>
      rw [paramRight_storage_iff rfl, length_leBytes]
      unfold Kind.size Engine.stored Marshalled
      dsimp only
      constructor
      · rintro ⟨-, hstored⟩
        by_contra hsize
        rw [if_neg hsize] at hstored
        cases hstored
      · rintro rfl
        rw [if_pos rfl, List.take_of_length_le (by rw [length_leBytes])]
        exact ⟨Nat.le_refl 8, rfl⟩
    | _ => rw [hk] at hw; cases hw

/-- All arguments: what is passed is right exactly if each is marshalled. -/
theorem storeArgs_right_iff (e : Engine) (rt : Runtime) (strings : Strings) (pairs : List (RuntimeType × JsValue)) :
    (∃ params strings', storeArgs e rt strings pairs = some (params, strings') ∧
      List.Forall₂ (fun x param => ParamRight e rt strings' x.1.kind x.2 param) pairs params) ↔
        ∀ x ∈ pairs, Marshalled e x.1.kind x.2 := by
  induction pairs generalizing strings with
  | nil => exact iff_of_true ⟨[], strings, rfl, .nil⟩ nofun
  | cons x rest ih =>
    obtain ⟨t, v⟩ := x
    rw [List.forall_mem_cons, ← ih (e.writeValue rt strings t.toUnityType v).2]
    rw [storeArgs]
    rcases arg_cases e rt strings t v with ⟨hnone, hno⟩ | ⟨buf, hbuf, hright⟩
    · refine iff_of_false ?_ fun h => hno h.1
      rintro ⟨params, strings', hparams, -⟩
      rw [hnone] at hparams
      cases hparams
    · constructor
      · rintro ⟨params, strings', hparams, hall⟩
        rw [hbuf, Option.bind_eq_bind, Option.bind_some, Option.bind_eq_bind, Option.bind_eq_some_iff] at hparams
        obtain ⟨⟨params', strings''⟩, hrest, hsame⟩ := hparams
        obtain ⟨rfl, rfl⟩ := Prod.mk.inj (Option.some.inj hsame)
        obtain ⟨hfirst, htail⟩ := List.forall₂_cons.mp hall
        exact ⟨(hright strings'').mp hfirst, params', strings'', hrest, htail⟩
      · rintro ⟨hfirst, params, strings', hrest, htail⟩
        refine ⟨.storage buf :: params, strings', ?_, .cons ((hright strings').mpr hfirst) htail⟩
        rw [hbuf, Option.bind_eq_bind, Option.bind_some, Option.bind_eq_bind, hrest, Option.bind_some]

end Params

/-! ## Results -/

theorem isVoidType_iff (m : Method) : isVoidType m.return_type = true ↔ m.returns = none := by
  unfold isVoidType Method.return_type
  rw [decide_eq_true_iff]
  cases hret : m.returns with
  | none => exact iff_of_true rfl rfl
  | some t => exact iff_of_false (m.not_void t hret) nofun

theorem isValueType_of_name (t : RuntimeType) (h : isValueTypeName t.name = true) : t.kind.isValueType = true := by
  have hkinds : ∀ n ∈ kValueTypes, (builtins.lookup n).any Kind.isValueType = true := by decide
  unfold isValueTypeName at h
  rw [List.contains_iff_mem] at h
  have hname := hkinds t.name h
  cases hlookup : builtins.lookup t.name with
  | none =>
    rw [hlookup] at hname
    cases hname
  | some k =>
    rw [hlookup] at hname
    rw [t.builtin k hlookup]
    exact hname

/-- A result is read as what it is, exactly if a value type without one of the names is null. -/
theorem readResult_source_iff (e : Engine) (m : Method) (back : Back) :
    (∀ t, m.returns = some t → back.result ≠ 0 → (readResult e m back).1 = some (sourceOf t.kind)) ↔ Named m back := by
  unfold Named
  refine forall_congr' fun t => forall_congr' fun hret => ?_
  have hvoid : ¬ isVoidType m.return_type = true := by
    rw [isVoidType_iff, hret]
    nofun
  have htype : m.return_type = t.toUnityType := by
    unfold Method.return_type
    rw [hret]
  unfold readResult sourceOf
  rw [if_neg hvoid, htype]
  by_cases hzero : back.result = 0
  · exact iff_of_true (fun h => absurd hzero h) fun _ _ => hzero
  · rw [if_neg hzero]
    cases hname : isValueTypeName t.name with
    | true =>
      rw [if_pos rfl, isValueType_of_name t hname]
      exact iff_of_true (fun _ => rfl) nofun
    | false =>
      rw [if_neg nofun]
      cases hvalue : t.kind.isValueType with
      | true =>
        have hne : Source.variable ≠ .unboxed := nofun
        exact iff_of_false (fun h => hne (Option.some.inj (h hzero))) fun h => hzero (h rfl rfl)
      | false => exact iff_of_true (fun _ => rfl) nofun

/-- With enough arguments the method is called if they have room. -/
theorem invokeMethod_eq_some_iff {e : Engine} {rt : Runtime} {p : Proc} {m : Method} {argv : List JsValue} {back : Back}
    (henough : m.args.length ≤ argv.length) {params : List Param} {strings : Strings} {source : Option Source}
    {result : Option JsResult} : invokeMethod e rt p m argv back = some (.called params strings source result) ↔
      storeArgs e rt p.strings (m.args.zip argv) = some (params, strings) ∧ readResult e m back = (source, result) := by
  unfold invokeMethod
  rw [if_neg (Nat.not_lt.mpr henough)]
  cases storeArgs e rt p.strings (m.args.zip argv) with
  | none => exact iff_of_false nofun nofun
  | some s =>
    obtain ⟨params', strings'⟩ := s
    rw [Option.bind_eq_bind, Option.bind_some, Option.some.injEq, Outcome.called.injEq, Option.some.injEq,
      Prod.mk.injEq, and_assoc, Prod.ext_iff]

/-- Calls are marshalled as the runtime expects exactly in these cases. -/
theorem invokeMethod_right_iff (e : Engine) (rt : Runtime) (p : Proc) (m : Method) (argv : List JsValue) (back : Back) :
    InvokeRight e rt p m argv back ↔
      (m.args.length ≤ argv.length → (∀ x ∈ m.args.zip argv, Marshalled e x.1.kind x.2) ∧ Named m back) := by
  unfold InvokeRight
  refine forall_congr' fun henough => ?_
  rw [← storeArgs_right_iff e rt p.strings, ← readResult_source_iff e]
  constructor
  · rintro ⟨params, strings, source, result, hcall, hall, hsource⟩
    obtain ⟨hstore, hread⟩ := (invokeMethod_eq_some_iff henough).mp hcall
    rw [hread]
    exact ⟨⟨params, strings, hstore, hall⟩, hsource⟩
  · rintro ⟨⟨params, strings, hstore, hall⟩, hsource⟩
    exact ⟨params, strings, _, _, (invokeMethod_eq_some_iff henough).mpr ⟨hstore, rfl⟩, hall, hsource⟩

/-! ## A string -/

def systemString : RuntimeType where
  name := "System.String"
  size := -1
  kind := .string
  builtin k h := by
    rw [show builtins.lookup "System.String" = some .string by decide] at h
    exact Option.some.inj h
  other h := absurd h (by decide)
  size_eq := unknown_size

/-- A method with a string for its parameter. -/
def find : Method := ⟨"Find", [systemString], none, nofun⟩

/-- The address of a storage with the reference is passed. -/
theorem not_invokeMethod_right : ¬ ∀ (e : Engine) (rt : Runtime) (p : Proc) (m : Method) (argv : List JsValue)
    (back : Back), InvokeRight e rt p m argv back := by
  intro h
  have henough : find.args.length ≤ [JsValue.string [0x43]].length := by decide
  obtain ⟨params, strings, source, result, hcall, hall, -⟩ := h plainEngine plainRuntime ⟨fun _ => 0, fun _ => []⟩ find
    [.string [0x43]] ⟨0, fun _ => 0, fun _ => []⟩ henough
  obtain ⟨hstore, -⟩ := (invokeMethod_eq_some_iff henough).mp hcall
  exact (storeArgs_right_iff _ _ _ _).mp ⟨params, strings, hstore, hall⟩ (systemString, .string [0x43])
    List.mem_cons_self

end ArtPi.Unity
