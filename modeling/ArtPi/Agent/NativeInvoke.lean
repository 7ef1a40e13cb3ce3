import Mathlib.Algebra.Order.Ring.Int
import Mathlib.Tactic.NormNum
import Mathlib.Tactic.Positivity

set_option autoImplicit false

/-! # Typed native calls (`src/agent/agent_native.cpp`, `src/agent/agent_ffi.h`)

`invoke(f, ret, [types], ...args)` puts every argument into eight bytes of its own, has libffi call the function, and
makes a value of the eight bytes that libffi leaves. Numbers are finite here; what the engine makes of a string or an
object that has to be a number, and floats, are left to it. -/

namespace ArtPi.Agent.NativeInvoke

/-- The `_frida_ffi_type_*` that names resolve to. -/
inductive FfiType where
  | void | uint8 | sint8 | uint16 | sint16 | uint32 | sint32 | uint64 | sint64 | float | double | pointer
  deriving DecidableEq

namespace FfiType

def bits : FfiType → Nat
  | .uint8 | .sint8 => 8
  | .uint16 | .sint16 => 16
  | .uint32 | .sint32 | .float => 32
  | .uint64 | .sint64 | .double | .pointer => 64
  | .void => 0

def isSigned : FfiType → Bool
  | .sint8 | .sint16 | .sint32 | .sint64 => true
  | _ => false

def isInteger : FfiType → Bool
  | .void | .float | .double | .pointer => false
  | _ => true

/-- The low bits are a value of the type, and the rest is its sign or zero. -/
def extend (τ : FfiType) (w : BitVec 64) : BitVec 64 :=
  if τ.isSigned then (w.setWidth τ.bits).signExtend 64 else (w.setWidth τ.bits).setWidth 64

def InRange (τ : FfiType) (v : Int) : Prop :=
  if τ.isSigned then -2 ^ (τ.bits - 1) ≤ v ∧ v < 2 ^ (τ.bits - 1) else 0 ≤ v ∧ v < 2 ^ τ.bits

instance (τ : FfiType) (v : Int) : Decidable (τ.InRange v) :=
  inferInstanceAs (Decidable (if τ.isSigned then _ else _))

end FfiType

def ffiResolveType (name : String) : FfiType :=
  if name = "void" then .void
  else if name = "pointer" ∨ name = "ptr" ∨ name = "string" ∨ name = "str" then .pointer
  else if name = "int" ∨ name = "int32" ∨ name = "sint32" then .sint32
  else if name = "uint" ∨ name = "uint32" then .uint32
  else if name = "int64" ∨ name = "sint64" ∨ name = "long" then .sint64
  else if name = "uint64" ∨ name = "ulong" ∨ name = "size_t" then .uint64
  else if name = "float" then .float
  else if name = "double" then .double
  else if name = "bool" ∨ name = "boolean" ∨ name = "uint8" then .uint8
  else if name = "int8" ∨ name = "sint8" then .sint8
  else if name = "int16" ∨ name = "sint16" then .sint16
  else if name = "uint16" then .uint16
  else .pointer

inductive JsValue where
  | string (s : String)
  | bool (b : Bool)
  | number (d : Rat)
  | bigint (n : Int)
  /-- with the bytes of its buffer, or the address `ParsePtr` finds in it -/
  | object (ptr : BitVec 64)
  | other

inductive JsResult where
  | undefined
  | null
  | number (n : Int)
  | bigint (n : Int)
  | float (bits : BitVec 32)
  | double (bits : BitVec 64)
  | string (s : String)
  | typeError (message : String)
  | internalError (message : String)
  deriving DecidableEq

/-- The integer that a number or a BigInt is. -/
def JsResult.toInt? : JsResult → Option Int
  | .number n | .bigint n => some n
  | _ => none

/-- libffi, and the conversions of the engine. -/
structure Host where
  prepCif : FfiType → List FfiType → Nat
  call : Int → FfiType → List (FfiType × BitVec 64) → BitVec 64
  toFloat : JsValue → BitVec 32
  toDouble : JsValue → BitVec 64
  /-- `JS_ToInt32` of a string or an object -/
  toInt32 : JsValue → BitVec 32
  /-- where a string is kept, and the string at an address -/
  keep : String → BitVec 64
  stringAt : BitVec 64 → String

/-- A conversion to an integer drops the fraction. -/
def truncate (d : Rat) : Int := d.num.tdiv d.den

/-- `static_cast<int64_t>(d)`, which stops at the ends of the range. -/
def toInt64 (d : Rat) : Int := max (-2 ^ 63) (min (2 ^ 63 - 1) (truncate d))

namespace Host

variable (h : Host)

/-- `JS_ToInt32`, and `JS_ToUint32`, which has the same bits. A BigInt throws and leaves the 0 that was there. -/
def jsToInt32 : JsValue → BitVec 32
  | .number d => BitVec.ofInt 32 (truncate d)
  | .bool b => if b then 1 else 0
  | .bigint _ | .other => 0
  | val => h.toInt32 val

/-- The type and the storage of an argument. -/
def storeArg (isTyped : Bool) (expectedType : Option FfiType) (val : JsValue) : FfiType × BitVec 64 :=
  if expectedType = some .float then (.float, (h.toFloat val).setWidth 64)
  else if expectedType = some .double then (.double, h.toDouble val)
  else if expectedType = some .sint32 then (.sint32, (h.jsToInt32 val).setWidth 64)
  else if expectedType = some .uint32 then (.uint32, (h.jsToInt32 val).setWidth 64)
  else
    match val with
    | .string s => (.pointer, h.keep s)
    | .bool b => (.uint8, if b then 1 else 0)
    | .number d =>
      if isTyped = false ∧ d ≠ (toInt64 d : Rat) then (.double, h.toDouble val)
      else (expectedType.getD .sint64, BitVec.ofInt 64 (toInt64 d))
    | .bigint n => (expectedType.getD .uint64, BitVec.ofInt 64 n)
    | .object ptr => (.pointer, ptr)
    | .other => (.pointer, 0)

/-- The result of the declared type. -/
def makeResult (retTypeName : String) (rtype : FfiType) (retVal : BitVec 64) : JsResult :=
  if rtype = .void then .undefined
  else if rtype = .float then .float (retVal.setWidth 32)
  else if rtype = .double then .double retVal
  else if rtype = .sint32 then .number (retVal.setWidth 32).toInt
  else if rtype = .uint32 then .number (retVal.setWidth 32).toNat
  else if retTypeName = "string" ∨ retTypeName = "str" then
    if retVal = 0 then .null else .string (h.stringAt retVal)
  else .bigint retVal.toNat

/-- `JsNativeInvoke`; `types` are there in a typed call, and `addr` is what `ParsePtr` makes of the first argument. -/
def jsNativeInvoke (addr : Int) (types : Option (String × List String)) (args : List JsValue) : JsResult :=
  if addr < 0x1000 then .typeError "invoke(): invalid native function address"
  else
    let explicitArgTypes := (types.map Prod.snd).getD []
    let stored := args.zipIdx.map fun x =>
      h.storeArg types.isSome (explicitArgTypes[x.2]?.map ffiResolveType) x.1
    let retTypeName := (types.map Prod.fst).getD "pointer"
    let rtype := if types.isSome then ffiResolveType retTypeName else .pointer
    let status := h.prepCif rtype (stored.map Prod.fst)
    if status ≠ 0 then .internalError ("invoke(): ffi_prep_cif failed with status " ++ toString status)
    else h.makeResult retTypeName rtype (h.call addr rtype stored)

end Host

/-- A value as a number if its magnitude is at most 2^53, and as a BigInt otherwise. -/
def ofInt (v : Int) : JsValue := if v.natAbs ≤ 2 ^ 53 then .number v else .bigint v

/-- libffi calls the identity of a type: it takes a value of the type out of the storage and widens it. -/
structure Host.Identity (h : Host) (addr : Int) (τ : FfiType) : Prop where
  prep : h.prepCif τ [τ] = 0
  call : ∀ w, h.call addr τ [(τ, w)] = τ.extend w

/-! ## Widths -/

theorem toNat_ofInt_cast (n : Nat) (v : Int) : ((BitVec.ofInt n v).toNat : Int) = v % 2 ^ n := by
  rw [BitVec.toNat_ofInt]
  push_cast
  exact Int.toNat_of_nonneg (Int.emod_nonneg v (by positivity))

theorem setWidth_ofInt {n m : Nat} (hle : n ≤ m) (v : Int) : (BitVec.ofInt m v).setWidth n = BitVec.ofInt n v := by
  refine BitVec.eq_of_toNat_eq ?_
  have hdvd : (2 : Int) ^ n ∣ 2 ^ m := pow_dvd_pow 2 hle
  have hcast : (((BitVec.ofInt m v).setWidth n).toNat : Int) = (BitVec.ofInt n v).toNat := by
    rw [BitVec.toNat_setWidth, Int.natCast_emod, toNat_ofInt_cast, toNat_ofInt_cast]
    push_cast
    exact Int.emod_emod_of_dvd v hdvd
  exact_mod_cast hcast

theorem toInt_ofInt_of_range {n : Nat} {v : Int} (hpos : 0 < n) (hlo : -2 ^ (n - 1) ≤ v) (hhi : v < 2 ^ (n - 1)) :
    (BitVec.ofInt n v).toInt = v := by
  obtain ⟨k, rfl⟩ := Nat.exists_eq_succ_of_ne_zero (Nat.pos_iff_ne_zero.mp hpos)
  rw [BitVec.toInt_ofInt]
  rw [Nat.succ_sub_one] at hlo hhi
  have hpow : ((2 ^ (k + 1) : Nat) : Int) = 2 * 2 ^ k := by
    push_cast
    exact pow_succ' 2 k
  exact Int.bmod_eq_of_le_mul_two (by omega) (by omega)

theorem toNat_ofInt_of_range {n : Nat} {v : Int} (hlo : 0 ≤ v) (hhi : v < 2 ^ n) :
    ((BitVec.ofInt n v).toNat : Int) = v := by
  rw [toNat_ofInt_cast]
  exact Int.emod_eq_of_lt hlo hhi

theorem FfiType.bits_le (τ : FfiType) : τ.bits ≤ 64 := by
  cases τ <;> decide

theorem FfiType.bits_pos {τ : FfiType} (h : τ.isInteger = true) : 0 < τ.bits := by
  cases τ <;> first | decide | cases h

theorem FfiType.InRange.extend {τ : FfiType} {v : Int} (hv : τ.InRange v) (hint : τ.isInteger = true) :
    τ.extend (BitVec.ofInt 64 v) = BitVec.ofInt 64 v := by
  unfold FfiType.InRange at hv
  unfold FfiType.extend
  rw [setWidth_ofInt τ.bits_le]
  cases hsigned : τ.isSigned with
  | true =>
    rw [hsigned, if_pos rfl] at hv
    rw [if_pos rfl]
    unfold BitVec.signExtend
    rw [toInt_ofInt_of_range (FfiType.bits_pos hint) hv.1 hv.2]
  | false =>
    rw [hsigned, if_neg (by simp)] at hv
    rw [if_neg (by simp)]
    refine BitVec.eq_of_toNat_eq ?_
    have hcast : (((BitVec.ofInt τ.bits v).setWidth 64).toNat : Int) = (BitVec.ofInt 64 v).toNat := by
      have hpow : (2 : Int) ^ τ.bits ≤ 2 ^ 64 := pow_le_pow_right₀ (by decide) τ.bits_le
      rw [BitVec.toNat_setWidth, Int.natCast_emod, toNat_ofInt_of_range hv.1 hv.2, toNat_ofInt_cast]
      norm_cast
    exact_mod_cast hcast

theorem FfiType.extend_congr {τ : FfiType} {w w' : BitVec 64} (h : w.setWidth τ.bits = w'.setWidth τ.bits) :
    τ.extend w = τ.extend w' := by
  unfold FfiType.extend
  rw [h]

/-! ## One argument and the result -/

theorem truncate_intCast (v : Int) : truncate v = v := by
  unfold truncate
  rw [Rat.num_intCast, Rat.den_intCast]
  exact Int.tdiv_one v

theorem toInt64_intCast {v : Int} (hv : v.natAbs ≤ 2 ^ 53) : toInt64 v = v := by
  unfold toInt64
  rw [truncate_intCast]
  omega

namespace Host

variable {h : Host} {τ : FfiType} {v : Int}

theorem small_of_inRange (hv : τ.InRange v) (hbits : τ.bits = 32) : v.natAbs ≤ 2 ^ 53 := by
  unfold FfiType.InRange at hv
  rw [hbits] at hv
  split at hv <;> omega

/-- The storage has the type that was declared, and the value in its low bits. -/
theorem storeArg_ofInt (hint : τ.isInteger = true) (hv : τ.InRange v) :
    ∃ w, h.storeArg true (some τ) (ofInt v) = (τ, w) ∧ w.setWidth τ.bits = (BitVec.ofInt 64 v).setWidth τ.bits := by
  unfold storeArg
  by_cases h32 : τ = .sint32 ∨ τ = .uint32
  · have hbits : τ.bits = 32 := by
      rcases h32 with rfl | rfl <;> rfl
    have hval : h.jsToInt32 (ofInt v) = BitVec.ofInt 32 v := by
      unfold ofInt
      rw [if_pos (small_of_inRange hv hbits)]
      exact congrArg (BitVec.ofInt 32) (truncate_intCast v)
    refine ⟨(BitVec.ofInt 32 v).setWidth 64, ?_, ?_⟩
    · rw [hval]
      rcases h32 with rfl | rfl <;> rfl
    · rw [hbits, BitVec.setWidth_setWidth_of_le _ (by decide), BitVec.setWidth_eq, setWidth_ofInt (by decide)]
  · refine ⟨BitVec.ofInt 64 v, ?_, rfl⟩
    have hfloat : τ ≠ .float ∧ τ ≠ .double := by
      constructor <;> (rintro rfl; cases hint)
    rw [not_or] at h32
    simp only [Option.some.injEq, hfloat.1, hfloat.2, h32.1, h32.2, if_false]
    by_cases hsmall : v.natAbs ≤ 2 ^ 53
    · have hnumber : ofInt v = .number v := if_pos hsmall
      simp [hnumber, toInt64_intCast hsmall]
    · have hbig : ofInt v = .bigint v := if_neg hsmall
      rw [hbig]
      rfl

theorem makeResult_ofInt {name : String} (hname : ffiResolveType name = τ) (hint : τ.isInteger = true)
    (hv : τ.InRange v) :
    (h.makeResult name τ (BitVec.ofInt 64 v)).toInt? = some v ↔ 0 ≤ v ∨ τ = .sint32 := by
  have hnot : τ ≠ .void ∧ τ ≠ .float ∧ τ ≠ .double := by
    refine ⟨?_, ?_, ?_⟩ <;> (rintro rfl; cases hint)
  have hstring : ¬ (name = "string" ∨ name = "str") := by
    rintro (rfl | rfl)
    · have : τ = .pointer := hname.symm
      rw [this] at hint
      cases hint
    · have : τ = .pointer := hname.symm
      rw [this] at hint
      cases hint
  unfold makeResult
  rw [if_neg hnot.1, if_neg hnot.2.1, if_neg hnot.2.2]
  by_cases hs : τ = .sint32
  · subst hs
    rw [if_pos rfl, setWidth_ofInt (by decide)]
    refine iff_of_true ?_ (.inr rfl)
    exact congrArg some (toInt_ofInt_of_range (by decide) hv.1 hv.2)
  rw [if_neg hs]
  by_cases hu : τ = .uint32
  · subst hu
    rw [if_pos rfl, setWidth_ofInt (by decide)]
    exact iff_of_true (congrArg some (toNat_ofInt_of_range hv.1 hv.2)) (.inl hv.1)
  rw [if_neg hu, if_neg hstring]
  change some ((BitVec.ofInt 64 v).toNat : Int) = some v ↔ _
  rw [Option.some.injEq, toNat_ofInt_cast, or_iff_left hs]
  -- what is not negative is below 2^64
  have hlt : 0 ≤ v → v < 2 ^ 64 := by
    intro hpos
    have hpow : (2 : Int) ^ τ.bits ≤ 2 ^ 64 := pow_le_pow_right₀ (by decide) τ.bits_le
    have hhalf : (2 : Int) ^ (τ.bits - 1) ≤ 2 ^ 64 :=
      pow_le_pow_right₀ (by decide) ((Nat.sub_le _ _).trans τ.bits_le)
    unfold FfiType.InRange at hv
    split at hv <;> omega
  constructor
  · intro heq
    rw [← heq]
    exact Int.emod_nonneg v (by positivity)
  · exact fun hpos => Int.emod_eq_of_lt hpos (hlt hpos)

end Host

/-! ## The call -/

/-- The identity of an integer type gives a value back exactly if the value is not negative or the type is the signed
    one of 32 bits. -/
theorem invoke_identity_iff (h : Host) (addr : Int) (T : String) (v : Int) (haddr : 0x1000 ≤ addr)
    (hint : (ffiResolveType T).isInteger = true) (hv : (ffiResolveType T).InRange v)
    (hid : h.Identity addr (ffiResolveType T)) :
    (h.jsNativeInvoke addr (some (T, [T])) [ofInt v]).toInt? = some v ↔ 0 ≤ v ∨ ffiResolveType T = .sint32 := by
  obtain ⟨w, hstore, hw⟩ := Host.storeArg_ofInt (h := h) hint hv
  have hstored : h.jsNativeInvoke addr (some (T, [T])) [ofInt v] =
      if h.prepCif (ffiResolveType T) [(h.storeArg true (some (ffiResolveType T)) (ofInt v)).1] ≠ 0 then
        .internalError ("invoke(): ffi_prep_cif failed with status " ++
          toString (h.prepCif (ffiResolveType T) [(h.storeArg true (some (ffiResolveType T)) (ofInt v)).1]))
      else h.makeResult T (ffiResolveType T)
        (h.call addr (ffiResolveType T) [h.storeArg true (some (ffiResolveType T)) (ofInt v)]) := by
    unfold Host.jsNativeInvoke
    rw [if_neg (by omega)]
    rfl
  rw [hstored, hstore, if_neg (by simp [hid.prep]), hid.call, FfiType.extend_congr hw, hv.extend hint]
  exact Host.makeResult_ofInt rfl hint hv

/-- Every function is the identity of the type it is called with. -/
def identities : Host where
  prepCif _ _ := 0
  call _ rtype args := (args.head?.map (fun x => rtype.extend x.2)).getD 0
  toFloat _ := 0
  toDouble _ := 0
  toInt32 _ := 0
  keep _ := 0
  stringAt _ := ""

theorem identities_identity (addr : Int) (τ : FfiType) : identities.Identity addr τ := ⟨rfl, fun _ => rfl⟩

theorem invoke_ulong_max :
    (identities.jsNativeInvoke 0x4000 (some ("ulong", ["ulong"])) [ofInt (2 ^ 64 - 1)]).toInt? = some (2 ^ 64 - 1) :=
  (invoke_identity_iff identities 0x4000 "ulong" (2 ^ 64 - 1) (by decide) (by decide) (by decide)
    (identities_identity 0x4000 .uint64)).mpr (.inl (by decide))

/-- Minus one comes back as a large number. -/
theorem invoke_int8_neg :
    (ffiResolveType "int8").InRange (-1) ∧
      identities.jsNativeInvoke 0x4000 (some ("int8", ["int8"])) [ofInt (-1)] = .bigint (2 ^ 64 - 1) ∧
      identities.jsNativeInvoke 0x4000 (some ("int", ["int"])) [ofInt (-1)] = .number (-1) := by
  decide

end ArtPi.Agent.NativeInvoke
