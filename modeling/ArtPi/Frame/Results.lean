import ArtPi.Frame.Original

set_option autoImplicit false

/-! # Where results are put (`src/sandbox/pi_interp_executor.cpp`, `engine/pine/pine_native.cpp`)

A hooked method that has been called through JNI leaves its result in the frame, as `invokeOriginalInternal` puts it
there. Where it has been interpreted instead, `invokeInterpreterInternal` and `invokeTraceInternal` do that, out of the
`jvalue` of the interpreter. They have one body for it: everything goes to `x0`, also what belongs to `d0`, and an `int`
comes without its sign (`places_iff`). -/

namespace ArtPi.Frame

open ArtPi.Lib

/-- What a method returns; an object by its address, and floating-point numbers by their bits. -/
inductive ReturnValue where
  | void
  | boolean (b : Bool)
  | byte (v : BitVec 8)
  | char (v : BitVec 16)
  | short (v : BitVec 16)
  | int (v : BitVec 32)
  | long (v : BitVec 64)
  | float (bits : BitVec 32)
  | double (bits : BitVec 64)
  | object (addr : BitVec 32)

namespace ReturnValue

/-- A narrow value as an `int`, which is how it is in a vreg and what `CallIntMethodA` returns. -/
def toInt32 : ReturnValue → BitVec 32
  | .boolean b => if b then 1 else 0
  | .byte v => v.signExtend 32
  | .char v => v.setWidth 32
  | .short v => v.signExtend 32
  | .int v => v
  | .float bits => bits
  | .void | .long _ | .double _ | .object _ => 0

end ReturnValue

/-- The local reference of an object. -/
def LocalRefs.ofObject (refs : LocalRefs) (addr : BitVec 32) : Nat :=
  if addr = 0 then 0 else refs.addLocalRef addr.toNat

namespace CallFrame

def setX0 (f : CallFrame) (v : UInt64) : CallFrame := { f with r := Function.update f.r 0 v }

def setD0 (f : CallFrame) (bits : UInt64) : CallFrame := { f with d := Function.update f.d 0 bits }

/-- `setResult(jobject)`. -/
def setResult (refs : LocalRefs) (f : CallFrame) (result : Nat) : CallFrame :=
  f.setX0 (UInt64.ofNat (if result = 0 then 0 else refs.decodeJObject result))

/-! ## The original -/

/-- The switch of `invokeOriginalInternal` over the return type, behind the call. -/
def placeOriginal (refs : LocalRefs) (f : CallFrame) : ReturnValue → CallFrame
  | .void => f
  | .int v => f.setX0 (UInt64.ofNat (signExtend 32 v.toNat))
  | .byte v => f.setX0 (UInt64.ofNat (signExtend 32 (ReturnValue.byte v).toInt32.toNat))
  | .char v => f.setX0 (UInt64.ofNat (signExtend 32 (ReturnValue.char v).toInt32.toNat))
  | .short v => f.setX0 (UInt64.ofNat (signExtend 32 (ReturnValue.short v).toInt32.toNat))
  | .boolean b => f.setX0 (if b then 1 else 0)
  | .long v => f.setX0 (UInt64.ofNat v.toNat)
  | .float bits => f.setD0 (UInt64.ofNat (singleToDouble bits.toNat))
  | .double bits => f.setD0 (UInt64.ofNat bits.toNat)
  | .object addr =>
    let res := refs.ofObject addr
    f.setX0 (if res = 0 then 0 else UInt64.ofNat (refs.decodeJObject res))

end CallFrame

/-! ## The interpreter -/

/-- `retval` behind the return instruction, of which the interpreter has held `junk` before. -/
def retval (refs : LocalRefs) (junk : Nat) : ReturnValue → Nat
  | .void => junk
  | .long v => setMember 64 v.toNat junk
  | .double bits => setMember 64 bits.toNat junk
  | .object addr => setMember 64 (refs.ofObject addr) junk
  | v => setMember 32 v.toInt32.toNat junk

/-- The part of `RunResult` that says what was returned. -/
structure RunResult where
  isVoid : Bool := true
  isWide : Bool := false
  isObject : Bool := false
  value : Nat := 0
  objectResult : Nat := 0

/-- `unpackResult`, by the type of the value. -/
def unpackResult (r : RunResult) (rv : Nat) : ReturnValue → RunResult
  | .void => { r with isVoid := true }
  | .long _ => { r with isVoid := false, isWide := true, value := setMember 64 (member 64 rv) r.value }
  | .double _ => { r with isVoid := false, isWide := true, value := setMember 64 (member 64 rv) r.value }
  | .float _ => { r with isVoid := false, value := setMember 32 (member 32 rv) r.value }
  | .object _ => { r with isVoid := false, isObject := true, objectResult := member 64 rv }
  | .boolean _ | .byte _ | .char _ | .short _ | .int _ =>
    { r with isVoid := false, value := setMember 32 (member 32 rv) r.value }

namespace CallFrame

/-- Step 4 of `invokeInterpreterInternal`, by the type of the value. -/
def placeResult (refs : LocalRefs) (f : CallFrame) (res : RunResult) (v : ReturnValue) : CallFrame :=
  if res.isObject then f.setResult refs res.objectResult
  else if !res.isVoid then
    match v with
    | .double _ => f.setX0 (UInt64.ofNat (member 64 res.value))
    | .float _ => f.setX0 (UInt64.ofNat (member 32 res.value))
    | _ => f.setX0 (UInt64.ofNat (member 64 res.value))
  else f

/-- The result of a run that returns normally, unpacked and placed. -/
def placeReturned (refs : LocalRefs) (f : CallFrame) (junk : Nat) (v : ReturnValue) : CallFrame :=
  f.placeResult refs (unpackResult {} (retval refs junk v) v) v

/-- The end of `invokeInterpreterInternal`. -/
def placeInterpreted (refs : LocalRefs) (f : CallFrame) (junk : Nat) (v : ReturnValue) : CallFrame :=
  f.placeReturned refs junk v

/-- The end of `invokeTraceInternal`. -/
def placeTraced (refs : LocalRefs) (f : CallFrame) (junk : Nat) (v : ReturnValue) : CallFrame :=
  f.placeReturned refs junk v

/-- The bits in the result location: `d0` for floating-point values, `x0` for the others; there is none for `void`. -/
def resultBits (f : CallFrame) : ReturnValue → Option UInt64
  | .void => none
  | .float _ | .double _ => some (f.d 0)
  | _ => some (f.r 0)

/-! ## The comparison -/

/-- A `byte`, `short` or `int` is not negative; and the bits of a `float` or `double` are in `d0` already, those of a
`float` in double precision. -/
def ResultKept (f : CallFrame) : ReturnValue → Prop
  | .byte v => v.msb = false
  | .short v => v.msb = false
  | .int v => v.msb = false
  | .float bits => (f.d 0).toNat = singleToDouble bits.toNat
  | .double bits => (f.d 0).toNat = bits.toNat
  | .void | .boolean _ | .char _ | .long _ | .object _ => True

theorem setX0_r (f : CallFrame) (v : UInt64) : (f.setX0 v).r 0 = v := by
  simp [setX0]

theorem setD0_d (f : CallFrame) (bits : UInt64) : (f.setD0 bits).d 0 = bits := by
  simp [setD0]

theorem setX0_d (f : CallFrame) (v : UInt64) : (f.setX0 v).d = f.d := rfl

/-- A 32-bit value goes through the `jvalue`s and loses what was above it. -/
theorem narrow_value (v : BitVec 32) (junk : Nat) :
    member 64 (setMember 32 (member 32 (setMember 32 v.toNat junk)) 0) = v.toNat := by
  have hv := v.isLt
  rw [member_setMember (Nat.le_refl 32), Nat.mod_eq_of_lt hv]
  unfold member setMember
  rw [Nat.mod_eq_of_lt hv, Nat.zero_div, Nat.zero_mul, Nat.zero_add]
  exact Nat.mod_eq_of_lt (Nat.lt_trans hv (by decide))

theorem wide_value (v : BitVec 64) (junk : Nat) :
    member 64 (setMember 64 (member 64 (setMember 64 v.toNat junk)) 0) = v.toNat := by
  rw [member_setMember (Nat.le_refl 64), member_setMember (Nat.le_refl 64), Nat.mod_mod, Nat.mod_eq_of_lt v.isLt]

/-- The sign is the difference between the two ways to make 64 bits of 32. -/
theorem ofNat_signExtend_iff (v : BitVec 32) :
    UInt64.ofNat v.toNat = UInt64.ofNat (signExtend 32 v.toNat) ↔ v.msb = false := by
  have hv := v.isLt
  have hext : signExtend 32 v.toNat < 2 ^ 64 := by
    unfold signExtend
    split <;> omega
  rw [← UInt64.toNat_inj, UInt64.toNat_ofNat', UInt64.toNat_ofNat', Nat.mod_eq_of_lt hext,
    Nat.mod_eq_of_lt (Nat.lt_trans hv (by decide)), ← Bool.not_eq_true, BitVec.msb_eq_true_iff_two_mul_ge]
  unfold signExtend
  split <;> omega

theorem decode_ofObject (refs : LocalRefs) (addr : BitVec 32) :
    (if refs.ofObject addr = 0 then 0 else refs.decodeJObject (refs.ofObject addr)) = addr.toNat := by
  unfold LocalRefs.ofObject
  by_cases hnull : addr = 0
  · subst hnull
    rfl
  · have hpos : 0 < addr.toNat := Nat.pos_of_ne_zero (fun h => hnull (BitVec.toNat_inj.1 h))
    have hdecode := refs.decode_add addr.toNat hpos addr.isLt
    rw [if_neg hnull, hdecode]
    refine if_neg (fun hzero => ?_)
    rw [hzero, refs.decode_null] at hdecode
    omega

/-- What the interpreter leaves in `x0`. -/
theorem placeReturned_eq (refs : LocalRefs) (f : CallFrame) (junk : Nat) (v : ReturnValue) :
    f.placeReturned refs junk v =
      match v with
      | .void => f
      | .long v => f.setX0 (UInt64.ofNat v.toNat)
      | .double bits => f.setX0 (UInt64.ofNat bits.toNat)
      | .object addr => f.setX0 (UInt64.ofNat addr.toNat)
      | v => f.setX0 (UInt64.ofNat v.toInt32.toNat) := by
  cases v with
  | void => rfl
  | long v => exact congrArg (fun n => f.setX0 (UInt64.ofNat n)) (wide_value v junk)
  | double bits => exact congrArg (fun n => f.setX0 (UInt64.ofNat n)) (wide_value bits junk)
  | float bits =>
    have hbits : member 32 (setMember 32 (member 32 (setMember 32 bits.toNat junk)) 0) = bits.toNat := by
      rw [member_setMember (Nat.le_refl 32), member_setMember (Nat.le_refl 32), Nat.mod_mod,
        Nat.mod_eq_of_lt bits.isLt]
    exact congrArg (fun n => f.setX0 (UInt64.ofNat n)) hbits
  | object addr =>
    have hlt : refs.ofObject addr < 2 ^ 64 := by
      unfold LocalRefs.ofObject
      split
      · decide
      · exact refs.add_lt _
    show f.setResult refs (member 64 (setMember 64 (refs.ofObject addr) junk)) = _
    rw [member_setMember (Nat.le_refl 64), Nat.mod_eq_of_lt hlt]
    unfold setResult
    rw [decode_ofObject]
  | boolean b =>
    exact congrArg (fun n => f.setX0 (UInt64.ofNat n)) (narrow_value (ReturnValue.boolean b).toInt32 junk)
  | byte v => exact congrArg (fun n => f.setX0 (UInt64.ofNat n)) (narrow_value (ReturnValue.byte v).toInt32 junk)
  | char v => exact congrArg (fun n => f.setX0 (UInt64.ofNat n)) (narrow_value (ReturnValue.char v).toInt32 junk)
  | short v => exact congrArg (fun n => f.setX0 (UInt64.ofNat n)) (narrow_value (ReturnValue.short v).toInt32 junk)
  | int v => exact congrArg (fun n => f.setX0 (UInt64.ofNat n)) (narrow_value v junk)

theorem msb_signExtend {n : Nat} (hle : n ≤ 32) (v : BitVec n) : (v.signExtend 32).msb = v.msb := by
  rw [BitVec.msb_eq_toInt, BitVec.msb_eq_toInt, BitVec.toInt_signExtend_of_le hle]

theorem msb_setWidth (v : BitVec 16) : (v.setWidth 32).msb = false := by
  have hv := v.isLt
  rw [← Bool.not_eq_true, BitVec.msb_eq_true_iff_two_mul_ge, BitVec.toNat_setWidth]
  omega

/-- Interpreted and called, an `int` is in `x0`, with its sign or without. -/
theorem x0_narrow_iff (f : CallFrame) (n : BitVec 32) :
    some ((f.setX0 (UInt64.ofNat n.toNat)).r 0) = some ((f.setX0 (UInt64.ofNat (signExtend 32 n.toNat))).r 0) ↔
      n.msb = false := by
  rw [Option.some_inj, setX0_r, setX0_r]
  exact ofNat_signExtend_iff n

theorem d0_iff (f : CallFrame) (v : UInt64) {bits : Nat} (hbits : bits < 2 ^ 64) :
    some ((f.setX0 v).d 0) = some ((f.setD0 (UInt64.ofNat bits)).d 0) ↔ (f.d 0).toNat = bits := by
  rw [Option.some_inj, setX0_d, setD0_d, ← UInt64.toNat_inj, UInt64.toNat_ofNat', Nat.mod_eq_of_lt hbits]

theorem placeReturned_iff (refs refs' : LocalRefs) (f : CallFrame) (junk : Nat) (v : ReturnValue) :
    (f.placeReturned refs junk v).resultBits v = (f.placeOriginal refs' v).resultBits v ↔ f.ResultKept v := by
  rw [placeReturned_eq]
  cases v with
  | void => exact iff_of_true rfl trivial
  | boolean b => exact iff_of_true (by cases b <;> rfl) trivial
  | byte v =>
    show _ ↔ v.msb = false
    rw [← msb_signExtend (by decide) v]
    exact f.x0_narrow_iff (v.signExtend 32)
  | char v => exact iff_of_true ((f.x0_narrow_iff (v.setWidth 32)).2 (msb_setWidth v)) trivial
  | short v =>
    show _ ↔ v.msb = false
    rw [← msb_signExtend (by decide) v]
    exact f.x0_narrow_iff (v.signExtend 32)
  | int v => exact f.x0_narrow_iff v
  | long v => exact iff_of_true rfl trivial
  | float bits => exact f.d0_iff _ (singleToDouble_lt _)
  | double bits => exact f.d0_iff _ bits.isLt
  | object addr =>
    have horiginal : f.placeOriginal refs' (.object addr) = f.setX0 (UInt64.ofNat addr.toNat) := by
      show f.setX0 (if refs'.ofObject addr = 0 then 0 else UInt64.ofNat (refs'.decodeJObject (refs'.ofObject addr))) =
        f.setX0 (UInt64.ofNat addr.toNat)
      rw [← decode_ofObject refs' addr]
      split <;> rfl
    rw [horiginal]
    exact iff_of_true rfl trivial

/-- Both ways to interpret a method leave the bits that a call of the original leaves if and only if the result is not
a negative `int`, `short` or `byte`, and not a `float` or `double` that `d0` does not hold already. -/
theorem places_iff (refs refs' : LocalRefs) (f : CallFrame) (junk : Nat) (v : ReturnValue) :
    ((f.placeInterpreted refs junk v).resultBits v = (f.placeOriginal refs' v).resultBits v ↔ f.ResultKept v) ∧
    ((f.placeTraced refs junk v).resultBits v = (f.placeOriginal refs' v).resultBits v ↔ f.ResultKept v) :=
  ⟨f.placeReturned_iff refs refs' junk v, f.placeReturned_iff refs refs' junk v⟩

/-- -1 comes as `0xFFFFFFFF`, and `1.0` does not come to `d0`. -/
theorem places_differ :
    (oneFloat.placeInterpreted plainRefs 0 (.int (-1))).resultBits (.int (-1)) ≠
      (oneFloat.placeOriginal plainRefs (.int (-1))).resultBits (.int (-1)) ∧
    (oneFloat.placeTraced plainRefs 0 (.double 0x3FF0000000000000)).resultBits (.double 0x3FF0000000000000) ≠
      (oneFloat.placeOriginal plainRefs (.double 0x3FF0000000000000)).resultBits (.double 0x3FF0000000000000) := by
  decide

end CallFrame

end ArtPi.Frame
