import ArtPi.Agent.Boxing
import ArtPi.Agent.Convert
import ArtPi.Jni.Bridge
import ArtPi.Lib.Arm64

set_option autoImplicit false

/-! # Native methods in JavaScript (`agent_java_registerclass.cpp`, `native_thunk_arm64.S`)

The stub of a method leads to `artpi_native_thunk_entry`, which saves the argument registers, has
`ArtpiNativeDispatch` read them and write the result in their place, and reloads `x0` and `d0`. Every register is
read as if the caller had extended the value in it, a reference is converted by `JavaObjectToJsValue`, which has the
value of a `Long` as a `double` in between, and a result that cannot be converted is taken as zero or `NaN`. -/

namespace ArtPi.Agent.NativeDispatch

open Lib.Aapcs Jni.Bridge Dex Agent.Convert

/-! ## The dispatcher -/

/-- An object, by the class that `JavaObjectToJsValue` looks at: a wrapper of an integer, a `Float` or `Double` with its
    `doubleValue`, a string with what `GetStringUTFChars` gives for it, or any other. -/
inductive JavaObject where
  | boxed (b : Boxing.Boxed)
  | floating (bits : UInt64)
  | string (units : List UInt16) (chars : Option (List UInt8))
  | other

/-- The objects that references lead to, and what QuickJS and the processor make of their values. -/
structure Objects where
  objectAt : UInt64 → JavaObject
  /-- `JS_NewString` -/
  newString : List UInt8 → List UInt16
  /-- `(int64_t)` of 2^63 -/
  overflow : Int64

/-- What a function of JavaScript is given: a `float` and a `double` by their bits, a string by its units, and a handle
    by its object. -/
inductive JsArg where
  | null
  | string (units : List UInt16)
  | bool (b : Bool)
  | int32 (i : Int32)
  | bigInt64 (i : Int64)
  | float (bits : UInt32)
  | double (bits : UInt64)
  | object (o : UInt64)
  deriving DecidableEq

/-- `NativeBinding`: `impl` is `none` where it is undefined, and a call is where it throws. -/
structure NativeBinding (V : Type) where
  retType : List Char
  argTypes : List (List Char)
  impl : Option (List JsArg → Option V)

def jsArg : Boxing.JsValue → JsArg
  | .null => .null
  | .bool b => .bool b
  | .int32 i => .int32 i
  | .bigInt i => .bigInt64 i

section

variable (ob : Objects)

def javaObjectToJsValue (obj : UInt64) : JsArg :=
  if obj = 0 then .null
  else
    match ob.objectAt obj with
    | .string _ chars => .string (ob.newString (chars.getD []))
    | .boxed b => jsArg (Boxing.javaObjectToJsValue ob.overflow b)
    | .floating d => .double d
    | .other => .object obj

/-- What the dispatcher makes of the word of a register, by the first character of the type. -/
def argOf (c : Char) (w : UInt64) : JsArg :=
  if c = 'L' ∨ c = '[' then javaObjectToJsValue ob w
  else if c = 'J' then .bigInt64 w.toInt64
  else if c = 'Z' then .bool (w ≠ 0)
  else if c = 'F' then .float w.toUInt32
  else if c = 'D' then .double w
  else .int32 w.toUInt32.toInt32

/-- The loop over the parameters: `none` where a file of registers has no more. -/
def readArgs (frame : Regs) : Nat → Nat → List (List Char) → Option (List JsArg)
  | _, _, [] => some []
  | xi, di, d :: rest =>
    let c := d.headD 'I'
    if IsFp c then
      if 8 ≤ di then none else (readArgs frame xi (di + 1) rest).map (argOf ob c (frame.v di) :: ·)
    else if 8 ≤ xi then none
    else (readArgs frame (xi + 1) di rest).map (argOf ob c (frame.x xi) :: ·)

end

/-- Whether the function is called and with what, the words of `x0` and `d0`, and whether an exception is thrown. -/
structure Outcome where
  called : Option (List JsArg)
  x0 : UInt64
  d0 : UInt64
  pending : Bool
  deriving DecidableEq

/-- `DescriptorToTypeName` for a reference type. -/
def descriptorToTypeName (desc : List Char) : String :=
  if desc.head? = some 'L' ∧ desc.getLast? = some ';' then
    String.ofList (desc.tail.dropLast.map fun c => if c = '/' then '.' else c)
  else String.ofList desc

variable {V : Type} (sc : Scripting V)

/-- The end of the dispatcher: the result that the function has returned. -/
def writeResult (retType : List Char) (args : List JsArg) (ret : V) : Outcome :=
  let rc := retType.headD 'V'
  if rc = 'Z' then ⟨args, if sc.toBool ret then 1 else 0, 0, false⟩
  else if rc = 'B' ∨ rc = 'C' ∨ rc = 'S' ∨ rc = 'I' then ⟨args, (sc.int32 ret).toUInt32.toUInt64, 0, false⟩
  else if rc = 'J' then ⟨args, (sc.int64 ret).toUInt64, 0, false⟩
  else if rc = 'F' then ⟨args, 0, (sc.toFloat (sc.float64 ret)).toUInt64, false⟩
  else if rc = 'D' then ⟨args, 0, sc.float64 ret, false⟩
  else if rc = 'L' ∨ rc = '[' then
    match jsValueToJavaObject sc ret (descriptorToTypeName retType) with
    | some o => ⟨args, o.val, 0, false⟩
    | none => ⟨args, 0, 0, !sc.isNullish ret⟩
  else ⟨args, 0, 0, false⟩

def artpiNativeDispatch (ob : Objects) (hasCtx : Bool) (bindings : Int32 → Option (NativeBinding V)) (slot : Int32)
    (frame : Regs) : Outcome :=
  if frame.x 0 = 0 then ⟨none, 0, frame.v 0, false⟩
  else
    match bindings slot with
    | none => ⟨none, 0, 0, false⟩
    | some binding =>
      match binding.impl with
      | none => ⟨none, 0, 0, false⟩
      | some impl =>
        if !hasCtx then ⟨none, 0, 0, false⟩
        else
          match readArgs ob frame 2 0 binding.argTypes with
          | none => ⟨none, 0, 0, true⟩
          | some args =>
            match impl args with
            | none => ⟨args, 0, 0, true⟩
            | some ret => writeResult sc binding.retType args ret

/-! ## What was passed -/

/-- The value of a wrapper. -/
def boxedValue : Boxing.Boxed → JsArg
  | .boolean b => .bool b
  | .byte v => .int32 v.toInt32
  | .short v => .int32 v.toInt32
  | .character v => .int32 v.toUInt32.toInt32
  | .integer v => .int32 v
  | .long v => .bigInt64 v

section

variable (ob : Objects)

/-- The value of a reference: `null`, the value of a wrapper, the units of a string, or the object. -/
def passedObject (a : UInt64) : JsArg :=
  if a = 0 then .null
  else
    match ob.objectAt a with
    | .string units _ => .string units
    | .boxed b => boxedValue b
    | .floating d => .double d
    | .other => .object a

/-- The value of an argument, of which the caller has set the bits of its type. -/
def passed (c : Char) (a : UInt64) : JsArg :=
  if c = 'L' then passedObject ob a
  else if c = 'J' then .bigInt64 a.toInt64
  else if c = 'Z' then .bool (a.toUInt8 ≠ 0)
  else if c = 'F' then .float a.toUInt32
  else if c = 'D' then .double a
  else if c = 'B' then .int32 a.toUInt8.toInt8.toInt32
  else if c = 'S' then .int32 a.toUInt16.toInt16.toInt32
  else if c = 'C' then .int32 a.toUInt16.toUInt32.toInt32
  else .int32 a.toUInt32.toInt32

/-- The register holds its value extended: no bit of a `boolean` but the low ones, and 32 bits of the others. -/
def Extended (c : Char) (w : UInt64) : Prop :=
  (c = 'Z' → w.toUInt8 = 0 → w = 0) ∧
  (c = 'B' → w.toUInt32.toInt32 = w.toUInt8.toInt8.toInt32) ∧
  (c = 'S' → w.toUInt32.toInt32 = w.toUInt16.toInt16.toInt32) ∧
  (c = 'C' → w.toUInt32.toInt32 = w.toUInt16.toUInt32.toInt32)

/-- The value of the object is not lost on the way: QuickJS reads a string as it is, and a `Long` survives as a
    `double`. -/
def Kept (w : UInt64) : Prop :=
  w ≠ 0 →
    match ob.objectAt w with
    | .string units chars => ob.newString (chars.getD []) = units
    | .boxed b => Boxing.Survives ob.overflow b
    | .floating _ | .other => True

/-- What the register holds is what the dispatcher takes it for. -/
def Clear (c : Char) (w : UInt64) : Prop := Extended c w ∧ (c = 'L' → Kept ob w)

/-- The value of a wrapper is converted to itself, but for a `Long` that does not survive. -/
theorem jsArg_boxed_iff (overflow : Int64) (b : Boxing.Boxed) :
    jsArg (Boxing.javaObjectToJsValue overflow b) = boxedValue b ↔ Boxing.Survives overflow b := by
  have hintegral : ∀ b : Boxing.Boxed, Int32.ofInt (Boxing.callNum b 'I') = b.intValue := fun b => by
    rw [Boxing.callNum_integral, Int32.ofInt_toInt]
  cases b with
  | boolean b => cases b <;> exact iff_of_true rfl trivial
  | byte v => exact iff_of_true (congrArg JsArg.int32 (hintegral (.byte v))) trivial
  | short v => exact iff_of_true (congrArg JsArg.int32 (hintegral (.short v))) trivial
  | integer v => exact iff_of_true (congrArg JsArg.int32 (hintegral (.integer v))) trivial
  | character v =>
    have hchar : Int32.ofInt (Boxing.callNum (.character v) 'C') = v.toUInt32.toInt32 := by
      have hwide : UInt32.ofNat v.toNat = v.toUInt32 := UInt32.toNat_inj.1 (by simp)
      rw [Boxing.callNum_char, Int32.ofInt_eq_ofNat, ← hwide]
      rfl
    exact iff_of_true (congrArg JsArg.int32 hchar) trivial
  | long v =>
    rw [← Boxing.castInt64_eq_iff]
    exact Iff.of_eq (JsArg.bigInt64.injEq _ v)

/-- The conversion is right just for the objects that it keeps. -/
theorem javaObjectToJsValue_eq_iff (w : UInt64) : javaObjectToJsValue ob w = passedObject ob w ↔ Kept ob w := by
  unfold javaObjectToJsValue passedObject Kept
  by_cases hnull : w = 0
  · simp [hnull]
  · rw [if_neg hnull, if_neg hnull]
    simp only [ne_eq, hnull, not_false_eq_true, forall_const]
    cases ob.objectAt w with
    | string units chars => simp
    | floating d => simp
    | other => simp
    | boxed b => exact jsArg_boxed_iff ob.overflow b

/-- Narrow values only depend on the bits that the caller has set. -/
theorem passed_congr {c : Char} (hc : c ∈ kinds) {w a : UInt64} (h : Agree (param c).width w a) :
    passed ob c w = passed ob c a := by
  have h8 (h : w.toNat % 2 ^ 8 = a.toNat % 2 ^ 8) : w.toUInt8 = a.toUInt8 := by
    rw [← UInt8.toNat_inj, UInt64.toNat_toUInt8, UInt64.toNat_toUInt8, h]
  have h16 (h : w.toNat % 2 ^ 16 = a.toNat % 2 ^ 16) : w.toUInt16 = a.toUInt16 := by
    rw [← UInt16.toNat_inj, UInt64.toNat_toUInt16, UInt64.toNat_toUInt16, h]
  have h32 (h : w.toNat % 2 ^ 32 = a.toNat % 2 ^ 32) : w.toUInt32 = a.toUInt32 := by
    rw [← UInt32.toNat_inj, UInt64.toNat_toUInt32, UInt64.toNat_toUInt32, h]
  have h64 (h : w.toNat % 2 ^ 64 = a.toNat % 2 ^ 64) : w = a := by
    rw [Nat.mod_eq_of_lt w.toNat_lt, Nat.mod_eq_of_lt a.toNat_lt] at h
    exact UInt64.toNat_inj.1 h
  simp only [kinds, List.mem_cons, List.not_mem_nil, or_false] at hc
  rcases hc with rfl | rfl | rfl | rfl | rfl | rfl | rfl | rfl | rfl
  · simp [passed, h8 h]
  · simp [passed, h8 h]
  · simp [passed, h16 h]
  · simp [passed, h16 h]
  · simp [passed, h32 h]
  · simp [passed, h64 h]
  · simp [passed, h32 h]
  · simp [passed, h64 h]
  · rw [h64 h]

/-- The dispatcher reads what was passed just from a register that is clear. -/
theorem argOf_eq_passed_iff {c : Char} (hc : c ∈ kinds) (w : UInt64) :
    argOf ob c w = passed ob c w ↔ Clear ob c w := by
  simp only [kinds, List.mem_cons, List.not_mem_nil, or_false] at hc
  rcases hc with rfl | rfl | rfl | rfl | rfl | rfl | rfl | rfl | rfl
  · have hzero : w = 0 → w.toUInt8 = 0 := by
      rintro rfl
      rfl
    simp only [argOf, passed, Clear, Extended, Char.reduceEq, if_false, if_true, or_self, JsArg.bool.injEq,
      decide_eq_decide, forall_const, false_imp_iff, and_true, not_iff_not]
    exact ⟨fun h => h.2, fun h => ⟨hzero, h⟩⟩
  all_goals simp [argOf, passed, Clear, Extended, javaObjectToJsValue_eq_iff]

theorem isFp_headD {t : List Char} (ht : FieldType t) : IsFp (t.headD 'I') ↔ IsFp (kindOf t) := by
  cases ht with
  | @primitive c hc =>
    rw [kindOf_primitive hc]
    rfl
  | object => exact Iff.rfl
  | array => exact iff_of_false (show ¬ IsFp '[' by decide) (show ¬ IsFp 'L' by decide)

theorem argOf_headD {t : List Char} (ht : FieldType t) (w : UInt64) : argOf ob (t.headD 'I') w = argOf ob (kindOf t) w := by
  cases ht with
  | @primitive c hc =>
    rw [kindOf_primitive hc]
    rfl
  | object => rfl
  | array => rfl

/-- The registers of the parameters are clear. -/
def AllClear (frame : Regs) : Nat → Nat → List (List Char) → Prop
  | _, _, [] => True
  | xi, di, t :: rest =>
    if IsFp (kindOf t) then AllClear frame xi (di + 1) rest
    else Clear ob (kindOf t) (frame.x xi) ∧ AllClear frame (xi + 1) di rest

/-- The arguments that were passed. -/
def passedArgs (params : List (List Char)) (args : List UInt64) : List JsArg :=
  List.zipWith (passed ob) (params.map kindOf) args

/-- The loop refuses just a signature with parameters on the stack. -/
theorem readArgs_eq_none_iff {params : List (List Char)} (hparams : ∀ t ∈ params, FieldType t) {frame : Regs}
    {xi di : Nat} (hxi : xi ≤ 8) (hdi : di ≤ 8) :
    readArgs ob frame xi di params = none ↔ 8 < xi + generalParams params ∨ 8 < di + floatingParams params := by
  induction params generalizing xi di with
  | nil => simp [readArgs, generalParams, floatingParams, hxi, hdi]
  | cons t params ih =>
    obtain ⟨ht, hparams⟩ := List.forall_mem_cons.1 hparams
    rw [readArgs, generalParams_cons, floatingParams_cons]
    simp only [isFp_headD ht]
    by_cases hfp : IsFp (kindOf t)
    · rw [if_pos hfp, if_pos hfp, if_pos hfp]
      by_cases hfull : 8 ≤ di
      · rw [if_pos hfull]
        exact iff_of_true rfl (.inr (by omega))
      · rw [if_neg hfull, Option.map_eq_none_iff, ih hparams hxi (by omega)]
        omega
    · rw [if_neg hfp, if_neg hfp, if_neg hfp]
      by_cases hfull : 8 ≤ xi
      · rw [if_pos hfull]
        exact iff_of_true rfl (.inl (by omega))
      · rw [if_neg hfull, Option.map_eq_none_iff, ih hparams (by omega) hdi]
        omega

/-- What the loop reads is what was passed just from registers that are clear. -/
theorem readArgs_eq_passed_iff {params : List (List Char)} (hparams : ∀ t ∈ params, FieldType t) {frame : Regs}
    {args : List UInt64} (hargs : args.length = params.length) {xi di : Nat}
    (hplaced : frame.Placed xi di (typed (params.map kindOf) args)) {l : List JsArg}
    (h : readArgs ob frame xi di params = some l) :
    l = passedArgs ob params args ↔ AllClear ob frame xi di params := by
  induction params generalizing args xi di l with
  | nil =>
    cases h
    exact iff_of_true rfl trivial
  | cons t params ih =>
    obtain ⟨ht, hparams⟩ := List.forall_mem_cons.1 hparams
    cases args with
    | nil => cases hargs
    | cons a args =>
      have hargs : args.length = params.length := Nat.succ_inj.1 hargs
      have htyped : typed ((t :: params).map kindOf) (a :: args) =
        (param (kindOf t), a) :: typed (params.map kindOf) args := rfl
      have hpassed : passedArgs ob (t :: params) (a :: args) =
        passed ob (kindOf t) a :: passedArgs ob params args := rfl
      obtain ⟨hgen, hflo⟩ := hplaced
      rw [htyped] at hgen hflo
      rw [readArgs] at h
      simp only [isFp_headD ht, argOf_headD ob ht] at h
      rw [AllClear, hpassed]
      by_cases hfp : IsFp (kindOf t)
      · rw [general_cons_fp (isFp_param.2 hfp)] at hgen
        rw [floating_cons_fp (isFp_param.2 hfp)] at hflo
        obtain ⟨hdi, hagree, hflo⟩ := hflo
        rw [if_pos hfp, if_neg (Nat.not_le.2 hdi)] at h
        obtain ⟨l, hl, rfl⟩ := Option.map_eq_some_iff.1 h
        have hhead : argOf ob (kindOf t) (frame.v di) = passed ob (kindOf t) a := by
          rw [← passed_congr ob (kindOf_mem_kinds ht) hagree, argOf_eq_passed_iff ob (kindOf_mem_kinds ht)]
          rcases hfp with hD | hF
          · simp [Clear, Extended, hD]
          · simp [Clear, Extended, hF]
        rw [if_pos hfp, List.cons_eq_cons, and_iff_right hhead]
        exact ih hparams hargs ⟨hgen, hflo⟩ hl
      · rw [general_cons_gp (isFp_param_false.2 hfp)] at hgen
        rw [floating_cons_gp (isFp_param_false.2 hfp)] at hflo
        obtain ⟨hxi, hagree, hgen⟩ := hgen
        rw [if_neg hfp, if_neg (Nat.not_le.2 hxi)] at h
        obtain ⟨l, hl, rfl⟩ := Option.map_eq_some_iff.1 h
        rw [if_neg hfp, List.cons_eq_cons, ← passed_congr ob (kindOf_mem_kinds ht) hagree,
          argOf_eq_passed_iff ob (kindOf_mem_kinds ht)]
        exact and_congr_right fun _ => ih hparams hargs ⟨hgen, hflo⟩ hl

end

/-! ## The result -/

/-- The word of the register that the return type uses is the result of the function, converted to the type. -/
def Result (retType : List Char) (ret : V) (x0 d0 : UInt64) : Prop :=
  let rc := retType.headD 'V'
  if rc = 'Z' then Agree 8 x0 (if sc.toBool ret then 1 else 0)
  else if rc = 'B' ∨ rc = 'C' ∨ rc = 'S' ∨ rc = 'I' then
    ∃ i, sc.toInt32 ret = some i ∧ Agree (param rc).width x0 i.toUInt32.toUInt64
  else if rc = 'J' then
    if sc.isBigInt ret then x0 = (sc.toBigInt64 ret).toUInt64 else ∃ i, sc.toInt64 ret = some i ∧ x0 = i.toUInt64
  else if rc = 'F' then ∃ d, sc.toFloat64 ret = some d ∧ Agree 32 d0 (sc.toFloat d).toUInt64
  else if rc = 'D' then ∃ d, sc.toFloat64 ret = some d ∧ d0 = d
  else if rc = 'L' ∨ rc = '[' then
    (sc.isNullish ret = true ∧ x0 = 0) ∨
      ∃ o : Ref, ObjectOf sc (descriptorToTypeName retType) ret o ∧ x0 = o.val
  else True

/-- The result can be converted: the conversion to a primitive type or to that of a wrapper does not throw, and an
    object is an instance. -/
def Convertible (retType : List Char) (ret : V) : Prop :=
  sc.Converts (retType.headD 'V') ret ∧
    (retType.headD 'V' = 'L' ∨ retType.headD 'V' = '[' →
      ∀ o, jsValueToJavaObject sc ret (descriptorToTypeName retType) = some o →
        sc.instanceOf o (descriptorToTypeName retType) = true ∧ Boxes sc (descriptorToTypeName retType) ret)

/-- How a call of the function ends: with its result, or with zero and an exception. -/
def Ends (retType : List Char) (ret : V) (o : Outcome) : Prop :=
  (o.pending = true ∧ o.x0 = 0 ∧ o.d0 = 0) ∨ (o.pending = false ∧ Result sc retType ret o.x0 o.d0)

theorem ends_writeResult (retType : List Char) (args : List JsArg) (ret : V) :
    Ends sc retType ret (writeResult sc retType args ret) ↔ Convertible sc retType ret := by
  unfold Ends Convertible writeResult Result Scripting.Converts
  generalize retType.headD 'V' = rc
  by_cases hZ : rc = 'Z'
  · subst hZ
    simp [Agree]
  by_cases hI : rc = 'B' ∨ rc = 'C' ∨ rc = 'S' ∨ rc = 'I'
  · have hL : ¬ (rc = 'L' ∨ rc = '[') := by rcases hI with rfl | rfl | rfl | rfl <;> decide
    simp only [hZ, hI, hL, if_false, if_true, false_imp_iff, and_true, Bool.false_eq_true, false_and, false_or,
      true_and, Scripting.int32]
    cases sc.toInt32 ret with
    | none => simp
    | some i => simp [Agree]
  by_cases hJ : rc = 'J'
  · subst hJ
    simp only [Char.reduceEq, or_self, if_false, if_true, false_imp_iff, and_true, Bool.false_eq_true, false_and,
      false_or, true_and, Scripting.int64]
    cases sc.isBigInt ret with
    | true => simp
    | false => cases sc.toInt64 ret <;> simp
  by_cases hF : rc = 'F'
  · subst hF
    simp only [Char.reduceEq, or_self, if_false, if_true, false_imp_iff, and_true, Bool.false_eq_true, false_and,
      false_or, true_and, Scripting.float64, true_or]
    cases sc.toFloat64 ret with
    | none => simp
    | some d => simp [Agree]
  by_cases hD : rc = 'D'
  · subst hD
    simp only [Char.reduceEq, or_self, if_false, if_true, false_imp_iff, and_true, Bool.false_eq_true, false_and,
      false_or, true_and, Scripting.float64, or_true]
    cases sc.toFloat64 ret <;> simp
  by_cases hL : rc = 'L' ∨ rc = '['
  · simp only [hZ, hI, hJ, hF, hD, hL, or_self, if_false, if_true, true_and, true_imp_iff]
    cases hobj : jsValueToJavaObject sc ret (descriptorToTypeName retType) with
    | none => cases hnull : sc.isNullish ret <;> simp
    | some o =>
      have hnull : sc.isNullish ret = false := by
        by_contra hnull
        rw [Bool.not_eq_false] at hnull
        rw [jsValueToJavaObject, if_pos hnull] at hobj
        cases hobj
      simp [hnull, objectOf_iff sc hobj, o.property]
  · simp [hZ, hI, hJ, hF, hD, hL]

/-! ## The whole dispatch -/

variable (ob : Objects)

/-- What a call of a native method is to do. With room in the registers for its parameters it calls the function with
    what was passed, otherwise it throws and does not; and it ends with the function's result, or with zero and an
    exception. -/
structure Right (sig : Signature) (args : List UInt64) (impl : List JsArg → Option V) (o : Outcome) : Prop where
  called : generalParams sig.params ≤ 6 → floatingParams sig.params ≤ 8 →
    o.called = some (passedArgs ob sig.params args)
  refused : 6 < generalParams sig.params ∨ 8 < floatingParams sig.params → o.called = none ∧ o.pending = true
  ends : (o.pending = true ∧ o.x0 = 0 ∧ o.d0 = 0) ∨
    ∃ ret, impl (passedArgs ob sig.params args) = some ret ∧ Ends sc sig.ret ret o

/-- What has to hold for it: there is a context, and if the parameters are in registers these are clear, and the
    function has a result that can be converted. -/
structure Good (hasCtx : Bool) (sig : Signature) (args : List UInt64) (impl : List JsArg → Option V) (frame : Regs) :
    Prop where
  ctx : hasCtx = true
  clear : generalParams sig.params ≤ 6 → floatingParams sig.params ≤ 8 → AllClear ob frame 2 0 sig.params
  convertible : generalParams sig.params ≤ 6 → floatingParams sig.params ≤ 8 →
    ∀ ret, impl (passedArgs ob sig.params args) = some ret → Convertible sc sig.ret ret

@[simp] theorem called_writeResult (retType : List Char) (args : List JsArg) (ret : V) :
    (writeResult sc retType args ret).called = some args := by
  rw [writeResult]
  by_cases hobject : retType.headD 'V' = 'L' ∨ retType.headD 'V' = '['
  · cases jsValueToJavaObject sc ret (descriptorToTypeName retType) with
    | none => split_ifs <;> rfl
    | some o => split_ifs <;> rfl
  · rw [if_neg hobject]
    split_ifs <;> rfl

/-- What the dispatch comes to when the arguments are read. -/
theorem called_outcome (retType : List Char) (impl : List JsArg → Option V) (l : List JsArg) :
    (match impl l with
      | none => (⟨l, 0, 0, true⟩ : Outcome)
      | some ret => writeResult sc retType l ret).called = some l := by
  cases impl l with
  | none => rfl
  | some ret => exact called_writeResult sc retType l ret

theorem ends_outcome (retType : List Char) (impl : List JsArg → Option V) (l : List JsArg) :
    let o := match impl l with
      | none => (⟨l, 0, 0, true⟩ : Outcome)
      | some ret => writeResult sc retType l ret
    ((o.pending = true ∧ o.x0 = 0 ∧ o.d0 = 0) ∨ ∃ ret, impl l = some ret ∧ Ends sc retType ret o) ↔
      ∀ ret, impl l = some ret → Convertible sc retType ret := by
  cases himpl : impl l with
  | none => simp
  | some ret =>
    simp only [Option.some.injEq, exists_eq_left', forall_eq']
    rw [← ends_writeResult sc retType l]
    exact ⟨fun h => h.elim .inl id, .inr⟩

theorem right_iff_good {hasCtx : Bool} {bindings : Int32 → Option (NativeBinding V)} {slot : Int32} {frame : Regs}
    {sig : Signature} (h : sig.Proper) {args : List UInt64} (hargs : args.length = sig.params.length)
    {impl : List JsArg → Option V} (hbound : bindings slot = some ⟨sig.ret, sig.params, some impl⟩)
    (henv : frame.x 0 ≠ 0) (hplaced : generalParams sig.params ≤ 6 → floatingParams sig.params ≤ 8 →
      frame.Placed 2 0 (typed (sig.params.map kindOf) args)) :
    Right sc ob sig args impl (artpiNativeDispatch sc ob hasCtx bindings slot frame) ↔
      Good sc ob hasCtx sig args impl frame := by
  have hnone := @readArgs_eq_none_iff ob sig.params h.1 frame 2 0 (by decide) (by decide)
  unfold artpiNativeDispatch
  rw [if_neg henv, hbound]
  cases hasCtx with
  | false =>
    refine iff_of_false (fun hr => ?_) fun hg => absurd hg.ctx (by decide)
    by_cases hfit : 6 < generalParams sig.params ∨ 8 < floatingParams sig.params
    · exact absurd (hr.refused hfit).2 (by simp)
    · rw [not_or, Nat.not_lt, Nat.not_lt] at hfit
      exact absurd (hr.called hfit.1 hfit.2) (by simp)
  | true =>
    by_cases hfit : 6 < generalParams sig.params ∨ 8 < floatingParams sig.params
    · have hread : readArgs ob frame 2 0 sig.params = none := hnone.2 (by omega)
      simp only [hread, Bool.not_true, Bool.false_eq_true, if_false]
      refine iff_of_true ⟨fun h1 h2 => ?_, fun _ => ⟨rfl, rfl⟩, .inl ⟨rfl, rfl, rfl⟩⟩
        ⟨rfl, fun h1 h2 => ?_, fun h1 h2 => ?_⟩
      all_goals omega
    · have hread : readArgs ob frame 2 0 sig.params ≠ none := fun hread => hfit (by have := hnone.1 hread; omega)
      obtain ⟨l, hl⟩ := Option.ne_none_iff_exists'.1 hread
      rw [not_or, Nat.not_lt, Nat.not_lt] at hfit
      have hiff := readArgs_eq_passed_iff ob h.1 hargs (hplaced hfit.1 hfit.2) hl
      have hcalled := called_outcome sc sig.ret impl l
      have hends := ends_outcome sc sig.ret impl l
      simp only [hl, Bool.not_true, Bool.false_eq_true, if_false]
      constructor
      · intro hr
        have hpassed : l = passedArgs ob sig.params args :=
          Option.some.inj (hcalled.symm.trans (hr.called hfit.1 hfit.2))
        rw [hpassed] at hends hr
        exact ⟨rfl, fun _ _ => hiff.1 hpassed, fun _ _ => hends.1 hr.ends⟩
      · intro hg
        have hpassed := hiff.2 (hg.clear hfit.1 hfit.2)
        rw [hpassed] at hcalled hends ⊢
        exact ⟨fun _ _ => hcalled, fun hover => by omega, hends.2 (hg.convertible hfit.1 hfit.2)⟩

/-! ## The thunk -/

section Thunk

open Lib.Arm64

/-- The function that the thunk calls. -/
inductive Func where
  | artpiNativeDispatch

/-- The argument registers, the caller's `sp` in `x9`, and the slot go to a frame of 224 bytes. -/
def saveFrame : List (Instr Func) :=
  [.subSp 224,
   .stp 0 1 0, .stp 2 3 16, .stp 4 5 32, .stp 6 7 48,
   .stpD 0 1 64, .stpD 2 3 80, .stpD 4 5 96, .stpD 6 7 112,
   .addSpTo 9 224, .str 9 128,
   .stp 29 30 136, .str 16 152,
   .movW 0 16, .movSp 1]

/-- The result is reloaded from the frame. -/
def loadResult : List (Instr Func) := [.ldr 0 0, .ldrD 0 64, .ldp 29 30 136, .addSp 224]

def artpi_native_thunk_entry : List (Instr Func) :=
  saveFrame ++ (.bl .artpiNativeDispatch :: (loadResult ++ [.ret]))

/-- The registers that `ArtpiNativeFrame` has. -/
def argRegs (m : Cpu) : Regs where
  x n := if h : n < 8 then m.x ⟨n, by omega⟩ else 0
  v n := if h : n < 8 then m.d ⟨n, by omega⟩ else 0

/-- `ArtpiNativeFrame` in the words at `sp`. -/
def frameAt (stack : List UInt64) : Regs where
  x n := if n < 8 then stack.getD n 0 else 0
  v n := if n < 8 then stack.getD (8 + n) 0 else 0

/-- A process with the dispatcher: it keeps to the calling convention, with the first words of the frame as its own,
    and leaves the result in two of them. -/
structure Process (V : Type) where
  sc : Scripting V
  objects : Objects
  hasCtx : Bool
  bindings : Int32 → Option (NativeBinding V)
  machine : Machine Func
  follows : Follows 16 (machine.func .artpiNativeDispatch)
  dispatches : ∀ m : Cpu, m.x 1 = machine.sp m →
    let o := artpiNativeDispatch sc objects hasCtx bindings (m.x 0).toUInt32.toInt32 (frameAt m.stack)
    (machine.func .artpiNativeDispatch m).stack = (m.stack.set 0 o.x0).set 8 o.d0

/-- The stub of a slot loads it into `x16`. -/
def stub (slot : UInt32) (m : Cpu) : Cpu := m.setX 16 slot.toUInt64

/-- A call of the native method with the slot. -/
def Process.call (P : Process V) (slot : UInt32) (m : Cpu) : Cpu :=
  (P.machine.run 0 0 artpi_native_thunk_entry (stub slot m)).1

def Process.outcome (P : Process V) (slot : UInt32) (m : Cpu) : Outcome :=
  artpiNativeDispatch P.sc P.objects P.hasCtx P.bindings slot.toInt32 (argRegs m)

/-- The words of the frame: `caller_sp` and what lay below the stack are read by no one. -/
def frame (m : Cpu) (caller_sp : UInt64) (below : List UInt64) : List UInt64 :=
  [m.x 0, m.x 1, m.x 2, m.x 3, m.x 4, m.x 5, m.x 6, m.x 7,
    m.d 0, m.d 1, m.d 2, m.d 3, m.d 4, m.d 5, m.d 6, m.d 7, caller_sp, m.x 29, m.x 30, m.x 16] ++ below

theorem saveFrame_stack (M : Machine Func) (m : Cpu) : ∃ caller_sp,
    (saveFrame.foldl M.exec m).stack =
      frame m caller_sp ((List.range 8).map fun n => M.below (20 + n)) ++ m.stack := by
  refine ⟨M.sp { m with stack := (List.range 28).map M.below ++ m.stack } + 224, ?_⟩
  simp [saveFrame, Machine.exec, Machine.sp, frame, List.range_succ]

/-- What the thunk returns with is the end of the dispatch, and the rest belongs to the caller. -/
structure Returned (m : Cpu) (o : Outcome) (out : Cpu) : Prop where
  x0 : out.x 0 = o.x0
  d0 : out.d 0 = o.d0
  stack : out.stack = m.stack
  x29 : out.x 29 = m.x 29
  x30 : out.x 30 = m.x 30
  saved : Saved m out

theorem frameAt_frame (m : Cpu) (caller_sp : UInt64) (below rest : List UInt64) :
    frameAt (frame m caller_sp below ++ rest) = argRegs m := by
  have hlt : ∀ n, n < 8 → n = 0 ∨ n = 1 ∨ n = 2 ∨ n = 3 ∨ n = 4 ∨ n = 5 ∨ n = 6 ∨ n = 7 := by decide
  unfold frameAt argRegs
  congr 1
  · funext n
    by_cases hn : n < 8
    · rcases hlt n hn with rfl | rfl | rfl | rfl | rfl | rfl | rfl | rfl <;> rfl
    · rw [if_neg hn, dif_neg hn]
  · funext n
    by_cases hn : n < 8
    · rcases hlt n hn with rfl | rfl | rfl | rfl | rfl | rfl | rfl | rfl <;> rfl
    · rw [if_neg hn, dif_neg hn]

theorem stub_x (slot : UInt32) (m : Cpu) {r : Fin 31} (h : r ≠ 16) : (stub slot m).x r = m.x r :=
  if_neg h

theorem argRegs_stub (slot : UInt32) (m : Cpu) : argRegs (stub slot m) = argRegs m := by
  unfold argRegs
  congr 1
  funext n
  by_cases hn : n < 8
  · rw [dif_pos hn, dif_pos hn]
    exact stub_x slot m fun h => by
      have := congrArg Fin.val h
      change n = 16 at this
      omega
  · rw [dif_neg hn, dif_neg hn]

/-- Where the stack begins with the frame and the result, the caller gets the result, and its registers and stack. -/
theorem loadResult_spec (M : Machine Func) {e m : Cpu} {caller_sp x0 d0 : UInt64} {below rest : List UInt64}
    (hbelow : below.length = 8)
    (hstack : m.stack = ((frame e caller_sp below ++ rest).set 0 x0).set 8 d0) :
    (loadResult.foldl M.exec m).x 0 = x0 ∧ (loadResult.foldl M.exec m).d 0 = d0 ∧
      (loadResult.foldl M.exec m).stack = rest ∧ (loadResult.foldl M.exec m).x 29 = e.x 29 ∧
      (loadResult.foldl M.exec m).x 30 = e.x 30 := by
  have hword : ∀ i, m.load (8 * i) = (((frame e caller_sp below ++ rest).set 0 x0).set 8 d0).getD i 0 := by
    intro i
    rw [Cpu.load, hstack, Nat.mul_div_cancel_left i (by decide)]
  refine ⟨hword 0, hword 8, ?_, hword 17, hword 18⟩
  have hdrop : (loadResult.foldl M.exec m).stack = m.stack.drop 28 := rfl
  rw [hdrop, hstack]
  obtain ⟨b0, b1, b2, b3, b4, b5, b6, b7, rfl⟩ :
      ∃ b0 b1 b2 b3 b4 b5 b6 b7, below = [b0, b1, b2, b3, b4, b5, b6, b7] := by
    match below, hbelow with
    | [b0, b1, b2, b3, b4, b5, b6, b7], _ => exact ⟨b0, b1, b2, b3, b4, b5, b6, b7, rfl⟩
  rfl

theorem call_spec (P : Process V) (slot : UInt32) (m : Cpu) : Returned m (P.outcome slot m) (P.call slot m) := by
  have hplain : ∀ i ∈ saveFrame, i.isPlain = true := by decide
  have hplain' : ∀ i ∈ loadResult, i.isPlain = true := by decide
  unfold Process.call artpi_native_thunk_entry
  rw [P.machine.run_append hplain]
  simp only [Machine.run]
  rw [P.machine.run_append hplain']
  simp only [Machine.run]
  generalize hcalled : (saveFrame.foldl P.machine.exec (stub slot m)).setX 30
    (P.machine.link (0 + saveFrame.length)) = called
  generalize hback : P.machine.func .artpiNativeDispatch called = back
  obtain ⟨caller_sp, hstack⟩ := saveFrame_stack P.machine (stub slot m)
  have hcalledStack : called.stack = frame (stub slot m) caller_sp
      ((List.range 8).map fun n => P.machine.below (20 + n)) ++ m.stack := by
    rw [← hcalled, Cpu.setX_stack, hstack]
    rfl
  -- the dispatcher is called with the slot and the frame
  have hx0 : (called.x 0).toUInt32.toInt32 = slot.toInt32 := by
    rw [← hcalled]
    simp [saveFrame, Machine.exec, stub, low32]
  have hx1 : called.x 1 = P.machine.sp called := by
    rw [← hcalled]
    simp [saveFrame, Machine.exec, Machine.sp]
  have houtcome : artpiNativeDispatch P.sc P.objects P.hasCtx P.bindings (called.x 0).toUInt32.toInt32 (frameAt called.stack) =
      P.outcome slot m := by
    rw [hx0, hcalledStack, frameAt_frame, argRegs_stub]
    rfl
  have hbackStack : back.stack = (called.stack.set 0 (P.outcome slot m).x0).set 8 (P.outcome slot m).d0 := by
    rw [← hback, ← houtcome]
    exact P.dispatches called hx1
  have hsaved : Saved (stub slot m) back := by
    rw [← hback, ← hcalled]
    exact ((P.machine.saved_foldl (by decide) (stub slot m)).trans (saved_link _ _)).trans
      (P.follows.saved_apply _)
  rw [hcalledStack] at hbackStack
  obtain ⟨hx0', hd0, hrest, hx29, hx30⟩ := loadResult_spec P.machine (by simp) hbackStack
  refine ⟨hx0', hd0, hrest, hx29.trans (stub_x slot m (by decide)), hx30.trans (stub_x slot m (by decide)), ?_⟩
  have hstub : Saved m (stub slot m) := by
    refine ⟨fun r h19 _ => stub_x slot m fun h => ?_, fun r _ _ => rfl⟩
    rw [h] at h19
    exact absurd h19 (by decide)
  refine (hstub.trans hsaved).trans ⟨fun r h19 h29 => P.machine.foldl_exec_x ?_ back,
    fun r h8 h15 => P.machine.foldl_exec_d ?_ back⟩
  · revert r
    decide
  · revert r
    decide

/-- What the caller of the native method sees of the dispatch. -/
def Process.returns (P : Process V) (slot : UInt32) (m : Cpu) : Outcome :=
  { P.outcome slot m with x0 := (P.call slot m).x 0, d0 := (P.call slot m).d 0 }

/-- Values are numbers, which are no objects. -/
def numbers : Scripting Int32 where
  isNullish _ := false
  toCString _ := none
  toBool v := v ≠ 0
  toInt32 v := some v
  isBigInt _ := false
  toBigInt64 _ := 0
  toInt64 v := some v.toInt64
  toFloat64 _ := some 0
  toFloat b := b.toUInt32
  newStringUTF _ := none
  valueOf _ _ := none
  getJRef _ := none
  instanceOf _ _ := false
  newStringUTF_instance _ _ h := by cases h
  valueOf_instance _ _ _ h := by cases h

/-- At 0x5000 there is a `Long` of 2^53 + 1. -/
def oneLong : Objects where
  objectAt w := if w = 0x5000 then .boxed (.long 0x20000000000001) else .other
  newString _ := []
  overflow := 0

/-- The dispatcher as a function on the machine, which leaves the registers alone. -/
def dispatcher (bindings : Int32 → Option (NativeBinding Int32)) (m : Cpu) : Cpu :=
  let o := artpiNativeDispatch numbers oneLong true bindings (m.x 0).toUInt32.toInt32 (frameAt m.stack)
  { m with stack := (m.stack.set 0 o.x0).set 8 o.d0 }

/-- One method is bound. -/
def process (bindings : Int32 → Option (NativeBinding Int32)) : Process Int32 where
  sc := numbers
  objects := oneLong
  hasCtx := true
  bindings := bindings
  machine := ⟨0x80000, fun _ => 0, fun _ => 0, fun _ => dispatcher bindings, fun _ m => m⟩
  follows :=
    { length_stack := fun m => by simp [dispatcher]
      drop_stack := fun m => by
        unfold dispatcher
        rw [List.drop_set_of_lt (by decide), List.drop_set_of_lt (by decide)]
      saved := fun _ _ _ => rfl
      savedD := fun _ _ _ _ => rfl }
  dispatches := fun _ _ => rfl

/-- `x2` holds a word, and the other registers a pointer. -/
def cpu (w : UInt64) : Cpu := ⟨fun r => if r = 2 then w else 0x7000, fun _ => 0, []⟩

/-- `(I)I` returns what it got. -/
def identity : NativeBinding Int32 :=
  ⟨['I'], [['I']], some fun args => match args with
    | [.int32 i] => some i
    | _ => none⟩

def truth : NativeBinding Int32 :=
  ⟨['I'], [['Z']], some fun args => match args with
    | [.bool b] => some (if b then 1 else 0)
    | _ => none⟩

/-- `(Ljava/lang/Long;)I` returns 1 for 2^53 + 1. -/
def isOdd : NativeBinding Int32 :=
  ⟨['I'], ["Ljava/lang/Long;".toList], some fun args => match args with
    | [.bigInt64 i] => some (if i = 0x20000000000001 then 1 else 0)
    | _ => none⟩

end Thunk

end ArtPi.Agent.NativeDispatch
