import ArtPi.Sandbox.Registers

set_option autoImplicit false

/-! # The two modes of `Java.invoke` (`src/agent/agent_invoke.cpp`, `src/core/pi.cpp`)

`Java.invoke` runs a method that is given by its `ArtMethod`. The mode `jni` finds the method again, by
the name of its class, its own name and its signature, and calls it through JNI; the mode `interp` runs
the bytecode of the `ArtMethod` on registers that are packed from the same arguments. Both are there so
that a method can be run by both and compared.

The runtime of the process is a parameter: classes and methods as reflection and JNI give them, what a
method does when it runs (in the interpreter as in ART; no method is hooked), and the conversions of
QuickJS. -/

namespace ArtPi.Agent.Invoke

open Lib Dex Sandbox

inductive JsValue where
  | undefined
  | null
  | bool (b : Bool)
  | int32 (i : Int32)
  | bigInt64 (i : Int64)
  /-- the bits -/
  | float64 (d : UInt64)
  | string (s : String)
  | jref (handle : Nat)
  deriving DecidableEq

inductive Status where
  | noCode
  | resolveFail
  | unsupported
  | packFail
  | error

/-- `RunStatusName` -/
def Status.name : Status → String
  | noCode => "NO_CODE (native/abstract)"
  | resolveFail => "RESOLVE_FAIL"
  | unsupported => "UNSUPPORTED opcode"
  | packFail => "PACK_FAIL"
  | error => "ERROR"

def init : List Char := ['<', 'i', 'n', 'i', 't', '>']

/-- Classes, methods and objects, and the JavaScript values that arguments are. -/
structure Runtime (C M Obj V : Type) where
  /-- `Pine_FindClass` -/
  findClass : List Char → Option C
  className : C → List Char
  getDeclaredMethods : C → List M
  getDeclaredConstructors : C → List M
  declaringClass : M → C
  methodName : M → List Char
  proto : M → Signature
  /-- What `PrettyMethod` puts between the parentheses. -/
  prettyParams : M → List Char
  isStatic : M → Bool
  isNative : M → Bool
  isAbstract : M → Bool
  /-- `GetMethodID`, or `GetStaticMethodID`. -/
  getMethodID : C → List Char → List Char → Bool → Option M
  classOf : Obj → C
  /-- The method that `Call<Type>MethodA` runs, by the class of the receiver. -/
  dispatch : C → M → M
  /-- What a method returns, or `none` if it throws. -/
  run : M → Option Obj → List (Value Obj) → Option (Value Obj)
  /-- All that is to go well in `runMethodInternal` but for the packing. -/
  load : M → Except Status Layout
  isNullish : V → Bool
  toBool : V → Bool
  toInt32 : V → Int32
  isBigInt : V → Bool
  toBigInt64 : V → Int64
  toInt64 : V → Int64
  toFloat64 : V → UInt64
  toFloat : UInt64 → UInt32
  toDouble : UInt32 → UInt64
  /-- `NewStringUTF` of `JS_ToCString`. -/
  newString : V → Option Obj
  /-- `valueOf` of a wrapper class. -/
  valueOf : List Char → UInt64 → Option Obj
  getJRef : V → Option Obj
  utfChars : Obj → String
  booleanValue : Obj → Bool
  intValue : Obj → Int32
  charValue : Obj → UInt16
  /-- By way of a `double`. -/
  longValue : Obj → Int64
  doubleValue : Obj → UInt64
  /-- The handle of an object. `AddJRef` gives a new one with every call, and they all stand for it. -/
  addJRef : Obj → Nat
  /-- Class names have no parentheses. -/
  proper : ∀ m, (proto m).Proper
  noParen : ∀ m, ')' ∉ (proto m).params.flatten
  pretty_noParen : ∀ m, ')' ∉ prettyParams m
  className_ne_init : ∀ c, className c ≠ init
  declared_ne_init : ∀ c m, m ∈ getDeclaredMethods c → methodName m ≠ init
  /-- JNI finds the method of the class itself first. -/
  getMethodID_declared : ∀ c m st m', m ∈ getDeclaredMethods c →
    getMethodID c (methodName m) (describe (proto m)) st = some m' → m' = m ∧ isStatic m = st
  getMethodID_name : ∀ c n sig st m, getMethodID c n sig st = some m → methodName m = n
  dispatch_name : ∀ c m, methodName (dispatch c m) = methodName m

variable {C M Obj V : Type} (rt : Runtime C M Obj V)

/-! ## Signatures -/

/-- The type a string begins with; any other character is one by itself. -/
def splitType (s : List Char) : Option (List Char × List Char) :=
  match s.dropWhile (· = '[') with
  | [] => none
  | c :: p =>
    if c = 'L' then
      match p.dropWhile (· ≠ ';') with
      | [] => none
      | semi :: rest =>
        some (s.takeWhile (· = '[') ++ c :: (p.takeWhile (· ≠ ';') ++ [semi]), rest)
    else some (s.takeWhile (· = '[') ++ [c], p)

theorem length_lt_of_splitType {s t rest : List Char} (h : splitType s = some (t, rest)) :
    rest.length < s.length := by
  have hdrop := (List.dropWhile_suffix (l := s) (fun c => decide (c = '['))).length_le
  unfold splitType at h
  split at h
  · exact absurd h (by simp)
  · next c p hp =>
      rw [hp, List.length_cons] at hdrop
      split at h
      · split at h
        · exact absurd h (by simp)
        · next semi rest' hrest =>
            have hsemi := (List.dropWhile_suffix (l := p) (fun c => decide (c ≠ ';'))).length_le
            rw [hrest, List.length_cons] at hsemi
            obtain ⟨-, rfl⟩ := Prod.mk.inj (Option.some.inj h)
            omega
      · obtain ⟨-, rfl⟩ := Prod.mk.inj (Option.some.inj h)
        omega

def splitParams (s : List Char) : Option (List (List Char) × List Char) :=
  match s with
  | [] => none
  | c :: rest =>
    if c = ')' then some ([], rest)
    else
      match _h : splitType (c :: rest) with
      | none => none
      | some (t, rest') =>
        match splitParams rest' with
        | none => none
        | some (params, r) => some (t :: params, r)
termination_by s.length
decreasing_by exact length_lt_of_splitType _h

def splitSignature (sig : List Char) : Option Signature :=
  if sig.length < 3 ∨ sig.head? ≠ some '(' then none
  else
    match splitParams sig.tail with
    | none => none
    | some (params, s) =>
      match splitType s with
      | none => none
      | some (ret, rest) => if rest = [] then some ⟨params, ret⟩ else none

/-! ## Arguments -/

def dotted (s : List Char) : List Char := s.map (fun c => if c = '/' then '.' else c)

def descriptorToTypeName (desc : List Char) : String :=
  match desc with
  | [] => "java.lang.Object"
  | 'V' :: _ => "void"
  | 'Z' :: _ => "boolean"
  | 'B' :: _ => "byte"
  | 'S' :: _ => "short"
  | 'C' :: _ => "char"
  | 'I' :: _ => "int"
  | 'J' :: _ => "long"
  | 'F' :: _ => "float"
  | 'D' :: _ => "double"
  | c :: rest =>
    if c = 'L' ∧ desc.getLast? = some ';' then String.ofList (dotted rest.dropLast)
    else String.ofList desc

def jsValueToJavaObject (v : V) (tn : String) : Option Obj :=
  if rt.isNullish v then none
  else if tn = "java.lang.String" ∨ tn = "Ljava/lang/String;" then rt.newString v
  else
    let box (cls : String) (bits : UInt64) : Option Obj := rt.valueOf cls.toList bits
    let int32 := (rt.toInt32 v).toUInt32.toUInt64
    if tn = "int" ∨ tn = "java.lang.Integer" then box "java/lang/Integer" int32
    else if tn = "long" ∨ tn = "java.lang.Long" then
      box "java/lang/Long" (if rt.isBigInt v then rt.toBigInt64 v else rt.toInt64 v).toUInt64
    else if tn = "boolean" ∨ tn = "java.lang.Boolean" then
      box "java/lang/Boolean" (if rt.toBool v then 1 else 0)
    else if tn = "short" ∨ tn = "java.lang.Short" then box "java/lang/Short" int32
    else if tn = "byte" ∨ tn = "java.lang.Byte" then box "java/lang/Byte" int32
    else if tn = "char" ∨ tn = "java.lang.Character" then
      box "java/lang/Character" int32.toUInt16.toUInt64
    else if tn = "float" ∨ tn = "java.lang.Float" then
      box "java/lang/Float" (rt.toFloat (rt.toFloat64 v)).toUInt64
    else if tn = "double" ∨ tn = "java.lang.Double" then box "java/lang/Double" (rt.toFloat64 v)
    else rt.getJRef v

/-- One round of the loop of `PackArgs`. The `jvalue` is zero but for the member that is stored. -/
def packArg (i : Nat) (t : List Char) (v : V) : Except String (Jvalue Obj) :=
  match t.headD 'I' with
  | 'Z' => .ok (.bits (if rt.toBool v then 1 else 0))
  | 'B' => .ok (.bits (rt.toInt32 v).toInt8.toUInt8.toUInt64)
  | 'S' => .ok (.bits (rt.toInt32 v).toInt16.toUInt16.toUInt64)
  | 'C' => .ok (.bits (rt.toInt32 v).toUInt32.toUInt16.toUInt64)
  | 'I' => .ok (.bits (rt.toInt32 v).toUInt32.toUInt64)
  | 'J' => .ok (.bits (if rt.isBigInt v then rt.toBigInt64 v else rt.toInt64 v).toUInt64)
  | 'F' => .ok (.bits (rt.toFloat (rt.toFloat64 v)).toUInt64)
  | 'D' => .ok (.bits (rt.toFloat64 v))
  | _ =>
    match jsValueToJavaObject rt v (descriptorToTypeName t) with
    | some o => .ok (.l (some o))
    | none =>
      if rt.isNullish v then .ok (.l none)
      else
        .error ("cannot convert argument #" ++ toString i ++ " to " ++ String.ofList t ++
          " (arrays / non-String objects must be passed as JRef)")

def packArgs : Nat → List (List Char) → List V → Except String (List (Jvalue Obj))
  | _, [], _ => .ok []
  | i, t :: _, [] =>
    .error ("missing argument #" ++ toString i ++ " (" ++ String.ofList t ++ ")")
  | i, t :: params, v :: args =>
    match packArg rt i t v with
    | .error e => .error e
    | .ok a =>
      match packArgs (i + 1) params args with
      | .error e => .error e
      | .ok as => .ok (a :: as)

/-- What `Call<Type>MethodA` takes out of a `jvalue` for a parameter. -/
def jniArg (t : List Char) (v : Jvalue Obj) : Value Obj :=
  match t.headD 'I' with
  | 'Z' => .word v.j.toUInt8.toUInt32
  | 'B' => .word v.j.toUInt8.toInt8.toInt32.toUInt32
  | 'S' => .word v.j.toUInt16.toInt16.toInt32.toUInt32
  | 'C' => .word v.j.toUInt16.toUInt32
  | 'I' | 'F' => .word v.i
  | 'J' | 'D' => .wide v.j
  | _ => .ref v.ref

/-! ## Results -/

def javaObjectToJsValue (o : Option Obj) : JsValue :=
  match o with
  | none => .null
  | some o =>
    let n := String.ofList (rt.className (rt.classOf o))
    if n = "java.lang.String" then .string (rt.utfChars o)
    else if n = "java.lang.Boolean" then .bool (rt.booleanValue o)
    else if n = "java.lang.Integer" ∨ n = "java.lang.Short" ∨ n = "java.lang.Byte" then
      .int32 (rt.intValue o)
    else if n = "java.lang.Character" then .int32 (rt.charValue o).toUInt32.toInt32
    else if n = "java.lang.Long" then .bigInt64 (rt.longValue o)
    else if n = "java.lang.Float" ∨ n = "java.lang.Double" then .float64 (rt.doubleValue o)
    else .jref (rt.addJRef o)

def jvalueToJs (retChar : Char) (rv : Jvalue Obj) : JsValue :=
  match retChar with
  | 'V' => .undefined
  | 'Z' => .bool (rv.j.toUInt8 ≠ 0)
  | 'B' => .int32 rv.j.toUInt8.toInt8.toInt32
  | 'S' => .int32 rv.j.toUInt16.toInt16.toInt32
  | 'C' => .int32 rv.j.toUInt16.toUInt32.toInt32
  | 'I' => .int32 rv.i.toInt32
  | 'J' => .bigInt64 rv.j.toInt64
  | 'F' => .float64 (rt.toDouble rv.i)
  | 'D' => .float64 rv.j
  | 'L' | '[' => javaObjectToJsValue rt rv.ref
  | _ => .undefined

/-- What a method has returned, as the interpreter hands it on. -/
def rawResult : Value Obj → Jvalue Obj
  | .word w => .bits w.toUInt64
  | .wide w => .bits w
  | .ref o => .l o

/-- The member of a zero `jvalue` that `Call<Type>MethodA` is stored to. -/
def jniResult (retChar : Char) (v : Value Obj) : Jvalue Obj :=
  let raw := rawResult v
  match retChar with
  | 'V' => .bits 0
  | 'Z' | 'B' => .bits raw.j.toUInt8.toUInt64
  | 'S' | 'C' => .bits raw.j.toUInt16.toUInt64
  | 'I' | 'F' => .bits raw.i.toUInt64
  | 'J' | 'D' => .bits raw.j
  | _ => .l raw.ref

/-! ## The method -/

/-- `PI::Method` for an `ArtMethod`. -/
structure Meta (C : Type) where
  cls : Option C
  name : List Char
  sig : List Char

/-- `PI::resolve(ArtMethod*)`. The reflected constructor has the name of its class, and no return
    type. -/
def resolveArt [DecidableEq M] (art : M) : Meta C :=
  let declaring := rt.declaringClass art
  match rt.findClass (rt.className declaring) with
  | none => { cls := none, name := rt.methodName art, sig := [] }
  | some c =>
    if art ∈ rt.getDeclaredMethods c then
      { cls := some declaring, name := rt.methodName art, sig := describe (rt.proto art) }
    else if rt.methodName art = init ∧ art ∈ rt.getDeclaredConstructors c then
      { cls := some declaring
        name := rt.className declaring
        sig := describe { params := (rt.proto art).params, ret := ['V'] } }
    else
      -- another class has the name
      { cls := some c, name := rt.methodName art, sig := '(' :: (rt.prettyParams art ++ [')']) }

/-- `PI::resolve` by names: the method, and whether it is static. -/
def resolve (className name sig : List Char) : Option (M × Bool) :=
  match rt.findClass className with
  | none => none
  | some c =>
    match rt.getMethodID c name sig false with
    | some m => some (m, false)
    | none => (rt.getMethodID c name sig true).map (fun m => (m, true))

/-- A method that has run, on what. -/
structure Call (M Obj : Type) where
  method : M
  receiver : Option Obj
  values : List (Value Obj)
  deriving DecidableEq

theorem Call.eq_iff {M Obj : Type} {call : Call M Obj} {m : M} {receiver : Option Obj}
    {values : List (Value Obj)} :
    call = ⟨m, receiver, values⟩ ↔
      call.method = m ∧ call.receiver = receiver ∧ call.values = values := by
  constructor
  · rintro rfl
    exact ⟨rfl, rfl, rfl⟩
  · rintro ⟨rfl, rfl, rfl⟩
    rfl

structure Outcome (M Obj : Type) where
  call : Call M Obj
  value : JsValue
  deriving DecidableEq

def Call.run (call : Call M Obj) : Option (Value Obj) := rt.run call.method call.receiver call.values

/-- `InvokeJni` -/
def invokeJni (m : M) (isStatic : Bool) (receiver : Option Obj) (values : List (Value Obj)) :
    Except String (Call M Obj × Value Obj) :=
  match isStatic, receiver with
  | false, none => .error "instance method requires a receiver (use .bind(obj))"
  | true, _ =>
    match Call.run rt ⟨m, none, values⟩ with
    | none => .error "Java exception thrown by the method"
    | some v => .ok (⟨m, none, values⟩, v)
  | false, some r =>
    let m' := rt.dispatch (rt.classOf r) m
    match Call.run rt ⟨m', some r, values⟩ with
    | none => .error "Java exception thrown by the method"
    | some v => .ok (⟨m', some r, values⟩, v)

/-- The mode `jni`. -/
def invokeByJni (info : Meta C) (sig : Signature) (receiver : Option Obj)
    (args : List (Jvalue Obj)) : Except String (Outcome M Obj) :=
  let className := (info.cls.map rt.className).getD []
  match resolve rt className info.name info.sig with
  | none =>
    .error ("invoke: cannot resolve " ++ String.ofList className ++ "." ++
      String.ofList info.name ++ String.ofList info.sig)
  | some (m, isStatic) =>
    match invokeJni rt m isStatic receiver (List.zipWith jniArg sig.params args) with
    | .error e => .error ("invoke(jni): " ++ e)
    | .ok (call, v) =>
      let retChar := sig.ret.headD 'V'
      .ok ⟨call, jvalueToJs rt retChar (jniResult retChar v)⟩

/-- `runMethod`: the call that the interpreter makes of the registers, and its result unless it
    throws. -/
def runMethod (art : M) (thisObj : Option Obj) (types : List (List Char)) (args : List (Jvalue Obj))
    (shorty : List Char) : Except Status (Call M Obj × Option (Unpacked Obj)) :=
  if rt.isNative art || rt.isAbstract art then .error .noCode
  else
    match rt.load art with
    | .error status => .error status
    | .ok ic =>
      match packRegisters ic (rt.isStatic art) thisObj args shorty with
      | none => .error .packFail
      | some regs =>
        let (this, values) := incomingArgs ic (rt.isStatic art) types regs
        let call : Call M Obj := ⟨art, this, values⟩
        .ok (call, (call.run rt).map (fun v => unpackResult (rawResult v) (shorty.headD 'V')))

/-- The mode `interp`. -/
def invokeByInterp (art : M) (info : Meta C) (sig : Signature) (receiver : Option Obj)
    (args : List (Jvalue Obj)) : Except String (Outcome M Obj) :=
  let name := String.ofList info.name
  if rt.isNative art then
    .error ("invoke(interp): " ++ String.ofList ((info.cls.map rt.className).getD []) ++ "." ++ name ++
      " is native (no bytecode); use 'jni'")
  else if !rt.isStatic art && receiver.isNone then
    .error "invoke(interp): instance method requires a receiver (use .bind(obj))"
  else
    match shortyFromSignature info.sig with
    | none => .error ("invoke(interp): bad signature " ++ String.ofList info.sig)
    | some shorty =>
      match runMethod rt art (if rt.isStatic art then none else receiver) sig.params args shorty with
      | .error status => .error ("invoke(interp): " ++ name ++ " failed: " ++ status.name)
      | .ok (_, none) => .error ("invoke(interp): Java exception from " ++ name)
      | .ok (call, some res) =>
        if res.isVoid then .ok ⟨call, .undefined⟩
        else
          .ok ⟨call, jvalueToJs rt (sig.ret.headD 'V')
            (if res.isObject then .l res.objectResult else res.value)⟩

/-- The third argument: `null` or `undefined`, or what `GetJRef` has for it. -/
inductive Receiver (Obj : Type) where
  | null
  | jref (o : Option Obj)

def Receiver.object : Receiver Obj → Option Obj
  | null => none
  | jref o => o

/-- `JsInvoke`, for the pointer of an `ArtMethod`. -/
def jsInvoke [DecidableEq M] (art : M) (mode : String) (receiver : Receiver Obj) (args : List V) :
    Except String (Outcome M Obj) :=
  match receiver with
  | .jref none => .error "invoke: receiver must be a JRef/null"
  | _ =>
    let info := resolveArt rt art
    match splitSignature info.sig with
    | none => .error ("invoke: unsupported signature " ++ String.ofList info.sig)
    | some sig =>
      if args.length < sig.params.length then
        .error ("invoke: " ++ String.ofList info.sig ++ " needs " ++ toString sig.params.length ++
          " arg(s), got " ++ toString args.length)
      else
        match packArgs rt 0 sig.params args with
        | .error e => .error ("invoke: " ++ e)
        | .ok values =>
          if mode = "jni" ∨ mode = "native" ∨ mode = "art" then
            invokeByJni rt info sig receiver.object values
          else if mode = "interp" ∨ mode = "nmmvm" ∨ mode = "vm" then
            invokeByInterp rt art info sig receiver.object values
          else
            .error ("invoke: unknown mode '" ++ mode ++ "' (use 'jni' or 'interp')")

/-! ## What is to hold -/

/-- Both modes have run the method itself, with the same values, and return the same. -/
structure Agree (art : M) (byJni byInterp : Outcome M Obj) : Prop where
  jni : byJni.call.method = art
  interp : byInterp.call.method = art
  call : byJni.call = byInterp.call
  value : byJni.value = byInterp.value

/-- The argument is a `byte` or a `short` below zero. -/
def NegativeSubInt (t : List Char) (v : V) : Prop :=
  (t = ['B'] ∧ (rt.toInt32 v).toInt8 < 0) ∨ (t = ['S'] ∧ (rt.toInt32 v).toInt16 < 0)

/-- The method is no constructor, and a call of it on the receiver runs the method itself. -/
def RunsItself (art : M) (receiver : Receiver Obj) : Prop :=
  rt.methodName art ≠ init ∧
    (rt.isStatic art = true ∨
      ∀ r, receiver.object = some r → rt.dispatch (rt.classOf r) art = art)

/-! ## The signature is split into its types -/

theorem splitType_bracket (s : List Char) :
    splitType ('[' :: s) = (splitType s).map (fun p => ('[' :: p.1, p.2)) := by
  unfold splitType
  rw [List.dropWhile_cons_of_pos (by simp), List.takeWhile_cons_of_pos (by simp)]
  split
  · rfl
  · split
    · split <;> rfl
    · rfl

theorem splitType_char {c : Char} (hbracket : c ≠ '[') (hclass : c ≠ 'L') (rest : List Char) :
    splitType (c :: rest) = some ([c], rest) := by
  unfold splitType
  rw [List.dropWhile_cons_of_neg (by simpa using hbracket),
    List.takeWhile_cons_of_neg (by simpa using hbracket)]
  simp only [if_neg hclass, List.nil_append]

theorem splitType_append {t : List Char} (h : FieldType t) (rest : List Char) :
    splitType (t ++ rest) = some (t, rest) := by
  induction h with
  | @primitive c hc =>
    exact splitType_char (ne_of_mem_fieldPrimitives hc (by decide))
      (ne_of_mem_fieldPrimitives hc (by decide)) rest
  | @object name _ hsemi =>
    unfold splitType
    rw [List.cons_append, List.dropWhile_cons_of_neg (by simp),
      List.takeWhile_cons_of_neg (by simp), List.append_assoc, List.singleton_append]
    simp only [if_true, dropWhile_ne_append_cons hsemi, takeWhile_ne_append_cons hsemi,
      List.nil_append]
  | array _ ih => rw [List.cons_append, splitType_bracket, ih, Option.map_some]

theorem FieldType.exists_cons {t : List Char} (h : FieldType t) : ∃ c r, t = c :: r ∧ c ≠ ')' := by
  cases h with
  | @primitive c hc => exact ⟨c, [], rfl, ne_of_mem_fieldPrimitives hc (by decide)⟩
  | object => exact ⟨'L', _, rfl, by decide⟩
  | array => exact ⟨'[', _, rfl, by decide⟩

theorem splitParams_flatten {params : List (List Char)} (h : ∀ t ∈ params, FieldType t)
    (r : List Char) : splitParams (params.flatten ++ ')' :: r) = some (params, r) := by
  induction params with
  | nil => simp [splitParams]
  | cons t params ih =>
    have ht := h t List.mem_cons_self
    obtain ⟨c, t', rfl, hc⟩ := FieldType.exists_cons ht
    have hsplit := splitType_append ht (params.flatten ++ ')' :: r)
    rw [List.flatten_cons, List.append_assoc, List.cons_append] at *
    rw [splitParams, if_neg hc]
    split
    · next hnone => exact absurd (hnone.symm.trans hsplit) (by simp)
    · next t'' rest' hsome =>
        obtain ⟨rfl, rfl⟩ := Prod.mk.inj (Option.some.inj (hsome.symm.trans hsplit))
        rw [ih (fun t ht => h t (List.mem_cons_of_mem _ ht))]

theorem splitSignature_describe {sig : Signature} (h : sig.Proper) :
    splitSignature (describe sig) = some sig := by
  have hret : splitType sig.ret = some (sig.ret, []) := by
    rcases h.2 with hvoid | hfield
    · rw [hvoid]
      exact splitType_char (by decide) (by decide) []
    · simpa using splitType_append hfield []
  obtain ⟨c, ret, hcons⟩ := List.exists_cons_of_ne_nil (TypeWord.ne_nil h.2)
  unfold splitSignature describe
  rw [if_neg (by simp [hcons]; omega), List.tail_cons, splitParams_flatten h.1]
  simp only [hret, if_true]

theorem eq_append_of_splitType {s t rest : List Char} (h : splitType s = some (t, rest)) :
    s = t ++ rest := by
  have hs := List.takeWhile_append_dropWhile (p := fun c => decide (c = '[')) (l := s)
  unfold splitType at h
  split at h
  · exact absurd h (by simp)
  · next c p hp =>
      rw [hp] at hs
      split at h
      · split at h
        · exact absurd h (by simp)
        · next semi rest' hrest =>
            have hp' := List.takeWhile_append_dropWhile (p := fun c => decide (c ≠ ';')) (l := p)
            rw [hrest] at hp'
            obtain ⟨rfl, rfl⟩ := Prod.mk.inj (Option.some.inj h)
            rw [List.append_assoc, List.cons_append, List.append_assoc, List.singleton_append, hp', hs]
      · obtain ⟨rfl, rfl⟩ := Prod.mk.inj (Option.some.inj h)
        rw [List.append_assoc, List.singleton_append, hs]

theorem eq_append_of_splitParams {s : List Char} {params : List (List Char)} {r : List Char}
    (h : splitParams s = some (params, r)) : ∃ pre, s = pre ++ ')' :: r := by
  induction s using splitParams.induct generalizing params with
  | case1 => simp [splitParams] at h
  | case2 rest =>
    rw [splitParams, if_pos rfl] at h
    obtain ⟨-, rfl⟩ := Prod.mk.inj (Option.some.inj h)
    exact ⟨[], rfl⟩
  | case3 c rest hc hnone =>
    rw [splitParams, if_neg hc] at h
    split at h
    · exact absurd h (by simp)
    · next t rest' hsome => exact absurd (hnone.symm.trans hsome) (by simp)
  | case4 c rest hc t rest' hsplit hnone =>
    rw [splitParams, if_neg hc] at h
    split at h
    · exact absurd h (by simp)
    · next t' rest'' hsome =>
        obtain ⟨rfl, rfl⟩ := Prod.mk.inj (Option.some.inj (hsplit.symm.trans hsome))
        rw [hnone] at h
        exact absurd h (by simp)
  | case5 c rest hc t rest' hsplit params' r' hparams ih =>
    rw [splitParams, if_neg hc] at h
    split at h
    · exact absurd h (by simp)
    · next t' rest'' hsome =>
        obtain ⟨rfl, rfl⟩ := Prod.mk.inj (Option.some.inj (hsplit.symm.trans hsome))
        rw [hparams] at h
        obtain ⟨-, rfl⟩ := Prod.mk.inj (Option.some.inj h)
        obtain ⟨pre, hpre⟩ := ih hparams
        refine ⟨t ++ pre, ?_⟩
        rw [eq_append_of_splitType hsplit, hpre, List.append_assoc]

/-- What `PrettyMethod` has for the parameters is no signature: nothing is behind it. -/
theorem splitSignature_pretty {p : List Char} (hp : ')' ∉ p) :
    splitSignature ('(' :: (p ++ [')'])) = none := by
  unfold splitSignature
  split
  · rfl
  · rw [List.tail_cons]
    split
    · rfl
    · next params s hsplit =>
        obtain ⟨pre, hpre⟩ := eq_append_of_splitParams hsplit
        have hs : s = [] := by
          rcases List.eq_nil_or_concat s with hnil | ⟨s', c, rfl⟩
          · exact hnil
          · rw [List.concat_eq_append, ← List.cons_append, ← List.append_assoc] at hpre
            have hinit := (List.append_inj' hpre rfl).1
            exact absurd (by rw [hinit]; simp) hp
        rw [hs]
        rfl

/-! ## What an argument is -/

variable {rt}

theorem signExtend_eq_setWidth_iff {w v : Nat} (h : w < v) (x : BitVec w) :
    x.signExtend v = x.setWidth v ↔ x.msb = false := by
  constructor
  · intro heq
    have hmsb := congrArg BitVec.msb heq
    rw [BitVec.msb_signExtend, if_neg (Nat.not_le.2 h), BitVec.msb_setWidth,
      BitVec.getLsbD_of_ge _ _ (Nat.le_sub_one_of_lt h), Bool.and_false,
      decide_eq_true (Nat.zero_lt_of_lt h), Bool.true_and] at hmsb
    exact hmsb
  · exact BitVec.signExtend_eq_setWidth_of_msb_false

/-- A byte, sign-extended or zero-extended to a word, is the same unless it is below zero. -/
theorem int8_word_iff (b : Int8) :
    b.toUInt8.toUInt64.toUInt8.toInt8.toInt32.toUInt32 = b.toUInt8.toUInt64.toUInt32 ↔ ¬ b < 0 := by
  have hsign : b.toUInt8.toUInt64.toUInt8.toInt8.toInt32.toUInt32.toBitVec =
      b.toBitVec.signExtend 32 := by simp
  have hzero : b.toUInt8.toUInt64.toUInt32.toBitVec = b.toBitVec.setWidth 32 := by simp
  have hneg : b < 0 ↔ b.toBitVec.msb = true := by
    rw [Int8.lt_iff_toBitVec_slt]
    simp [BitVec.slt_zero_eq_msb]
  rw [← UInt32.toBitVec_inj, hsign, hzero, signExtend_eq_setWidth_iff (by decide), hneg,
    Bool.not_eq_true]

theorem int16_word_iff (b : Int16) :
    b.toUInt16.toUInt64.toUInt16.toInt16.toInt32.toUInt32 = b.toUInt16.toUInt64.toUInt32 ↔
      ¬ b < 0 := by
  have hsign : b.toUInt16.toUInt64.toUInt16.toInt16.toInt32.toUInt32.toBitVec =
      b.toBitVec.signExtend 32 := by simp
  have hzero : b.toUInt16.toUInt64.toUInt32.toBitVec = b.toBitVec.setWidth 32 := by simp
  have hneg : b < 0 ↔ b.toBitVec.msb = true := by
    rw [Int16.lt_iff_toBitVec_slt]
    simp [BitVec.slt_zero_eq_msb]
  rw [← UInt32.toBitVec_inj, hsign, hzero, signExtend_eq_setWidth_iff (by decide), hneg,
    Bool.not_eq_true]

theorem toUInt32_of_uint16 (u : UInt16) : u.toUInt64.toUInt16.toUInt32 = u.toUInt64.toUInt32 := by
  apply UInt32.toNat_inj.1
  have hlt := u.toNat_lt
  simp only [UInt64.toNat_toUInt16, UInt16.toNat_toUInt32, UInt64.toNat_toUInt32,
    UInt16.toNat_toUInt64]
  omega

theorem not_negativeSubInt {t : List Char} (hbyte : t ≠ ['B']) (hshort : t ≠ ['S']) (v : V) :
    ¬ NegativeSubInt rt t v := by
  rintro (⟨h, -⟩ | ⟨h, -⟩)
  · exact hbyte h
  · exact hshort h

/-- What the bytecode finds of an argument is what a JNI call takes of it, unless that is a `byte` or a
    `short` below zero. -/
theorem jniArg_eq_packed_iff {i : Nat} {t : List Char} (ht : FieldType t) {v : V} {a : Jvalue Obj}
    (h : packArg rt i t v = .ok a) : jniArg t a = packed t a ↔ ¬ NegativeSubInt rt t v := by
  cases ht with
  | @primitive c hc =>
    simp only [fieldPrimitives, List.mem_cons, List.not_mem_nil, or_false] at hc
    rcases hc with rfl | rfl | rfl | rfl | rfl | rfl | rfl | rfl
    all_goals
      simp only [packArg, List.headD_cons, Except.ok.injEq] at h
      subst h
    · -- boolean
      refine iff_of_true ?_ (not_negativeSubInt (by simp) (by simp) v)
      cases rt.toBool v <;> rfl
    · -- byte
      have hword := int8_word_iff (rt.toInt32 v).toInt8
      simpa [jniArg, packed, shortyOf, typeChar, NegativeSubInt, Jvalue.i, Jvalue.j] using hword
    · -- short
      have hword := int16_word_iff (rt.toInt32 v).toInt16
      simpa [jniArg, packed, shortyOf, typeChar, NegativeSubInt, Jvalue.i, Jvalue.j] using hword
    · -- char
      refine iff_of_true ?_ (not_negativeSubInt (by simp) (by simp) v)
      exact congrArg Value.word (toUInt32_of_uint16 _)
    all_goals exact iff_of_true rfl (not_negativeSubInt (by simp) (by simp) v)
  | object => exact iff_of_true rfl (not_negativeSubInt (by simp) (by simp) v)
  | array => exact iff_of_true rfl (not_negativeSubInt (by simp) (by simp) v)

theorem cons_of_packArgs {i : Nat} {t : List Char} {params : List (List Char)} {args : List V}
    {as : List (Jvalue Obj)} (h : packArgs rt i (t :: params) args = .ok as) :
    ∃ v args' a as', args = v :: args' ∧ as = a :: as' ∧ packArg rt i t v = .ok a ∧
      packArgs rt (i + 1) params args' = .ok as' := by
  cases args with
  | nil => simp [packArgs] at h
  | cons v args' =>
    rw [packArgs] at h
    split at h
    · exact absurd h (by simp)
    · next a ha =>
        split at h
        · exact absurd h (by simp)
        · next as' has => exact ⟨v, args', a, as', rfl, (Except.ok.inj h).symm, ha, has⟩

theorem length_packArgs {params : List (List Char)} {i : Nat} {args : List V}
    {as : List (Jvalue Obj)} (h : packArgs rt i params args = .ok as) :
    as.length = params.length := by
  induction params generalizing i args as with
  | nil =>
    rw [packArgs] at h
    rw [← Except.ok.inj h]
    rfl
  | cons t params ih =>
    obtain ⟨v, args', a, as', rfl, rfl, -, has⟩ := cons_of_packArgs h
    rw [List.length_cons, List.length_cons, ih has]

/-- The parameters are the same for both modes iff no `byte` or `short` among the arguments is below
    zero. -/
theorem values_eq_iff {params : List (List Char)} (hparams : ∀ t ∈ params, FieldType t) {i : Nat}
    {args : List V} {as : List (Jvalue Obj)} (h : packArgs rt i params args = .ok as) :
    List.zipWith jniArg params as = List.zipWith packed params as ↔
      ∀ p ∈ params.zip args, ¬ NegativeSubInt rt p.1 p.2 := by
  induction params generalizing i args as with
  | nil => simp
  | cons t params ih =>
    obtain ⟨ht, hparams⟩ := List.forall_mem_cons.1 hparams
    obtain ⟨v, args', a, as', rfl, rfl, ha, has⟩ := cons_of_packArgs h
    have hhead := jniArg_eq_packed_iff ht ha
    have hrest := ih hparams has
    rw [List.zipWith_cons_cons, List.zipWith_cons_cons, List.cons.injEq, hhead, hrest,
      List.zip_cons_cons, List.forall_mem_cons]

/-! ## What a result is -/

/-- The low bits of a `jvalue` are those of the word in it. -/
theorem toUInt8_of_word (x : UInt64) :
    x.toUInt32.toUInt64.toUInt8 = x.toUInt8.toUInt64.toUInt8 := by
  apply UInt8.toNat_inj.1
  simp only [UInt64.toNat_toUInt8, UInt32.toNat_toUInt64, UInt64.toNat_toUInt32,
    UInt8.toNat_toUInt64]
  omega

theorem toUInt16_of_word (x : UInt64) :
    x.toUInt32.toUInt64.toUInt16 = x.toUInt16.toUInt64.toUInt16 := by
  apply UInt16.toNat_inj.1
  simp only [UInt64.toNat_toUInt16, UInt32.toNat_toUInt64, UInt64.toNat_toUInt32,
    UInt16.toNat_toUInt64]
  omega

theorem jvalueToJs_eq {ret : List Char} (h : TypeWord ret) (v : Value Obj) :
    jvalueToJs rt (ret.headD 'V') (jniResult (ret.headD 'V') v) =
      if (unpackResult (rawResult v) (returnChar ret)).isVoid then .undefined
      else
        jvalueToJs rt (ret.headD 'V')
          (if (unpackResult (rawResult v) (returnChar ret)).isObject then
            .l (unpackResult (rawResult v) (returnChar ret)).objectResult
          else (unpackResult (rawResult v) (returnChar ret)).value) := by
  rcases h with rfl | h
  · rfl
  · cases h with
    | @primitive c hc =>
      simp only [fieldPrimitives, List.mem_cons, List.not_mem_nil, or_false] at hc
      rcases hc with rfl | rfl | rfl | rfl | rfl | rfl | rfl | rfl
      · exact congrArg (fun b : UInt8 => JsValue.bool (b ≠ 0)) (toUInt8_of_word _).symm
      · exact congrArg (fun b : UInt8 => JsValue.int32 b.toInt8.toInt32) (toUInt8_of_word _).symm
      · exact congrArg (fun b : UInt16 => JsValue.int32 b.toInt16.toInt32)
          (toUInt16_of_word _).symm
      · exact congrArg (fun b : UInt16 => JsValue.int32 b.toUInt32.toInt32)
          (toUInt16_of_word _).symm
      all_goals rfl
    | object => rfl
    | array => rfl

/-! ## What the modes run -/

variable {art : M} {receiver : Receiver Obj} {args : List V} {o : Outcome M Obj}

theorem eq_of_jsInvoke [DecidableEq M] {mode : String} (h : jsInvoke rt art mode receiver args = .ok o) :
    ∃ sig as, splitSignature (resolveArt rt art).sig = some sig ∧
      packArgs rt 0 sig.params args = .ok as ∧
      (if mode = "jni" ∨ mode = "native" ∨ mode = "art" then
        invokeByJni rt (resolveArt rt art) sig receiver.object as
      else if mode = "interp" ∨ mode = "nmmvm" ∨ mode = "vm" then
        invokeByInterp rt art (resolveArt rt art) sig receiver.object as
      else .error ("invoke: unknown mode '" ++ mode ++ "' (use 'jni' or 'interp')")) = .ok o := by
  unfold jsInvoke at h
  split at h
  · exact absurd h (by simp)
  · dsimp only at h
    split at h
    · exact absurd h (by simp)
    · next sig hsig =>
        split at h
        · exact absurd h (by simp)
        · split at h
          · exact absurd h (by simp)
          · next as has => exact ⟨sig, as, hsig, has, h⟩

/-- A method whose signature can be split is found in the class of its name, as a method or as a
    constructor. -/
theorem resolveArt_cases [DecidableEq M] {sig : Signature}
    (h : splitSignature (resolveArt rt art).sig = some sig) :
    ∃ c, rt.findClass (rt.className (rt.declaringClass art)) = some c ∧
      (resolveArt rt art).cls = some (rt.declaringClass art) ∧
      sig.params = (rt.proto art).params ∧ sig.Proper ∧
      (resolveArt rt art).sig = describe sig ∧
      ((art ∈ rt.getDeclaredMethods c ∧ (resolveArt rt art).name = rt.methodName art ∧
          sig = rt.proto art) ∨
        (rt.methodName art = init ∧
          (resolveArt rt art).name = rt.className (rt.declaringClass art))) := by
  have hproper := rt.proper art
  cases hfind : rt.findClass (rt.className (rt.declaringClass art)) with
  | none =>
    have hmeta : resolveArt rt art = { cls := none, name := rt.methodName art, sig := [] } := by
      simp only [resolveArt, hfind]
    rw [hmeta] at h
    simp [splitSignature] at h
  | some c =>
    by_cases hmem : art ∈ rt.getDeclaredMethods c
    · have hmeta : resolveArt rt art =
          { cls := some (rt.declaringClass art)
            name := rt.methodName art
            sig := describe (rt.proto art) } := by
        simp only [resolveArt, hfind, if_pos hmem]
      rw [hmeta] at h ⊢
      rw [splitSignature_describe hproper] at h
      obtain rfl := Option.some.inj h
      exact ⟨c, rfl, rfl, rfl, hproper, rfl, Or.inl ⟨hmem, rfl, rfl⟩⟩
    · by_cases hctor : rt.methodName art = init ∧ art ∈ rt.getDeclaredConstructors c
      · have hmeta : resolveArt rt art =
            { cls := some (rt.declaringClass art)
              name := rt.className (rt.declaringClass art)
              sig := describe { params := (rt.proto art).params, ret := ['V'] } } := by
          simp only [resolveArt, hfind, if_neg hmem, if_pos hctor]
        have hvoid : Signature.Proper { params := (rt.proto art).params, ret := ['V'] } :=
          ⟨hproper.1, Or.inl rfl⟩
        rw [hmeta] at h ⊢
        rw [splitSignature_describe hvoid] at h
        obtain rfl := Option.some.inj h
        exact ⟨c, rfl, rfl, rfl, hvoid, rfl, Or.inr ⟨hctor.1, rfl⟩⟩
      · have hmeta : resolveArt rt art =
            { cls := some c
              name := rt.methodName art
              sig := '(' :: (rt.prettyParams art ++ [')']) } := by
          simp only [resolveArt, hfind, if_neg hmem, if_neg hctor]
        rw [hmeta] at h
        rw [splitSignature_pretty (rt.pretty_noParen art)] at h
        exact absurd h (by simp)

theorem getMethodID_of_resolve {className name sig : List Char} {c : C} {m : M} {isStatic : Bool}
    (hfind : rt.findClass className = some c)
    (h : resolve rt className name sig = some (m, isStatic)) :
    rt.getMethodID c name sig isStatic = some m := by
  simp only [resolve, hfind] at h
  split at h
  · next hid =>
      obtain ⟨rfl, rfl⟩ := Prod.mk.inj (Option.some.inj h)
      exact hid
  · obtain ⟨m', hid, heq⟩ := Option.map_eq_some_iff.1 h
    obtain ⟨rfl, rfl⟩ := Prod.mk.inj heq
    exact hid

theorem eq_of_invokeJni {m : M} {isStatic : Bool} {receiver : Option Obj}
    {values : List (Value Obj)} {call : Call M Obj} {v : Value Obj}
    (h : invokeJni rt m isStatic receiver values = .ok (call, v)) :
    call.run rt = some v ∧ call.values = values ∧
      ((isStatic = true ∧ call.method = m ∧ call.receiver = none) ∨
        (isStatic = false ∧ ∃ r, receiver = some r ∧ call.method = rt.dispatch (rt.classOf r) m ∧
          call.receiver = some r)) := by
  unfold invokeJni at h
  split at h
  · exact absurd h (by simp)
  · split at h
    · exact absurd h (by simp)
    · next hrun =>
        obtain ⟨rfl, rfl⟩ := Prod.mk.inj (Except.ok.inj h)
        exact ⟨hrun, rfl, Or.inl ⟨rfl, rfl, rfl⟩⟩
  · dsimp only at h
    split at h
    · exact absurd h (by simp)
    · next hrun =>
        obtain ⟨rfl, rfl⟩ := Prod.mk.inj (Except.ok.inj h)
        exact ⟨hrun, rfl, Or.inr ⟨rfl, _, rfl, rfl, rfl⟩⟩

theorem eq_of_invokeByJni {info : Meta C} {sig : Signature} {receiver : Option Obj}
    {as : List (Jvalue Obj)} (h : invokeByJni rt info sig receiver as = .ok o) :
    ∃ m isStatic v, resolve rt ((info.cls.map rt.className).getD []) info.name info.sig =
        some (m, isStatic) ∧
      invokeJni rt m isStatic receiver (List.zipWith jniArg sig.params as) = .ok (o.call, v) ∧
      o.value = jvalueToJs rt (sig.ret.headD 'V') (jniResult (sig.ret.headD 'V') v) := by
  unfold invokeByJni at h
  dsimp only at h
  split at h
  · exact absurd h (by simp)
  · next m isStatic hresolve =>
      split at h
      · exact absurd h (by simp)
      · next call v hinvoke =>
          obtain rfl := Except.ok.inj h
          exact ⟨m, isStatic, v, hresolve, hinvoke, rfl⟩

theorem eq_of_runMethod {thisObj : Option Obj} {types : List (List Char)} {as : List (Jvalue Obj)}
    {c : Char} (hlen : as.length = types.length) {call : Call M Obj} {res : Option (Unpacked Obj)}
    (h : runMethod rt art thisObj types as (c :: types.map shortyOf) = .ok (call, res)) :
    call = ⟨art, if rt.isStatic art then none else thisObj, List.zipWith packed types as⟩ ∧
      res = (call.run rt).map (fun v => unpackResult (rawResult v) c) := by
  unfold runMethod at h
  split at h
  · exact absurd h (by simp)
  · split at h
    · exact absurd h (by simp)
    · split at h
      · exact absurd h (by simp)
      · next regs hregs =>
          rw [incomingArgs_packRegisters hlen hregs] at h
          obtain ⟨rfl, rfl⟩ := Prod.mk.inj (Except.ok.inj h)
          exact ⟨rfl, rfl⟩

theorem eq_of_invokeByInterp {info : Meta C} {sig : Signature} (hproper : sig.Proper)
    (hparen : ')' ∉ sig.params.flatten) (hsig : info.sig = describe sig) {receiver : Option Obj}
    {as : List (Jvalue Obj)} (hlen : as.length = sig.params.length)
    (h : invokeByInterp rt art info sig receiver as = .ok o) :
    o.call = ⟨art, if rt.isStatic art then none else receiver, List.zipWith packed sig.params as⟩ ∧
      ∃ v, o.call.run rt = some v ∧
        o.value = jvalueToJs rt (sig.ret.headD 'V') (jniResult (sig.ret.headD 'V') v) := by
  unfold invokeByInterp at h
  rw [hsig, shortyFromSignature_describe hproper hparen] at h
  dsimp only at h
  split at h
  · exact absurd h (by simp)
  · split at h
    · exact absurd h (by simp)
    · split at h
      · exact absurd h (by simp)
      · exact absurd h (by simp)
      · next call res hrun =>
          obtain ⟨hcall, hres⟩ := eq_of_runMethod hlen hrun
          obtain ⟨v, hv, rfl⟩ := Option.map_eq_some_iff.1 hres.symm
          have hvalue : o = ⟨call, jvalueToJs rt (sig.ret.headD 'V')
              (jniResult (sig.ret.headD 'V') v)⟩ := by
            rw [jvalueToJs_eq hproper.2 v]
            split at h
            · next hvoid => rw [if_pos hvoid, ← Except.ok.inj h]
            · next hvoid => rw [if_neg hvoid, ← Except.ok.inj h]
          rw [hvalue]
          refine ⟨?_, v, hv, rfl⟩
          rw [hcall]
          cases rt.isStatic art <;> rfl

/-! ## The modes agree -/

/-- For every method, receiver and arguments for which both modes complete: they have run the method
    itself on the same values, and return the same, iff JNI runs the method itself and no `byte` or
    `short` among the arguments is below zero. -/
theorem agree_iff [DecidableEq M] (rt : Runtime C M Obj V) (art : M) (receiver : Receiver Obj)
    (args : List V) {byJni byInterp : Outcome M Obj}
    (hjni : jsInvoke rt art "jni" receiver args = .ok byJni)
    (hinterp : jsInvoke rt art "interp" receiver args = .ok byInterp) :
    Agree art byJni byInterp ↔
      RunsItself rt art receiver ∧
        ∀ p ∈ (rt.proto art).params.zip args, ¬ NegativeSubInt rt p.1 p.2 := by
  obtain ⟨sig, as, hsig, has, hjni⟩ := eq_of_jsInvoke hjni
  obtain ⟨sig', as', hsig', has', hinterp⟩ := eq_of_jsInvoke hinterp
  obtain rfl := Option.some.inj (hsig.symm.trans hsig')
  obtain rfl := Except.ok.inj (has.symm.trans has')
  rw [if_pos (Or.inl rfl)] at hjni
  rw [if_neg (by decide), if_pos (Or.inl rfl)] at hinterp
  obtain ⟨c, hfind, hcls, hparams, hproper, hmeta, hkind⟩ := resolveArt_cases hsig
  have hlen := length_packArgs has
  have hparen : ')' ∉ sig.params.flatten := by
    rw [hparams]
    exact rt.noParen art
  obtain ⟨hinterpCall, v', hinterpRun, hinterpValue⟩ :=
    eq_of_invokeByInterp hproper hparen hmeta hlen hinterp
  obtain ⟨m, isStatic, v, hresolve, hinvoke, hvalue⟩ := eq_of_invokeByJni hjni
  obtain ⟨hrun, hvalues, hcall⟩ := eq_of_invokeJni hinvoke
  have hvaluesIff := values_eq_iff hproper.1 has
  -- the same call returns the same
  have hagree : Agree art byJni byInterp ↔ byJni.call = byInterp.call := by
    refine ⟨Agree.call, fun hsame => ?_⟩
    have hmethod : byInterp.call.method = art := by rw [hinterpCall]
    refine ⟨by rw [hsame, hmethod], hmethod, hsame, ?_⟩
    rw [hsame, hinterpRun] at hrun
    rw [hvalue, hinterpValue, Option.some.inj hrun]
  rw [hagree, hinterpCall, Call.eq_iff, hvalues, ← hparams, ← hvaluesIff]
  rw [hcls, Option.map_some, Option.getD_some] at hresolve
  have hid := getMethodID_of_resolve hfind hresolve
  rcases hkind with ⟨hmem, hname, rfl⟩ | ⟨hinit, hname⟩
  · have hne := rt.declared_ne_init c art hmem
    rw [hname, hmeta] at hid
    obtain ⟨rfl, hstatic⟩ := rt.getMethodID_declared c art isStatic m hmem hid
    rw [hstatic]
    rcases hcall with ⟨rfl, hmethod, hreceiver⟩ | ⟨rfl, r, hr, hmethod, hreceiver⟩
    · have hself : RunsItself rt m receiver := ⟨hne, Or.inl hstatic⟩
      simp [hmethod, hreceiver, hself]
    · have hself : RunsItself rt m receiver ↔ rt.dispatch (rt.classOf r) m = m := by
        unfold RunsItself
        rw [hstatic, hr]
        simp [hne]
      rw [hmethod, hreceiver, hr, hself]
      simp
  · -- a constructor is not what is found by the name of its class
    have hmName : rt.methodName m ≠ init := by
      rw [rt.getMethodID_name c _ _ _ m hid, hname]
      exact rt.className_ne_init _
    have hother : byJni.call.method ≠ art := by
      intro hsame
      rcases hcall with ⟨-, hmethod, -⟩ | ⟨-, r, -, hmethod, -⟩
      · exact hmName (by rw [← hmethod, hsame, hinit])
      · exact hmName (by rw [← rt.dispatch_name (rt.classOf r) m, ← hmethod, hsame, hinit])
    exact iff_of_false (fun h => hother h.1) (fun h => h.1.1 hinit)

/-! ## A class and its subclass -/

def fProto : Signature := { params := [['B']], ret := ['I'] }

theorem fProto_proper : fProto.Proper :=
  ⟨by simpa [fProto] using FieldType.primitive (c := 'B') (by decide),
    Or.inr (.primitive (by decide))⟩

/-- `Base` and its subclass `Sub`, by `false` and `true`, as are their methods and
    their objects. Both have a method `f(B)I`; that of `Base` returns its argument, that of `Sub`
    zero. The JavaScript values are integers. -/
def baseAndSub : Runtime Bool Bool Bool Int where
  findClass n :=
    if n = ['B', 'a', 's', 'e'] then some false
    else if n = ['S', 'u', 'b'] then some true
    else none
  className c := if c then ['S', 'u', 'b'] else ['B', 'a', 's', 'e']
  getDeclaredMethods c := [c]
  getDeclaredConstructors _ := []
  declaringClass m := m
  methodName _ := ['f']
  proto _ := fProto
  prettyParams _ := ['b', 'y', 't', 'e']
  isStatic _ := false
  isNative _ := false
  isAbstract _ := false
  getMethodID c n sig st := if n = ['f'] ∧ sig = describe fProto ∧ st = false then some c else none
  classOf o := o
  dispatch c m := c || m
  run m _ values := if m then some (.word 0) else values.head?
  load _ := .ok { registersSize := 2, insSize := 2 }
  isNullish _ := false
  toBool v := v ≠ 0
  toInt32 v := Int32.ofInt v
  isBigInt _ := false
  toBigInt64 v := Int64.ofInt v
  toInt64 v := Int64.ofInt v
  toFloat64 _ := 0
  toFloat _ := 0
  toDouble _ := 0
  newString _ := none
  valueOf _ _ := none
  getJRef _ := none
  utfChars _ := ""
  booleanValue _ := false
  intValue _ := 0
  charValue _ := 0
  longValue _ := 0
  doubleValue _ := 0
  addJRef o := o.toNat
  proper _ := fProto_proper
  noParen _ := by decide
  pretty_noParen _ := by decide
  className_ne_init c := by cases c <;> decide
  declared_ne_init _ _ _ := by decide
  getMethodID_declared c m st m' hm h := by
    obtain ⟨rfl, rfl⟩ : st = false ∧ c = m' := by simpa using h
    exact ⟨(List.mem_singleton.1 hm).symm, rfl⟩
  getMethodID_name c n sig st m h := by
    obtain ⟨⟨rfl, -, -⟩, -⟩ : (n = ['f'] ∧ _ ∧ _) ∧ c = m := by simpa using h
    rfl
  dispatch_name _ _ := rfl

/-- An object of `Base` gets five. -/
theorem base_agrees :
    ∃ byJni byInterp, jsInvoke baseAndSub false "jni" (.jref (some false)) [5] = .ok byJni ∧
      jsInvoke baseAndSub false "interp" (.jref (some false)) [5] = .ok byInterp ∧
      byJni.value = .int32 5 ∧ Agree false byJni byInterp := by
  have hjni : jsInvoke baseAndSub false "jni" (.jref (some false)) [5] =
      .ok ⟨⟨false, some false, [.word 5]⟩, .int32 5⟩ := by decide +kernel
  have hinterp : jsInvoke baseAndSub false "interp" (.jref (some false)) [5] =
      .ok ⟨⟨false, some false, [.word 5]⟩, .int32 5⟩ := by decide +kernel
  have hself : RunsItself baseAndSub false (.jref (some false)) := by
    refine ⟨by decide, Or.inr fun r hr => ?_⟩
    obtain rfl := Option.some.inj hr
    rfl
  have hpositive : ∀ p ∈ (baseAndSub.proto false).params.zip [(5 : Int)],
      ¬ NegativeSubInt baseAndSub p.1 p.2 := by
    intro p hp
    obtain rfl := List.mem_singleton.1 hp
    rintro (⟨-, h⟩ | ⟨h, -⟩)
    · exact absurd h (by decide)
    · exact absurd h (by decide)
  exact ⟨_, _, hjni, hinterp, rfl,
    (agree_iff baseAndSub false _ _ hjni hinterp).2 ⟨hself, hpositive⟩⟩

/-- The interpreter finds 255 for an argument of -1, and an object of `Sub` has its own method run by
    JNI. -/
theorem modes_disagree :
    (∃ byJni byInterp, jsInvoke baseAndSub false "jni" (.jref (some false)) [-1] = .ok byJni ∧
      jsInvoke baseAndSub false "interp" (.jref (some false)) [-1] = .ok byInterp ∧
      byJni.value = .int32 (-1) ∧ byInterp.value = .int32 255 ∧ ¬ Agree false byJni byInterp) ∧
    ∃ byJni byInterp, jsInvoke baseAndSub false "jni" (.jref (some true)) [5] = .ok byJni ∧
      jsInvoke baseAndSub false "interp" (.jref (some true)) [5] = .ok byInterp ∧
      byJni.call.method = true ∧ byInterp.call.method = false ∧ ¬ Agree false byJni byInterp := by
  constructor
  · refine ⟨⟨⟨false, some false, [.word 0xFFFFFFFF]⟩, .int32 (-1)⟩,
      ⟨⟨false, some false, [.word 0xFF]⟩, .int32 255⟩, by decide +kernel, by decide +kernel, rfl, rfl,
      fun h => ?_⟩
    exact absurd h.value (by decide)
  · refine ⟨⟨⟨true, some true, [.word 5]⟩, .int32 0⟩, ⟨⟨false, some true, [.word 5]⟩, .int32 5⟩,
      by decide +kernel, by decide +kernel, rfl, rfl, fun h => ?_⟩
    exact absurd h.jni (by decide)

end ArtPi.Agent.Invoke
