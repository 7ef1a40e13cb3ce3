import ArtPi.Lib.Runs
import ArtPi.Lib.Segments

set_option autoImplicit false

/-! # The names of references (`src/agent/agent_jni.cpp`)

The tracer prints the class of a reference that goes through JNI. It keeps the names of general objects and those of
classes under the value of the reference, in two tables from which nothing is removed, while the VM hands the value of
a deleted reference out again. -/

namespace ArtPi.Jni.RefNames

open Lib

abbrev Text := List UInt8

def ascii (s : String) : Text := s.toList.map (fun c => UInt8.ofNat c.toNat)

/-- `"0x%lx"` -/
def hexText (n : Nat) : Text := ascii "0x" ++ (Nat.toDigits 16 n).map (fun c => UInt8.ofNat c.toNat)

/-- What `snprintf` leaves in 64 bytes. -/
def fit (t : Text) : Text := t.take 63

/-! ## Short names of types -/

def byte (c : Char) : UInt8 := UInt8.ofNat c.toNat

def replaceByte (old new : UInt8) (t : Text) : Text := t.map (fun b => if b = old then new else b)

/-- The name behind the brackets of an array. -/
def elementName (t : Text) : Text :=
  if t = ascii "Z" then ascii "boolean"
  else if t = ascii "B" then ascii "byte"
  else if t = ascii "C" then ascii "char"
  else if t = ascii "S" then ascii "short"
  else if t = ascii "I" then ascii "int"
  else if t = ascii "J" then ascii "long"
  else if t = ascii "F" then ascii "float"
  else if t = ascii "D" then ascii "double"
  else if t.head? = some (byte 'L') ∧ t.getLast? = some (byte ';') then
    replaceByte (byte '/') (byte '.') (t.drop 1).dropLast
  else t

def withoutPackage (t : Text) : Text :=
  if (ascii "java.lang.").isPrefixOf t then t.drop 10
  else if (ascii "java.util.").isPrefixOf t then t.drop 10
  else
    let mainPart := t.takeWhile (· ≠ byte '$')
    let innerPart := replaceByte (byte '$') (byte '.') (t.dropWhile (· ≠ byte '$'))
    if t.count (byte '.') ≥ 2 || (ascii "android.").isPrefixOf mainPart || (ascii "androidx.").isPrefixOf mainPart ||
        (ascii "kotlin.").isPrefixOf mainPart then
      match splitLast (byte '.') mainPart with
      | some (_, base) => if base ≠ [] then base ++ innerPart else t
      | none => t
    else if innerPart ≠ [] then mainPart ++ innerPart
    else t

def simplifyJavaType (t : Text) : Text :=
  if t = [] ∨ t = ascii "kotlin.Unit" then ascii "void"
  else
    let arrayDims := (t.takeWhile (· = byte '[')).length
    let element := t.dropWhile (· = byte '[')
    withoutPackage (if 0 < arrayDims then elementName element else element) ++
      (List.replicate arrayDims (ascii "[]")).flatten

/-! ## Resolving a reference -/

/-- An object, as JNI shows it: the name of its class, and what `GetStringUTFChars`, `Class.getName` and
    `GetArrayLength` say where its class has them. -/
structure Object where
  className : Text
  utf : Text := []
  target : Text := []
  length : Int := 0

/-- What happens during a call: there is an environment without a pending exception, `GetObjectClass` gives a class, the
    names of this class and of the class that is resolved are found, and the characters of a string are. -/
structure Facts where
  env : Bool := true
  gotClass : Bool := true
  named : Bool := true
  targetNamed : Bool := true
  gotChars : Bool := true

/-- What is printed. -/
inductive Printed where
  | null
  | address (text : Text)
  | string (text : Text)
  | class (text : Text)
  | classAt (text : Text)
  | array (text : Text)
  | object (text : Text)
  deriving DecidableEq

structure Caches where
  classNames : Nat → Option Text := fun _ => none
  objectClassNames : Nat → Option Text := fun _ => none

def classText (cname : Text) : Text := ascii "<class " ++ cname ++ ascii ">"

def objectText (rawAddr : Nat) (sname : Text) : Text :=
  fit (ascii "<" ++ sname ++ ascii "@" ++ hexText rawAddr ++ ascii ">")

def arrayText (rawAddr : Nat) (sname : Text) (len : Int) : Text :=
  fit (ascii "<" ++ sname ++ ascii "[" ++ ascii (toString len) ++ ascii "]@" ++ hexText rawAddr ++ ascii ">")

/-- `SafeReadCString(c, 64)` of a string that ends at its length. -/
def safeReadCString (c : Text) : Text :=
  ((c.takeWhile (· ≠ 0)).take 64).map (fun b => if b.toNat < 0x20 ∨ 0x7e < b.toNat then byte '.' else b)

def safeResolveClass (c : Caches) (rawAddr : Nat) (clazz : Object) (f : Facts) : Printed × Caches :=
  if rawAddr < 0x1000 then (.null, c)
  else
    match c.classNames rawAddr with
    | some name => (.class (classText name), c)
    | none =>
      let cname := if f.targetNamed then clazz.target else []
      if !f.env then (.address (hexText rawAddr), c)
      else if cname ≠ [] then
        (.class (classText cname), { c with classNames := Function.update c.classNames rawAddr (some cname) })
      else (.address (hexText rawAddr), c)

def isStringClass (cname : Text) : Bool := cname = ascii "java.lang.String" || cname = ascii "Ljava/lang/String;"

def isClassClass (cname : Text) : Bool := cname = ascii "java.lang.Class" || cname = ascii "Ljava/lang/Class;"

def isArrayClass (cname : Text) : Bool := cname.head? = some (byte '[')

def safeResolveJObject (c : Caches) (rawAddr : Nat) (obj : Object) (f : Facts) : Printed × Caches :=
  if rawAddr < 0x1000 then (.null, c)
  else
    match c.objectClassNames rawAddr with
    | some name => (.object (objectText rawAddr name), c)
    | none =>
      let cname := if f.named then obj.className else []
      if !f.env || !f.gotClass || cname = [] then (.address (hexText rawAddr), c)
      else if isStringClass cname then
        (.string (ascii "\"" ++ (if f.gotChars then safeReadCString obj.utf else ascii "<string>") ++ ascii "\""), c)
      else if isClassClass cname then
        let targetClsName := if f.targetNamed then obj.target else []
        if targetClsName ≠ [] then
          (.class (classText targetClsName),
           { c with classNames := Function.update c.classNames rawAddr (some targetClsName) })
        else (.classAt (fit (ascii "<class@" ++ hexText rawAddr ++ ascii ">")), c)
      else if isArrayClass cname then (.array (arrayText rawAddr (simplifyJavaType cname) obj.length), c)
      else
        let sname := simplifyJavaType cname
        (.object (objectText rawAddr sname),
         { c with objectClassNames := Function.update c.objectClassNames rawAddr (some sname) })

/-! ## Histories -/

/-- A call of one of the two functions, with the object that the reference denoted. -/
structure Resolution where
  isClass : Bool
  rawAddr : Nat
  obj : Object
  facts : Facts

/-- What the references of the VM denote, the tables, and the calls so far, the last one first; no function reads
    those. -/
structure State where
  refs : Nat → Option Object := fun _ => none
  caches : Caches := {}
  history : List Resolution := []

inductive Op where
  /-- a value that is free denotes an object -/
  | create (rawAddr : Nat) (obj : Object)
  | delete (rawAddr : Nat)
  | resolveClass (rawAddr : Nat) (f : Facts)
  | resolveJObject (rawAddr : Nat) (f : Facts)

def State.step (s : State) : Op → State
  | .create rawAddr obj =>
    if (s.refs rawAddr).isNone then { s with refs := Function.update s.refs rawAddr (some obj) } else s
  | .delete rawAddr => { s with refs := Function.update s.refs rawAddr none }
  | .resolveClass rawAddr f =>
    match s.refs rawAddr with
    | none => s
    | some obj => { s with
        caches := (safeResolveClass s.caches rawAddr obj f).2
        history := ⟨true, rawAddr, obj, f⟩ :: s.history }
  | .resolveJObject rawAddr f =>
    match s.refs rawAddr with
    | none => s
    | some obj => { s with
        caches := (safeResolveJObject s.caches rawAddr obj f).2
        history := ⟨false, rawAddr, obj, f⟩ :: s.history }

/-- Neither a string, a class nor an array. -/
def Object.isGeneral (o : Object) : Bool :=
  o.className ≠ [] && !isStringClass o.className && !isClassClass o.className && !isArrayClass o.className

/-- A class that is printed is that of the object. -/
def Printed.NamesClassOf (rawAddr : Nat) (obj : Object) : Printed → Prop
  | .class text => isClassClass obj.className = true ∧ text = classText obj.target
  | .array text => isArrayClass obj.className = true ∧
      text = arrayText rawAddr (simplifyJavaType obj.className) obj.length
  | .object text => obj.isGeneral = true ∧ text = objectText rawAddr (simplifyJavaType obj.className)
  | .null | .address _ | .string _ | .classAt _ => True

/-- A class that is printed is the one denoted. -/
def Printed.Names (clazz : Object) (p : Printed) : Prop := ∀ text, p = .class text → text = classText clazz.target

/-- What a call prints for a reference is the class of the object that it denotes now. -/
def Op.PrintsCurrent (s : State) : Op → Prop
  | .create _ _ | .delete _ => True
  | .resolveClass rawAddr f =>
    ∀ obj, s.refs rawAddr = some obj → (safeResolveClass s.caches rawAddr obj f).1.Names obj
  | .resolveJObject rawAddr f =>
    ∀ obj, s.refs rawAddr = some obj → (safeResolveJObject s.caches rawAddr obj f).1.NamesClassOf rawAddr obj

/-! ## The condition -/

/-- The call could read the class of a general object. -/
def Resolution.readObject (rawAddr : Nat) (e : Resolution) : Bool :=
  !e.isClass && e.rawAddr = rawAddr && e.facts.env && e.facts.gotClass && e.facts.named && e.obj.isGeneral

/-- The call could read the name of a class. -/
def Resolution.readClass (rawAddr : Nat) (e : Resolution) : Bool :=
  e.rawAddr = rawAddr && e.facts.env && e.facts.targetNamed && e.obj.target ≠ [] &&
    (e.isClass || e.facts.gotClass && e.facts.named && isClassClass e.obj.className)

/-- When the value was last used for a reference whose class was read, it was for an object of the same class. -/
def Op.SameAsLast (s : State) : Op → Prop
  | .create _ _ | .delete _ => True
  | .resolveClass rawAddr _ => 0x1000 ≤ rawAddr → ∀ obj, s.refs rawAddr = some obj →
      ∀ e, s.history.find? (Resolution.readClass rawAddr) = some e → e.obj.target = obj.target
  | .resolveJObject rawAddr _ => 0x1000 ≤ rawAddr → ∀ obj, s.refs rawAddr = some obj →
      ∀ e, s.history.find? (Resolution.readObject rawAddr) = some e → obj.isGeneral = true ∧
        objectText rawAddr (simplifyJavaType e.obj.className) = objectText rawAddr (simplifyJavaType obj.className)

/-! ## The tables and the history -/

/-- A table has for a value what was read last under it. -/
structure Inv (s : State) : Prop where
  objects : ∀ raw, 0x1000 ≤ raw → (s.caches.objectClassNames raw).map (objectText raw) =
    (s.history.find? (Resolution.readObject raw)).map (fun e => objectText raw (simplifyJavaType e.obj.className))
  classes : ∀ raw, 0x1000 ≤ raw →
    s.caches.classNames raw = (s.history.find? (Resolution.readClass raw)).map (fun e => e.obj.target)

theorem Inv.init : Inv {} := ⟨fun _ _ => rfl, fun _ _ => rfl⟩

section

variable {s : State} {rawAddr raw : Nat} {obj : Object} {f : Facts} {c : Caches}

theorem isClassClass_of_isStringClass {cname : Text} (h : isStringClass cname = true) : isClassClass cname = false := by
  unfold isStringClass at h
  rw [Bool.or_eq_true, decide_eq_true_eq, decide_eq_true_eq] at h
  rcases h with rfl | rfl <;> decide

theorem isGeneral_isClassClass (h : obj.isGeneral = true) : isClassClass obj.className = false := by
  unfold Object.isGeneral at h
  simp only [Bool.and_eq_true, Bool.not_eq_true'] at h
  exact h.1.2

theorem Resolution.readObject_ne {e : Resolution} (h : e.rawAddr ≠ raw) : e.readObject raw = false := by
  simp [Resolution.readObject, h]

theorem Resolution.readClass_ne {e : Resolution} (h : e.rawAddr ≠ raw) : e.readClass raw = false := by
  simp [Resolution.readClass, h]

/-- What `SafeResolveClass` does to the tables. -/
theorem safeResolveClass_caches (h : 0x1000 ≤ rawAddr) :
    (safeResolveClass c rawAddr obj f).2 =
      if (c.classNames rawAddr).isNone && (Resolution.readClass rawAddr ⟨true, rawAddr, obj, f⟩) then
        { c with classNames := Function.update c.classNames rawAddr (some obj.target) }
      else c := by
  unfold safeResolveClass Resolution.readClass
  rw [if_neg (by omega)]
  cases c.classNames rawAddr with
  | some name => simp
  | none => cases f.env <;> cases f.targetNamed <;> by_cases ht : obj.target = [] <;> simp [ht]

theorem safeResolveClass_names (h : 0x1000 ≤ rawAddr) :
    (safeResolveClass c rawAddr obj f).1.Names obj ↔ ∀ name, c.classNames rawAddr = some name → name = obj.target := by
  unfold safeResolveClass
  rw [if_neg (by omega)]
  cases hc : c.classNames rawAddr with
  | some name =>
    unfold Printed.Names
    simp only [Printed.class.injEq, forall_eq', Option.some.injEq]
    unfold classText
    rw [List.append_left_inj, List.append_right_inj]
  | none =>
    refine iff_of_true ?_ (by simp)
    unfold Printed.Names
    cases f.env <;> cases f.targetNamed <;> by_cases ht : obj.target = [] <;> simp [ht]

/-- What `SafeResolveJObject` does to the tables. -/
theorem safeResolveJObject_caches (h : 0x1000 ≤ rawAddr) :
    (safeResolveJObject c rawAddr obj f).2 =
      if (c.objectClassNames rawAddr).isSome then c
      else if Resolution.readObject rawAddr ⟨false, rawAddr, obj, f⟩ then
        { c with objectClassNames :=
            Function.update c.objectClassNames rawAddr (some (simplifyJavaType obj.className)) }
      else if Resolution.readClass rawAddr ⟨false, rawAddr, obj, f⟩ then
        { c with classNames := Function.update c.classNames rawAddr (some obj.target) }
      else c := by
  unfold safeResolveJObject Resolution.readObject Resolution.readClass Object.isGeneral
  rw [if_neg (by omega)]
  cases c.objectClassNames rawAddr with
  | some name => simp
  | none =>
    dsimp only
    by_cases hread : (f.env && f.gotClass && f.named && obj.className ≠ []) = true
    · simp only [Bool.and_eq_true, decide_eq_true_eq] at hread
      obtain ⟨⟨⟨henv, hgot⟩, hnamed⟩, hne⟩ := hread
      cases hstring : isStringClass obj.className with
      | true => simp [henv, hgot, hnamed, hne, hstring, isClassClass_of_isStringClass hstring]
      | false =>
        cases hclass : isClassClass obj.className with
        | true =>
          cases f.targetNamed <;> by_cases ht : obj.target = [] <;>
            simp [henv, hgot, hnamed, hne, hstring, hclass, ht]
        | false =>
          cases harray : isArrayClass obj.className <;> simp [henv, hgot, hnamed, hne, hstring, hclass, harray]
    · -- nothing is read, and an empty name is that of no class
      have hempty : obj.className = [] → isClassClass obj.className = false := by
        intro hnil
        rw [hnil]
        decide
      cases henv : f.env <;> cases hgot : f.gotClass <;> cases hnamed : f.named <;>
        by_cases hne : obj.className = [] <;> simp_all

theorem safeResolveJObject_names (h : 0x1000 ≤ rawAddr) :
    (safeResolveJObject c rawAddr obj f).1.NamesClassOf rawAddr obj ↔
      ∀ name, c.objectClassNames rawAddr = some name → obj.isGeneral = true ∧
        objectText rawAddr name = objectText rawAddr (simplifyJavaType obj.className) := by
  unfold safeResolveJObject
  rw [if_neg (by omega)]
  cases hc : c.objectClassNames rawAddr with
  | some name => simp [Printed.NamesClassOf]
  | none =>
    refine iff_of_true ?_ (by simp)
    dsimp only
    cases f.named with
    | false => simp [Printed.NamesClassOf]
    | true =>
      rw [if_pos rfl]
      split
      · trivial
      · rename_i hread
        split
        · trivial
        · rename_i hstring
          split
          · rename_i hclass
            cases f.targetNamed <;> by_cases ht : obj.target = [] <;> simp [Printed.NamesClassOf, ht, hclass]
          · rename_i hclass
            split
            · rename_i harray
              exact ⟨harray, rfl⟩
            · rename_i harray
              refine ⟨?_, rfl⟩
              simp only [Bool.or_eq_true, not_or, decide_eq_true_eq] at hread
              simp [Object.isGeneral, hread.2, hstring, hclass, harray]

/-! ## One step -/

theorem find?_cons_ne {p : Resolution → Bool} {e : Resolution} (h : p e = false) (es : List Resolution) :
    (e :: es).find? p = es.find? p := by
  rw [List.find?_cons, h]

theorem find?_cons_eq {p : Resolution → Bool} {e : Resolution} (h : p e = true) (es : List Resolution) :
    (e :: es).find? p = some e := by
  rw [List.find?_cons, h]

theorem Inv.class_iff (h : Inv s) (hraw : 0x1000 ≤ rawAddr) :
    (∀ e, s.history.find? (Resolution.readClass rawAddr) = some e → e.obj.target = obj.target) ↔
      ∀ name, s.caches.classNames rawAddr = some name → name = obj.target := by
  rw [h.classes rawAddr hraw]
  cases s.history.find? (Resolution.readClass rawAddr) <;> simp

theorem Inv.object_iff (h : Inv s) (hraw : 0x1000 ≤ rawAddr) :
    (∀ e, s.history.find? (Resolution.readObject rawAddr) = some e → obj.isGeneral = true ∧
        objectText rawAddr (simplifyJavaType e.obj.className) = objectText rawAddr (simplifyJavaType obj.className)) ↔
      ∀ name, s.caches.objectClassNames rawAddr = some name → obj.isGeneral = true ∧
        objectText rawAddr name = objectText rawAddr (simplifyJavaType obj.className) := by
  have hobjects := h.objects rawAddr hraw
  cases hc : s.caches.objectClassNames rawAddr with
  | none =>
    cases hf : s.history.find? (Resolution.readObject rawAddr) with
    | none => simp
    | some e => simp [hc, hf] at hobjects
  | some name =>
    cases hf : s.history.find? (Resolution.readObject rawAddr) with
    | none => simp [hc, hf] at hobjects
    | some e =>
      simp only [hc, hf, Option.map_some, Option.some.injEq] at hobjects
      simp [hobjects]

theorem safeResolveClass_other (hne : raw ≠ rawAddr) :
    (safeResolveClass c rawAddr obj f).2.classNames raw = c.classNames raw := by
  by_cases h : 0x1000 ≤ rawAddr
  · rw [safeResolveClass_caches h]
    split
    · exact Function.update_of_ne hne _ _
    · rfl
  · unfold safeResolveClass
    rw [if_pos (by omega)]

theorem safeResolveClass_objects :
    (safeResolveClass c rawAddr obj f).2.objectClassNames = c.objectClassNames := by
  by_cases h : 0x1000 ≤ rawAddr
  · rw [safeResolveClass_caches h]
    split <;> rfl
  · unfold safeResolveClass
    rw [if_pos (by omega)]

theorem safeResolveJObject_other (hne : raw ≠ rawAddr) :
    (safeResolveJObject c rawAddr obj f).2.classNames raw = c.classNames raw ∧
      (safeResolveJObject c rawAddr obj f).2.objectClassNames raw = c.objectClassNames raw := by
  by_cases h : 0x1000 ≤ rawAddr
  · rw [safeResolveJObject_caches h]
    split
    · exact ⟨rfl, rfl⟩
    · split
      · exact ⟨rfl, Function.update_of_ne hne _ _⟩
      · split
        · exact ⟨Function.update_of_ne hne _ _, rfl⟩
        · exact ⟨rfl, rfl⟩
  · unfold safeResolveJObject
    rw [if_pos (by omega)]
    exact ⟨rfl, rfl⟩

theorem Inv.resolveClass (h : Inv s)
    (hok : 0x1000 ≤ rawAddr → ∀ name, s.caches.classNames rawAddr = some name → name = obj.target) :
    Inv { s with
      caches := (safeResolveClass s.caches rawAddr obj f).2
      history := ⟨true, rawAddr, obj, f⟩ :: s.history } := by
  constructor
  · intro raw hraw
    have hnot : Resolution.readObject raw ⟨true, rawAddr, obj, f⟩ = false := by simp [Resolution.readObject]
    rw [safeResolveClass_objects, find?_cons_ne hnot]
    exact h.objects raw hraw
  · intro raw hraw
    by_cases hne : raw = rawAddr
    · subst hne
      cases hread : Resolution.readClass raw ⟨true, raw, obj, f⟩ with
      | false =>
        rw [find?_cons_ne hread, safeResolveClass_caches hraw, hread, Bool.and_false, if_neg (by simp)]
        exact h.classes raw hraw
      | true =>
        rw [find?_cons_eq hread, safeResolveClass_caches hraw, hread]
        cases hc : s.caches.classNames raw with
        | none => simp
        | some name =>
          have hname : name = obj.target := hok hraw name hc
          simp [hc, hname]
    · rw [safeResolveClass_other hne, find?_cons_ne (Resolution.readClass_ne (Ne.symm hne))]
      exact h.classes raw hraw

theorem Inv.resolveJObject (h : Inv s)
    (hok : 0x1000 ≤ rawAddr → ∀ name, s.caches.objectClassNames rawAddr = some name → obj.isGeneral = true ∧
      objectText rawAddr name = objectText rawAddr (simplifyJavaType obj.className)) :
    Inv { s with
      caches := (safeResolveJObject s.caches rawAddr obj f).2
      history := ⟨false, rawAddr, obj, f⟩ :: s.history } := by
  -- a call does not read the class of a general object and the name of a class
  have hexcl : obj.isGeneral = true → Resolution.readClass rawAddr ⟨false, rawAddr, obj, f⟩ = false := by
    intro hgeneral
    simp [Resolution.readClass, isGeneral_isClassClass hgeneral]
  constructor
  · intro raw hraw
    by_cases hne : raw = rawAddr
    · subst hne
      cases hread : Resolution.readObject raw ⟨false, raw, obj, f⟩ with
      | false =>
        have hsame : (safeResolveJObject s.caches raw obj f).2.objectClassNames = s.caches.objectClassNames := by
          rw [safeResolveJObject_caches hraw, hread]
          split
          · rfl
          · rw [if_neg Bool.false_ne_true]
            split <;> rfl
        rw [find?_cons_ne hread, hsame]
        exact h.objects raw hraw
      | true =>
        rw [find?_cons_eq hread, safeResolveJObject_caches hraw, hread]
        cases hc : s.caches.objectClassNames raw with
        | none => simp
        | some name =>
          have htext := (hok hraw name hc).2
          simp [hc, htext]
    · rw [(safeResolveJObject_other hne).2, find?_cons_ne (Resolution.readObject_ne (Ne.symm hne))]
      exact h.objects raw hraw
  · intro raw hraw
    by_cases hne : raw = rawAddr
    · subst hne
      cases hread : Resolution.readClass raw ⟨false, raw, obj, f⟩ with
      | false =>
        have hsame : (safeResolveJObject s.caches raw obj f).2.classNames = s.caches.classNames := by
          rw [safeResolveJObject_caches hraw, hread]
          split
          · rfl
          · split <;> rfl
        rw [find?_cons_ne hread, hsame]
        exact h.classes raw hraw
      | true =>
        have hgeneral : obj.isGeneral ≠ true := by
          intro hyes
          rw [hexcl hyes] at hread
          exact Bool.false_ne_true hread
        have hobject : Resolution.readObject raw ⟨false, raw, obj, f⟩ = false := by
          simp [Resolution.readObject, hgeneral]
        have hnone : s.caches.objectClassNames raw = none := by
          cases hc : s.caches.objectClassNames raw with
          | none => rfl
          | some name => exact absurd (hok hraw name hc).1 hgeneral
        rw [find?_cons_eq hread, safeResolveJObject_caches hraw, hread, hobject, hnone]
        simp
    · rw [(safeResolveJObject_other hne).1, find?_cons_ne (Resolution.readClass_ne (Ne.symm hne))]
      exact h.classes raw hraw

theorem Inv.step {op : Op} (h : Inv s) (hok : op.SameAsLast s) : Inv (s.step op) := by
  cases op with
  | create rawAddr obj =>
    unfold State.step
    dsimp only
    split
    · exact ⟨h.objects, h.classes⟩
    · exact h
  | delete rawAddr => exact ⟨h.objects, h.classes⟩
  | resolveClass rawAddr f =>
    unfold State.step
    dsimp only
    cases hobj : s.refs rawAddr with
    | none => exact h
    | some obj => exact h.resolveClass (fun hraw => (h.class_iff hraw).mp (hok hraw obj hobj))
  | resolveJObject rawAddr f =>
    unfold State.step
    dsimp only
    cases hobj : s.refs rawAddr with
    | none => exact h
    | some obj => exact h.resolveJObject (fun hraw => (h.object_iff hraw).mp (hok hraw obj hobj))

theorem printsCurrent_iff (h : Inv s) (op : Op) : op.SameAsLast s ↔ op.PrintsCurrent s := by
  cases op with
  | create rawAddr obj => exact Iff.rfl
  | delete rawAddr => exact Iff.rfl
  | resolveClass rawAddr f =>
    unfold Op.SameAsLast Op.PrintsCurrent
    by_cases hraw : 0x1000 ≤ rawAddr
    · have hiff : ∀ obj, (∀ e, s.history.find? (Resolution.readClass rawAddr) = some e → e.obj.target = obj.target) ↔
          (safeResolveClass s.caches rawAddr obj f).1.Names obj :=
        fun obj => (h.class_iff hraw).trans (safeResolveClass_names hraw).symm
      simp only [hraw, forall_const, hiff]
    · refine iff_of_true (fun hyes => absurd hyes hraw) (fun obj _ => ?_)
      unfold safeResolveClass
      rw [if_pos (by omega)]
      simp [Printed.Names]
  | resolveJObject rawAddr f =>
    unfold Op.SameAsLast Op.PrintsCurrent
    by_cases hraw : 0x1000 ≤ rawAddr
    · have hiff : ∀ obj, (∀ e, s.history.find? (Resolution.readObject rawAddr) = some e → obj.isGeneral = true ∧
          objectText rawAddr (simplifyJavaType e.obj.className) =
            objectText rawAddr (simplifyJavaType obj.className)) ↔
          (safeResolveJObject s.caches rawAddr obj f).1.NamesClassOf rawAddr obj :=
        fun obj => (h.object_iff hraw).trans (safeResolveJObject_names hraw).symm
      simp only [hraw, forall_const, hiff]
    · refine iff_of_true (fun hyes => absurd hyes hraw) (fun obj _ => ?_)
      unfold safeResolveJObject
      rw [if_pos (by omega)]
      trivial

end

/-! ## Histories -/

/-- What is printed along a history is current exactly when every reference that is resolved has the class of the last
    one of its value whose class was read. -/
theorem run_printsCurrent_iff (ops : List Op) :
    Along State.step (fun s op => op.PrintsCurrent s) {} ops ↔
      Along State.step (fun s op => op.SameAsLast s) {} ops := by
  have hkeep : ∀ (s : State) (op : Op), Inv s → True → op.SameAsLast s → Inv (s.step op) :=
    fun s op h _ hok => h.step hok
  have hiff : ∀ (s : State) (op : Op), Inv s → True → (op.SameAsLast s ↔ op.PrintsCurrent s) :=
    fun s op h _ => printsCurrent_iff h op
  exact (Along.iff_of_invariant hkeep hiff Inv.init (Along.of_forall (fun _ _ => trivial) ops _)).symm

def fileObject : Object := { className := ascii "java.io.File" }

def threadObject : Object := { className := ascii "java.lang.Thread" }

/-- A reference to a file is printed and deleted, and its value used for a thread. -/
def reused : List Op :=
  [.create 0x7003 fileObject, .resolveJObject 0x7003 {}, .delete 0x7003, .create 0x7003 threadObject,
    .resolveJObject 0x7003 {}]

/-- The thread is printed as a file. -/
theorem reused_prints_file :
    ¬ ∀ ops : List Op, Along State.step (fun s op => op.PrintsCurrent s) {} ops := by
  intro h
  have hlast : (safeResolveJObject { objectClassNames := Function.update (fun _ => none) 0x7003 (some (ascii "File")) }
      0x7003 threadObject {}).1.NamesClassOf 0x7003 threadObject := (h reused).2.2.2.2.1 threadObject rfl
  have htext : objectText 0x7003 (ascii "File") = objectText 0x7003 (ascii "Thread") := hlast.2
  exact absurd htext (by decide)

end ArtPi.Jni.RefNames
