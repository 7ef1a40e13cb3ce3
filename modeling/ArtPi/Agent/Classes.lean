import Mathlib.Logic.Function.Basic

set_option autoImplicit false

/-! # Generated classes (`src/agent/agent_java_registerclass.cpp`, `src/dex/pi_dex_loader.cpp`)

`Java.registerClass` builds a class, has it loaded below or into the loader of the app and puts it
into a registry under its name; `$dispose` takes it out again. A call by class name
(`src/agent/agent_java_ref.cpp`) finds the class through `FindClass`, the registry or the app
loader, and its members in a cache whose key is the name. -/

namespace ArtPi.Agent

abbrev Name := List Char

/-! ## Spellings of a name -/

def slashed (n : Name) : Name := n.map (fun c => if c = '.' then '/' else c)

def dotted (n : Name) : Name := n.map (fun c => if c = '/' then '.' else c)

/-- Removes the `L` and the `;` of a descriptor. -/
def stripped (n : Name) : Name :=
  if 2 < n.length ∧ n.head? = some 'L' ∧ n.getLast? = some ';' then n.tail.dropLast else n

/-- `ToSlash` of the class loader. -/
def toSlash (n : Name) : Name := stripped (slashed n)

/-- `ToDotted` of the class loader. -/
def toDotted (n : Name) : Name := dotted (toSlash n)

def isPattern (n : Name) : Bool := n.contains '*' || n.contains '?'

/-- The names that a class can have. -/
def ValidName (n : Name) : Prop := n ≠ [] ∧ toDotted n = n ∧ isPattern n = false

instance (n : Name) : Decidable (ValidName n) :=
  inferInstanceAs (Decidable (n ≠ [] ∧ toDotted n = n ∧ isPattern n = false))

theorem slashed_slashed (n : Name) : slashed (slashed n) = slashed n := by
  unfold slashed
  rw [List.map_map]
  refine List.map_congr_left (fun c _ => ?_)
  by_cases hc : c = '.'
  · simp [hc]
  · simp [hc]

theorem slashed_dotted (n : Name) : slashed (dotted n) = slashed n := by
  unfold slashed dotted
  rw [List.map_map]
  refine List.map_congr_left (fun c _ => ?_)
  by_cases hc : c = '/'
  · simp [hc]
  · simp [hc]

theorem mem_of_mem_stripped {n : Name} {c : Char} (h : c ∈ stripped n) : c ∈ n := by
  unfold stripped at h
  split at h
  · exact List.mem_of_mem_tail ((List.dropLast_sublist _).subset h)
  · exact h

/-- Only an `L` and a `;` are removed. -/
theorem mem_stripped {n : Name} {c : Char} (h : c ∈ n) (hL : c ≠ 'L') (hsemi : c ≠ ';') :
    c ∈ stripped n := by
  unfold stripped
  split
  · rename_i hform
    obtain ⟨_, hhead, hlast⟩ := hform
    obtain ⟨tl, rfl⟩ : ∃ tl, n = 'L' :: tl := by
      cases n with
      | nil => exact absurd hhead (by simp)
      | cons x tl => exact ⟨tl, by simpa using hhead⟩
    have htl : c ∈ tl := (List.mem_cons.1 h).resolve_left hL
    have hne : tl ≠ [] := List.ne_nil_of_mem htl
    have hlast' : tl.getLast hne = ';' := by
      rw [List.getLast?_cons, List.getLast?_eq_some_getLast hne] at hlast
      simpa using hlast
    rw [← List.dropLast_concat_getLast hne, hlast'] at htl
    rcases List.mem_append.1 htl with h | h
    · exact h
    · exact absurd (List.mem_singleton.1 h) hsemi
  · exact h

theorem slashed_toSlash (n : Name) : slashed (toSlash n) = toSlash n := by
  have hno : ∀ c ∈ toSlash n, (if c = '.' then '/' else c) = c := by
    intro c hc
    obtain ⟨d, _, rfl⟩ := List.mem_map.1 (mem_of_mem_stripped hc)
    by_cases hd : d = '.'
    · simp [hd]
    · simp [hd]
  exact (List.map_congr_left hno).trans (List.map_id' (toSlash n))

theorem ValidName.toSlash_eq {n : Name} (h : ValidName n) : toSlash n = slashed n := by
  have hlen : (toSlash n).length = (slashed n).length := by
    have hback := congrArg List.length h.2.1
    unfold toDotted dotted at hback
    rw [List.length_map] at hback
    rw [hback]
    unfold slashed
    rw [List.length_map]
  unfold toSlash stripped at hlen ⊢
  split
  · rename_i hform
    rw [if_pos hform, List.length_dropLast, List.length_tail] at hlen
    omega
  · rfl

theorem ValidName.eq_of_toSlash_eq {a b : Name} (ha : ValidName a) (hb : ValidName b)
    (h : toSlash a = toSlash b) : a = b := by
  rw [← ha.2.1, ← hb.2.1]
  unfold toDotted
  rw [h]

theorem toSlash_toDotted {n : Name} (h : ValidName (toDotted n)) :
    toSlash (toDotted n) = toSlash n := by
  rw [h.toSlash_eq]
  unfold toDotted
  rw [slashed_dotted, slashed_toSlash]

theorem toSlash_slashed (n : Name) : toSlash (slashed n) = toSlash n := by
  unfold toSlash
  rw [slashed_slashed]

theorem mem_toSlash_iff {n : Name} {c : Char} (hL : c ≠ 'L') (hsemi : c ≠ ';') (hslash : c ≠ '/')
    (hdot : c ≠ '.') : c ∈ toSlash n ↔ c ∈ n := by
  have hmap : c ∈ slashed n ↔ c ∈ n := by
    unfold slashed
    rw [List.mem_map]
    constructor
    · rintro ⟨d, hd, rfl⟩
      by_cases h : d = '.'
      · exact absurd (by simp [h]) hslash
      · simpa [h] using hd
    · exact fun h => ⟨c, h, by simp [hdot]⟩
  rw [← hmap]
  exact ⟨mem_of_mem_stripped, fun h => mem_stripped h hL hsemi⟩

theorem isPattern_eq_of_toSlash_eq {a b : Name} (h : toSlash a = toSlash b) :
    isPattern a = isPattern b := by
  have hmem : ∀ c, c ≠ 'L' → c ≠ ';' → c ≠ '/' → c ≠ '.' → (c ∈ a ↔ c ∈ b) := by
    intro c hL hsemi hslash hdot
    rw [← mem_toSlash_iff hL hsemi hslash hdot, h, mem_toSlash_iff hL hsemi hslash hdot]
  unfold isPattern
  rw [Bool.eq_iff_iff]
  simp [hmem '*' (by decide) (by decide) (by decide) (by decide),
    hmem '?' (by decide) (by decide) (by decide) (by decide)]

/-- Every spelling of the name of a class passes the checks of the lookup. -/
theorem lookable_of_toSlash_eq {n d : Name} (hd : ValidName d) (h : toSlash n = toSlash d) :
    ¬ (n = [] ∨ isPattern n = true) := by
  rintro (rfl | hpat)
  · have hlen := congrArg List.length h
    rw [hd.toSlash_eq] at hlen
    unfold slashed at hlen
    rw [List.length_map] at hlen
    exact hd.1 (List.length_eq_zero_iff.1 hlen.symm)
  · rw [isPattern_eq_of_toSlash_eq h, hd.2.2] at hpat
    exact absurd hpat (by simp)

/-! ## Classes and their members -/

/-- A field as `getDeclaredFields` lists it, with the answer of `GetFieldID` or
    `GetStaticFieldID`. -/
structure JavaField where
  name : Name
  typeName : Name
  isStatic : Bool
  id : Option Nat
  deriving DecidableEq

/-- A method as `getDeclaredMethods` and `getMethods` list it, with the answer of `GetMethodID` or
    `GetStaticMethodID`. -/
structure JavaMethod where
  name : Name
  params : List Name
  ret : Name
  isStatic : Bool
  id : Option Nat
  deriving DecidableEq

/-- What a class and its superclasses declare, the class itself first, and what `getMethods` lists
    for it. -/
structure ClassBody where
  declared : List (List JavaField × List JavaMethod)
  methods : List JavaMethod
  deriving DecidableEq

structure JavaClass extends ClassBody where
  name : Name
  valid : ValidName name
  deriving DecidableEq

structure CachedField where
  id : Nat
  type : Char
  typeName : Name
  isStatic : Bool
  deriving DecidableEq

structure CachedMethod where
  id : Nat
  params : List Name
  ret : Name
  isStatic : Bool
  deriving DecidableEq

structure ClassMembers where
  fields : List (Name × CachedField) := []
  methods : List (Name × CachedMethod) := []
  deriving DecidableEq

def fieldKind (typeName : Name) : Char :=
  if typeName = "int".toList then 'I'
  else if typeName = "long".toList then 'J'
  else if typeName = "boolean".toList then 'Z'
  else if typeName = "byte".toList then 'B'
  else if typeName = "char".toList then 'C'
  else if typeName = "short".toList then 'S'
  else if typeName = "float".toList then 'F'
  else if typeName = "double".toList then 'D'
  else 'L'

def JavaField.cached (f : JavaField) : Option CachedField :=
  f.id.map (fun id =>
    { id := id, type := fieldKind f.typeName, typeName := f.typeName, isStatic := f.isStatic })

def JavaMethod.cached (m : JavaMethod) : Option CachedMethod :=
  m.id.map (fun id => { id := id, params := m.params, ret := m.ret, isStatic := m.isStatic })

/-- The first field of a name is kept. -/
def ClassMembers.addField (cm : ClassMembers) (f : JavaField) : ClassMembers :=
  if f.name ≠ [] ∧ cm.fields.lookup f.name = none then
    match f.cached with
    | some cf => { cm with fields := cm.fields ++ [(f.name, cf)] }
    | none => cm
  else cm

def ClassMembers.addMethod (cm : ClassMembers) (m : JavaMethod) : ClassMembers :=
  if m.name ≠ [] then
    match m.cached with
    | some cmeth => { cm with methods := cm.methods ++ [(m.name, cmeth)] }
    | none => cm
  else cm

/-- The loop of `PrepareClassMembers` over the class and its superclasses. -/
def JavaClass.members (c : JavaClass) : ClassMembers :=
  c.declared.foldl
    (fun cm d => d.2.foldl ClassMembers.addMethod (d.1.foldl ClassMembers.addField cm)) {}

/-! ## The state -/

structure RegisteredClass where
  name : Name
  cls : JavaClass
  deriving DecidableEq

/-- The classes of the boot loader, those of the dex elements of the app loader, the registry of
    generated classes (`g_classes`), the member cache (`g_memberCache`) and the registered classes
    with their handles, the newest first (`g_registered`). -/
structure Classes where
  boot : List JavaClass := []
  app : List JavaClass := []
  generated : Name → Option JavaClass := fun _ => none
  memberCache : Name → Option ClassMembers := fun _ => none
  registered : List (Nat × RegisteredClass) := []
  nextHandle : Nat := 1

namespace Classes

/-- `loadClass` of the app loader: the boot loader is asked first, then the elements in order. -/
def loadByApp (s : Classes) (n : Name) : Option JavaClass :=
  (s.boot ++ s.app).find? (fun c => c.name = n)

/-- `FindClass`; below a managed frame it asks the app loader, else only the boot loader. -/
def findClass (s : Classes) (managed : Bool) (slash : Name) : Option JavaClass :=
  (s.boot ++ if managed then s.app else []).find? (fun c => slashed c.name = slash)

def findGeneratedClass (s : Classes) (n : Name) : Option JavaClass := s.generated (toSlash n)

def findClassViaRegistryOrAppLoader (s : Classes) (n : Name) : Option JavaClass :=
  if n = [] ∨ isPattern n then none
  else
    match s.findGeneratedClass (slashed n) with
    | some c => some c
    | none => s.loadByApp (dotted n)

def findClassWithFallback (s : Classes) (managed : Bool) (n : Name) : Option JavaClass :=
  if n = [] ∨ isPattern n then none
  else
    match s.findClass managed (slashed n) with
    | some c => some c
    | none => s.findClassViaRegistryOrAppLoader n

def prepareClassMembers (s : Classes) (c : JavaClass) : Classes :=
  if c.name = [] then s
  else
    match s.memberCache c.name with
    | some _ => s
    | none => { s with memberCache := Function.update s.memberCache c.name (some c.members) }

/-! ## Registering and disposing -/

/-- How `LoadDex` ends: not at all, with a private loader below the app loader, or with the dex
    elements spliced into the app loader. -/
inductive Loading where
  | failed
  | isolated
  | injected
  deriving DecidableEq

/-- The class in the image that `BuildDex` writes, when the name makes a descriptor that can be
    loaded; a name that looks like a descriptor is taken over with its dots. -/
def buildClass (name : Name) (body : ClassBody) : Option JavaClass :=
  if name.head? = some '[' ∨ (name.head? = some 'L' ∧ name.getLast? = some ';') then none
  else if h : ValidName (toDotted name) then some { body with name := toDotted name, valid := h }
  else none

def loadDex (s : Classes) (loading : Loading) (cls : JavaClass) : Classes :=
  if loading = .injected then { s with app := s.app ++ [cls] } else s

/-- `loadClass` of the loader that `LoadDex` returns; the private one asks its parent first. -/
def loadClass (s : Classes) (loading : Loading) (cls : JavaClass) (n : Name) : Option JavaClass :=
  match s.loadByApp n with
  | some c => some c
  | none => if loading = .isolated ∧ cls.name = n then some cls else none

def registerGeneratedClass (s : Classes) (n : Name) (c : JavaClass) : Classes :=
  { s with generated := Function.update s.generated (toSlash n) (some c) }

def unregisterGeneratedClass (s : Classes) (n : Name) : Classes :=
  { s with generated := Function.update s.generated (toSlash n) none }

/-- `Java.registerClass`; `accepted` when no abstract method is missing and the native methods can
    be registered. -/
def registerClass (s : Classes) (name : Name) (body : ClassBody) (loading : Loading)
    (accepted : Bool) : Classes :=
  if name = [] ∨ '.' ∉ name ∨ loading = .failed then s
  else
    match buildClass name body with
    | none => s
    | some cls =>
      let loaded := s.loadDex loading cls
      match loaded.loadClass loading cls (toDotted name) with
      | none => loaded
      | some c =>
        let s' := loaded.registerGeneratedClass (toDotted name) c
        if accepted then
          let s' := s'.prepareClassMembers c
          { s' with
            registered := (s'.nextHandle, { name := name, cls := c }) :: s'.registered
            nextHandle := s'.nextHandle + 1 }
        else
          -- the entry is removed, not put back to what it was
          s'.unregisterGeneratedClass name

/-- `JsRegDispose` -/
def dispose (s : Classes) (handle : Nat) : Classes :=
  match s.registered.find? (fun r => r.1 = handle) with
  | none => s
  | some r =>
    -- the members of the class stay in the cache
    { s with registered := s.registered.eraseP (fun r => r.1 = handle) }.unregisterGeneratedClass
      r.2.name

/-! ## Calls -/

/-- What a call or a field access is made on: a class name, or an object of a class. -/
inductive Target where
  | name (n : Name)
  | object (c : JavaClass)

/-- The class of the target and the name under which its members are looked up. -/
def resolve (s : Classes) (managed : Bool) : Target → Option (JavaClass × Name)
  | .name n => (s.findClassWithFallback managed n).map (fun c => (c, n))
  | .object c => some (c, c.name)

def Target.isObject : Target → Bool
  | .name _ => false
  | .object _ => true

/-- `LookupMembers`, with `PrepareClassMembers` and a second look when it finds nothing. -/
def lookupMembers (s : Classes) (c : JavaClass) (cname : Name) : Classes × Option ClassMembers :=
  match s.memberCache cname with
  | some mem => (s, some mem)
  | none => (s.prepareClassMembers c, (s.prepareClassMembers c).memberCache cname)

end Classes

/-- The first method of the name that fits. -/
def ClassMembers.choose (mem : ClassMembers) (obj : Bool) (mname : Name) (argCount : Nat) :
    Option CachedMethod :=
  ((mem.methods.filter (fun m => m.1 = mname)).map Prod.snd).find?
    (fun cand => (obj || cand.isStatic) && cand.params.length == argCount)

/-- The reflection over `getMethods` when the cache has no method. -/
def JavaClass.reflect (c : JavaClass) (obj : Bool) (mname : Name) (argCount : Nat) :
    Option CachedMethod :=
  c.methods.findSome? (fun m =>
    if m.name = mname ∧ (obj || m.isStatic) ∧ m.params.length = argCount then m.cached else none)

inductive CallResult where
  | undefined
  | notFound
  | noObject
  | invoked (cls : JavaClass) (m : CachedMethod)
  deriving DecidableEq

/-- The part of `JsJCall` behind the lookup of the members. -/
def callOn (c : JavaClass) (mem : Option ClassMembers) (obj : Bool) (mname : Name)
    (argCount : Nat) : CallResult :=
  let chosen :=
    match mem.bind (fun mem => mem.choose obj mname argCount) with
    | some m => some m
    | none => c.reflect obj mname argCount
  match chosen with
  | none => .notFound
  | some m => if !m.isStatic && !obj then .noObject else .invoked c m

/-- The field that `JsJFieldGet` reads and `JsJFieldSet` writes behind the lookup of the members. -/
def fieldOn (c : JavaClass) (mem : Option ClassMembers) (obj : Bool) (fname : Name) :
    Option (JavaClass × CachedField) :=
  match mem.bind (fun mem => mem.fields.lookup fname) with
  | none => none
  | some f => if f.isStatic || obj then some (c, f) else none

namespace Classes

def jsJCall (s : Classes) (managed : Bool) (t : Target) (mname : Name) (argCount : Nat) :
    Classes × CallResult :=
  match s.resolve managed t with
  | none => (s, .undefined)
  | some (c, cname) =>
    let (s', mem) := s.lookupMembers c cname
    (s', callOn c mem t.isObject mname argCount)

def fieldAccess (s : Classes) (managed : Bool) (t : Target) (fname : Name) :
    Classes × Option (JavaClass × CachedField) :=
  match s.resolve managed t with
  | none => (s, none)
  | some (c, cname) =>
    let (s', mem) := s.lookupMembers c cname
    (s', fieldOn c mem t.isObject fname)

/-- The field that is read; without one the answer is undefined. -/
def jsJFieldGet (s : Classes) (managed : Bool) (t : Target) (fname : Name) :
    Classes × Option (JavaClass × CachedField) :=
  s.fieldAccess managed t fname

/-- The field that is written; without one the answer is false. -/
def jsJFieldSet (s : Classes) (managed : Bool) (t : Target) (fname : Name) :
    Classes × Option (JavaClass × CachedField) :=
  s.fieldAccess managed t fname

end Classes

end ArtPi.Agent
