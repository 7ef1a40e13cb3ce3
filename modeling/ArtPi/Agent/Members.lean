import ArtPi.Lib.Runs
import ArtPi.Agent.Classes

set_option autoImplicit false

/-! # Members of replaced classes (`src/agent/agent_java_ref.cpp`, `g_memberCache`)

Registering and disposing a class leave the member cache alone, so after a class has been replaced
the cache may still hold the members of the old one. `run_follows` says in which runs every call by
name uses the members of the class that is registered under that name. -/

namespace ArtPi.Agent

open ArtPi.Lib

namespace Classes

/-! ## The registered class of a name -/

/-- The class that is registered under a name: that of the newest registration that has not been
    disposed. -/
def current (s : Classes) (n : Name) : Option RegisteredClass :=
  (s.registered.find? (fun r => toSlash r.2.name = toSlash n)).map Prod.snd

/-- The state without its member cache. -/
def forgetMembers (s : Classes) : Classes := { s with memberCache := fun _ => none }

end Classes

/-- The method is one of the class or of its superclasses. -/
def JavaClass.HasMethod (c : JavaClass) (m : CachedMethod) : Prop :=
  (∃ jm ∈ c.methods, jm.cached = some m) ∨ ∃ d ∈ c.declared, ∃ jm ∈ d.2, jm.cached = some m

instance (c : JavaClass) (m : CachedMethod) : Decidable (c.HasMethod m) :=
  inferInstanceAs (Decidable ((∃ jm ∈ c.methods, jm.cached = some m) ∨
    ∃ d ∈ c.declared, ∃ jm ∈ d.2, jm.cached = some m))

def JavaClass.HasField (c : JavaClass) (f : CachedField) : Prop :=
  ∃ d ∈ c.declared, ∃ jf ∈ d.1, jf.cached = some f

namespace Classes

/-- Calls by name follow the registered classes: they find the class that is registered under the
    name, use only its members, and do what they would do without the cache. -/
structure Follows (s : Classes) : Prop where
  found : ∀ managed n rc, s.current n = some rc → s.findClassWithFallback managed n = some rc.cls
  method : ∀ managed n rc mname argCount c m, s.current n = some rc →
    (s.jsJCall managed (.name n) mname argCount).2 = .invoked c m → c = rc.cls ∧ rc.cls.HasMethod m
  field : ∀ managed n rc fname c f, s.current n = some rc →
    ((s.jsJFieldGet managed (.name n) fname).2 = some (c, f) ∨
      (s.jsJFieldSet managed (.name n) fname).2 = some (c, f)) → c = rc.cls ∧ rc.cls.HasField f
  call_fresh : ∀ managed n rc mname argCount, s.current n = some rc →
    (s.jsJCall managed (.name n) mname argCount).2
      = (s.forgetMembers.jsJCall managed (.name n) mname argCount).2
  field_fresh : ∀ managed n rc fname, s.current n = some rc →
    (s.jsJFieldGet managed (.name n) fname).2
        = (s.forgetMembers.jsJFieldGet managed (.name n) fname).2 ∧
      (s.jsJFieldSet managed (.name n) fname).2
        = (s.forgetMembers.jsJFieldSet managed (.name n) fname).2

/-! ## Runs -/

inductive Op where
  | registerClass (name : Name) (body : ClassBody) (loading : Loading) (accepted : Bool)
  | dispose (handle : Nat)
  | call (managed : Bool) (t : Target) (mname : Name) (argCount : Nat)
  | fieldGet (managed : Bool) (t : Target) (fname : Name)
  | fieldSet (managed : Bool) (t : Target) (fname : Name)

def step (s : Classes) : Op → Classes
  | .registerClass name body loading accepted => s.registerClass name body loading accepted
  | .dispose handle => s.dispose handle
  | .call managed t mname argCount => (s.jsJCall managed t mname argCount).1
  | .fieldGet managed t fname => (s.jsJFieldGet managed t fname).1
  | .fieldSet managed t fname => (s.jsJFieldSet managed t fname).1

/-- The class that a registration gets from its loader. -/
def loadedClass (s : Classes) (name : Name) (body : ClassBody) (loading : Loading) :
    Option JavaClass :=
  if name = [] ∨ '.' ∉ name ∨ loading = .failed then none
  else (buildClass name body).bind (fun cls =>
    (s.loadDex loading cls).loadClass loading cls (toDotted name))

/-- What a registration or a disposal may not do: put a class under a name for which the members of
    another class are cached, or take out the entry of another registration of the same name. -/
def Op.Safe (s : Classes) : Op → Prop
  | .registerClass name body loading accepted =>
    ∀ c ∈ s.loadedClass name body loading,
      if accepted then s.memberCache c.name = none ∨ s.memberCache c.name = some c.members
      else ∀ r ∈ s.registered, toSlash r.2.name ≠ toSlash name
  | .dispose handle =>
    ∀ r ∈ s.registered.find? (fun r => r.1 = handle),
      ∀ r' ∈ s.registered.eraseP (fun r => r.1 = handle), toSlash r'.2.name ≠ toSlash r.2.name
  | _ => True

instance (s : Classes) : (op : Op) → Decidable (op.Safe s)
  | .registerClass name body loading accepted =>
    inferInstanceAs (Decidable (∀ c ∈ s.loadedClass name body loading,
      if accepted then s.memberCache c.name = none ∨ s.memberCache c.name = some c.members
      else ∀ r ∈ s.registered, toSlash r.2.name ≠ toSlash name))
  | .dispose handle =>
    inferInstanceAs (Decidable (∀ r ∈ s.registered.find? (fun r => r.1 = handle),
      ∀ r' ∈ s.registered.eraseP (fun r => r.1 = handle), toSlash r'.2.name ≠ toSlash r.2.name))
  | .call .. => inferInstanceAs (Decidable True)
  | .fieldGet .. => inferInstanceAs (Decidable True)
  | .fieldSet .. => inferInstanceAs (Decidable True)

/-! ## The classes that a name leads to -/

/-- `FindClass` finds what the app loader finds. -/
theorem findClass_eq_some {s : Classes} {managed : Bool} {n : Name} {c : JavaClass}
    (h : s.findClass managed (slashed n) = some c) :
    toSlash c.name = toSlash n ∧ s.loadByApp c.name = some c := by
  unfold findClass at h
  have hname : slashed c.name = slashed n := by simpa using List.find?_some h
  have hpred : ∀ x : JavaClass, decide (slashed x.name = slashed n) = decide (x.name = c.name) := by
    intro x
    rw [decide_eq_decide, ← hname]
    refine ⟨fun hx => ?_, fun hx => by rw [hx]⟩
    refine x.valid.eq_of_toSlash_eq c.valid ?_
    rw [x.valid.toSlash_eq, c.valid.toSlash_eq, hx]
  refine ⟨by unfold toSlash; rw [hname], ?_⟩
  unfold loadByApp
  simp only [hpred] at h
  cases managed with
  | true => exact h
  | false =>
    simp only [Bool.false_eq_true, if_false, List.append_nil] at h
    rw [List.find?_append, h]
    rfl

/-- What is known about a class while it is the registered one. -/
structure Held (s : Classes) (rc : RegisteredClass) : Prop where
  name : rc.cls.name = toDotted rc.name
  generated : s.generated (toSlash rc.name) = some rc.cls
  app : ∀ c, s.loadByApp rc.cls.name = some c → c = rc.cls
  cached : s.memberCache rc.cls.name = some rc.cls.members

theorem Held.toSlash_cls {s : Classes} {rc : RegisteredClass} (h : s.Held rc) :
    toSlash rc.cls.name = toSlash rc.name := by
  have hvalid := rc.cls.valid
  rw [h.name] at hvalid ⊢
  exact toSlash_toDotted hvalid

theorem Held.found {s : Classes} {rc : RegisteredClass} (h : s.Held rc) {n : Name}
    (hn : toSlash rc.name = toSlash n) (managed : Bool) :
    s.findClassWithFallback managed n = some rc.cls := by
  have hlook := lookable_of_toSlash_eq rc.cls.valid (hn.symm.trans h.toSlash_cls.symm)
  unfold findClassWithFallback
  rw [if_neg hlook]
  cases hfind : s.findClass managed (slashed n) with
  | some c =>
    obtain ⟨hslash, happ⟩ := findClass_eq_some hfind
    have hname : c.name = rc.cls.name :=
      c.valid.eq_of_toSlash_eq rc.cls.valid (hslash.trans (hn.symm.trans h.toSlash_cls.symm))
    rw [hname] at happ
    rw [h.app c happ]
  | none =>
    unfold findClassViaRegistryOrAppLoader findGeneratedClass
    rw [if_neg hlook, toSlash_slashed, ← hn, h.generated]

/-! ## The members that a name leads to -/

theorem prepareClassMembers_cases (s : Classes) (c : JavaClass) :
    (s.prepareClassMembers c = s ∧ ∃ mem, s.memberCache c.name = some mem) ∨
      (s.memberCache c.name = none ∧ s.prepareClassMembers c =
        { s with memberCache := Function.update s.memberCache c.name (some c.members) }) := by
  unfold prepareClassMembers
  rw [if_neg c.valid.1]
  cases h : s.memberCache c.name with
  | some mem => exact .inl ⟨rfl, mem, rfl⟩
  | none => exact .inr ⟨rfl, rfl⟩

theorem memberCache_prepareClassMembers {s : Classes} {c : JavaClass} {n : Name}
    {mem : ClassMembers} (h : s.memberCache n = some mem) :
    (s.prepareClassMembers c).memberCache n = some mem := by
  obtain ⟨heq, _⟩ | ⟨hnone, heq⟩ := s.prepareClassMembers_cases c
  · rw [heq, h]
  · have hne : n ≠ c.name := by
      rintro rfl
      exact absurd (h.symm.trans hnone) (by simp)
    rw [heq]
    exact (Function.update_of_ne hne _ _).trans h

theorem prepareClassMembers_frame (s : Classes) (c : JavaClass) :
    (s.prepareClassMembers c).generated = s.generated ∧
      (s.prepareClassMembers c).registered = s.registered ∧
      (s.prepareClassMembers c).loadByApp = s.loadByApp := by
  obtain ⟨heq, _⟩ | ⟨_, heq⟩ := s.prepareClassMembers_cases c
  · rw [heq]
    exact ⟨rfl, rfl, rfl⟩
  · rw [heq]
    exact ⟨rfl, rfl, rfl⟩

theorem memberCache_prepareClassMembers_self {s : Classes} {c : JavaClass}
    (h : s.memberCache c.name = none ∨ s.memberCache c.name = some c.members) :
    (s.prepareClassMembers c).memberCache c.name = some c.members := by
  obtain ⟨heq, mem, hmem⟩ | ⟨_, heq⟩ := s.prepareClassMembers_cases c
  · rw [heq]
    exact h.resolve_left (by simp [hmem])
  · rw [heq]
    exact Function.update_self _ _ _

theorem validName_of_prepareClassMembers {s : Classes} {c : JavaClass}
    (hkeys : ∀ n mem, s.memberCache n = some mem → ValidName n) (n : Name) (mem : ClassMembers)
    (h : (s.prepareClassMembers c).memberCache n = some mem) : ValidName n := by
  obtain ⟨heq, _⟩ | ⟨_, heq⟩ := s.prepareClassMembers_cases c
  · rw [heq] at h
    exact hkeys n mem h
  · rw [heq] at h
    by_cases hn : n = c.name
    · exact hn ▸ c.valid
    · exact hkeys n mem ((Function.update_of_ne hn _ _).symm.trans h)

theorem lookupMembers_fst (s : Classes) (c : JavaClass) (cname : Name) :
    (s.lookupMembers c cname).1 = s ∨ (s.lookupMembers c cname).1 = s.prepareClassMembers c := by
  unfold lookupMembers
  cases s.memberCache cname with
  | some mem => exact .inl rfl
  | none => exact .inr rfl

/-- The members behind a spelling: only the name of the class itself is a key. -/
def freshMembers (c : JavaClass) (n : Name) : Option ClassMembers :=
  if n = c.name then some c.members else none

theorem lookupMembers_eq_freshMembers {s : Classes} {c : JavaClass} {n : Name}
    (hn : toSlash n = toSlash c.name) (hkeys : ∀ k mem, s.memberCache k = some mem → ValidName k)
    (hcached : s.memberCache c.name = none ∨ s.memberCache c.name = some c.members) :
    (s.lookupMembers c n).2 = freshMembers c n := by
  unfold lookupMembers freshMembers
  by_cases hname : n = c.name
  · subst hname
    rw [if_pos rfl]
    cases hcache : s.memberCache c.name with
    | some mem => exact hcache.symm.trans (hcached.resolve_left (by simp [hcache]))
    | none => exact memberCache_prepareClassMembers_self hcached
  · -- another spelling of the name: it is no key, neither before nor behind the look
    rw [if_neg hname]
    have hnone : s.memberCache n = none := by
      cases hcache : s.memberCache n with
      | none => rfl
      | some mem => exact absurd ((hkeys n mem hcache).eq_of_toSlash_eq c.valid hn) hname
    rw [hnone]
    obtain ⟨heq, _⟩ | ⟨_, heq⟩ := s.prepareClassMembers_cases c
    · exact (congrArg (fun s => s.memberCache n) heq).trans hnone
    · exact (congrArg (fun s => s.memberCache n) heq).trans
        ((Function.update_of_ne hname _ _).trans hnone)

/-- Each registered class is held, and the keys of the cache are names of classes. -/
structure Inv (s : Classes) : Prop where
  held : ∀ n rc, s.current n = some rc → s.Held rc
  keys : ∀ n mem, s.memberCache n = some mem → ValidName n

theorem current_eq_some {s : Classes} {n : Name} {rc : RegisteredClass}
    (h : s.current n = some rc) : toSlash rc.name = toSlash n := by
  unfold current at h
  obtain ⟨r, hr, rfl⟩ := Option.map_eq_some_iff.1 h
  simpa using List.find?_some hr

theorem resolve_name {s : Classes} {managed : Bool} {n : Name} {c : JavaClass}
    (h : s.findClassWithFallback managed n = some c) :
    s.resolve managed (.name n) = some (c, n) := by
  simp only [resolve, h, Option.map_some]

theorem jsJCall_eq {s : Classes} {managed : Bool} {n : Name} {c : JavaClass}
    (h : s.findClassWithFallback managed n = some c) (mname : Name) (argCount : Nat) :
    (s.jsJCall managed (.name n) mname argCount).2
      = callOn c (s.lookupMembers c n).2 false mname argCount := by
  unfold jsJCall
  rw [resolve_name h]
  rfl

theorem fieldAccess_eq {s : Classes} {managed : Bool} {n : Name} {c : JavaClass}
    (h : s.findClassWithFallback managed n = some c) (fname : Name) :
    (s.fieldAccess managed (.name n) fname).2 = fieldOn c (s.lookupMembers c n).2 false fname := by
  unfold fieldAccess
  rw [resolve_name h]
  rfl

/-! ## The members of a class -/

end Classes

/-- The members come from the class. -/
structure ClassMembers.Of (cm : ClassMembers) (c : JavaClass) : Prop where
  methods : ∀ p ∈ cm.methods, c.HasMethod p.2
  fields : ∀ p ∈ cm.fields, c.HasField p.2

theorem ClassMembers.Of.addField {cm : ClassMembers} {c : JavaClass} (h : cm.Of c)
    {d : List JavaField × List JavaMethod} (hd : d ∈ c.declared) {f : JavaField} (hf : f ∈ d.1) :
    (cm.addField f).Of c := by
  unfold ClassMembers.addField
  split
  · cases hcached : f.cached with
    | none => exact h
    | some cf =>
      refine ⟨h.methods, fun p hp => ?_⟩
      rcases List.mem_append.1 hp with hp | hp
      · exact h.fields p hp
      · rw [List.mem_singleton.1 hp]
        exact ⟨d, hd, f, hf, hcached⟩
  · exact h

theorem ClassMembers.Of.addMethod {cm : ClassMembers} {c : JavaClass} (h : cm.Of c)
    {d : List JavaField × List JavaMethod} (hd : d ∈ c.declared) {m : JavaMethod} (hm : m ∈ d.2) :
    (cm.addMethod m).Of c := by
  unfold ClassMembers.addMethod
  split
  · cases hcached : m.cached with
    | none => exact h
    | some cmeth =>
      refine ⟨fun p hp => ?_, h.fields⟩
      rcases List.mem_append.1 hp with hp | hp
      · exact h.methods p hp
      · rw [List.mem_singleton.1 hp]
        exact .inr ⟨d, hd, m, hm, hcached⟩
  · exact h

theorem JavaClass.members_of (c : JavaClass) : c.members.Of c := by
  unfold JavaClass.members
  have hnone : ClassMembers.Of {} c := ⟨by simp, by simp⟩
  refine List.foldlRecOn (motive := fun cm : ClassMembers => cm.Of c) c.declared _ hnone
    (fun cm h d hd => ?_)
  have hfields : (d.1.foldl ClassMembers.addField cm).Of c :=
    List.foldlRecOn (motive := fun cm : ClassMembers => cm.Of c) d.1 _ h
      (fun cm h f hf => h.addField hd hf)
  exact List.foldlRecOn (motive := fun cm : ClassMembers => cm.Of c) d.2 _ hfields
    (fun cm h m hm => h.addMethod hd hm)

theorem ClassMembers.Of.choose {cm : ClassMembers} {c : JavaClass} (h : cm.Of c) {obj : Bool}
    {mname : Name} {argCount : Nat} {m : CachedMethod}
    (hchoose : cm.choose obj mname argCount = some m) : c.HasMethod m := by
  unfold ClassMembers.choose at hchoose
  obtain ⟨p, hp, rfl⟩ := List.mem_map.1 (List.mem_of_find?_eq_some hchoose)
  exact h.methods p (List.mem_of_mem_filter hp)

theorem JavaClass.reflect_hasMethod {c : JavaClass} {obj : Bool} {mname : Name} {argCount : Nat}
    {m : CachedMethod} (h : c.reflect obj mname argCount = some m) : c.HasMethod m := by
  unfold JavaClass.reflect at h
  obtain ⟨jm, hjm, heq⟩ := List.exists_of_findSome?_eq_some h
  split at heq
  · exact .inl ⟨jm, hjm, heq⟩
  · exact absurd heq (by simp)

/-- A call that looks into members of the class uses one of them. -/
theorem callOn_eq_invoked {c c' : JavaClass} {mem : Option ClassMembers} {obj : Bool} {mname : Name}
    {argCount : Nat} {m : CachedMethod} (hmem : ∀ cm, mem = some cm → cm.Of c)
    (h : callOn c mem obj mname argCount = .invoked c' m) : c' = c ∧ c.HasMethod m := by
  unfold callOn at h
  simp only at h
  split at h
  · exact absurd h (by simp)
  · rename_i x hx
    have hmethod : c.HasMethod x := by
      split at hx
      · rename_i y hbind
        obtain ⟨cm, hcm, hy⟩ := Option.bind_eq_some_iff.1 hbind
        rw [Option.some.inj hx] at hy
        exact (hmem cm hcm).choose hy
      · exact JavaClass.reflect_hasMethod hx
    split at h
    · exact absurd h (by simp)
    · injection h with hc hm
      subst hm
      exact ⟨hc.symm, hmethod⟩

theorem fieldOn_eq_some {c c' : JavaClass} {mem : Option ClassMembers} {obj : Bool} {fname : Name}
    {f : CachedField} (hmem : ∀ cm, mem = some cm → cm.Of c)
    (h : fieldOn c mem obj fname = some (c', f)) : c' = c ∧ c.HasField f := by
  unfold fieldOn at h
  cases hbind : mem.bind (fun mem => mem.fields.lookup fname) with
  | none =>
    rw [hbind] at h
    exact absurd h (by simp)
  | some x =>
    rw [hbind] at h
    obtain ⟨cm, hcm, hx⟩ := Option.bind_eq_some_iff.1 hbind
    simp only at h
    split at h
    · obtain ⟨rfl, rfl⟩ := Prod.mk.inj (Option.some.inj h)
      obtain ⟨l₁, l₂, heq, _⟩ := List.lookup_eq_some_iff.1 hx
      exact ⟨rfl, (hmem cm hcm).fields (fname, x) (by rw [heq]; simp)⟩
    · exact absurd h (by simp)

theorem Classes.freshMembers_of {c : JavaClass} {n : Name} {cm : ClassMembers}
    (h : Classes.freshMembers c n = some cm) : cm.Of c := by
  unfold Classes.freshMembers at h
  split at h
  · rw [← Option.some.inj h]
    exact c.members_of
  · exact absurd h (by simp)

namespace Classes

/-! ## What the invariant gives -/

theorem Inv.lookupMembers {s : Classes} (h : s.Inv) {n : Name} {rc : RegisteredClass}
    (hrc : s.current n = some rc) :
    (s.lookupMembers rc.cls n).2 = freshMembers rc.cls n := by
  have hheld := h.held n rc hrc
  exact lookupMembers_eq_freshMembers ((current_eq_some hrc).symm.trans hheld.toSlash_cls.symm)
    h.keys (.inr hheld.cached)

theorem Inv.lookupMembers_forget {s : Classes} (h : s.Inv) {n : Name} {rc : RegisteredClass}
    (hrc : s.current n = some rc) :
    (s.forgetMembers.lookupMembers rc.cls n).2 = freshMembers rc.cls n := by
  have hheld := h.held n rc hrc
  refine lookupMembers_eq_freshMembers ((current_eq_some hrc).symm.trans hheld.toSlash_cls.symm)
    (fun k mem hk => absurd hk ?_) (.inl rfl)
  exact Option.some_ne_none mem ∘ Eq.symm

theorem Inv.follows {s : Classes} (h : s.Inv) : s.Follows := by
  have hfound : ∀ managed n rc, s.current n = some rc →
      s.findClassWithFallback managed n = some rc.cls := fun managed n rc hrc =>
    (h.held n rc hrc).found (current_eq_some hrc) managed
  -- finding a class does not look into the cache
  have hforget : ∀ managed n rc, s.current n = some rc →
      s.forgetMembers.findClassWithFallback managed n = some rc.cls := hfound
  have hcall : ∀ managed n rc mname argCount, s.current n = some rc →
      (s.jsJCall managed (.name n) mname argCount).2
        = callOn rc.cls (freshMembers rc.cls n) false mname argCount := by
    intro managed n rc mname argCount hrc
    rw [jsJCall_eq (hfound managed n rc hrc), h.lookupMembers hrc]
  have hfield : ∀ managed n rc fname, s.current n = some rc →
      (s.fieldAccess managed (.name n) fname).2
        = fieldOn rc.cls (freshMembers rc.cls n) false fname := by
    intro managed n rc fname hrc
    rw [fieldAccess_eq (hfound managed n rc hrc), h.lookupMembers hrc]
  have hfieldForget : ∀ managed n rc fname, s.current n = some rc →
      (s.forgetMembers.fieldAccess managed (.name n) fname).2
        = fieldOn rc.cls (freshMembers rc.cls n) false fname := by
    intro managed n rc fname hrc
    rw [fieldAccess_eq (hforget managed n rc hrc), h.lookupMembers_forget hrc]
  refine ⟨hfound, ?_, ?_, ?_, ?_⟩
  · intro managed n rc mname argCount c m hrc hinv
    rw [hcall managed n rc mname argCount hrc] at hinv
    exact callOn_eq_invoked (fun cm => freshMembers_of) hinv
  · intro managed n rc fname c f hrc huse
    unfold jsJFieldGet jsJFieldSet at huse
    rw [or_self, hfield managed n rc fname hrc] at huse
    exact fieldOn_eq_some (fun cm => freshMembers_of) huse
  · intro managed n rc mname argCount hrc
    rw [hcall managed n rc mname argCount hrc, jsJCall_eq (hforget managed n rc hrc),
      h.lookupMembers_forget hrc]
  · intro managed n rc fname hrc
    unfold jsJFieldGet jsJFieldSet
    rw [hfield managed n rc fname hrc, hfieldForget managed n rc fname hrc]
    exact ⟨rfl, rfl⟩

/-! ## What the steps keep -/

/-- A held class stays held while its registry entry, its cached members and what the app loader
    finds stay. -/
theorem Held.mono {s s' : Classes} {rc : RegisteredClass} (h : s.Held rc)
    (hgen : s'.generated (toSlash rc.name) = s.generated (toSlash rc.name))
    (happ : s'.loadByApp rc.cls.name = s.loadByApp rc.cls.name)
    (hcache : ∀ n mem, s.memberCache n = some mem → s'.memberCache n = some mem) : s'.Held rc where
  name := h.name
  generated := hgen.trans h.generated
  app c hc := h.app c (happ ▸ hc)
  cached := hcache _ _ h.cached

theorem Held.prepareClassMembers {s : Classes} {rc : RegisteredClass} (h : s.Held rc)
    (c : JavaClass) : (s.prepareClassMembers c).Held rc := by
  obtain ⟨hgen, _, happ⟩ := s.prepareClassMembers_frame c
  exact h.mono (by rw [hgen]) (by rw [happ]) (fun n mem => memberCache_prepareClassMembers)

theorem Inv.prepareClassMembers {s : Classes} (h : s.Inv) (c : JavaClass) :
    (s.prepareClassMembers c).Inv := by
  refine ⟨fun n rc hrc => ?_, validName_of_prepareClassMembers h.keys⟩
  unfold current at hrc
  rw [(s.prepareClassMembers_frame c).2.1] at hrc
  exact (h.held n rc hrc).prepareClassMembers c

theorem Inv.lookupMembers_fst {s : Classes} (h : s.Inv) (c : JavaClass) (cname : Name) :
    (s.lookupMembers c cname).1.Inv := by
  obtain heq | heq := s.lookupMembers_fst c cname
  · rw [heq]
    exact h
  · rw [heq]
    exact h.prepareClassMembers c

theorem Inv.jsJCall {s : Classes} (h : s.Inv) (managed : Bool) (t : Target) (mname : Name)
    (argCount : Nat) : (s.jsJCall managed t mname argCount).1.Inv := by
  unfold Classes.jsJCall
  cases s.resolve managed t with
  | none => exact h
  | some p => exact h.lookupMembers_fst p.1 p.2

theorem Inv.fieldAccess {s : Classes} (h : s.Inv) (managed : Bool) (t : Target) (fname : Name) :
    (s.fieldAccess managed t fname).1.Inv := by
  unfold Classes.fieldAccess
  cases s.resolve managed t with
  | none => exact h
  | some p => exact h.lookupMembers_fst p.1 p.2

theorem find?_eraseP {α : Type} {p q : α → Bool} {l : List α} {x : α} (hx : l.find? q = some x)
    (hp : p x = false) : (l.eraseP q).find? p = l.find? p := by
  induction l with
  | nil => rfl
  | cons a l ih =>
    by_cases ha : q a = true
    · rw [List.find?_cons_of_pos ha] at hx
      rw [List.eraseP_cons_of_pos ha, List.find?_cons_of_neg (by simp [Option.some.inj hx, hp])]
    · rw [List.find?_cons_of_neg ha] at hx
      rw [List.eraseP_cons_of_neg ha]
      by_cases hpa : p a = true
      · rw [List.find?_cons_of_pos hpa, List.find?_cons_of_pos hpa]
      · rw [List.find?_cons_of_neg hpa, List.find?_cons_of_neg hpa, ih hx]

theorem Inv.dispose {s : Classes} (h : s.Inv) {handle : Nat}
    (hsafe : Op.Safe s (.dispose handle)) : (s.dispose handle).Inv := by
  unfold Op.Safe at hsafe
  unfold Classes.dispose
  cases hfind : s.registered.find? (fun r => r.1 = handle) with
  | none => exact h
  | some r =>
    have hsafe := hsafe r hfind
    -- nobody else is registered under the key that is given up
    refine ⟨fun n rc hrc => ?_, h.keys⟩
    obtain ⟨r', hr', rfl⟩ := Option.map_eq_some_iff.1 hrc
    simp only [unregisterGeneratedClass] at hr'
    have hkey : toSlash r'.2.name = toSlash n := by simpa using List.find?_some hr'
    have hother : toSlash r'.2.name ≠ toSlash r.2.name :=
      hsafe r' (List.mem_of_find?_eq_some hr')
    have hcurrent : s.current n = some r'.2 := by
      unfold current
      rw [← find?_eraseP hfind (by simpa [hkey] using hother.symm), hr']
      rfl
    exact (h.held n r'.2 hcurrent).mono (Function.update_of_ne hother _ _) rfl (fun _ _ hm => hm)

/-! ## Registering -/

theorem buildClass_name {name : Name} {body : ClassBody} {cls : JavaClass}
    (h : buildClass name body = some cls) : cls.name = toDotted name := by
  unfold buildClass at h
  split at h
  · exact absurd h (by simp)
  · split at h
    · rw [← Option.some.inj h]
    · exact absurd h (by simp)

theorem loadByApp_loadDex {s : Classes} {loading : Loading} {cls : JavaClass} {n : Name}
    (hn : cls.name ≠ n) : (s.loadDex loading cls).loadByApp n = s.loadByApp n := by
  unfold loadDex
  split
  · unfold loadByApp
    rw [← List.append_assoc, List.find?_append]
    simp [hn]
  · rfl

theorem loadClass_eq_some {s : Classes} {loading : Loading} {cls c : JavaClass} {n : Name}
    (h : s.loadClass loading cls n = some c) :
    c.name = n ∧ ∀ c', s.loadByApp n = some c' → c' = c := by
  unfold loadClass at h
  cases happ : s.loadByApp n with
  | some c' =>
    rw [happ] at h
    obtain rfl := Option.some.inj h
    unfold loadByApp at happ
    refine ⟨by simpa using List.find?_some happ, fun c hc => (Option.some.inj hc).symm⟩
  | none =>
    rw [happ] at h
    simp only at h
    split at h
    · rename_i hiso
      exact ⟨Option.some.inj h ▸ hiso.2, fun c hc => absurd hc (by simp)⟩
    · exact absurd h (by simp)

/-- The class that has just been built is found, unless an older one is. -/
theorem loadClass_ne_none (s : Classes) {loading : Loading} {cls : JavaClass}
    (hloading : loading ≠ .failed) :
    (s.loadDex loading cls).loadClass loading cls cls.name ≠ none := by
  unfold loadClass
  cases happ : (s.loadDex loading cls).loadByApp cls.name with
  | some c => simp
  | none =>
    cases loading with
    | failed => exact absurd rfl hloading
    | isolated => simp
    | injected =>
      unfold loadByApp loadDex at happ
      rw [List.find?_eq_none] at happ
      exact absurd (happ cls (by simp)) (by simp)

theorem registerClass_cases (s : Classes) (name : Name) (body : ClassBody) (loading : Loading)
    (accepted : Bool) :
    s.registerClass name body loading accepted = s ∨
      ∃ cls c, cls.name = toDotted name ∧ s.loadedClass name body loading = some c ∧
        (s.loadDex loading cls).loadClass loading cls (toDotted name) = some c ∧
        s.registerClass name body loading accepted =
          (let s' := (s.loadDex loading cls).registerGeneratedClass (toDotted name) c
          if accepted then
            { s'.prepareClassMembers c with
              registered := ((s'.prepareClassMembers c).nextHandle, { name := name, cls := c }) ::
                (s'.prepareClassMembers c).registered
              nextHandle := (s'.prepareClassMembers c).nextHandle + 1 }
          else s'.unregisterGeneratedClass name) := by
  unfold registerClass loadedClass
  by_cases hreject : name = [] ∨ '.' ∉ name ∨ loading = .failed
  · exact .inl (if_pos hreject)
  · rw [if_neg hreject, if_neg hreject]
    cases hbuild : buildClass name body with
    | none => exact .inl rfl
    | some cls =>
      have hname := buildClass_name hbuild
      cases hload : (s.loadDex loading cls).loadClass loading cls (toDotted name) with
      | none =>
        -- not reached: the loader has the class that was just built
        rw [← hname] at hload
        exact absurd hload (s.loadClass_ne_none (fun h => hreject (.inr (.inr h))))
      | some c => exact .inr ⟨cls, c, hname, hload, hload, by simp only [hload]⟩

theorem loadDex_frame (s : Classes) (loading : Loading) (cls : JavaClass) :
    (s.loadDex loading cls).generated = s.generated ∧
      (s.loadDex loading cls).registered = s.registered ∧
      (s.loadDex loading cls).memberCache = s.memberCache := by
  unfold loadDex
  split
  · exact ⟨rfl, rfl, rfl⟩
  · exact ⟨rfl, rfl, rfl⟩

/-- Registered classes of other names do not see a class that is loaded. -/
theorem Held.loadDex {s : Classes} {rc : RegisteredClass} (h : s.Held rc) {name : Name}
    {loading : Loading} {cls : JavaClass} (hcls : cls.name = toDotted name)
    (hother : toSlash rc.name ≠ toSlash name) : (s.loadDex loading cls).Held rc := by
  obtain ⟨hgen, _, hcache⟩ := s.loadDex_frame loading cls
  have hvalid : ValidName (toDotted name) := hcls ▸ cls.valid
  have hne : cls.name ≠ rc.cls.name := by
    intro heq
    apply hother
    rw [← h.toSlash_cls, ← heq, hcls, toSlash_toDotted hvalid]
  exact h.mono (by rw [hgen]) (loadByApp_loadDex hne) (fun n mem hmem => by rw [hcache, hmem])

theorem Inv.registerClass {s : Classes} (h : s.Inv) {name : Name} {body : ClassBody}
    {loading : Loading} {accepted : Bool}
    (hsafe : Op.Safe s (.registerClass name body loading accepted)) :
    (s.registerClass name body loading accepted).Inv := by
  obtain heq | ⟨cls, c, hcls, hloaded, hload, heq⟩ :=
    s.registerClass_cases name body loading accepted
  · rw [heq]
    exact h
  obtain ⟨hcname, happ⟩ := loadClass_eq_some hload
  have hvalid : ValidName (toDotted name) := hcls ▸ cls.valid
  have hkey := toSlash_toDotted hvalid
  obtain ⟨_, hreg, hcache⟩ := s.loadDex_frame loading cls
  unfold Op.Safe at hsafe
  have hsafe := hsafe c hloaded
  rw [heq]
  generalize hs' : (s.loadDex loading cls).registerGeneratedClass (toDotted name) c = s'
  have hreg' : s'.registered = s.registered := by rw [← hs', ← hreg]; rfl
  have hcache' : s'.memberCache = s.memberCache := by rw [← hs', ← hcache]; rfl
  have hgen' : ∀ k, k ≠ toSlash name → s'.generated k = (s.loadDex loading cls).generated k := by
    intro k hk
    rw [← hs']
    exact Function.update_of_ne (hkey ▸ hk) _ _
  -- the registrations of other names
  have hothers : ∀ n rc, s.current n = some rc → toSlash rc.name ≠ toSlash name → s'.Held rc := by
    intro n rc hrc hother
    refine ((h.held n rc hrc).loadDex hcls hother).mono (hgen' _ hother) ?_ (fun n mem hmem => ?_)
    · rw [← hs']
      rfl
    · rw [hcache', ← hcache, hmem]
  have hkeys' : ∀ n mem, s'.memberCache n = some mem → ValidName n := by
    rw [hcache']
    exact h.keys
  cases accepted with
  | true =>
    obtain ⟨hgenP, hregP, happP⟩ := s'.prepareClassMembers_frame c
    refine ⟨fun n rc hrc => ?_, validName_of_prepareClassMembers hkeys'⟩
    unfold current at hrc
    by_cases hn : toSlash name = toSlash n
    · -- the new registration
      simp only [if_true, hn, decide_true, List.find?_cons_of_pos, Option.map_some,
        Option.some.injEq] at hrc
      subst hrc
      refine ⟨hcname, ?_, ?_, ?_⟩
      · show (s'.prepareClassMembers c).generated (toSlash name) = some c
        rw [hgenP, ← hs', ← hkey]
        exact Function.update_self _ _ _
      · intro c' hc'
        refine happ c' ?_
        have : (s'.prepareClassMembers c).loadByApp c.name = some c' := hc'
        rw [happP, ← hs', hcname] at this
        exact this
      · exact memberCache_prepareClassMembers_self (hcache' ▸ hsafe)
    · simp only [if_true, hn, decide_false, List.find?_cons_of_neg, Bool.false_eq_true,
        not_false_eq_true, hregP, hreg'] at hrc
      have hother : toSlash rc.name ≠ toSlash name := by
        rw [current_eq_some hrc]
        exact Ne.symm hn
      exact ((hothers n rc hrc hother).prepareClassMembers c).mono rfl rfl (fun _ _ hm => hm)
  | false =>
    -- a rejected class has already taken the place of an older one of its name
    refine ⟨fun n rc hrc => ?_, hkeys'⟩
    simp only [Bool.false_eq_true, if_false, unregisterGeneratedClass, current, hreg'] at hrc
    obtain ⟨r, hr, rfl⟩ := Option.map_eq_some_iff.1 hrc
    have hother : toSlash r.2.name ≠ toSlash name := hsafe r (List.mem_of_find?_eq_some hr)
    exact (hothers n r.2 hrc hother).mono (Function.update_of_ne hother _ _) rfl
      (fun _ _ hm => hm)

/-! ## Whole runs -/

theorem Inv.step {s : Classes} (h : s.Inv) (op : Op) (hsafe : op.Safe s) : (s.step op).Inv := by
  cases op with
  | registerClass name body loading accepted => exact h.registerClass hsafe
  | dispose handle => exact h.dispose hsafe
  | call managed t mname argCount => exact h.jsJCall managed t mname argCount
  | fieldGet managed t fname => exact h.fieldAccess managed t fname
  | fieldSet managed t fname => exact h.fieldAccess managed t fname

theorem Inv.initial (boot app : List JavaClass) : Inv { boot := boot, app := app } where
  held n rc hrc := absurd hrc (by simp [current])
  keys n mem hmem := absurd hmem (by simp)

/-- In a run whose registrations and disposals are all safe, calls by name follow the registered
    classes. -/
theorem run_follows (boot app : List JavaClass) (ops : List Op)
    (h : Along step Op.Safe { boot := boot, app := app } ops) :
    (run step { boot := boot, app := app } ops).Follows :=
  (Along.invariant (fun _ op hinv hsafe => hinv.step op hsafe) (Inv.initial boot app) h).follows

/-- A class with one static method, whose id tells it from others. -/
def oneMethod (id : Nat) : ClassBody where
  declared := [([], [
    { name := ['m'], params := [], ret := "void".toList, isStatic := true, id := some id }])]
  methods := [
    { name := ['m'], params := [], ret := "void".toList, isStatic := true, id := some id }]

def classB (id : Nat) : JavaClass :=
  { oneMethod id with
    name := "a.B".toList
    valid := by decide }

/-- The class is registered, called and disposed; another name is registered, and the first one
    rejected. -/
def safeRun : List Op := [
  .registerClass "a.B".toList (oneMethod 1) .isolated true,
  .call false (.name "a/B".toList) ['m'] 0,
  .dispose 1,
  .registerClass "a.C".toList (oneMethod 2) .injected true,
  .registerClass "a.B".toList (oneMethod 3) .isolated false]

theorem safeRun_follows :
    Along step Op.Safe {} safeRun ∧ (run step {} safeRun).Follows := by
  have h : Along step Op.Safe {} safeRun := by decide
  exact ⟨h, run_follows [] [] safeRun h⟩

/-- The class is registered, disposed and registered with a new method. -/
def replaced : List Op := [
  .registerClass "a.B".toList (oneMethod 1) .isolated true,
  .dispose 1,
  .registerClass "a.B".toList (oneMethod 2) .isolated true]

theorem replaced_not_follows : ¬ (run step {} replaced).Follows := by
  intro h
  have hstale := h.method false "a.B".toList { name := "a.B".toList, cls := classB 2 } ['m'] 0
    (classB 2) { id := 1, params := [], ret := "void".toList, isStatic := true } (by decide)
    (by decide)
  exact absurd hstale.2 (by decide)

end Classes

end ArtPi.Agent
