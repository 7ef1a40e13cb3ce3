import ArtPi.Agent.Convert
import ArtPi.Agent.Members
import ArtPi.Lib.Groups
import Mathlib.Data.List.Find

set_option autoImplicit false

/-! # Overloads (`src/src/agent/agent_java_ref.cpp`)

`JsJCall` takes the first method of the name that has as many parameters as there are arguments, from the cached
members or from `getMethods`, and only then converts the arguments to the types of its parameters. -/

namespace ArtPi.Agent.Overloads

open Lib.Groups Agent.Convert

/-! ## The call -/

/-- A `jvalue`: floating-point numbers by their bits, a reference that may be null. -/
inductive JValue where
  | int (i : Int32)
  | long (l : Int64)
  | bool (z : Bool)
  | byte (b : Int8)
  | short (s : Int16)
  | char (c : UInt16)
  | float (f : UInt32)
  | double (d : UInt64)
  | ref (l : Option Ref)
  deriving DecidableEq

variable {V : Type} (sc : Scripting V)

/-- The conversion of an argument, by the name of the parameter's type. -/
def convertArg (pt : Name) (v : V) : JValue :=
  if pt = "int".toList then .int (sc.int32 v)
  else if pt = "long".toList then .long (sc.int64 v)
  else if pt = "boolean".toList then .bool (sc.toBool v)
  else if pt = "byte".toList then .byte (sc.int32 v).toInt8
  else if pt = "short".toList then .short (sc.int32 v).toInt16
  else if pt = "char".toList then .char (sc.int32 v).toUInt32.toUInt16
  else if pt = "float".toList then .float (sc.toFloat (sc.float64 v))
  else if pt = "double".toList then .double (sc.float64 v)
  else .ref (jsValueToJavaObject sc v (String.ofList pt))

/-- A method runs with its arguments, or a `TypeError` is thrown. -/
inductive Outcome where
  | thrown
  | ran (m : CachedMethod) (args : List JValue)
  deriving DecidableEq

/-- The method that is called, of the class `c` that was found under the name `n`. -/
def called (c : JavaClass) (n : Name) (obj : Bool) (mname : Name) (argCount : Nat) : Option CachedMethod :=
  match callOn c (Classes.freshMembers c n) obj mname argCount with
  | .invoked _ m => some m
  | _ => none

def jsJCall (c : JavaClass) (n : Name) (obj : Bool) (mname : Name) (args : List V) : Outcome :=
  match called c n obj mname args.length with
  | some m => .ran m (List.zipWith (convertArg sc) m.params args)
  | none => .thrown

/-! ## The choice -/

/-- The method is one that the search takes. -/
def hit (obj : Bool) (mname : Name) (argCount : Nat) (m : JavaMethod) : Option CachedMethod :=
  if m.name = mname ∧ (obj || m.isStatic) ∧ m.params.length = argCount then m.cached else none

/-- The methods in the order of the search: the members of the class and of its superclasses, if they are cached under
    the name, and what `getMethods` lists. -/
def listing (c : JavaClass) (n mname : Name) : List (List JavaMethod) :=
  (if n = c.name ∧ mname ≠ [] then c.declared.map Prod.snd else []) ++ [c.methods]

/-- What the cache has of a method. -/
def entry (m : JavaMethod) : Option (Name × CachedMethod) :=
  if m.name ≠ [] then m.cached.map fun cm => (m.name, cm) else none

theorem methods_addField (cm : ClassMembers) (f : JavaField) : (cm.addField f).methods = cm.methods := by
  unfold ClassMembers.addField
  split_ifs
  · cases f.cached <;> rfl
  · rfl

theorem methods_addMethod (cm : ClassMembers) (m : JavaMethod) :
    (cm.addMethod m).methods = cm.methods ++ (entry m).toList := by
  unfold ClassMembers.addMethod entry
  split_ifs with hname
  · cases m.cached <;> simp
  · simp

theorem methods_foldl_addField (fs : List JavaField) (cm : ClassMembers) :
    (fs.foldl ClassMembers.addField cm).methods = cm.methods := by
  induction fs generalizing cm with
  | nil => rfl
  | cons f fs ih => rw [List.foldl_cons, ih, methods_addField]

theorem methods_foldl_addMethod (ms : List JavaMethod) (cm : ClassMembers) :
    (ms.foldl ClassMembers.addMethod cm).methods = cm.methods ++ ms.filterMap entry := by
  induction ms generalizing cm with
  | nil => simp
  | cons m ms ih =>
    rw [List.foldl_cons, ih, methods_addMethod, List.append_assoc, List.filterMap_cons]
    cases entry m <;> rfl

theorem methods_members (c : JavaClass) : c.members.methods = c.declared.flatMap fun d => d.2.filterMap entry := by
  have hfold : ∀ (ds : List (List JavaField × List JavaMethod)) (cm : ClassMembers),
      (ds.foldl (fun cm d => d.2.foldl ClassMembers.addMethod (d.1.foldl ClassMembers.addField cm)) cm).methods =
        cm.methods ++ ds.flatMap fun d => d.2.filterMap entry := by
    intro ds
    induction ds with
    | nil => simp
    | cons d ds ih =>
      intro cm
      rw [List.foldl_cons, ih, methods_foldl_addMethod, methods_foldl_addField, List.flatMap_cons,
        List.append_assoc]
  exact hfold c.declared {}

theorem hit_eq {obj : Bool} {mname : Name} {argCount : Nat} (hname : mname ≠ []) (m : JavaMethod) :
    hit obj mname argCount m = (entry m).bind fun p =>
      if p.1 = mname ∧ ((obj || p.2.isStatic) && p.2.params.length == argCount) = true then some p.2 else none := by
  unfold hit entry JavaMethod.cached
  by_cases hm : m.name = mname
  · cases hid : m.id with
    | none => simp
    | some id => simp [hm, hname]
  · by_cases hnil : m.name = []
    · simp [hnil, hname.symm]
    · cases m.id <;> simp [hm, hnil]

theorem find?_map_filter {α β : Type} (l : List α) (q : α → Bool) (g : α → β) (p : β → Bool) :
    ((l.filter q).map g).find? p =
      (l.filterMap fun a => if q a = true ∧ p (g a) = true then some (g a) else none).head? := by
  induction l with
  | nil => rfl
  | cons a l ih =>
    rw [List.filter_cons, List.filterMap_cons]
    by_cases hq : q a = true
    · rw [if_pos hq, List.map_cons, List.find?_cons]
      cases hp : p (g a) with
      | true => simp [hq]
      | false => simpa [hq] using ih
    · rw [if_neg hq]
      simpa [hq] using ih

theorem choose_eq {obj : Bool} {mname : Name} {argCount : Nat} (hname : mname ≠ []) (c : JavaClass) :
    c.members.choose obj mname argCount =
      ((c.declared.map Prod.snd).flatMap (List.filterMap (hit obj mname argCount))).head? := by
  have hhit : hit obj mname argCount = fun m => (entry m).bind fun p =>
      if p.1 = mname ∧ ((obj || p.2.isStatic) && p.2.params.length == argCount) = true then some p.2 else none :=
    funext fun m => hit_eq hname m
  unfold ClassMembers.choose
  rw [find?_map_filter, methods_members, List.filterMap_flatMap, List.flatMap_map, hhit]
  simp only [List.filterMap_filterMap, decide_eq_true_eq]

theorem reflect_eq (c : JavaClass) (obj : Bool) (mname : Name) (argCount : Nat) :
    c.reflect obj mname argCount = (c.methods.filterMap (hit obj mname argCount)).head? := by
  rw [List.head?_filterMap]
  rfl

theorem hit_some {obj : Bool} {mname : Name} {argCount : Nat} {jm : JavaMethod} {m : CachedMethod}
    (h : hit obj mname argCount jm = some m) :
    jm.name = mname ∧ (obj || jm.isStatic) = true ∧ jm.cached = some m ∧ m.isStatic = jm.isStatic ∧
      m.params.length = argCount := by
  unfold hit at h
  split_ifs at h with hcond
  obtain ⟨hname, hstatic, hlen⟩ := hcond
  refine ⟨hname, hstatic, h, ?_⟩
  unfold JavaMethod.cached at h
  obtain ⟨id, -, rfl⟩ := Option.map_eq_some_iff.1 h
  exact ⟨rfl, hlen⟩

theorem choose_nil (c : JavaClass) (obj : Bool) (argCount : Nat) : c.members.choose obj [] argCount = none := by
  have hentry : ∀ p ∈ c.members.methods, p.1 ≠ [] := by
    rw [methods_members]
    intro p hp
    obtain ⟨d, -, hp⟩ := List.mem_flatMap.1 hp
    obtain ⟨m, -, hm⟩ := List.mem_filterMap.1 hp
    unfold entry at hm
    split_ifs at hm with hname
    obtain ⟨cm, -, rfl⟩ := Option.map_eq_some_iff.1 hm
    exact hname
  have hfilter : c.members.methods.filter (fun m => m.1 = []) = [] := by
    rw [List.filter_eq_nil_iff]
    intro p hp hnil
    exact hentry p hp (of_decide_eq_true hnil)
  rw [ClassMembers.choose, hfilter]
  rfl

/-- The cached members are searched first, and then what `getMethods` lists. -/
theorem chosen_eq (c : JavaClass) (n : Name) (obj : Bool) (mname : Name) (argCount : Nat) :
    ((Classes.freshMembers c n).bind fun mem => mem.choose obj mname argCount).or (c.reflect obj mname argCount) =
      pick (hit obj mname argCount) (listing c n mname) := by
  unfold pick listing Classes.freshMembers
  rw [List.flatMap_append, List.flatMap_singleton, List.head?_append, ← reflect_eq]
  by_cases hn : n = c.name
  · rw [if_pos hn, Option.bind_some]
    by_cases hname : mname = []
    · rw [if_neg fun h => h.2 hname, hname, choose_nil]
      rfl
    · rw [if_pos ⟨hn, hname⟩, choose_eq hname]
  · rw [if_neg hn, if_neg fun h => hn h.1]
    rfl

theorem called_eq (c : JavaClass) (n : Name) (obj : Bool) (mname : Name) (argCount : Nat) :
    called c n obj mname argCount = pick (hit obj mname argCount) (listing c n mname) := by
  have hchosen := chosen_eq c n obj mname argCount
  have hcallable : ∀ m, pick (hit obj mname argCount) (listing c n mname) = some m →
      (!m.isStatic && !obj) = false := by
    intro m hm
    obtain ⟨l, -, hl⟩ := List.mem_flatMap.1 (List.mem_of_mem_head? hm)
    obtain ⟨jm, -, hjm⟩ := List.mem_filterMap.1 hl
    obtain ⟨-, hstatic, -, heq, -⟩ := hit_some hjm
    rw [heq]
    revert hstatic
    cases obj <;> cases jm.isStatic <;> decide
  unfold called callOn
  cases hmem : (Classes.freshMembers c n).bind fun mem => mem.choose obj mname argCount with
  | some m =>
    rw [hmem, Option.some_or] at hchosen
    have hm := hcallable m hchosen.symm
    simp only [hm, Bool.false_eq_true, if_false]
    exact hchosen
  | none =>
    rw [hmem, Option.none_or] at hchosen
    cases href : c.reflect obj mname argCount with
    | none =>
      rw [href] at hchosen
      exact hchosen
    | some m =>
      rw [href] at hchosen
      have hm := hcallable m hchosen.symm
      simp only [hm, Bool.false_eq_true, if_false]
      exact hchosen

/-! ## The order of reflection -/

/-- The same class, with its methods listed in another order. -/
structure Reordered (c c' : JavaClass) : Prop where
  name : c'.name = c.name
  declared : List.Forall₂ (fun d d' => d'.1 = d.1 ∧ d.2.Perm d'.2) c.declared c'.declared
  methods : c.methods.Perm c'.methods

theorem Reordered.listing {c c' : JavaClass} (h : Reordered c c') (n mname : Name) :
    List.Forall₂ List.Perm (listing c n mname) (listing c' n mname) := by
  unfold Overloads.listing
  rw [h.name]
  refine List.rel_append ?_ (.cons h.methods .nil)
  by_cases hcached : n = c.name ∧ mname ≠ []
  · rw [if_pos hcached, if_pos hcached, List.forall₂_map_left_iff, List.forall₂_map_right_iff]
    exact h.declared.imp fun d d' hd => hd.2
  · rw [if_neg hcached, if_neg hcached]
    exact .nil

theorem exists_declared {ds : List (List JavaField × List JavaMethod)} {gs : List (List JavaMethod)}
    (h : List.Forall₂ List.Perm (ds.map Prod.snd) gs) :
    ∃ ds', List.Forall₂ (fun d d' => d'.1 = d.1 ∧ d.2.Perm d'.2) ds ds' ∧ ds'.map Prod.snd = gs := by
  rw [List.forall₂_map_left_iff] at h
  induction h with
  | nil => exact ⟨[], .nil, rfl⟩
  | @cons d g ds gs hd _ ih =>
    obtain ⟨ds', hds', hgs⟩ := ih
    exact ⟨(d.1, g) :: ds', .cons ⟨rfl, hd⟩ hds', congrArg (g :: ·) hgs⟩

theorem exists_reordered {c : JavaClass} {n mname : Name} {gs : List (List JavaMethod)}
    (h : List.Forall₂ List.Perm (listing c n mname) gs) : ∃ c', Reordered c c' ∧ listing c' n mname = gs := by
  obtain ⟨gs₁, gs₂, hdeclared, hmethods, rfl⟩ : ∃ gs₁ gs₂,
      List.Forall₂ List.Perm (if n = c.name ∧ mname ≠ [] then c.declared.map Prod.snd else []) gs₁ ∧
        List.Forall₂ List.Perm [c.methods] gs₂ ∧ gs = gs₁ ++ gs₂ := by
    have htake := List.forall₂_take (listing c n mname).dropLast.length h
    have hdrop := List.forall₂_drop (listing c n mname).dropLast.length h
    unfold listing at htake hdrop
    rw [List.dropLast_concat, List.take_left] at htake
    rw [List.dropLast_concat, List.drop_left] at hdrop
    exact ⟨_, _, htake, hdrop, (List.take_append_drop _ _).symm⟩
  obtain ⟨ms, hms, rfl⟩ : ∃ ms, c.methods.Perm ms ∧ gs₂ = [ms] := by
    cases hmethods with
    | cons hms hnil =>
      cases hnil
      exact ⟨_, hms, rfl⟩
  by_cases hcached : n = c.name ∧ mname ≠ []
  · rw [if_pos hcached] at hdeclared
    obtain ⟨ds', hds', rfl⟩ := exists_declared hdeclared
    refine ⟨{ c with declared := ds', methods := ms }, ⟨rfl, hds', hms⟩, ?_⟩
    exact congrArg (· ++ [ms]) (if_pos hcached)
  · rw [if_neg hcached] at hdeclared
    cases hdeclared
    refine ⟨{ c with methods := ms }, ⟨rfl, List.forall₂_same.2 fun d _ => ⟨rfl, .refl d.2⟩, hms⟩, ?_⟩
    exact congrArg (· ++ [ms]) (if_neg hcached)

/-- The order does not matter just when the first listing with a hit has one method only. -/
theorem called_order_iff (c : JavaClass) (n : Name) (obj : Bool) (mname : Name) (argCount : Nat) :
    (∀ c', Reordered c c' → called c' n obj mname argCount = called c n obj mname argCount) ↔
      ∀ a ∈ front (hit obj mname argCount) (listing c n mname),
        ∀ b ∈ front (hit obj mname argCount) (listing c n mname), a = b := by
  rw [← pick_independent_iff]
  simp only [called_eq]
  constructor
  · intro h gs hgs
    obtain ⟨c', hc', rfl⟩ := exists_reordered hgs
    exact h c' hc'
  · intro h c' hc'
    exact h _ (hc'.listing n mname)

/-! ## The conversion of the arguments -/

/-- A parameter takes the value: its conversion does not throw, or it is null itself or becomes an instance. -/
def Accepted (pt : Name) (v : V) : Prop :=
  if fieldKind pt = 'L' then sc.isNullish v = true ∨ ∃ o, ObjectOf sc (String.ofList pt) v o
  else sc.Converts (fieldKind pt) v

/-- The arguments fit the method. -/
def Accepts (m : CachedMethod) (args : List V) : Prop := List.Forall₂ (Accepted sc) m.params args

/-- What a value has to be for a parameter: anything that QuickJS and the runtime can make a string or a wrapper of,
    and for every other reference type a handle of an instance. -/
def FitsType (pt : Name) (v : V) : Prop :=
  if fieldKind pt ≠ 'L' then sc.Converts (fieldKind pt) v
  else if sc.isNullish v then True
  else if pt = "java.lang.String".toList then (sc.toCString v).bind sc.newStringUTF ≠ none
  else if pt = "Ljava/lang/String;".toList then
    ∃ o, (sc.toCString v).bind sc.newStringUTF = some o ∧ sc.instanceOf o "Ljava/lang/String;" = true
  else
    match wrappers.find? (fun w => String.ofList pt = w.2.1) with
    | some w => sc.Converts w.2.2 v ∧ sc.valueOf w.2.1 (sc.boxed w.2.2 v) ≠ none
    | none => ∃ o, sc.getJRef v = some o ∧ sc.instanceOf o (String.ofList pt) = true

theorem find?_wrappers {pt : Name} (hpt : fieldKind pt = 'L') :
    wrappers.find? (fun w => String.ofList pt = w.1 ∨ String.ofList pt = w.2.1) =
      wrappers.find? (fun w => String.ofList pt = w.2.1) := by
  have hprimitive : ∀ w ∈ wrappers, fieldKind w.1.toList ≠ 'L' := by decide
  refine List.find?_congr fun w hw => ?_
  have hne : String.ofList pt ≠ w.1 := by
    intro heq
    refine hprimitive w hw ?_
    rw [← heq, String.toList_ofList]
    exact hpt
  simp only [hne, false_or]

/-- For a type whose objects are made of any value: one is made, and the conversion in front does not throw. -/
theorem exists_objectOf_made {tn : String} {v : V} {o? : Option Ref} (hmade : jsValueToJavaObject sc v tn = o?)
    (hinst : ∀ o, o? = some o → sc.instanceOf o tn = true) :
    (∃ o, ObjectOf sc tn v o) ↔ Boxes sc tn v ∧ o? ≠ none := by
  subst hmade
  constructor
  · rintro ⟨o, ho⟩
    refine ⟨ho.boxes, ?_⟩
    rw [ho.made]
    exact Option.some_ne_none o
  · rintro ⟨hboxes, hne⟩
    obtain ⟨o, ho⟩ := Option.ne_none_iff_exists'.1 hne
    exact ⟨o, ho, hinst o ho, hboxes⟩

theorem exists_objectOf {tn : String} {v : V} {o? : Option Ref} (hmade : jsValueToJavaObject sc v tn = o?)
    (hboxes : Boxes sc tn v) : (∃ o, ObjectOf sc tn v o) ↔ ∃ o, o? = some o ∧ sc.instanceOf o tn = true := by
  subst hmade
  exact exists_congr fun o => ⟨fun ho => ⟨ho.made, ho.isInstance⟩, fun ho => ⟨ho.1, ho.2, hboxes⟩⟩

theorem boxes_string {tn : String} (h : tn = "java.lang.String" ∨ tn = "Ljava/lang/String;") (v : V) :
    Boxes sc tn v := by
  intro w hw
  have hnone : wrappers.find? (fun w => tn = w.1 ∨ tn = w.2.1) = none := by
    rcases h with rfl | rfl <;> decide
  rw [hnone] at hw
  cases hw

theorem jsValueToJavaObject_string {tn : String} {v : V} (hnull : ¬ sc.isNullish v = true)
    (h : tn = "java.lang.String" ∨ tn = "Ljava/lang/String;") :
    jsValueToJavaObject sc v tn = (sc.toCString v).bind sc.newStringUTF := by
  rw [jsValueToJavaObject, if_neg hnull, if_pos h]

theorem exists_objectOf_handle {pt : Name} {v : V} (hkind : fieldKind pt = 'L') (hnull : ¬ sc.isNullish v = true)
    (hstring : ¬ (String.ofList pt = "java.lang.String" ∨ String.ofList pt = "Ljava/lang/String;"))
    (hfind : wrappers.find? (fun w => String.ofList pt = w.2.1) = none) :
    (∃ o, ObjectOf sc (String.ofList pt) v o) ↔
      ∃ o, sc.getJRef v = some o ∧ sc.instanceOf o (String.ofList pt) = true := by
  rw [← find?_wrappers hkind] at hfind
  have hmade : jsValueToJavaObject sc v (String.ofList pt) = sc.getJRef v := by
    rw [jsValueToJavaObject, if_neg hnull, if_neg hstring, hfind]
  refine exists_objectOf sc hmade fun w hw => ?_
  rw [hfind] at hw
  cases hw

theorem exists_objectOf_wrapper {pt : Name} {v : V} (hkind : fieldKind pt = 'L') (hnull : ¬ sc.isNullish v = true)
    (hstring : ¬ (String.ofList pt = "java.lang.String" ∨ String.ofList pt = "Ljava/lang/String;"))
    {w : String × String × Char} (hfind : wrappers.find? (fun w => String.ofList pt = w.2.1) = some w) :
    (∃ o, ObjectOf sc (String.ofList pt) v o) ↔
      sc.Converts w.2.2 v ∧ sc.valueOf w.2.1 (sc.boxed w.2.2 v) ≠ none := by
  have hp := List.find?_some hfind
  have hw : String.ofList pt = w.2.1 := of_decide_eq_true hp
  rw [← find?_wrappers hkind] at hfind
  have hmade : jsValueToJavaObject sc v (String.ofList pt) = sc.valueOf w.2.1 (sc.boxed w.2.2 v) := by
    rw [jsValueToJavaObject, if_neg hnull, if_neg hstring, hfind]
  have hinst : ∀ o, sc.valueOf w.2.1 (sc.boxed w.2.2 v) = some o → sc.instanceOf o (String.ofList pt) = true := by
    intro o ho
    rw [hw]
    exact sc.valueOf_instance _ _ o ho
  have hboxes : Boxes sc (String.ofList pt) v ↔ sc.Converts w.2.2 v := by
    rw [Boxes, hfind]
    constructor
    · intro h
      exact h w rfl
    · intro h w' hw'
      rw [← Option.some.inj hw']
      exact h
  rw [exists_objectOf_made sc hmade hinst, hboxes]

theorem accepted_iff_fitsType (pt : Name) (v : V) : Accepted sc pt v ↔ FitsType sc pt v := by
  unfold Accepted FitsType
  by_cases hkind : fieldKind pt = 'L'
  · rw [if_pos hkind, if_neg (not_not.2 hkind)]
    by_cases hnull : sc.isNullish v = true
    · rw [if_pos hnull]
      exact iff_of_true (.inl hnull) trivial
    · rw [if_neg hnull, or_iff_right hnull]
      by_cases hstring : pt = "java.lang.String".toList
      · subst hstring
        rw [if_pos rfl, String.ofList_toList]
        have hmade := jsValueToJavaObject_string sc hnull (.inl rfl)
        rw [exists_objectOf_made sc hmade fun o ho => instanceOf_made sc (by decide) (hmade.trans ho)]
        exact and_iff_right (boxes_string sc (.inl rfl) v)
      · rw [if_neg hstring]
        by_cases hdesc : pt = "Ljava/lang/String;".toList
        · subst hdesc
          rw [if_pos rfl, String.ofList_toList]
          exact exists_objectOf sc (jsValueToJavaObject_string sc hnull (.inr rfl)) (boxes_string sc (.inr rfl) v)
        · have htn : ¬ (String.ofList pt = "java.lang.String" ∨ String.ofList pt = "Ljava/lang/String;") := by
            rintro (heq | heq)
            · exact hstring (by rw [← heq, String.toList_ofList])
            · exact hdesc (by rw [← heq, String.toList_ofList])
          rw [if_neg hdesc]
          cases hfind : wrappers.find? (fun w => String.ofList pt = w.2.1) with
          | none => exact exists_objectOf_handle sc hkind hnull htn hfind
          | some w => exact exists_objectOf_wrapper sc hkind hnull htn hfind
  · rw [if_neg hkind, if_pos hkind]

/-- A reference is what `JsValueToJavaObject` has made. -/
theorem convertArg_eq_ref {pt : Name} {v : V} {r : Option Ref} (h : convertArg sc pt v = .ref r) :
    fieldKind pt = 'L' ∧ r = jsValueToJavaObject sc v (String.ofList pt) := by
  unfold convertArg at h
  split_ifs at h with h1 h2 h3 h4 h5 h6 h7 h8
  cases h
  refine ⟨?_, rfl⟩
  unfold fieldKind
  rw [if_neg h1, if_neg h2, if_neg h3, if_neg h4, if_neg h6, if_neg h5, if_neg h7, if_neg h8]

/-! ## Fitting overloads -/

/-- The methods of the name that can be called on the target. -/
def Overload (c : JavaClass) (obj : Bool) (mname : Name) (m : CachedMethod) : Prop :=
  ∃ jm, (jm ∈ c.methods ∨ ∃ d ∈ c.declared, jm ∈ d.2) ∧ jm.name = mname ∧ (obj || jm.isStatic) = true ∧
    jm.cached = some m

/-- A call reaches a fitting overload with its arguments. -/
structure Right (c : JavaClass) (n : Name) (obj : Bool) (mname : Name) (args : List V) : Prop where
  order : ∀ c', Reordered c c' → called c' n obj mname args.length = called c n obj mname args.length
  fitting : ∀ m js, jsJCall sc c n obj mname args = .ran m js → Overload c obj mname m ∧ Accepts sc m args
  notNull : ∀ m js (i : Nat) v, jsJCall sc c n obj mname args = .ran m js → args[i]? = some v →
    js[i]? = some (JValue.ref none) → sc.isNullish v = true
  instances : ∀ m js (i : Nat) pt o, jsJCall sc c n obj mname args = .ran m js → m.params[i]? = some pt →
    js[i]? = some (JValue.ref (some o)) → sc.instanceOf o (String.ofList pt) = true
  refused : (∀ m, Overload c obj mname m → ¬ Accepts sc m args) → jsJCall sc c n obj mname args = .thrown

/-- Of the methods with as many parameters as there are arguments, the first listing that has some has only one, and
    every argument is what its parameter needs. -/
structure Good (c : JavaClass) (n : Name) (obj : Bool) (mname : Name) (args : List V) : Prop where
  single : ∀ a ∈ front (hit obj mname args.length) (listing c n mname),
    ∀ b ∈ front (hit obj mname args.length) (listing c n mname), a = b
  fits : ∀ m ∈ front (hit obj mname args.length) (listing c n mname), List.Forall₂ (FitsType sc) m.params args

theorem accepts_iff {m : CachedMethod} {args : List V} :
    Accepts sc m args ↔ List.Forall₂ (FitsType sc) m.params args := by
  unfold Accepts
  rw [show Accepted sc = FitsType sc from funext fun pt => funext fun v => propext (accepted_iff_fitsType sc pt v)]

theorem jsJCall_eq_ran {c : JavaClass} {n : Name} {obj : Bool} {mname : Name} {args : List V} {m : CachedMethod}
    {js : List JValue} (h : jsJCall sc c n obj mname args = .ran m js) :
    called c n obj mname args.length = some m ∧ js = List.zipWith (convertArg sc) m.params args := by
  unfold jsJCall at h
  cases hm : called c n obj mname args.length with
  | none =>
    rw [hm] at h
    cases h
  | some m' =>
    rw [hm] at h
    cases h
    exact ⟨rfl, rfl⟩

/-- What is called is one of the first hits, and one of the overloads. -/
theorem mem_front {c : JavaClass} {n : Name} {obj : Bool} {mname : Name} {argCount : Nat} {m : CachedMethod}
    (h : called c n obj mname argCount = some m) :
    m ∈ front (hit obj mname argCount) (listing c n mname) := by
  rw [called_eq, pick_eq_head?] at h
  exact List.mem_of_mem_head? h

theorem overload_of_called {c : JavaClass} {n : Name} {obj : Bool} {mname : Name} {argCount : Nat}
    {m : CachedMethod} (h : called c n obj mname argCount = some m) : Overload c obj mname m := by
  rw [called_eq] at h
  obtain ⟨l, hl, hm⟩ := List.mem_flatMap.1 (List.mem_of_mem_head? h)
  obtain ⟨jm, hjm, hhit⟩ := List.mem_filterMap.1 hm
  obtain ⟨hname, hstatic, hcached, -⟩ := hit_some hhit
  refine ⟨jm, ?_, hname, hstatic, hcached⟩
  rcases List.mem_append.1 hl with hl | hl
  · split_ifs at hl with hn
    · obtain ⟨d, hd, rfl⟩ := List.mem_map.1 hl
      exact .inr ⟨d, hd, hjm⟩
    · cases hl
  · rw [List.mem_singleton.1 hl] at hjm
    exact .inl hjm

/-- The argument at a place is the value there, converted to the type there. -/
theorem convertArgs_get {pts : List Name} {args : List V} {i : Nat} {j : JValue}
    (h : (List.zipWith (convertArg sc) pts args)[i]? = some j) :
    ∃ pt v, pts[i]? = some pt ∧ args[i]? = some v ∧ j = convertArg sc pt v := by
  obtain ⟨pt, v, hpt, hv, hj⟩ := List.getElem?_zipWith_eq_some.1 h
  exact ⟨pt, v, hpt, hv, hj.symm⟩

/-- A reference argument that its parameter accepts is null for a null value only, and else an instance. -/
theorem Accepted.ref {pt : Name} {v : V} {r : Option Ref} (h : Accepted sc pt v)
    (hr : convertArg sc pt v = .ref r) :
    (r = none → sc.isNullish v = true) ∧ ∀ o, r = some o → sc.instanceOf o (String.ofList pt) = true := by
  obtain ⟨hkind, hmade⟩ := convertArg_eq_ref sc hr
  rw [Accepted, if_pos hkind] at h
  rw [hmade]
  rcases h with hnull | ⟨o, ho⟩
  · refine ⟨fun _ => hnull, fun o ho => ?_⟩
    rw [jsValueToJavaObject, if_pos hnull] at ho
    cases ho
  · rw [ho.made]
    refine ⟨fun h => (Option.some_ne_none o h).elim, fun o' ho' => ?_⟩
    rw [← Option.some.inj ho']
    exact ho.isInstance

/-- A call of a method reaches a fitting overload with its arguments just when the overload is the only one that
    the search can meet and the arguments are what its parameters need. -/
theorem jsJCall_right (c : JavaClass) (n : Name) (obj : Bool) (mname : Name) (args : List V) :
    Right sc c n obj mname args ↔ Good sc c n obj mname args := by
  constructor
  · intro h
    have hsingle := (called_order_iff c n obj mname args.length).1 h.order
    refine ⟨hsingle, fun m hm => ?_⟩
    obtain ⟨m', hcalled⟩ : ∃ m', called c n obj mname args.length = some m' := by
      rw [called_eq, pick_eq_head?]
      exact Option.isSome_iff_exists.1 (List.isSome_head?.2 (List.ne_nil_of_mem hm))
    have hran : jsJCall sc c n obj mname args = .ran m' (List.zipWith (convertArg sc) m'.params args) := by
      rw [jsJCall, hcalled]
    rw [hsingle m hm m' (mem_front hcalled)]
    exact (accepts_iff sc).1 (h.fitting m' _ hran).2
  · intro h
    have hfitting : ∀ m js, jsJCall sc c n obj mname args = .ran m js →
        Overload c obj mname m ∧ Accepts sc m args := by
      intro m js hran
      have hcalled := (jsJCall_eq_ran sc hran).1
      exact ⟨overload_of_called hcalled, (accepts_iff sc).2 (h.fits m (mem_front hcalled))⟩
    have href : ∀ m js (i : Nat) r, jsJCall sc c n obj mname args = .ran m js → js[i]? = some (JValue.ref r) →
        ∃ pt v, m.params[i]? = some pt ∧ args[i]? = some v ∧ (r = none → sc.isNullish v = true) ∧
          ∀ o, r = some o → sc.instanceOf o (String.ofList pt) = true := by
      intro m js i r hran hr
      obtain ⟨-, rfl⟩ := jsJCall_eq_ran sc hran
      obtain ⟨pt, v, hpt, hv, hconv⟩ := convertArgs_get sc hr
      have haccepts : List.Forall₂ (Accepted sc) m.params args := (hfitting m _ hran).2
      have hzip : (pt, v) ∈ m.params.zip args :=
        List.mem_of_getElem? (List.getElem?_zip_eq_some.2 ⟨hpt, hv⟩)
      exact ⟨pt, v, hpt, hv, Accepted.ref sc ((List.forall₂_iff_zip.1 haccepts).2 hzip) hconv.symm⟩
    refine ⟨(called_order_iff c n obj mname args.length).2 h.single, hfitting, ?_, ?_, ?_⟩
    · intro m js i v hran hv hnull
      obtain ⟨pt, v', -, hv', hnullish, -⟩ := href m js i none hran hnull
      rw [hv] at hv'
      rw [Option.some.inj hv']
      exact hnullish rfl
    · intro m js i pt o hran hpt ho
      obtain ⟨pt', v, hpt', -, -, hinst⟩ := href m js i (some o) hran ho
      rw [hpt] at hpt'
      rw [Option.some.inj hpt']
      exact hinst o rfl
    · intro hnone
      cases hout : jsJCall sc c n obj mname args with
      | thrown => rfl
      | ran m js => exact absurd (hfitting m js hout).2 (hnone m (hfitting m js hout).1)

/-- Values are texts, which are no handles. -/
def texts : Scripting (List UInt8) where
  isNullish _ := false
  toCString v := some v
  toBool v := v ≠ []
  toInt32 _ := some 0
  isBigInt _ := false
  toBigInt64 _ := 0
  toInt64 _ := some 0
  toFloat64 _ := some nan
  toFloat b := b.toUInt32
  newStringUTF _ := some ⟨1, by decide⟩
  valueOf _ _ := none
  getJRef _ := none
  instanceOf o tn := o.val = 1 && (tn = "java.lang.String" || tn = "java.lang.Object")
  newStringUTF_instance _ o h := by
    rw [← Option.some.inj h]
    decide
  valueOf_instance _ _ _ h := by cases h

def append (pt : String) (id : Nat) : JavaMethod := ⟨"append".toList, [pt.toList], "void".toList, false, some id⟩

/-- `append(Object)` and `append(String)`, in this order. -/
def log : JavaClass where
  declared := [([], [append "java.lang.Object" 1, append "java.lang.String" 2]), ([], [])]
  methods := [append "java.lang.Object" 1, append "java.lang.String" 2]
  name := "app.Log".toList
  valid := by decide

/-- A text is given to `append(Object)`, where it arrives as null. -/
theorem append_gets_null : ¬ Right texts log "app.Log".toList true "append".toList [[97]] := by
  intro h
  have hran : jsJCall texts log "app.Log".toList true "append".toList [[97]] =
      .ran ⟨1, ["java.lang.Object".toList], "void".toList, false⟩ [.ref none] := by decide
  exact absurd (h.notNull _ _ 0 _ hran rfl rfl) (by decide)

end ArtPi.Agent.Overloads
