import ArtPi.Dex.StaticInits
import ArtPi.Lib.DepthFirst

set_option autoImplicit false

/-! # The order of the classes (`pi_dex_gen.cpp`, `slicer/dex_ir.cc`)

A class definition has to be behind those of its superclass and its interfaces. `SortClassIndexes` numbers the classes
by going from each class up first; a class that has a number is passed over, but one that is under way is not marked,
so the way up does not end where classes are above themselves. `depth` is the stack. -/

namespace ArtPi.Dex.ClassOrder

open DepthFirst StaticInits

/-! ## The classes -/

/-- What a `ClassSpec` says of the place of its class. -/
structure ClassHead where
  name : Text
  superclass : Text
  interfaces : List Text

/-- An `ir::Class`. A type is its descriptor, as the builder has one node for each. -/
structure ClassNode where
  type : Text
  superClass : Option Text
  interfaces : List Text
deriving DecidableEq

/-- `Builder::Type` -/
def typeOf (raw : Text) : Text := StaticInits.toDescriptor raw

/-- `AddClass` -/
def addClassNode (classes : List ClassNode) (spec : ClassHead) : Option (List ClassNode) :=
  let desc := StaticInits.toDescriptor spec.name
  let superDesc := StaticInits.toDescriptor spec.superclass
  if classes.any (·.type = desc) then none
  else if spec.interfaces.any (StaticInits.toDescriptor · = desc) then none
  else some (classes ++ [⟨typeOf desc, if superDesc = desc then none else some (typeOf superDesc),
    spec.interfaces.map (fun i => typeOf (StaticInits.toDescriptor i))⟩])

/-- The loop of `BuildDex`. -/
def addClassNodes (classes : List ClassNode) : List ClassHead → Option (List ClassNode)
  | [] => some classes
  | spec :: specs =>
    let desc := StaticInits.toDescriptor spec.name
    if desc.length < 3 ∨ desc.head? ≠ some 'L'.toUInt8 ∨ desc.getLast? ≠ some ';'.toUInt8 then none
    else (addClassNode classes spec).bind (fun classes => addClassNodes classes specs)

/-! ## `SortClassIndexes` -/

/-- The index of a class that has none. -/
def noIndex : Nat := 2 ^ 32 - 1

structure IndexState where
  index : Text → Nat
  nextIndex : Nat

inductive Stop where
  | depth | check
deriving DecidableEq

/-- `class_def` of a type -/
def classDef (classes : List ClassNode) (type : Text) : Option ClassNode := classes.find? (·.type = type)

/-- Goes on to the class of a type, if there is a type, and if it has a class here. -/
def visitType (classes : List ClassNode) (visit : ClassNode → IndexState → Except Stop IndexState) (type : Option Text)
    (st : IndexState) : Except Stop IndexState :=
  match type.bind (classDef classes) with
  | some cls => visit cls st
  | none => pure st

def topSortClassIndex (classes : List ClassNode) : Nat → ClassNode → IndexState → Except Stop IndexState
  | 0, _, _ => .error .depth
  | depth + 1, cls, st =>
    if st.index cls.type = noIndex then do
      let st ← visitType classes (topSortClassIndex classes depth) cls.superClass st
      let st ← cls.interfaces.foldlM (fun st type =>
        visitType classes (topSortClassIndex classes depth) (some type) st) st
      if st.nextIndex < classes.length then
        pure ⟨Function.update st.index cls.type st.nextIndex, st.nextIndex + 1⟩
      else throw .check
    else pure st

def sortClassIndexes (depth : Nat) (classes : List ClassNode) : Except Stop IndexState :=
  classes.foldlM (fun st cls => topSortClassIndex classes depth cls st) ⟨fun _ => noIndex, 0⟩

/-- The class definitions in the image. The checks of the comparison are those of any two classes. -/
def sortClasses (depth : Nat) (classes : List ClassNode) : Except Stop (List ClassNode) := do
  let st ← sortClassIndexes depth classes
  if (∀ cls ∈ classes, st.index cls.type < classes.length) ∧ (classes.map (fun cls => st.index cls.type)).Nodup then
    pure (classes.insertionSort (fun a b => st.index a.type ≤ st.index b.type))
  else throw .check

/-! ## Classes above a class -/

/-- `d` is the superclass or an interface of `c`. -/
def Extends (classes : List ClassNode) (c d : ClassNode) : Prop :=
  d ∈ classes ∧ (c.superClass = some d.type ∨ d.type ∈ c.interfaces)

def Acyclic (classes : List ClassNode) : Prop := ∀ c ∈ classes, ¬Relation.TransGen (Extends classes) c c

/-- Each class is behind those above it. -/
def SupersFirst (sorted : List ClassNode) : Prop :=
  ∀ pre c post, sorted = pre ++ c :: post → ∀ d, Extends sorted c d → d ∈ pre

/-- The classes above a class, in the order in which they are visited. -/
def supers (classes : List ClassNode) (c : ClassNode) : List ClassNode :=
  (c.superClass.toList ++ c.interfaces).filterMap (classDef classes)

variable {classes : List ClassNode}

theorem classDef_eq_some_iff (htypes : (classes.map ClassNode.type).Nodup) {type : Text} {d : ClassNode} :
    classDef classes type = some d ↔ d ∈ classes ∧ d.type = type := by
  constructor
  · intro h
    exact ⟨List.mem_of_find?_eq_some h, by simpa using List.find?_some h⟩
  · rintro ⟨hd, rfl⟩
    obtain ⟨c, hc⟩ : ∃ c, classDef classes d.type = some c :=
      Option.isSome_iff_exists.1 (List.find?_isSome.2 ⟨d, hd, by simp⟩)
    have hcd : c.type = d.type := by simpa using List.find?_some hc
    rw [hc, List.inj_on_of_nodup_map htypes (List.mem_of_find?_eq_some hc) hd hcd]

theorem needs_supers (htypes : (classes.map ClassNode.type).Nodup) : Needs (supers classes) = Extends classes := by
  funext c d
  refine propext ?_
  simp only [Needs, supers, List.mem_filterMap, List.mem_append, Option.mem_toList, classDef_eq_some_iff htypes, Extends]
  constructor
  · rintro ⟨type, htype, hd, rfl⟩
    exact ⟨hd, htype.imp_left fun h => h⟩
  · rintro ⟨hd, htype⟩
    exact ⟨d.type, htype, hd, rfl⟩

theorem foldlM_visitType {visit : ClassNode → IndexState → Except Stop IndexState} (types : List Text) (st : IndexState) :
    types.foldlM (fun st type => visitType classes visit (some type) st) st =
      (types.filterMap (classDef classes)).foldlM (fun st c => visit c st) st := by
  induction types generalizing st with
  | nil => rfl
  | cons type types ih =>
    rw [List.foldlM_cons, List.filterMap_cons, visitType, Option.bind_some]
    cases classDef classes type with
    | none => exact ih st
    | some c =>
      rw [List.foldlM_cons]
      exact congrArg (visit c st >>= ·) (funext ih)

theorem visitType_superClass {visit : ClassNode → IndexState → Except Stop IndexState} (type : Option Text) (st : IndexState) :
    visitType classes visit type st = (type.toList.filterMap (classDef classes)).foldlM (fun st c => visit c st) st := by
  cases type with
  | none => rfl
  | some type =>
    rw [Option.toList_some, ← foldlM_visitType, List.foldlM_cons]
    exact (bind_pure _).symm

/-- The visit of a class: those above it, and then its number. -/
theorem topSortClassIndex_succ (depth : Nat) (cls : ClassNode) (st : IndexState) :
    topSortClassIndex classes (depth + 1) cls st =
      if st.index cls.type = noIndex then do
        let st ← (supers classes cls).foldlM (fun st c => topSortClassIndex classes depth c st) st
        if st.nextIndex < classes.length then
          pure ⟨Function.update st.index cls.type st.nextIndex, st.nextIndex + 1⟩
        else throw .check
      else pure st := by
  rw [topSortClassIndex, supers, List.filterMap_append, List.foldlM_append, bind_assoc, visitType_superClass]
  simp only [foldlM_visitType]

/-! ## The numbers are the places in the order -/

/-- The classes of the order have their places as numbers, and the others have none. -/
structure Holds (classes order : List ClassNode) (st : IndexState) : Prop where
  subset : order ⊆ classes
  index : ∀ c ∈ classes, st.index c.type = if c ∈ order then order.idxOf c else noIndex
  nextIndex : st.nextIndex = order.length

/-- What the code does where the visits of the library go to `order`, or do not end. -/
def Follows (classes : List ClassNode) (order : Option (List ClassNode)) (result : Except Stop IndexState) : Prop :=
  match order with
  | some order => ∃ st, result = .ok st ∧ Holds classes order st
  | none => result = .error .depth

theorem Holds.number {order : List ClassNode} {st : IndexState} (hst : Holds classes order st)
    (htypes : (classes.map ClassNode.type).Nodup) {c : ClassNode} (hc : c ∈ classes) (hnew : c ∉ order) :
    Holds classes (order ++ [c]) ⟨Function.update st.index c.type st.nextIndex, st.nextIndex + 1⟩ where
  subset := List.append_subset.2 ⟨hst.subset, List.cons_subset.2 ⟨hc, List.nil_subset _⟩⟩
  index d hd := by
    by_cases hcd : d = c
    · subst hcd
      rw [if_pos (by simp), List.idxOf_append_of_notMem hnew, List.idxOf_cons_self, Nat.add_zero]
      exact (Function.update_self ..).trans hst.nextIndex
    · have htype : d.type ≠ c.type := fun h => hcd (List.inj_on_of_nodup_map htypes hd hc h)
      refine (Function.update_of_ne htype ..).trans ((hst.index d hd).trans ?_)
      by_cases hdo : d ∈ order
      · rw [if_pos hdo, if_pos (List.mem_append_left _ hdo), List.idxOf_append_of_mem hdo]
      · rw [if_neg hdo, if_neg (by simp [hdo, hcd])]
  nextIndex := by
    rw [List.length_append, ← hst.nextIndex]
    rfl

theorem follows_foldlM {step : ClassNode → IndexState → Except Stop IndexState}
    {visit : ClassNode → List ClassNode → Option (List ClassNode)} {cs : List ClassNode}
    (hstep : ∀ c ∈ cs, ∀ order st, Ordered (supers classes) order → Holds classes order st →
      Follows classes (visit c order) (step c st))
    (hvisit : ∀ c order order', Ordered (supers classes) order → visit c order = some order' →
      Ordered (supers classes) order')
    {order : List ClassNode} {st : IndexState} (horder : Ordered (supers classes) order) (hst : Holds classes order st) :
    Follows classes (cs.foldlM (fun order c => visit c order) order) (cs.foldlM (fun st c => step c st) st) := by
  induction cs generalizing order st with
  | nil => exact ⟨st, rfl, hst⟩
  | cons c cs ih =>
    have hhead := hstep c List.mem_cons_self order st horder hst
    rw [List.foldlM_cons, List.foldlM_cons]
    cases hmid : visit c order with
    | none =>
      rw [hmid] at hhead
      rw [show step c st = .error .depth from hhead]
      exact rfl
    | some mid =>
      rw [hmid] at hhead
      obtain ⟨st', hst', hholds⟩ := hhead
      rw [hst']
      exact ih (fun d hd => hstep d (List.mem_cons_of_mem c hd)) (hvisit c order mid horder hmid) hholds

theorem supers_subset (c : ClassNode) : supers classes c ⊆ classes := by
  intro d hd
  obtain ⟨type, -, hd⟩ := List.mem_filterMap.1 hd
  exact List.mem_of_find?_eq_some hd

/-- The code visits as the library does. Its check does not fail, as a class that gets a number has none yet. -/
theorem follows_topSortClassIndex (htypes : (classes.map ClassNode.type).Nodup) (hcount : classes.length < 2 ^ 32)
    {depth : Nat} {c : ClassNode} (hc : c ∈ classes) {order : List ClassNode} {st : IndexState}
    (horder : Ordered (supers classes) order) (hst : Holds classes order st) :
    Follows classes (DepthFirst.visit (supers classes) depth c order) (topSortClassIndex classes depth c st) := by
  induction depth generalizing c order st with
  | zero => exact rfl
  | succ depth ih =>
    rw [DepthFirst.visit, topSortClassIndex_succ, hst.index c hc]
    by_cases hmem : c ∈ order
    · have hlt : order.idxOf c < order.length := List.idxOf_lt_length_of_mem hmem
      have hle : order.length ≤ classes.length := (horder.nodup.subperm hst.subset).length_le
      rw [if_pos hmem, if_pos hmem, if_neg (by rw [noIndex]; omega)]
      exact ⟨st, rfl, hst⟩
    · rw [if_neg hmem, if_neg hmem, if_pos rfl]
      have hfold : Follows classes ((supers classes c).foldlM (fun order b => DepthFirst.visit (supers classes) depth b order) order)
          ((supers classes c).foldlM (fun st c => topSortClassIndex classes depth c st) st) :=
        follows_foldlM (fun d hd order st => ih (supers_subset c hd))
          (fun d order order' h hv => (visited_visit h hv).ordered) horder hst
      cases hbelow : (supers classes c).foldlM (fun order b => DepthFirst.visit (supers classes) depth b order) order with
      | none =>
        rw [hbelow] at hfold
        rw [show (supers classes c).foldlM (fun st c => topSortClassIndex classes depth c st) st = .error .depth from hfold]
        exact rfl
      | some below =>
        rw [hbelow] at hfold
        obtain ⟨st', hst', hholds⟩ := hfold
        have hvisit : DepthFirst.visit (supers classes) (depth + 1) c order = some (below ++ [c]) := by
          rw [DepthFirst.visit, if_neg hmem, hbelow]
          rfl
        have hnodup := (visited_visit horder hvisit).ordered.nodup
        have hnew : c ∉ below := fun h => (List.nodup_append.1 hnodup).2.2 c h c (List.mem_singleton_self c) rfl
        have hnumber := hholds.number htypes hc hnew
        have hlt : st'.nextIndex < classes.length := by
          have hle := (hnodup.subperm hnumber.subset).length_le
          rw [List.length_append, List.length_singleton] at hle
          rw [hholds.nextIndex]
          omega
        rw [hst']
        exact ⟨_, if_pos hlt, hnumber⟩

theorem follows_sortClassIndexes (htypes : (classes.map ClassNode.type).Nodup) (hcount : classes.length < 2 ^ 32)
    (depth : Nat) : Follows classes (DepthFirst.visitAll (supers classes) depth classes []) (sortClassIndexes depth classes) := by
  have hstart : Holds classes [] ⟨fun _ => noIndex, 0⟩ :=
    ⟨List.nil_subset _, fun c _ => by rw [if_neg List.not_mem_nil], rfl⟩
  exact follows_foldlM (fun c hc order st => follows_topSortClassIndex htypes hcount hc)
    (fun c order order' h hv => (visited_visit h hv).ordered) .nil hstart

/-! ## The definitions in the image -/

theorem Holds.place {order : List ClassNode} {st : IndexState} (hst : Holds classes order st) (hnodup : order.Nodup)
    {i : Nat} (hi : i < order.length) : st.index order[i].type = i := by
  have hmem : order[i] ∈ order := List.getElem_mem hi
  rw [hst.index _ (hst.subset hmem), if_pos hmem, hnodup.idxOf_getElem]

theorem Holds.sorted {order : List ClassNode} {st : IndexState} (hst : Holds classes order st) (hnodup : order.Nodup)
    (hperm : order.Perm classes) :
    classes.insertionSort (fun a b => st.index a.type ≤ st.index b.type) = order := by
  have htotal : Std.Total (fun a b : ClassNode => st.index a.type ≤ st.index b.type) := ⟨fun a b => Nat.le_total _ _⟩
  have htrans : IsTrans ClassNode (fun a b => st.index a.type ≤ st.index b.type) := ⟨fun _ _ _ => Nat.le_trans⟩
  have hsorted := List.pairwise_insertionSort (fun a b : ClassNode => st.index a.type ≤ st.index b.type) classes
  have hplaces : order.Pairwise (fun a b => st.index a.type ≤ st.index b.type) := by
    rw [List.pairwise_iff_getElem]
    intro i j hi hj hij
    rw [hst.place hnodup hi, hst.place hnodup hj]
    exact Nat.le_of_lt hij
  refine List.Perm.eq_of_pairwise ?_ hsorted hplaces ((List.perm_insertionSort _ _).trans hperm.symm)
  intro a b ha hb hab hba
  have ha : a ∈ order := hperm.mem_iff.2 ((List.mem_insertionSort _).1 ha)
  obtain ⟨i, hi, rfl⟩ := List.getElem_of_mem ha
  obtain ⟨j, hj, rfl⟩ := List.getElem_of_mem hb
  rw [hst.place hnodup hi, hst.place hnodup hj] at hab hba
  obtain rfl := Nat.le_antisymm hab hba
  rfl

/-- Where the numbering ends, the classes are in the order of the visits. -/
theorem Holds.sortClasses {order : List ClassNode} {st : IndexState} (hst : Holds classes order st)
    (hnodup : order.Nodup) (hperm : order.Perm classes) {depth : Nat} (hindexes : sortClassIndexes depth classes = .ok st) :
    sortClasses depth classes = .ok order := by
  have hlt : ∀ c ∈ classes, st.index c.type < classes.length := by
    intro c hc
    rw [hst.index c hc, if_pos (hperm.mem_iff.2 hc), ← hperm.length_eq]
    exact List.idxOf_lt_length_of_mem (hperm.mem_iff.2 hc)
  have hne : (classes.map (fun c => st.index c.type)).Nodup := by
    refine (hperm.map _).nodup_iff.1 (List.Nodup.map_on ?_ hnodup)
    intro a ha b hb hab
    obtain ⟨i, hi, rfl⟩ := List.getElem_of_mem ha
    obtain ⟨j, hj, rfl⟩ := List.getElem_of_mem hb
    rw [hst.place hnodup hi, hst.place hnodup hj] at hab
    subst hab
    rfl
  rw [ClassOrder.sortClasses, hindexes]
  refine (if_pos ⟨hlt, hne⟩).trans ?_
  rw [hst.sorted hnodup hperm]
  rfl

theorem supersFirst_of_ordered (htypes : (classes.map ClassNode.type).Nodup) {order : List ClassNode}
    (h : Ordered (supers classes) order) (hsub : order ⊆ classes) : SupersFirst order := by
  intro pre c post hsplit d hd
  refine h.ahead hsplit ?_
  rw [needs_supers htypes]
  exact ⟨hsub hd.1, hd.2⟩

/-! ## The classes of the builder -/

theorem typeOf_desc {desc : Text} (hhead : desc.head? = some 'L'.toUInt8) (hlast : desc.getLast? = some ';'.toUInt8) :
    typeOf desc = desc := by
  cases desc with
  | nil => rfl
  | cons c rest => exact if_pos ⟨Option.some.inj hhead, hlast⟩

theorem types_addClassNodes {specs : List ClassHead} {made : List ClassNode} (h : addClassNodes classes specs = some made)
    (htypes : (classes.map ClassNode.type).Nodup) : (made.map ClassNode.type).Nodup := by
  induction specs generalizing classes with
  | nil =>
    obtain rfl := Option.some.inj h
    exact htypes
  | cons spec specs ih =>
    rw [addClassNodes] at h
    split at h
    · exact absurd h (by simp)
    · next hdesc =>
        simp only [not_or, not_not] at hdesc
        obtain ⟨next, hnext, hrest⟩ := Option.bind_eq_some_iff.1 h
        refine ih hrest ?_
        simp only [addClassNode] at hnext
        split at hnext
        · exact absurd hnext (by simp)
        · next hknown =>
            split at hnext
            · exact absurd hnext (by simp)
            · obtain rfl := Option.some.inj hnext
              rw [List.map_append, List.map_singleton, typeOf_desc hdesc.2.1 hdesc.2.2]
              refine List.nodup_append.2 ⟨htypes, List.nodup_singleton _, ?_⟩
              rintro type htype _ hd rfl
              obtain ⟨c, hc, rfl⟩ := List.mem_map.1 htype
              exact hknown (List.any_eq_true.2 ⟨c, hc, decide_eq_true (List.mem_singleton.1 hd)⟩)

/-- The classes of a program are put into an order with every class behind those above it if no class is above itself,
    and the numbering does not end on any stack if one is. -/
theorem sortClasses_ends_iff {specs : List ClassHead} (hbuild : addClassNodes [] specs = some classes)
    (hcount : classes.length < 2 ^ 32) :
    (Acyclic classes → ∀ depth, classes.length < depth →
      ∃ sorted, sortClasses depth classes = .ok sorted ∧ sorted.Perm classes ∧ SupersFirst sorted) ∧
    (¬Acyclic classes → ∀ depth, sortClasses depth classes = .error .depth) := by
  have htypes := types_addClassNodes hbuild List.nodup_nil
  have hclosed : ∀ c ∈ classes, ∀ d, Needs (supers classes) c d → d ∈ classes := fun c _ d hd => supers_subset c hd
  have hfollows := follows_sortClassIndexes htypes hcount
  constructor
  · intro hacyclic depth hdepth
    rw [Acyclic, ← needs_supers htypes] at hacyclic
    obtain ⟨order, hvisit⟩ := (exists_visitAll_iff hclosed hdepth).2 hacyclic
    have hvisited := visited_visitAll .nil hvisit
    have hst := hfollows depth
    rw [hvisit] at hst
    obtain ⟨st, hindexes, hholds⟩ := hst
    have hnodup := hvisited.ordered.nodup
    have hperm : order.Perm classes := (List.perm_ext_iff_of_nodup hnodup (List.Nodup.of_map _ htypes)).2
      fun c => ⟨fun hc => hholds.subset hc, fun hc => hvisited.visits hc⟩
    exact ⟨order, hholds.sortClasses hnodup hperm hindexes, hperm,
      supersFirst_of_ordered htypes hvisited.ordered hholds.subset⟩
  · intro hcyclic depth
    have hst := hfollows depth
    cases hvisit : DepthFirst.visitAll (supers classes) depth classes [] with
    | none =>
      rw [hvisit] at hst
      rw [sortClasses, show sortClassIndexes depth classes = .error .depth from hst]
      exact rfl
    | some order =>
      have hvisited := visited_visitAll .nil hvisit
      refine absurd ?_ hcyclic
      rw [Acyclic, ← needs_supers htypes]
      exact fun c hc => not_transGen_of_acc (hvisited.ordered.acc (hvisited.visits hc))

/-- `class Foo extends Bar` and `class Bar extends Foo` -/
def eachOther : List ClassHead := [⟨ascii "Foo", ascii "Bar", []⟩, ⟨ascii "Bar", ascii "Foo", []⟩]

def nodeFoo : ClassNode := ⟨ascii "LFoo;", some (ascii "LBar;"), []⟩

def nodeBar : ClassNode := ⟨ascii "LBar;", some (ascii "LFoo;"), []⟩

theorem not_acyclic_eachOther : ¬Acyclic [nodeFoo, nodeBar] := by
  intro hacyclic
  have hfoo : Extends [nodeFoo, nodeBar] nodeFoo nodeBar := ⟨by simp, .inl rfl⟩
  have hbar : Extends [nodeFoo, nodeBar] nodeBar nodeFoo := ⟨by simp, .inl rfl⟩
  exact hacyclic nodeFoo (by simp) (.tail (.single hfoo) hbar)

/-- The builder takes two classes above each other, and the numbering does not end. -/
theorem sortClasses_eachOther : addClassNodes [] eachOther = some [nodeFoo, nodeBar] ∧
    ∀ depth, sortClasses depth [nodeFoo, nodeBar] = .error .depth := by
  have hbuild : addClassNodes [] eachOther = some [nodeFoo, nodeBar] := by decide
  exact ⟨hbuild, (sortClasses_ends_iff hbuild (by decide)).2 not_acyclic_eachOther⟩

end ArtPi.Dex.ClassOrder
