import ArtPi.Dex.Nodes

set_option autoImplicit false

/-! # From a request to the image

What the builder was asked for is still there when the tables have been sorted and filled: the index that a request gets
in the end leads through the tables to the texts of the request. -/

namespace ArtPi.Dex.Nodes

open Interning StringPool Tables
open Lib.Utf8 (utf8 utf16 utf16_inj)

variable {strict : Prop} {b b' : Builder} {n : Nat}

/-! ## Nodes and rows -/

namespace Builder

theorem Sound.interned (h : b.Sound strict) : b.ir.Interned where
  strings := by
    have hnodup := h.strings.nodup id fun v w _ _ hv hw heq => utf16_inj (hv.symm.trans (heq.trans hw))
    rwa [List.map_id] at hnodup
  types := by
    have hnodup := h.types.nodup id fun d e s s' hd he (heq : s = s') => hd.functional (heq ▸ he)
    rwa [List.map_id] at hnodup
  protos := by
    refine h.protos.nodup _ ?_
    rintro s s' row row' ⟨sig, shorty, htells⟩ ⟨sig', shorty', htells'⟩ heq
    exact htells.functional htells' (Prod.mk.inj heq).1 (Prod.mk.inj heq).2
  fields := by
    have hnodup := h.fieldDecls.nodup id ?_
    · rwa [List.map_id] at hnodup
    rintro key key' row row' ⟨parent, name, type, htells, rfl, -⟩ ⟨parent', name', type', htells', rfl, -⟩ (rfl : row = row')
    rw [htells.parent.functional htells'.parent, htells.name.functional htells'.name, htells.type.functional htells'.type]
  methods := by
    have hnodup := h.methodDecls.nodup id ?_
    · rwa [List.map_id] at hnodup
    rintro key key' row row' ⟨parent, name, s, htells, rfl, -⟩ ⟨parent', name', s', htells', rfl, -⟩ (rfl : row = row')
    rw [htells.parent.functional htells'.parent, htells.name.functional htells'.name,
      htells.prototype.functional htells'.prototype]
  descriptor d hd := by
    obtain ⟨t, ht⟩ := List.getElem?_of_mem hd
    obtain ⟨descriptor, hs⟩ := h.types.exists_key ht
    exact hs.lt
  proto p hp := by
    obtain ⟨n, hn⟩ := List.getElem?_of_mem hp
    obtain ⟨signature, sig, shorty, htells⟩ := h.protos.exists_key hn
    have hparams := (List.forall₂_and_left (p := (· < b.types.rows.length)) _ _).1
      (htells.paramTypes.imp fun t _ ht => ⟨ht.lt, ht⟩)
    exact ⟨htells.shorty.lt, htells.returnType.lt, hparams.1⟩
  field f hf := by
    obtain ⟨n, hn⟩ := List.getElem?_of_mem hf
    obtain ⟨key, parent, name, type, htells, -⟩ := h.fieldDecls.exists_key hn
    exact ⟨htells.parent.lt, htells.name.lt, htells.type.lt⟩
  method m hm := by
    obtain ⟨n, hn⟩ := List.getElem?_of_mem hm
    obtain ⟨key, parent, name, signature, htells, -⟩ := h.methodDecls.exists_key hn
    exact ⟨htells.parent.lt, htells.name.lt, htells.prototype.lt⟩

theorem HasString.text {s : Nat} {value : List Char} (h : b.HasString s value) : b.ir.string s = utf16 value := h.getD

theorem HasType.text {t : Nat} {d : List Char} (h : b.HasType t d) : b.ir.typeText t = utf16 d := by
  obtain ⟨s, hs, hd⟩ := h
  have hrow : b.ir.descriptor t = s := by
    rw [Ir.descriptor, List.getD_eq_getElem?_getD, show b.ir.types[t]? = some s from hs, Option.getD_some]
  rw [Ir.typeText, hrow, hd.text]

theorem HasProto.text {p : Nat} {signature : List Char} (h : b.HasProto p signature) :
    ∃ sig shorty, parseSignature signature = some sig ∧ shortyOf sig = some shorty ∧
      b.ir.protoText p = ⟨utf16 shorty, utf16 sig.ret, sig.params.map utf16⟩ := by
  obtain ⟨row, sig, shorty, hrow, htells⟩ := h
  have hproto : b.ir.proto p = row := by
    rw [Ir.proto, List.getD_eq_getElem?_getD, show b.ir.protos[p]? = some row from hrow, Option.getD_some]
  have hparams : row.paramTypes.map b.ir.typeText = sig.params.map utf16 := by
    rw [← List.forall₂_eq_eq_eq, List.forall₂_map_left_iff, List.forall₂_map_right_iff]
    exact htells.paramTypes.imp fun _ _ ht => ht.text
  refine ⟨sig, shorty, htells.parsed, htells.shortyOf, ?_⟩
  rw [Ir.protoText, hproto, htells.shorty.text, htells.returnType.text, hparams]

theorem HasField.text {f : Nat} {parent name type : List Char} (h : b.HasField f parent name type) :
    b.ir.fieldText f = ⟨utf16 parent, utf16 name, utf16 type⟩ := by
  obtain ⟨row, hrow, htells⟩ := h
  have hfield : b.ir.field f = row := by
    rw [Ir.field, List.getD_eq_getElem?_getD, show b.ir.fields[f]? = some row from hrow, Option.getD_some]
  rw [Ir.fieldText, hfield, htells.parent.text, htells.name.text, htells.type.text]

theorem HasMethod.text {m : Nat} {parent name signature : List Char} (h : b.HasMethod m parent name signature) :
    ∃ sig shorty, parseSignature signature = some sig ∧ shortyOf sig = some shorty ∧
      b.ir.methodText m = ⟨utf16 parent, utf16 name, ⟨utf16 shorty, utf16 sig.ret, sig.params.map utf16⟩⟩ := by
  obtain ⟨row, hrow, htells⟩ := h
  have hmethod : b.ir.method m = row := by
    rw [Ir.method, List.getD_eq_getElem?_getD, show b.ir.methods[m]? = some row from hrow, Option.getD_some]
  obtain ⟨sig, shorty, hparsed, hshorty, htext⟩ := htells.prototype.text
  refine ⟨sig, shorty, hparsed, hshorty, ?_⟩
  rw [Ir.methodText, hmethod, htells.parent.text, htells.name.text, htext]

end Builder

/-- The index leads to what the request asked for. -/
def Request.TextAt (t : IndexTables) (index : Nat) : Request → Prop
  | .string value => t.parseString index = some (utf16 value)
  | .type raw => t.parseType index = some (utf16 (toDescriptor raw))
  | .proto signature => ∃ sig shorty, parseSignature signature = some sig ∧ shortyOf sig = some shorty ∧
      t.parseProto index = some ⟨utf16 shorty, utf16 sig.ret, sig.params.map utf16⟩
  | .field parent name fieldType =>
    t.parseFieldDecl index = some ⟨utf16 (toDescriptor parent), utf16 name, utf16 (toDescriptor fieldType)⟩
  | .method parent name signature => ∃ sig shorty, parseSignature signature = some sig ∧ shortyOf sig = some shorty ∧
      t.parseMethodDecl index = some ⟨utf16 (toDescriptor parent), utf16 name,
        ⟨utf16 shorty, utf16 sig.ret, sig.params.map utf16⟩⟩

/-- The map from the numbers of the nodes to their indexes. -/
def Request.indexes (maps : IndexMaps) : Request → Nat → Option Nat
  | .string _ => maps.string
  | .type _ => maps.type
  | .proto _ => maps.proto
  | .field _ _ _ => maps.field
  | .method _ _ _ => maps.method

/-- The number of nodes of the kind. -/
def Request.count (ir : Ir) : Request → Nat
  | .string _ => ir.strings.length
  | .type _ => ir.types.length
  | .proto _ => ir.protos.length
  | .field _ _ _ => ir.fields.length
  | .method _ _ _ => ir.methods.length

/-- The final index of a node leads to what was asked for. -/
def Request.Resolved (ir : Ir) (r : Request) (n : Nat) : Prop :=
  ∃ index, mapIndex (r.indexes ir.indexMaps) n = some index ∧ r.TextAt ir.tables index

theorem Request.Has.resolved {r : Request} (h : r.Has b n) (hresolves : Ir.Resolves b.ir) : r.Resolved b.ir n := by
  cases r with
  | string value =>
    obtain ⟨index, hindex, htext⟩ := hresolves.string n (Builder.HasString.lt h)
    exact ⟨index, hindex, htext.trans (congrArg some (Builder.HasString.text h))⟩
  | type raw =>
    obtain ⟨index, hindex, htext⟩ := hresolves.type n (Builder.HasType.lt h)
    exact ⟨index, hindex, htext.trans (congrArg some (Builder.HasType.text h))⟩
  | proto signature =>
    obtain ⟨index, hindex, htext⟩ := hresolves.proto n (Builder.HasProto.lt h)
    obtain ⟨sig, shorty, hparsed, hshorty, heq⟩ := Builder.HasProto.text h
    exact ⟨index, hindex, sig, shorty, hparsed, hshorty, htext.trans (congrArg some heq)⟩
  | field parent name fieldType =>
    have hlt : n < b.ir.fields.length := by
      obtain ⟨row, hrow, -⟩ := h
      exact (List.getElem?_eq_some_iff.1 hrow).1
    obtain ⟨index, hindex, htext⟩ := hresolves.field n hlt
    exact ⟨index, hindex, htext.trans (congrArg some (Builder.HasField.text h))⟩
  | method parent name signature =>
    have hlt : n < b.ir.methods.length := by
      obtain ⟨row, hrow, -⟩ := h
      exact (List.getElem?_eq_some_iff.1 hrow).1
    obtain ⟨index, hindex, htext⟩ := hresolves.method n hlt
    obtain ⟨sig, shorty, hparsed, hshorty, heq⟩ := Builder.HasMethod.text h
    exact ⟨index, hindex, sig, shorty, hparsed, hshorty, htext.trans (congrArg some heq)⟩

theorem resolved_askAll {rs : List Request} {ns : List Nat} (hrun : askAll rs .empty = some (ns, b))
    (hplain : ∀ r ∈ rs, r.Plain) (hfits : b.ir.Fits) : List.Forall₂ (fun r n => r.Resolved b.ir n) rs ns := by
  have hgives : Gives True (askAll rs) _ := gives_askAll fun _ => hplain
  obtain ⟨hsound, -, hhas⟩ := hgives .empty ns b Builder.sound_empty hrun
  exact (hhas trivial).imp fun r n h => h.resolved (Ir.resolves hsound.interned hfits)

/-- Whatever the builder is asked for, and in whatever order: the tables of the image are in order, and the index that
    a request gets in the end leads to what it asked for. -/
theorem askAll_tables {rs : List Request} {ns : List Nat} (hrun : askAll rs .empty = some (ns, b))
    (hplain : ∀ r ∈ rs, r.Plain) (hfits : b.ir.Fits) :
    Ir.Sorted b.ir.tables ∧ List.Forall₂ (fun r n => r.Resolved b.ir n) rs ns := by
  have hgives : Gives True (askAll rs) _ := gives_askAll fun _ => hplain
  obtain ⟨hsound, -, -⟩ := hgives .empty ns b Builder.sound_empty hrun
  exact ⟨Ir.sorted_tables hsound.interned hfits, resolved_askAll hrun hplain hfits⟩

/-! A method `void f()` of a class `A`. -/

theorem str_new {value : List Char} (hnew : b.strings.map.lookup value = none) (hshort : (utf16 value).length < 2 ^ 28) :
    str value b = some (b.strings.rows.length, { b with strings := b.strings.push value (utf16 value) }) := by
  have hlt : (strUnits (utf8 value)).length % 2 ^ 32 < 2 ^ 28 := by
    rw [strUnits_utf8]
    omega
  rw [str, hnew]
  dsimp only
  rw [stringData_eq_some_iff.2 ⟨hlt, rfl⟩, Option.map_some, strUnits_utf8]

theorem type_new {raw : List Char} {s : Nat} (hnew : b.types.map.lookup (toDescriptor raw) = none)
    (hstr : str (toDescriptor raw) b = some (s, b')) :
    type raw b = some (b'.types.rows.length, { b' with types := b'.types.push (toDescriptor raw) s }) := by
  simp only [type, hnew, hstr]
  rfl

def methodRequest : Request := .method ['A'] ['f'] ['(', ')', 'V']

/-- The nodes when there is the class. -/
def classNodes : Builder :=
  { Builder.empty with
    strings := ⟨[(['L', 'A', ';'], 0)], [[0x4c, 0x41, 0x3b]]⟩
    types := ⟨[(['L', 'A', ';'], 0)], [0]⟩ }

/-- And when there is the return type. -/
def voidNodes : Builder :=
  { classNodes with
    strings := ⟨[(['V'], 1), (['L', 'A', ';'], 0)], [[0x4c, 0x41, 0x3b], [0x56]]⟩
    types := ⟨[(['V'], 1), (['L', 'A', ';'], 0)], [0, 1]⟩ }

def protoNodes : Builder := { voidNodes with protos := ⟨[(['(', ')', 'V'], 0)], [⟨1, 1, []⟩]⟩ }

def methodNodes : Builder :=
  { protoNodes with
    strings := ⟨[(['f'], 2), (['V'], 1), (['L', 'A', ';'], 0)], [[0x4c, 0x41, 0x3b], [0x56], [0x66]]⟩
    methodDecls := ⟨[(methodKey ['L', 'A', ';'] ['f'] ['(', ')', 'V'], 0)], [⟨0, 2, 0⟩]⟩ }

theorem ask_methodRequest : askAll [methodRequest] .empty = some ([0], methodNodes) := by
  have hclass : type ['A'] .empty = some (0, classNodes) := type_new rfl (str_new rfl (by decide))
  have hvoid : type ['V'] classNodes = some (1, voidNodes) := type_new rfl (str_new rfl (by decide))
  have hproto : proto ['(', ')', 'V'] classNodes = some (0, protoNodes) := by
    have hparsed : parseSignature ['(', ')', 'V'] = some ⟨[], ['V']⟩ :=
      parseSignature_eq_some_iff.2 ⟨by simp, .primitive rfl, rfl⟩
    simp only [proto, show classNodes.protos.map.lookup ['(', ')', 'V'] = none from rfl, hparsed, Option.bind_eq_bind,
      Option.bind_some, hvoid]
    rfl
  have hname : str ['f'] protoNodes = some (2, { methodNodes with methodDecls := .empty }) := str_new rfl (by decide)
  have hmethod : methodDecl 0 ['f'] 0 protoNodes = some (0, methodNodes) := by
    simp only [methodDecl, hname, show protoNodes.methodDecls.map.lookup _ = none from rfl, Option.bind_eq_bind,
      Option.bind_some]
    rfl
  simp only [askAll, methodRequest, Request.ask, hclass, hproto, hmethod, Option.bind_eq_bind, Option.bind_some]

theorem askAll_tables_methodRequest : Ir.Sorted methodNodes.ir.tables ∧
    List.Forall₂ (fun r n => r.Resolved methodNodes.ir n) [methodRequest] [0] := by
  refine askAll_tables ask_methodRequest ?_ ⟨by decide, by decide, by decide, by decide, by decide⟩
  rintro r (_ | ⟨_, ⟨⟩⟩)
  exact ⟨by decide, by decide⟩

end ArtPi.Dex.Nodes
