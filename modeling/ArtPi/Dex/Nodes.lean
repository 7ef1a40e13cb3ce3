import ArtPi.Dex.Invoke
import ArtPi.Dex.Tables
import ArtPi.Lib.Interning

set_option autoImplicit false

/-! # The nodes of an image (`pi_dex_gen.cpp`)

The builder makes one node for every string, type, prototype, field and method that it is asked for, and finds it again
by a text. For a field and a method that text is put together from the texts of its parts. -/

namespace ArtPi.Dex.Nodes

open Interning StringPool Tables
open Lib.Utf8 (utf8 utf16 utf16_inj mem_of_mem_utf8)

/-! ## The builder -/

/-- The maps of `Builder`, each with the nodes that it leads to. -/
structure Builder where
  strings : Table (List Char) Utf16
  types : Table (List Char) Nat
  protos : Table (List Char) Proto
  fieldDecls : Table (List UInt8) FieldDecl
  methodDecls : Table (List UInt8) MethodDecl

/-- What the builder does, `none` where it gives up: an assertion, or a signature that is none. -/
abbrev Build (α : Type) := Builder → Option (α × Builder)

/-- `Builder::Str` -/
def str (value : List Char) : Build Nat := fun b =>
  match b.strings.map.lookup value with
  | some n => some (n, b)
  | none =>
    (stringData (utf8 value)).map fun _ =>
      (b.strings.rows.length, { b with strings := b.strings.push value (strUnits (utf8 value)) })

/-- `Builder::Type` -/
def type (raw : List Char) : Build Nat := fun b =>
  let descriptor := toDescriptor raw
  match b.types.map.lookup descriptor with
  | some n => some (n, b)
  | none => do
    let (s, b) ← str descriptor b
    some (b.types.rows.length, { b with types := b.types.push descriptor s })

/-- The types of the parameters. -/
def typeEach : List (List Char) → Build (List Nat)
  | [], b => some ([], b)
  | raw :: raws, b => do
    let (n, b) ← type raw b
    let (ns, b) ← typeEach raws b
    some (n :: ns, b)

def descriptorToShorty (descriptor : List Char) : Option Char :=
  let cString := descriptor.takeWhile (· ≠ Char.ofNat 0)
  let array_dimensions := (cString.takeWhile (· = '[')).length
  match cString.dropWhile (· = '[') with
  | [] => none
  | short_descriptor :: name =>
    -- skip the full class name
    let last := if short_descriptor = 'L' then name.dropWhile (· ≠ ';') else short_descriptor :: name
    if short_descriptor = 'L' ∧ last = [] then none
    else if last.tail ≠ [] then none
    else if short_descriptor ≠ 'L' ∧ !isPrimitiveChar short_descriptor then none
    else some (if array_dimensions > 0 then 'L' else short_descriptor)

/-- The shorty of `Builder::Proto`. -/
def shortyOf (sig : Signature) : Option (List Char) :=
  (sig.ret :: sig.params).mapM (fun t => descriptorToShorty (toDescriptor t))

/-- `Builder::Proto` -/
def proto (signature : List Char) : Build Nat := fun b =>
  match b.protos.map.lookup signature with
  | some n => some (n, b)
  | none => do
    let sig ← parseSignature signature
    let (returnType, b) ← type sig.ret b
    let (paramTypes, b) ← typeEach sig.params b
    let shorty ← shortyOf sig
    let (shorty, b) ← str shorty b
    some (b.protos.rows.length, { b with protos := b.protos.push signature ⟨shorty, returnType, paramTypes⟩ })

/-- `c_str()` of the descriptor of a type. -/
def Builder.descriptor (b : Builder) (t : Nat) : List UInt8 :=
  (b.strings.rows.getD (b.types.rows.getD t 0) []).flatMap appendMutf8Unit

/-- `Proto::Signature` -/
def Builder.signature (b : Builder) (p : Nat) : List UInt8 :=
  let proto := b.protos.rows.getD p ⟨0, 0, []⟩
  utf8 ['('] ++ proto.paramTypes.flatMap b.descriptor ++ utf8 [')'] ++ b.descriptor proto.returnType

/-- `Builder::MethodDecl` -/
def methodDecl (parent : Nat) (name : List Char) (proto : Nat) : Build Nat := fun b =>
  let key := b.descriptor parent ++ utf8 ['-', '>'] ++ utf8 name ++ b.signature proto
  match b.methodDecls.map.lookup key with
  | some n => some (n, b)
  | none => do
    let (name, b) ← str name b
    some (b.methodDecls.rows.length, { b with methodDecls := b.methodDecls.push key ⟨parent, name, proto⟩ })

/-- `Builder::FieldDecl` -/
def fieldDecl (parent : Nat) (name : List Char) (type : Nat) : Build Nat := fun b =>
  let key := b.descriptor parent ++ utf8 ['-', '>'] ++ utf8 name ++ utf8 [':'] ++ b.descriptor type
  match b.fieldDecls.map.lookup key with
  | some n => some (n, b)
  | none => do
    let (name, b) ← str name b
    some (b.fieldDecls.rows.length, { b with fieldDecls := b.fieldDecls.push key ⟨parent, name, type⟩ })

/-! ## Requests -/

/-- What the builder is asked for, by a class or by code through its `IrContext`. -/
inductive Request where
  | string (value : List Char)
  | type (raw : List Char)
  | proto (signature : List Char)
  | field (parent name fieldType : List Char)
  | method (parent name signature : List Char)

def Request.ask : Request → Build Nat
  | .string value => str value
  | .type raw => Nodes.type raw
  | .proto signature => Nodes.proto signature
  | .field parent name fieldType => fun b => do
    let (parent, b) ← Nodes.type parent b
    let (t, b) ← Nodes.type fieldType b
    fieldDecl parent name t b
  | .method parent name signature => fun b => do
    let (parent, b) ← Nodes.type parent b
    let (p, b) ← Nodes.proto signature b
    methodDecl parent name p b

def askAll : List Request → Build (List Nat)
  | [], b => some ([], b)
  | r :: rs, b => do
    let (n, b) ← r.ask b
    let (ns, b) ← askAll rs b
    some (n :: ns, b)

namespace Builder

def empty : Builder := ⟨.empty, .empty, .empty, .empty, .empty⟩

/-- The `ir::DexFile` of the builder. -/
def ir (b : Builder) : Ir where
  strings := b.strings.rows
  types := b.types.rows
  protos := b.protos.rows
  fields := b.fieldDecls.rows
  methods := b.methodDecls.rows

/-! ## What the nodes tell -/

variable (b : Builder)

def HasString (s : Nat) (value : List Char) : Prop := b.strings.rows[s]? = some (utf16 value)

def HasType (t : Nat) (descriptor : List Char) : Prop := ∃ s, b.types.rows[t]? = some s ∧ b.HasString s descriptor

/-- The node of a prototype that has this signature. -/
structure TellsProto (signature : List Char) (row : Proto) (sig : Signature) (shorty : List Char) : Prop where
  parsed : parseSignature signature = some sig
  shortyOf : shortyOf sig = some shorty
  shorty : b.HasString row.shorty shorty
  returnType : b.HasType row.returnType sig.ret
  paramTypes : List.Forall₂ b.HasType row.paramTypes sig.params

def HasProto (p : Nat) (signature : List Char) : Prop :=
  ∃ row sig shorty, b.protos.rows[p]? = some row ∧ b.TellsProto signature row sig shorty

end Builder

/-- The bytes of a text in its string. -/
def mutf8 (text : List Char) : List UInt8 := (utf16 text).flatMap appendMutf8Unit

def fieldKey (parent name type : List Char) : List UInt8 :=
  mutf8 parent ++ utf8 ['-', '>'] ++ utf8 name ++ utf8 [':'] ++ mutf8 type

def methodKey (parent name signature : List Char) : List UInt8 :=
  mutf8 parent ++ utf8 ['-', '>'] ++ utf8 name ++ mutf8 signature

namespace Builder

variable (b : Builder)

structure TellsField (row : FieldDecl) (parent name type : List Char) : Prop where
  parent : b.HasType row.parent parent
  name : b.HasString row.name name
  type : b.HasType row.type type

structure TellsMethod (row : MethodDecl) (parent name signature : List Char) : Prop where
  parent : b.HasType row.parent parent
  name : b.HasString row.name name
  prototype : b.HasProto row.prototype signature

end Builder

/-- A name by which the key of a field or a method can be taken apart again. -/
def Plain (stop : Char) (parent name : List Char) : Prop := '>' ∉ parent ∧ stop ∉ name

namespace Builder

/-- Every table has one node for each of its keys, which tells the key. With `strict` the keys are plain ones. -/
structure Sound (strict : Prop) (b : Builder) : Prop where
  strings : b.strings.Sound (fun value units => units = utf16 value)
  types : b.types.Sound (fun descriptor s => b.HasString s descriptor)
  protos : b.protos.Sound (fun signature row => ∃ sig shorty, b.TellsProto signature row sig shorty)
  fieldDecls : b.fieldDecls.Sound (fun key row => ∃ parent name type,
    b.TellsField row parent name type ∧ key = fieldKey parent name type ∧ (strict → Plain ':' parent name))
  methodDecls : b.methodDecls.Sound (fun key row => ∃ parent name signature,
    b.TellsMethod row parent name signature ∧ key = methodKey parent name signature ∧ (strict → Plain '(' parent name))

/-- The later builder has all nodes of the earlier one. -/
structure Le (b b' : Builder) : Prop where
  strings : b.strings.rows <+: b'.strings.rows
  types : b.types.rows <+: b'.types.rows
  protos : b.protos.rows <+: b'.protos.rows
  fieldDecls : b.fieldDecls.rows <+: b'.fieldDecls.rows
  methodDecls : b.methodDecls.rows <+: b'.methodDecls.rows

variable {strict : Prop} {b b' b'' : Builder}

theorem Le.refl (b : Builder) : b.Le b :=
  ⟨List.prefix_refl _, List.prefix_refl _, List.prefix_refl _, List.prefix_refl _, List.prefix_refl _⟩

theorem Le.trans (h : b.Le b') (h' : b'.Le b'') : b.Le b'' :=
  ⟨h.strings.trans h'.strings, h.types.trans h'.types, h.protos.trans h'.protos, h.fieldDecls.trans h'.fieldDecls,
    h.methodDecls.trans h'.methodDecls⟩

theorem getElem?_mono {α : Type} {l l' : List α} (h : l <+: l') {n : Nat} {a : α} (ha : l[n]? = some a) :
    l'[n]? = some a := by
  obtain ⟨rest, rfl⟩ := h
  rw [List.getElem?_append_left (List.getElem?_eq_some_iff.1 ha).1, ha]

theorem HasString.mono (hle : b.Le b') {s : Nat} {value : List Char} (h : b.HasString s value) : b'.HasString s value :=
  getElem?_mono hle.strings h

theorem HasType.mono (hle : b.Le b') {t : Nat} {descriptor : List Char} (h : b.HasType t descriptor) :
    b'.HasType t descriptor :=
  h.imp fun _ hs => ⟨getElem?_mono hle.types hs.1, hs.2.mono hle⟩

theorem TellsProto.mono (hle : b.Le b') {signature : List Char} {row : Proto} {sig : Signature} {shorty : List Char}
    (h : b.TellsProto signature row sig shorty) : b'.TellsProto signature row sig shorty :=
  ⟨h.parsed, h.shortyOf, h.shorty.mono hle, h.returnType.mono hle, h.paramTypes.imp fun _ _ ht => ht.mono hle⟩

theorem HasProto.mono (hle : b.Le b') {p : Nat} {signature : List Char} (h : b.HasProto p signature) :
    b'.HasProto p signature := by
  obtain ⟨row, sig, shorty, hrow, htells⟩ := h
  exact ⟨row, sig, shorty, getElem?_mono hle.protos hrow, htells.mono hle⟩

theorem TellsField.mono (hle : b.Le b') {row : FieldDecl} {parent name type : List Char}
    (h : b.TellsField row parent name type) : b'.TellsField row parent name type :=
  ⟨h.parent.mono hle, h.name.mono hle, h.type.mono hle⟩

theorem TellsMethod.mono (hle : b.Le b') {row : MethodDecl} {parent name signature : List Char}
    (h : b.TellsMethod row parent name signature) : b'.TellsMethod row parent name signature :=
  ⟨h.parent.mono hle, h.name.mono hle, h.prototype.mono hle⟩

theorem Sound.later (h : b.Sound strict) (hle : b.Le b') :
    b.types.Sound (fun descriptor s => b'.HasString s descriptor) ∧
    b.protos.Sound (fun signature row => ∃ sig shorty, b'.TellsProto signature row sig shorty) ∧
    b.fieldDecls.Sound (fun key row => ∃ parent name type,
      b'.TellsField row parent name type ∧ key = fieldKey parent name type ∧ (strict → Plain ':' parent name)) ∧
    b.methodDecls.Sound (fun key row => ∃ parent name signature,
      b'.TellsMethod row parent name signature ∧ key = methodKey parent name signature ∧
        (strict → Plain '(' parent name)) := by
  refine ⟨h.types.mono fun _ _ hs => hs.mono hle, h.protos.mono ?_, h.fieldDecls.mono ?_, h.methodDecls.mono ?_⟩
  · rintro signature row ⟨sig, shorty, htells⟩
    exact ⟨sig, shorty, htells.mono hle⟩
  · rintro key row ⟨parent, name, type, htells, hkey⟩
    exact ⟨parent, name, type, htells.mono hle, hkey⟩
  · rintro key row ⟨parent, name, signature, htells, hkey⟩
    exact ⟨parent, name, signature, htells.mono hle, hkey⟩

theorem sound_empty : empty.Sound strict := ⟨.empty, .empty, .empty, .empty, .empty⟩

end Builder

/-! ## The bytes of texts -/

theorem mutf8_eq (text : List Char) : mutf8 text = Lib.ModifiedUtf8.encode (utf16 text) := flatMap_appendMutf8Unit _

theorem mutf8_inj {s t : List Char} (h : mutf8 s = mutf8 t) : s = t := by
  rw [mutf8_eq, mutf8_eq] at h
  refine utf16_inj ?_
  rw [← Lib.ModifiedUtf8.decode_encode (utf16 s), h, Lib.ModifiedUtf8.decode_encode]

theorem utf8_inj {s t : List Char} (h : utf8 s = utf8 t) : s = t := by
  have hstr := strUnits_utf8 s
  rw [h, strUnits_utf8] at hstr
  exact (utf16_inj hstr).symm

theorem mutf8_append (s t : List Char) : mutf8 (s ++ t) = mutf8 s ++ mutf8 t := by
  rw [mutf8, utf16, List.flatMap_append, List.flatMap_append]
  rfl

theorem mutf8_flatten (ts : List (List Char)) : mutf8 ts.flatten = ts.flatMap mutf8 := by
  induction ts with
  | nil => rfl
  | cons t ts ih => rw [List.flatten_cons, mutf8_append, ih, List.flatMap_cons]

theorem mem_of_mem_mutf8 {c : Char} {text : List Char} (hc : c.toNat < 0x80)
    (h : UInt8.ofNat c.toNat ∈ mutf8 text) : c ∈ text := by
  rw [mutf8_eq] at h
  obtain ⟨u, hu, hb⟩ := List.mem_flatMap.1 h
  have hunit := Lib.ModifiedUtf8.toNat_of_mem_encodeUnit hc hb
  obtain ⟨d, hd, hud⟩ := List.mem_flatMap.1 hu
  have hle := Lib.Utf8.toNat_le d
  have hof : ∀ n < 65536, (UInt16.ofNat n).toNat = n := fun n hn => Lib.Utf8.toNat_ofNat16 hn
  rw [Lib.Utf8.units] at hud
  split_ifs at hud with hbmp
  · rw [List.mem_singleton.1 hud, hof _ (by omega)] at hunit
    exact Char.toNat_inj.1 hunit ▸ hd
  · simp only [List.mem_cons, List.not_mem_nil, or_false] at hud
    rcases hud with rfl | rfl
    · rw [hof _ (by omega)] at hunit
      omega
    · rw [hof _ (by omega)] at hunit
      omega

theorem toDescriptor_of_readable {t : List Char} (h : Readable t) : toDescriptor t = t := by
  cases h with
  | @primitive c hc =>
    have hne : c ≠ 'L' := isPrimitiveChar_ne hc rfl
    have hne' : c ≠ '[' := isPrimitiveChar_ne hc rfl
    simp [toDescriptor, hne, hne', hc]
  | @object n name hname hsemi =>
    cases n with
    | zero =>
      have hlast : ('L' :: (name ++ [';'])).getLast? = some ';' := by
        rw [← List.cons_append, List.getLast?_append]
        rfl
      exact if_pos ⟨rfl, hlast⟩
    | succ n => simp [toDescriptor, List.replicate_succ]

namespace Builder

variable {b : Builder}

theorem HasString.getD {s : Nat} {value : List Char} (h : b.HasString s value) : b.strings.rows.getD s [] = utf16 value := by
  rw [List.getD_eq_getElem?_getD, show b.strings.rows[s]? = _ from h]
  rfl

theorem HasString.lt {s : Nat} {value : List Char} (h : b.HasString s value) : s < b.strings.rows.length :=
  (List.getElem?_eq_some_iff.1 h).1

theorem HasString.functional {s : Nat} {v w : List Char} (h : b.HasString s v) (h' : b.HasString s w) : v = w :=
  utf16_inj (Option.some.inj ((show _ = _ from h).symm.trans h'))

theorem HasType.lt {t : Nat} {d : List Char} (h : b.HasType t d) : t < b.types.rows.length := by
  obtain ⟨s, hs, -⟩ := h
  exact (List.getElem?_eq_some_iff.1 hs).1

theorem HasType.functional {t : Nat} {d e : List Char} (h : b.HasType t d) (h' : b.HasType t e) : d = e := by
  obtain ⟨s, hs, hd⟩ := h
  obtain ⟨s', hs', he⟩ := h'
  obtain rfl := Option.some.inj (hs.symm.trans hs')
  exact hd.functional he

theorem HasType.descriptor {t : Nat} {d : List Char} (h : b.HasType t d) : b.descriptor t = mutf8 d := by
  obtain ⟨s, hs, hd⟩ := h
  have hrow : b.types.rows.getD t 0 = s := by rw [List.getD_eq_getElem?_getD, hs, Option.getD_some]
  rw [Builder.descriptor, hrow, hd.getD, mutf8]

theorem flatMap_descriptor {ts : List Nat} {ds : List (List Char)} (h : List.Forall₂ b.HasType ts ds) :
    ts.flatMap b.descriptor = ds.flatMap mutf8 := by
  induction h with
  | nil => rfl
  | cons hhead _ ih => rw [List.flatMap_cons, List.flatMap_cons, hhead.descriptor, ih]

theorem TellsProto.signature_eq {signature : List Char} {row : Proto} {sig : Signature} {shorty : List Char}
    (h : b.TellsProto signature row sig shorty) : signature = describe sig := (words_of_parseSignature h.parsed).2

theorem TellsProto.functional {s s' : List Char} {row row' : Proto} {sig sig' : Signature} {shorty shorty' : List Char}
    (h : b.TellsProto s row sig shorty) (h' : b.TellsProto s' row' sig' shorty')
    (hret : row.returnType = row'.returnType) (hparams : row.paramTypes = row'.paramTypes) : s = s' := by
  have hsigret : sig.ret = sig'.ret := h.returnType.functional (hret ▸ h'.returnType)
  have hsigparams : sig.params = sig'.params :=
    List.right_unique_forall₂' (fun _ _ _ hd he => hd.functional he) h.paramTypes (hparams ▸ h'.paramTypes)
  rw [h.signature_eq, h'.signature_eq, describe, describe, hsigret, hsigparams]

theorem HasProto.lt {p : Nat} {s : List Char} (h : b.HasProto p s) : p < b.protos.rows.length := by
  obtain ⟨row, sig, shorty, hrow, -⟩ := h
  exact (List.getElem?_eq_some_iff.1 hrow).1

theorem HasProto.functional {p : Nat} {s s' : List Char} (h : b.HasProto p s) (h' : b.HasProto p s') : s = s' := by
  obtain ⟨row, sig, shorty, hrow, htells⟩ := h
  obtain ⟨row', sig', shorty', hrow', htells'⟩ := h'
  obtain rfl := Option.some.inj (hrow.symm.trans hrow')
  exact htells.functional htells' rfl rfl

theorem HasProto.signature {p : Nat} {s : List Char} (h : b.HasProto p s) : b.signature p = mutf8 s := by
  obtain ⟨row, sig, shorty, hrow, htells⟩ := h
  have hparams := flatMap_descriptor htells.paramTypes
  have hsplit : '(' :: (sig.params.flatten ++ ')' :: sig.ret) = ['('] ++ sig.params.flatten ++ ([')'] ++ sig.ret) := by simp
  rw [Builder.signature, List.getD_eq_getElem?_getD, hrow]
  dsimp only [Option.getD_some]
  rw [hparams, htells.returnType.descriptor, htells.signature_eq, describe, hsplit, mutf8_append, mutf8_append, mutf8_append,
    mutf8_flatten, ← List.append_assoc]
  rfl

end Builder

/-! ## What each request gives -/

/-- The builder stays sound and keeps its nodes, and the number has this meaning in the end. -/
def Gives {α : Type} (strict : Prop) (m : Build α) (Has : Builder → α → Prop) : Prop :=
  ∀ b a b', b.Sound strict → m b = some (a, b') → b'.Sound strict ∧ b.Le b' ∧ Has b' a

variable {strict : Prop} {b b' : Builder} {n : Nat}

theorem str_frame {value : List Char} (h : str value b = some (n, b')) : b' = { b with strings := b'.strings } := by
  rw [str] at h
  split at h
  · obtain ⟨rfl, rfl⟩ := Prod.mk.inj (Option.some.inj h)
    rfl
  · obtain ⟨data, -, hmade⟩ := Option.map_eq_some_iff.1 h
    obtain ⟨rfl, rfl⟩ := Prod.mk.inj hmade
    rfl

theorem gives_str (value : List Char) : Gives strict (str value) (·.HasString · value) := by
  intro b n b' hb h
  rw [str] at h
  cases hlookup : b.strings.map.lookup value with
  | some m =>
    rw [hlookup] at h
    obtain ⟨rfl, rfl⟩ := Prod.mk.inj (Option.some.inj h)
    obtain ⟨units, hrow, rfl⟩ := hb.strings.tells value m hlookup
    exact ⟨hb, .refl _, hrow⟩
  | none =>
    rw [hlookup] at h
    obtain ⟨data, -, hmade⟩ := Option.map_eq_some_iff.1 h
    obtain ⟨rfl, rfl⟩ := Prod.mk.inj hmade
    have hle : b.Le { b with strings := b.strings.push value (strUnits (utf8 value)) } :=
      { Builder.Le.refl b with strings := List.prefix_append _ _ }
    obtain ⟨htypes, hprotos, hfields, hmethods⟩ := hb.later hle
    refine ⟨⟨hb.strings.push hlookup (strUnits_utf8 value), htypes, hprotos, hfields, hmethods⟩, hle, ?_⟩
    simp [Builder.HasString, Table.push, strUnits_utf8]

theorem type_frame {raw : List Char} (h : type raw b = some (n, b')) :
    b' = { b with strings := b'.strings, types := b'.types } := by
  simp only [type] at h
  split at h
  · obtain ⟨rfl, rfl⟩ := Prod.mk.inj (Option.some.inj h)
    rfl
  · obtain ⟨⟨s, b₁⟩, hstr, hmade⟩ := Option.bind_eq_some_iff.1 h
    obtain ⟨rfl, rfl⟩ := Prod.mk.inj (Option.some.inj hmade)
    rw [str_frame hstr]

theorem gives_type (raw : List Char) : Gives strict (type raw) (·.HasType · (toDescriptor raw)) := by
  intro b n b' hb h
  simp only [type] at h
  cases hlookup : b.types.map.lookup (toDescriptor raw) with
  | some m =>
    rw [hlookup] at h
    obtain ⟨rfl, rfl⟩ := Prod.mk.inj (Option.some.inj h)
    exact ⟨hb, .refl _, hb.types.tells _ _ hlookup⟩
  | none =>
    rw [hlookup] at h
    obtain ⟨⟨s, b₁⟩, hstr, hmade⟩ := Option.bind_eq_some_iff.1 h
    obtain ⟨rfl, rfl⟩ := Prod.mk.inj (Option.some.inj hmade)
    obtain ⟨hb₁, hle₁, hs⟩ := gives_str _ b s b₁ hb hstr
    rw [show b.types = b₁.types by rw [str_frame hstr]] at hlookup
    have hle : b₁.Le { b₁ with types := b₁.types.push (toDescriptor raw) s } :=
      { Builder.Le.refl b₁ with types := List.prefix_append _ _ }
    obtain ⟨htypes, hprotos, hfields, hmethods⟩ := hb₁.later hle
    refine ⟨⟨hb₁.strings, htypes.push hlookup (hs.mono hle), hprotos, hfields, hmethods⟩, hle₁.trans hle, s, ?_, hs.mono hle⟩
    simp [Table.push]

theorem typeEach_frame {raws : List (List Char)} {ns : List Nat} (h : typeEach raws b = some (ns, b')) :
    b' = { b with strings := b'.strings, types := b'.types } := by
  induction raws generalizing b ns with
  | nil =>
    obtain ⟨rfl, rfl⟩ := Prod.mk.inj (Option.some.inj h)
    rfl
  | cons raw raws ih =>
    obtain ⟨⟨m, b₁⟩, htype, h⟩ := Option.bind_eq_some_iff.1 h
    obtain ⟨⟨ms, b₂⟩, hrest, hmade⟩ := Option.bind_eq_some_iff.1 h
    obtain ⟨rfl, rfl⟩ := Prod.mk.inj (Option.some.inj hmade)
    rw [ih hrest, type_frame htype]

theorem gives_typeEach (raws : List (List Char)) :
    Gives strict (typeEach raws) (fun b ns => List.Forall₂ b.HasType ns (raws.map toDescriptor)) := by
  induction raws with
  | nil =>
    intro b ns b' hb h
    obtain ⟨rfl, rfl⟩ := Prod.mk.inj (Option.some.inj h)
    exact ⟨hb, .refl _, .nil⟩
  | cons raw raws ih =>
    intro b ns b' hb h
    obtain ⟨⟨m, b₁⟩, htype, h⟩ := Option.bind_eq_some_iff.1 h
    obtain ⟨⟨ms, b₂⟩, hrest, hmade⟩ := Option.bind_eq_some_iff.1 h
    obtain ⟨rfl, rfl⟩ := Prod.mk.inj (Option.some.inj hmade)
    obtain ⟨hb₁, hle₁, hm⟩ := gives_type raw b m b₁ hb htype
    obtain ⟨hb₂, hle₂, hms⟩ := ih b₁ ms b₂ hb₁ hrest
    exact ⟨hb₂, hle₁.trans hle₂, .cons (hm.mono hle₂) hms⟩

theorem gives_proto (signature : List Char) : Gives strict (proto signature) (·.HasProto · signature) := by
  intro b n b' hb h
  rw [proto] at h
  cases hlookup : b.protos.map.lookup signature with
  | some m =>
    rw [hlookup] at h
    obtain ⟨rfl, rfl⟩ := Prod.mk.inj (Option.some.inj h)
    obtain ⟨row, hrow, sig, shorty, htells⟩ := hb.protos.tells _ _ hlookup
    exact ⟨hb, .refl _, row, sig, shorty, hrow, htells⟩
  | none =>
    rw [hlookup] at h
    obtain ⟨sig, hparsed, h⟩ := Option.bind_eq_some_iff.1 h
    obtain ⟨⟨r, b₁⟩, hret, h⟩ := Option.bind_eq_some_iff.1 h
    obtain ⟨⟨ps, b₂⟩, hparams, h⟩ := Option.bind_eq_some_iff.1 h
    obtain ⟨shorty, hshorty, h⟩ := Option.bind_eq_some_iff.1 h
    obtain ⟨⟨s, b₃⟩, hstr, hmade⟩ := Option.bind_eq_some_iff.1 h
    obtain ⟨rfl, rfl⟩ := Prod.mk.inj (Option.some.inj hmade)
    obtain ⟨hb₁, hle₁, hr⟩ := gives_type _ b r b₁ hb hret
    obtain ⟨hb₂, hle₂, hps⟩ := gives_typeEach _ b₁ ps b₂ hb₁ hparams
    obtain ⟨hb₃, hle₃, hs⟩ := gives_str _ b₂ s b₃ hb₂ hstr
    obtain ⟨hreadp, hreadr, -⟩ := parseSignature_eq_some_iff.1 hparsed
    rw [toDescriptor_of_readable hreadr] at hr
    rw [List.map_congr_left fun t ht => toDescriptor_of_readable (hreadp t ht), List.map_id'] at hps
    rw [show b.protos = b₃.protos by rw [str_frame hstr, typeEach_frame hparams, type_frame hret]] at hlookup
    have htells : b₃.TellsProto signature ⟨s, r, ps⟩ sig shorty :=
      ⟨hparsed, hshorty, hs, hr.mono (hle₂.trans hle₃), hps.imp fun _ _ ht => ht.mono hle₃⟩
    have hle : b₃.Le { b₃ with protos := b₃.protos.push signature ⟨s, r, ps⟩ } :=
      { Builder.Le.refl b₃ with protos := List.prefix_append _ _ }
    obtain ⟨htypes, hprotos, hfields, hmethods⟩ := hb₃.later hle
    refine ⟨⟨hb₃.strings, htypes, hprotos.push hlookup ⟨sig, shorty, htells.mono hle⟩, hfields, hmethods⟩,
      ((hle₁.trans hle₂).trans hle₃).trans hle, ⟨s, r, ps⟩, sig, shorty, ?_, htells.mono hle⟩
    simp [Table.push]

theorem methodDecl_key {parent p : Nat} {parentText name signature : List Char} (hparent : b.HasType parent parentText)
    (hproto : b.HasProto p signature) :
    b.descriptor parent ++ utf8 ['-', '>'] ++ utf8 name ++ b.signature p = methodKey parentText name signature := by
  rw [hparent.descriptor, hproto.signature, methodKey]

theorem fieldDecl_key {parent t : Nat} {parentText name typeText : List Char} (hparent : b.HasType parent parentText)
    (htype : b.HasType t typeText) :
    b.descriptor parent ++ utf8 ['-', '>'] ++ utf8 name ++ utf8 [':'] ++ b.descriptor t =
      fieldKey parentText name typeText := by
  rw [hparent.descriptor, htype.descriptor, fieldKey]

/-! ## Keys that can be taken apart -/

theorem append_cons_split {x : UInt8} {l l' r r' : List UInt8} (hl : x ∉ l) (hl' : x ∉ l')
    (h : l ++ x :: r = l' ++ x :: r') : l = l' ∧ r = r' := by
  obtain rfl := Lib.append_cons_inj (Lib.forall_ne_of_notMem hl) (Lib.forall_ne_of_notMem hl')
    (decide_eq_false (not_not.2 rfl)) (decide_eq_false (not_not.2 rfl)) h
  exact ⟨rfl, (List.cons.inj (List.append_cancel_left h)).2⟩

theorem parent_inj {parent parent' : List Char} {rest rest' : List UInt8} (h : '>' ∉ parent) (h' : '>' ∉ parent')
    (heq : mutf8 parent ++ utf8 ['-', '>'] ++ rest = mutf8 parent' ++ utf8 ['-', '>'] ++ rest') :
    parent = parent' ∧ rest = rest' := by
  have hnot : ∀ {p : List Char}, '>' ∉ p → UInt8.ofNat ('>').toNat ∉ mutf8 p ++ utf8 ['-'] := by
    intro p hp hmem
    rcases List.mem_append.1 hmem with hmem | hmem
    · exact hp (mem_of_mem_mutf8 (by decide) hmem)
    · exact absurd hmem (by decide)
  have hsplit : ∀ (p : List Char) (r : List UInt8),
      mutf8 p ++ utf8 ['-', '>'] ++ r = (mutf8 p ++ utf8 ['-']) ++ UInt8.ofNat ('>').toNat :: r := by
    intro p r
    rw [show utf8 ['-', '>'] = utf8 ['-'] ++ [UInt8.ofNat ('>').toNat] from rfl]
    simp
  rw [hsplit, hsplit] at heq
  obtain ⟨hparent, hrest⟩ := append_cons_split (hnot h) (hnot h') heq
  exact ⟨mutf8_inj (List.append_cancel_right hparent), hrest⟩

theorem name_inj {stop : Char} {name name' : List Char} {rest rest' : List UInt8} (hstop : stop.toNat < 0x80)
    (h : stop ∉ name) (h' : stop ∉ name')
    (heq : utf8 name ++ UInt8.ofNat stop.toNat :: rest = utf8 name' ++ UInt8.ofNat stop.toNat :: rest') :
    name = name' ∧ rest = rest' := by
  obtain ⟨hname, hrest⟩ := append_cons_split (fun hmem => h (mem_of_mem_utf8 hstop hmem))
    (fun hmem => h' (mem_of_mem_utf8 hstop hmem)) heq
  exact ⟨utf8_inj hname, hrest⟩

theorem fieldKey_inj {parent parent' name name' type type' : List Char} (h : Plain ':' parent name)
    (h' : Plain ':' parent' name') (heq : fieldKey parent name type = fieldKey parent' name' type') :
    parent = parent' ∧ name = name' ∧ type = type' := by
  have hparts : mutf8 parent ++ utf8 ['-', '>'] ++ (utf8 name ++ UInt8.ofNat (':').toNat :: mutf8 type) =
      mutf8 parent' ++ utf8 ['-', '>'] ++ (utf8 name' ++ UInt8.ofNat (':').toNat :: mutf8 type') := by
    simp only [fieldKey, List.append_assoc] at heq ⊢
    exact heq
  obtain ⟨hparent, hrest⟩ := parent_inj h.1 h'.1 hparts
  obtain ⟨hname, htype⟩ := name_inj (by decide) h.2 h'.2 hrest
  exact ⟨hparent, hname, mutf8_inj htype⟩

theorem mutf8_signature {signature : List Char} {sig : Signature} (h : parseSignature signature = some sig) :
    mutf8 signature = UInt8.ofNat ('(').toNat :: mutf8 (sig.params.flatten ++ ')' :: sig.ret) := by
  rw [(words_of_parseSignature h).2, describe, ← List.singleton_append, mutf8_append]
  rfl

theorem methodKey_inj {parent parent' name name' signature signature' : List Char} {sig sig' : Signature}
    (h : Plain '(' parent name) (h' : Plain '(' parent' name') (hsig : parseSignature signature = some sig)
    (hsig' : parseSignature signature' = some sig')
    (heq : methodKey parent name signature = methodKey parent' name' signature') :
    parent = parent' ∧ name = name' ∧ signature = signature' := by
  rw [methodKey, methodKey, List.append_assoc, List.append_assoc (mutf8 parent' ++ _)] at heq
  obtain ⟨hparent, hrest⟩ := parent_inj h.1 h'.1 heq
  rw [mutf8_signature hsig, mutf8_signature hsig'] at hrest
  obtain ⟨hname, htail⟩ := name_inj (by decide) h.2 h'.2 hrest
  refine ⟨hparent, hname, mutf8_inj ?_⟩
  rw [mutf8_signature hsig, mutf8_signature hsig', htail]

/-! ## Fields and methods -/

/-- The node of a field that was asked for by these names. -/
def Builder.HasField (b : Builder) (f : Nat) (parent name type : List Char) : Prop :=
  ∃ row, b.fieldDecls.rows[f]? = some row ∧ b.TellsField row parent name type

def Builder.HasMethod (b : Builder) (m : Nat) (parent name signature : List Char) : Prop :=
  ∃ row, b.methodDecls.rows[m]? = some row ∧ b.TellsMethod row parent name signature

/-- A key leads to the node of its field, if it can be taken apart. -/
theorem gives_fieldDecl {parent t : Nat} {parentText name typeText : List Char} (hplain : strict → Plain ':' parentText name)
    (hb : b.Sound strict) (hparent : b.HasType parent parentText) (htype : b.HasType t typeText)
    (h : fieldDecl parent name t b = some (n, b')) :
    b'.Sound strict ∧ b.Le b' ∧ (strict → b'.HasField n parentText name typeText) := by
  simp only [fieldDecl, fieldDecl_key hparent htype] at h
  cases hlookup : b.fieldDecls.map.lookup (fieldKey parentText name typeText) with
  | some m =>
    rw [hlookup] at h
    obtain ⟨rfl, rfl⟩ := Prod.mk.inj (Option.some.inj h)
    obtain ⟨row, hrow, parent', name', type', htells, hkey, hplain'⟩ := hb.fieldDecls.tells _ _ hlookup
    refine ⟨hb, .refl _, fun hstrict => ⟨row, hrow, ?_⟩⟩
    obtain ⟨rfl, rfl, rfl⟩ := fieldKey_inj (hplain hstrict) (hplain' hstrict) hkey
    exact htells
  | none =>
    rw [hlookup] at h
    obtain ⟨⟨s, b₁⟩, hstr, hmade⟩ := Option.bind_eq_some_iff.1 h
    obtain ⟨rfl, rfl⟩ := Prod.mk.inj (Option.some.inj hmade)
    obtain ⟨hb₁, hle₁, hs⟩ := gives_str _ b s b₁ hb hstr
    rw [show b.fieldDecls = b₁.fieldDecls by rw [str_frame hstr]] at hlookup
    have htells : b₁.TellsField ⟨parent, s, t⟩ parentText name typeText := ⟨hparent.mono hle₁, hs, htype.mono hle₁⟩
    have hle : b₁.Le { b₁ with fieldDecls := b₁.fieldDecls.push (fieldKey parentText name typeText) ⟨parent, s, t⟩ } :=
      { Builder.Le.refl b₁ with fieldDecls := List.prefix_append _ _ }
    obtain ⟨htypes, hprotos, hfields, hmethods⟩ := hb₁.later hle
    refine ⟨⟨hb₁.strings, htypes, hprotos, hfields.push hlookup ⟨_, _, _, htells.mono hle, rfl, hplain⟩, hmethods⟩,
      hle₁.trans hle, fun _ => ⟨⟨parent, s, t⟩, ?_, htells.mono hle⟩⟩
    simp [Table.push]

theorem gives_methodDecl {parent p : Nat} {parentText name signature : List Char}
    (hplain : strict → Plain '(' parentText name) (hb : b.Sound strict) (hparent : b.HasType parent parentText)
    (hproto : b.HasProto p signature) (h : methodDecl parent name p b = some (n, b')) :
    b'.Sound strict ∧ b.Le b' ∧ (strict → b'.HasMethod n parentText name signature) := by
  simp only [methodDecl, methodDecl_key hparent hproto] at h
  cases hlookup : b.methodDecls.map.lookup (methodKey parentText name signature) with
  | some m =>
    rw [hlookup] at h
    obtain ⟨rfl, rfl⟩ := Prod.mk.inj (Option.some.inj h)
    obtain ⟨row, hrow, parent', name', signature', htells, hkey, hplain'⟩ := hb.methodDecls.tells _ _ hlookup
    refine ⟨hb, .refl _, fun hstrict => ⟨row, hrow, ?_⟩⟩
    obtain ⟨_, sig, _, _, hsig⟩ := hproto
    obtain ⟨_, sig', _, _, hsig'⟩ := htells.prototype
    obtain ⟨rfl, rfl, rfl⟩ := methodKey_inj (hplain hstrict) (hplain' hstrict) hsig.parsed hsig'.parsed hkey
    exact htells
  | none =>
    rw [hlookup] at h
    obtain ⟨⟨s, b₁⟩, hstr, hmade⟩ := Option.bind_eq_some_iff.1 h
    obtain ⟨rfl, rfl⟩ := Prod.mk.inj (Option.some.inj hmade)
    obtain ⟨hb₁, hle₁, hs⟩ := gives_str _ b s b₁ hb hstr
    rw [show b.methodDecls = b₁.methodDecls by rw [str_frame hstr]] at hlookup
    have htells : b₁.TellsMethod ⟨parent, s, p⟩ parentText name signature :=
      ⟨hparent.mono hle₁, hs, hproto.mono hle₁⟩
    have hle : b₁.Le { b₁ with methodDecls := b₁.methodDecls.push (methodKey parentText name signature) ⟨parent, s, p⟩ } :=
      { Builder.Le.refl b₁ with methodDecls := List.prefix_append _ _ }
    obtain ⟨htypes, hprotos, hfields, hmethods⟩ := hb₁.later hle
    refine ⟨⟨hb₁.strings, htypes, hprotos, hfields, hmethods.push hlookup ⟨_, _, _, htells.mono hle, rfl, hplain⟩⟩,
      hle₁.trans hle, fun _ => ⟨⟨parent, s, p⟩, ?_, htells.mono hle⟩⟩
    simp [Table.push]

/-! ## Whole runs -/

/-- The names of the request are plain ones. -/
def Request.Plain : Request → Prop
  | .field parent name _ => Nodes.Plain ':' (toDescriptor parent) name
  | .method parent name _ => Nodes.Plain '(' (toDescriptor parent) name
  | _ => True

/-- What the node of a request tells. -/
def Request.Has (b : Builder) (n : Nat) : Request → Prop
  | .string value => b.HasString n value
  | .type raw => b.HasType n (toDescriptor raw)
  | .proto signature => b.HasProto n signature
  | .field parent name fieldType => b.HasField n (toDescriptor parent) name (toDescriptor fieldType)
  | .method parent name signature => b.HasMethod n (toDescriptor parent) name signature

theorem Request.Has.mono (hle : b.Le b') {r : Request} (h : r.Has b n) : r.Has b' n := by
  cases r with
  | string value => exact Builder.HasString.mono hle h
  | type raw => exact Builder.HasType.mono hle h
  | proto signature => exact Builder.HasProto.mono hle h
  | field parent name fieldType =>
    obtain ⟨row, hrow, htells⟩ := h
    exact ⟨row, Builder.getElem?_mono hle.fieldDecls hrow, htells.mono hle⟩
  | method parent name signature =>
    obtain ⟨row, hrow, htells⟩ := h
    exact ⟨row, Builder.getElem?_mono hle.methodDecls hrow, htells.mono hle⟩

theorem gives_ask {r : Request} (hplain : strict → r.Plain) : Gives strict r.ask (fun b n => strict → r.Has b n) := by
  intro b n b' hb h
  cases r with
  | string value =>
    obtain ⟨hb', hle, hhas⟩ := gives_str value b n b' hb h
    exact ⟨hb', hle, fun _ => hhas⟩
  | type raw =>
    obtain ⟨hb', hle, hhas⟩ := gives_type raw b n b' hb h
    exact ⟨hb', hle, fun _ => hhas⟩
  | proto signature =>
    obtain ⟨hb', hle, hhas⟩ := gives_proto signature b n b' hb h
    exact ⟨hb', hle, fun _ => hhas⟩
  | field parent name fieldType =>
    obtain ⟨⟨p, b₁⟩, hparent, h⟩ := Option.bind_eq_some_iff.1 h
    obtain ⟨⟨t, b₂⟩, htype, h⟩ := Option.bind_eq_some_iff.1 h
    obtain ⟨hb₁, hle₁, hp⟩ := gives_type parent b p b₁ hb hparent
    obtain ⟨hb₂, hle₂, ht⟩ := gives_type fieldType b₁ t b₂ hb₁ htype
    obtain ⟨hb', hle, hhas⟩ := gives_fieldDecl hplain hb₂ (hp.mono hle₂) ht h
    exact ⟨hb', (hle₁.trans hle₂).trans hle, hhas⟩
  | method parent name signature =>
    obtain ⟨⟨p, b₁⟩, hparent, h⟩ := Option.bind_eq_some_iff.1 h
    obtain ⟨⟨q, b₂⟩, hproto, h⟩ := Option.bind_eq_some_iff.1 h
    obtain ⟨hb₁, hle₁, hp⟩ := gives_type parent b p b₁ hb hparent
    obtain ⟨hb₂, hle₂, hq⟩ := gives_proto signature b₁ q b₂ hb₁ hproto
    obtain ⟨hb', hle, hhas⟩ := gives_methodDecl hplain hb₂ (hp.mono hle₂) hq h
    exact ⟨hb', (hle₁.trans hle₂).trans hle, hhas⟩

theorem gives_askAll {rs : List Request} (hplain : strict → ∀ r ∈ rs, r.Plain) :
    Gives strict (askAll rs) (fun b ns => strict → List.Forall₂ (fun r n => r.Has b n) rs ns) := by
  induction rs with
  | nil =>
    intro b ns b' hb h
    obtain ⟨rfl, rfl⟩ := Prod.mk.inj (Option.some.inj h)
    exact ⟨hb, .refl _, fun _ => .nil⟩
  | cons r rs ih =>
    intro b ns b' hb h
    obtain ⟨⟨m, b₁⟩, hr, h⟩ := Option.bind_eq_some_iff.1 h
    obtain ⟨⟨ms, b₂⟩, hrs, hmade⟩ := Option.bind_eq_some_iff.1 h
    obtain ⟨rfl, rfl⟩ := Prod.mk.inj (Option.some.inj hmade)
    obtain ⟨hb₁, hle₁, hm⟩ := gives_ask (fun hs => hplain hs r List.mem_cons_self) b m b₁ hb hr
    obtain ⟨hb₂, hle₂, hms⟩ := ih (fun hs q hq => hplain hs q (List.mem_cons_of_mem r hq)) b₁ ms b₂ hb₁ hrs
    exact ⟨hb₂, hle₁.trans hle₂, fun hs => .cons ((hm hs).mono hle₂) (hms hs)⟩

end ArtPi.Dex.Nodes
