import ArtPi.Lib.Segments
import ArtPi.Lib.ModifiedUtf8

set_option autoImplicit false

/-! # The symbol of a native method (`src/native/pi_native.cpp`)

`resolveNativeMethod` takes the names of a class and a method out of the text of the method, which is in modified
UTF-8, and makes the name of the symbol that a library exports for it. The rules of JNI are about the UTF-16 units of
the names instead. -/

namespace ArtPi.Jni.Symbol

open Lib Lib.ModifiedUtf8

def slash : UInt8 := 0x2f

def dot : UInt8 := 0x2e

def space : UInt8 := 0x20

def paren : UInt8 := 0x28

def underscore : UInt8 := 0x5f

def semicolon : UInt8 := 0x3b

def bracket : UInt8 := 0x5b

/-- `"Java_"` -/
def java : List UInt8 := [0x4a, 0x61, 0x76, 0x61, 0x5f]

/-! ## The source -/

def mangleByte (c : UInt8) : List UInt8 :=
  if c = slash ∨ c = dot then [underscore]
  else if c = underscore then [underscore, 0x31]
  else if c = semicolon then [underscore, 0x32]
  else if c = bracket then [underscore, 0x33]
  else [c]

def jniMangle (str : List UInt8) : List UInt8 := str.flatMap mangleByte

/-- `class_name` and `method_name`; what is not found stays empty. -/
def splitSignature (fullSig : List UInt8) : List UInt8 × List UInt8 :=
  if paren ∈ fullSig then
    match splitLast dot (fullSig.takeWhile (· ≠ paren)) with
    | none => ([], [])
    | some (front, methodName) => (((splitLast space front).map Prod.snd).getD [], methodName)
  else ([], [])

def shortSym (fullSig : List UInt8) : Option (List UInt8) :=
  let names := splitSignature fullSig
  if names.1 = [] ∨ names.2 = [] then none
  else some (java ++ jniMangle names.1 ++ underscore :: jniMangle names.2)

/-! ## The rules -/

/-- An ASCII letter or digit. -/
def IsAlnum (n : Nat) : Prop := 0x30 ≤ n ∧ n ≤ 0x39 ∨ 0x41 ≤ n ∧ n ≤ 0x5a ∨ 0x61 ≤ n ∧ n ≤ 0x7a

instance (n : Nat) : Decidable (IsAlnum n) := instDecidableOr

/-- Of the ASCII characters, these are in Java identifiers; of the others some are. -/
def IsPart (u : UInt16) : Prop := IsAlnum u.toNat ∨ u = 0x24 ∨ u = 0x5f ∨ 0x80 ≤ u.toNat

instance (u : UInt16) : Decidable (IsPart u) := instDecidableOr

def startsWithDigit : List UInt16 → Bool
  | [] => false
  | u :: _ => 0x30 ≤ u.toNat && u.toNat ≤ 0x39

/-- An identifier does not begin with a digit. -/
structure IsName (name : List UInt16) : Prop where
  nonempty : name ≠ []
  parts : ∀ u ∈ name, IsPart u
  start : startsWithDigit name = false

instance (name : List UInt16) : Decidable (IsName name) :=
  have := List.decidableBAll IsPart name
  decidable_of_iff (name ≠ [] ∧ (∀ u ∈ name, IsPart u) ∧ startsWithDigit name = false)
    ⟨fun h => ⟨h.1, h.2.1, h.2.2⟩, fun h => ⟨h.nonempty, h.parts, h.start⟩⟩

/-- The names that the packages and the class have, and that of the method. -/
structure MethodName where
  className : List (List UInt16)
  methodName : List UInt16
  deriving DecidableEq

structure MethodName.Legal (n : MethodName) : Prop where
  nonempty : n.className ≠ []
  segments : ∀ name ∈ n.className, IsName name
  method : IsName n.methodName

instance (n : MethodName) : Decidable n.Legal :=
  have := List.decidableBAll IsName n.className
  decidable_of_iff (n.className ≠ [] ∧ (∀ name ∈ n.className, IsName name) ∧ IsName n.methodName)
    ⟨fun h => ⟨h.1, h.2.1, h.2.2⟩, fun h => ⟨h.nonempty, h.segments, h.method⟩⟩

/-- `PrettyMethod`, with the texts of the return type and of the rest behind the parenthesis. -/
def prettyMethod (n : MethodName) (ret params : List UInt8) : List UInt8 :=
  ret ++ space :: (joinWith dot (n.className.map encode) ++ dot :: (encode n.methodName ++ paren :: params))

def hexDigit (n : Nat) : UInt8 := UInt8.ofNat (if n < 10 then 0x30 + n else 0x57 + n)

def escapeUnit (u : UInt16) : List UInt8 :=
  if IsAlnum u.toNat then [UInt8.ofNat u.toNat]
  else if u = 0x5f then [underscore, 0x31]
  else [underscore, 0x30, hexDigit (u.toNat / 4096), hexDigit (u.toNat / 256 % 16), hexDigit (u.toNat / 16 % 16),
    hexDigit (u.toNat % 16)]

/-- The symbol that JNI prescribes. -/
def jniSymbol (n : MethodName) : List UInt8 :=
  java ++ joinWith underscore (n.className.map (List.flatMap escapeUnit)) ++
    underscore :: n.methodName.flatMap escapeUnit

/-- The symbol is the prescribed one, and no other method name has it, whatever the types in the texts are. -/
structure Correct (n : MethodName) : Prop where
  spec : ∀ ret params, paren ∉ ret → shortSym (prettyMethod n ret params) = some (jniSymbol n)
  unique : ∀ n' : MethodName, n'.Legal → n' ≠ n → ∀ ret params ret' params', paren ∉ ret → paren ∉ ret' →
    shortSym (prettyMethod n' ret' params') ≠ shortSym (prettyMethod n ret params)

/-- An ASCII letter, a digit or `_`. -/
def IsPlain (u : UInt16) : Prop := IsAlnum u.toNat ∨ u = 0x5f

instance (u : UInt16) : Decidable (IsPlain u) := instDecidableOr

def MethodName.Plain (n : MethodName) : Prop :=
  (∀ name ∈ n.className, ∀ u ∈ name, IsPlain u) ∧ ∀ u ∈ n.methodName, IsPlain u

instance (n : MethodName) : Decidable n.Plain :=
  have : ∀ name : List UInt16, Decidable (∀ u ∈ name, IsPlain u) := List.decidableBAll IsPlain
  have := List.decidableBAll (fun name : List UInt16 => ∀ u ∈ name, IsPlain u) n.className
  instDecidableAnd

/-! ## The bytes of a name -/

theorem mem_encodeUnit {u : UInt16} {b : UInt8} (hu : u ≠ 0) (hb : b ∈ encodeUnit u) :
    b.toNat = u.toNat ∨ 0x80 ≤ b.toNat := by
  have hpos : 0 < u.toNat := by
    rw [Nat.pos_iff_ne_zero]
    exact fun h => hu (UInt16.toNat_inj.mp h)
  have hlt := u.toNat_lt
  have hof : ∀ n < 256, (UInt8.ofNat n).toNat = n := fun n hn => UInt8.toNat_ofNat_of_lt' hn
  unfold encodeUnit at hb
  dsimp only at hb
  split at hb
  · rw [List.mem_singleton.mp hb, hof _ (by omega)]
    exact .inl rfl
  · right
    split at hb
    · simp only [List.mem_cons, List.not_mem_nil, or_false] at hb
      rcases hb with rfl | rfl <;> rw [hof _ (by omega)] <;> omega
    · simp only [List.mem_cons, List.not_mem_nil, or_false] at hb
      rcases hb with rfl | rfl | rfl <;> rw [hof _ (by omega)] <;> omega

/-- The characters that `JniMangle` and the search for the names look at are in no identifier. -/
theorem IsPart.bytes {u : UInt16} (h : IsPart u) {b : UInt8} (hb : b ∈ encodeUnit u) :
    b.toNat = u.toNat ∧ (IsAlnum u.toNat ∨ u = 0x24 ∨ u = 0x5f) ∨ 0x80 ≤ b.toNat := by
  have hu : u ≠ 0 := by
    rintro rfl
    exact absurd h (by decide)
  rcases mem_encodeUnit hu hb with heq | hlarge
  · by_cases hlarge : 0x80 ≤ u.toNat
    · exact .inr (by omega)
    · refine .inl ⟨heq, ?_⟩
      rcases h with h | h | h | h
      · exact .inl h
      · exact .inr (.inl h)
      · exact .inr (.inr h)
      · exact absurd h hlarge
  · exact .inr hlarge

theorem IsPart.ne_of_byte {u : UInt16} (h : IsPart u) {b : UInt8} (hb : b ∈ encodeUnit u) :
    b ≠ slash ∧ b ≠ dot ∧ b ≠ space ∧ b ≠ paren ∧ b ≠ semicolon ∧ b ≠ bracket := by
  have hval : b.toNat ≠ 0x2f ∧ b.toNat ≠ 0x2e ∧ b.toNat ≠ 0x20 ∧ b.toNat ≠ 0x28 ∧ b.toNat ≠ 0x3b ∧
      b.toNat ≠ 0x5b := by
    rcases h.bytes hb with ⟨heq, halnum | rfl | rfl⟩ | hlarge
    · unfold IsAlnum at halnum
      omega
    · rw [heq]
      decide
    · rw [heq]
      decide
    · omega
  refine ⟨?_, ?_, ?_, ?_, ?_, ?_⟩ <;> (rintro rfl; revert hval; decide)

theorem encodeUnit_ascii {u : UInt16} (hpos : 0 < u.toNat) (hlt : u.toNat < 0x80) :
    encodeUnit u = [UInt8.ofNat u.toNat] := by
  unfold encodeUnit
  exact if_pos ⟨hpos, hlt⟩

/-! ## The names in the text -/

/-- The bytes of a name in the text. -/
structure Ordinary (text : List UInt8) : Prop where
  nonempty : text ≠ []
  bytes : ∀ b ∈ text, b ≠ slash ∧ b ≠ dot ∧ b ≠ space ∧ b ≠ paren ∧ b ≠ semicolon ∧ b ≠ bracket
  start : ∀ b ∈ text.head?, b ≠ 0x31

theorem encodeUnit_ne_nil (u : UInt16) : encodeUnit u ≠ [] := by
  unfold encodeUnit
  dsimp only
  split
  · simp
  · split <;> simp

theorem IsName.ordinary {name : List UInt16} (h : IsName name) : Ordinary (encode name) := by
  obtain ⟨u, us, rfl⟩ := List.exists_cons_of_ne_nil h.nonempty
  obtain ⟨b, bs, hb⟩ := List.exists_cons_of_ne_nil (encodeUnit_ne_nil u)
  have hencode : encode (u :: us) = b :: (bs ++ encode us) := by
    unfold encode
    rw [List.flatMap_cons, hb, List.cons_append]
  refine ⟨by rw [hencode]; simp, ?_, ?_⟩
  · intro c hc
    obtain ⟨v, hv, hc⟩ := List.mem_flatMap.mp hc
    exact (h.parts v hv).ne_of_byte hc
  · intro c hc
    rw [hencode] at hc
    obtain rfl := Option.some.inj hc
    have hstart : (decide (0x30 ≤ u.toNat) && decide (u.toNat ≤ 0x39)) = false := h.start
    rintro rfl
    rcases (h.parts u List.mem_cons_self).bytes (hb ▸ List.mem_cons_self) with ⟨heq, _⟩ | hlarge
    · rw [← heq] at hstart
      exact absurd hstart (by decide)
    · exact absurd hlarge (by decide)

theorem MethodName.Legal.ordinary {n : MethodName} (h : n.Legal) :
    ∀ text ∈ n.className.map encode, Ordinary text := by
  intro text htext
  obtain ⟨name, hname, rfl⟩ := List.mem_map.mp htext
  exact (h.segments name hname).ordinary

theorem splitSignature_append {ret c m : List UInt8} (hret : paren ∉ ret) (hspace : space ∉ c) (hc : paren ∉ c)
    (hdot : dot ∉ m) (hm : paren ∉ m) (params : List UInt8) :
    splitSignature (ret ++ space :: (c ++ dot :: (m ++ paren :: params))) = (c, m) := by
  have htext : ret ++ space :: (c ++ dot :: (m ++ paren :: params)) =
      ((ret ++ space :: c) ++ dot :: m) ++ paren :: params := by simp
  have hfront : ∀ b ∈ (ret ++ space :: c) ++ dot :: m, decide (b ≠ paren) = true := by
    intro b hb
    refine decide_eq_true ?_
    rintro rfl
    simp only [List.mem_append, List.mem_cons, hret, hc, hm, or_false, false_or] at hb
    exact absurd hb (by decide)
  unfold splitSignature
  rw [if_pos (by simp), htext, List.takeWhile_append_of_pos hfront, List.takeWhile_cons_of_neg (by simp),
    List.append_nil, splitLast_append dot _ hdot]
  dsimp only
  rw [splitLast_append space ret hspace]
  rfl

/-- The symbol that the code looks for. -/
def codeSymbol (n : MethodName) : List UInt8 :=
  java ++ jniMangle (joinWith dot (n.className.map encode)) ++ underscore :: jniMangle (encode n.methodName)

/-- The names are found, whatever the return type and the parameters are. -/
theorem shortSym_prettyMethod {n : MethodName} (h : n.Legal) {ret : List UInt8} (hret : paren ∉ ret)
    (params : List UInt8) : shortSym (prettyMethod n ret params) = some (codeSymbol n) := by
  have hclass : ∀ b ∈ joinWith dot (n.className.map encode), b ≠ space ∧ b ≠ paren := by
    intro b hb
    rcases mem_joinWith hb with rfl | ⟨text, htext, hb⟩
    · decide
    · have := (h.ordinary text htext).bytes b hb
      exact ⟨this.2.2.1, this.2.2.2.1⟩
  have hmethod := h.method.ordinary
  have hnames : splitSignature (prettyMethod n ret params) =
      (joinWith dot (n.className.map encode), encode n.methodName) :=
    splitSignature_append hret (fun hin => (hclass _ hin).1 rfl) (fun hin => (hclass _ hin).2 rfl)
      (fun hin => (hmethod.bytes _ hin).2.1 rfl) (fun hin => (hmethod.bytes _ hin).2.2.2.1 rfl) params
  have hne : joinWith dot (n.className.map encode) ≠ [] := by
    obtain ⟨name, names, hname⟩ := List.exists_cons_of_ne_nil h.nonempty
    have hin : name ∈ n.className := by
      rw [hname]
      exact List.mem_cons_self
    obtain ⟨b, bs, hb⟩ := List.exists_cons_of_ne_nil (h.segments name hin).ordinary.nonempty
    exact List.ne_nil_of_mem (mem_joinWith_of_mem (List.mem_map_of_mem hin) (hb ▸ List.mem_cons_self))
  unfold shortSym
  rw [hnames]
  exact if_neg (not_or.mpr ⟨hne, hmethod.nonempty⟩)

/-- It is one text of segments, that of the method the last one. -/
theorem codeSymbol_eq {n : MethodName} (h : n.Legal) :
    codeSymbol n =
      java ++ joinWith underscore ((n.className ++ [n.methodName]).map (fun x => jniMangle (encode x))) := by
  have hne : n.className.map (fun x => jniMangle (encode x)) ≠ [] := by simpa using h.nonempty
  unfold codeSymbol
  rw [List.map_append, List.map_singleton, joinWith_concat _ _ _ hne, List.append_assoc]
  have hjoin : jniMangle (joinWith dot (n.className.map encode)) =
      joinWith underscore ((n.className.map encode).map jniMangle) :=
    flatMap_joinWith (f := mangleByte) (by decide) _
  rw [hjoin, List.map_map]
  rfl

/-! ## One symbol for one name -/

/-- What a mangled text was made of: `_1` stands for `_`, and any other `_` for a separator. -/
def unmangle : List UInt8 → List UInt8
  | [] => []
  | [a] => [if a = underscore then dot else a]
  | a :: b :: rest =>
    if a ≠ underscore then a :: unmangle (b :: rest)
    else if b = 0x31 then underscore :: unmangle rest
    else dot :: unmangle (b :: rest)

theorem unmangle_cons {a : UInt8} (h : a ≠ underscore) (rest : List UInt8) :
    unmangle (a :: rest) = a :: unmangle rest := by
  cases rest with
  | nil =>
    unfold unmangle
    rw [if_neg h]
  | cons b rest =>
    rw [unmangle]
    exact if_pos h

theorem unmangle_escape (rest : List UInt8) : unmangle (underscore :: 0x31 :: rest) = underscore :: unmangle rest := by
  rw [unmangle, if_neg (by simp), if_pos rfl]

theorem unmangle_sep {rest : List UInt8} (h : ∀ b ∈ rest.head?, b ≠ 0x31) :
    unmangle (underscore :: rest) = dot :: unmangle rest := by
  cases rest with
  | nil => rfl
  | cons b rest => rw [unmangle, if_neg (by simp), if_neg (h b rfl)]

theorem unmangle_text {text : List UInt8} (h : ∀ b ∈ text, b ≠ slash ∧ b ≠ dot ∧ b ≠ semicolon ∧ b ≠ bracket)
    (rest : List UInt8) : unmangle (jniMangle text ++ rest) = text ++ unmangle rest := by
  induction text with
  | nil => rfl
  | cons b text ih =>
    obtain ⟨hslash, hdot, hsemicolon, hbracket⟩ := h b List.mem_cons_self
    have hrest := ih (fun c hc => h c (List.mem_cons_of_mem b hc))
    have hcons : jniMangle (b :: text) = mangleByte b ++ jniMangle text := List.flatMap_cons
    rw [hcons, List.append_assoc]
    by_cases hb : b = underscore
    · subst hb
      have hbyte : mangleByte underscore = [underscore, 0x31] := by decide
      rw [hbyte, List.cons_append, List.singleton_append, unmangle_escape, hrest, List.cons_append]
    · have hbyte : mangleByte b = [b] := by
        unfold mangleByte
        rw [if_neg (not_or.mpr ⟨hslash, hdot⟩), if_neg hb, if_neg hsemicolon, if_neg hbracket]
      rw [hbyte, List.singleton_append, unmangle_cons hb, hrest, List.cons_append]

/-- A mangled name does not begin with a digit that would belong to the separator. -/
theorem Ordinary.mangled_start {text : List UInt8} (h : Ordinary text) (rest : List UInt8) :
    ∀ b ∈ (jniMangle text ++ rest).head?, b ≠ 0x31 := by
  obtain ⟨a, as, rfl⟩ := List.exists_cons_of_ne_nil h.nonempty
  obtain ⟨hslash, hdot, _, _, hsemicolon, hbracket⟩ := h.bytes a List.mem_cons_self
  have hcons : jniMangle (a :: as) ++ rest = mangleByte a ++ (jniMangle as ++ rest) := by
    unfold jniMangle
    rw [List.flatMap_cons, List.append_assoc]
  rw [hcons]
  by_cases ha : a = underscore
  · subst ha
    intro b hb
    obtain rfl := Option.some.inj hb
    decide
  · have hbyte : mangleByte a = [a] := by
      unfold mangleByte
      rw [if_neg (not_or.mpr ⟨hslash, hdot⟩), if_neg ha, if_neg hsemicolon, if_neg hbracket]
    rw [hbyte]
    intro b hb
    obtain rfl := Option.some.inj hb
    exact h.start a rfl

theorem unmangle_joinWith {texts : List (List UInt8)} (h : ∀ text ∈ texts, Ordinary text) :
    unmangle (joinWith underscore (texts.map jniMangle)) = joinWith dot texts := by
  induction texts with
  | nil => rfl
  | cons x texts ih =>
    have hx := h x List.mem_cons_self
    have hbytes : ∀ b ∈ x, b ≠ slash ∧ b ≠ dot ∧ b ≠ semicolon ∧ b ≠ bracket := by
      intro b hb
      have := hx.bytes b hb
      exact ⟨this.1, this.2.1, this.2.2.2.2.1, this.2.2.2.2.2⟩
    cases texts with
    | nil => simpa [joinWith, unmangle] using unmangle_text hbytes []
    | cons y texts =>
      have hrest := ih (fun text htext => h text (List.mem_cons_of_mem x htext))
      have hstart : ∀ b ∈ (joinWith underscore ((y :: texts).map jniMangle)).head?, b ≠ 0x31 := by
        have hy := h y (List.mem_cons_of_mem x List.mem_cons_self)
        cases texts with
        | nil => simpa [joinWith] using hy.mangled_start []
        | cons z texts => exact hy.mangled_start _
      rw [List.map_cons, joinWith_cons _ _ (by simp), unmangle_text hbytes, unmangle_sep hstart, hrest,
        joinWith_cons dot x (by simp)]

theorem encode_injective {s s' : List UInt16} (h : encode s = encode s') : s = s' := by
  rw [← decode_encode s, h, decode_encode]

theorem codeSymbol_inj {n n' : MethodName} (h : n.Legal) (h' : n'.Legal) (heq : codeSymbol n = codeSymbol n') :
    n = n' := by
  have hordinary : ∀ n : MethodName, n.Legal → ∀ text ∈ (n.className ++ [n.methodName]).map encode, Ordinary text := by
    intro n h text htext
    obtain ⟨name, hname, rfl⟩ := List.mem_map.mp htext
    rcases List.mem_append.mp hname with hname | hname
    · exact (h.segments name hname).ordinary
    · rw [List.mem_singleton.mp hname]
      exact h.method.ordinary
  have hmap : ∀ n : MethodName, (n.className ++ [n.methodName]).map (fun x => jniMangle (encode x)) =
      ((n.className ++ [n.methodName]).map encode).map jniMangle := by
    intro n
    rw [List.map_map]
    rfl
  rw [codeSymbol_eq h, codeSymbol_eq h', List.append_cancel_left_eq, hmap, hmap] at heq
  have htexts := congrArg unmangle heq
  rw [unmangle_joinWith (hordinary n h), unmangle_joinWith (hordinary n' h')] at htexts
  have hsegments := joinWith_inj (fun x hx hin => ((hordinary n h x hx).bytes _ hin).2.1 rfl)
    (fun x hx hin => ((hordinary n' h' x hx).bytes _ hin).2.1 rfl) (by simp) (by simp) htexts
  have hnames := List.map_injective_iff.mpr (fun _ _ => encode_injective) hsegments
  obtain ⟨hclass, hmethod⟩ := List.append_inj' hnames rfl
  obtain ⟨c, m⟩ := n
  obtain ⟨c', m'⟩ := n'
  simp only [List.cons.injEq, and_true] at hclass hmethod
  rw [hclass, hmethod]

/-! ## The prescribed symbol -/

theorem jniMangle_plain {name : List UInt16} (h : ∀ u ∈ name, IsPlain u) :
    jniMangle (encode name) = name.flatMap escapeUnit := by
  unfold jniMangle encode
  rw [List.flatMap_assoc]
  refine List.flatMap_congr (fun u hu => ?_)
  have hplain := h u hu
  by_cases halnum : IsAlnum u.toNat
  · have hval : u.toNat ≠ 0x2f ∧ u.toNat ≠ 0x2e ∧ u.toNat ≠ 0x5f ∧ u.toNat ≠ 0x3b ∧ u.toNat ≠ 0x5b ∧ 0 < u.toNat ∧
        u.toNat < 0x80 := by
      unfold IsAlnum at halnum
      omega
    have hof : (UInt8.ofNat u.toNat).toNat = u.toNat := UInt8.toNat_ofNat_of_lt' (by
      change u.toNat < 256
      omega)
    have hne : ∀ b : UInt8, b.toNat ≠ u.toNat → UInt8.ofNat u.toNat ≠ b := by
      intro b hb heq
      exact hb (by rw [← heq, hof])
    rw [encodeUnit_ascii hval.2.2.2.2.2.1 hval.2.2.2.2.2.2, List.flatMap_singleton]
    unfold mangleByte escapeUnit
    rw [if_neg (not_or.mpr ⟨hne slash hval.1.symm, hne dot hval.2.1.symm⟩), if_neg (hne underscore hval.2.2.1.symm),
      if_neg (hne semicolon hval.2.2.2.1.symm), if_neg (hne bracket hval.2.2.2.2.1.symm), if_pos halnum]
  · obtain rfl := hplain.resolve_left halnum
    decide

theorem codeSymbol_plain {n : MethodName} (h : n.Plain) : codeSymbol n = jniSymbol n := by
  have hclass : jniMangle (joinWith dot (n.className.map encode)) =
      joinWith underscore (n.className.map (List.flatMap escapeUnit)) := by
    have hjoin := flatMap_joinWith (by decide : mangleByte dot = [underscore])
      (n.className.map encode)
    change jniMangle _ = _ at hjoin
    rw [hjoin, List.map_map]
    exact congrArg (joinWith underscore) (List.map_congr_left fun name hname => jniMangle_plain (h.1 name hname))
  unfold codeSymbol jniSymbol
  rw [hclass, jniMangle_plain h.2]

/-- A prescribed symbol is made of ASCII letters, digits and `_`. -/
def IsWord (b : UInt8) : Prop := IsAlnum b.toNat ∨ b = underscore

theorem hexDigit_alnum : ∀ k < 16, IsAlnum (hexDigit k).toNat := by
  decide

theorem escapeUnit_word {u : UInt16} {b : UInt8} (hb : b ∈ escapeUnit u) : IsWord b := by
  unfold escapeUnit at hb
  split at hb
  · rename_i halnum
    rw [List.mem_singleton.mp hb]
    have hof : (UInt8.ofNat u.toNat).toNat = u.toNat := UInt8.toNat_ofNat_of_lt' (by
      unfold IsAlnum at halnum
      change u.toNat < 256
      omega)
    left
    rw [hof]
    exact halnum
  · split at hb
    · simp only [List.mem_cons, List.not_mem_nil, or_false] at hb
      rcases hb with rfl | rfl
      · exact .inr rfl
      · exact .inl (by decide)
    · have hu := u.toNat_lt
      simp only [List.mem_cons, List.not_mem_nil, or_false] at hb
      rcases hb with rfl | rfl | rfl | rfl | rfl | rfl
      · exact .inr rfl
      · exact .inl (by decide)
      · exact .inl (hexDigit_alnum _ (by omega))
      · exact .inl (hexDigit_alnum _ (by omega))
      · exact .inl (hexDigit_alnum _ (by omega))
      · exact .inl (hexDigit_alnum _ (by omega))

theorem jniSymbol_word (n : MethodName) : ∀ b ∈ jniSymbol n, IsWord b := by
  have hname : ∀ (name : List UInt16), ∀ b ∈ name.flatMap escapeUnit, IsWord b := by
    intro name b hb
    obtain ⟨u, _, hb⟩ := List.mem_flatMap.mp hb
    exact escapeUnit_word hb
  have hjava : ∀ b ∈ java, IsWord b := by
    intro b hb
    simp only [java, List.mem_cons, List.not_mem_nil, or_false] at hb
    rcases hb with rfl | rfl | rfl | rfl | rfl
    · exact .inl (by decide)
    · exact .inl (by decide)
    · exact .inl (by decide)
    · exact .inl (by decide)
    · exact .inr rfl
  intro b hb
  unfold jniSymbol at hb
  rw [List.mem_append, List.mem_append, List.mem_cons] at hb
  rcases hb with (hb | hb) | rfl | hb
  · exact hjava b hb
  · rcases mem_joinWith hb with rfl | ⟨text, htext, hb⟩
    · exact .inr rfl
    · obtain ⟨name, _, rfl⟩ := List.mem_map.mp htext
      exact hname name b hb
  · exact .inr rfl
  · exact hname n.methodName b hb

/-- Any other unit leaves a byte behind that no prescribed symbol has. -/
theorem exists_not_word {name : List UInt16} (hname : IsName name) {u : UInt16} (hu : u ∈ name) (hnot : ¬ IsPlain u) :
    ∃ b ∈ jniMangle (encode name), ¬ IsWord b := by
  have hbyte : ∃ b ∈ encodeUnit u, ¬ IsWord b := by
    obtain ⟨b, bs, hb⟩ := List.exists_cons_of_ne_nil (encodeUnit_ne_nil u)
    have hmem : b ∈ encodeUnit u := hb ▸ List.mem_cons_self
    refine ⟨b, hmem, fun hword => ?_⟩
    rcases (hname.parts u hu).bytes hmem with ⟨heq, halnum | rfl | hunder⟩ | hlarge
    · exact hnot (.inl halnum)
    · have hdollar : b = 0x24 := UInt8.toNat_inj.mp heq
      subst hdollar
      exact absurd hword (by unfold IsWord; decide)
    · exact hnot (.inr hunder)
    · rcases hword with halnum | rfl
      · unfold IsAlnum at halnum
        omega
      · exact absurd hlarge (by decide)
  obtain ⟨b, hb, hword⟩ := hbyte
  obtain ⟨hslash, hdot, _, _, hsemicolon, hbracket⟩ := (hname.parts u hu).ne_of_byte hb
  have hsame : mangleByte b = [b] := by
    unfold mangleByte
    rw [if_neg (not_or.mpr ⟨hslash, hdot⟩), if_neg (fun heq => hword (.inr heq)), if_neg hsemicolon,
      if_neg hbracket]
  refine ⟨b, List.mem_flatMap.mpr ⟨b, List.mem_flatMap.mpr ⟨u, hu, hb⟩, ?_⟩, hword⟩
  rw [hsame]
  exact List.mem_singleton_self b

/-- The symbol of a method is right exactly if its names have ASCII letters, digits and `_` only. -/
theorem correct_iff_plain (n : MethodName) (h : n.Legal) : Correct n ↔ n.Plain := by
  constructor
  · intro hcorrect
    have hsymbol : codeSymbol n = jniSymbol n := by
      have hspec := hcorrect.spec [] [] (by simp)
      rw [shortSym_prettyMethod h (by simp)] at hspec
      exact Option.some.inj hspec
    have hword : ∀ b ∈ codeSymbol n, IsWord b := hsymbol ▸ jniSymbol_word n
    have hmem : ∀ name ∈ n.className ++ [n.methodName], ∀ b ∈ jniMangle (encode name), b ∈ codeSymbol n := by
      intro name hname b hb
      rw [codeSymbol_eq h]
      exact List.mem_append_right _ (mem_joinWith_of_mem (List.mem_map_of_mem hname) hb)
    constructor
    · intro name hname u hu
      by_contra hnot
      obtain ⟨b, hb, hbad⟩ := exists_not_word (h.segments name hname) hu hnot
      exact hbad (hword b (hmem name (by simp [hname]) b hb))
    · intro u hu
      by_contra hnot
      obtain ⟨b, hb, hbad⟩ := exists_not_word h.method hu hnot
      exact hbad (hword b (hmem n.methodName (by simp) b hb))
  · intro hplain
    refine ⟨fun ret params hret => ?_, fun n' h' hne ret params ret' params' hret hret' heq => ?_⟩
    · rw [shortSym_prettyMethod h hret, codeSymbol_plain hplain]
    · rw [shortSym_prettyMethod h hret, shortSym_prettyMethod h' hret'] at heq
      exact hne (codeSymbol_inj h' h (Option.some.inj heq))

/-- `com.a_b.C`, `get_1` -/
def plainName : MethodName :=
  ⟨[[0x63, 0x6f, 0x6d], [0x61, 0x5f, 0x62], [0x43]], [0x67, 0x65, 0x74, 0x5f, 0x31]⟩

theorem plainName_correct : Correct plainName :=
  (correct_iff_plain plainName (by decide)).mpr (by decide)

/-- `A$B`, `f`: the symbol should be `Java_A_00024B_f`. -/
def innerName : MethodName := ⟨[[0x41, 0x24, 0x42]], [0x66]⟩

theorem innerName_symbol :
    innerName.Legal ∧ shortSym (prettyMethod innerName [0x56] []) ≠ some (jniSymbol innerName) := by
  decide

end ArtPi.Jni.Symbol
