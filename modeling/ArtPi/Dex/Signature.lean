import ArtPi.Lib.Words

set_option autoImplicit false

/-! # Method signatures (`src/dex/pi_dex_gen.cpp`)

`ParseSignature` cuts a method descriptor into its parameter types and its return type. The string
that is left to read stands for the string and the index into it. What the reader of one type takes
is not what a field type is: it takes `V` like the other primitive types, and it refuses every array
of a primitive type, on account of `"[V"`. -/

namespace ArtPi.Dex

open Lib

def isPrimitiveChar (c : Char) : Bool := c ∈ ['V', 'Z', 'B', 'S', 'C', 'I', 'J', 'F', 'D']

/-- `ReadDescriptor`: the type descriptor that the string begins with, and what is behind it. -/
def readDescriptor (s : List Char) : Option (List Char × List Char) :=
  match s.dropWhile (· = '[') with
  | [] => none
  | c :: p =>
    if isPrimitiveChar c then
      -- "[V" is not a valid type
      if s.takeWhile (· = '[') ≠ [] then none else some ([c], p)
    else if c = 'L' then
      match p.dropWhile (· ≠ ';') with
      | [] => none
      | semi :: rest =>
        if p.takeWhile (· ≠ ';') = [] then none
        else some (s.takeWhile (· = '[') ++ c :: (p.takeWhile (· ≠ ';') ++ [semi]), rest)
    else none

/-! ## What it reads -/

/-- One character, or a class under any number of brackets. -/
inductive Readable : List Char → Prop where
  | primitive {c : Char} : isPrimitiveChar c = true → Readable [c]
  | object (n : Nat) {name : List Char} : name ≠ [] → ';' ∉ name →
      Readable (List.replicate n '[' ++ 'L' :: (name ++ [';']))

theorem isPrimitiveChar_ne {c d : Char} (hc : isPrimitiveChar c = true)
    (hd : isPrimitiveChar d = false) : c ≠ d := by
  rintro rfl
  exact absurd (hc.symm.trans hd) (by simp)

theorem readDescriptor_object (n : Nat) {name : List Char} (hname : name ≠ [])
    (hsemi : ';' ∉ name) (rest : List Char) :
    readDescriptor (List.replicate n '[' ++ 'L' :: (name ++ [';']) ++ rest)
      = some (List.replicate n '[' ++ 'L' :: (name ++ [';']), rest) := by
  have hs : List.replicate n '[' ++ 'L' :: (name ++ [';']) ++ rest
      = List.replicate n '[' ++ 'L' :: (name ++ ';' :: rest) := by
    simp only [List.append_assoc, List.cons_append, List.nil_append]
  have hbrackets : ∀ c ∈ List.replicate n '[', decide (c = '[') = true := by
    intro c hc
    exact decide_eq_true (List.eq_of_mem_replicate hc)
  unfold readDescriptor
  rw [hs, dropWhile_append_cons hbrackets (by decide), takeWhile_append_cons hbrackets (by decide)]
  simp only [show isPrimitiveChar 'L' = false from rfl, Bool.false_eq_true, if_false, if_true]
  rw [dropWhile_ne_append_cons hsemi, takeWhile_ne_append_cons hsemi]
  exact if_neg hname

/-- The reader takes exactly what it reads, whatever is behind it. -/
theorem readDescriptor_eq_some_iff {s t rest : List Char} :
    readDescriptor s = some (t, rest) ↔ Readable t ∧ s = t ++ rest := by
  constructor
  · intro h
    have hbrackets : s.takeWhile (· = '[')
        = List.replicate (s.takeWhile (· = '[')).length '[' :=
      List.eq_replicate_of_mem (fun c hc => by simpa using List.mem_takeWhile_imp hc)
    unfold readDescriptor at h
    split at h
    · exact absurd h (by simp)
    · next c p hdrop =>
        obtain ⟨hs, -⟩ := eq_of_dropWhile_eq_cons hdrop
        split at h
        · next hprim =>
            split_ifs at h with hempty
            obtain ⟨rfl, rfl⟩ := Prod.mk.inj (Option.some.inj h)
            rw [not_not.1 hempty] at hs
            exact ⟨.primitive hprim, hs⟩
        · split at h
          · next hL =>
              split at h
              · exact absurd h (by simp)
              · next semi rest' hrest =>
                  obtain ⟨hp, hsemi⟩ := eq_of_dropWhile_eq_cons hrest
                  have hsemi : semi = ';' := by simpa using hsemi
                  have hnot : ';' ∉ p.takeWhile (· ≠ ';') := fun hmem => by
                    simpa using List.mem_takeWhile_imp hmem
                  split_ifs at h with hname
                  obtain ⟨rfl, rfl⟩ := Prod.mk.inj (Option.some.inj h)
                  constructor
                  · rw [hbrackets, hL, hsemi]
                    exact .object _ hname hnot
                  · rw [List.append_assoc, List.cons_append, List.append_assoc,
                      List.singleton_append, ← hp, ← hs]
          · exact absurd h (by simp)
  · rintro ⟨hread, rfl⟩
    cases hread with
    | @primitive c hc =>
      have hne : c ≠ '[' := isPrimitiveChar_ne hc rfl
      unfold readDescriptor
      simp only [List.singleton_append, List.dropWhile_cons, List.takeWhile_cons, hne,
        decide_false, Bool.false_eq_true, if_false, hc, if_true, ne_eq, not_true_eq_false]
    | object n hname hsemi => exact readDescriptor_object n hname hsemi rest

theorem Readable.ne_nil {t : List Char} (h : Readable t) : t ≠ [] := by
  cases h with
  | primitive => simp
  | object => simp

theorem length_lt_of_readDescriptor {s t rest : List Char}
    (h : readDescriptor s = some (t, rest)) : rest.length < s.length := by
  obtain ⟨hread, rfl⟩ := readDescriptor_eq_some_iff.1 h
  have hpos := List.length_pos_iff.2 hread.ne_nil
  rw [List.length_append]
  omega

/-! ## The parser -/

structure Signature where
  params : List (List Char)
  ret : List Char
  deriving DecidableEq

/-- The loop over the parameters, with the string behind the closing parenthesis. -/
def readParams (s : List Char) : Option (List (List Char) × List Char) :=
  match s with
  | [] => none
  | c :: rest =>
    if c = ')' then some ([], rest)
    else
      match _h : readDescriptor (c :: rest) with
      | none => none
      | some (t, rest') =>
        match readParams rest' with
        | none => none
        | some (params, r) => some (t :: params, r)
termination_by s.length
decreasing_by exact length_lt_of_readDescriptor _h

def parseSignature (sig : List Char) : Option Signature :=
  if sig.length < 3 ∨ sig.head? ≠ some '(' then none
  else
    match readParams sig.tail with
    | none => none
    | some (params, s) =>
      match readDescriptor s with
      | none => none
      | some (ret, rest) => if rest = [] then some ⟨params, ret⟩ else none

theorem readParams_eq_some_iff {s : List Char} {params : List (List Char)} {r : List Char} :
    readParams s = some (params, r) ↔
      (∀ t ∈ params, Readable t) ∧ s = params.flatten ++ ')' :: r := by
  constructor
  · intro h
    induction hn : s.length using Nat.strong_induction_on generalizing s params with
    | _ n ih =>
      unfold readParams at h
      split at h
      · exact absurd h (by simp)
      · next c rest =>
          split_ifs at h with hc
          · obtain ⟨rfl, rfl⟩ := Prod.mk.inj (Option.some.inj h)
            exact ⟨by simp, by simp [hc]⟩
          · split at h
            · exact absurd h (by simp)
            · next t rest' ht =>
                split at h
                · exact absurd h (by simp)
                · next params' r' hparams =>
                    obtain ⟨rfl, rfl⟩ := Prod.mk.inj (Option.some.inj h)
                    obtain ⟨hread, hs⟩ := readDescriptor_eq_some_iff.1 ht
                    have hlt := length_lt_of_readDescriptor ht
                    obtain ⟨hall, hrest⟩ := ih rest'.length (by omega) hparams rfl
                    refine ⟨List.forall_mem_cons.2 ⟨hread, hall⟩, ?_⟩
                    rw [hs, hrest, List.flatten_cons, List.append_assoc]
  · rintro ⟨hall, rfl⟩
    induction params with
    | nil =>
      unfold readParams
      simp
    | cons t params ih =>
      obtain ⟨hread, hall⟩ := List.forall_mem_cons.1 hall
      have ht : readDescriptor ((t :: params).flatten ++ ')' :: r)
          = some (t, params.flatten ++ ')' :: r) :=
        readDescriptor_eq_some_iff.2 ⟨hread, by rw [List.flatten_cons, List.append_assoc]⟩
      unfold readParams
      split
      · next hnil => exact absurd hnil (by simp)
      · next c rest hs =>
          rw [hs] at ht
          rw [if_neg]
          · rw [ht]
            simp only [ih hall]
          · rintro rfl
            exact absurd ht (by simp [readDescriptor, isPrimitiveChar])

theorem parseSignature_eq_some_iff {s : List Char} {sig : Signature} :
    parseSignature s = some sig ↔
      (∀ t ∈ sig.params, Readable t) ∧ Readable sig.ret ∧
        s = '(' :: (sig.params.flatten ++ ')' :: sig.ret) := by
  constructor
  · intro h
    unfold parseSignature at h
    split_ifs at h with hshort
    obtain ⟨-, hhead⟩ := not_or.1 hshort
    obtain ⟨c, cs, rfl⟩ : ∃ c cs, s = c :: cs := by
      cases s with
      | nil => exact absurd hhead (by simp)
      | cons c cs => exact ⟨c, cs, rfl⟩
    obtain rfl : c = '(' := by simpa using hhead
    split at h
    · exact absurd h (by simp)
    · next params s' hparams =>
        split at h
        · exact absurd h (by simp)
        · next ret rest hret =>
            split_ifs at h with hrest
            obtain rfl := Option.some.inj h
            obtain ⟨hall, hs⟩ := readParams_eq_some_iff.1 hparams
            obtain ⟨hread, hs'⟩ := readDescriptor_eq_some_iff.1 hret
            refine ⟨hall, hread, ?_⟩
            rw [List.tail_cons] at hs
            rw [hs, hs', hrest, List.append_nil]
  · rintro ⟨hall, hread, rfl⟩
    have hparams : readParams (sig.params.flatten ++ ')' :: sig.ret) = some (sig.params, sig.ret) :=
      readParams_eq_some_iff.2 ⟨hall, rfl⟩
    have hret : readDescriptor sig.ret = some (sig.ret, []) :=
      readDescriptor_eq_some_iff.2 ⟨hread, (List.append_nil _).symm⟩
    have hpos := List.length_pos_iff.2 hread.ne_nil
    unfold parseSignature
    rw [if_neg, List.tail_cons, hparams]
    · simp only [hret, if_true]
    · simp only [List.length_cons, List.length_append, List.head?_cons]
      simp
      omega

/-! ## Method descriptors -/

/-- The primitive types of a field: all but `V`. -/
def fieldPrimitives : List Char := ['Z', 'B', 'S', 'C', 'I', 'J', 'F', 'D']

inductive FieldType : List Char → Prop where
  | primitive {c : Char} : c ∈ fieldPrimitives → FieldType [c]
  | object {name : List Char} : name ≠ [] → ';' ∉ name → FieldType ('L' :: (name ++ [';']))
  | array {t : List Char} : FieldType t → FieldType ('[' :: t)

/-- A field type, or `V`. -/
def TypeWord (t : List Char) : Prop := t = ['V'] ∨ FieldType t

/-- `'(' params ')' ret`. -/
def describe (sig : Signature) : List Char := '(' :: (sig.params.flatten ++ ')' :: sig.ret)

/-- The parts of a method descriptor: no parameter is `V`. -/
def Signature.Proper (sig : Signature) : Prop :=
  (∀ t ∈ sig.params, FieldType t) ∧ TypeWord sig.ret

def MethodDescriptor (s : List Char) : Prop := ∃ sig : Signature, sig.Proper ∧ s = describe sig

/-- Brackets in front of a primitive type. -/
def PrimitiveArray (t : List Char) : Prop :=
  ∃ n c, c ∈ fieldPrimitives ∧ t = List.replicate (n + 1) '[' ++ [c]

theorem ne_of_mem_fieldPrimitives {c d : Char} (hc : c ∈ fieldPrimitives)
    (hd : d ∉ fieldPrimitives) : c ≠ d :=
  fun h => hd (h ▸ hc)

theorem FieldType.ne_void {t : List Char} (h : FieldType t) : t ≠ ['V'] := by
  rintro rfl
  cases h with
  | primitive hc => exact absurd hc (by decide)

theorem FieldType.of_replicate {t : List Char} (h : FieldType t) (n : Nat) :
    FieldType (List.replicate n '[' ++ t) := by
  induction n with
  | zero => exact h
  | succ n ih => exact .array ih

theorem FieldType.readable_or_primitiveArray {t : List Char} (h : FieldType t) :
    Readable t ∨ PrimitiveArray t := by
  induction h with
  | @primitive c hc =>
    refine Or.inl (.primitive ?_)
    unfold isPrimitiveChar
    exact decide_eq_true (List.mem_cons_of_mem 'V' hc)
  | object hname hsemi => exact Or.inl (.object 0 hname hsemi)
  | @array t ht ih =>
    rcases ih with hread | ⟨n, c, hc, rfl⟩
    · cases hread with
      | @primitive c hc =>
        unfold isPrimitiveChar at hc
        rcases List.mem_cons.1 (of_decide_eq_true hc) with rfl | hc
        · exact absurd rfl ht.ne_void
        · exact Or.inr ⟨0, c, hc, rfl⟩
      | object n hname hsemi => exact Or.inl (.object (n + 1) hname hsemi)
    · exact Or.inr ⟨n + 1, c, hc, rfl⟩

theorem Readable.typeWord {t : List Char} (h : Readable t) : TypeWord t := by
  cases h with
  | @primitive c hc =>
    unfold isPrimitiveChar at hc
    rcases List.mem_cons.1 (of_decide_eq_true hc) with rfl | hc
    · exact Or.inl rfl
    · exact Or.inr (.primitive hc)
  | object n hname hsemi => exact Or.inr ((FieldType.object hname hsemi).of_replicate n)

theorem PrimitiveArray.not_readable {t : List Char} (h : PrimitiveArray t) : ¬ Readable t := by
  obtain ⟨n, c, hc, rfl⟩ := h
  intro hread
  have hread' := readDescriptor_eq_some_iff.2 ⟨hread, (List.append_nil _).symm⟩
  have hbrackets : ∀ d ∈ List.replicate (n + 1) '[', decide (d = '[') = true := by
    intro d hd
    exact decide_eq_true (List.eq_of_mem_replicate hd)
  have hprim : isPrimitiveChar c = true := by
    unfold isPrimitiveChar
    exact decide_eq_true (List.mem_cons_of_mem 'V' hc)
  have hne : decide (c = '[') = false := decide_eq_false (isPrimitiveChar_ne hprim rfl)
  unfold readDescriptor at hread'
  rw [dropWhile_append_cons hbrackets hne, takeWhile_append_cons hbrackets hne] at hread'
  simp only [hprim, if_true] at hread'
  rw [if_pos (by simp)] at hread'
  exact absurd hread' (by simp)

/-- The words that the reader takes are the type words that are no array of a primitive type. -/
theorem readable_iff {t : List Char} : Readable t ↔ TypeWord t ∧ ¬ PrimitiveArray t := by
  constructor
  · exact fun h => ⟨h.typeWord, fun harray => harray.not_readable h⟩
  · rintro ⟨rfl | h, harray⟩
    · exact .primitive rfl
    · exact h.readable_or_primitiveArray.resolve_right harray

/-! ## One way to take a string apart -/

theorem avoids_typeWord : Avoids TypeWord ')' := by
  rintro t (rfl | h)
  · exact ⟨'V', [], rfl, by decide⟩
  · cases h with
    | @primitive c hc => exact ⟨c, [], rfl, fun h => absurd (h ▸ hc) (by decide)⟩
    | object => exact ⟨'L', _, rfl, by decide⟩
    | array => exact ⟨'[', _, rfl, by decide⟩

theorem FieldType.eq_of_append_eq {t t' r r' : List Char} (ht : FieldType t) (ht' : FieldType t')
    (h : t ++ r = t' ++ r') : t = t' := by
  induction ht generalizing t' with
  | @primitive c hc =>
    cases ht' with
    | primitive => rw [(List.cons.inj h).1]
    | object => exact absurd ((List.cons.inj h).1 ▸ hc) (by decide)
    | array => exact absurd ((List.cons.inj h).1 ▸ hc) (by decide)
  | @object name hname hsemi =>
    cases ht' with
    | primitive hc => exact absurd ((List.cons.inj h).1.symm ▸ hc) (by decide)
    | @object name' hname' hsemi' =>
      have hrest : name ++ ';' :: r = name' ++ ';' :: r' := by simpa using h
      rw [append_cons_inj (forall_ne_of_notMem hsemi) (forall_ne_of_notMem hsemi') (by decide)
        (by decide) hrest]
    | array => exact absurd (List.cons.inj h).1 (by decide)
  | array _ ih =>
    cases ht' with
    | primitive hc => exact absurd ((List.cons.inj h).1.symm ▸ hc) (by decide)
    | object => exact absurd (List.cons.inj h).1 (by decide)
    | array ht' => rw [ih ht' (List.cons.inj h).2]

theorem selfDelimiting_typeWord : SelfDelimiting TypeWord := by
  rintro t t' r r' (rfl | ht) (rfl | ht') h
  · rfl
  · cases ht' with
    | primitive => rw [(List.cons.inj h).1]
    | object => exact absurd (List.cons.inj h).1 (by decide)
    | array => exact absurd (List.cons.inj h).1 (by decide)
  · cases ht with
    | primitive => rw [(List.cons.inj h).1]
    | object => exact absurd (List.cons.inj h).1 (by decide)
    | array => exact absurd (List.cons.inj h).1 (by decide)
  · exact ht.eq_of_append_eq ht' h

/-- The parts are type words, `V` among the parameters or not. -/
def Signature.Words (sig : Signature) : Prop := (∀ t ∈ sig.params, TypeWord t) ∧ TypeWord sig.ret

theorem Signature.Proper.words {sig : Signature} (h : sig.Proper) : sig.Words :=
  ⟨fun t ht => Or.inr (h.1 t ht), h.2⟩

theorem describe_inj {sig sig' : Signature} (h : sig.Words) (h' : sig'.Words)
    (heq : describe sig = describe sig') : sig = sig' := by
  obtain ⟨params, ret⟩ := sig
  obtain ⟨params', ret'⟩ := sig'
  obtain ⟨rfl, rfl⟩ := selfDelimiting_typeWord.flatten_inj avoids_typeWord h.1 h'.1
    (List.cons.inj heq).2
  rfl

/-- The parser finds the parts of a string exactly when none of them is an array of a primitive
    type. -/
theorem parseSignature_describe_iff {sig sig' : Signature} (h : sig.Words) :
    parseSignature (describe sig) = some sig' ↔
      sig' = sig ∧ ∀ t ∈ sig.ret :: sig.params, ¬ PrimitiveArray t := by
  rw [parseSignature_eq_some_iff]
  constructor
  · rintro ⟨hall, hret, heq⟩
    obtain rfl := describe_inj h ⟨fun t ht => (hall t ht).typeWord, hret.typeWord⟩ heq
    exact ⟨rfl, List.forall_mem_cons.2
      ⟨(readable_iff.1 hret).2, fun t ht => (readable_iff.1 (hall t ht)).2⟩⟩
  · rintro ⟨rfl, harray⟩
    obtain ⟨hret, hall⟩ := List.forall_mem_cons.1 harray
    exact ⟨fun t ht => readable_iff.2 ⟨h.1 t ht, hall t ht⟩, readable_iff.2 ⟨h.2, hret⟩, rfl⟩

/-- A string that is accepted is the description of the parts. -/
theorem words_of_parseSignature {s : List Char} {sig : Signature}
    (h : parseSignature s = some sig) : sig.Words ∧ s = describe sig := by
  obtain ⟨hall, hret, hs⟩ := parseSignature_eq_some_iff.1 h
  exact ⟨⟨fun t ht => (hall t ht).typeWord, hret.typeWord⟩, hs⟩

/-- The parser accepts the string iff it is a method descriptor, and takes it apart into the
    parts. -/
def ParsesExactly (s : List Char) : Prop :=
  ((∃ sig, parseSignature s = some sig) ↔ MethodDescriptor s) ∧
    ∀ sig, parseSignature s = some sig → s = describe sig ∧ ∀ t ∈ sig.params, FieldType t

/-- A method descriptor with an array of a primitive type in it. -/
def HasPrimitiveArray (s : List Char) : Prop :=
  ∃ sig : Signature, sig.Proper ∧ s = describe sig ∧ ∃ t ∈ sig.ret :: sig.params, PrimitiveArray t

/-- What would be a method descriptor without arrays of primitive types, if a parameter could be
    `V`. -/
def HasVoidParam (s : List Char) : Prop :=
  ∃ sig : Signature, sig.Words ∧ s = describe sig ∧ ['V'] ∈ sig.params ∧
    ∀ t ∈ sig.ret :: sig.params, ¬ PrimitiveArray t

/-- For every string: the parser is exact iff the string is neither a method descriptor with an array
    of a primitive type nor one of the strings that it reads `V` from as a parameter. -/
theorem parsesExactly_iff (s : List Char) :
    ParsesExactly s ↔ ¬ HasPrimitiveArray s ∧ ¬ HasVoidParam s := by
  constructor
  · rintro ⟨haccepts, hparts⟩
    constructor
    · rintro ⟨sig, hproper, rfl, t, ht, harray⟩
      obtain ⟨sig', hsig'⟩ := haccepts.2 ⟨sig, hproper, rfl⟩
      exact ((parseSignature_describe_iff hproper.words).1 hsig').2 t ht harray
    · rintro ⟨sig, hwords, rfl, hvoid, harray⟩
      have hsig := (parseSignature_describe_iff hwords).2 ⟨rfl, harray⟩
      exact ((hparts sig hsig).2 _ hvoid).ne_void rfl
  · rintro ⟨hnoArray, hnoVoid⟩
    have hfields : ∀ sig, parseSignature s = some sig → ∀ t ∈ sig.params, FieldType t := by
      intro sig hsig t ht
      obtain ⟨hwords, rfl⟩ := words_of_parseSignature hsig
      rcases hwords.1 t ht with rfl | hfield
      · exact absurd ⟨sig, hwords, rfl, ht, ((parseSignature_describe_iff hwords).1 hsig).2⟩ hnoVoid
      · exact hfield
    refine ⟨⟨?_, ?_⟩, fun sig hsig => ⟨(words_of_parseSignature hsig).2, hfields sig hsig⟩⟩
    · rintro ⟨sig, hsig⟩
      obtain ⟨hwords, hs⟩ := words_of_parseSignature hsig
      exact ⟨sig, ⟨hfields sig hsig, hwords.2⟩, hs⟩
    · rintro ⟨sig, hproper, rfl⟩
      refine ⟨sig, (parseSignature_describe_iff hproper.words).2 ⟨rfl, fun t ht harray => ?_⟩⟩
      exact hnoArray ⟨sig, hproper, rfl, t, ht, harray⟩

/-- `([I)V` is a method descriptor and refused, and `(V)V` is none and accepted. -/
theorem not_parsesExactly :
    (MethodDescriptor ['(', '[', 'I', ')', 'V'] ∧ parseSignature ['(', '[', 'I', ')', 'V'] = none ∧
      ¬ ParsesExactly ['(', '[', 'I', ')', 'V']) ∧
    (parseSignature ['(', 'V', ')', 'V'] = some ⟨[['V']], ['V']⟩ ∧
      ¬ MethodDescriptor ['(', 'V', ')', 'V'] ∧ ¬ ParsesExactly ['(', 'V', ')', 'V']) := by
  constructor
  · have hproper : Signature.Proper ⟨[['[', 'I']], ['V']⟩ := by
      refine ⟨fun t ht => ?_, Or.inl rfl⟩
      obtain rfl := List.mem_singleton.1 ht
      exact .array (.primitive (by decide))
    have hdescriptor : MethodDescriptor ['(', '[', 'I', ')', 'V'] := ⟨_, hproper, rfl⟩
    have hnone : parseSignature ['(', '[', 'I', ')', 'V'] = none := by
      cases hsig : parseSignature ['(', '[', 'I', ')', 'V'] with
      | none => rfl
      | some sig =>
        exact absurd ⟨0, 'I', by decide, rfl⟩
          (((parseSignature_describe_iff hproper.words).1 hsig).2 ['[', 'I'] (by decide))
    refine ⟨hdescriptor, hnone, fun h => ?_⟩
    obtain ⟨sig, hsig⟩ := h.1.2 hdescriptor
    exact absurd (hnone.symm.trans hsig) (by simp)
  · have hsome : parseSignature ['(', 'V', ')', 'V'] = some ⟨[['V']], ['V']⟩ := by
      refine parseSignature_eq_some_iff.2 ⟨fun t ht => ?_, .primitive rfl, rfl⟩
      obtain rfl := List.mem_singleton.1 ht
      exact .primitive rfl
    have hnot : ¬ MethodDescriptor ['(', 'V', ')', 'V'] := by
      rintro ⟨sig, hproper, hs⟩
      have hvoid : Signature.Words ⟨[['V']], ['V']⟩ :=
        ⟨fun t ht => Or.inl (List.mem_singleton.1 ht), Or.inl rfl⟩
      obtain rfl := describe_inj hvoid hproper.words hs
      exact (hproper.1 _ (List.mem_singleton.2 rfl)).ne_void rfl
    exact ⟨hsome, hnot, fun h => hnot (h.1.1 ⟨_, hsome⟩)⟩

end ArtPi.Dex
