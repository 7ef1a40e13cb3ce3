import ArtPi.Sandbox.Registers

set_option autoImplicit false

/-! # Four scanners of method signatures (`pi_interp_executor.cpp`, `pi_interp_tracer.cpp`,
`pine_native.cpp`, `pi_dex_gen.cpp`)

Besides `shortyFromSignature` and `ParseSignature` there are `parseSigTypes` of the tracer and
`ParseJavaArgTypes` of the hook engine. They say more or less of a parameter: `ParseSignature` and
`ParseJavaArgTypes` give its descriptor, `parseSigTypes` the first character of it with arrays and classes
as `L`, and `shortyFromSignature` has `I` besides for whatever takes one register. -/

namespace ArtPi.Dex

open Lib Sandbox

/-! ## `parseSigTypes` -/

/-- The loop over the parameters. -/
def sigKinds (s : List Char) : List Char :=
  match s with
  | [] => []
  | c :: rest =>
    if c = '[' then 'L' :: sigKinds (skipElement (rest.dropWhile (· = '[')))
    else if c = 'L' then 'L' :: sigKinds (rest.dropWhile (· ≠ ';')).tail
    else c :: sigKinds rest
termination_by s.length
decreasing_by
  · have hskip := length_skipElement_le (rest.dropWhile (· = '['))
    have hdrop := (List.dropWhile_suffix (l := rest) (fun c => decide (c = '['))).length_le
    rw [List.length_cons]
    omega
  · have hdrop := (List.dropWhile_suffix (l := rest) (fun c => decide (c ≠ ';'))).length_le
    rw [List.length_tail, List.length_cons]
    omega
  · exact Nat.lt_succ_self _

def parseSigTypes (sig : List Char) : List Char × Char :=
  if sig.head? ≠ some '(' ∨ ')' ∉ sig then ([], 'V')
  else
    (sigKinds (sig.tail.takeWhile (· ≠ ')')),
      match (sig.dropWhile (· ≠ ')')).tail with
      | [] => 'V'
      | r :: _ => if r = 'L' ∨ r = '[' then 'L' else r)

/-! ## `ParseJavaArgTypes` -/

/-- One round of the loop, on what is left of the parameters: the type, and what is behind it. Brackets
    at the end get the closing parenthesis as their element type. -/
def javaType (s : List Char) : List Char × List Char :=
  match s.dropWhile (· = '[') with
  | [] => (s ++ [')'], [])
  | c :: p =>
    if c = 'L' ∧ ';' ∈ p then
      (s.takeWhile (· = '[') ++ c :: (p.takeWhile (· ≠ ';') ++ [';']),
        (p.dropWhile (· ≠ ';')).tail)
    else (s.takeWhile (· = '[') ++ [c], p)

theorem length_javaType_lt {s : List Char} (h : s ≠ []) :
    (javaType s).2.length < s.length := by
  have hpos := List.length_pos_iff.2 h
  have hdrop := (List.dropWhile_suffix (l := s) (fun c => decide (c = '['))).length_le
  unfold javaType
  split
  · exact hpos
  · next c p hp =>
      have hsemi := (List.dropWhile_suffix (l := p) (fun c => decide (c ≠ ';'))).length_le
      rw [hp, List.length_cons] at hdrop
      split
      · rw [List.length_tail]
        omega
      · exact hdrop

def javaArgTypes (s : List Char) : List (List Char) :=
  if _h : s = [] then [] else (javaType s).1 :: javaArgTypes (javaType s).2
termination_by s.length
decreasing_by exact length_javaType_lt _h

/-- Where the first `)` is in front of the first `(` there are no types. -/
def parseJavaArgTypes (sig : List Char) : List (List Char) :=
  if '(' ∉ sig ∨ ')' ∉ sig ∨ ')' ∈ sig.takeWhile (· ≠ '(') then []
  else javaArgTypes ((sig.dropWhile (· ≠ '(')).tail.takeWhile (· ≠ ')'))

/-! ## Words -/

/-- `CalculateInsWords`, in 16 bits. -/
def calculateInsWords (params : List (List Char)) (isStatic : Bool) : UInt16 :=
  params.foldl
    (fun words a =>
      words + if a = ['J'] ∨ a = ['D'] ∨ a = ['l', 'o', 'n', 'g'] ∨
        a = ['d', 'o', 'u', 'b', 'l', 'e'] then 2 else 1)
    (if isStatic then 0 else 1)

/-- What `packRegisters` computes from a shorty. -/
def neededSlots (shorty : List Char) (isStatic : Bool) : Nat :=
  (if isStatic then 0 else 1) + (shorty.tail.map slotsOf).sum

/-! ## Agreement -/

/-- The kind of a type: `L` for a class or an array, and the primitive type otherwise. -/
def kindOf : List Char → Char
  | [] => 'V'
  | c :: _ => if c = 'L' ∨ c = '[' then 'L' else c

theorem kindOf_primitive {c : Char} (hc : c ∈ fieldPrimitives) : kindOf [c] = c := by
  have hbracket : c ≠ '[' := ne_of_mem_fieldPrimitives hc (by decide)
  have hclass : c ≠ 'L' := ne_of_mem_fieldPrimitives hc (by decide)
  rw [kindOf, if_neg (not_or.2 ⟨hclass, hbracket⟩)]

theorem returnChar_eq_kindOf (t : List Char) : returnChar t = kindOf t := by
  cases t <;> rfl

/-- What a shorty says of a kind. -/
def shortyKind (c : Char) : Char := if c = 'L' then 'L' else typeChar c

/-- All four take the signature apart in the same way. -/
structure ScannersAgree (s : List Char) (sig : Signature) (shorty : List Char) : Prop where
  generator : parseSignature s = some sig
  executor : shortyFromSignature s = some shorty
  engine : parseJavaArgTypes s = sig.params
  tracerKinds : (parseSigTypes s).1 = sig.params.map kindOf
  executorKinds : shorty.tail = (parseSigTypes s).1.map shortyKind
  tracerReturn : (parseSigTypes s).2 = kindOf sig.ret
  executorReturn : shorty.head? = some (parseSigTypes s).2
  words : ∀ isStatic, (calculateInsWords sig.params isStatic).toNat = neededSlots shorty isStatic

/-- A method signature of a DEX file. Names of classes have no parentheses. -/
structure Signature.Valid (sig : Signature) : Prop where
  proper : sig.Proper
  noParen : ')' ∉ sig.params.flatten

/-- The registers of a parameter. -/
def wordsOf (t : List Char) : Nat := if t = ['J'] ∨ t = ['D'] then 2 else 1

/-! ## What each of them finds -/

theorem sigKinds_append {t : List Char} (h : FieldType t) (rest : List Char) :
    sigKinds (t ++ rest) = kindOf t :: sigKinds rest := by
  cases h with
  | @primitive c hc =>
    have hbracket : c ≠ '[' := ne_of_mem_fieldPrimitives hc (by decide)
    have hclass : c ≠ 'L' := ne_of_mem_fieldPrimitives hc (by decide)
    rw [List.cons_append, sigKinds, if_neg hbracket, if_neg hclass, kindOf_primitive hc]
    rfl
  | @object name _ hsemi =>
    rw [List.cons_append, sigKinds, if_neg (by decide), if_pos rfl, kindOf,
      if_pos (Or.inl rfl), List.append_assoc, List.singleton_append,
      dropWhile_ne_append_cons hsemi]
    rfl
  | @array t ht =>
    rw [List.cons_append, sigKinds, if_pos rfl, kindOf, if_pos (Or.inr rfl),
      skipElement_array ht]

theorem sigKinds_flatten {params : List (List Char)} (h : ∀ t ∈ params, FieldType t) :
    sigKinds params.flatten = params.map kindOf := by
  induction params with
  | nil => rw [List.flatten_nil, sigKinds, List.map_nil]
  | cons t params ih =>
    rw [List.flatten_cons, sigKinds_append (h t List.mem_cons_self),
      ih (fun t' ht' => h t' (List.mem_cons_of_mem _ ht')), List.map_cons]

theorem javaType_bracket (s : List Char) :
    javaType ('[' :: s) = ('[' :: (javaType s).1, (javaType s).2) := by
  unfold javaType
  rw [List.dropWhile_cons_of_pos (by simp), List.takeWhile_cons_of_pos (by simp)]
  split
  · rfl
  · split <;> rfl

theorem javaType_append {t : List Char} (h : FieldType t) (rest : List Char) :
    javaType (t ++ rest) = (t, rest) := by
  induction h with
  | @primitive c hc =>
    have hbracket : c ≠ '[' := ne_of_mem_fieldPrimitives hc (by decide)
    have hclass : c ≠ 'L' := ne_of_mem_fieldPrimitives hc (by decide)
    unfold javaType
    rw [List.singleton_append, List.dropWhile_cons_of_neg (by simpa using hbracket),
      List.takeWhile_cons_of_neg (by simpa using hbracket)]
    exact if_neg (fun hboth => hclass hboth.1)
  | @object name _ hsemi =>
    unfold javaType
    rw [List.cons_append, List.dropWhile_cons_of_neg (by simp),
      List.takeWhile_cons_of_neg (by simp), List.append_assoc, List.singleton_append]
    simp only [List.mem_append, List.mem_cons, true_or, or_true, and_self, if_true,
      dropWhile_ne_append_cons hsemi, takeWhile_ne_append_cons hsemi, List.nil_append,
      List.tail_cons]
  | array _ ih => rw [List.cons_append, javaType_bracket, ih]

theorem javaArgTypes_flatten {params : List (List Char)} (h : ∀ t ∈ params, FieldType t) :
    javaArgTypes params.flatten = params := by
  induction params with
  | nil => rw [List.flatten_nil, javaArgTypes, dif_pos rfl]
  | cons t params ih =>
    obtain ⟨ht, hparams⟩ := List.forall_mem_cons.1 h
    have hne : t ++ params.flatten ≠ [] := by
      cases ht <;> simp
    rw [List.flatten_cons, javaArgTypes, dif_neg hne, javaType_append ht, ih hparams]

/-! ## What they find in a valid signature -/

theorem parseSigTypes_describe {sig : Signature} (h : sig.Valid) :
    parseSigTypes (describe sig) = (sig.params.map kindOf, kindOf sig.ret) := by
  have htake : (describe sig).tail.takeWhile (· ≠ ')') = sig.params.flatten := by
    unfold describe
    rw [List.tail_cons, takeWhile_ne_append_cons h.noParen]
  have hdrop : (describe sig).dropWhile (· ≠ ')') = ')' :: sig.ret := by
    unfold describe
    rw [List.dropWhile_cons_of_pos (by simp), dropWhile_ne_append_cons h.noParen]
  unfold parseSigTypes
  rw [if_neg (by simp [describe]), htake, hdrop, sigKinds_flatten h.proper.1]
  rfl

theorem parseJavaArgTypes_describe {sig : Signature} (h : sig.Valid) :
    parseJavaArgTypes (describe sig) = sig.params := by
  unfold parseJavaArgTypes describe
  rw [if_neg (by simp), List.dropWhile_cons_of_neg (by simp), List.tail_cons,
    takeWhile_ne_append_cons h.noParen, javaArgTypes_flatten h.proper.1]

theorem FieldType.shortyOf_eq {t : List Char} (h : FieldType t) :
    shortyOf t = shortyKind (kindOf t) := by
  cases h with
  | @primitive c hc =>
    have hbracket : c ≠ '[' := ne_of_mem_fieldPrimitives hc (by decide)
    have hclass : c ≠ 'L' := ne_of_mem_fieldPrimitives hc (by decide)
    rw [shortyOf, if_neg (not_or.2 ⟨hbracket, hclass⟩), kindOf_primitive hc, shortyKind, if_neg hclass]
  | object => rfl
  | array => rfl

/-- The characters of the types that are `J` or `D` are those of the wide types. -/
theorem FieldType.slotsOf_eq {t : List Char} (h : FieldType t) : slotsOf (shortyOf t) = wordsOf t := by
  cases h with
  | @primitive c hc =>
    simp only [fieldPrimitives, List.mem_cons, List.not_mem_nil, or_false] at hc
    rcases hc with rfl | rfl | rfl | rfl | rfl | rfl | rfl | rfl <;> rfl
  | object => rfl
  | array => rfl

theorem FieldType.insWord_eq {t : List Char} (h : FieldType t) :
    (if t = ['J'] ∨ t = ['D'] ∨ t = ['l', 'o', 'n', 'g'] ∨ t = ['d', 'o', 'u', 'b', 'l', 'e'] then 2
      else 1 : UInt16) = UInt16.ofNat (wordsOf t) := by
  cases h with
  | @primitive c hc =>
    simp only [fieldPrimitives, List.mem_cons, List.not_mem_nil, or_false] at hc
    rcases hc with rfl | rfl | rfl | rfl | rfl | rfl | rfl | rfl <;> rfl
  | object => rfl
  | array => rfl

theorem foldl_insWords {params : List (List Char)} (h : ∀ t ∈ params, FieldType t) (n : Nat) :
    params.foldl
      (fun words a =>
        words + if a = ['J'] ∨ a = ['D'] ∨ a = ['l', 'o', 'n', 'g'] ∨
          a = ['d', 'o', 'u', 'b', 'l', 'e'] then 2 else 1)
      (UInt16.ofNat n) = UInt16.ofNat (n + (params.map wordsOf).sum) := by
  induction params generalizing n with
  | nil => rfl
  | cons t params ih =>
    obtain ⟨ht, hparams⟩ := List.forall_mem_cons.1 h
    rw [List.foldl_cons, ht.insWord_eq, ← UInt16.ofNat_add, ih hparams, List.map_cons,
      List.sum_cons, Nat.add_assoc]

/-- The words of the parameters, modulo `2 ^ 16`. -/
theorem toNat_calculateInsWords {params : List (List Char)} (h : ∀ t ∈ params, FieldType t)
    (isStatic : Bool) :
    (calculateInsWords params isStatic).toNat =
      ((if isStatic then 0 else 1) + (params.map wordsOf).sum) % 2 ^ 16 := by
  have hstart : (if isStatic then 0 else 1 : UInt16) = UInt16.ofNat (if isStatic then 0 else 1) := by
    cases isStatic <;> rfl
  unfold calculateInsWords
  rw [hstart, foldl_insWords h, UInt16.toNat_ofNat']

theorem neededSlots_cons {params : List (List Char)} (h : ∀ t ∈ params, FieldType t) (c : Char)
    (isStatic : Bool) :
    neededSlots (c :: params.map shortyOf) isStatic =
      (if isStatic then 0 else 1) + (params.map wordsOf).sum := by
  unfold neededSlots
  rw [List.tail_cons, List.map_map]
  congr 2
  exact List.map_congr_left (fun t ht => (h t ht).slotsOf_eq)

/-! ## The scanners agree -/

/-- For every valid signature: the scanners agree on it iff no parameter is an array of a primitive type,
    nor the return type, and the words of a receiver and the parameters fit in 16 bits. -/
theorem scanners_agree_iff {sig : Signature} (h : sig.Valid) :
    (∃ sig' shorty, ScannersAgree (describe sig) sig' shorty) ↔
      (∀ t ∈ sig.ret :: sig.params, ¬ PrimitiveArray t) ∧
        1 + (sig.params.map wordsOf).sum < 2 ^ 16 := by
  have hparse := @parseSignature_describe_iff sig sig h.proper.words
  have hshorty := shortyFromSignature_describe h.proper h.noParen
  have htracer := parseSigTypes_describe h
  have hjava := parseJavaArgTypes_describe h
  constructor
  · rintro ⟨sig', shorty, hagree⟩
    obtain ⟨rfl, harray⟩ := (parseSignature_describe_iff h.proper.words).1 hagree.generator
    obtain rfl := Option.some.inj (hshorty.symm.trans hagree.executor)
    refine ⟨harray, ?_⟩
    have hwords := hagree.words false
    rw [toNat_calculateInsWords h.proper.1, neededSlots_cons h.proper.1] at hwords
    simp only [Bool.false_eq_true, if_false] at hwords
    rw [← hwords]
    exact Nat.mod_lt _ (by decide)
  · rintro ⟨harray, hlt⟩
    refine ⟨sig, _, hparse.2 ⟨rfl, harray⟩, hshorty, hjava, ?_, ?_, ?_, ?_, fun isStatic => ?_⟩
    · rw [htracer]
    · rw [htracer, List.tail_cons, List.map_map]
      exact List.map_congr_left (fun t ht => (h.proper.1 t ht).shortyOf_eq)
    · rw [htracer]
    · rw [htracer, List.head?_cons, returnChar_eq_kindOf]
    · rw [toNat_calculateInsWords h.proper.1, neededSlots_cons h.proper.1]
      refine Nat.mod_eq_of_lt ?_
      cases isStatic <;> simp only [Bool.false_eq_true, if_true, if_false] <;> omega

/-- `(I[La;D)V`: the array is one word, and the `double` is two. -/
theorem scanners_agree_of_mixed :
    ∃ sig' shorty,
      ScannersAgree (describe ⟨[['I'], ['[', 'L', 'a', ';'], ['D']], ['V']⟩) sig' shorty := by
  have hproper : Signature.Proper ⟨[['I'], ['[', 'L', 'a', ';'], ['D']], ['V']⟩ := by
    refine ⟨?_, Or.inl rfl⟩
    rw [List.forall_mem_cons, List.forall_mem_cons, List.forall_mem_singleton]
    exact ⟨.primitive (by decide), .array (.object (List.cons_ne_nil 'a' []) (by decide)),
      .primitive (by decide)⟩
  have hparse : parseSignature (describe ⟨[['I'], ['[', 'L', 'a', ';'], ['D']], ['V']⟩) =
      some ⟨[['I'], ['[', 'L', 'a', ';'], ['D']], ['V']⟩ := by decide +kernel
  exact (scanners_agree_iff ⟨hproper, by decide⟩).2
    ⟨((parseSignature_describe_iff hproper.words).1 hparse).2, by decide⟩

/-- `([I)V` is valid, and `ParseSignature` refuses it. -/
theorem not_scanners_agree_of_array :
    Signature.Valid ⟨[['[', 'I']], ['V']⟩ ∧
      ¬ ∃ sig' shorty, ScannersAgree (describe ⟨[['[', 'I']], ['V']⟩) sig' shorty := by
  refine ⟨⟨⟨?_, Or.inl rfl⟩, by decide⟩, ?_⟩
  · rw [List.forall_mem_singleton]
    exact .array (.primitive (by decide))
  · rintro ⟨sig', shorty, hagree⟩
    have hnone : parseSignature (describe ⟨[['[', 'I']], ['V']⟩) = none := by decide +kernel
    rw [hagree.generator] at hnone
    exact Option.some_ne_none _ hnone

end ArtPi.Dex
