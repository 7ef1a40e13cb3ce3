import ArtPi.Dex.Signature
import Mathlib.Algebra.GroupWithZero.Nat

set_option autoImplicit false

/-! # Arguments in registers (`src/sandbox/pi_interp_executor.cpp`)

`runMethod` gets its arguments as `jvalue`s, and a shorty that says which member of each is meant.
`packRegisters` puts them into the last registers of the frame. The shorty has `I` for every type that
takes one register and is no reference, so that of a `byte` as of a `float` the low 32 bits are taken. -/

namespace ArtPi.Sandbox

open Lib Dex

/-! ## Shorties -/

def typeChar (c : Char) : Char := if c = 'J' ∨ c = 'D' then c else 'I'

/-- What is behind the element type of an array, whose brackets are gone. -/
def skipElement : List Char → List Char
  | [] => []
  | c :: p => if c = 'L' then (p.dropWhile (· ≠ ';')).tail else p

theorem length_skipElement_le (s : List Char) : (skipElement s).length ≤ s.length := by
  cases s with
  | nil => exact Nat.le_refl _
  | cons c p =>
    have hdrop := (List.dropWhile_suffix (l := p) (fun c => decide (c ≠ ';'))).length_le
    rw [skipElement, List.length_cons]
    split
    · rw [List.length_tail]
      omega
    · omega

/-- The loop over the parameters. -/
def shortyParams (s : List Char) : List Char :=
  match s with
  | [] => []
  | c :: rest =>
    if c = '[' then 'L' :: shortyParams (skipElement (rest.dropWhile (· = '[')))
    else if c = 'L' then 'L' :: shortyParams (rest.dropWhile (· ≠ ';')).tail
    else typeChar c :: shortyParams rest
termination_by s.length
decreasing_by
  · have hskip := length_skipElement_le (rest.dropWhile (· = '['))
    have hdrop := (List.dropWhile_suffix (l := rest) (fun c => decide (c = '['))).length_le
    rw [List.length_cons]
    omega
  · have hdrop := (List.dropWhile_suffix (l := rest) (fun c => decide (c ≠ ';'))).length_le
    rw [List.length_tail, List.length_cons]
    omega
  · exact Nat.lt_succ_self _

def shortyFromSignature (sig : List Char) : Option (List Char) :=
  if sig.head? ≠ some '(' then none
  else
    match sig.dropWhile (· ≠ ')') with
    | _ :: ret :: _ =>
      some ((if ret = 'L' ∨ ret = '[' then 'L' else ret) ::
        shortyParams (sig.tail.takeWhile (· ≠ ')')))
    | _ => none

/-- The character of a parameter type. -/
def shortyOf : List Char → Char
  | [] => 'I'
  | c :: _ => if c = '[' ∨ c = 'L' then 'L' else typeChar c

/-- The character of the return type. -/
def returnChar : List Char → Char
  | [] => 'V'
  | c :: _ => if c = 'L' ∨ c = '[' then 'L' else c

/-! ## Registers -/

variable {Obj : Type}

/-- A `jvalue`: the bits of the union, or a reference. -/
inductive Jvalue (Obj : Type) where
  | bits (b : UInt64)
  | l (o : Option Obj)
  deriving DecidableEq

namespace Jvalue

/-- All bits; a reference is not read as a number. -/
def j : Jvalue Obj → UInt64
  | bits b => b
  | l _ => 0

def i (v : Jvalue Obj) : UInt32 := v.j.toUInt32

def ref : Jvalue Obj → Option Obj
  | bits _ => none
  | l o => o

end Jvalue

/-- A register, with its flag. -/
inductive Register (Obj : Type) where
  | value (v : UInt64)
  | object (o : Option Obj)
  deriving DecidableEq

namespace Register

def bits : Register Obj → UInt64
  | value v => v
  | object _ => 0

def ref : Register Obj → Option Obj
  | value _ => none
  | object o => o

end Register

/-- The members `f` and `i` share their bits. -/
def packParam (c : Char) (v : Jvalue Obj) : List (Register Obj) :=
  if c = 'J' ∨ c = 'D' then [.value v.j, .value 0]
  else if c = 'L' then [.object v.ref]
  else [.value v.i.toUInt64]

def packParams : List Char → List (Jvalue Obj) → List (Register Obj)
  | c :: shorty, v :: args => packParam c v ++ packParams shorty args
  | _, _ => []

def slotsOf (c : Char) : Nat := if c = 'J' ∨ c = 'D' then 2 else 1

/-- What `buildVmCode` says of a method. -/
structure Layout where
  registersSize : Nat
  insSize : Nat
  deriving DecidableEq

/-- The registers are zero before. -/
def packRegisters (ic : Layout) (isStatic : Bool) (thisObj : Option Obj) (args : List (Jvalue Obj))
    (shorty : List Char) : Option (List (Register Obj)) :=
  let need := (if isStatic then 0 else 1) + (shorty.tail.map slotsOf).sum
  if need ≠ ic.insSize then none
  else if ic.registersSize < ic.insSize then none
  else
    some (List.replicate (ic.registersSize - ic.insSize) (.value 0) ++
      ((if isStatic then [] else [.object thisObj]) ++ packParams shorty.tail args))

/-- What `unpackResult` fills in. -/
structure Unpacked (Obj : Type) where
  isVoid : Bool
  isObject : Bool
  value : Jvalue Obj
  objectResult : Option Obj

def unpackResult (rv : Jvalue Obj) (retChar : Char) : Unpacked Obj :=
  if retChar = 'V' then ⟨true, false, .bits 0, none⟩
  else if retChar = 'J' ∨ retChar = 'D' then ⟨false, false, .bits rv.j, none⟩
  else if retChar = 'L' ∨ retChar = '[' then ⟨false, true, .bits 0, rv.ref⟩
  else ⟨false, false, .bits rv.i.toUInt64, none⟩

/-! ## What the bytecode finds there -/

/-- A value as the bytecode has it: a word, a pair, or a reference. -/
inductive Value (Obj : Type) where
  | word (w : UInt32)
  | wide (w : UInt64)
  | ref (o : Option Obj)
  deriving DecidableEq

/-- The parameters of a method in the registers that come in. -/
def incoming : List (List Char) → List (Register Obj) → List (Value Obj)
  | t :: types, r :: regs =>
    if shortyOf t = 'J' ∨ shortyOf t = 'D' then .wide r.bits :: incoming types regs.tail
    else if shortyOf t = 'L' then .ref r.ref :: incoming types regs
    else .word r.bits.toUInt32 :: incoming types regs
  | _, _ => []

/-- The receiver and the parameters. -/
def incomingArgs (ic : Layout) (isStatic : Bool) (types : List (List Char))
    (regs : List (Register Obj)) : Option Obj × List (Value Obj) :=
  let ins := regs.drop (ic.registersSize - ic.insSize)
  if isStatic then (none, incoming types ins)
  else ((ins.head?.map Register.ref).getD none, incoming types ins.tail)

/-- What the bytecode finds of an argument. -/
def packed (t : List Char) (v : Jvalue Obj) : Value Obj :=
  if shortyOf t = 'J' ∨ shortyOf t = 'D' then .wide v.j
  else if shortyOf t = 'L' then .ref v.ref
  else .word v.i

/-! ## The shorty of a signature -/

theorem skipElement_array {t : List Char} (h : FieldType t) (rest : List Char) :
    skipElement ((t ++ rest).dropWhile (· = '[')) = rest := by
  induction h with
  | @primitive c hc =>
    have hbracket : c ≠ '[' := ne_of_mem_fieldPrimitives hc (by decide)
    have hclass : c ≠ 'L' := ne_of_mem_fieldPrimitives hc (by decide)
    rw [List.cons_append, List.dropWhile_cons_of_neg (by simpa using hbracket), skipElement,
      if_neg hclass]
    rfl
  | @object name _ hsemi =>
    rw [List.cons_append, List.dropWhile_cons_of_neg (by simp), skipElement, if_pos rfl,
      List.append_assoc, List.singleton_append, dropWhile_ne_append_cons hsemi]
    rfl
  | array _ ih =>
    rw [List.cons_append, List.dropWhile_cons_of_pos (by simp)]
    exact ih

theorem shortyParams_append {t : List Char} (h : FieldType t) (rest : List Char) :
    shortyParams (t ++ rest) = shortyOf t :: shortyParams rest := by
  cases h with
  | @primitive c hc =>
    have hbracket : c ≠ '[' := ne_of_mem_fieldPrimitives hc (by decide)
    have hclass : c ≠ 'L' := ne_of_mem_fieldPrimitives hc (by decide)
    rw [List.cons_append, shortyParams, if_neg hbracket, if_neg hclass, shortyOf,
      if_neg (not_or.2 ⟨hbracket, hclass⟩)]
    rfl
  | @object name _ hsemi =>
    rw [List.cons_append, shortyParams, if_neg (by decide), if_pos rfl, shortyOf,
      if_pos (Or.inr rfl), List.append_assoc, List.singleton_append,
      dropWhile_ne_append_cons hsemi]
    rfl
  | @array t ht =>
    rw [List.cons_append, shortyParams, if_pos rfl, shortyOf, if_pos (Or.inl rfl),
      skipElement_array ht]

theorem shortyParams_flatten {params : List (List Char)} (h : ∀ t ∈ params, FieldType t) :
    shortyParams params.flatten = params.map shortyOf := by
  induction params with
  | nil => rw [List.flatten_nil, shortyParams, List.map_nil]
  | cons t params ih =>
    rw [List.flatten_cons, shortyParams_append (h t List.mem_cons_self),
      ih (fun t' ht' => h t' (List.mem_cons_of_mem _ ht')), List.map_cons]

theorem TypeWord.ne_nil {t : List Char} (h : TypeWord t) : t ≠ [] := by
  rcases h with rfl | h
  · simp
  · cases h <;> simp

/-- For every method descriptor without a parenthesis in its names. -/
theorem shortyFromSignature_describe {sig : Signature} (h : sig.Proper)
    (hparen : ')' ∉ sig.params.flatten) :
    shortyFromSignature (describe sig) = some (returnChar sig.ret :: sig.params.map shortyOf) := by
  obtain ⟨c, ret, hret⟩ := List.exists_cons_of_ne_nil (TypeWord.ne_nil h.2)
  have hdrop : (describe sig).dropWhile (· ≠ ')') = ')' :: sig.ret := by
    unfold describe
    rw [List.dropWhile_cons_of_pos (by simp), dropWhile_ne_append_cons hparen]
  unfold shortyFromSignature
  rw [if_neg (by simp [describe]), hdrop, hret]
  have htake : (describe sig).tail.takeWhile (· ≠ ')') = sig.params.flatten := by
    unfold describe
    rw [List.tail_cons, takeWhile_ne_append_cons hparen]
  simp only [htake, shortyParams_flatten h.1]
  rfl

/-! ## What comes in is what was packed -/

theorem incoming_packParams {types : List (List Char)} {args : List (Jvalue Obj)}
    (hlen : args.length = types.length) :
    incoming types (packParams (types.map shortyOf) args) = List.zipWith packed types args := by
  induction types generalizing args with
  | nil =>
    rw [List.length_nil, List.length_eq_zero_iff] at hlen
    rw [hlen]
    rfl
  | cons t types ih =>
    obtain ⟨v, args, rfl⟩ := List.exists_cons_of_length_eq_add_one hlen
    have hrest := ih (by simpa using hlen)
    rw [List.map_cons, packParams, List.zipWith_cons_cons, ← hrest]
    unfold packed packParam
    by_cases hwide : shortyOf t = 'J' ∨ shortyOf t = 'D'
    · rw [if_pos hwide, if_pos hwide]
      simp only [List.cons_append, List.nil_append, incoming, if_pos hwide, List.tail_cons]
      rfl
    · rw [if_neg hwide, if_neg hwide]
      by_cases href : shortyOf t = 'L'
      · rw [if_pos href, if_pos href]
        simp only [List.cons_append, List.nil_append, incoming, if_neg hwide, if_pos href]
        rfl
      · rw [if_neg href, if_neg href]
        simp only [List.cons_append, List.nil_append, incoming, if_neg hwide, if_neg href]
        simp [Register.bits]

theorem eq_of_packRegisters {ic : Layout} {isStatic : Bool} {thisObj : Option Obj}
    {args : List (Jvalue Obj)} {shorty : List Char} {regs : List (Register Obj)}
    (h : packRegisters ic isStatic thisObj args shorty = some regs) :
    regs = List.replicate (ic.registersSize - ic.insSize) (.value 0) ++
      ((if isStatic then [] else [.object thisObj]) ++ packParams shorty.tail args) := by
  obtain ⟨-, -, hregs⟩ : _ ∧ _ ∧ _ = regs := by simpa [packRegisters] using h
  exact hregs.symm

/-- The method finds its receiver, and of each argument the member that the shorty says. -/
theorem incomingArgs_packRegisters {ic : Layout} {isStatic : Bool} {thisObj : Option Obj}
    {types : List (List Char)} {args : List (Jvalue Obj)} {c : Char} {regs : List (Register Obj)}
    (hlen : args.length = types.length)
    (h : packRegisters ic isStatic thisObj args (c :: types.map shortyOf) = some regs) :
    incomingArgs ic isStatic types regs =
      (if isStatic then none else thisObj, List.zipWith packed types args) := by
  rw [eq_of_packRegisters h]
  unfold incomingArgs
  rw [List.drop_append_of_le_length (by simp), List.drop_of_length_le (by simp)]
  cases isStatic with
  | true => simp [incoming_packParams hlen]
  | false => simp [incoming_packParams hlen, Register.ref]

end ArtPi.Sandbox
