import ArtPi.Agent.Invoke
import ArtPi.Dex.Scanners
import Mathlib.Data.List.Forall2

set_option autoImplicit false

/-! # Arguments in a register file (`pi_interp_executor.cpp`, `agent_invoke.cpp`)

`packRegisters` writes into the registers of an `InterpCode` and their flags. Whoever calls it has stored
each argument in a zeroed `jvalue`, in the member of its type. Of the types that take one register and are
no reference `packRegisters` reads the member `i`, and so a `byte` or a `short` below zero comes without its
sign. -/

namespace ArtPi.Sandbox

open Lib Dex Agent.Invoke

variable {Obj : Type}

/-! ## The register file -/

/-- The registers of a frame, with their flags. -/
structure RegisterFile (Obj : Type) where
  ic : Layout
  regs : List (Jvalue Obj)
  regFlags : List Bool
  length_regs : regs.length = ic.registersSize
  length_regFlags : regFlags.length = ic.registersSize

namespace RegisterFile

/-- As `buildVmCode` leaves it. -/
def fresh (ic : Layout) : RegisterFile Obj where
  ic := ic
  regs := List.replicate ic.registersSize (.bits 0)
  regFlags := List.replicate ic.registersSize false
  length_regs := List.length_replicate
  length_regFlags := List.length_replicate

def putSlot (f : RegisterFile Obj) (s : Nat) (v : Jvalue Obj) (obj : Bool) : RegisterFile Obj where
  ic := f.ic
  regs := f.regs.set s v
  regFlags := f.regFlags.set s obj
  length_regs := by rw [List.length_set, f.length_regs]
  length_regFlags := by rw [List.length_set, f.length_regFlags]

/-- The loop over the parameters. The members `f` and `i` share their bits. -/
def putParams (slot : Nat) : List Char → List (Jvalue Obj) → RegisterFile Obj → RegisterFile Obj
  | c :: shorty, v :: args, f =>
    if c = 'J' ∨ c = 'D' then putParams (slot + 2) shorty args (f.putSlot slot (.bits v.j) false)
    else if c = 'L' then putParams (slot + 1) shorty args (f.putSlot slot (.l v.ref) true)
    else putParams (slot + 1) shorty args (f.putSlot slot (.bits v.i.toUInt64) false)
  | _, _, f => f

/-- What it returns, and the registers then. -/
def packRegisters (f : RegisterFile Obj) (isStatic : Bool) (thisObj : Option Obj)
    (args : List (Jvalue Obj)) (shorty : List Char) : Bool × RegisterFile Obj :=
  let need := neededSlots shorty isStatic
  if need ≠ f.ic.insSize then (false, f)
  else if f.ic.registersSize < f.ic.insSize then (false, f)
  else
    let slot := f.ic.registersSize - f.ic.insSize
    if isStatic then (true, putParams slot shorty.tail args f)
    else (true, putParams (slot + 1) shorty.tail args (f.putSlot slot (.l thisObj) true))

end RegisterFile

/-! ## Arguments -/

/-- An argument of a method. Floating-point numbers are their bits. -/
inductive Argument (Obj : Type) where
  | boolean (z : Bool)
  | byte (b : Int8)
  | short (s : Int16)
  | char (c : UInt16)
  | int (i : Int32)
  | long (j : Int64)
  | float (f : UInt32)
  | double (d : UInt64)
  | object (o : Option Obj)
  deriving DecidableEq

namespace Argument

/-- The zeroed `jvalue` with the argument in its member. -/
def jvalue : Argument Obj → Jvalue Obj
  | boolean z => .bits (if z then 1 else 0)
  | byte b => .bits b.toUInt8.toUInt64
  | short s => .bits s.toUInt16.toUInt64
  | char c => .bits c.toUInt64
  | int i => .bits i.toUInt32.toUInt64
  | long j => .bits j.toUInt64
  | float f => .bits f.toUInt64
  | double d => .bits d
  | object o => .l o

/-- What a register holds for it: `byte` and `short` are sign-extended to 32 bits, and `boolean` and
    `char` zero-extended. -/
def dalvik : Argument Obj → Jvalue Obj
  | boolean z => .bits (if z then 1 else 0)
  | byte b => .bits b.toInt32.toUInt32.toUInt64
  | short s => .bits s.toInt32.toUInt32.toUInt64
  | char c => .bits c.toUInt32.toUInt64
  | int i => .bits i.toUInt32.toUInt64
  | long j => .bits j.toUInt64
  | float f => .bits f.toUInt64
  | double d => .bits d
  | object o => .l o

/-- The first character of its type, `L` for an array too. -/
def kind : Argument Obj → Char
  | boolean _ => 'Z'
  | byte _ => 'B'
  | short _ => 'S'
  | char _ => 'C'
  | int _ => 'I'
  | long _ => 'J'
  | float _ => 'F'
  | double _ => 'D'
  | object _ => 'L'

/-- The registers it takes. -/
def width : Argument Obj → Nat
  | long _ | double _ => 2
  | _ => 1

def isObject : Argument Obj → Bool
  | object _ => true
  | _ => false

/-- A `byte` or a `short` below zero. -/
def Negative : Argument Obj → Prop
  | byte b => b < 0
  | short s => s < 0
  | _ => False

/-- The character of a shorty that stands for it: its kind, or what `shortyFromSignature` makes of the
    kind. -/
def Fits (c : Char) (a : Argument Obj) : Prop := c = a.kind ∨ c = shortyKind a.kind

end Argument

/-! ## Where the arguments go -/

namespace RegisterFile

/-- The first register that comes in. -/
def start (f : RegisterFile Obj) : Nat := f.ic.registersSize - f.ic.insSize

/-- The widths of a receiver and of the arguments. -/
def insOf (isStatic : Bool) (args : List (Argument Obj)) : Nat :=
  (if isStatic then 0 else 1) + (args.map Argument.width).sum

/-- The first register of argument `k`. -/
def argSlot (f : RegisterFile Obj) (isStatic : Bool) (args : List (Argument Obj)) (k : Nat) : Nat :=
  f.start + insOf isStatic (args.take k)

/-- The widths do not fit the method. -/
def Misfit (ic : Layout) (isStatic : Bool) (args : List (Argument Obj)) : Prop :=
  insOf isStatic args ≠ ic.insSize ∨ ic.registersSize < ic.insSize

/-- Each argument is in its registers, and nothing else has changed. -/
structure Packed (f f' : RegisterFile Obj) (isStatic : Bool) (thisObj : Option Obj)
    (args : List (Argument Obj)) : Prop where
  layout : f'.ic = f.ic
  receiver : isStatic = false →
    f'.regs[f.start]? = some (.l thisObj) ∧ f'.regFlags[f.start]? = some true
  argument : ∀ k a, args[k]? = some a →
    f'.regs[f.argSlot isStatic args k]? = some a.dalvik ∧
      f'.regFlags[f.argSlot isStatic args k]? = some a.isObject
  untouched : ∀ s, (isStatic = false → s ≠ f.start) →
    (∀ k < args.length, s ≠ f.argSlot isStatic args k) →
    f'.regs[s]? = f.regs[s]? ∧ f'.regFlags[s]? = f.regFlags[s]?
  below : ∀ s < f.start, f'.regs[s]? = f.regs[s]? ∧ f'.regFlags[s]? = f.regFlags[s]?
  objects : (∀ b ∈ f.regFlags, b = false) → ∀ s,
    f'.regFlags[s]? = some true ↔
      (isStatic = false ∧ s = f.start) ∨
        ∃ k o, args[k]? = some (.object o) ∧ s = f.argSlot isStatic args k

/-- It fails exactly where the widths are not the registers that come in, or these are not there, and
    writes nothing then. Otherwise the arguments are in their registers. -/
structure PacksExactly (f : RegisterFile Obj) (isStatic : Bool) (thisObj : Option Obj)
    (args : List (Argument Obj)) (shorty : List Char) : Prop where
  fails : (f.packRegisters isStatic thisObj (args.map Argument.jvalue) shorty).1 = false ↔
    Misfit f.ic isStatic args
  writesNothing : (f.packRegisters isStatic thisObj (args.map Argument.jvalue) shorty).1 = false →
    (f.packRegisters isStatic thisObj (args.map Argument.jvalue) shorty).2 = f
  packs : (f.packRegisters isStatic thisObj (args.map Argument.jvalue) shorty).1 = true →
    Packed f (f.packRegisters isStatic thisObj (args.map Argument.jvalue) shorty).2 isStatic thisObj args

end RegisterFile

/-! ## What is stored -/

namespace Argument

theorem width_pos (a : Argument Obj) : 0 < a.width := by
  cases a <;> exact Nat.succ_pos _

theorem Fits.slotsOf_eq {c : Char} {a : Argument Obj} (h : Fits c a) : slotsOf c = a.width := by
  rcases h with rfl | rfl <;> cases a <;> rfl

/-- What `packRegisters` reads of a `jvalue` that has the argument is all of it. -/
theorem Fits.putParams_cons {c : Char} {a : Argument Obj} (h : Fits c a) (slot : Nat)
    (shorty : List Char) (args : List (Jvalue Obj)) (f : RegisterFile Obj) :
    RegisterFile.putParams slot (c :: shorty) (a.jvalue :: args) f =
      RegisterFile.putParams (slot + a.width) shorty args (f.putSlot slot a.jvalue a.isObject) := by
  rcases h with rfl | rfl <;> cases a with
  | boolean z => cases z <;> rfl
  | long | double | object => rfl
  | _ => simp [RegisterFile.putParams, kind, shortyKind, typeChar, jvalue, Jvalue.i, Jvalue.j, width, isObject]

/-- Without its sign a number is the same unless it is below zero. -/
theorem jvalue_eq_dalvik_iff (a : Argument Obj) : a.jvalue = a.dalvik ↔ ¬ a.Negative := by
  cases a with
  | byte b =>
    have hword := int8_word_iff b
    rw [show b.toUInt8.toUInt64.toUInt8.toInt8 = b by simp] at hword
    rw [jvalue, dalvik, Jvalue.bits.injEq, Negative, ← hword]
    exact ⟨fun heq => by rw [heq]; simp, fun heq => by rw [heq]; simp⟩
  | short s =>
    have hword := int16_word_iff s
    rw [show s.toUInt16.toUInt64.toUInt16.toInt16 = s by simp] at hword
    rw [jvalue, dalvik, Jvalue.bits.injEq, Negative, ← hword]
    exact ⟨fun heq => by rw [heq]; simp, fun heq => by rw [heq]; simp⟩
  | char c => exact iff_of_true (by simp [jvalue, dalvik]) id
  | _ => exact iff_of_true rfl id

end Argument

/-! ## The loop over the arguments -/

namespace RegisterFile

theorem getElem?_regs_putSlot_self (f : RegisterFile Obj) {s : Nat} (h : s < f.ic.registersSize)
    (v : Jvalue Obj) (obj : Bool) : (f.putSlot s v obj).regs[s]? = some v :=
  List.getElem?_set_self (f.length_regs ▸ h)

theorem getElem?_regFlags_putSlot_self (f : RegisterFile Obj) {s : Nat} (h : s < f.ic.registersSize)
    (v : Jvalue Obj) (obj : Bool) : (f.putSlot s v obj).regFlags[s]? = some obj :=
  List.getElem?_set_self (f.length_regFlags ▸ h)

theorem getElem?_putSlot_of_ne (f : RegisterFile Obj) {s t : Nat} (h : t ≠ s) (v : Jvalue Obj)
    (obj : Bool) :
    (f.putSlot s v obj).regs[t]? = f.regs[t]? ∧ (f.putSlot s v obj).regFlags[t]? = f.regFlags[t]? :=
  ⟨List.getElem?_set_ne h.symm, List.getElem?_set_ne h.symm⟩

/-- Where the loop puts argument `k` when it starts at `slot`. -/
def slotOf (slot : Nat) (args : List (Argument Obj)) (k : Nat) : Nat :=
  slot + ((args.take k).map Argument.width).sum

@[simp] theorem slotOf_zero (slot : Nat) (args : List (Argument Obj)) : slotOf slot args 0 = slot := rfl

theorem slotOf_succ (slot : Nat) (a : Argument Obj) (args : List (Argument Obj)) (k : Nat) :
    slotOf slot (a :: args) (k + 1) = slotOf (slot + a.width) args k := by
  unfold slotOf
  rw [List.take_succ_cons, List.map_cons, List.sum_cons, Nat.add_assoc]

theorem le_slotOf (slot : Nat) (args : List (Argument Obj)) (k : Nat) : slot ≤ slotOf slot args k :=
  Nat.le_add_right _ _

@[simp] theorem ic_putParams (slot : Nat) (shorty : List Char) (args : List (Jvalue Obj))
    (f : RegisterFile Obj) : (putParams slot shorty args f).ic = f.ic := by
  induction shorty generalizing slot args f with
  | nil => rfl
  | cons c shorty ih =>
    cases args with
    | nil => rfl
    | cons v args =>
      rw [putParams]
      split
      · rw [ih]; rfl
      · split
        · rw [ih]; rfl
        · rw [ih]; rfl

/-- The loop leaves all registers alone but the first of each argument. -/
theorem putParams_untouched {chars : List Char} {args : List (Argument Obj)}
    (h : List.Forall₂ Argument.Fits chars args) {slot : Nat} (f : RegisterFile Obj) {s : Nat}
    (hs : ∀ k < args.length, s ≠ slotOf slot args k) :
    (putParams slot chars (args.map Argument.jvalue) f).regs[s]? = f.regs[s]? ∧
      (putParams slot chars (args.map Argument.jvalue) f).regFlags[s]? = f.regFlags[s]? := by
  induction h generalizing slot f with
  | nil => exact ⟨rfl, rfl⟩
  | @cons c a chars args hfit _ ih =>
    have hfirst : s ≠ slot := hs 0 (Nat.succ_pos _)
    have hput := f.getElem?_putSlot_of_ne hfirst a.jvalue a.isObject
    have hrest := @ih (slot + a.width) (f.putSlot slot a.jvalue a.isObject) (by
      intro k hk
      rw [← slotOf_succ]
      exact hs (k + 1) (Nat.succ_lt_succ hk))
    rw [List.map_cons, hfit.putParams_cons]
    exact ⟨hrest.1.trans hput.1, hrest.2.trans hput.2⟩

theorem putParams_argument {chars : List Char} {args : List (Argument Obj)}
    (h : List.Forall₂ Argument.Fits chars args) {slot : Nat} (f : RegisterFile Obj)
    (hsize : slot + (args.map Argument.width).sum ≤ f.ic.registersSize) {k : Nat} {a : Argument Obj}
    (ha : args[k]? = some a) :
    (putParams slot chars (args.map Argument.jvalue) f).regs[slotOf slot args k]? = some a.jvalue ∧
      (putParams slot chars (args.map Argument.jvalue) f).regFlags[slotOf slot args k]? =
        some a.isObject := by
  induction h generalizing slot f k with
  | nil => simp at ha
  | @cons c b chars args hfit hfits ih =>
    have hpos := b.width_pos
    rw [List.map_cons, List.sum_cons] at hsize
    rw [List.map_cons, hfit.putParams_cons]
    cases k with
    | zero =>
      obtain rfl := Option.some.inj ha
      have hlt : slot < f.ic.registersSize := by omega
      -- the arguments behind it are above
      have hrest := @putParams_untouched Obj chars args hfits (slot + b.width)
        (f.putSlot slot b.jvalue b.isObject) slot (by
          intro k _
          have hle := le_slotOf (slot + b.width) args k
          omega)
      rw [slotOf_zero]
      exact ⟨hrest.1.trans (f.getElem?_regs_putSlot_self hlt _ _),
        hrest.2.trans (f.getElem?_regFlags_putSlot_self hlt _ _)⟩
    | succ k =>
      rw [slotOf_succ]
      exact ih (f.putSlot slot b.jvalue b.isObject) (by rw [Nat.add_assoc]; exact hsize) ha

/-! ## `packRegisters` -/

/-- The receiver is put first. -/
def putReceiver (f : RegisterFile Obj) (isStatic : Bool) (thisObj : Option Obj) : RegisterFile Obj :=
  if isStatic then f else f.putSlot f.start (.l thisObj) true

theorem neededSlots_of_fits {chars : List Char} {args : List (Argument Obj)}
    (h : List.Forall₂ Argument.Fits chars args) (r : Char) (isStatic : Bool) :
    neededSlots (r :: chars) isStatic = insOf isStatic args := by
  have hwidths : chars.map slotsOf = args.map Argument.width := by
    induction h with
    | nil => rfl
    | cons hfit _ ih => rw [List.map_cons, List.map_cons, hfit.slotsOf_eq, ih]
  rw [neededSlots, List.tail_cons, hwidths, insOf]

theorem packRegisters_of_misfit {f : RegisterFile Obj} {isStatic : Bool} (thisObj : Option Obj)
    {chars : List Char} {args : List (Argument Obj)} (h : List.Forall₂ Argument.Fits chars args)
    (r : Char) (hmisfit : Misfit f.ic isStatic args) :
    f.packRegisters isStatic thisObj (args.map Argument.jvalue) (r :: chars) = (false, f) := by
  unfold packRegisters
  rw [neededSlots_of_fits h]
  by_cases hneed : insOf isStatic args = f.ic.insSize
  · rw [if_neg (not_not.2 hneed), if_pos (hmisfit.resolve_left (not_not.2 hneed))]
  · rw [if_pos hneed]

theorem packRegisters_of_not_misfit {f : RegisterFile Obj} {isStatic : Bool} (thisObj : Option Obj)
    {chars : List Char} {args : List (Argument Obj)} (h : List.Forall₂ Argument.Fits chars args)
    (r : Char) (hfit : ¬ Misfit f.ic isStatic args) :
    f.packRegisters isStatic thisObj (args.map Argument.jvalue) (r :: chars) =
      (true, putParams (f.argSlot isStatic args 0) chars (args.map Argument.jvalue)
        (f.putReceiver isStatic thisObj)) := by
  obtain ⟨hneed, hsize⟩ := not_or.1 hfit
  unfold packRegisters
  rw [neededSlots_of_fits h, if_neg hneed, if_neg hsize, List.tail_cons]
  cases isStatic <;> rfl

theorem argSlot_eq (f : RegisterFile Obj) (isStatic : Bool) (args : List (Argument Obj)) (k : Nat) :
    f.argSlot isStatic args k = slotOf (f.argSlot isStatic args 0) args k := by
  simp only [argSlot, slotOf, insOf, List.take_zero, List.map_nil, List.sum_nil, Nat.add_zero,
    Nat.add_assoc]

/-- What happens, whatever the arguments are: each register gets the `jvalue`. -/
theorem packRegisters_argument {f : RegisterFile Obj} {isStatic : Bool} (thisObj : Option Obj)
    {chars : List Char} {args : List (Argument Obj)} (h : List.Forall₂ Argument.Fits chars args)
    (r : Char) (hfit : ¬ Misfit f.ic isStatic args) {k : Nat} {a : Argument Obj}
    (ha : args[k]? = some a) :
    (f.packRegisters isStatic thisObj (args.map Argument.jvalue) (r :: chars)).2.regs[
        f.argSlot isStatic args k]? = some a.jvalue ∧
      (f.packRegisters isStatic thisObj (args.map Argument.jvalue) (r :: chars)).2.regFlags[
        f.argSlot isStatic args k]? = some a.isObject := by
  rw [packRegisters_of_not_misfit _ h r hfit, f.argSlot_eq isStatic args k]
  refine putParams_argument h _ ?_ ha
  obtain ⟨hneed, hsize⟩ := not_or.1 hfit
  have hic : (f.putReceiver isStatic thisObj).ic = f.ic := by
    cases isStatic <;> rfl
  rw [hic]
  unfold insOf at hneed
  simp only [argSlot, start, insOf, List.take_zero, List.map_nil, List.sum_nil]
  omega

theorem packRegisters_untouched {f : RegisterFile Obj} {isStatic : Bool} (thisObj : Option Obj)
    {chars : List Char} {args : List (Argument Obj)} (h : List.Forall₂ Argument.Fits chars args)
    (r : Char) (hfit : ¬ Misfit f.ic isStatic args) {s : Nat}
    (hs : ∀ k < args.length, s ≠ f.argSlot isStatic args k) :
    (f.packRegisters isStatic thisObj (args.map Argument.jvalue) (r :: chars)).2.regs[s]? =
        (f.putReceiver isStatic thisObj).regs[s]? ∧
      (f.packRegisters isStatic thisObj (args.map Argument.jvalue) (r :: chars)).2.regFlags[s]? =
        (f.putReceiver isStatic thisObj).regFlags[s]? := by
  rw [packRegisters_of_not_misfit _ h r hfit]
  refine putParams_untouched h _ (fun k hk => ?_)
  rw [← argSlot_eq]
  exact hs k hk

theorem start_lt_argSlot (f : RegisterFile Obj) (args : List (Argument Obj)) (k : Nat) :
    f.start < f.argSlot false args k := by
  simp only [argSlot, insOf]
  simp only [Bool.false_eq_true, if_false]
  omega

theorem start_le_argSlot (f : RegisterFile Obj) (isStatic : Bool) (args : List (Argument Obj))
    (k : Nat) : f.start ≤ f.argSlot isStatic args k :=
  Nat.le_add_right _ _

theorem putReceiver_untouched (f : RegisterFile Obj) {isStatic : Bool} (thisObj : Option Obj) {s : Nat}
    (hs : isStatic = false → s ≠ f.start) :
    (f.putReceiver isStatic thisObj).regs[s]? = f.regs[s]? ∧
      (f.putReceiver isStatic thisObj).regFlags[s]? = f.regFlags[s]? := by
  cases isStatic with
  | true => exact ⟨rfl, rfl⟩
  | false => exact f.getElem?_putSlot_of_ne (hs rfl) _ _

theorem not_object_of_clear {f : RegisterFile Obj} (hclear : ∀ b ∈ f.regFlags, b = false) (s : Nat) :
    f.regFlags[s]? ≠ some true :=
  fun h => Bool.noConfusion (hclear true (List.mem_of_getElem? h))

section Packed

variable {f : RegisterFile Obj} {isStatic : Bool} {thisObj : Option Obj} {chars : List Char}
  {args : List (Argument Obj)}

/-- A register that is no receiver's and no argument's is as it was. -/
theorem packRegisters_frame (h : List.Forall₂ Argument.Fits chars args) (r : Char)
    (hfit : ¬ Misfit f.ic isStatic args) {s : Nat} (hreceiver : isStatic = false → s ≠ f.start)
    (hs : ∀ k < args.length, s ≠ f.argSlot isStatic args k) :
    (f.packRegisters isStatic thisObj (args.map Argument.jvalue) (r :: chars)).2.regs[s]? = f.regs[s]? ∧
      (f.packRegisters isStatic thisObj (args.map Argument.jvalue) (r :: chars)).2.regFlags[s]? =
        f.regFlags[s]? := by
  have hloop := packRegisters_untouched thisObj h r hfit hs
  have hput := f.putReceiver_untouched thisObj hreceiver
  exact ⟨hloop.1.trans hput.1, hloop.2.trans hput.2⟩

theorem packRegisters_receiver (h : List.Forall₂ Argument.Fits chars args) (r : Char)
    (hfit : ¬ Misfit f.ic isStatic args) (hstatic : isStatic = false) :
    (f.packRegisters isStatic thisObj (args.map Argument.jvalue) (r :: chars)).2.regs[f.start]? =
        some (.l thisObj) ∧
      (f.packRegisters isStatic thisObj (args.map Argument.jvalue) (r :: chars)).2.regFlags[f.start]? =
        some true := by
  obtain rfl := hstatic
  obtain ⟨hneed, hsize⟩ := not_or.1 hfit
  have hloop := packRegisters_untouched thisObj h r hfit
    (fun k _ => Nat.ne_of_lt (f.start_lt_argSlot args k))
  have hlt : f.start < f.ic.registersSize := by
    simp only [insOf, Bool.false_eq_true, if_false] at hneed
    unfold start
    omega
  exact ⟨hloop.1.trans (f.getElem?_regs_putSlot_self hlt _ _),
    hloop.2.trans (f.getElem?_regFlags_putSlot_self hlt _ _)⟩

/-- From no flag set, the flags that are set in the end are those of the receiver and of the objects. -/
theorem packRegisters_flag_iff (h : List.Forall₂ Argument.Fits chars args) (r : Char)
    (hfit : ¬ Misfit f.ic isStatic args) (hclear : ∀ b ∈ f.regFlags, b = false) (s : Nat) :
    (f.packRegisters isStatic thisObj (args.map Argument.jvalue) (r :: chars)).2.regFlags[s]? = some true ↔
      (isStatic = false ∧ s = f.start) ∨
        ∃ k o, args[k]? = some (.object o) ∧ s = f.argSlot isStatic args k := by
  constructor
  · intro hflag
    by_contra hno
    obtain ⟨hthis, hobject⟩ := not_or.1 hno
    by_cases harg : ∃ k < args.length, s = f.argSlot isStatic args k
    · obtain ⟨k, hk, rfl⟩ := harg
      rw [(packRegisters_argument _ h r hfit (List.getElem?_eq_getElem hk)).2] at hflag
      refine hobject ⟨k, ?_⟩
      rw [List.getElem?_eq_getElem hk]
      cases hkind : args[k] with
      | object o => exact ⟨o, rfl, rfl⟩
      | _ => rw [hkind] at hflag; simp [Argument.isObject] at hflag
    · push Not at harg
      rw [(packRegisters_frame h r hfit (fun hstatic heq => hthis ⟨hstatic, heq⟩) harg).2] at hflag
      exact not_object_of_clear hclear s hflag
  · rintro (⟨hstatic, rfl⟩ | ⟨k, o, hk, rfl⟩)
    · exact (packRegisters_receiver h r hfit hstatic).2
    · exact (packRegisters_argument _ h r hfit hk).2

/-- The registers, when no argument is below zero in a type smaller than a register. -/
theorem packed_packRegisters (h : List.Forall₂ Argument.Fits chars args) (r : Char)
    (hfit : ¬ Misfit f.ic isStatic args) (hargs : ∀ a ∈ args, ¬ a.Negative) :
    Packed f (f.packRegisters isStatic thisObj (args.map Argument.jvalue) (r :: chars)).2 isStatic
      thisObj args := by
  refine ⟨?_, packRegisters_receiver h r hfit, ?_, fun s => packRegisters_frame h r hfit, ?_, ?_⟩
  · rw [packRegisters_of_not_misfit _ h r hfit, ic_putParams]
    cases isStatic <;> rfl
  · intro k a ha
    rw [← (a.jvalue_eq_dalvik_iff).2 (hargs a (List.mem_of_getElem? ha))]
    exact packRegisters_argument _ h r hfit ha
  · intro s hs
    refine packRegisters_frame h r hfit (fun _ => Nat.ne_of_lt hs) (fun k _ => ?_)
    exact Nat.ne_of_lt (Nat.lt_of_lt_of_le hs (f.start_le_argSlot isStatic args k))
  · exact packRegisters_flag_iff h r hfit

end Packed

/-- For every shorty and arguments that it stands for, every frame and receiver: the arguments are packed
    exactly iff the widths do not fit or no argument is a `byte` or a `short` below zero. -/
theorem packsExactly_iff (f : RegisterFile Obj) (isStatic : Bool) (thisObj : Option Obj) (r : Char)
    {chars : List Char} {args : List (Argument Obj)} (h : List.Forall₂ Argument.Fits chars args) :
    f.PacksExactly isStatic thisObj args (r :: chars) ↔
      Misfit f.ic isStatic args ∨ ∀ a ∈ args, ¬ a.Negative := by
  by_cases hfit : Misfit f.ic isStatic args
  · have hpack := packRegisters_of_misfit thisObj h r hfit
    refine iff_of_true ⟨?_, ?_, ?_⟩ (Or.inl hfit)
    · rw [hpack]
      exact iff_of_true rfl hfit
    · rw [hpack]
      exact fun _ => rfl
    · rw [hpack]
      exact fun hfail => Bool.noConfusion hfail
  · have hpack := packRegisters_of_not_misfit thisObj h r hfit
    rw [or_iff_right hfit]
    constructor
    · intro hexact a ha
      obtain ⟨k, hk⟩ := List.getElem?_of_mem ha
      have hpacked := hexact.packs (by rw [hpack])
      have hstored := (packRegisters_argument thisObj h r hfit hk).1
      exact (a.jvalue_eq_dalvik_iff).1
        (Option.some.inj (hstored.symm.trans (hpacked.argument k a hk).1))
    · intro hargs
      refine ⟨?_, ?_, fun _ => packed_packRegisters h r hfit hargs⟩
      · rw [hpack]
        exact iff_of_false Bool.noConfusion hfit
      · rw [hpack]
        exact fun hfail => Bool.noConfusion hfail

/-- An `int`, a `long`, a `byte` and a receiver: five registers of seven. -/
theorem packsExactly_fresh :
    (fresh ⟨7, 5⟩ : RegisterFile Nat).PacksExactly false (some 1) [.int (-1), .long (-1), .byte 1]
      ['V', 'I', 'J', 'I'] :=
  (packsExactly_iff (fresh ⟨7, 5⟩) false (some 1) 'V'
    (.cons (Or.inl rfl) (.cons (Or.inl rfl) (.cons (Or.inr rfl) .nil)))).2
    (Or.inr (by simp [Argument.Negative]))

/-- Of the `byte` -1 the register gets 255. -/
theorem not_packsExactly_byte :
    ¬ (fresh ⟨1, 1⟩ : RegisterFile Nat).PacksExactly true none [.byte (-1)] ['V', 'I'] := by
  intro hexact
  have hstored := ((hexact.packs rfl).argument 0 (.byte (-1)) rfl).1
  exact absurd hstored (by decide)

/-! ## The list of registers -/

def register (v : Jvalue Obj) (obj : Bool) : Register Obj := if obj then .object v.ref else .value v.j

def registers (f : RegisterFile Obj) : List (Register Obj) := List.zipWith register f.regs f.regFlags

theorem registers_putSlot (f : RegisterFile Obj) (s : Nat) (v : Jvalue Obj) (obj : Bool) :
    (f.putSlot s v obj).registers = f.registers.set s (register v obj) := by
  apply List.ext_getElem?
  intro t
  by_cases h : t = s
  · subst h
    have hlen : f.regs.length = f.regFlags.length := f.length_regs.trans f.length_regFlags.symm
    by_cases hlt : t < f.regFlags.length
    · simp [registers, putSlot, hlen, hlt]
    · simp [registers, putSlot, hlen, hlt]
  · have hput := f.getElem?_putSlot_of_ne h v obj
    rw [List.getElem?_set_ne (Ne.symm h), registers, registers, List.getElem?_zipWith,
      List.getElem?_zipWith, hput.1, hput.2]

/-- A write in front of zeros: `w` of them are then taken. -/
theorem registers_putSlot_replicate {f : RegisterFile Obj} {pre : List (Register Obj)} {w n : Nat}
    (h : f.registers = pre ++ List.replicate (w + 1 + n) (.value 0)) (v : Jvalue Obj) (obj : Bool) :
    (f.putSlot pre.length v obj).registers =
      (pre ++ register v obj :: List.replicate w (.value 0)) ++ List.replicate n (.value 0) := by
  rw [registers_putSlot, h, List.set_append_right _ _ (Nat.le_refl _), Nat.sub_self,
    Nat.add_right_comm, List.replicate_succ, List.set_cons_zero, List.replicate_add, List.append_assoc,
    List.cons_append]

/-- The loop fills zero registers with what `packParams` lists. -/
theorem registers_putParams {shorty : List Char} {args : List (Jvalue Obj)}
    (hlen : args.length = shorty.length) {pre : List (Register Obj)} {f : RegisterFile Obj}
    (h : f.registers = pre ++ List.replicate (shorty.map slotsOf).sum (.value 0)) :
    (putParams pre.length shorty args f).registers = pre ++ packParams shorty args := by
  induction shorty generalizing args pre f with
  | nil =>
    obtain rfl := List.length_eq_zero_iff.1 hlen
    exact h
  | cons c shorty ih =>
    obtain ⟨v, args, rfl⟩ := List.exists_cons_of_length_eq_add_one hlen
    rw [List.length_cons, List.length_cons, Nat.add_right_cancel_iff] at hlen
    rw [List.map_cons, List.sum_cons, slotsOf] at h
    rw [putParams, packParams, packParam]
    by_cases hwide : c = 'J' ∨ c = 'D'
    · rw [if_pos hwide] at h
      have hrest := ih hlen (registers_putSlot_replicate (w := 1) h (.bits v.j) false)
      rw [List.length_append] at hrest
      rw [if_pos hwide, if_pos hwide]
      exact hrest.trans (List.append_assoc _ _ _)
    · rw [if_neg hwide] at h
      rw [if_neg hwide, if_neg hwide]
      by_cases href : c = 'L'
      · have hrest := ih hlen (registers_putSlot_replicate (w := 0) h (.l v.ref) true)
        rw [List.length_append] at hrest
        rw [if_pos href, if_pos href]
        exact hrest.trans (List.append_assoc _ _ _)
      · have hrest := ih hlen (registers_putSlot_replicate (w := 0) h (.bits v.i.toUInt64) false)
        rw [List.length_append] at hrest
        rw [if_neg href, if_neg href]
        exact hrest.trans (List.append_assoc _ _ _)

theorem registers_fresh (ic : Layout) :
    (fresh ic : RegisterFile Obj).registers = List.replicate ic.registersSize (.value 0) := by
  unfold registers fresh
  rw [List.zipWith_replicate, Nat.min_self]
  rfl

theorem registers_putReceiver {ic : Layout} {isStatic : Bool} {shorty : List Char}
    (hneed : neededSlots shorty isStatic = ic.insSize) (hsize : ic.insSize ≤ ic.registersSize)
    (thisObj : Option Obj) :
    ((fresh ic).putReceiver isStatic thisObj).registers =
      (List.replicate (ic.registersSize - ic.insSize) (.value 0) ++
        if isStatic then [] else [.object thisObj]) ++
        List.replicate (shorty.tail.map slotsOf).sum (.value 0) := by
  have hzeros := @registers_fresh Obj ic
  rw [← Nat.sub_add_cancel hsize, ← hneed, neededSlots, List.replicate_add] at hzeros
  cases isStatic with
  | true =>
    rw [if_pos rfl, Nat.zero_add] at hzeros
    rw [if_pos rfl, List.append_nil, putReceiver, if_pos rfl, hzeros, ← hneed, neededSlots, if_pos rfl,
      Nat.zero_add]
  | false =>
    have hput := registers_putSlot_replicate (w := 0) hzeros (.l thisObj) true
    have hslots : (if false = true then 0 else 1) + (shorty.tail.map slotsOf).sum = ic.insSize := hneed
    rw [List.length_replicate, hslots] at hput
    exact hput

/-- On the registers as `buildVmCode` leaves them the writes give what the list of them says. -/
theorem registers_packRegisters {ic : Layout} {isStatic : Bool} {thisObj : Option Obj}
    {args : List (Jvalue Obj)} {shorty : List Char} (hlen : args.length = shorty.tail.length) :
    Sandbox.packRegisters ic isStatic thisObj args shorty =
      if ((fresh ic).packRegisters isStatic thisObj args shorty).1 then
        some ((fresh ic).packRegisters isStatic thisObj args shorty).2.registers
      else none := by
  have hic : (fresh ic : RegisterFile Obj).ic = ic := rfl
  have hslots : (if isStatic then 0 else 1) + (shorty.tail.map slotsOf).sum =
      neededSlots shorty isStatic := rfl
  unfold Sandbox.packRegisters packRegisters
  rw [hslots, hic]
  by_cases hneed : neededSlots shorty isStatic = ic.insSize
  · by_cases hsize : ic.registersSize < ic.insSize
    · simp [hneed, hsize]
    · have hloop := registers_putParams hlen
        (registers_putReceiver hneed (Nat.le_of_not_lt hsize) thisObj)
      rw [List.length_append, List.length_replicate, List.append_assoc] at hloop
      simp only [hneed, hsize, ne_eq, not_true_eq_false, if_false]
      rw [← hloop]
      cases isStatic <;> rfl
  · simp [hneed]

end RegisterFile

end ArtPi.Sandbox
