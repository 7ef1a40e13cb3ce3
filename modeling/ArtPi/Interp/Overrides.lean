import ArtPi.Dex.Scanners
import ArtPi.Frame.Original

set_option autoImplicit false

/-! # Overrides of a callback (`src/sandbox/pi_interp_tracer.h`, `src/sandbox/pi_interp_tracer.cpp`)

A callback replaces an argument with `setArg` and the result with `mock`. Both erase the type of the value to 64
bits, a floating-point number to those of a `double`, and `setArgValue` and `mockValue` go by the declared type to write
a member of a `jvalue`. They never convert: a `double` meant for a `float` gives its lower half, an integer its own
bits, and of a member that is narrower than a register the rest is what the slot held before. `overrides_stored_iff`
says of which values, types and slots the register gets the converted value all the same. -/

namespace ArtPi.Interp.Overrides

open ArtPi.Lib ArtPi.Dex ArtPi.Frame

/-! ## The values -/

/-- The numbers of the templates: an integer of any integral type, and the bits of a `float` or `double`. -/
inductive Number where
  | bool (b : Bool)
  | integer (v : Int)
  | float (bits : UInt32)
  | double (bits : UInt64)
  deriving DecidableEq

/-- What a callback may pass: a number, a reference or any other pointer, and the address of a text. -/
inductive Value where
  | number (n : Number)
  | object (r : Nat)
  | text (p : Nat)
  deriving DecidableEq

inductive DetailArgKind where
  | int
  | fp
  | object
  deriving DecidableEq

/-- The lower `w` bits of an integer. -/
def low (w : Nat) (x : Int) : Nat := (x % 2 ^ w).toNat

namespace Number

def kind : Number → DetailArgKind
  | .bool _ | .integer _ => .int
  | .float _ | .double _ => .fp

/-- The 64 bits that a number is passed as. -/
def raw : Number → Nat
  | .bool b => if b then 1 else 0
  | .integer v => low 64 v
  | .float bits => singleToDouble bits.toNat
  | .double bits => bits.toNat

end Number

/-- The references of an environment, each with its object; null has none. `NewStringUTF` makes a new string, of null
it makes null. -/
structure Env (Obj : Type) where
  object : Nat → Option Obj
  newStringUTF : Nat → Nat
  object_null : object 0 = none
  newStringUTF_null : newStringUTF 0 = 0
  newStringUTF_new : ∀ p, p ≠ 0 → object (newStringUTF p) ≠ none
  newStringUTF_lt : ∀ p, newStringUTF p < 2 ^ 64

variable {Obj : Type}

/-- Pointers have 64 bits, and the address of a text is no reference. -/
def Env.Proper (env : Env Obj) : Value → Prop
  | .number _ => True
  | .object r => r < 2 ^ 64
  | .text p => p < 2 ^ 64 ∧ env.object p = none

/-! ## The stores -/

def paramTypeChar (signature : List Char) (index : Nat) : Char := (parseSigTypes signature).1.getD index 'I'

def returnTypeChar (signature : List Char) : Char := (parseSigTypes signature).2

/-- The last `switch` of `setArgValue` and of `mockValue`. -/
def storeInteger (t : Char) (raw slot : Nat) : Nat :=
  match t with
  | 'J' => setMember 64 raw slot
  | 'Z' => setMember 8 raw slot
  | 'B' => setMember 8 raw slot
  | 'C' => setMember 16 raw slot
  | 'S' => setMember 16 raw slot
  | _ => setMember 32 raw slot

/-- The branch of floating-point numbers of both. -/
def storeFloating (t : Char) (raw slot : Nat) : Nat :=
  if t = 'F' then setMember 32 raw slot else setMember 64 raw slot

def setArgValue (signature : List Char) (index slot : Nat) (kind : DetailArgKind) (raw : Nat) : Nat :=
  let t := paramTypeChar signature index
  if kind = .object then setMember 64 raw slot
  else if kind = .fp then storeFloating t raw slot
  else storeInteger t raw slot

def mockValue (signature : List Char) (slot : Nat) (kind : DetailArgKind) (raw : Nat) : Nat :=
  let t := if returnTypeChar signature = 'V' then 'I' else returnTypeChar signature
  if kind = .object ∨ t = 'L' then setMember 64 raw slot
  else if kind = .fp ∨ t = 'D' ∨ t = 'F' then storeFloating t raw slot
  else storeInteger t raw slot

/-- What the overrides use of an `InvokeEvent`; `argc` is the number of arguments. -/
structure InvokeEvent where
  signature : List Char
  args : List Nat

namespace InvokeEvent

/-- The branches of the template `setArg`. -/
def setSlot (env : Env Obj) (ev : InvokeEvent) (index slot : Nat) : Value → Nat
  | .text p => setArgValue ev.signature index slot .object (env.newStringUTF p)
  | .object r => setArgValue ev.signature index slot .object r
  | .number n => setArgValue ev.signature index slot n.kind n.raw

def setArg (env : Env Obj) (ev : InvokeEvent) (index : Int) (v : Value) : InvokeEvent :=
  if index < 0 ∨ (ev.args.length : Int) ≤ index then ev
  else { ev with args := ev.args.modify index.toNat fun slot => ev.setSlot env index.toNat slot v }

/-- What `mock` makes of `*mockRet`. -/
def mock (ev : InvokeEvent) (mockRet : Nat) : Value → Nat
  | .number (.bool b) => setMember 8 (if b then 1 else 0) mockRet
  | .object p | .text p => setMember 64 p mockRet
  | .number n => mockValue ev.signature mockRet n.kind n.raw

end InvokeEvent

/-! ## The registers -/

/-- What is in the register of a value, or in the two of a wide one. -/
inductive Contents (Obj : Type) where
  | narrow (n : Nat)
  | wide (n : Nat)
  | object (o : Option Obj)
  deriving DecidableEq

/-- A number of `w` bits in a register, with its sign. -/
def sext (w n : Nat) : Nat :=
  if n % 2 ^ w < 2 ^ (w - 1) then n % 2 ^ w else n % 2 ^ w + (2 ^ 32 - 2 ^ w)

/-- Who takes the arguments out of the `jvalue`s: `packRegisters` for the interpreter, or the runtime that
`Call*MethodA` leads to. -/
inductive Reader where
  | interpreter
  | runtime
  deriving DecidableEq

/-- How many bits of an entry each of them takes for an integral type. -/
def Reader.bits (reader : Reader) (w : Nat) : Nat :=
  match reader with
  | .interpreter => 32
  | .runtime => w

/-- The registers of a parameter. The interpreter has one case for all types that take one register, `move-result` has
the same one. -/
def register (env : Env Obj) (reader : Reader) (t : Char) (slot : Nat) : Contents Obj :=
  match t with
  | 'J' | 'D' => .wide (member 64 slot)
  | 'L' => .object (env.object (member 64 slot))
  | _ =>
    match reader with
    | .interpreter => .narrow (member 32 slot)
    | .runtime =>
      match t with
      | 'Z' => .narrow (member 8 slot)
      | 'B' => .narrow (sext 8 slot)
      | 'C' => .narrow (member 16 slot)
      | 'S' => .narrow (sext 16 slot)
      | _ => .narrow (member 32 slot)

/-! ## The conversions -/

namespace Number

def IsZero : Number → Prop
  | .bool b => b = false
  | .integer v => v = 0
  | .float bits => bits.toNat % 2 ^ 31 = 0
  | .double bits => bits.toNat % 2 ^ 63 = 0

instance decidableIsZero : (n : Number) → Decidable n.IsZero
  | .bool b => inferInstanceAs (Decidable (b = false))
  | .integer v => inferInstanceAs (Decidable (v = 0))
  | .float bits => inferInstanceAs (Decidable (bits.toNat % 2 ^ 31 = 0))
  | .double bits => inferInstanceAs (Decidable (bits.toNat % 2 ^ 63 = 0))

/-- The number as an integer; a fraction is cut to one of `w` bits. -/
def toInteger (w : Nat) : Number → Int
  | .bool b => if b then 1 else 0
  | .integer v => v
  | .float bits => doubleToInt w (singleToDouble bits.toNat)
  | .double bits => doubleToInt w bits.toNat

def toFloat : Number → Nat
  | .bool b => intToSingleBits (if b then 1 else 0)
  | .integer v => intToSingleBits v
  | .float bits => bits.toNat
  | .double bits => doubleToSingle bits.toNat

def toDouble : Number → Nat
  | .bool b => intToDoubleBits (if b then 1 else 0)
  | .integer v => intToDoubleBits v
  | .float bits => singleToDouble bits.toNat
  | .double bits => bits.toNat

/-- The registers of a number that is converted to a primitive type. -/
def converted (n : Number) (t : Char) : Option (Contents Obj) :=
  match t with
  | 'Z' => some (.narrow (if n.IsZero then 0 else 1))
  | 'B' => some (.narrow (sext 8 (low 8 (n.toInteger 32))))
  | 'C' => some (.narrow (low 16 (n.toInteger 32)))
  | 'S' => some (.narrow (sext 16 (low 16 (n.toInteger 32))))
  | 'I' => some (.narrow (low 32 (n.toInteger 32)))
  | 'J' => some (.wide (low 64 (n.toInteger 64)))
  | 'F' => some (.narrow n.toFloat)
  | 'D' => some (.wide n.toDouble)
  | _ => none

end Number

/-- The registers of a value that is converted to a type. A number is no object, and an object no number. -/
def converted (env : Env Obj) (t : Char) : Value → Option (Contents Obj)
  | .number n => n.converted t
  | .object r => if t = 'L' then some (.object (env.object r)) else none
  | .text p => if t = 'L' then some (.object (env.object (env.newStringUTF p))) else none

/-- The argument register gets the converted value, if there is one. -/
def InvokeEvent.ArgumentStored (env : Env Obj) (reader : Reader) (ev : InvokeEvent) (index : Nat) (t : Char)
    (v : Value) : Prop :=
  ∀ c, converted env t v = some c →
    ∃ slot, (ev.setArg env index v).args[index]? = some slot ∧ register env reader t slot = c

/-- The result register gets it; `TRACED_INVOKE` has cleared the `jvalue` before. -/
def InvokeEvent.ResultStored (env : Env Obj) (ev : InvokeEvent) (t : Char) (v : Value) : Prop :=
  ∀ c, converted env t v = some c → register env .interpreter t (ev.mock 0 v) = c

/-! ## The condition -/

/-- What the interpreter reads above a member of `w` bits is the sign of the number. -/
def Above (reader : Reader) (w old : Nat) (negative : Prop) [Decidable negative] : Prop :=
  reader = .interpreter → member 32 old / 2 ^ w = if negative then 2 ^ (32 - w) - 1 else 0

/-- Of an integer `x`, where the slot was `old`. -/
def IntegerKept (reader : Reader) (t : Char) (old : Nat) (x : Int) : Prop :=
  match t with
  | 'Z' => low 8 x = (if x = 0 then 0 else 1) ∧ Above reader 8 old False
  | 'B' => Above reader 8 old (2 ^ 7 ≤ low 8 x)
  | 'C' => Above reader 16 old False
  | 'S' => Above reader 16 old (2 ^ 15 ≤ low 16 x)
  | 'F' => low 32 x = intToSingleBits x
  | 'D' => member 64 old / 2 ^ 32 * 2 ^ 32 + low 32 x = intToDoubleBits x
  | _ => True

/-- Of a floating-point number: as many of its bits as are read are those of the number it is converted to. -/
def FloatingKept (reader : Reader) (t : Char) (n : Number) : Prop :=
  match t with
  | 'Z' => member (reader.bits 8) n.raw = if n.IsZero then 0 else 1
  | 'B' => member (reader.bits 8) n.raw = member (reader.bits 8) (sext 8 (low 8 (n.toInteger 32)))
  | 'C' => member (reader.bits 16) n.raw = low 16 (n.toInteger 32)
  | 'S' => member (reader.bits 16) n.raw = member (reader.bits 16) (sext 16 (low 16 (n.toInteger 32)))
  | 'I' => member 32 n.raw = low 32 (n.toInteger 32)
  | 'J' => n.raw = low 64 (n.toInteger 64)
  | 'F' =>
    match n with
    | .float bits => bits = 0
    | _ => member 32 n.raw = n.toFloat
  | _ => True

def ArgumentKept (reader : Reader) (t : Char) (old : Nat) : Value → Prop
  | .number (.bool b) => IntegerKept reader t old (if b then 1 else 0)
  | .number (.integer v) => IntegerKept reader t old v
  | .number n => FloatingKept reader t n
  | .object _ | .text _ => True

/-- The result is read as the interpreter reads arguments, from a slot that was zero. For a `double` all bits of an
integer are stored; of a `bool`, one byte for any type. A text is taken for a reference. -/
def ResultKept (t : Char) : Value → Prop
  | .number (.bool b) => t = 'F' ∨ t = 'D' → b = false
  | .number (.integer v) => if t = 'D' then low 64 v = intToDoubleBits v else IntegerKept .interpreter t 0 v
  | .number n => FloatingKept .interpreter t n
  | .object _ => True
  | .text p => t = 'L' → p = 0

/-! ## Bits -/

theorem low_low {k w : Nat} (h : k ≤ w) (x : Int) : low w x % 2 ^ k = low k x := by
  have hw : (0 : Int) < 2 ^ w := Int.pow_pos (by omega)
  have hcast : ((low w x % 2 ^ k : Nat) : Int) = x % 2 ^ k := by
    unfold low
    rw [Int.natCast_mod, Int.toNat_of_nonneg (Int.emod_nonneg _ hw.ne')]
    exact_mod_cast Int.emod_emod_of_dvd x (pow_dvd_pow (2 : Int) h)
  have hlow : low k x = (x % 2 ^ k).toNat := rfl
  rw [hlow, ← hcast, Int.toNat_natCast]

theorem low_lt (w : Nat) (x : Int) : low w x < 2 ^ w := by
  have h := low_low (Nat.le_refl w) x
  rw [← h]
  exact Nat.mod_lt _ (Nat.two_pow_pos w)

theorem signBits_eq {w : Nat} (hw : w ≤ 32) : 2 ^ 32 - 2 ^ w = (2 ^ (32 - w) - 1) * 2 ^ w := by
  rw [Nat.sub_mul, ← Nat.pow_add, Nat.sub_add_cancel hw, Nat.one_mul]

theorem add_eq_sext_iff {w : Nat} (hw : w ≤ 32) (q : Nat) {n : Nat} (hn : n < 2 ^ w) :
    q * 2 ^ w + n = sext w n ↔ q = if 2 ^ (w - 1) ≤ n then 2 ^ (32 - w) - 1 else 0 := by
  have hpos := Nat.two_pow_pos w
  unfold sext
  rw [Nat.mod_eq_of_lt hn]
  by_cases hneg : 2 ^ (w - 1) ≤ n
  · rw [if_pos hneg, if_neg (Nat.not_lt.2 hneg), signBits_eq hw, Nat.add_comm n, Nat.add_right_cancel_iff,
      Nat.mul_right_cancel_iff hpos]
  · rw [if_neg hneg, if_pos (Nat.not_le.1 hneg)]
    constructor
    · intro h
      exact (Nat.mul_eq_zero.1 (by omega)).resolve_right hpos.ne'
    · rintro rfl
      omega

theorem sext_mod {w : Nat} (hw : w ≤ 32) (n : Nat) : sext w n % 2 ^ w = n % 2 ^ w := by
  unfold sext
  split
  · exact Nat.mod_mod n _
  · rw [signBits_eq hw, Nat.add_mul_mod_self_right, Nat.mod_mod]

theorem sext_eq_iff {w : Nat} (hw : w ≤ 32) (n k : Nat) : sext w n = sext w k ↔ n % 2 ^ w = k % 2 ^ w := by
  constructor
  · intro h
    rw [← sext_mod hw n, h, sext_mod hw]
  · intro h
    unfold sext
    rw [h]

theorem sext_lt {w : Nat} (hw : w ≤ 32) (n : Nat) : sext w n < 2 ^ 32 := by
  have hpow : 2 ^ w ≤ 2 ^ 32 := Nat.pow_le_pow_right (by omega) hw
  have hn : n % 2 ^ w < 2 ^ w := Nat.mod_lt _ (Nat.two_pow_pos w)
  unfold sext
  split <;> omega

theorem add_eq_iff {w q n k : Nat} (hn : n < 2 ^ w) (hk : k < 2 ^ w) : q * 2 ^ w + n = k ↔ n = k ∧ q = 0 := by
  constructor
  · intro h
    have hq : q = 0 := by
      have hdiv : (q * 2 ^ w + n) / 2 ^ w = k / 2 ^ w := congrArg (· / 2 ^ w) h
      rwa [Nat.mul_comm, Nat.mul_add_div (Nat.two_pow_pos w), Nat.div_eq_of_lt hn, Nat.div_eq_of_lt hk] at hdiv
    rw [hq, Nat.zero_mul, Nat.zero_add] at h
    exact ⟨h, hq⟩
  · rintro ⟨rfl, rfl⟩
    rw [Nat.zero_mul, Nat.zero_add]

theorem above_interpreter (w old : Nat) (negative : Prop) [Decidable negative] :
    Above .interpreter w old negative ↔ member 32 old / 2 ^ w = if negative then 2 ^ (32 - w) - 1 else 0 :=
  ⟨fun h => h rfl, fun h _ => h⟩

theorem above_runtime (w old : Nat) (negative : Prop) [Decidable negative] : Above .runtime w old negative :=
  nofun

/-- What is read of an integer that was stored, no more than was stored. -/
theorem member_low {k w : Nat} (hk : k ≤ w) (hw : w ≤ 64) (x : Int) (old : Nat) :
    member k (setMember w (low 64 x) old) = low k x := by
  rw [CallFrame.member_setMember hk, low_low (Nat.le_trans hk hw)]

theorem member_low_of_le {k w : Nat} (hk : w ≤ k) (hw : w ≤ 64) (x : Int) (old : Nat) :
    member k (setMember w (low 64 x) old) = member k old / 2 ^ w * 2 ^ w + low w x := by
  rw [CallFrame.member_setMember_of_le hk, low_low hw]

theorem unsigned_iff (reader : Reader) {w : Nat} (hw : w ≤ 32) (x : Int) (old : Nat) {n : Nat} (hn : n < 2 ^ w) :
    member (reader.bits w) (setMember w (low 64 x) old) = n ↔ low w x = n ∧ Above reader w old False := by
  cases reader with
  | interpreter =>
    have hread := @member_low_of_le 32 w hw (by omega) x old
    rw [Reader.bits, hread, add_eq_iff (low_lt w x) hn, above_interpreter, if_neg not_false]
  | runtime =>
    rw [Reader.bits, member_low (Nat.le_refl w) (by omega), and_iff_left (above_runtime w old False)]

/-- A signed number of `w` bits, as each of them reads it. -/
def Reader.signed (reader : Reader) (w slot : Nat) : Nat :=
  match reader with
  | .interpreter => member 32 slot
  | .runtime => sext w slot

theorem signed_iff (reader : Reader) {w : Nat} (hw : w ≤ 32) (x : Int) (old : Nat) :
    reader.signed w (setMember w (low 64 x) old) = sext w (low w x) ↔
      Above reader w old (2 ^ (w - 1) ≤ low w x) := by
  cases reader with
  | interpreter =>
    have hread := @member_low_of_le 32 w hw (by omega) x old
    rw [Reader.signed, hread, add_eq_sext_iff hw _ (low_lt w x), above_interpreter]
  | runtime =>
    have hread : setMember w (low 64 x) old % 2 ^ w = low w x := member_low (Nat.le_refl w) (by omega) x old
    refine iff_of_true ?_ (above_runtime w old _)
    rw [Reader.signed, sext_eq_iff hw, hread, Nat.mod_eq_of_lt (low_lt w x)]

/-! ## The types -/

theorem kindOf_cases {t : List Char} (h : FieldType t) :
    kindOf t ∈ fieldPrimitives ∨ kindOf t = 'L' := by
  cases h with
  | @primitive c hc =>
    left
    rwa [kindOf_primitive hc]
  | object => exact Or.inr rfl
  | array => exact Or.inr rfl

/-! ## Numbers -/

variable (env : Env Obj)

theorem narrow_eq_iff {m n : Nat} : (Contents.narrow m : Contents Obj) = .narrow n ↔ m = n := by
  rw [Contents.narrow.injEq]

theorem wide_eq_iff {m n : Nat} : (Contents.wide m : Contents Obj) = .wide n ↔ m = n := by
  rw [Contents.wide.injEq]

theorem register_storeInteger_iff (reader : Reader) {t : Char} (ht : t ∈ fieldPrimitives) (x : Int) (old : Nat)
    {c : Contents Obj} (hc : (Number.integer x).converted t = some c) :
    register env reader t (storeInteger t (low 64 x) old) = c ↔ IntegerKept reader t old x := by
  simp only [fieldPrimitives, List.mem_cons, List.not_mem_nil, or_false] at ht
  rcases ht with rfl | rfl | rfl | rfl | rfl | rfl | rfl | rfl
  all_goals obtain rfl := Option.some.inj hc
  · -- `boolean`
    have h := @unsigned_iff reader 8 (by omega) x old (if x = 0 then 0 else 1) (by split <;> omega)
    cases reader <;> exact narrow_eq_iff.trans h
  · -- `byte`
    have h := @signed_iff reader 8 (by omega) x old
    cases reader <;> exact narrow_eq_iff.trans h
  · -- `short`
    have h := @signed_iff reader 16 (by omega) x old
    cases reader <;> exact narrow_eq_iff.trans h
  · -- `char`
    have h := @unsigned_iff reader 16 (by omega) x old _ (low_lt 16 x)
    rw [eq_self_iff_true, true_and] at h
    cases reader <;> exact narrow_eq_iff.trans h
  · -- `int`
    have h := @member_low 32 32 (by omega) (by omega) x old
    cases reader <;> exact narrow_eq_iff.trans (iff_of_true h trivial)
  · -- `long`
    have h := @member_low 64 64 (by omega) (by omega) x old
    exact wide_eq_iff.trans (iff_of_true h trivial)
  · -- `float`
    have h := @member_low 32 32 (by omega) (by omega) x old
    cases reader <;> exact narrow_eq_iff.trans (Eq.congr_left h)
  · -- `double`
    have h := @member_low_of_le 64 32 (by omega) (by omega) x old
    exact wide_eq_iff.trans (Eq.congr_left h)

theorem Number.raw_lt (n : Number) : n.raw < 2 ^ 64 := by
  cases n with
  | bool b => cases b <;> decide
  | integer v => exact low_lt 64 v
  | float bits => exact singleToDouble_lt bits.toNat
  | double bits => exact bits.toNat_lt

/-- A signed number is read off as many bits as each of them takes. -/
theorem signed_eq_iff (reader : Reader) {w : Nat} (hw : w ≤ 32) (slot n : Nat) :
    reader.signed w slot = sext w n ↔ member (reader.bits w) slot = member (reader.bits w) (sext w n) := by
  cases reader with
  | interpreter =>
    have hall : member 32 (sext w n) = sext w n := Nat.mod_eq_of_lt (sext_lt hw n)
    rw [Reader.signed, Reader.bits, hall]
  | runtime =>
    have hlow : member w (sext w n) = n % 2 ^ w := sext_mod hw n
    rw [Reader.signed, Reader.bits, hlow, sext_eq_iff hw]
    exact Iff.rfl

theorem register_storeFloating_iff (reader : Reader) {t : Char} (ht : t ∈ fieldPrimitives) {n : Number}
    (hn : n.kind = .fp) (old : Nat) {c : Contents Obj} (hc : n.converted t = some c) :
    register env reader t (storeFloating t n.raw old) = c ↔ FloatingKept reader t n := by
  have hall : ∀ k, k ≤ 64 → member k (setMember 64 n.raw old) = member k n.raw := fun k hk =>
    CallFrame.member_setMember hk n.raw old
  have hbits : ∀ w, w ≤ 32 → member (reader.bits w) (setMember 64 n.raw old) = member (reader.bits w) n.raw := by
    intro w hw
    refine hall _ ?_
    cases reader
    · exact (by omega : 32 ≤ 64)
    · exact Nat.le_trans hw (by omega)
  simp only [fieldPrimitives, List.mem_cons, List.not_mem_nil, or_false] at ht
  rcases ht with rfl | rfl | rfl | rfl | rfl | rfl | rfl | rfl
  all_goals obtain rfl := Option.some.inj hc
  · -- `boolean`
    have h := hbits 8 (by omega)
    cases reader <;> exact narrow_eq_iff.trans (Eq.congr_left h)
  · -- `byte`
    have h := @signed_eq_iff reader 8 (by omega) (setMember 64 n.raw old) (low 8 (n.toInteger 32))
    rw [hbits 8 (by omega)] at h
    cases reader <;> exact narrow_eq_iff.trans h
  · -- `short`
    have h := @signed_eq_iff reader 16 (by omega) (setMember 64 n.raw old) (low 16 (n.toInteger 32))
    rw [hbits 16 (by omega)] at h
    cases reader <;> exact narrow_eq_iff.trans h
  · -- `char`
    have h := hbits 16 (by omega)
    cases reader <;> exact narrow_eq_iff.trans (Eq.congr_left h)
  · -- `int`
    cases reader <;> exact narrow_eq_iff.trans (Eq.congr_left (hall 32 (by omega)))
  · -- `long`
    have hraw : member 64 n.raw = n.raw := Nat.mod_eq_of_lt n.raw_lt
    exact wide_eq_iff.trans (Eq.congr_left ((hall 64 (by omega)).trans hraw))
  · -- `float`
    have hhalf : member 32 (setMember 32 n.raw old) = member 32 n.raw :=
      CallFrame.member_setMember (Nat.le_refl 32) n.raw old
    cases n with
    | bool | integer => exact DetailArgKind.noConfusion hn
    | float bits =>
      have hzero : member 32 (singleToDouble bits.toNat) = bits.toNat ↔ bits = 0 := by
        rw [member, singleToDouble_mod_eq_iff bits.toNat_lt, ← UInt32.toNat_inj]
        rfl
      cases reader <;> exact narrow_eq_iff.trans ((Eq.congr_left hhalf).trans hzero)
    | double bits => cases reader <;> exact narrow_eq_iff.trans (Eq.congr_left hhalf)
  · -- `double`
    have hraw : member 64 n.raw = n.raw := Nat.mod_eq_of_lt n.raw_lt
    have hdouble : n.raw = n.toDouble := by
      cases n with
      | bool | integer => exact DetailArgKind.noConfusion hn
      | float | double => rfl
    exact wide_eq_iff.trans (iff_of_true (((hall 64 (by omega)).trans hraw).trans hdouble) trivial)

theorem exists_converted (n : Number) {t : Char} (ht : t ∈ fieldPrimitives) :
    ∃ c : Contents Obj, n.converted t = some c := by
  simp only [fieldPrimitives, List.mem_cons, List.not_mem_nil, or_false] at ht
  rcases ht with rfl | rfl | rfl | rfl | rfl | rfl | rfl | rfl <;> exact ⟨_, rfl⟩

theorem converted_bool (b : Bool) (t : Char) :
    ((Number.bool b).converted t : Option (Contents Obj)) = (Number.integer (if b then 1 else 0)).converted t := by
  cases b <;> rfl

/-! ## Arguments -/

theorem paramTypeChar_describe {sig : Signature} (hsig : sig.Valid) {index : Nat} {t : List Char}
    (ht : sig.params[index]? = some t) : paramTypeChar (describe sig) index = kindOf t := by
  unfold paramTypeChar
  rw [parseSigTypes_describe hsig, List.getD_eq_getElem?_getD, List.getElem?_map, ht]
  rfl

theorem getElem?_setArg (ev : InvokeEvent) {index old : Nat} (hold : ev.args[index]? = some old) (v : Value) :
    (ev.setArg env index v).args[index]? = some (ev.setSlot env index old v) := by
  have hlt : index < ev.args.length := (List.getElem?_eq_some_iff.1 hold).1
  unfold InvokeEvent.setArg
  rw [if_neg (by omega), Int.toNat_natCast, List.getElem?_modify_eq, hold]
  rfl

theorem forall_of_eq_none {α : Type} {o : Option α} (h : o = none) {P : α → Prop} : ∀ b, o = some b → P b :=
  fun b hb => absurd (hb.symm.trans h) (Option.some_ne_none b)

theorem setSlot_number_iff {ev : InvokeEvent} {index : Nat} {t : Char} (htype : paramTypeChar ev.signature index = t)
    (ht : t ∈ fieldPrimitives) (reader : Reader) (old : Nat) (n : Number) {c : Contents Obj}
    (hc : n.converted t = some c) :
    register env reader t (ev.setSlot env index old (.number n)) = c ↔ ArgumentKept reader t old (.number n) := by
  have hset : ev.setSlot env index old (.number n) = setArgValue ev.signature index old n.kind n.raw := rfl
  have hint : n.kind = .int → ev.setSlot env index old (.number n) = storeInteger t n.raw old := by
    intro hkind
    rw [hset, hkind, ← htype]
    rfl
  have hfp : n.kind = .fp → ev.setSlot env index old (.number n) = storeFloating t n.raw old := by
    intro hkind
    rw [hset, hkind, ← htype]
    rfl
  cases n with
  | bool b =>
    have hraw : (Number.bool b).raw = low 64 (if b then 1 else 0) := by cases b <;> rfl
    rw [converted_bool] at hc
    rw [hint rfl, hraw]
    exact register_storeInteger_iff env reader ht _ old hc
  | integer v =>
    rw [hint rfl]
    exact register_storeInteger_iff env reader ht v old hc
  | float bits =>
    rw [hfp rfl]
    exact register_storeFloating_iff env reader ht rfl old hc
  | double bits =>
    rw [hfp rfl]
    exact register_storeFloating_iff env reader ht rfl old hc

theorem register_object (reader : Reader) (slot : Nat) {r : Nat} (hr : r < 2 ^ 64) :
    register env reader 'L' (setMember 64 r slot) = .object (env.object r) := by
  have hread : member 64 (setMember 64 r slot) = r := by
    rw [CallFrame.member_setMember (Nat.le_refl 64), Nat.mod_eq_of_lt hr]
  exact congrArg (fun u => Contents.object (env.object u)) hread

/-- An argument of an object type: whatever has a conversion is stored. -/
theorem setSlot_object (ev : InvokeEvent) (index : Nat) {v : Value} (hv : env.Proper v) (reader : Reader) (old : Nat) :
    ∀ c, converted env 'L' v = some c → register env reader 'L' (ev.setSlot env index old v) = c := by
  intro c hc
  cases v with
  | number n => exact absurd hc.symm (Option.some_ne_none c)
  | object r =>
    obtain rfl := Option.some.inj hc
    exact register_object env reader old hv
  | text p =>
    obtain rfl := Option.some.inj hc
    exact register_object env reader old (env.newStringUTF_lt p)

theorem argumentKept_object (reader : Reader) (old : Nat) (v : Value) : ArgumentKept reader 'L' old v := by
  cases v with
  | number n => cases n <;> trivial
  | object | text => trivial

theorem argumentStored_iff {sig : Signature} (hsig : sig.Valid) {ev : InvokeEvent} (hev : ev.signature = describe sig)
    {v : Value} (hv : env.Proper v) (reader : Reader) {index old : Nat} {t : List Char}
    (ht : sig.params[index]? = some t) (hold : ev.args[index]? = some old) :
    ev.ArgumentStored env reader index (kindOf t) v ↔ ArgumentKept reader (kindOf t) old v := by
  have htype : paramTypeChar ev.signature index = kindOf t := by rw [hev, paramTypeChar_describe hsig ht]
  have hslot : ev.ArgumentStored env reader index (kindOf t) v ↔
      ∀ c, converted env (kindOf t) v = some c → register env reader (kindOf t) (ev.setSlot env index old v) = c := by
    unfold InvokeEvent.ArgumentStored
    rw [getElem?_setArg env ev hold v]
    simp only [Option.some.injEq, exists_eq_left']
  rw [hslot]
  rcases kindOf_cases (hsig.proper.1 t (List.mem_of_getElem? ht)) with hprim | hobject
  · have hne : kindOf t ≠ 'L' := ne_of_mem_fieldPrimitives hprim (by decide)
    cases v with
    | number n =>
      obtain ⟨c, hc⟩ := @exists_converted Obj n _ hprim
      have hnumber : converted env (kindOf t) (.number n) = some c := hc
      simp only [hnumber, Option.some.injEq, forall_eq']
      exact setSlot_number_iff env htype hprim reader old n hc
    | object | text => exact iff_of_true (forall_of_eq_none (if_neg hne)) trivial
  · rw [hobject]
    exact iff_of_true (setSlot_object env ev index hv reader old) (argumentKept_object reader old v)

/-! ## Results -/

theorem returnTypeChar_describe {sig : Signature} (hsig : sig.Valid) :
    returnTypeChar (describe sig) = kindOf sig.ret := by
  unfold returnTypeChar
  rw [parseSigTypes_describe hsig]

/-- A `bool` is one byte of a cleared slot. -/
theorem mock_bool_iff (ev : InvokeEvent) {t : Char} (ht : t ∈ fieldPrimitives) (b : Bool) {c : Contents Obj}
    (hc : (Number.bool b).converted t = some c) :
    register env .interpreter t (ev.mock 0 (.number (.bool b))) = c ↔ (t = 'F' ∨ t = 'D' → b = false) := by
  simp only [fieldPrimitives, List.mem_cons, List.not_mem_nil, or_false] at ht
  have hmock : ev.mock 0 (.number (.bool b)) = if b then 1 else 0 := by cases b <;> rfl
  rw [hmock]
  rcases ht with rfl | rfl | rfl | rfl | rfl | rfl | rfl | rfl
  all_goals obtain rfl := Option.some.inj hc
  · cases b <;> exact narrow_eq_iff.trans (by decide)
  · cases b <;> exact narrow_eq_iff.trans (by decide)
  · cases b <;> exact narrow_eq_iff.trans (by decide)
  · cases b <;> exact narrow_eq_iff.trans (by decide)
  · cases b <;> exact narrow_eq_iff.trans (by decide)
  · cases b <;> exact wide_eq_iff.trans (by decide)
  · cases b <;> exact narrow_eq_iff.trans (by decide)
  · cases b <;> exact wide_eq_iff.trans (by decide)

/-- An integer is stored as for an argument, but for a `double`. -/
theorem mock_integer_iff {ev : InvokeEvent} {t : Char} (htype : returnTypeChar ev.signature = t)
    (ht : t ∈ fieldPrimitives) (x : Int) {c : Contents Obj} (hc : (Number.integer x).converted t = some c) :
    register env .interpreter t (ev.mock 0 (.number (.integer x))) = c ↔ ResultKept t (.number (.integer x)) := by
  have hvoid : t ≠ 'V' := ne_of_mem_fieldPrimitives ht (by decide)
  have hclass : t ≠ 'L' := ne_of_mem_fieldPrimitives ht (by decide)
  have hmock : ev.mock 0 (.number (.integer x)) = mockValue ev.signature 0 .int (low 64 x) := rfl
  rw [hmock]
  unfold mockValue ResultKept
  simp only [htype, if_neg hvoid]
  rw [if_neg (by simp [hclass])]
  by_cases hdouble : t = 'D'
  · subst hdouble
    obtain rfl := Option.some.inj hc
    have hread : member 64 (setMember 64 (low 64 x) 0) = low 64 x :=
      member_low (Nat.le_refl 64) (Nat.le_refl 64) x 0
    rw [if_pos (by decide), if_pos rfl]
    exact wide_eq_iff.trans (Eq.congr_left hread)
  · rw [if_neg hdouble, ← register_storeInteger_iff env .interpreter ht x 0 hc]
    by_cases hfloat : t = 'F'
    · subst hfloat
      exact Iff.rfl
    · rw [if_neg (by simp [hdouble, hfloat])]

theorem mock_floating_iff {ev : InvokeEvent} {t : Char} (htype : returnTypeChar ev.signature = t)
    (ht : t ∈ fieldPrimitives) {n : Number} (hn : n.kind = .fp) {c : Contents Obj} (hc : n.converted t = some c) :
    register env .interpreter t (mockValue ev.signature 0 n.kind n.raw) = c ↔ FloatingKept .interpreter t n := by
  have hvoid : t ≠ 'V' := ne_of_mem_fieldPrimitives ht (by decide)
  have hclass : t ≠ 'L' := ne_of_mem_fieldPrimitives ht (by decide)
  have hstore : mockValue ev.signature 0 n.kind n.raw = storeFloating t n.raw 0 := by
    unfold mockValue
    simp only [htype, if_neg hvoid]
    rw [if_neg (by simp [hn, hclass]), if_pos (Or.inl hn)]
  rw [hstore]
  exact register_storeFloating_iff env .interpreter ht hn 0 hc

theorem text_kept_iff {p : Nat} (hp : p < 2 ^ 64 ∧ env.object p = none) :
    register env .interpreter 'L' (setMember 64 p 0) = .object (env.object (env.newStringUTF p)) ↔ p = 0 := by
  rw [register_object env .interpreter 0 hp.1, hp.2, Contents.object.injEq]
  constructor
  · intro h
    by_contra hne
    exact env.newStringUTF_new p hne h.symm
  · rintro rfl
    rw [env.newStringUTF_null, env.object_null]

theorem resultKept_number (n : Number) {t : Char} (ht : t = 'L' ∨ t = 'V') : ResultKept t (.number n) := by
  rcases ht with rfl | rfl
  all_goals cases n
  all_goals first | trivial | exact fun h => absurd h (by decide)

theorem mock_number_iff {ev : InvokeEvent} {t : Char} (htype : returnTypeChar ev.signature = t)
    (ht : t ∈ fieldPrimitives) (n : Number) {c : Contents Obj} (hc : n.converted t = some c) :
    register env .interpreter t (ev.mock 0 (.number n)) = c ↔ ResultKept t (.number n) := by
  cases n with
  | bool b => exact mock_bool_iff env ev ht b hc
  | integer x => exact mock_integer_iff env htype ht x hc
  | float | double => exact mock_floating_iff env htype ht rfl hc

theorem resultStored_iff {sig : Signature} (hsig : sig.Valid) {ev : InvokeEvent} (hev : ev.signature = describe sig)
    {v : Value} (hv : env.Proper v) :
    ev.ResultStored env (kindOf sig.ret) v ↔ ResultKept (kindOf sig.ret) v := by
  have htype : returnTypeChar ev.signature = kindOf sig.ret := by rw [hev, returnTypeChar_describe hsig]
  have hcases : kindOf sig.ret ∈ fieldPrimitives ∨ kindOf sig.ret = 'L' ∨ kindOf sig.ret = 'V' := by
    rcases hsig.proper.2 with hvoid | hfield
    · exact Or.inr (Or.inr (by rw [hvoid]; rfl))
    · exact (kindOf_cases hfield).imp_right Or.inl
  unfold InvokeEvent.ResultStored
  generalize kindOf sig.ret = t at htype hcases ⊢
  cases v with
  | number n =>
    rcases hcases with hprim | hother
    · obtain ⟨c, hc⟩ := @exists_converted Obj n _ hprim
      have hnumber : converted env t (.number n) = some c := hc
      simp only [hnumber, Option.some.injEq, forall_eq']
      exact mock_number_iff env htype hprim n hc
    · have hnone : converted env t (.number n) = none := by rcases hother with rfl | rfl <;> rfl
      exact iff_of_true (forall_of_eq_none hnone) (resultKept_number n hother)
  | object r =>
    refine iff_of_true ?_ trivial
    intro c hc
    by_cases hobject : t = 'L'
    · subst hobject
      obtain rfl := Option.some.inj hc
      exact register_object env .interpreter 0 hv
    · exact forall_of_eq_none (if_neg hobject) c hc
  | text p =>
    by_cases hobject : t = 'L'
    · subst hobject
      have htext : converted env 'L' (.text p) = some (.object (env.object (env.newStringUTF p))) := rfl
      simp only [htext, Option.some.injEq, forall_eq']
      exact ⟨fun h _ => (text_kept_iff env hv).1 h, fun h => (text_kept_iff env hv).2 (h rfl)⟩
    · exact iff_of_true (forall_of_eq_none (if_neg hobject)) (fun h => absurd h hobject)

/-- The registers of an argument get the value that replaces it, and the register of a result gets the mocked one, iff
the bits that are stored happen to be those of the converted value. -/
theorem overrides_stored_iff {sig : Signature} (hsig : sig.Valid) {ev : InvokeEvent} (hev : ev.signature = describe sig)
    {v : Value} (hv : env.Proper v) :
    (∀ reader index old t, sig.params[index]? = some t → ev.args[index]? = some old →
      (ev.ArgumentStored env reader index (kindOf t) v ↔ ArgumentKept reader (kindOf t) old v)) ∧
      (ev.ResultStored env (kindOf sig.ret) v ↔ ResultKept (kindOf sig.ret) v) :=
  ⟨fun reader _ _ _ ht hold => argumentStored_iff env hsig hev hv reader ht hold, resultStored_iff env hsig hev hv⟩

/-- References are the addresses in the upper half. -/
def upperHalf : Env Nat where
  object r := if 2 ^ 63 ≤ r then some r else none
  newStringUTF p := if p = 0 then 0 else 2 ^ 63 + p % 2 ^ 63
  object_null := rfl
  newStringUTF_null := rfl
  newStringUTF_new p hp := by
    rw [if_neg hp, if_pos (Nat.le_add_right _ _)]
    exact Option.some_ne_none _
  newStringUTF_lt p := by
    have hmod : p % 2 ^ 63 < 2 ^ 63 := Nat.mod_lt _ (by omega)
    split <;> omega

/-- `(FI)F`, called with 2.0 and 5. -/
def floatAndInt : InvokeEvent := ⟨"(FI)F".toList, [0x40000000, 5]⟩

theorem valid_floatAndInt : Signature.Valid ⟨[['F'], ['I']], ['F']⟩ := by
  refine ⟨⟨fun t ht => ?_, Or.inr (.primitive (by decide))⟩, by decide⟩
  rcases List.mem_pair.1 ht with rfl | rfl
  · exact .primitive (by decide)
  · exact .primitive (by decide)

/-- An integer for an `int`. -/
theorem overrides_stored_int :
    floatAndInt.ArgumentStored upperHalf .interpreter 1 'I' (.number (.integer 7)) := by
  have hproper : upperHalf.Proper (.number (.integer 7)) := trivial
  exact ((@overrides_stored_iff _ upperHalf _ valid_floatAndInt floatAndInt rfl _ hproper).1 .interpreter 1 5 ['I']
    rfl rfl).2 trivial

/-- 1.5 for a `float`: its lower half as a `double` is zero. -/
theorem float_not_stored :
    (∀ reader, ¬ floatAndInt.ArgumentStored upperHalf reader 0 'F' (.number (.float 0x3FC00000))) ∧
      ¬ floatAndInt.ResultStored upperHalf 'F' (.number (.float 0x3FC00000)) := by
  have hkept : ∀ reader, ¬ FloatingKept reader 'F' (.float 0x3FC00000) := by
    intro reader h
    exact absurd (show (0x3FC00000 : UInt32) = 0 from h) (by decide)
  have hproper : upperHalf.Proper (.number (.float 0x3FC00000)) := trivial
  constructor
  · intro reader h
    exact hkept reader ((@argumentStored_iff _ upperHalf _ valid_floatAndInt floatAndInt rfl _ hproper reader 0
      0x40000000 ['F'] rfl rfl).1 h)
  · intro h
    exact hkept .interpreter ((@resultStored_iff _ upperHalf _ valid_floatAndInt floatAndInt rfl _ hproper).1 h)

end ArtPi.Interp.Overrides
