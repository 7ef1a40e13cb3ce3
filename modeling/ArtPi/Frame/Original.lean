import ArtPi.Frame.Slots
import ArtPi.Lib.Single

set_option autoImplicit false

/-! # The arguments of the original (`CallFrame::invokeOriginalInternal`)

To call the original through JNI, `invokeOriginalInternal` reads the arguments out of the frame into
an array of sixteen `jvalue`s. `forwards_iff` says which frames get all their arguments into it: the
array has to be long enough, and a `float` has to survive being read as a `double` and converted,
which with nothing above it in its register, or on the stack, only zero does. -/

namespace ArtPi.Frame

open ArtPi.Lib

/-- The local references of the current thread, as `Thread::AddLocalRef` makes them and
    `Thread::DecodeJObject` resolves them. -/
structure LocalRefs where
  addLocalRef : Nat → Nat
  decodeJObject : Nat → Nat
  add_lt : ∀ o, addLocalRef o < 2 ^ 64
  decode_add : ∀ o, 0 < o → o < 2 ^ 32 → decodeJObject (addLocalRef o) = o
  decode_null : decodeJObject 0 = 0

/-- An address in the 32-bit compressed heap, as `PineNative_ToJObject` checks it. -/
def IsHeapAddr (addr : Nat) : Prop := 0x10000 ≤ addr ∧ addr < 0x100000000 ∧ addr % 8 = 0

instance (addr : Nat) : Decidable (IsHeapAddr addr) := inferInstanceAs (Decidable (_ ∧ _ ∧ _))

namespace LocalRefs

/-- `PineNative_ToJObject`. -/
def toJObject (refs : LocalRefs) (artObj : Nat) : Nat :=
  if IsHeapAddr artObj then refs.addLocalRef artObj else 0

theorem toJObject_lt (refs : LocalRefs) (artObj : Nat) : refs.toJObject artObj < 2 ^ 64 := by
  unfold toJObject
  split
  · exact refs.add_lt artObj
  · omega

/-- A local reference is the object it was made of iff that is null or in the heap. -/
theorem decode_toJObject_iff (refs : LocalRefs) (artObj : Nat) :
    refs.decodeJObject (refs.toJObject artObj) = artObj ↔ artObj = 0 ∨ IsHeapAddr artObj := by
  unfold toJObject
  by_cases hheap : IsHeapAddr artObj
  · have hdecode := refs.decode_add artObj (by unfold IsHeapAddr at hheap; omega) hheap.2.1
    rw [if_pos hheap]
    exact ⟨fun _ => Or.inr hheap, fun _ => hdecode⟩
  · rw [if_neg hheap, refs.decode_null]
    exact ⟨fun h => Or.inl h.symm, fun h => h.elim Eq.symm (fun h => absurd h hheap)⟩

end LocalRefs

/-! ## The array -/

/-- Writing the `w`-bit member of a `jvalue`; the members of the union share their low bits. -/
def setMember (w v old : Nat) : Nat := old / 2 ^ w * 2 ^ w + v % 2 ^ w

/-- Reading the `w`-bit member of a `jvalue`. -/
def member (w u : Nat) : Nat := u % 2 ^ w

namespace CallFrame

variable (refs : LocalRefs)

def getArg (f : CallFrame) (index : Nat) : Nat :=
  match f.argTypes[index]? with
  | none => 0
  | some t => if t.isRef then refs.toJObject (f.argRef index) else 0

/-- `jargs[i]` behind the loop, of which the array held `junk` before. -/
def jarg (f : CallFrame) (junk : Nat) (i : Nat) (t : JType) : Nat :=
  match t with
  | .object _ | .array _ => setMember 64 (f.getArg refs i) junk
  | .int | .short | .byte | .char => setMember 32 (f.getArgRaw i) junk
  | .boolean => setMember 8 (f.getArgRaw i) junk
  | .long => setMember 64 (f.getArgRaw i) junk
  | .float => setMember 32 (doubleToSingle (f.getArgRaw i)) junk
  | .double => setMember 64 (f.getArgRaw i) junk

/-- `jvalue jargs[16]`; there is nothing behind its end. -/
def jargs (f : CallFrame) (junk : Nat → Nat) (i : Nat) : Option Nat :=
  if i < 16 then
    some (match f.argTypes[i]? with
      | some t => f.jarg refs (junk i) i t
      | none => junk i)
  else none

end CallFrame

/-- What `Call*MethodA` takes out of the entry of a parameter. -/
def received (refs : LocalRefs) (t : JType) (v : Nat) : Nat :=
  if t.isRef then refs.decodeJObject (member 64 v) else member t.bits v

/-- Every parameter has its entry, and the original receives the value the caller has passed. -/
def Forwards (refs : LocalRefs) (f : CallFrame) (junk : Nat → Nat) : Prop :=
  ∀ i t, f.argTypes[i]? = some t →
    ∃ v, f.jargs refs junk i = some v ∧ received refs t v = f.value i t

/-! ## The condition -/

namespace CallFrame

/-- All bits of the register or stack slot a `float` is in. -/
def floatContainer (f : CallFrame) (i : Nat) : Nat :=
  match f.abiLocation i .float with
  | .x n => (f.r n).toNat
  | .d n => (f.d n).toNat
  | .stack offset => f.stack.load offset 4

/-- The container, converted as a `double`, is the `float` in its low half. -/
def FloatSurvives (f : CallFrame) (i : Nat) : Prop :=
  doubleToSingle (f.floatContainer i) = f.floatContainer i % 2 ^ 32

theorem floatContainer_mod (f : CallFrame) (i : Nat) :
    f.floatContainer i % 2 ^ 32 = f.value i .float := by
  unfold floatContainer value valueAt
  cases f.abiLocation i .float <;> rfl

theorem getArgRaw_float (f : CallFrame) {i : Nat} (hget : f.argTypes[i]? = some .float) :
    f.getArgRaw i = f.floatContainer i := by
  have hlt : ¬ f.argCount ≤ i := Nat.not_le.2 (List.getElem?_eq_some_iff.1 hget).1
  obtain ⟨htype, hwide, hoff, hloc⟩ := f.slot_spec hget
  unfold getArgRaw floatContainer
  rw [if_neg hlt]
  rcases hloc with ⟨n, -, -, -, hfp, -⟩ | ⟨n, hn, hkind, hreg, -, -⟩ | ⟨hn, hkind⟩
  · exact absurd hfp (by simp [JType.isFp])
  · simp only [hn, hkind, hreg]
  · simp only [hn, hkind, hoff, htype, hwide]
    rfl

theorem floatSurvives_iff (f : CallFrame) {i : Nat} (h : f.floatContainer i < 2 ^ 32) :
    f.FloatSurvives i ↔ f.floatContainer i = 0 := by
  unfold FloatSurvives
  rw [doubleToSingle_of_lt h, Nat.mod_eq_of_lt h]
  exact eq_comm

/-! ## One parameter -/

/-- What the conversion of a parameter needs: a `float` survives it, and a reference is null or in
    the heap. -/
def ArgSurvives (f : CallFrame) (i : Nat) (t : JType) : Prop :=
  (t = .float → f.FloatSurvives i) ∧
    (t.isRef = true → f.value i t = 0 ∨ IsHeapAddr (f.value i t))

theorem member_setMember {w k : Nat} (hk : k ≤ w) (v old : Nat) :
    member k (setMember w v old) = v % 2 ^ k := by
  have hdvd : 2 ^ k ∣ 2 ^ w := pow_dvd_pow 2 hk
  unfold member setMember
  rw [Nat.add_mod, Nat.mod_eq_zero_of_dvd (Dvd.dvd.mul_left hdvd _), Nat.zero_add, Nat.mod_mod,
    Nat.mod_mod_of_dvd v hdvd]

theorem member_setMember_of_le {w k : Nat} (hk : w ≤ k) (v old : Nat) :
    member k (setMember w v old) = member k old / 2 ^ w * 2 ^ w + v % 2 ^ w := by
  obtain ⟨j, rfl⟩ := Nat.exists_eq_add_of_le hk
  have hlow : v % 2 ^ w < 2 ^ w := Nat.mod_lt _ (Nat.two_pow_pos w)
  have hquot : (old / 2 ^ w * 2 ^ w + v % 2 ^ w) / 2 ^ w = old / 2 ^ w := by
    rw [Nat.mul_comm, Nat.mul_add_div (Nat.two_pow_pos w), Nat.div_eq_of_lt hlow, Nat.add_zero]
  have hrem : (old / 2 ^ w * 2 ^ w + v % 2 ^ w) % 2 ^ w = v % 2 ^ w := by
    rw [Nat.mul_comm, Nat.mul_add_mod, Nat.mod_mod]
  unfold member setMember
  rw [Nat.pow_add, Nat.mod_mul, hquot, hrem, Nat.mod_mul_right_div_self, Nat.add_comm, Nat.mul_comm (2 ^ w)]

variable (refs : LocalRefs)

theorem received_ref_iff (f : CallFrame) {i : Nat} {t : JType} (hget : f.argTypes[i]? = some t)
    (href : t.isRef = true) (junk : Nat) :
    refs.decodeJObject (member 64 (setMember 64 (f.getArg refs i) junk)) = f.value i t ↔
      f.value i t = 0 ∨ IsHeapAddr (f.value i t) := by
  have hgetArg : f.getArg refs i = refs.toJObject (f.value i t) := by
    unfold getArg
    rw [hget, ← f.argRef_eq hget href]
    exact if_pos href
  rw [member_setMember (Nat.le_refl 64), hgetArg, Nat.mod_eq_of_lt (refs.toJObject_lt _)]
  exact refs.decode_toJObject_iff _

theorem received_of_isRef {t : JType} (href : t.isRef = true) (v : Nat) :
    received refs t v = refs.decodeJObject (member 64 v) := if_pos href

theorem received_of_not_isRef {t : JType} (href : t.isRef = false) (v : Nat) :
    received refs t v = member t.bits v := if_neg (by simp [href])

/-- The original receives the value of a parameter iff its conversion allows it. -/
theorem received_jarg_iff (f : CallFrame) {i : Nat} {t : JType} (hget : f.argTypes[i]? = some t)
    (junk : Nat) : received refs t (f.jarg refs junk i t) = f.value i t ↔ f.ArgSurvives i t := by
  have hraw := f.getArgRaw_mod hget
  unfold ArgSurvives
  cases t with
  | object className =>
    rw [received_of_isRef refs rfl, jarg, f.received_ref_iff refs hget rfl junk]
    exact ⟨fun h => ⟨fun hne => absurd hne (by simp), fun _ => h⟩, fun h => h.2 rfl⟩
  | array elem =>
    rw [received_of_isRef refs rfl, jarg, f.received_ref_iff refs hget rfl junk]
    exact ⟨fun h => ⟨fun hne => absurd hne (by simp), fun _ => h⟩, fun h => h.2 rfl⟩
  | float =>
    have hbits : JType.float.bits = 32 := rfl
    rw [received_of_not_isRef refs rfl, jarg, hbits, member_setMember (Nat.le_refl 32),
      f.getArgRaw_float hget, Nat.mod_eq_of_lt (doubleToSingle_lt _), ← f.floatContainer_mod i]
    exact ⟨fun h => ⟨fun _ => h, fun href => absurd href (by simp [JType.isRef])⟩,
      fun h => h.1 rfl⟩
  | boolean | byte | char | short | int | long | double =>
    rw [received_of_not_isRef refs rfl, jarg, member_setMember (by decide), hraw]
    exact ⟨fun _ => ⟨fun hne => absurd hne (by simp),
      fun href => absurd href (by simp [JType.isRef])⟩, fun _ => rfl⟩

end CallFrame

/-! ## All parameters -/

/-- The original receives every argument iff there are at most sixteen of them, every `float`
    survives its conversion and every reference is null or in the heap. -/
theorem forwards_iff (refs : LocalRefs) (f : CallFrame) (junk : Nat → Nat) :
    Forwards refs f junk ↔
      f.argCount ≤ 16 ∧ ∀ i t, f.argTypes[i]? = some t → f.ArgSurvives i t := by
  have hjargs : ∀ i t, f.argTypes[i]? = some t → i < 16 →
      f.jargs refs junk i = some (f.jarg refs (junk i) i t) := by
    intro i t hget hi
    unfold CallFrame.jargs
    rw [if_pos hi, hget]
  constructor
  · intro h
    have hcount : f.argCount ≤ 16 := by
      by_contra hlong
      have hlt : 16 < f.argTypes.length := by unfold CallFrame.argCount at hlong; omega
      obtain ⟨v, hv, -⟩ := h 16 _ (List.getElem?_eq_getElem hlt)
      exact absurd hv (by simp [CallFrame.jargs])
    refine ⟨hcount, fun i t hget => ?_⟩
    have hlt := (List.getElem?_eq_some_iff.1 hget).1
    obtain ⟨v, hv, hreceived⟩ := h i t hget
    rw [hjargs i t hget (Nat.lt_of_lt_of_le hlt hcount)] at hv
    rw [← Option.some.inj hv] at hreceived
    exact (f.received_jarg_iff refs hget (junk i)).1 hreceived
  · rintro ⟨hcount, hsurvives⟩ i t hget
    have hlt := (List.getElem?_eq_some_iff.1 hget).1
    exact ⟨_, hjargs i t hget (Nat.lt_of_lt_of_le hlt hcount),
      (f.received_jarg_iff refs hget (junk i)).2 (hsurvives i t hget)⟩

/-! ## Calls -/

/-- References that are their own objects. -/
def plainRefs : LocalRefs where
  addLocalRef o := o % 2 ^ 32
  decodeJObject o := o
  add_lt o := Nat.lt_of_lt_of_le (Nat.mod_lt o (by decide)) (by decide)
  decode_add _ _ h := Nat.mod_eq_of_lt h
  decode_null := rfl

/-- A static call with one `float`, `1.0f` in `s0`. -/
def oneFloat : CallFrame where
  isStatic := true
  argTypes := [.float]
  r := fun _ => 0
  d := fun _ => 0x3F800000
  stack := fun _ => 0

/-- A static call with seventeen `int`s. -/
def seventeenInts : CallFrame where
  isStatic := true
  argTypes := List.replicate 17 .int
  r := fun n => UInt64.ofNat n
  d := fun _ => 0
  stack := fun _ => 0

/-- The original receives zero for `1.0f`, and there is no entry for a seventeenth parameter. -/
theorem oneFloat_not_forwards :
    ¬ Forwards plainRefs oneFloat (fun _ => 0) ∧ ¬ Forwards plainRefs seventeenInts (fun _ => 0) := by
  have hcontainer : oneFloat.floatContainer 0 = 0x3F800000 := by decide
  constructor
  · intro h
    obtain ⟨v, hv, hreceived⟩ := h 0 .float rfl
    rw [← Option.some.inj hv] at hreceived
    have hsurvives := ((oneFloat.received_jarg_iff plainRefs rfl 0).1 hreceived).1 rfl
    have hzero := (oneFloat.floatSurvives_iff (by rw [hcontainer]; decide)).1 hsurvives
    exact absurd (hcontainer.symm.trans hzero) (by decide)
  · intro h
    obtain ⟨v, hv, -⟩ := h 16 .int (by decide)
    exact absurd hv (by simp [CallFrame.jargs])

end ArtPi.Frame
