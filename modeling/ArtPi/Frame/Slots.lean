import ArtPi.Lib.Memory

set_option autoImplicit false

/-! # Where the arguments of a hooked call are (`engine/pine/pine_native.cpp`, `CallFrame`)

The bridge hands the dispatcher a copy of the registers, and a `CallFrame` finds the arguments of the
call in them and on the stack: `ComputeArtArgSlot` goes through the parameters once and counts the
registers that are taken. `computeArtArgSlot_eq` says that this is the location of the quick ABI,
which is a matter of what stands in front of a parameter.

The accesses are then described at that location: `getArgRaw_mod` for what is read, `value_setArgRaw`
and `value_setArgRaw_of_ne` for what is written. -/

namespace ArtPi.Frame

open ArtPi.Lib

/-- The type of a parameter, as its JNI descriptor gives it. -/
inductive JType where
  | boolean
  | byte
  | char
  | short
  | int
  | long
  | float
  | double
  | object (className : String)
  | array (elem : String)
  deriving DecidableEq

namespace JType

/-- `'J'` and `'D'`, which take two vregs. -/
def isWide : JType → Bool
  | .long | .double => true
  | _ => false

/-- `'F'` and `'D'`. -/
def isFp : JType → Bool
  | .float | .double => true
  | _ => false

/-- `'L'` and `'['`. -/
def isRef : JType → Bool
  | .object _ | .array _ => true
  | _ => false

/-- The width of a value of the type; a reference is a compressed one. -/
def bits : JType → Nat
  | .boolean | .byte => 8
  | .char | .short => 16
  | .int | .float => 32
  | .long | .double => 64
  | .object _ | .array _ => 32

/-- The size of its slot on the stack. -/
def slotBytes (t : JType) : Nat := if t.isWide then 8 else 4

def string : JType := .object "java/lang/String"

/-- A reference is a compressed one, in a register that is not a floating-point one. -/
theorem of_isRef {t : JType} (h : t.isRef = true) :
    t.bits = 32 ∧ t.isFp = false ∧ t.isWide = false := by
  cases t with
  | object _ | array _ => exact ⟨rfl, rfl, rfl⟩
  | boolean | byte | char | short | int | long | float | double => exact absurd h (by simp [isRef])

end JType

/-! ## The frame -/

/-- The static flag and the parameter types of the method, and what the bridge has saved: `x0`–`x30`,
    the bits of `d0`–`d7`, and the stack from `sp` on. -/
structure CallFrame where
  isStatic : Bool
  argTypes : List JType
  r : Nat → UInt64
  d : Nat → UInt64
  stack : Memory

inductive SlotKind where
  | gpReg
  | fpReg
  | stack
  deriving DecidableEq

structure ArtArgSlot where
  kind : SlotKind
  regIdx : Nat
  stackOffset : Nat
  type : JType
  isWide : Bool
  deriving DecidableEq

/-- The slot of a parameter, given the next free registers and stack offset. -/
def slotFor (t : JType) (gpIdx fpIdx stackOff : Nat) : ArtArgSlot where
  kind :=
    if t.isFp then if fpIdx < 8 then .fpReg else .stack
    else if gpIdx ≤ 7 then .gpReg else .stack
  regIdx :=
    if t.isFp then if fpIdx < 8 then fpIdx else 0
    else if gpIdx ≤ 7 then gpIdx else 0
  stackOffset := stackOff
  type := t
  isWide := t.isWide

/-- The loop of `ComputeArtArgSlot`, with `index` parameters to go before the one asked for. -/
def slotLoop (types : List JType) (gpIdx fpIdx stackOff : Nat) : Nat → ArtArgSlot
  | 0 => slotFor (types.headD .int) gpIdx fpIdx stackOff
  | index + 1 =>
    let t := types.headD .int
    slotLoop types.tail
      (if !t.isFp && gpIdx ≤ 7 then gpIdx + 1 else gpIdx)
      (if t.isFp && fpIdx < 8 then fpIdx + 1 else fpIdx)
      (stackOff + if t.isWide then 8 else 4) index

namespace CallFrame

def argCount (f : CallFrame) : Nat := f.argTypes.length

def computeArtArgSlot (f : CallFrame) (index : Nat) : ArtArgSlot :=
  slotLoop f.argTypes (if f.isStatic then 1 else 2) 0 (8 + if f.isStatic then 0 else 4) index

/-- A `w`-bit number, sign-extended to 64 bits. -/
def signExtend (w v : Nat) : Nat :=
  if v % 2 ^ w < 2 ^ (w - 1) then v % 2 ^ w else v % 2 ^ w + (2 ^ 64 - 2 ^ w)

def getArgRaw (f : CallFrame) (index : Nat) : Nat :=
  if f.argCount ≤ index then 0
  else
    let slot := f.computeArtArgSlot index
    match slot.kind with
    | .fpReg => (f.d slot.regIdx).toNat
    | .gpReg =>
      if slot.type.isRef then (f.r slot.regIdx).toNat &&& 0xFFFFFFFF
      else (f.r slot.regIdx).toNat
    | .stack =>
      if slot.isWide then f.stack.load slot.stackOffset 8
      else
        let val32 := f.stack.load slot.stackOffset 4
        match slot.type with
        | .int => signExtend 32 val32
        | .short => signExtend 16 val32
        | .byte => signExtend 8 val32
        | _ => val32

/-- The compressed reference `getArg` makes a local reference of. -/
def argRef (f : CallFrame) (index : Nat) : Nat :=
  let slot := f.computeArtArgSlot index
  match slot.kind with
  | .gpReg => (f.r slot.regIdx).toNat &&& 0xFFFFFFFF
  | _ => f.stack.load slot.stackOffset 4

def setArgRaw (f : CallFrame) (index val : Nat) : CallFrame :=
  if f.argCount ≤ index then f
  else
    let slot := f.computeArtArgSlot index
    let mirrored := f.stack.store slot.stackOffset (if slot.isWide then 8 else 4) val
    match slot.kind with
    | .fpReg => { f with d := Function.update f.d slot.regIdx (UInt64.ofNat val) }
    | .gpReg =>
      { f with
        r := Function.update f.r slot.regIdx (UInt64.ofNat val)
        stack := mirrored }
    | .stack => { f with stack := mirrored }

end CallFrame

/-! ## The quick ABI -/

/-- What the parameters in front of the `i`-th one take of something. -/
def takenBefore (w : JType → Nat) (types : List JType) (i : Nat) : Nat :=
  ((types.take i).map w).sum

def gpTaken (t : JType) : Nat := if t.isFp then 0 else 1

def fpTaken (t : JType) : Nat := if t.isFp then 1 else 0

def vregsTaken (t : JType) : Nat := if t.isWide then 2 else 1

inductive Location where
  | x (n : Nat)
  | d (n : Nat)
  | stack (offset : Nat)
  deriving DecidableEq

namespace CallFrame

/-- Floating-point arguments are in `d0`–`d7`, the others in `x1`–`x7`, where `x1` is `this` for an
    instance method; each has its vreg behind the `ArtMethod*` on the stack, and is there when its
    registers are taken. -/
def abiLocation (f : CallFrame) (i : Nat) (t : JType) : Location :=
  let gp := (if f.isStatic then 1 else 2) + takenBefore gpTaken f.argTypes i
  let fp := takenBefore fpTaken f.argTypes i
  let vreg := (if f.isStatic then 0 else 1) + takenBefore vregsTaken f.argTypes i
  if t.isFp then if fp < 8 then .d fp else .stack (8 + 4 * vreg)
  else if gp ≤ 7 then .x gp else .stack (8 + 4 * vreg)

/-- The value of a type at a location. -/
def valueAt (f : CallFrame) (t : JType) : Location → Nat
  | .x n => (f.r n).toNat % 2 ^ t.bits
  | .d n => (f.d n).toNat % 2 ^ t.bits
  | .stack offset => f.stack.load offset t.slotBytes % 2 ^ t.bits

/-- The value the caller has passed for the `i`-th parameter, of type `t`. -/
def value (f : CallFrame) (i : Nat) (t : JType) : Nat := f.valueAt t (f.abiLocation i t)

end CallFrame

/-! ## The loop finds the location of the ABI -/

theorem takenBefore_cons (w : JType → Nat) (t : JType) (types : List JType) (i : Nat) :
    takenBefore w (t :: types) (i + 1) = w t + takenBefore w types i := by
  unfold takenBefore
  rw [List.take_succ_cons, List.map_cons, List.sum_cons]

/-- A later parameter has at least the earlier one in front of it. -/
theorem takenBefore_add_le (w : JType → Nat) {types : List JType} {i j : Nat} {t : JType}
    (hget : types[i]? = some t) (hij : i < j) :
    takenBefore w types i + w t ≤ takenBefore w types j := by
  induction types generalizing i j with
  | nil => exact absurd hget (by simp)
  | cons u types ih =>
    cases j with
    | zero => exact absurd hij (by omega)
    | succ j =>
      rw [takenBefore_cons]
      cases i with
      | zero =>
        obtain rfl : u = t := by simpa using hget
        simp [takenBefore]
      | succ i =>
        have h := ih (by simpa using hget) (Nat.lt_of_succ_lt_succ hij)
        rw [takenBefore_cons]
        omega

theorem slotLoop_cons (t : JType) (types : List JType) (gpIdx fpIdx stackOff i : Nat) :
    slotLoop (t :: types) gpIdx fpIdx stackOff (i + 1)
      = slotLoop types (if !t.isFp && gpIdx ≤ 7 then gpIdx + 1 else gpIdx)
          (if t.isFp && fpIdx < 8 then fpIdx + 1 else fpIdx)
          (stackOff + if t.isWide then 8 else 4) i := rfl

theorem slotLoop_eq {types : List JType} {i : Nat} {t : JType} (hget : types[i]? = some t)
    (gpIdx fpIdx stackOff : Nat) (hgp : gpIdx ≤ 8) (hfp : fpIdx ≤ 8) :
    slotLoop types gpIdx fpIdx stackOff i
      = slotFor t (min 8 (gpIdx + takenBefore gpTaken types i))
          (min 8 (fpIdx + takenBefore fpTaken types i))
          (stackOff + 4 * takenBefore vregsTaken types i) := by
  induction types generalizing i gpIdx fpIdx stackOff with
  | nil => exact absurd hget (by simp)
  | cons u types ih =>
    cases i with
    | zero =>
      obtain rfl : u = t := by simpa using hget
      simp [slotLoop, takenBefore, Nat.min_eq_right hgp, Nat.min_eq_right hfp]
    | succ i =>
      have hgp' : (if !u.isFp && gpIdx ≤ 7 then gpIdx + 1 else gpIdx) ≤ 8 := by split <;> grind
      have hfp' : (if u.isFp && fpIdx < 8 then fpIdx + 1 else fpIdx) ≤ 8 := by split <;> grind
      rw [slotLoop_cons, ih (by simpa using hget) _ _ _ hgp' hfp', takenBefore_cons,
        takenBefore_cons, takenBefore_cons]
      congr 1
      · unfold gpTaken
        cases u.isFp <;> grind
      · unfold fpTaken
        cases u.isFp <;> grind
      · unfold vregsTaken
        cases u.isWide <;> simp <;> omega

namespace CallFrame

theorem computeArtArgSlot_eq (f : CallFrame) {i : Nat} {t : JType}
    (hget : f.argTypes[i]? = some t) :
    f.computeArtArgSlot i
      = slotFor t (min 8 ((if f.isStatic then 1 else 2) + takenBefore gpTaken f.argTypes i))
          (min 8 (takenBefore fpTaken f.argTypes i))
          (8 + 4 * ((if f.isStatic then 0 else 1) + takenBefore vregsTaken f.argTypes i)) := by
  unfold computeArtArgSlot
  rw [slotLoop_eq hget _ _ _ (by split <;> omega) (by omega), Nat.zero_add]
  congr 1
  split <;> omega

/-- The bytes of the `i`-th parameter on the stack. -/
def vregOffset (f : CallFrame) (i : Nat) : Nat :=
  8 + 4 * ((if f.isStatic then 0 else 1) + takenBefore vregsTaken f.argTypes i)

theorem slot_spec (f : CallFrame) {i : Nat} {t : JType} (hget : f.argTypes[i]? = some t) :
    (f.computeArtArgSlot i).type = t ∧ (f.computeArtArgSlot i).isWide = t.isWide ∧
    (f.computeArtArgSlot i).stackOffset = f.vregOffset i ∧
    ((∃ n, f.abiLocation i t = .x n ∧ (f.computeArtArgSlot i).kind = .gpReg ∧
        (f.computeArtArgSlot i).regIdx = n ∧ t.isFp = false ∧
        n = (if f.isStatic then 1 else 2) + takenBefore gpTaken f.argTypes i) ∨
      (∃ n, f.abiLocation i t = .d n ∧ (f.computeArtArgSlot i).kind = .fpReg ∧
        (f.computeArtArgSlot i).regIdx = n ∧ t.isFp = true ∧
        n = takenBefore fpTaken f.argTypes i) ∨
      (f.abiLocation i t = .stack (f.vregOffset i) ∧
        (f.computeArtArgSlot i).kind = .stack)) := by
  rw [f.computeArtArgSlot_eq hget]
  unfold slotFor abiLocation vregOffset
  refine ⟨rfl, rfl, rfl, ?_⟩
  generalize hgp : (if f.isStatic then 1 else 2) + takenBefore gpTaken f.argTypes i = gp
  generalize takenBefore fpTaken f.argTypes i = fp
  cases hfp : t.isFp with
  | false =>
    by_cases hle : gp ≤ 7
    · left
      exact ⟨gp, by simp [hle], by simp [hle], by simp [hle]; omega, rfl, rfl⟩
    · right; right
      have hmin : ¬ min 8 gp ≤ 7 := by omega
      exact ⟨by simp [hle], by simp [hmin]⟩
  | true =>
    by_cases hlt : fp < 8
    · right; left
      exact ⟨fp, by simp [hlt], by simp [hlt], by simp [hlt]; omega, rfl, rfl⟩
    · right; right
      have hmin : ¬ min 8 fp < 8 := by omega
      exact ⟨by simp [hlt], by simp [hmin]⟩

/-! ## Reading -/

theorem signExtend_mod {w v : Nat} (hw : w = 8 ∨ w = 16 ∨ w = 32) :
    signExtend w v % 2 ^ w = v % 2 ^ w := by
  unfold signExtend
  rcases hw with rfl | rfl | rfl
  · split <;> omega
  · split <;> omega
  · split <;> omega

theorem and_mask32 (n : Nat) : n &&& 0xFFFFFFFF = n % 2 ^ 32 :=
  Nat.and_two_pow_sub_one_eq_mod n 32

/-- In the width of its type, `getArgRaw` gives the value of a parameter. -/
theorem getArgRaw_mod (f : CallFrame) {i : Nat} {t : JType} (hget : f.argTypes[i]? = some t) :
    f.getArgRaw i % 2 ^ t.bits = f.value i t := by
  have hlt : ¬ f.argCount ≤ i := Nat.not_le.2 (List.getElem?_eq_some_iff.1 hget).1
  obtain ⟨htype, hwide, hoff, hloc⟩ := f.slot_spec hget
  unfold getArgRaw value
  rw [if_neg hlt]
  rcases hloc with ⟨n, hn, hkind, hreg, -, -⟩ | ⟨n, hn, hkind, hreg, -, -⟩ | ⟨hn, hkind⟩
  · simp only [hn, hkind, hreg, htype, valueAt]
    split
    · rename_i href
      rw [and_mask32, (JType.of_isRef href).1, Nat.mod_mod]
    · rfl
  · simp only [hn, hkind, hreg, valueAt]
  · simp only [hn, hkind, hoff, htype, hwide, valueAt, JType.slotBytes]
    cases t with
    | long | double => rfl
    | int =>
      simp only [JType.bits, JType.isWide, Bool.false_eq_true, if_false]
      rw [signExtend_mod (Or.inr (Or.inr rfl))]
    | short =>
      simp only [JType.bits, JType.isWide, Bool.false_eq_true, if_false]
      rw [signExtend_mod (Or.inr (Or.inl rfl))]
    | byte =>
      simp only [JType.bits, JType.isWide, Bool.false_eq_true, if_false]
      rw [signExtend_mod (Or.inl rfl)]
    | boolean | char | float | object _ | array _ => rfl

theorem argRef_eq (f : CallFrame) {i : Nat} {t : JType} (hget : f.argTypes[i]? = some t)
    (href : t.isRef = true) : f.argRef i = f.value i t := by
  obtain ⟨hbits, hfp, hwide⟩ := JType.of_isRef href
  obtain ⟨-, -, hoff, hloc⟩ := f.slot_spec hget
  unfold argRef value
  rcases hloc with ⟨n, hn, hkind, hreg, -, -⟩ | ⟨n, -, -, -, htrue, -⟩ | ⟨hn, hkind⟩
  · simp only [hn, hkind, hreg, valueAt, hbits, and_mask32]
  · exact absurd (hfp.symm.trans htrue) (by simp)
  · simp only [hn, hkind, hoff, valueAt, hbits, JType.slotBytes, hwide]
    exact (Nat.mod_eq_of_lt (f.stack.load_lt _ 4)).symm

/-! ## Writing -/

theorem abiLocation_setArgRaw (f : CallFrame) (i v j : Nat) (t : JType) :
    (f.setArgRaw i v).abiLocation j t = f.abiLocation j t := by
  unfold setArgRaw
  split
  · rfl
  · simp only
    split <;> rfl

theorem two_pow_bits_dvd (t : JType) : 2 ^ t.bits ∣ 2 ^ 64 := by
  refine pow_dvd_pow 2 ?_
  cases t <;> simp [JType.bits]

theorem two_pow_bits_dvd_slot (t : JType) : 2 ^ t.bits ∣ 256 ^ t.slotBytes := by
  rw [show (256 : Nat) = 2 ^ 8 from rfl, ← pow_mul]
  refine pow_dvd_pow 2 ?_
  cases t <;> simp [JType.bits, JType.slotBytes, JType.isWide]

theorem value_setArgRaw (f : CallFrame) {i : Nat} {t : JType} (hget : f.argTypes[i]? = some t)
    (v : Nat) : (f.setArgRaw i v).value i t = v % 2 ^ t.bits := by
  have hlt : ¬ f.argCount ≤ i := Nat.not_le.2 (List.getElem?_eq_some_iff.1 hget).1
  obtain ⟨-, hwide, hoff, hloc⟩ := f.slot_spec hget
  unfold value
  rw [abiLocation_setArgRaw]
  unfold setArgRaw
  rw [if_neg hlt]
  rcases hloc with ⟨n, hn, hkind, hreg, -, -⟩ | ⟨n, hn, hkind, hreg, -, -⟩ | ⟨hn, hkind⟩
  · simp only [hn, hkind, hreg, valueAt, Function.update_self, UInt64.toNat_ofNat']
    exact Nat.mod_mod_of_dvd v (two_pow_bits_dvd t)
  · simp only [hn, hkind, hreg, valueAt, Function.update_self, UInt64.toNat_ofNat']
    exact Nat.mod_mod_of_dvd v (two_pow_bits_dvd t)
  · simp only [hn, hkind, hoff, hwide, valueAt]
    show (f.stack.store _ t.slotBytes v).load _ t.slotBytes % _ = _
    rw [Memory.load_store]
    exact Nat.mod_mod_of_dvd v (two_pow_bits_dvd_slot t)

theorem vregOffset_disjoint (f : CallFrame) {i j : Nat} {t u : JType}
    (hi : f.argTypes[i]? = some t) (hj : f.argTypes[j]? = some u) (hne : i ≠ j) :
    f.vregOffset i + t.slotBytes ≤ f.vregOffset j ∨
      f.vregOffset j + u.slotBytes ≤ f.vregOffset i := by
  have hbytes : ∀ w : JType, w.slotBytes = 4 * vregsTaken w := by
    intro w
    unfold JType.slotBytes vregsTaken
    split <;> rfl
  unfold vregOffset
  rw [hbytes, hbytes]
  rcases Nat.lt_or_gt_of_ne hne with hlt | hgt
  · have := takenBefore_add_le vregsTaken hi hlt
    omega
  · have := takenBefore_add_le vregsTaken hj hgt
    omega

theorem takenBefore_ne {w : JType → Nat} {types : List JType} {i j : Nat} {t u : JType}
    (hi : types[i]? = some t) (hj : types[j]? = some u) (ht : 0 < w t) (hu : 0 < w u)
    (hne : i ≠ j) : takenBefore w types i ≠ takenBefore w types j := by
  rcases Nat.lt_or_gt_of_ne hne with hlt | hgt
  · have := takenBefore_add_le w hi hlt
    omega
  · have := takenBefore_add_le w hj hgt
    omega

theorem value_setArgRaw_of_ne (f : CallFrame) {i j : Nat} {t u : JType}
    (hi : f.argTypes[i]? = some t) (hj : f.argTypes[j]? = some u) (hne : i ≠ j) (v : Nat) :
    (f.setArgRaw i v).value j u = f.value j u := by
  have hlt : ¬ f.argCount ≤ i := Nat.not_le.2 (List.getElem?_eq_some_iff.1 hi).1
  have hdisj := f.vregOffset_disjoint hi hj hne
  obtain ⟨-, hwide, hoff, hloci⟩ := f.slot_spec hi
  obtain ⟨-, -, -, hlocj⟩ := f.slot_spec hj
  have hstack : (f.stack.store (f.vregOffset i) t.slotBytes v).load (f.vregOffset j) u.slotBytes
      = f.stack.load (f.vregOffset j) u.slotBytes :=
    Memory.load_store_of_disjoint _ v hdisj
  unfold value
  rw [abiLocation_setArgRaw]
  unfold setArgRaw
  rw [if_neg hlt]
  -- where the written parameter is, and for each where the other one is
  rcases hloci with ⟨n, -, hkind, hreg, hgp, hn⟩ | ⟨n, -, hkind, hreg, hfp, hn⟩ | ⟨-, hkind⟩
  · rcases hlocj with ⟨k, hk, -, -, hgp', hk'⟩ | ⟨k, hk, -⟩ | ⟨hk, -⟩
    · have hnk : k ≠ n := by
        have := takenBefore_ne (w := gpTaken) hi hj (by simp [gpTaken, hgp]) (by simp [gpTaken, hgp'])
          hne
        omega
      simp only [hk, hkind, hreg, valueAt, Function.update_of_ne hnk]
    · simp only [hk, hkind, valueAt]
    · -- a parameter in an `x` register is also stored in its vreg
      simp only [hk, hkind, hoff, hwide, valueAt]
      exact congrArg (· % 2 ^ u.bits) hstack
  · rcases hlocj with ⟨k, hk, -⟩ | ⟨k, hk, -, -, hfp', hk'⟩ | ⟨hk, -⟩
    · simp only [hk, hkind, valueAt]
    · have hnk : k ≠ n := by
        have := takenBefore_ne (w := fpTaken) hi hj (by simp [fpTaken, hfp]) (by simp [fpTaken, hfp'])
          hne
        omega
      simp only [hk, hkind, hreg, valueAt, Function.update_of_ne hnk]
    · simp only [hk, hkind, valueAt]
  · rcases hlocj with ⟨k, hk, -⟩ | ⟨k, hk, -⟩ | ⟨hk, -⟩
    · simp only [hk, hkind, valueAt]
    · simp only [hk, hkind, valueAt]
    · simp only [hk, hkind, hoff, hwide, valueAt]
      exact congrArg (· % 2 ^ u.bits) hstack

end CallFrame

end ArtPi.Frame
