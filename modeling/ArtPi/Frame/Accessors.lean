import ArtPi.Frame.Original

set_option autoImplicit false

/-! # The accessors of the arguments (`engine/pine/pine_native.h`, `engine/pine/pine_native.cpp`)

`getArgRaw` and `setArgRaw` go by the slot that `ComputeArtArgSlot` assigns. The slots of two parameters have no register
and no byte in common (`slots_apart`), which gives the laws of the two (`argument_laws`).

The other accessors are `getArg<T>`, the conversions and assignments of `ArgProxy`, and `getArgString`. All but one go
through `getArgRaw`: `getArg<float>` and `getArg<double>` take the index of the parameter for that of its register. A
`float` is stored as a `double`, of which the stack has room for one half (`accessors_agree_iff`). -/

namespace ArtPi.Frame

open ArtPi.Lib

namespace ArtArgSlot

/-- The bytes it has on the stack, also when the parameter is in an `x` register. -/
def bytes (slot : ArtArgSlot) : Nat := if slot.isWide then 8 else 4

/-- No register and no byte in common. -/
structure Apart (slot slot' : ArtArgSlot) : Prop where
  register : slot.kind = slot'.kind → slot.kind ≠ .stack → slot.regIdx ≠ slot'.regIdx
  stack : slot.stackOffset + slot.bytes ≤ slot'.stackOffset ∨ slot'.stackOffset + slot'.bytes ≤ slot.stackOffset

/-- What `getArgRaw` makes of the contents of a slot. -/
def widen (slot : ArtArgSlot) (n : Nat) : Nat :=
  match slot.kind with
  | .fpReg => n
  | .gpReg => if slot.type.isRef then n &&& 0xFFFFFFFF else n
  | .stack =>
    if slot.isWide then n
    else
      match slot.type with
      | .int => CallFrame.signExtend 32 n
      | .short => CallFrame.signExtend 16 n
      | .byte => CallFrame.signExtend 8 n
      | _ => n

/-- What is left of a value that is stored in a slot: 64 bits in a register, 32 of a reference; on the stack the width
of an `int`, `short` or `byte`, with its sign, and that of the slot for the others. -/
def reduced (slot : ArtArgSlot) (v : Nat) : Nat :=
  match slot.kind with
  | .fpReg => v % 2 ^ 64
  | .gpReg => if slot.type.isRef then v % 2 ^ 32 else v % 2 ^ 64
  | .stack =>
    if slot.isWide then v % 2 ^ 64
    else
      match slot.type with
      | .int => CallFrame.signExtend 32 v
      | .short => CallFrame.signExtend 16 v
      | .byte => CallFrame.signExtend 8 v
      | _ => v % 2 ^ 32

end ArtArgSlot

namespace CallFrame

/-- What is in a slot. -/
def contents (f : CallFrame) (slot : ArtArgSlot) : Nat :=
  match slot.kind with
  | .fpReg => (f.d slot.regIdx).toNat
  | .gpReg => (f.r slot.regIdx).toNat
  | .stack => f.stack.load slot.stackOffset slot.bytes

/-- What `setArgRaw` does to a slot. -/
def store (f : CallFrame) (slot : ArtArgSlot) (v : Nat) : CallFrame :=
  match slot.kind with
  | .fpReg => { f with d := Function.update f.d slot.regIdx (UInt64.ofNat v) }
  | .gpReg =>
    { f with
      r := Function.update f.r slot.regIdx (UInt64.ofNat v)
      stack := f.stack.store slot.stackOffset slot.bytes v }
  | .stack => { f with stack := f.stack.store slot.stackOffset slot.bytes v }

/-! ## The laws of the slots -/

theorem slots_apart (f : CallFrame) {i j : Nat} {t u : JType} (hi : f.argTypes[i]? = some t)
    (hj : f.argTypes[j]? = some u) (hne : i ≠ j) :
    (f.computeArtArgSlot i).Apart (f.computeArtArgSlot j) := by
  obtain ⟨-, hwide, hoff, hloc⟩ := f.slot_spec hi
  obtain ⟨-, hwide', hoff', hloc'⟩ := f.slot_spec hj
  constructor
  · intro hkind hreg
    -- registers of one file are taken one after another
    rcases hloc with ⟨n, -, hk, hn, hfp, hn'⟩ | ⟨n, -, hk, hn, hfp, hn'⟩ | ⟨-, hk⟩
    · rcases hloc' with ⟨m, -, hk', hm, hfp', hm'⟩ | ⟨m, -, hk', -⟩ | ⟨-, hk'⟩
      · have := @takenBefore_ne gpTaken _ _ _ _ _ hi hj (by simp [gpTaken, hfp]) (by simp [gpTaken, hfp']) hne
        omega
      · exact absurd (hk.symm.trans (hkind.trans hk')) SlotKind.noConfusion
      · exact absurd (hk.symm.trans (hkind.trans hk')) SlotKind.noConfusion
    · rcases hloc' with ⟨m, -, hk', -⟩ | ⟨m, -, hk', hm, hfp', hm'⟩ | ⟨-, hk'⟩
      · exact absurd (hk.symm.trans (hkind.trans hk')) SlotKind.noConfusion
      · have := @takenBefore_ne fpTaken _ _ _ _ _ hi hj (by simp [fpTaken, hfp]) (by simp [fpTaken, hfp']) hne
        omega
      · exact absurd (hk.symm.trans (hkind.trans hk')) SlotKind.noConfusion
    · exact absurd hk hreg
  · have hdisj := f.vregOffset_disjoint hi hj hne
    unfold ArtArgSlot.bytes
    rw [hwide, hwide', hoff, hoff']
    exact hdisj

theorem getArgRaw_eq (f : CallFrame) {i : Nat} (hi : i < f.argCount) :
    f.getArgRaw i = (f.computeArtArgSlot i).widen (f.contents (f.computeArtArgSlot i)) := by
  unfold getArgRaw contents ArtArgSlot.widen ArtArgSlot.bytes
  rw [if_neg (Nat.not_le.2 hi)]
  cases hkind : (f.computeArtArgSlot i).kind with
  | gpReg | fpReg => simp only [hkind]
  | stack =>
    simp only [hkind]
    cases hwide : (f.computeArtArgSlot i).isWide with
    | true => simp only [if_true]
    | false => cases (f.computeArtArgSlot i).type <;> simp only [Bool.false_eq_true, if_false]

theorem setArgRaw_eq (f : CallFrame) {i : Nat} (hi : i < f.argCount) (v : Nat) :
    f.setArgRaw i v = f.store (f.computeArtArgSlot i) v := by
  unfold setArgRaw store
  rw [if_neg (Nat.not_le.2 hi)]
  rfl

theorem signature_setArgRaw (f : CallFrame) (i v : Nat) :
    (f.setArgRaw i v).isStatic = f.isStatic ∧ (f.setArgRaw i v).argTypes = f.argTypes := by
  unfold setArgRaw
  split
  · exact ⟨rfl, rfl⟩
  · simp only
    split <;> exact ⟨rfl, rfl⟩

theorem argCount_setArgRaw (f : CallFrame) (i v : Nat) : (f.setArgRaw i v).argCount = f.argCount :=
  congrArg List.length (f.signature_setArgRaw i v).2

theorem computeArtArgSlot_setArgRaw (f : CallFrame) (i v j : Nat) :
    (f.setArgRaw i v).computeArtArgSlot j = f.computeArtArgSlot j := by
  unfold computeArtArgSlot
  rw [(f.signature_setArgRaw i v).1, (f.signature_setArgRaw i v).2]

theorem widen_contents_store (f : CallFrame) (slot : ArtArgSlot) (v : Nat) :
    slot.widen ((f.store slot v).contents slot) = slot.reduced v := by
  unfold store contents ArtArgSlot.widen ArtArgSlot.reduced
  cases hkind : slot.kind with
  | fpReg => simp only [Function.update_self, UInt64.toNat_ofNat']
  | gpReg =>
    have hmask : v % 2 ^ 64 % 2 ^ 32 = v % 2 ^ 32 := by omega
    simp only [Function.update_self, UInt64.toNat_ofNat', and_mask32, hmask]
  | stack =>
    simp only [Memory.load_store, ArtArgSlot.bytes]
    cases hwide : slot.isWide with
    | true =>
      simp only [if_true]
      rfl
    | false =>
      have h32 : v % 256 ^ 4 = v % 2 ^ 32 := rfl
      have hextend : ∀ w, w ≤ 32 → signExtend w (v % 2 ^ 32) = signExtend w v := by
        intro w hw
        unfold signExtend
        rw [Nat.mod_mod_of_dvd v (pow_dvd_pow 2 hw)]
      simp only [Bool.false_eq_true, if_false, h32, hextend 32 (by omega), hextend 16 (by omega),
        hextend 8 (by omega)]

theorem contents_store_of_apart (f : CallFrame) {slot slot' : ArtArgSlot} (v : Nat) (h : slot.Apart slot') :
    (f.store slot v).contents slot' = f.contents slot' := by
  obtain ⟨hreg, hstack⟩ := h
  unfold store contents
  cases hk : slot.kind with
  | fpReg =>
    cases hk' : slot'.kind with
    | fpReg =>
      have hne := hreg (hk.trans hk'.symm) (by rw [hk]; exact SlotKind.noConfusion)
      simp only [Function.update_of_ne (Ne.symm hne)]
    | gpReg | stack => rfl
  | gpReg =>
    cases hk' : slot'.kind with
    | fpReg => rfl
    | gpReg =>
      have hne := hreg (hk.trans hk'.symm) (by rw [hk]; exact SlotKind.noConfusion)
      simp only [Function.update_of_ne (Ne.symm hne)]
    | stack => exact Memory.load_store_of_disjoint _ v hstack
  | stack =>
    cases hk' : slot'.kind with
    | fpReg | gpReg => rfl
    | stack => exact Memory.load_store_of_disjoint _ v hstack

theorem getArgRaw_setArgRaw (f : CallFrame) {i : Nat} (hi : i < f.argCount) (v : Nat) :
    (f.setArgRaw i v).getArgRaw i = (f.computeArtArgSlot i).reduced v := by
  have hi' : i < (f.setArgRaw i v).argCount := by rwa [argCount_setArgRaw]
  rw [getArgRaw_eq _ hi', computeArtArgSlot_setArgRaw, f.setArgRaw_eq hi, widen_contents_store]

theorem getArgRaw_setArgRaw_of_ne (f : CallFrame) {i j : Nat} (hi : i < f.argCount) (hne : i ≠ j) (v : Nat) :
    (f.setArgRaw i v).getArgRaw j = f.getArgRaw j := by
  have hcount := f.argCount_setArgRaw i v
  by_cases hj : j < f.argCount
  · have hapart := f.slots_apart (List.getElem?_eq_getElem hi) (List.getElem?_eq_getElem hj) hne
    rw [getArgRaw_eq _ (by rwa [hcount]), getArgRaw_eq _ hj, computeArtArgSlot_setArgRaw, f.setArgRaw_eq hi,
      f.contents_store_of_apart v hapart]
  · unfold getArgRaw
    rw [hcount, if_pos (Nat.le_of_not_lt hj), if_pos (Nat.le_of_not_lt hj)]

/-- The slots of two parameters are apart; what is written to a parameter is read back in the width of its slot, and in
the width of its type it is what was written; and the other parameters read as before. -/
theorem argument_laws (f : CallFrame) {i : Nat} {t : JType} (hget : f.argTypes[i]? = some t) (v : Nat) :
    (∀ j u, f.argTypes[j]? = some u → i ≠ j → (f.computeArtArgSlot i).Apart (f.computeArtArgSlot j)) ∧
    (f.setArgRaw i v).getArgRaw i = (f.computeArtArgSlot i).reduced v ∧
    (f.setArgRaw i v).getArgRaw i % 2 ^ t.bits = v % 2 ^ t.bits ∧
    ∀ j, i ≠ j → (f.setArgRaw i v).getArgRaw j = f.getArgRaw j := by
  have hi : i < f.argCount := (List.getElem?_eq_some_iff.1 hget).1
  refine ⟨fun j u hj hne => f.slots_apart hget hj hne, f.getArgRaw_setArgRaw hi v, ?_,
    fun j hne => f.getArgRaw_setArgRaw_of_ne hi hne v⟩
  have hget' : (f.setArgRaw i v).argTypes[i]? = some t := by rwa [(f.signature_setArgRaw i v).2]
  rw [getArgRaw_mod _ hget', f.value_setArgRaw hget]

/-- An instance method with six `int`s, which take the registers, and a `short`. -/
def shortOnStack : CallFrame where
  isStatic := false
  argTypes := List.replicate 6 .int ++ [.short]
  r := fun _ => 0
  d := fun _ => 0
  stack := fun _ => 0

theorem argument_laws_short : (shortOnStack.setArgRaw 6 0x1FFFF).getArgRaw 6 = 2 ^ 64 - 1 :=
  (shortOnStack.argument_laws rfl 0x1FFFF).2.1

/-! ## The accessors -/

/-- The types of `getArg<T>`; the integral ones by their width. -/
inductive TemplateType where
  | object
  | float
  | double
  | pointer
  | bool
  | integral (bits : Nat)

def TemplateType.isFloating : TemplateType → Bool
  | .float | .double => true
  | _ => false

/-- `getArg<T>`. -/
def getArgT (refs : LocalRefs) (f : CallFrame) (index : Nat) : TemplateType → Nat
  | .object => f.getArg refs index
  | .float => doubleToSingle (f.d index).toNat
  | .double => (f.d index).toNat
  | .pointer => f.getArgRaw index
  | .bool => if f.getArgRaw index ≠ 0 then 1 else 0
  | .integral bits => f.getArgRaw index % 2 ^ bits

/-- The types of the values of an `ArgProxy`. -/
inductive ProxyType where
  | int
  | jlong
  | bool
  | double
  | float

/-- The conversions of `ArgProxy`, floating-point values by their bits. -/
def argProxy (f : CallFrame) (index : Nat) : ProxyType → Nat
  | .int => f.getArgRaw index % 2 ^ 32
  | .jlong => f.getArgRaw index
  | .bool => if f.getArgRaw index ≠ 0 then 1 else 0
  | .double => f.getArgRaw index
  | .float => doubleToSingle (f.getArgRaw index)

/-- What `getArgString` formats. -/
inductive ArgText where
  | none
  | string (obj : Nat)
  | decimal (bits n : Nat)
  | truth (b : Bool)
  | char (c : Nat)
  | general (double : Nat)
  | array (obj : Nat) (elem : String)
  | object (obj raw : Nat) (className : String)

def getArgString (refs : LocalRefs) (f : CallFrame) (index : Nat) : ArgText :=
  match f.argTypes[index]? with
  | none => .none
  | some t =>
    match t with
    | .int | .short | .byte => .decimal 32 (f.getArgRaw index % 2 ^ 32)
    | .boolean => .truth (f.getArgRaw index ≠ 0)
    | .long => .decimal 64 (f.getArgRaw index)
    | .char => .char (f.getArgRaw index % 2 ^ 8)
    | .double | .float => .general (f.getArgRaw index)
    | .array elem => .array (f.getArg refs index) elem
    | .object className =>
      let obj := f.getArg refs index
      if t = .string then .string obj
      else
        let raw := f.getArgRaw index
        .object obj (if raw = 0 ∧ obj ≠ 0 then refs.decodeJObject obj else raw) className

/-- What is read depends on nothing but the contents of the parameter's slot. -/
def ReadsSlot {α : Type} (f : CallFrame) (index : Nat) (read : CallFrame → α) : Prop :=
  ∀ g : CallFrame, g.isStatic = f.isStatic → g.argTypes = f.argTypes →
    g.contents (f.computeArtArgSlot index) = f.contents (f.computeArtArgSlot index) → read g = read f

theorem computeArtArgSlot_congr {f g : CallFrame} (hstatic : g.isStatic = f.isStatic)
    (htypes : g.argTypes = f.argTypes) (index : Nat) : g.computeArtArgSlot index = f.computeArtArgSlot index := by
  unfold computeArtArgSlot
  rw [hstatic, htypes]

theorem readsSlot_getArgRaw (f : CallFrame) (index : Nat) : ReadsSlot f index (getArgRaw · index) := by
  intro g hstatic htypes hcontents
  have hcount : g.argCount = f.argCount := congrArg List.length htypes
  show g.getArgRaw index = f.getArgRaw index
  by_cases hi : index < f.argCount
  · rw [getArgRaw_eq f hi, getArgRaw_eq g (by rwa [hcount]), computeArtArgSlot_congr hstatic htypes, hcontents]
  · unfold getArgRaw
    rw [hcount, if_pos (Nat.le_of_not_lt hi), if_pos (Nat.le_of_not_lt hi)]

theorem readsSlot_getArg (refs : LocalRefs) (f : CallFrame) (index : Nat) :
    ReadsSlot f index (fun g => g.getArg refs index) := by
  intro g hstatic htypes hcontents
  show g.getArg refs index = f.getArg refs index
  unfold getArg
  rw [htypes]
  cases hget : f.argTypes[index]? with
  | none => rfl
  | some t =>
    show (if t.isRef then _ else _) = if t.isRef then _ else _
    by_cases href : t.isRef = true
    · rw [if_pos href, if_pos href]
      obtain ⟨-, hfp, hnarrow⟩ := JType.of_isRef href
      obtain ⟨-, hwide, -, hloc⟩ := f.slot_spec hget
      have harg : g.argRef index = f.argRef index := by
        unfold argRef
        unfold contents ArtArgSlot.bytes at hcontents
        rw [computeArtArgSlot_congr hstatic htypes]
        rcases hloc with ⟨-, -, hkind, -⟩ | ⟨-, -, -, -, htrue, -⟩ | ⟨-, hkind⟩
        · simp only [hkind] at hcontents ⊢
          rw [hcontents]
        · exact absurd (hfp.symm.trans htrue) Bool.false_ne_true
        · simp only [hkind, hwide, hnarrow, Bool.false_eq_true, if_false] at hcontents ⊢
          exact hcontents
      rw [harg]
    · rw [if_neg href, if_neg href]

/-- The parameter and those in front of it are floating-point ones, and their registers suffice. -/
def FloatingSoFar (f : CallFrame) (index : Nat) : Prop :=
  index < 8 ∧ ∀ j t, j ≤ index → f.argTypes[j]? = some t → t.isFp = true

theorem fpTaken_le (t : JType) : fpTaken t ≤ 1 := by
  unfold fpTaken
  split <;> omega

theorem takenBefore_fpTaken_le (types : List JType) (i : Nat) : takenBefore fpTaken types i ≤ i := by
  induction types generalizing i with
  | nil => simp [takenBefore]
  | cons u types ih =>
    cases i with
    | zero => simp [takenBefore]
    | succ i =>
      have hrest := ih i
      have hu := fpTaken_le u
      rw [takenBefore_cons]
      omega

theorem takenBefore_fpTaken_eq_iff {types : List JType} {i : Nat} (hi : i ≤ types.length) :
    takenBefore fpTaken types i = i ↔ ∀ j t, j < i → types[j]? = some t → t.isFp = true := by
  induction types generalizing i with
  | nil =>
    obtain rfl := Nat.le_zero.1 hi
    exact iff_of_true rfl (fun j t hj => absurd hj (Nat.not_lt_zero j))
  | cons u types ih =>
    cases i with
    | zero => exact iff_of_true rfl (fun j t hj => absurd hj (Nat.not_lt_zero j))
    | succ i =>
      have hrest := ih (Nat.le_of_succ_le_succ hi)
      have hle := takenBefore_fpTaken_le types i
      rw [takenBefore_cons]
      constructor
      · intro h j t hj hget
        cases j with
        | zero =>
          obtain rfl : u = t := Option.some.inj hget
          by_contra hfp
          rw [show fpTaken u = 0 from if_neg hfp] at h
          omega
        | succ j =>
          have hu := fpTaken_le u
          exact hrest.1 (by omega) j t (Nat.lt_of_succ_lt_succ hj) hget
      · intro h
        have hu : fpTaken u = 1 := if_pos (h 0 u (Nat.succ_pos i) rfl)
        rw [hu, hrest.2 (fun j t hj hget => h (j + 1) t (Nat.succ_lt_succ hj) hget), Nat.add_comm]

theorem slot_eq_index_iff (f : CallFrame) {index : Nat} {t : JType} (hget : f.argTypes[index]? = some t) :
    (f.computeArtArgSlot index).kind = .fpReg ∧ (f.computeArtArgSlot index).regIdx = index ↔
      f.FloatingSoFar index := by
  have hlt := (List.getElem?_eq_some_iff.1 hget).1
  have hiff := takenBefore_fpTaken_eq_iff (Nat.le_of_lt hlt)
  have hfpOf : ∀ u, f.argTypes[index]? = some u → u = t := fun u hu => Option.some.inj (hu.symm.trans hget)
  rw [f.computeArtArgSlot_eq hget]
  unfold slotFor FloatingSoFar
  simp only
  constructor
  · rintro ⟨hkind, hreg⟩
    have hfp : t.isFp = true := by
      by_contra hno
      rw [if_neg hno] at hkind
      split_ifs at hkind
    rw [if_pos hfp] at hkind hreg
    have h8 : min 8 (takenBefore fpTaken f.argTypes index) < 8 := by
      by_contra hno
      rw [if_neg hno] at hkind
      exact SlotKind.noConfusion hkind
    rw [if_pos h8] at hreg
    have hall := hiff.1 (by omega)
    refine ⟨by omega, fun j u hj hu => ?_⟩
    rcases Nat.lt_or_eq_of_le hj with hj | rfl
    · exact hall j u hj hu
    · rw [hfpOf u hu, hfp]
  · rintro ⟨h8, hall⟩
    have hfp : t.isFp = true := hall index t (Nat.le_refl _) hget
    have htaken := hiff.2 (fun j u hj hu => hall j u (Nat.le_of_lt hj) hu)
    rw [htaken, if_pos hfp, if_pos hfp, Nat.min_eq_right (Nat.le_of_lt h8), if_pos h8, if_pos h8]
    exact ⟨rfl, rfl⟩

/-! ## Assignments -/

/-- A value that is assigned to an `ArgProxy`, floating-point ones by their bits. -/
inductive ProxyValue where
  | int (v : BitVec 32)
  | jlong (v : BitVec 64)
  | bool (b : Bool)
  | double (bits : BitVec 64)
  | float (bits : BitVec 32)

namespace ProxyValue

def proxyType : ProxyValue → ProxyType
  | .int _ => .int
  | .jlong _ => .jlong
  | .bool _ => .bool
  | .double _ => .double
  | .float _ => .float

/-- The parameters of the same type. -/
def paramType : ProxyValue → JType
  | .int _ => .int
  | .jlong _ => .long
  | .bool _ => .boolean
  | .double _ => .double
  | .float _ => .float

def bits : ProxyValue → Nat
  | .int v => v.toNat
  | .jlong v => v.toNat
  | .bool b => b.toNat
  | .double bits => bits.toNat
  | .float bits => bits.toNat

/-- What the assignment gives to `setArgRaw`. -/
def raw : ProxyValue → Nat
  | .int v => signExtend 32 v.toNat
  | .jlong v => v.toNat
  | .bool b => if b then 1 else 0
  | .double bits => bits.toNat
  | .float bits => singleToDouble bits.toNat

/-- A `float` is not a signaling NaN, or is zero where it is on the stack. -/
def Kept (f : CallFrame) (index : Nat) : ProxyValue → Prop
  | .float bits =>
    if takenBefore fpTaken f.argTypes index < 8 then ¬ IsSignalingSingle bits.toNat else bits = 0
  | .int _ | .jlong _ | .bool _ | .double _ => True

end ProxyValue

/-- `ArgProxy::operator=`. -/
def assign (f : CallFrame) (index : Nat) (v : ProxyValue) : CallFrame := f.setArgRaw index v.raw

theorem reduced_float (f : CallFrame) {index : Nat} (hget : f.argTypes[index]? = some .float) (v : Nat) :
    (f.computeArtArgSlot index).reduced v =
      if takenBefore fpTaken f.argTypes index < 8 then v % 2 ^ 64 else v % 2 ^ 32 := by
  rw [f.computeArtArgSlot_eq hget]
  unfold slotFor ArtArgSlot.reduced
  simp only [JType.isFp, JType.isWide, if_true]
  by_cases h8 : takenBefore fpTaken f.argTypes index < 8
  · rw [if_pos (show min 8 (takenBefore fpTaken f.argTypes index) < 8 by omega), if_pos h8]
  · rw [if_neg (show ¬ min 8 (takenBefore fpTaken f.argTypes index) < 8 by omega), if_neg h8]
    rfl

theorem reduced_wide (f : CallFrame) {index : Nat} {t : JType} (hget : f.argTypes[index]? = some t)
    (hwide : t.isWide = true) (href : t.isRef = false) (v : Nat) :
    (f.computeArtArgSlot index).reduced v = v % 2 ^ 64 := by
  obtain ⟨htype, hslot, -, -⟩ := f.slot_spec hget
  unfold ArtArgSlot.reduced
  rw [htype, hslot, hwide, href]
  cases (f.computeArtArgSlot index).kind <;> rfl

theorem argProxy_assign_iff (f : CallFrame) {index : Nat} {t : JType} (hget : f.argTypes[index]? = some t)
    (v : ProxyValue) (hv : v.paramType = t) :
    (f.assign index v).argProxy index v.proxyType = v.bits ↔ v.Kept f index := by
  have hi : index < f.argCount := (List.getElem?_eq_some_iff.1 hget).1
  obtain ⟨htype, hwide, -, hloc⟩ := f.slot_spec hget
  have hraw := f.getArgRaw_setArgRaw hi v.raw
  subst hv
  cases v with
  | int v =>
    have hmod : (f.setArgRaw index (signExtend 32 v.toNat)).getArgRaw index % 2 ^ 32 = v.toNat := by
      have hlaw := (f.argument_laws hget (signExtend 32 v.toNat)).2.2.1
      rw [show (ProxyValue.int v).paramType.bits = 32 from rfl, signExtend_mod (Or.inr (Or.inr rfl)),
        Nat.mod_eq_of_lt v.isLt] at hlaw
      exact hlaw
    exact iff_of_true hmod trivial
  | jlong v =>
    have hred := f.reduced_wide hget rfl rfl v.toNat
    exact iff_of_true (hraw.trans (hred.trans (Nat.mod_eq_of_lt v.isLt))) trivial
  | double bits =>
    have hred := f.reduced_wide hget rfl rfl bits.toNat
    exact iff_of_true (hraw.trans (hred.trans (Nat.mod_eq_of_lt bits.isLt))) trivial
  | bool b =>
    have hred : (f.computeArtArgSlot index).reduced (if b then 1 else 0) = b.toNat := by
      unfold ArtArgSlot.reduced
      rw [htype, hwide]
      cases (f.computeArtArgSlot index).kind <;> cases b <;> rfl
    refine iff_of_true ?_ trivial
    show (if (f.setArgRaw index (if b then 1 else 0)).getArgRaw index ≠ 0 then 1 else 0) = b.toNat
    rw [f.getArgRaw_setArgRaw hi, hred]
    cases b <;> rfl
  | float bits =>
    show doubleToSingle ((f.setArgRaw index (singleToDouble bits.toNat)).getArgRaw index) = bits.toNat ↔
      if takenBefore fpTaken f.argTypes index < 8 then ¬ IsSignalingSingle bits.toNat else bits = 0
    rw [f.getArgRaw_setArgRaw hi, f.reduced_float hget]
    split
    · rw [Nat.mod_eq_of_lt (singleToDouble_lt _)]
      exact doubleToSingle_singleToDouble_iff bits.isLt
    · rw [doubleToSingle_of_lt (Nat.mod_lt _ (by omega)), eq_comm]
      exact @BitVec.toNat_inj 32 bits 0

/-- What depends on `d[index]` reads the slot iff that is the slot: in another register or on the stack, the bits of
`d[index]` can be any. -/
theorem readsSlot_register_iff (f : CallFrame) {index : Nat} {t : JType} (hget : f.argTypes[index]? = some t)
    {read : Nat → Nat} (hread : read 0 ≠ read 0x3FF0000000000000) :
    ReadsSlot f index (fun g => read (g.d index).toNat) ↔ f.FloatingSoFar index := by
  rw [← f.slot_eq_index_iff hget]
  constructor
  · intro h
    by_contra hother
    have hsame : ∀ v, read ((Function.update f.d index v) index).toNat = read (f.d index).toNat := by
      intro v
      refine h { f with d := Function.update f.d index v } rfl rfl ?_
      unfold contents
      cases hkind : (f.computeArtArgSlot index).kind with
      | gpReg | stack => rfl
      | fpReg =>
        have hne : (f.computeArtArgSlot index).regIdx ≠ index := fun heq => hother ⟨hkind, heq⟩
        simp only [Function.update_of_ne hne]
    have h0 := hsame 0
    have h1 := hsame 0x3FF0000000000000
    rw [Function.update_self] at h0 h1
    exact hread (h0.trans h1.symm)
  · rintro ⟨hkind, hreg⟩ g - - hcontents
    unfold contents at hcontents
    simp only [hkind, hreg] at hcontents
    show read (g.d index).toNat = read (f.d index).toNat
    rw [hcontents]

theorem readsSlot_getArgT_iff (refs : LocalRefs) (f : CallFrame) {index : Nat} {t : JType}
    (hget : f.argTypes[index]? = some t) (T : TemplateType) :
    ReadsSlot f index (fun g => g.getArgT refs index T) ↔ (T.isFloating = true → f.FloatingSoFar index) := by
  have hraw := f.readsSlot_getArgRaw index
  cases T with
  | object => exact iff_of_true (f.readsSlot_getArg refs index) (fun h => absurd h Bool.false_ne_true)
  | float =>
    have hone : doubleToSingle 0 ≠ doubleToSingle 0x3FF0000000000000 := by decide +kernel
    exact (f.readsSlot_register_iff hget hone).trans (imp_iff_right rfl).symm
  | double =>
    have hone : id 0 ≠ id 0x3FF0000000000000 := by decide
    exact (f.readsSlot_register_iff hget hone).trans (imp_iff_right rfl).symm
  | pointer => exact iff_of_true hraw (fun h => absurd h Bool.false_ne_true)
  | bool =>
    refine iff_of_true (fun g hs ht hc => ?_) (fun h => absurd h Bool.false_ne_true)
    exact congrArg (fun raw => if raw ≠ 0 then 1 else 0) (hraw g hs ht hc)
  | integral bits =>
    exact iff_of_true (fun g hs ht hc => congrArg (· % 2 ^ bits) (hraw g hs ht hc))
      (fun h => absurd h Bool.false_ne_true)

theorem readsSlot_argProxy (f : CallFrame) (index : Nat) (T : ProxyType) :
    ReadsSlot f index (fun g => g.argProxy index T) := by
  intro g hs ht hc
  have hraw : g.getArgRaw index = f.getArgRaw index := f.readsSlot_getArgRaw index g hs ht hc
  show g.argProxy index T = f.argProxy index T
  cases T <;> simp only [argProxy, hraw]

theorem readsSlot_getArgString (refs : LocalRefs) (f : CallFrame) (index : Nat) :
    ReadsSlot f index (fun g => g.getArgString refs index) := by
  intro g hs ht hc
  have hraw : g.getArgRaw index = f.getArgRaw index := f.readsSlot_getArgRaw index g hs ht hc
  have hobj : g.getArg refs index = f.getArg refs index := f.readsSlot_getArg refs index g hs ht hc
  show g.getArgString refs index = f.getArgString refs index
  simp only [getArgString, ht, hraw, hobj]

/-- The accessors read the slot of the parameter, `getArg<float>` and `getArg<double>` if and only if everything so far
is floating-point; and what is assigned is read back, a `float` if and only if it survives as a `double` in its slot. -/
theorem accessors_agree_iff (refs : LocalRefs) (f : CallFrame) {index : Nat} {t : JType}
    (hget : f.argTypes[index]? = some t) :
    (∀ T : TemplateType, ReadsSlot f index (fun g => g.getArgT refs index T) ↔
      (T.isFloating = true → f.FloatingSoFar index)) ∧
    (∀ T : ProxyType, ReadsSlot f index (fun g => g.argProxy index T)) ∧
    ReadsSlot f index (fun g => g.getArgString refs index) ∧
    ∀ v : ProxyValue, v.paramType = t →
      ((f.assign index v).argProxy index v.proxyType = v.bits ↔ v.Kept f index) :=
  ⟨f.readsSlot_getArgT_iff refs hget, f.readsSlot_argProxy index, f.readsSlot_getArgString refs index,
    f.argProxy_assign_iff hget⟩

theorem accessors_agree_oneFloat :
    ReadsSlot oneFloat 0 (fun g => g.getArgT plainRefs 0 .float) ∧
    (oneFloat.assign 0 (.float 0x3F800000)).argProxy 0 .float = 0x3F800000 := by
  have h := oneFloat.accessors_agree_iff plainRefs (rfl : oneFloat.argTypes[0]? = some .float)
  have hsofar : oneFloat.FloatingSoFar 0 := by
    refine ⟨by decide, fun j t hj hget => ?_⟩
    obtain rfl := Nat.le_zero.1 hj
    obtain rfl : .float = t := Option.some.inj hget
    rfl
  have hquiet : ¬ IsSignalingSingle 0x3F800000 := by decide
  have hkept : (ProxyValue.float 0x3F800000).Kept oneFloat 0 := hquiet
  exact ⟨(h.1 .float).2 (fun _ => hsofar), (h.2.2.2 (.float 0x3F800000) rfl).2 hkept⟩

/-- A static method with an `int` and a `double`. -/
def intAndDouble : CallFrame where
  isStatic := true
  argTypes := [.int, .double]
  r := fun _ => 0
  d := fun _ => 0
  stack := fun _ => 0

/-- A static method with nine `float`s. -/
def nineFloats : CallFrame where
  isStatic := true
  argTypes := List.replicate 9 .float
  r := fun _ => 0
  d := fun _ => 0
  stack := fun _ => 0

/-- `getArg<double>` reads `d1` for a parameter that is in `d0`; and `1.0f` is zero when it comes back from the stack. -/
theorem accessors_disagree :
    ¬ ReadsSlot intAndDouble 1 (fun g => g.getArgT plainRefs 1 .double) ∧
    (nineFloats.assign 8 (.float 0x3F800000)).argProxy 8 .float ≠ 0x3F800000 := by
  constructor
  · intro h
    have hread := h { intAndDouble with d := Function.update intAndDouble.d 1 1 } rfl rfl (by decide)
    exact absurd hread (by decide)
  · decide +kernel

end CallFrame

end ArtPi.Frame
