import ArtPi.Interp.Execute
import ArtPi.Lib.TwosComplement

set_option autoImplicit false

/-! # Arithmetic of the interpreter

What Java has the integer instructions compute, on integers that are cut to 32 or 64 bits at the end, by the
opcodes of the Dalvik instruction set. `dispatch_java` says that the handlers compute that: the two divisions
that trap, the distance of a shift and the sign of a literal are where the C++ operators differ. -/

namespace ArtPi.Interp.Machine

open Dex Constants Lib

variable {σ : Type}

/-! ## Java's operations -/

inductive JavaOp where
  | bin (op : BinOp)
  | shift (op : ShiftOp)
  | rsub
  deriving DecidableEq

/-- The value of a binary operation on integers of a width, which is still to be cut to the width. `none` is a
    division by zero. -/
def JavaOp.value (w : Nat) (a b : Int) : JavaOp → Option Int
  | .bin .add => some (a + b)
  | .bin .sub => some (a - b)
  | .bin .mul => some (a * b)
  | .bin .div => if b = 0 then none else some (a.tdiv b)
  | .bin .rem => if b = 0 then none else some (a.tmod b)
  | .bin .and => some (Int.land a b)
  | .bin .or => some (Int.lor a b)
  | .bin .xor => some (Int.xor a b)
  | .shift .shl => some (a * 2 ^ (b % w).toNat)
  | .shift .shr => some (a / 2 ^ (b % w).toNat)
  | .shift .ushr => some (a % 2 ^ w / 2 ^ (b % w).toNat)
  | .rsub => some (b - a)

/-- The unary operations between integers. -/
inductive JavaUnary where
  | neg (long : Bool)
  | not (long : Bool)
  | intToLong
  | longToInt
  | intToByte
  | intToChar
  | intToShort
  deriving DecidableEq

def JavaUnary.value (a : Int) : JavaUnary → Int
  | .neg _ => -a
  | .not _ => -a - 1
  | .intToLong | .longToInt => a
  | .intToByte => a.bmod (2 ^ 8)
  | .intToChar => a % 2 ^ 16
  | .intToShort => a.bmod (2 ^ 16)

def JavaUnary.takesLong : JavaUnary → Bool
  | .neg long | .not long => long
  | .longToInt => true
  | _ => false

def JavaUnary.givesLong : JavaUnary → Bool
  | .neg long | .not long => long
  | .intToLong => true
  | _ => false

/-- Where the operands of a binary instruction come from. -/
inductive Shape where
  | threeAddress
  | twoAddress
  | lit16
  | lit8
  deriving DecidableEq

def Shape.form : Shape → Format
  | .threeAddress => .k23x
  | .twoAddress => .k12x
  | .lit16 => .k22s
  | .lit8 => .k22b

inductive JavaInsn where
  | binary (op : JavaOp) (long : Bool) (shape : Shape)
  | unary (op : JavaUnary)
  | cmpLong
  deriving DecidableEq

def javaBinary : List JavaOp :=
  [.bin .add, .bin .sub, .bin .mul, .bin .div, .bin .rem, .bin .and, .bin .or, .bin .xor,
    .shift .shl, .shift .shr, .shift .ushr]

/-- With a literal `rsub` stands in the place of `sub`. -/
def javaLiteral : List JavaOp := javaBinary.set 1 .rsub

/-- The integer instructions, by opcode. -/
def javaInsn (opcode : Nat) : Option JavaInsn :=
  let at' (start : Nat) (ops : List JavaOp) (long : Bool) (shape : Shape) : Option JavaInsn :=
    if start ≤ opcode then (ops[opcode - start]?).map (.binary · long shape) else none
  let unary : List (Nat × JavaUnary) :=
    [(0x7b, .neg false), (0x7c, .not false), (0x7d, .neg true), (0x7e, .not true), (0x81, .intToLong),
      (0x84, .longToInt), (0x8d, .intToByte), (0x8e, .intToChar), (0x8f, .intToShort)]
  if opcode = 0x31 then some .cmpLong
  else
    ((unary.lookup opcode).map JavaInsn.unary).or <|
    (at' 0x90 javaBinary false .threeAddress).or <| (at' 0x9b javaBinary true .threeAddress).or <|
    (at' 0xb0 javaBinary false .twoAddress).or <| (at' 0xbb javaBinary true .twoAddress).or <|
    (at' 0xd0 (javaLiteral.take 8) false .lit16).or <| at' 0xd8 javaLiteral false .lit8

def JavaInsn.form : JavaInsn → Format
  | .binary _ _ shape => shape.form
  | .unary _ => .k12x
  | .cmpLong => .k23x

def JavaInsn.givesLong : JavaInsn → Bool
  | .binary _ long _ => long
  | .unary op => op.givesLong
  | .cmpLong => false

/-- An `int` or a `long` in a register. -/
def registerInt (vm : Vm σ) (long : Bool) (idx : Nat) : Int :=
  if long then (getRegisterWide vm idx).toInt else (getRegister vm idx).toInt

/-- The distance of a shift is an `int` even if a `long` is shifted. -/
def JavaOp.secondLong (long : Bool) : JavaOp → Bool
  | .shift _ => false
  | _ => long

def JavaInsn.value (vm : Vm σ) (o : Operands Int) : JavaInsn → Option Int
  | .binary op long .threeAddress =>
    op.value (if long then 64 else 32) (registerInt vm long o.vB) (registerInt vm (op.secondLong long) o.vC)
  | .binary op long .twoAddress =>
    op.value (if long then 64 else 32) (registerInt vm long o.vA) (registerInt vm (op.secondLong long) o.vB)
  | .binary op long .lit16 | .binary op long .lit8 =>
    op.value (if long then 64 else 32) (registerInt vm long o.vB) o.lit
  | .unary op => some (op.value (registerInt vm op.takesLong o.vB))
  | .cmpLong => some (registerInt vm true o.vB - registerInt vm true o.vC).sign

/-! ## Words -/

section Words

variable {w : Nat}

theorem toInt_eq_zero {a : BitVec w} : a.toInt = 0 ↔ a = 0 := by
  rw [← BitVec.toInt_zero, BitVec.toInt_inj]
  rfl

theorem binop_java (op : BinOp) (a b : BitVec w) :
    binop op a b = ((JavaOp.bin op).value w a.toInt b.toInt).map (BitVec.ofInt w) := by
  have hdiv (f : Int → Int → Int) (g : BitVec w → BitVec w → BitVec w) (h : BitVec.ofInt w (f a.toInt b.toInt) = g a b) :
      (if b = 0 then none else some (g a b)) =
        (if b.toInt = 0 then none else some (f a.toInt b.toInt)).map (BitVec.ofInt w) := by
    by_cases hb : b = 0
    · rw [if_pos hb, if_pos (toInt_eq_zero.2 hb)]
      rfl
    · rw [if_neg hb, if_neg (fun h0 => hb (toInt_eq_zero.1 h0)), Option.map_some, h]
  cases op with
  | add => simp [binop, JavaOp.value, BitVec.ofInt_add]
  | sub => simp [binop, JavaOp.value, ofInt_sub]
  | mul => simp [binop, JavaOp.value, BitVec.ofInt_mul]
  | and => simp [binop, JavaOp.value, ofInt_land]
  | or => simp [binop, JavaOp.value, ofInt_lor]
  | xor => simp [binop, JavaOp.value, ofInt_xor]
  | div =>
    -- the quotient that does not fit is the dividend itself
    refine Eq.trans ?_ (hdiv Int.tdiv BitVec.sdiv (ofInt_tdiv a b))
    simp only [binop]
    refine if_congr Iff.rfl rfl ?_
    split
    · next h =>
        rw [h.1, h.2]
        exact congrArg some BitVec.intMin_sdiv_neg_one.symm
    · rfl
  | rem =>
    refine Eq.trans ?_ (hdiv Int.tmod BitVec.srem (ofInt_tmod a b))
    simp only [binop]
    refine if_congr Iff.rfl rfl ?_
    split
    · next h => rw [h.2, srem_neg_one]
    · rfl

theorem shiftop_java (op : ShiftOp) (a : BitVec w) (b mask : BitVec 32)
    (hmask : (b &&& mask).toNat = (b.toInt % w).toNat) :
    some (shiftop op mask a b) = ((JavaOp.shift op).value w a.toInt b.toInt).map (BitVec.ofInt w) := by
  cases op with
  | shl => simp only [shiftop, JavaOp.value, Option.map_some, hmask, ofInt_shiftLeft]
  | shr => simp only [shiftop, JavaOp.value, Option.map_some, hmask, ofInt_shiftRight]
  | ushr => simp only [shiftop, JavaOp.value, Option.map_some, hmask, ofInt_ushiftRight]

theorem toNat_and_mask (b : BitVec 32) {k : Nat} (hk : k ≤ 32) :
    (b &&& BitVec.ofNat 32 (2 ^ k - 1)).toNat = (b.toInt % (2 ^ k : Nat)).toNat := by
  have hmod : b.toInt % (2 ^ k : Nat) = ((b.toNat % 2 ^ k : Nat) : Int) := by
    have hdvd : ((2 ^ k : Nat) : Int) ∣ 2 ^ 32 := by exact_mod_cast pow_dvd_pow 2 hk
    rw [← Int.emod_emod_of_dvd b.toInt hdvd, toInt_emod]
    rfl
  have hlt : 2 ^ k - 1 < 2 ^ 32 := Nat.lt_of_lt_of_le (Nat.sub_one_lt (by positivity)) (Nat.pow_le_pow_right (by decide) hk)
  rw [hmod, Int.toNat_natCast, BitVec.toNat_and, BitVec.toNat_ofNat, Nat.mod_eq_of_lt hlt,
    Nat.and_two_pow_sub_one_eq_mod]

end Words

/-! ## Handlers -/

/-- What a handler computes. -/
def Handler.java : Handler → Option JavaInsn
  | .xInt op => some (.binary (.bin op) false .threeAddress)
  | .shxInt op => some (.binary (.shift op) false .threeAddress)
  | .xLong op => some (.binary (.bin op) true .threeAddress)
  | .shxLong op => some (.binary (.shift op) true .threeAddress)
  | .xInt2addr op => some (.binary (.bin op) false .twoAddress)
  | .shxInt2addr op => some (.binary (.shift op) false .twoAddress)
  | .xLong2addr op => some (.binary (.bin op) true .twoAddress)
  | .shxLong2addr op => some (.binary (.shift op) true .twoAddress)
  | .xIntLit16 op => some (.binary (.bin op) false .lit16)
  | .rsubInt => some (.binary .rsub false .lit16)
  | .xIntLit8 op => some (.binary (.bin op) false .lit8)
  | .rsubIntLit8 => some (.binary .rsub false .lit8)
  | .shxIntLit8 op => some (.binary (.shift op) false .lit8)
  | .cmpLong => some .cmpLong
  | .unop .negInt => some (.unary (.neg false))
  | .unop .notInt => some (.unary (.not false))
  | .unop .negLong => some (.unary (.neg true))
  | .unop .notLong => some (.unary (.not true))
  | .unop .intToLong => some (.unary .intToLong)
  | .unop .longToInt => some (.unary .longToInt)
  | .unop .intToByte => some (.unary .intToByte)
  | .unop .intToChar => some (.unary .intToChar)
  | .unop .intToShort => some (.unary .intToShort)
  | _ => none

set_option maxRecDepth 8192 in
theorem java_handlerOf : ∀ opcode < 256, (javaInsn opcode).isSome →
    (handlerOf opcode).java = javaInsn opcode ∧ some (handlerOf opcode).form = (javaInsn opcode).map JavaInsn.form := by
  have hall : ∀ x ∈ handlerTable.zipIdx, (javaInsn x.2).isSome →
      x.1.java = javaInsn x.2 ∧ some x.1.form = (javaInsn x.2).map JavaInsn.form := by decide
  have hlength : handlerTable.length = 227 := by decide
  have hbehind : ∀ k < 29, (javaInsn (227 + k)).isSome = false := by decide
  intro opcode hlt hjava
  by_cases hopcode : opcode < 227
  · have hget : handlerTable[opcode]? = some (handlerOf opcode) := by
      rw [handlerOf, List.getD_eq_getElem _ _ (by omega)]
      exact List.getElem?_eq_getElem (by omega)
    exact hall _ (List.mk_mem_zipIdx_iff_getElem?.mpr hget) hjava
  · have hnone := hbehind (opcode - 227) (by omega)
    rw [Nat.add_sub_cancel' (by omega), hjava] at hnone
    cases hnone

/-- The value cut to the width of the register. -/
def JavaInsn.store (rt : Runtime σ) (vm : Vm σ) (vdst : Nat) (v : Int) (j : JavaInsn) : Vm σ :=
  if j.givesLong then setRegisterWide rt vm vdst (BitVec.ofInt 64 v) else setRegister rt vm vdst (BitVec.ofInt 32 v)

/-- The end of a handler that has computed a value. -/
def JavaInsn.done (rt : Runtime σ) (vm : Vm σ) (vdst : Nat) (j : JavaInsn) : Option Int → Flow Int × Vm σ
  | some v => (.next, j.store rt vm vdst v)
  | none => divideByZero rt vm

section Exec

variable (rt : Runtime σ) (fpu : Fpu) (vm : Vm σ) {j : JavaInsn} {vdst : Nat} {v : Option Int}

theorem finishInt_java (hj : j.givesLong = false) {r : Option (BitVec 32)} (h : r = v.map (BitVec.ofInt 32)) :
    finishInt rt vm vdst r = j.done rt vm vdst v := by
  subst h
  cases v with
  | none => rfl
  | some v =>
    rw [JavaInsn.done, JavaInsn.store, hj]
    rfl

theorem finishLong_java (hj : j.givesLong = true) {r : Option (BitVec 64)} (h : r = v.map (BitVec.ofInt 64)) :
    finishLong rt vm vdst r = j.done rt vm vdst v := by
  subst h
  cases v with
  | none => rfl
  | some v =>
    rw [JavaInsn.done, JavaInsn.store, hj]
    rfl

theorem setRegister_java (hj : j.givesLong = false) {r : BitVec 32} (h : some r = v.map (BitVec.ofInt 32)) :
    (.next, setRegister rt vm vdst r) = j.done rt vm vdst v := by
  rw [← finishInt_java rt vm hj h]
  rfl

theorem setRegisterWide_java (hj : j.givesLong = true) {r : BitVec 64} (h : some r = v.map (BitVec.ofInt 64)) :
    (.next, setRegisterWide rt vm vdst r) = j.done rt vm vdst v := by
  rw [← finishLong_java rt vm hj h]
  rfl

theorem mask31 (b : BitVec 32) : (b &&& 0x1f).toNat = (b.toInt % (32 : Nat)).toNat :=
  toNat_and_mask b (k := 5) (by decide)

theorem mask63 (b : BitVec 32) : (b &&& 0x3f).toNat = (b.toInt % (64 : Nat)).toNat :=
  toNat_and_mask b (k := 6) (by decide)

/-- A literal is an `int`. -/
theorem toInt_literal {l : Int} (h : -2 ^ 31 ≤ l ∧ l < 2 ^ 31) : (BitVec.ofInt 32 l).toInt = l := by
  rw [BitVec.toInt_ofInt]
  exact Int.bmod_eq_of_le (by omega) (by omega)

theorem cmpResult_java (a b : BitVec 64) :
    cmpResult 0 (some (compareLong a b)) = BitVec.ofInt 32 (a.toInt - b.toInt).sign := by
  unfold compareLong
  by_cases heq : a = b
  · rw [if_pos heq, heq, Int.sub_self]
    rfl
  · rw [if_neg heq]
    have hne : a.toInt ≠ b.toInt := fun h => heq (BitVec.eq_of_toInt_eq h)
    by_cases hlt : a.toInt < b.toInt
    · rw [if_pos (BitVec.slt_iff_toInt_lt.2 hlt), Int.sign_eq_neg_one_of_neg (by omega)]
      rfl
    · rw [if_neg (fun h => hlt (BitVec.slt_iff_toInt_lt.1 h)), Int.sign_eq_one_of_pos (by omega)]
      rfl

theorem exec_java {payload : Int → List Nat} {h : Handler} {o : Operands Int} (hj : h.java = some j)
    (hlit : -2 ^ 31 ≤ o.lit ∧ o.lit < 2 ^ 31) :
    exec rt fpu payload h o vm = j.done rt vm o.vA (j.value vm o) := by
  cases h <;> simp only [Handler.java, Option.some.injEq, reduceCtorEq] at hj
  case xInt op | xInt2addr op =>
    subst hj
    exact finishInt_java rt vm rfl (binop_java op _ _)
  case xLong op | xLong2addr op =>
    subst hj
    exact finishLong_java rt vm rfl (binop_java op _ _)
  case shxInt op | shxInt2addr op =>
    subst hj
    exact setRegister_java rt vm rfl (shiftop_java op _ _ _ (mask31 _))
  case shxLong op | shxLong2addr op =>
    subst hj
    exact setRegisterWide_java rt vm rfl (shiftop_java op _ _ _ (mask63 _))
  case xIntLit16 op | xIntLit8 op =>
    subst hj
    refine finishInt_java rt vm rfl ((binop_java op _ _).trans ?_)
    rw [toInt_literal hlit]
    rfl
  case shxIntLit8 op =>
    subst hj
    refine setRegister_java rt vm rfl ((shiftop_java op _ _ _ (mask31 _)).trans ?_)
    rw [toInt_literal hlit]
    rfl
  case rsubInt | rsubIntLit8 =>
    subst hj
    refine setRegister_java rt vm rfl (congrArg some ?_)
    exact ((ofInt_sub _ _).trans (congrArg _ BitVec.ofInt_toInt)).symm
  case cmpLong =>
    subst hj
    exact setRegister_java rt vm rfl (congrArg some (cmpResult_java _ _))
  case unop op =>
    cases op <;> simp only [Option.some.injEq, reduceCtorEq] at hj <;> subst hj
    case negInt => exact setRegister_java rt vm rfl (congrArg some (BitVec.ofInt_neg.trans (congrArg _ BitVec.ofInt_toInt)).symm)
    case negLong => exact setRegisterWide_java rt vm rfl (congrArg some (BitVec.ofInt_neg.trans (congrArg _ BitVec.ofInt_toInt)).symm)
    case notInt => exact setRegister_java rt vm rfl (congrArg some (BitVec.xor_allOnes.trans (ofInt_not _).symm))
    case notLong => exact setRegisterWide_java rt vm rfl (congrArg some (BitVec.xor_allOnes.trans (ofInt_not _).symm))
    case intToLong => exact setRegisterWide_java rt vm rfl rfl
    case longToInt => exact setRegister_java rt vm rfl (congrArg some (ofInt_setWidth _ (by decide)).symm)
    case intToByte => exact setRegister_java rt vm rfl (congrArg some (ofInt_signExtend_setWidth _ 32 (by decide)).symm)
    case intToChar => exact setRegister_java rt vm rfl (congrArg some (ofInt_setWidth_setWidth _ 32 (by decide)).symm)
    case intToShort => exact setRegister_java rt vm rfl (congrArg some (ofInt_signExtend_setWidth _ 32 (by decide)).symm)

end Exec

/-! ## Instructions -/

/-- A value has been put into a register, cut to its width, and nothing else has changed: a reference that the
    register held is deleted. -/
structure Puts (rt : Runtime σ) (vm vm' : Vm σ) (vdst : Nat) (long : Bool) (v : Int) : Prop where
  value : registerInt vm' long vdst = v.bmod (2 ^ (if long then 64 else 32))
  flag : vm'.fpFlags vdst = false
  others : ∀ r ≠ vdst, vm'.fp r = vm.fp r ∧ vm'.fpFlags r = vm.fpFlags r
  retval : vm'.retval = vm.retval
  env : vm'.env = (deleteLocalRef rt vm vdst).env

theorem deleteLocalRef_frame (rt : Runtime σ) (vm : Vm σ) (idx : Nat) :
    (deleteLocalRef rt vm idx).fp = vm.fp ∧ (deleteLocalRef rt vm idx).fpFlags = vm.fpFlags ∧
      (deleteLocalRef rt vm idx).retval = vm.retval := by
  unfold deleteLocalRef
  split <;> exact ⟨rfl, rfl, rfl⟩

theorem puts_putRegister (rt : Runtime σ) (vm : Vm σ) (vdst : Nat) (val : BitVec 64) (long : Bool) {v : Int}
    (h : (if long then val.toInt else (val.setWidth 32).toInt) = v.bmod (2 ^ (if long then 64 else 32))) :
    Puts rt vm (putRegister rt vm vdst val false) vdst long v := by
  obtain ⟨hfp, hflags, hret⟩ := deleteLocalRef_frame rt vm vdst
  refine ⟨?_, ?_, fun r hr => ⟨?_, ?_⟩, hret, rfl⟩
  · simp only [registerInt, getRegisterWide, getRegister, putRegister, storeRegister, Function.update_self]
    exact h
  · simp only [putRegister, storeRegister, Function.update_self]
  · simp only [putRegister, storeRegister, Function.update_of_ne hr, hfp]
  · simp only [putRegister, storeRegister, Function.update_of_ne hr, hflags]

theorem puts_store (rt : Runtime σ) (vm : Vm σ) (vdst : Nat) (v : Int) (j : JavaInsn) :
    Puts rt vm (j.store rt vm vdst v) vdst j.givesLong v := by
  unfold JavaInsn.store
  cases j.givesLong with
  | true => exact puts_putRegister rt vm vdst _ true (BitVec.toInt_ofInt v)
  | false =>
    refine puts_putRegister rt vm vdst _ false ?_
    rw [if_neg Bool.false_ne_true, if_neg Bool.false_ne_true,
      BitVec.setWidth_setWidth_of_le _ (by decide), BitVec.setWidth_eq, BitVec.toInt_ofInt]

theorem lit_decode {j : JavaInsn} (code : List Nat) (pc : Nat) :
    -2 ^ 31 ≤ (decode j.form code pc).lit ∧ (decode j.form code pc).lit < 2 ^ 31 := by
  have hu := (fetch code pc 1).toNat_lt
  have hbyte : (fetch code pc 1).toNat >>> 8 < 2 ^ 8 := by
    rw [Nat.shiftRight_eq_div_pow]
    omega
  cases j with
  | unary op => simp [JavaInsn.form, decode]
  | cmpLong => simp [JavaInsn.form, decode]
  | binary op long shape =>
    cases shape with
    | threeAddress => simp [JavaInsn.form, Shape.form, decode]
    | twoAddress => simp [JavaInsn.form, Shape.form, decode]
    | lit16 =>
      simp only [JavaInsn.form, Shape.form, decode, s2]
      split <;> omega
    | lit8 =>
      simp only [JavaInsn.form, Shape.form, decode, s1]
      split <;> omega

/-- The instruction at `pc` computes what Java has it compute, and the interpreter goes on behind it; a division
    by zero throws, with the registers as they were. -/
def ComputesJava (code : VmCode) (pc : Nat) (j : JavaInsn) : Prop :=
  ∀ (σ : Type) (rt : Runtime σ) (fpu : Fpu) (vm : Vm σ),
    let o := decode j.form code.insns pc
    match j.value vm o with
    | some v => ∃ vm', dispatch rt fpu code pc vm = .inl (pc + getWidthFromFormat j.form, vm') ∧
        Puts rt vm vm' o.vA j.givesLong v
    | none => dispatch rt fpu code pc vm =
        exceptionThrown rt code pc { vm with env := rt.throwNew (.arithmetic "divide by zero") vm.env }

theorem instInst_lt (u : UInt16) : instInst u < 256 :=
  Nat.lt_of_le_of_lt Nat.and_le_right (by decide)

/-- Every integer instruction computes what Java has it compute, on all operands. -/
theorem dispatch_java {code : VmCode} {pc : Nat} {j : JavaInsn}
    (h : javaInsn (instInst (fetch code.insns pc 0)) = some j) : ComputesJava code pc j := by
  intro σ rt fpu vm
  obtain ⟨hjava, hform⟩ := java_handlerOf _ (instInst_lt _) (by rw [h]; rfl)
  rw [h] at hjava hform
  obtain hform : (handlerOf (instInst (fetch code.insns pc 0))).form = j.form := Option.some.inj hform
  have hexec (payload : Int → List Nat) : exec rt fpu payload (handlerOf (instInst (fetch code.insns pc 0)))
      (decode j.form code.insns pc) vm =
        j.done rt vm (decode j.form code.insns pc).vA (j.value vm (decode j.form code.insns pc)) :=
    exec_java rt fpu vm hjava (lit_decode code.insns pc)
  simp only [dispatch, hform, hexec]
  cases j.value vm (decode j.form code.insns pc) with
  | some v => exact ⟨_, rfl, puts_store ..⟩
  | none => rfl

/-- `div-int/2addr v1, v0`, also where the quotient does not fit. -/
theorem dispatch_java_div : ComputesJava ⟨[0x01b3], none⟩ 0 (.binary (.bin .div) false .twoAddress) :=
  dispatch_java (by decide)

end ArtPi.Interp.Machine
