import ArtPi.Dex.Flow
import ArtPi.Dex.Units
import ArtPi.Interp.Execute

set_option autoImplicit false

/-! # Running the instruction list

The list that the assembler takes can be run itself: an instruction has its operands at hand, and a branch goes to
the place of its label. `vmInterpret_assembled` says that the interpreter does the same on the code of an
accepted list. -/

namespace ArtPi.Interp.Machine

open Dex Constants Lib

variable {σ β γ : Type}

/-! ## Handlers do not look at the target of a branch -/

def Operands.map (f : β → γ) (o : Operands β) : Operands γ := { o with branch := f o.branch }

/-- The same end of a handler, which is no branch. -/
inductive SameEnd : Flow β × Vm σ → Flow γ × Vm σ → Prop where
  | next (vm : Vm σ) : SameEnd (.next, vm) (.next, vm)
  | exceptionThrown (vm : Vm σ) : SameEnd (.exceptionThrown, vm) (.exceptionThrown, vm)
  | returnFromMethod (vm : Vm σ) : SameEnd (.returnFromMethod, vm) (.returnFromMethod, vm)
  | unhandled (vm : Vm σ) : SameEnd (.unhandled, vm) (.unhandled, vm)

theorem SameEnd.ite {c : Prop} [Decidable c] {a b : Flow β × Vm σ} {a' b' : Flow γ × Vm σ}
    (ha : SameEnd a a') (hb : SameEnd b b') : SameEnd (if c then a else b) (if c then a' else b') := by
  split
  · exact ha
  · exact hb

/-- The handlers that go on to the next instruction if they go on. -/
def Handler.straight : Handler → Bool
  | .goto _ | .packedSwitch | .sparseSwitch | .ifEq | .ifNe | .ifXX _ | .ifXXZ _ => false
  | _ => true

def Handler.switches : Handler → Bool
  | .packedSwitch | .sparseSwitch => true
  | _ => false

section SameEnd

variable (rt : Runtime σ) (fpu : Fpu) (f : β → γ) (o : Operands β) (vm : Vm σ)

theorem sameEnd_throwNew (e : Thrown) :
    SameEnd (throwNew rt vm e : Flow β × Vm σ) (throwNew rt vm e : Flow γ × Vm σ) :=
  .exceptionThrown _

theorem sameEnd_finishInt (vdst : Nat) (result : Option (BitVec 32)) :
    SameEnd (finishInt rt vm vdst result : Flow β × Vm σ) (finishInt rt vm vdst result : Flow γ × Vm σ) := by
  cases result with
  | none => exact sameEnd_throwNew ..
  | some result => exact .next _

theorem sameEnd_finishLong (vdst : Nat) (result : Option (BitVec 64)) :
    SameEnd (finishLong rt vm vdst result : Flow β × Vm σ) (finishLong rt vm vdst result : Flow γ × Vm σ) := by
  cases result with
  | none => exact sameEnd_throwNew ..
  | some result => exact .next _

theorem sameEnd_checked : SameEnd (checked rt vm : Flow β × Vm σ) (checked rt vm : Flow γ × Vm σ) :=
  .ite (.exceptionThrown _) (.next _)

theorem sameEnd_withArray {access : Ref → BitVec 32 → Flow β × Vm σ} {access' : Ref → BitVec 32 → Flow γ × Vm σ}
    (h : ∀ arrayObj idx, SameEnd (access arrayObj idx) (access' arrayObj idx)) :
    SameEnd (withArray rt o vm access) (withArray rt (o.map f) vm access') :=
  .ite (sameEnd_throwNew ..) (h _ _)

theorem sameEnd_withField (access : Ref → VmField → Vm σ → Vm σ) :
    SameEnd (withField rt o vm access) (withField rt (o.map f) vm access) := by
  refine .ite (sameEnd_throwNew ..) ?_
  simp only [Operands.map]
  rcases rt.dvmResolveField o.ref false vm.env with ⟨_ | ifield, env⟩
  · exact .exceptionThrown _
  · exact .next _

theorem sameEnd_withStaticField (access : Ref → VmField → Vm σ → Vm σ) :
    SameEnd (withStaticField rt o vm access) (withStaticField rt (o.map f) vm access) := by
  simp only [withStaticField, Operands.map]
  rcases rt.dvmResolveField o.ref true vm.env with ⟨_ | sfield, env⟩
  · exact .exceptionThrown _
  · exact .ite (.exceptionThrown _) (.next _)

theorem sameEnd_aget (w : Bool) : SameEnd (execAget rt w o vm) (execAget rt w (o.map f) vm) := by
  refine sameEnd_withArray rt f o vm fun arrayObj idx => ?_
  cases boundsFailure rt vm arrayObj idx with
  | none => exact sameEnd_checked ..
  | some e => exact sameEnd_throwNew ..

theorem sameEnd_aput (w : Bool) : SameEnd (execAput rt w o vm) (execAput rt w (o.map f) vm) := by
  refine sameEnd_withArray rt f o vm fun arrayObj idx => ?_
  cases boundsFailure rt vm arrayObj idx with
  | none => exact sameEnd_checked ..
  | some e => exact sameEnd_throwNew ..

theorem sameEnd_agetSmall (c : Char) :
    SameEnd (execAgetSmall rt c o vm) (execAgetSmall rt c (o.map f) vm) := by
  refine sameEnd_withArray rt f o vm fun arrayObj idx => ?_
  exact sameEnd_checked ..

theorem sameEnd_newArray : SameEnd (execNewArray rt o vm) (execNewArray rt (o.map f) vm) := by
  refine .ite (sameEnd_throwNew ..) ?_
  simp only [Operands.map]
  rcases rt.dvmResolveTypeUtf o.ref vm.env with ⟨_ | type, env⟩
  · exact .exceptionThrown _
  · dsimp only
    rcases newArrayOf rt _ _ _ _ with ⟨_ | newArray, vm⟩
    · exact .exceptionThrown _
    · exact .ite (.exceptionThrown _) (.next _)

theorem sameEnd_filledNewArray (range : Bool) :
    SameEnd (execFilledNewArray rt range o vm) (execFilledNewArray rt range (o.map f) vm) := by
  simp only [execFilledNewArray, Operands.map]
  rcases rt.dvmResolveTypeUtf o.ref vm.env with ⟨_ | type, env⟩
  · exact sameEnd_throwNew ..
  · refine .ite (sameEnd_throwNew ..) (.ite (sameEnd_throwNew ..) ?_)
    rcases newArrayOf rt _ _ _ _ with ⟨_ | newArray, vm⟩
    · exact .exceptionThrown _
    · exact .ite (.exceptionThrown _) (.next _)

theorem sameEnd_invoke (virtual : Bool) :
    SameEnd (execInvoke rt virtual o vm) (execInvoke rt virtual (o.map f) vm) := by
  refine .ite (sameEnd_throwNew ..) ?_
  simp only [Operands.map]
  rcases rt.dvmResolveMethod o.ref false vm.env with ⟨_ | m, env⟩
  · exact .exceptionThrown _
  · exact .ite (sameEnd_checked ..) (sameEnd_checked ..)

theorem sameEnd_invokeStatic : SameEnd (execInvokeStatic rt o vm) (execInvokeStatic rt (o.map f) vm) := by
  simp only [execInvokeStatic, Operands.map]
  rcases rt.dvmResolveMethod o.ref true vm.env with ⟨_ | m, env⟩
  · exact .exceptionThrown _
  · exact sameEnd_checked ..

theorem sameEnd_monitor (act : Ref → σ → Bool × σ) :
    SameEnd (execMonitor rt act o vm) (execMonitor rt act (o.map f) vm) := by
  have hact (r : Bool × σ) :
      SameEnd ((if r.1 then .next else .exceptionThrown, { vm with env := r.2 }) : Flow β × Vm σ)
        ((if r.1 then .next else .exceptionThrown, { vm with env := r.2 }) : Flow γ × Vm σ) := by
    rcases r with ⟨_ | _, env⟩
    · exact .exceptionThrown _
    · exact .next _
  exact .ite (sameEnd_throwNew ..) (hact _)

theorem sameEnd_fillArrayData (arrayData : List Nat) :
    SameEnd (execFillArrayData rt arrayData o vm) (execFillArrayData rt arrayData (o.map f) vm) := by
  simp only [execFillArrayData, Operands.map]
  rcases dvmInterpHandleFillArrayData _ _ arrayData with e | ⟨width, size⟩
  · exact sameEnd_throwNew ..
  · exact .ite (.next _) (.unhandled _)

/-- A handler that does not branch does the same whatever a branch is given by, if the table that it reads there
    is the same. -/
theorem sameEnd_exec {payload : β → List Nat} {payload' : γ → List Nat} {h : Handler} (hs : h.straight = true)
    (hdata : h = .fillArrayData → payload' (f o.branch) = payload o.branch) :
    SameEnd (exec rt fpu payload h o vm) (exec rt fpu payload' h (o.map f) vm) := by
  cases h
  case goto | packedSwitch | sparseSwitch | ifEq | ifNe | ifXX | ifXXZ => exact absurd hs (by simp [Handler.straight])
  case returnVoid | ret | returnWide | returnObject => exact .returnFromMethod _
  case constString | constClass => exact .ite (.exceptionThrown _) (.next _)
  case monitorEnter | monitorExit => exact sameEnd_monitor ..
  case checkCast => exact .ite (.next _) (.ite (.exceptionThrown _) (.ite (.next _) (.exceptionThrown _)))
  case instanceOf => exact .ite (.next _) (.ite (.exceptionThrown _) (.next _))
  case arrayLength => exact .ite (sameEnd_throwNew ..) (.next _)
  case newInstance => exact .ite (.exceptionThrown _) (.ite (.exceptionThrown _) (.next _))
  case newArray => exact sameEnd_newArray ..
  case filledNewArray => exact sameEnd_filledNewArray ..
  case fillArrayData =>
    rw [exec, exec, Operands.map, hdata rfl]
    exact sameEnd_fillArrayData ..
  case throw => exact .ite (sameEnd_throwNew ..) (.exceptionThrown _)
  case aget => exact sameEnd_aget ..
  case aput => exact sameEnd_aput ..
  case agetSmall => exact sameEnd_agetSmall ..
  case agetObject | aputObject | aputSmall =>
    exact sameEnd_withArray rt f o vm fun _ _ => sameEnd_checked ..
  case iget | igetWide | igetObject | igetSmall | iput | iputWide | iputObject | iputSmall =>
    exact sameEnd_withField ..
  case sget | sgetWide | sgetObject | sgetSmall | sput | sputWide | sputObject | sputSmall =>
    exact sameEnd_withStaticField ..
  case invokeVirtual | invokeSuper | invokeDirect | invokeInterface => exact sameEnd_invoke ..
  case invokeStatic => exact sameEnd_invokeStatic ..
  case xInt | xInt2addr | xIntLit16 | xIntLit8 => exact sameEnd_finishInt ..
  case xLong | xLong2addr => exact sameEnd_finishLong ..
  case unhandled => exact .unhandled _
  all_goals exact .next _

/-- The other handlers, but for the switches, branch or go on. -/
theorem exec_branchIf {payload : β → List Nat} {payload' : γ → List Nat} {h : Handler} (hs : h.straight = false)
    (hswitch : h.switches = false) :
    ∃ taken, exec rt fpu payload h o vm = (branchIf o taken, vm) ∧
      exec rt fpu payload' h (o.map f) vm = (branchIf (o.map f) taken, vm) := by
  cases h
  case packedSwitch | sparseSwitch => exact absurd hswitch (by simp [Handler.switches])
  case goto => exact ⟨true, rfl, rfl⟩
  case ifEq | ifNe | ifXX | ifXXZ => exact ⟨_, rfl, rfl⟩
  all_goals exact absurd hs (by simp [Handler.straight])

end SameEnd

/-! ## The list as a program -/

/-- The operands of an instruction, a branch with its label. Of the constant of `const/high16` only the high half
    is left. -/
def operandsOf : Format → List Operand → Option (Operands (Option Int))
  | .k10x, [] => some { branch := none }
  | .k12x, [.vreg a, .vreg b] | .k22x, [.vreg a, .vreg b] | .k32x, [.vreg a, .vreg b] =>
    some { vA := a, vB := b, branch := none }
  | .k11n, [.vreg a, .const32 c] | .k21s, [.vreg a, .const32 c] | .k31i, [.vreg a, .const32 c] =>
    some { vA := a, lit := s4 c, branch := none }
  | .k21h, [.vreg a, .const32 c] => some { vA := a, lit := (c / 65536 : Nat), branch := none }
  | .k11x, [.vreg a] => some { vA := a, branch := none }
  | .k20t, [.codeLocation l] | .k30t, [.codeLocation l] => some { branch := some l }
  | .k21t, [.vreg a, .codeLocation l] | .k31t, [.vreg a, .codeLocation l] => some { vA := a, branch := some l }
  | .k22t, [.vreg a, .vreg b, .codeLocation l] => some { vA := a, vB := b, branch := some l }
  | .k23x, [.vreg a, .vreg b, .vreg c] => some { vA := a, vB := b, vC := c, branch := none }
  | .k22b, [.vreg a, .vreg b, .const32 c] | .k22s, [.vreg a, .vreg b, .const32 c] =>
    some { vA := a, vB := b, lit := s4 c, branch := none }
  | .k22c, [.vreg a, .vreg b, .indexed i] => some { vA := a, vB := b, ref := BitVec.ofNat 32 i, branch := none }
  | .k21c, [.vreg a, .indexed i] | .k31c, [.vreg a, .indexed i] =>
    some { vA := a, ref := BitVec.ofNat 32 i, branch := none }
  | .k35c, [.vregList regs, .indexed i] =>
    some { vA := regs.length, vC := regs.getD 0 0, ref := BitVec.ofNat 32 i, regs, branch := none }
  | _, _ => none

/-- The list from the first placement of a label on. -/
def fromLabel (l : Int) (is : List SymbolicInstruction) : List SymbolicInstruction :=
  is.dropWhile (fun i => !i.places l)

/-- `exceptionThrown` in a method without handlers. -/
def bail (rt : Runtime σ) (vm : Vm σ) : Vm σ :=
  let (exception, env) := rt.exceptionOccurred vm.env
  let env := rt.exceptionClear env
  if exception = 0 then { vm with env }
  else { vm with env := rt.deleteLocalRef exception (rt.throw exception env) }

/-- Where the list goes on behind a handler. -/
def goOn (rt : Runtime σ) (is rest : List SymbolicInstruction) :
    Flow (Option Int) × Vm σ → (List SymbolicInstruction × Vm σ) ⊕ Exit σ
  | (.next, vm) => .inl (rest, vm)
  | (.branch (some l), vm) => .inl (fromLabel l is, vm)
  | (.exceptionThrown, vm) => .inr (.bailed (bail rt vm))
  | (.returnFromMethod, vm) => .inr (.returned vm)
  | (.branch none, vm) | (.jump _, vm) | (.unhandled, vm) => .inr (.unhandled vm)

/-- `data` is what stands in the code at the place of a label, for the only instruction that reads it. -/
def tableAt (data : Int → List Nat) : Option Int → List Nat
  | some l => data l
  | none => []

/-- The first instruction of a list, which is what is left of `is`. -/
def listStep (rt : Runtime σ) (fpu : Fpu) (data : Int → List Nat) (ctx : SymbolicOperand → Nat)
    (is : List SymbolicInstruction) :
    List SymbolicInstruction → Vm σ → (List SymbolicInstruction × Vm σ) ⊕ Exit σ
  | [], vm => .inr (.outside vm)
  | .label _ :: rest, vm => listStep rt fpu data ctx is rest vm
  | .nop :: rest, vm => .inl (rest, vm)
  | .bytecode opcode operands :: rest, vm =>
    let h := handlerOf (effOp opcode).toNat
    match operandsOf h.form (operands.map (link ctx)) with
    | some o => goOn rt is rest (exec rt fpu (tableAt data) h o vm)
    | none => .inr (.unhandled vm)

/-- The list from its start, for a number of instructions. -/
def interpretList (rt : Runtime σ) (fpu : Fpu) (data : Int → List Nat) (ctx : SymbolicOperand → Nat)
    (is : List SymbolicInstruction) (rounds : Nat) (vm : Vm σ) : (List SymbolicInstruction × Vm σ) ⊕ Exit σ :=
  runFor (fun s => listStep rt fpu data ctx is s.1 s.2) rounds (is, vm)

/-! ## Reading the units back -/

theorem or_shiftLeft16 {a : Nat} (b : Nat) (ha : a < 65536) : a ||| b <<< 16 = a + b * 65536 := by
  rw [Nat.or_comm, ← Nat.shiftLeft_add_eq_or_of_lt (i := 16) ha, Nat.shiftLeft_eq]
  omega

theorem sext4_toInt {b : Nat} (hb : b < 16) :
    ((BitVec.ofNat 32 b <<< 28).sshiftRight 28).toInt = s4 (if b < 8 then b else b + (2 ^ 32 - 16)) := by
  revert b
  decide

theorem s2_eq_s4 {b : Nat} (hb : b < 65536) : s2 b = s4 (if b < 32768 then b else b + (2 ^ 32 - 65536)) := by
  simp only [s2, s4]
  split_ifs <;> omega

theorem s1_eq_s4 {b : Nat} (hb : b < 256) : s1 b = s4 (if b < 128 then b else b + (2 ^ 32 - 256)) := by
  simp only [s1, s4]
  split_ifs <;> omega

theorem and_0xf (n : Nat) : n &&& 0xf = n % 16 := Nat.and_two_pow_sub_one_eq_mod n 4

theorem getD_lt_16 {regs : List Nat} (hlen : regs.length ≤ 5) (hregs : ∀ r ∈ regs.take 5, r < 16) (k : Nat) :
    regs.getD k 0 < 16 := by
  by_cases hk : k < regs.length
  · rw [List.getD_eq_getElem _ _ hk]
    exact hregs _ (by rw [List.take_of_length_le hlen]; exact List.getElem_mem hk)
  · rw [List.getD_eq_default _ _ (Nat.le_of_not_lt hk)]
    decide

/-- The registers of `{vC, vD, vE, vF, vG}` are read back. -/
theorem regList_units {regs : List Nat} {op : Nat} (hop : op < 256) (hlen : regs.length ≤ 5)
    (hregs : ∀ r ∈ regs.take 5, r < 16) :
    regList (UInt16.ofNat (regs.length * 4096 + regs.getD 4 0 * 256 + op))
      (UInt16.ofNat (regs.getD 3 0 * 4096 + regs.getD 2 0 * 256 + regs.getD 1 0 * 16 + regs.getD 0 0)) = regs := by
  have h0 := getD_lt_16 hlen hregs 0
  have h1 := getD_lt_16 hlen hregs 1
  have h2 := getD_lt_16 hlen hregs 2
  have h3 := getD_lt_16 hlen hregs 3
  have h4 := getD_lt_16 hlen hregs 4
  unfold regList
  have hpack : regs.getD 3 0 * 4096 + regs.getD 2 0 * 256 + regs.getD 1 0 * 16 + regs.getD 0 0 < 2 ^ 16 := by omega
  rw [instA_of_fields (by omega) h4 hop, instB_of_fields (by omega) h4 hop, UInt16.toNat_ofNat_of_lt' hpack]
  have hread (r0 r1 r2 r3 : Nat) (h0 : r0 < 16) (h1 : r1 < 16) (h2 : r2 < 16) (h3 : r3 < 16) :
      let n := r3 * 4096 + r2 * 256 + r1 * 16 + r0
      n &&& 0xf = r0 ∧ n >>> 4 &&& 0xf = r1 ∧ n >>> 8 &&& 0xf = r2 ∧ n >>> 12 = r3 := by
    simp only [and_0xf, Nat.shiftRight_eq_div_pow]
    omega
  obtain ⟨hc, hd, he, hf⟩ := hread _ _ _ _ h0 h1 h2 h3
  rw [hc, hd, he, hf]
  refine Eq.trans (b := ((List.range 5).map (fun k => regs.getD k 0)).take regs.length) rfl ?_
  refine List.ext_getElem (by simpa using hlen) fun k hk hk' => ?_
  rw [List.getElem_take, List.getElem_map, List.getElem_range, List.getD_eq_getElem _ _ hk']

/-- The interpreter reads the operands of an instruction from its units, and the displacement of a branch. -/
theorem decode_units {op : Nat} {fmt : Format} {operands : List Operand} {units : List Nat}
    (h : Units op fmt operands units) (hop : op < 256) (hfmt : fmt ≠ .k45cc)
    (hregs : ∀ regs, .vregList regs ∈ operands → regs.length ≤ 5) {code : List Nat} {pc : Nat}
    (hfetch : ∀ k < units.length, fetch code pc k = UInt16.ofNat (units.getD k 0)) :
    ∃ o, operandsOf fmt operands = some o ∧
      ∀ f : Option Int → Int, f o.branch = (decode fmt code pc).branch → decode fmt code pc = o.map f := by
  have hto {n : Nat} (hn : n < 65536) : (UInt16.ofNat n).toNat = n := UInt16.toNat_ofNat_of_lt' hn
  have hlow (n : Nat) : n &&& 0xff = n % 256 := Nat.and_two_pow_sub_one_eq_mod n 8
  cases h with
  | k45cc => exact absurd rfl hfmt
  | k10x => exact ⟨_, rfl, fun f hf => by simp only [Operands.map, hf]; rfl⟩
  | k12x ha hb =>
    refine ⟨_, rfl, fun f hf => ?_⟩
    have h0 := hfetch 0 (by simp)
    simp only [Operands.map, hf, decode, h0, List.getD_cons_zero, instA_of_fields hb ha hop,
      instB_of_fields hb ha hop]
  | k22x ha hb =>
    refine ⟨_, rfl, fun f hf => ?_⟩
    have h0 := hfetch 0 (by simp)
    have h1 := hfetch 1 (by simp)
    simp only [Operands.map, hf, decode, h0, h1, List.getD_cons_zero, List.getD_cons_succ,
      instAA_of_fields ha hop, hto hb]
  | k32x ha hb =>
    refine ⟨_, rfl, fun f hf => ?_⟩
    have h1 := hfetch 1 (by simp)
    have h2 := hfetch 2 (by simp)
    simp only [Operands.map, hf, decode, h1, h2, List.getD_cons_zero, List.getD_cons_succ, hto ha, hto hb]
  | k11n ha hb hc =>
    refine ⟨_, rfl, fun f hf => ?_⟩
    have h0 := hfetch 0 (by simp)
    simp only [Operands.map, hf, decode, h0, List.getD_cons_zero, instA_of_fields hb ha hop,
      instB_of_fields hb ha hop, hc, sext4_toInt hb]
  | k21s ha hb hc =>
    refine ⟨_, rfl, fun f hf => ?_⟩
    have h0 := hfetch 0 (by simp)
    have h1 := hfetch 1 (by simp)
    simp only [Operands.map, hf, decode, h0, h1, List.getD_cons_zero, List.getD_cons_succ,
      instAA_of_fields ha hop, hto hb, hc, s2_eq_s4 hb]
  | k11x ha =>
    refine ⟨_, rfl, fun f hf => ?_⟩
    have h0 := hfetch 0 (by simp)
    simp only [Operands.map, hf, decode, h0, List.getD_cons_zero, instAA_of_fields ha hop]
  | @k31i a c ha hc =>
    refine ⟨_, rfl, fun f hf => ?_⟩
    have hc0 : c % 65536 < 65536 := Nat.mod_lt _ (by decide)
    have hc1 : c / 65536 < 65536 := by omega
    have hsum : c % 65536 + c / 65536 * 65536 = c := by omega
    have h0 := hfetch 0 (by simp)
    have h1 := hfetch 1 (by simp)
    have h2 := hfetch 2 (by simp)
    simp only [Operands.map, hf, decode, h0, h1, h2, List.getD_cons_zero, List.getD_cons_succ,
      instAA_of_fields ha hop, hto hc0, hto hc1, or_shiftLeft16 _ hc0, hsum]
  | k20t d =>
    refine ⟨_, rfl, fun f hf => ?_⟩
    simp only [Operands.map, hf, decode]
  | k30t d e =>
    refine ⟨_, rfl, fun f hf => ?_⟩
    simp only [Operands.map, hf, decode]
  | k21t d ha =>
    refine ⟨_, rfl, fun f hf => ?_⟩
    have h0 := hfetch 0 (by simp)
    simp only [Operands.map, hf, decode, h0, List.getD_cons_zero, instAA_of_fields ha hop]
  | k22t d ha hb =>
    refine ⟨_, rfl, fun f hf => ?_⟩
    have h0 := hfetch 0 (by simp)
    simp only [Operands.map, hf, decode, h0, List.getD_cons_zero, instA_of_fields hb ha hop,
      instB_of_fields hb ha hop]
  | k31t d e ha =>
    refine ⟨_, rfl, fun f hf => ?_⟩
    have h0 := hfetch 0 (by simp)
    simp only [Operands.map, hf, decode, h0, List.getD_cons_zero, instAA_of_fields ha hop]
  | @k23x a b c ha hb hc =>
    refine ⟨_, rfl, fun f hf => ?_⟩
    have hu : c * 256 + b < 65536 := by omega
    have hmod : (c * 256 + b) % 256 = b := by omega
    have hdiv : (c * 256 + b) / 2 ^ 8 = c := by omega
    have h0 := hfetch 0 (by simp)
    have h1 := hfetch 1 (by simp)
    simp only [Operands.map, hf, decode, h0, h1, List.getD_cons_zero, List.getD_cons_succ,
      instAA_of_fields ha hop, hto hu, hlow, hmod, Nat.shiftRight_eq_div_pow, hdiv]
  | @k22b a b d c ha hb hd hc =>
    refine ⟨_, rfl, fun f hf => ?_⟩
    have hu : d * 256 + b < 65536 := by omega
    have hmod : (d * 256 + b) % 256 = b := by omega
    have hdiv : (d * 256 + b) / 2 ^ 8 = d := by omega
    have h0 := hfetch 0 (by simp)
    have h1 := hfetch 1 (by simp)
    simp only [Operands.map, hf, decode, h0, h1, List.getD_cons_zero, List.getD_cons_succ,
      instAA_of_fields ha hop, hto hu, hlow, Nat.shiftRight_eq_div_pow, hc, hdiv, hmod, s1_eq_s4 hd]
  | k22s ha hb hd hc =>
    refine ⟨_, rfl, fun f hf => ?_⟩
    have h0 := hfetch 0 (by simp)
    have h1 := hfetch 1 (by simp)
    simp only [Operands.map, hf, decode, h0, h1, List.getD_cons_zero, List.getD_cons_succ,
      instA_of_fields hb ha hop, instB_of_fields hb ha hop, hto hd, hc, s2_eq_s4 hd]
  | k22c ha hb hi =>
    refine ⟨_, rfl, fun f hf => ?_⟩
    have h0 := hfetch 0 (by simp)
    have h1 := hfetch 1 (by simp)
    simp only [Operands.map, hf, decode, h0, h1, List.getD_cons_zero, List.getD_cons_succ,
      instA_of_fields hb ha hop, instB_of_fields hb ha hop, hto hi]
  | k21c ha hi =>
    refine ⟨_, rfl, fun f hf => ?_⟩
    have h0 := hfetch 0 (by simp)
    have h1 := hfetch 1 (by simp)
    simp only [Operands.map, hf, decode, h0, h1, List.getD_cons_zero, List.getD_cons_succ,
      instAA_of_fields ha hop, hto hi]
  | @k31c a c ha hc =>
    refine ⟨_, rfl, fun f hf => ?_⟩
    have hc0 : c % 65536 < 65536 := Nat.mod_lt _ (by decide)
    have hc1 : c / 65536 < 65536 := by omega
    have hsum : c % 65536 + c / 65536 * 65536 = c := by omega
    have h0 := hfetch 0 (by simp)
    have h1 := hfetch 1 (by simp)
    have h2 := hfetch 2 (by simp)
    simp only [Operands.map, hf, decode, h0, h1, h2, List.getD_cons_zero, List.getD_cons_succ,
      instAA_of_fields ha hop, hto hc0, hto hc1, or_shiftLeft16 _ hc0, hsum]
  | @k35c regs i hn hlt hi =>
    refine ⟨_, rfl, fun f hf => ?_⟩
    have h0 := hfetch 0 (by simp)
    have h1 := hfetch 1 (by simp)
    have h2 := hfetch 2 (by simp)
    have hlen := hregs regs List.mem_cons_self
    have hlt' := getD_lt_16 hlen hlt
    have hc : (regs.getD 3 0 * 4096 + regs.getD 2 0 * 256 + regs.getD 1 0 * 16 + regs.getD 0 0) % 16 =
        regs.getD 0 0 := by
      have := hlt' 0
      omega
    have hu : regs.getD 3 0 * 4096 + regs.getD 2 0 * 256 + regs.getD 1 0 * 16 + regs.getD 0 0 < 65536 := by
      have := hlt' 0; have := hlt' 1; have := hlt' 2; have := hlt' 3
      omega
    simp only [Operands.map, hf, decode, h0, h1, h2, List.getD_cons_zero, List.getD_cons_succ, hto hi, hto hu,
      instB_of_fields hn (hlt' 4) hop, and_0xf, hc, regList_units hop hlen hlt]
  | @k21h a c ha hc =>
    refine ⟨_, rfl, fun f hf => ?_⟩
    have hc1 : c / 65536 < 65536 := by omega
    have h0 := hfetch 0 (by simp)
    have h1 := hfetch 1 (by simp)
    simp only [Operands.map, hf, decode, h0, h1, List.getD_cons_zero, List.getD_cons_succ,
      instAA_of_fields ha hop, hto hc1]

theorem branch_operandsOf {fmt : Format} {operands : List Operand} {o : Operands (Option Int)}
    (h : operandsOf fmt operands = some o) :
    match labelIndex fmt with
    | none => o.branch = none
    | some (k, _) => ∃ l, operands[k]? = some (.codeLocation l) ∧ o.branch = some l := by
  unfold operandsOf at h
  split at h
  case h_22 => exact absurd h (by simp)
  all_goals
    obtain rfl := Option.some.inj h
    first
      | rfl
      | exact ⟨_, rfl, rfl⟩

theorem branch_decode {fmt : Format} {k t pc : Nat} {short : Bool} {units code : List Nat}
    (hindex : labelIndex fmt = some (k, short)) (hpoints : Points short t pc units)
    (hfetch : ∀ k < units.length, fetch code pc k = UInt16.ofNat (units.getD k 0)) (ht : t < 2 ^ 31)
    (hpc : pc < 2 ^ 31) (hnear : short = true → pc ≤ t + 32768) : (decode fmt code pc).branch = (t : Int) - pc := by
  have hto {n : Nat} (hn : n < 65536) : (UInt16.ofNat n).toNat = n := UInt16.toNat_ofNat_of_lt' hn
  have hlow : u4Sub t pc % 65536 < 65536 := Nat.mod_lt _ (by decide)
  have hhigh : u4Sub t pc / 65536 < 65536 := by
    have : u4Sub t pc < 2 ^ 32 := Nat.mod_lt _ (by decide)
    omega
  cases short with
  | true =>
    obtain ⟨⟨u, rfl⟩, -, hback, hfwd⟩ := hpoints
    have hdisp : s2 (u4Sub t pc % 65536) = (t : Int) - pc := by
      rw [s2_disp hpc hback hfwd, if_pos (hnear rfl)]
    have h1 := hfetch 1 (by simp)
    simp only [List.getD_cons_succ, List.getD_cons_zero] at h1
    cases fmt <;> simp only [labelIndex, Option.some.injEq, Prod.mk.injEq, reduceCtorEq, and_false] at hindex <;>
      simpa only [decode, h1, hto hlow] using hdisp
  | false =>
    obtain ⟨u, rfl⟩ := hpoints
    have h1 := hfetch 1 (by simp)
    have h2 := hfetch 2 (by simp)
    simp only [List.getD_cons_succ, List.getD_cons_zero] at h1 h2
    have hdisp : s4 (u4Sub t pc % 65536 ||| (u4Sub t pc / 65536) <<< 16) = (t : Int) - pc := by
      rw [or_shiftLeft16 _ hlow, s4_disp ht hpc]
    cases fmt <;> simp only [labelIndex, Option.some.injEq, Prod.mk.injEq, reduceCtorEq, and_false] at hindex <;>
      simpa only [decode, h1, h2, hto hlow, hto hhigh] using hdisp

theorem branch_decode_none {op : Nat} {fmt : Format} {operands : List Operand} {units : List Nat}
    (h : Units op fmt operands units) (hindex : labelIndex fmt = none) (code : List Nat) (pc : Nat) :
    (decode fmt code pc).branch = 0 := by
  cases h <;> first
    | rfl
    | simp [labelIndex] at hindex

/-! ## One instruction -/

/-- What stands in the code at the place of a label. -/
def dataAt (is : List SymbolicInstruction) (code : List Nat) (l : Int) : List Nat :=
  code.drop ((firstPlacement 0 is l).getD 0)

/-- The position of the interpreter is that of the rest of the list. -/
def At (is : List SymbolicInstruction) (s : Int × Vm σ) (s' : List SymbolicInstruction × Vm σ) : Prop :=
  s.2 = s'.2 ∧ ∃ pre, is = pre ++ s'.1 ∧ s.1 = size pre

theorem fromLabel_split {is : List SymbolicInstruction} {l : Int} {p t : Nat}
    (h : firstPlacement p is l = some t) : ∃ pre, is = pre ++ fromLabel l is ∧ t = p + size pre := by
  induction is generalizing p with
  | nil => exact absurd h (by simp [firstPlacement])
  | cons i is ih =>
    rw [firstPlacement] at h
    cases hi : i.places l with
    | true =>
      rw [hi, if_pos rfl] at h
      refine ⟨[], ?_, (Option.some.inj h).symm⟩
      rw [fromLabel, List.dropWhile_cons_of_neg (by simp [hi])]
      rfl
    | false =>
      rw [hi, if_neg Bool.false_ne_true] at h
      obtain ⟨pre, hpre, rfl⟩ := ih h
      refine ⟨i :: pre, ?_, by rw [size]; omega⟩
      rw [fromLabel, List.dropWhile_cons_of_pos (by simp [hi]), List.cons_append]
      exact congrArg (i :: ·) hpre

theorem exceptionThrown_none (rt : Runtime σ) (insns : List Nat) (pc : Nat) (vm : Vm σ) :
    exceptionThrown rt ⟨insns, none⟩ pc vm = .inr (.bailed (bail rt vm)) := by
  unfold exceptionThrown bail
  dsimp only
  split
  · rfl
  · rfl

set_option maxRecDepth 8192 in
/-- What the table of handlers has for an opcode of an accepted list. -/
theorem handlerOf_accepted : ∀ op < 256, [0x28, 0x2b, 0x2c].contains op = false →
    (handlerOf op).form ≠ .k45cc ∧ (handlerOf op).switches = false ∧
      ((handlerOf op).straight = false → (labelIndex (handlerOf op).form).isSome) := by
  have hall : ∀ x ∈ handlerTable.zipIdx, [0x28, 0x2b, 0x2c].contains x.2 = false →
      x.1.form ≠ .k45cc ∧ x.1.switches = false ∧ (x.1.straight = false → (labelIndex x.1.form).isSome) := by
    decide
  intro op _ hop
  rcases handlerOf_cases op with hget | hnone
  · exact hall _ (List.mk_mem_zipIdx_iff_getElem?.mpr hget) hop
  · rw [hnone]
    decide

theorem eq_unhandled {h : Handler} (hh : h.handled = false) : h = .unhandled := by
  cases h <;> simp [Handler.handled] at hh ⊢

theorem Units.head {op : Nat} {fmt : Format} {operands : List Operand} {units : List Nat}
    (h : Units op fmt operands units) (hop : op < 256) : 0 < units.length ∧ units.getD 0 0 % 256 = op := by
  cases h <;> simp only [List.length_cons, List.getD_cons_zero] <;> omega

theorem instInst_ofNat (u : Nat) : instInst (UInt16.ofNat u) = u % 256 := by
  unfold instInst
  rw [UInt16.toNat_ofNat', show ∀ n, n &&& 0xff = n % 256 from fun n => Nat.and_two_pow_sub_one_eq_mod n 8]
  omega

theorem size_append_bytecode (pre : List SymbolicInstruction) (i : SymbolicInstruction) :
    size (pre ++ [i]) = size pre + i.width := by
  rw [size_append, size, size, Nat.add_zero]

section Step

variable {ctx : SymbolicOperand → Nat} {is : List SymbolicInstruction} {code : List Nat} (rt : Runtime σ) (fpu : Fpu)

theorem finish_sameEnd {pre rest : List SymbolicInstruction} {i : SymbolicInstruction}
    (his : is = pre ++ i :: rest) {width : Nat} (hwidth : width = i.width)
    {r : Flow (Option Int) × Vm σ} {r' : Flow Int × Vm σ} (h : SameEnd r r') :
    Sum.LiftRel (At is) Eq (finish rt ⟨code, none⟩ (size pre) width r') (goOn rt is rest r) := by
  cases h with
  | next vm =>
    refine .inl ⟨rfl, pre ++ [i], by rw [his, List.append_assoc]; rfl, ?_⟩
    rw [size_append_bytecode, hwidth]
    rfl
  | exceptionThrown vm =>
    rw [finish, exceptionThrown_none]
    exact .inr rfl
  | returnFromMethod vm => exact .inr rfl
  | unhandled vm => exact .inr rfl

/-- The step of the interpreter at an instruction of the list, where the handler and its operands are known. -/
theorem dispatch_at {pre rest : List SymbolicInstruction} {i : SymbolicInstruction}
    (his : is = pre ++ i :: rest) {h : Handler} (hh : handlerOf (instInst (fetch code (size pre) 0)) = h)
    {o : Operands (Option Int)} {f : Option Int → Int} (hdecode : decode h.form code (size pre) = o.map f)
    (hwidth : getWidthFromFormat h.form = i.width) (hswitches : h.switches = false)
    (hbranch : ∀ l, o.branch = some l → ∃ t, firstPlacement 0 is l = some t ∧ f (some l) = (t : Int) - size pre)
    (hlabel : h.straight = false ∨ h = .fillArrayData → o.branch ≠ none) (vm : Vm σ) :
    Sum.LiftRel (At is) Eq (dispatch rt fpu ⟨code, none⟩ (size pre) vm)
      (goOn rt is rest (exec rt fpu (tableAt (dataAt is code)) h o vm)) := by
  rw [dispatch, hh, hdecode]
  cases hs : h.straight with
  | true =>
    refine finish_sameEnd rt his hwidth (sameEnd_exec rt fpu f o vm hs fun hfill => ?_)
    obtain ⟨l, hl⟩ := Option.ne_none_iff_exists'.1 (hlabel (.inr hfill))
    obtain ⟨t, ht, hf⟩ := hbranch l hl
    rw [hl, hf, tableAt, dataAt, ht, show (size pre : Int) + ((t : Int) - size pre) = t by omega]
    rfl
  | false =>
    obtain ⟨l, hl⟩ := Option.ne_none_iff_exists'.1 (hlabel (.inl hs))
    obtain ⟨t, ht, hf⟩ := hbranch l hl
    let payload := tableAt (dataAt is code)
    let payload' := fun offset : Int => code.drop ((size pre : Int) + offset).toNat
    obtain ⟨taken, hexec, hexec'⟩ : ∃ taken, exec rt fpu payload h o vm = (branchIf o taken, vm) ∧
        exec rt fpu payload' h (o.map f) vm = (branchIf (o.map f) taken, vm) := exec_branchIf rt fpu f o vm hs hswitches
    rw [hexec, hexec']
    cases taken with
    | false => exact finish_sameEnd rt his hwidth (.next vm)
    | true =>
      obtain ⟨before, hbefore, rfl⟩ := fromLabel_split ht
      simp only [branchIf, if_true, Operands.map, hl, goOn, finish]
      exact .inl ⟨rfl, before, hbefore, by rw [hf]; omega⟩

/-- The unused opcodes of the ranges that have a handler by accident do not occur. -/
def OpcodesUsed (is : List SymbolicInstruction) : Prop :=
  ∀ opcode operands, .bytecode opcode operands ∈ is → fallsThrough opcode.toNat = false

theorem fallsThrough_effOp {opcode : Opcode} (h : fallsThrough opcode.toNat = false) :
    fallsThrough (effOp opcode).toNat = false := by
  by_cases hgoto : opcode = OP_GOTO
  · rw [effOp, if_pos hgoto]
    rfl
  · rwa [effOp, if_neg hgoto]

theorem effOp_ne_goto (opcode : Opcode) : effOp opcode ≠ OP_GOTO := by
  by_cases hgoto : opcode = OP_GOTO
  · rw [effOp, if_pos hgoto]
    decide
  · rwa [effOp, if_neg hgoto]

theorem dispatch_bytecode (hcodeOf : CodeOf ctx (firstPlacement 0 is) 0 is code) (hchecked : Checked is)
    (hsize : size is < 2 ^ 31) (hnear : BranchesNear is) (hused : OpcodesUsed is)
    {pre rest : List SymbolicInstruction} {opcode : Opcode} {operands : List SymbolicOperand}
    (his : is = pre ++ .bytecode opcode operands :: rest) (vm : Vm σ) :
    Sum.LiftRel (At is) Eq (dispatch rt fpu ⟨code, none⟩ (size pre) vm)
      (listStep rt fpu (dataAt is code) ctx is (.bytecode opcode operands :: rest) vm) := by
  have hmem : .bytecode opcode operands ∈ is := his ▸ List.mem_append_right _ List.mem_cons_self
  obtain ⟨before, tail, hcode, hlen, htail⟩ := CodeOf.split pre (his ▸ hcodeOf)
  rw [← his, Nat.zero_add] at htail
  obtain ⟨units, after, rfl, hunits, hpoints⟩ : ∃ units after, tail = units ++ after ∧
      Units (effOp opcode).toNat (getFormatFromOpcode (effOp opcode)) (operands.map (link ctx)) units ∧
        ∀ l short, (SymbolicInstruction.bytecode opcode operands).target = some (l, short) →
          ∃ t, firstPlacement 0 is l = some t ∧ Points short t (size pre) units := by
    cases htail with
    | insn hunits hpoints _ => exact ⟨_, _, rfl, hunits, hpoints⟩
  have hop : (effOp opcode).toNat < 256 := (effOp opcode).toNat_lt
  have hfetch : ∀ k < units.length, fetch code (size pre) k = UInt16.ofNat (units.getD k 0) := by
    intro k hk
    rw [hcode, ← hlen]
    exact fetch_append before units after hk
  obtain ⟨hpos, hhead⟩ := Units.head hunits hop
  have hinst : instInst (fetch code (size pre) 0) = (effOp opcode).toNat := by
    rw [hfetch 0 hpos, instInst_ofNat, hhead]
  have hnoswitch : isSwitch (effOp opcode) = false := hchecked.noSwitch _ hmem
  have hplain : [0x28, 0x2b, 0x2c].contains (effOp opcode).toNat = false := by
    have hgoto := effOp_ne_goto opcode
    simp only [isSwitch, Bool.or_eq_false_iff, decide_eq_false_iff_not] at hnoswitch
    simp only [List.contains_cons, List.contains_nil, Bool.or_eq_false_iff, beq_eq_false_iff_ne, and_true]
    refine ⟨fun h => hgoto ?_, fun h => hnoswitch.1 ?_, fun h => hnoswitch.2 ?_⟩ <;>
      exact UInt8.toNat_inj.1 h
  obtain ⟨hform45, hswitches, hstraight⟩ := handlerOf_accepted _ hop hplain
  rw [listStep]
  cases hh : (handlerOf (effOp opcode).toNat).handled with
  | false =>
    -- the label of the opcode leads nowhere, with any operands
    have hnone := eq_unhandled hh
    have hgo : ∀ o : Operands (Option Int), goOn rt is rest
        (exec rt fpu (tableAt (dataAt is code)) .unhandled o vm) = .inr (.unhandled vm) :=
      fun _ => rfl
    simp only [dispatch, hinst, hnone]
    split
    · rw [hgo]
      exact .inr rfl
    · exact .inr rfl
  | true =>
    have hform : (handlerOf (effOp opcode).toNat).form = getFormatFromOpcode (effOp opcode) := by
      rw [form_handlerOf _ hop (fallsThrough_effOp (hused opcode operands hmem)) hh, UInt8.ofNat_toNat]
    have hregs : ∀ regs, .vregList regs ∈ operands.map (link ctx) → regs.length ≤ 5 := by
      intro regs hregs
      obtain ⟨operand, hoperand, hlink⟩ := List.mem_map.1 hregs
      cases operand <;> simp only [link, Operand.vregList.injEq, reduceCtorEq] at hlink
      case vregList regList =>
        rw [← hlink, List.length_map]
        exact hchecked.fewRegs opcode operands regList hmem hoperand
    rw [← hform] at hunits
    obtain ⟨o, ho, hdecode⟩ := decode_units hunits hop hform45 hregs hfetch
    have hlabel := branch_operandsOf ho
    simp only [ho]
    have hsplit := size_split his
    have hwidth : getWidthFromFormat (handlerOf (effOp opcode).toNat).form =
        (SymbolicInstruction.bytecode opcode operands).width := by
      rw [hform]
      rfl
    cases hindex : labelIndex (handlerOf (effOp opcode).toNat).form with
    | none =>
      rw [hindex] at hlabel hstraight
      have hzero := branch_decode_none hunits hindex code (size pre)
      refine dispatch_at rt fpu his (by rw [hinst]) (hdecode (fun _ => 0) hzero.symm) hwidth hswitches ?_ ?_ vm
      · intro l hl
        exact absurd (hlabel.symm.trans hl) (by simp)
      · rintro (hs | hfill)
        · exact absurd (hstraight hs) (by simp)
        · rw [hfill] at hindex
          exact absurd hindex (by simp [Handler.form, labelIndex])
    | some ks =>
      obtain ⟨k, short⟩ := ks
      rw [hindex] at hlabel
      obtain ⟨l, hk, hl⟩ := hlabel
      have htarget : (SymbolicInstruction.bytecode opcode operands).target = some (l, short) := by
        rw [← labelOf_link ctx, labelOf, ← hform, hindex]
        simp only [Option.bind_some, hk]
      obtain ⟨t, ht, hpt⟩ := hpoints l short htarget
      have htle := firstPlacement_bounds ht
      have hdisp : (decode (handlerOf (effOp opcode).toNat).form code (size pre)).branch =
          (t : Int) - size pre := by
        refine branch_decode hindex hpt hfetch (by omega) (by omega) fun hshort => ?_
        rw [hshort] at htarget
        exact hnear pre _ rest l t his htarget ht
      refine dispatch_at rt fpu his (by rw [hinst]) (hdecode (fun _ => (t : Int) - size pre) hdisp.symm) hwidth
        hswitches ?_ ?_ vm
      · intro l' hl'
        obtain rfl := Option.some.inj (hl.symm.trans hl')
        exact ⟨t, ht, rfl⟩
      · exact fun _ => by rw [hl]; exact Option.some_ne_none l

theorem vmStep_list (hcodeOf : CodeOf ctx (firstPlacement 0 is) 0 is code) (hchecked : Checked is)
    (hsize : size is < 2 ^ 31) (hnear : BranchesNear is) (hused : OpcodesUsed is) (vm : Vm σ)
    (rest : List SymbolicInstruction) :
    ∀ pre, is = pre ++ rest →
      Sum.LiftRel (At is) Eq (vmStep rt fpu ⟨code, none⟩ ((size pre : Int), vm))
        (listStep rt fpu (dataAt is code) ctx is rest vm) := by
  -- inside of the code a step is a dispatch
  have hinside : ∀ pre i post, is = pre ++ i :: post → 0 < i.width →
      vmStep rt fpu ⟨code, none⟩ ((size pre : Int), vm) = dispatch rt fpu ⟨code, none⟩ (size pre) vm := by
    intro pre i post his hi
    have hsplit := size_split his
    have hlen := hcodeOf.length
    rw [vmStep, if_pos ⟨by omega, by simp only; omega⟩]
    rfl
  induction rest with
  | nil =>
    intro pre his
    have hlen := hcodeOf.length
    rw [his, List.append_nil] at hlen
    rw [vmStep, if_neg (by simp only; omega), listStep]
    exact .inr rfl
  | cons i rest ih =>
    intro pre his
    cases i with
    | label l =>
      have hsame : size (pre ++ [SymbolicInstruction.label l]) = size pre := by
        rw [size_append_bytecode, SymbolicInstruction.width, Nat.add_zero]
      rw [listStep, ← hsame]
      exact ih (pre ++ [.label l]) (by rw [his, List.append_assoc]; rfl)
    | nop =>
      rw [hinside pre _ rest his Nat.one_pos, listStep]
      obtain ⟨before, tail, hcode, hlen, htail⟩ := CodeOf.split pre (his ▸ hcodeOf)
      have hfetch : fetch code (size pre) 0 = 0 := by
        cases htail
        rw [hcode, ← hlen, fetch, Nat.add_zero, List.getD_append_right _ _ _ _ (Nat.le_refl _), Nat.sub_self,
          List.getD_cons_zero]
        rfl
      have hdispatch : dispatch rt fpu ⟨code, none⟩ (size pre) vm = .inl ((size pre : Int) + 1, vm) := by
        rw [dispatch]
        simp only [hfetch]
        rfl
      rw [hdispatch]
      refine .inl ⟨rfl, pre ++ [.nop], by rw [his, List.append_assoc]; rfl, ?_⟩
      rw [size_append_bytecode, SymbolicInstruction.width]
      rfl
    | bytecode opcode operands =>
      rw [hinside pre _ rest his (width_bytecode_pos opcode operands)]
      exact dispatch_bytecode rt fpu hcodeOf hchecked hsize hnear hused his vm

end Step

/-! ## Runs -/

/-- The interpreter runs the code as the list: with any runtime and from any registers, behind any number of
    instructions it is at the same place with the same registers, or has been left in the same way. -/
def RunsAs (ctx : SymbolicOperand → Nat) (is : List SymbolicInstruction) (code : List Nat) : Prop :=
  ∀ (σ : Type) (rt : Runtime σ) (fpu : Fpu) (rounds : Nat) (vm : Vm σ),
    Sum.LiftRel (At is) Eq (vmInterpret rt fpu ⟨code, none⟩ rounds vm)
      (interpretList rt fpu (dataAt is code) ctx is rounds vm)

theorem runsAs_of_codeOf {ctx : SymbolicOperand → Nat} {is : List SymbolicInstruction} {code : List Nat}
    (hcodeOf : CodeOf ctx (firstPlacement 0 is) 0 is code) (hchecked : Checked is) (hsize : size is < 2 ^ 31)
    (hnear : BranchesNear is) (hused : OpcodesUsed is) : RunsAs ctx is code := by
  intro σ rt fpu rounds vm
  refine runFor_lockstep ?_ rounds ⟨rfl, [], rfl, rfl⟩
  rintro ⟨pc, vm⟩ ⟨rest, vm'⟩ ⟨rfl, pre, his, rfl⟩
  exact vmStep_list rt fpu hcodeOf hchecked hsize hnear hused vm rest pre his

/-- An accepted list with fewer than `2 ^ 31` units, no 16-bit branch too far behind its label and no unused
    opcode that falls into the handler of another one: the interpreter runs the code as the list. -/
theorem runsAs_assembled {ctx : SymbolicOperand → Nat} {w : Writer} {out : Assembled}
    (hasm : assembleInto ctx w = .ok out) (hsize : size w.instructions < 2 ^ 31)
    (hnear : BranchesNear w.instructions) (hused : OpcodesUsed w.instructions) :
    RunsAs ctx w.instructions out.code :=
  runsAs_of_codeOf (codeOf_of_accepted hasm hsize) (checked_of_accepted hasm hsize) hsize hnear hused

theorem branchesNear_of_size {is : List SymbolicInstruction} (h : size is ≤ 32768) : BranchesNear is := by
  intro pre i post l t his _ _
  have hsplit := size_split his
  omega

theorem runsAs_countLoop :
    RunsAs (fun _ => 0) countLoop.instructions [0x0012, 0x1035, 0x0006, 0x00d8, 0x0100, 0x0029, 0xfffc, 0x000f] :=
  runsAs_assembled (show assembleInto (fun _ => 0) countLoop = .ok ⟨_, 0⟩ from rfl) (by decide)
    (branchesNear_of_size (by decide)) (by
      intro opcode operands hmem
      simp only [countLoop, List.mem_cons, SymbolicInstruction.bytecode.injEq, reduceCtorEq, List.not_mem_nil,
        or_false, false_or] at hmem
      rcases hmem with ⟨rfl, -⟩ | ⟨rfl, -⟩ | ⟨rfl, -⟩ | ⟨rfl, -⟩ | ⟨rfl, -⟩ <;> rfl)

end ArtPi.Interp.Machine
