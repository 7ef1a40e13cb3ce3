import ArtPi.Dex.SmaliInvoke

set_option autoImplicit false

/-! # Parameter registers (`src/dex/pi_dex_writer.cpp`, `src/agent/agent_java_registerclass.cpp`)

The parameters of a method are the last registers of its frame. `ParseRegister` makes a register of `p<k>` with the
frame that the writer has when the line is read. A directive further down, `setRegisters` of the script, and
`Java.registerClass`, where it gives the writer a frame that fits the method, change the frame and leave the registers
that are on the list already. -/

namespace ArtPi.Dex.Smali

open Interp Interp.Constants

/-! ## Building a method -/

/-- `SetRegisters` -/
def Writer.reframe (w : Writer) (total ins outs : UInt16) : Writer :=
  { w with
    registers := if total < ins then ins else total
    ins := ins
    outs := outs
    ins_le := by
      split
      · exact UInt16.le_refl _
      · rename_i h
        exact UInt16.not_lt.mp h }

/-- What a script does with a writer. `put` is any of the other `Put` functions: it adds one item to the list, and an
invoke raises the outs. -/
inductive WriterCall where
  | setRegisters (total ins outs : UInt16)
  | makeLabel
  | put (i : SymbolicInstruction) (outs : UInt16)
  | smali (text : List Char)

def WriterCall.run (w : Writer) : WriterCall → Writer
  | .setRegisters total ins outs => w.reframe total ins outs
  | .makeLabel => { w with nextLabelId := w.nextLabelId + 1 }
  | .put i outs => { w.append i with outs := max w.outs outs }
  | .smali text => (emitSmali w text).1

/-- The code that `JsRegisterClass` takes for a method: a `DexWriter` built beforehand, smali text, or a function that
is given a writer. -/
inductive Bytecode where
  | dexWriter (total ins outs : UInt16) (calls : List WriterCall)
  | smali (text : List Char)
  | builder (calls : List WriterCall)

/-- The writer at first. For a text and for a function it has a frame for the method. -/
def Bytecode.start (expectedIns : UInt16) : Bytecode → Writer
  | .dexWriter total ins outs _ => fresh.reframe total ins outs
  | .smali _ | .builder _ => fresh.reframe (max (expectedIns + 2) 4) expectedIns 4

def Bytecode.calls : Bytecode → List WriterCall
  | .dexWriter _ _ _ calls => calls
  | .smali text => [.smali text]
  | .builder calls => calls

/-- A copy of the `DexWriter` gets a frame for the method where its own does not fit. -/
def Bytecode.finish (expectedIns : UInt16) (w : Writer) : Bytecode → Writer
  | .dexWriter _ _ _ _ =>
    if w.ins ≠ expectedIns ∨ w.registers < expectedIns then
      w.reframe (max w.registers (expectedIns + 2)) expectedIns w.outs
    else w
  | .smali _ | .builder _ => w

/-- The writer that the method is assembled from. `expectedIns` is what `CalculateInsWords` gives for the method. -/
def Bytecode.writer (b : Bytecode) (expectedIns : UInt16) : Writer :=
  b.finish expectedIns (b.calls.foldl WriterCall.run (b.start expectedIns))

/-! ## Operands -/

/-- The registers in front of the parameters. -/
def Writer.locals (w : Writer) : Nat := w.registers.toNat - w.ins.toNat

/-- The `k` of a token `p<k>`. -/
def paramIndex (token : List Char) : Option Nat :=
  match token with
  | [] => none
  | c :: digits =>
    if (c = 'p' ∨ c = 'P') ∧ digits ≠ [] ∧ digits.all Char.isDigit = true then some (ofDigits 10 digits) else none

def isRegister : Form → Bool
  | .register _ => true
  | .literal | .text | .type | .field | .label => false

/-- The tokens that a row reads as registers. -/
def rowTokens : List Form → List (List Char) → List (List Char)
  | form :: forms, token :: args =>
    if isRegister form = true then token :: rowTokens forms args else rowTokens forms args
  | _, _ => []

/-- The tokens of a line that stand where registers do. -/
def registerTokens (raw : List Char) : List (List Char) :=
  match tokenizeLine raw with
  | [] => []
  | op :: args =>
    match rowOf op with
    | some row => rowTokens row.forms args
    | none => if isInvokeOp op = true ∧ args.head? = some ['{'] then args.tail.takeWhile (· ≠ ['}']) else []

/-- Those of them that are operands: in the braces of an invoke, what is no register is passed over. -/
def operandTokens (w : Writer) (raw : List Char) : List (List Char) :=
  if isInvokeLine raw = true then
    (registerTokens raw).filter (fun t => (paramIndex t).isSome || 0 ≤ parseRegister t w.registers w.ins)
  else registerTokens raw

def operandRegs : SymbolicOperand → List UInt32
  | .vreg reg => [reg]
  | .vregList regList => regList
  | _ => []

/-- The registers of an instruction, in the order of its operands. -/
def insnRegs : SymbolicInstruction → List UInt32
  | .bytecode _ operands => operands.flatMap operandRegs
  | .label _ | .nop => []

/-- The registers of the instruction with that index. -/
def Writer.regsAt (w : Writer) (index : Nat) : List UInt32 :=
  match w.instructions[index]? with
  | none => []
  | some i => insnRegs i

/-- Each `p<k>` of the text, read by the writer `w₀`, is the register of the parameter in the method assembled from
`final`. -/
def TextRight (w₀ : Writer) (text : List Char) (final : Writer) : Prop :=
  ∀ pre raw post w, getLines text = pre ++ raw :: post → emitLines w₀ 0 pre = (w, none) →
    ∀ (n : Nat) (t : List Char) (k : Nat), (operandTokens w raw)[n]? = some t → paramIndex t = some k →
      ∃ r : UInt32, (final.regsAt w.instructions.length)[n]? = some r ∧ r.toNat = final.locals + k

/-- So it is for every text that is accepted on the way to the method. -/
def ParamsRight (b : Bytecode) (expectedIns : UInt16) : Prop :=
  ∀ pre text post, b.calls = pre ++ .smali text :: post →
    (emitSmali (pre.foldl WriterCall.run (b.start expectedIns)) text).2 = none →
      TextRight (pre.foldl WriterCall.run (b.start expectedIns)) text (b.writer expectedIns)

/-! ## Frames -/

/-- What a line does to the frame: only a directive changes it. -/
def afterLine (w : Writer) (raw : List Char) : Writer := if quiet raw = true then afterQuiet w raw else w

/-- The lines that are read, up to one that is rejected. -/
def afterLines (w : Writer) : List (List Char) → Writer
  | [] => w
  | raw :: lines => if (emitLine w raw).2.isSome = true then w else afterLines (afterLine w raw) lines

/-- What a call does to the frame. -/
def WriterCall.frame (w : Writer) : WriterCall → Writer
  | .setRegisters total ins outs => w.reframe total ins outs
  | .makeLabel | .put _ _ => w
  | .smali text => afterLines w (getLines text)

/-- The frame of the method. -/
def Bytecode.frame (b : Bytecode) (expectedIns : UInt16) : Writer :=
  b.finish expectedIns (b.calls.foldl WriterCall.frame (b.start expectedIns))

/-- Where a line of the text has a `p<k>`, the directives in front of it have left the number of locals that the
method has in the end, and the number of the register fits an `int`. -/
def TextKept (w₀ : Writer) (text : List Char) (final : Writer) : Prop :=
  ∀ pre raw post, getLines text = pre ++ raw :: post →
    ∀ t ∈ registerTokens raw, ∀ k ∈ paramIndex t,
      (pre.foldl afterLine w₀).locals = final.locals ∧ (pre.foldl afterLine w₀).locals + k < 2 ^ 31

def FrameKept (b : Bytecode) (expectedIns : UInt16) : Prop :=
  ∀ pre text post, b.calls = pre ++ .smali text :: post →
    (emitSmali (pre.foldl WriterCall.frame (b.start expectedIns)) text).2 = none →
      TextKept (pre.foldl WriterCall.frame (b.start expectedIns)) text (b.frame expectedIns)

/-- Two writers with the same frame. -/
structure SameFrame (v w : Writer) : Prop where
  registers : v.registers = w.registers
  ins : v.ins = w.ins

theorem SameFrame.refl (w : Writer) : SameFrame w w := ⟨rfl, rfl⟩

theorem SameFrame.trans {u v w : Writer} (h : SameFrame u v) (h' : SameFrame v w) : SameFrame u w :=
  ⟨h.registers.trans h'.registers, h.ins.trans h'.ins⟩

theorem SameFrame.symm {v w : Writer} (h : SameFrame v w) : SameFrame w v := ⟨h.registers.symm, h.ins.symm⟩

theorem SameFrame.locals {v w : Writer} (h : SameFrame v w) : v.locals = w.locals := by
  unfold Writer.locals
  rw [h.registers, h.ins]

theorem SameFrame.afterLine {v w : Writer} (h : SameFrame v w) (raw : List Char) :
    SameFrame (afterLine v raw) (afterLine w raw) := by
  have hset : lineSetting v raw = lineSetting w raw := by
    unfold lineSetting setting
    rw [h.ins]
  unfold Smali.afterLine
  split
  · unfold afterQuiet
    rw [hset]
    split
    · exact h
    · refine ⟨?_, h.ins⟩
      simp only [Writer.setRegisters, h.ins]
  · exact h

theorem SameFrame.rejected {v w : Writer} (h : SameFrame v w) {raw : List Char} (hv : Rejected v raw) :
    Rejected w raw := by
  have hunreadable : ∀ token form, Unreadable v token form → Unreadable w token form := by
    intro token form hform
    cases form with
    | register checked =>
      unfold Unreadable at hform ⊢
      rwa [← h.registers, ← h.ins]
    | literal | text | type | field | label => exact hform
  obtain ⟨op, args, htokens, hdir, hlabel, hbad⟩ := hv
  refine ⟨op, args, htokens, hdir, hlabel, ?_⟩
  unfold InsnRejected at hbad ⊢
  cases hrow : rowOf op with
  | some row =>
    rw [hrow] at hbad
    exact hbad.imp_right (fun ⟨p, hp, hun⟩ => ⟨p, hp, hunreadable _ _ hun⟩)
  | none =>
    rw [hrow] at hbad
    intro hop
    have href := hbad hop
    unfold InvokeRefused readList at href ⊢
    rwa [← h.registers, ← h.ins]

theorem isSome_emitLine_iff (w : Writer) (raw : List Char) : (emitLine w raw).2.isSome = true ↔ Rejected w raw := by
  cases hq : quiet raw with
  | true =>
    rw [emitLine_quiet w hq]
    refine ⟨fun h => absurd h (by simp), fun h => ?_⟩
    exact absurd (quiet_of_rejected h) (by simp [hq])
  | false =>
    rcases emitLine_cases w hq with ⟨hbad, d, hres⟩ | ⟨hok, w', i, hres, -⟩
    · rw [hres]
      exact ⟨fun _ => hbad, fun _ => rfl⟩
    · rw [hres]
      exact ⟨fun h => absurd h (by simp), fun h => absurd h hok⟩

theorem SameFrame.isSome_emitLine {v w : Writer} (h : SameFrame v w) (raw : List Char) :
    (emitLine v raw).2.isSome = (emitLine w raw).2.isSome := by
  rw [Bool.eq_iff_iff, isSome_emitLine_iff, isSome_emitLine_iff]
  exact ⟨h.rejected, h.symm.rejected⟩

theorem getOrCreateNamedLabel_sameFrame (w : Writer) (name : List Char) :
    SameFrame (w.getOrCreateNamedLabel name).1 w := by
  unfold Writer.getOrCreateNamedLabel
  dsimp only
  split <;> exact ⟨rfl, rfl⟩

theorem readOperand_sameFrame (w : Writer) (op token : List Char) (form : Form) :
    SameFrame (readOperand w op token form).1 w := by
  cases form with
  | label => exact getOrCreateNamedLabel_sameFrame w token
  | register checked | literal | text | type | field => exact SameFrame.refl w

/-- The register that a token is read as. -/
def regOf (w : Writer) (token : List Char) : UInt32 := UInt32.ofInt (parseRegister token w.registers w.ins)

theorem SameFrame.regOf {v w : Writer} (h : SameFrame v w) : regOf v = regOf w := by
  unfold Smali.regOf
  rw [h.registers, h.ins]

theorem operandRegs_readOperand {w w' : Writer} {op token : List Char} {form : Form} {operand : SymbolicOperand}
    (h : readOperand w op token form = (w', .ok operand)) :
    operandRegs operand = if isRegister form = true then [regOf w token] else [] := by
  have hok : (readOperand w op token form).2 = .ok operand := by rw [h]
  cases form with
  | register checked =>
    simp only [readOperand] at hok
    split at hok
    · exact absurd hok (by simp)
    · obtain rfl := Except.ok.inj hok
      rfl
  | field =>
    simp only [readOperand] at hok
    split at hok
    · exact absurd hok (by simp)
    · obtain rfl := Except.ok.inj hok
      rfl
  | literal | text | type | label =>
    obtain rfl := Except.ok.inj hok
    rfl

/-- The registers of a row are those of its tokens, and reading them leaves the frame alone. -/
theorem readOperands_ok {forms : List Form} {args : List (List Char)} {w w' : Writer} {op : List Char}
    {operands : List SymbolicOperand} (h : readOperands w op forms args = (w', .ok operands)) :
    SameFrame w' w ∧ operands.flatMap operandRegs = (rowTokens forms args).map (regOf w) := by
  induction forms generalizing args w operands with
  | nil =>
    obtain ⟨rfl, hops⟩ := Prod.mk.inj h
    obtain rfl := Except.ok.inj hops
    exact ⟨SameFrame.refl w, rfl⟩
  | cons form forms ih =>
    cases args with
    | nil => exact absurd h (by simp [readOperands])
    | cons token args =>
      rw [readOperands] at h
      have hframe := readOperand_sameFrame w op token form
      cases hread : readOperand w op token form with
      | mk w₁ r =>
        rw [hread] at h hframe
        cases r with
        | error detail => exact absurd h (by simp)
        | ok operand =>
          simp only at h
          have hone := operandRegs_readOperand hread
          cases hrest : readOperands w₁ op forms args with
          | mk w₂ r =>
            rw [hrest] at h
            cases r with
            | error detail => exact absurd h (by simp)
            | ok operands' =>
              obtain ⟨rfl, hops⟩ := Prod.mk.inj h
              obtain rfl := Except.ok.inj hops
              obtain ⟨hframe', hregs⟩ := ih hrest
              refine ⟨hframe'.trans hframe, ?_⟩
              rw [List.flatMap_cons, hone, hregs, hframe.regOf, rowTokens]
              split
              · rw [List.map_cons]
                rfl
              · rfl

/-! ## Instructions -/

/-- The instruction of a row has the registers of its operands. -/
def Row.Plain (row : Row) : Prop :=
  ∀ operands, (row.forms = [] → operands = []) → insnRegs (row.instruction operands) = operands.flatMap operandRegs

theorem insn_plain (opcode : Opcode) (forms : List Form) : (insn opcode forms).Plain := fun _ _ => rfl

theorem constRow_plain (op : UInt32 → Int32 → Opcode) : (constRow op).Plain := by
  intro operands _
  unfold constRow
  dsimp only
  split <;> rfl

theorem moveRow_plain (narrow from16 wide : Opcode) : (moveRow narrow from16 wide).Plain := by
  intro operands _
  unfold moveRow
  dsimp only
  split
  · split_ifs <;> rfl
  · rfl

theorem nop_plain : (⟨[], fun _ => .nop⟩ : Row).Plain := by
  intro operands h
  rw [h rfl]
  rfl

theorem plain_of_rowOf {op : List Char} {row : Row} (h : rowOf op = some row) : row.Plain := by
  have hall : ∀ p ∈ rows, p.2.Plain := by
    simp only [rows, binaryRow, List.forall_mem_cons, insn_plain, constRow_plain, moveRow_plain, nop_plain, true_and]
    exact fun p hp => absurd hp (by simp)
  obtain ⟨front, back, hrows, -⟩ := List.lookup_eq_some_iff.mp h
  exact hall (String.ofList op, row) (by rw [hrows]; simp)

theorem plainOp_of_rowOf {op : List Char} {row : Row} (h : rowOf op = some row) :
    isDirective op = false ∧ op.head? ≠ some ':' ∧ isInvokeOp op = false := by
  have hall : ∀ p ∈ rows, isDirective p.1.toList = false ∧ p.1.toList.head? ≠ some ':' ∧
      isInvokeOp p.1.toList = false := by
    decide
  obtain ⟨front, back, hrows, -⟩ := List.lookup_eq_some_iff.mp h
  have := hall (String.ofList op, row) (by rw [hrows]; simp)
  rwa [String.toList_ofList] at this

theorem plain_of_isDirective {op : List Char} (h : isDirective op = true) :
    rowOf op = none ∧ isInvokeOp op = false := by
  refine ⟨?_, ?_⟩
  · cases hrow : rowOf op with
    | none => rfl
    | some row => exact absurd h (by simp [(plainOp_of_rowOf hrow).1])
  · rcases Bool.or_eq_true _ _ ▸ h with hop | hop <;>
    · rw [decide_eq_true_iff] at hop
      rw [hop]
      decide

/-- The registers of the instruction that a line puts. -/
def lineRegs (w : Writer) (raw : List Char) : List UInt32 :=
  if isInvokeLine raw = true then readTokens w (registerTokens raw) else (registerTokens raw).map (regOf w)

/-- What a line that is accepted does. -/
structure LineSpec (w w' : Writer) (raw : List Char) : Prop where
  frame : SameFrame w' (afterLine w raw)
  grows : w.instructions <+: w'.instructions
  puts : registerTokens raw ≠ [] → ∃ i, w'.instructions = w.instructions ++ [i] ∧ insnRegs i = lineRegs w raw

theorem lineSpec_row {w w' : Writer} {raw op : List Char} {args : List (List Char)} {row : Row}
    (htokens : tokenizeLine raw = op :: args) (hrow : rowOf op = some row) (h : emitLine w raw = (w', none)) :
    LineSpec w w' raw := by
  obtain ⟨hdir, hlabel, hinv⟩ := plainOp_of_rowOf hrow
  have hquiet : quiet raw = false := (quiet_cons htokens).trans hdir
  have hinvoke : isInvokeLine raw = false := by
    unfold isInvokeLine
    rw [htokens]
    exact hinv
  have htoks : registerTokens raw = rowTokens row.forms args := by
    unfold registerTokens
    rw [htokens]
    dsimp only
    rw [hrow]
  unfold emitLine emitInsn at h
  simp only [htokens, hdir, hrow, Bool.false_eq_true, if_false, if_neg hlabel] at h
  split at h
  · exact absurd h (by simp)
  · have hinsns := readOperands_instructions w op row.forms args
    cases hread : readOperands w op row.forms args with
    | mk w₁ r =>
      rw [hread] at h hinsns
      cases r with
      | error detail => exact absurd h (by simp)
      | ok operands =>
        obtain ⟨rfl, -⟩ := Prod.mk.inj h
        obtain ⟨hframe, hregs⟩ := readOperands_ok hread
        have hempty : row.forms = [] → operands = [] := by
          intro hforms
          rw [hforms, readOperands] at hread
          exact (Except.ok.inj (Prod.mk.inj hread).2).symm
        have hputs : (w₁.append (row.instruction operands)).instructions =
            w.instructions ++ [row.instruction operands] := by
          rw [← hinsns]
          rfl
        refine ⟨?_, ⟨_, hputs.symm⟩, fun _ => ⟨_, hputs, ?_⟩⟩
        · unfold afterLine
          rw [if_neg (by simp [hquiet])]
          exact ⟨hframe.registers, hframe.ins⟩
        · unfold lineRegs
          rw [plain_of_rowOf hrow operands hempty, hregs, hinvoke, htoks]
          rfl

theorem emitInvoke_ok {w w' : Writer} {op : List Char} {args : List (List Char)}
    (h : emitInvoke w op args = (w', none)) :
    SameFrame w' w ∧ ∃ i, w'.instructions = w.instructions ++ [i] ∧ insnRegs i = (readList w args).1 := by
  unfold emitInvoke at h
  dsimp only at h
  split at h
  · exact absurd h (by simp)
  · rename_i hlen
    split at h
    · exact absurd h (by simp)
    · split at h
      · exact absurd h (by simp)
      · unfold putInvokeInternal at h
        simp only [if_neg hlen] at h
        by_cases hbig : (readList w args).1.any (· > 15) = true
        · rw [if_pos hbig] at h
          exact absurd h (by simp)
        · rw [if_neg hbig] at h
          split at h
          · exact absurd h (by simp)
          · next written hwritten =>
              split at hwritten
              · exact absurd hwritten (by simp)
              · obtain rfl := Option.some.inj hwritten
                obtain ⟨rfl, -⟩ := Prod.mk.inj h
                exact ⟨⟨rfl, rfl⟩, _, rfl, by simp [insnRegs, operandRegs]⟩

theorem lineSpec_invoke {w w' : Writer} {raw op : List Char} {args : List (List Char)}
    (htokens : tokenizeLine raw = op :: args) (hop : isInvokeOp op = true) (h : emitLine w raw = (w', none)) :
    LineSpec w w' raw := by
  have hinvoke : isInvokeLine raw = true := by
    unfold isInvokeLine
    rw [htokens]
    exact hop
  have hquiet : quiet raw = false := by
    cases hq : quiet raw with
    | false => rfl
    | true =>
      have hno := (plain_of_isDirective ((quiet_cons htokens).symm.trans hq)).2
      exact absurd hop (by simp [hno])
  rw [emitLine_invoke w htokens hop] at h
  obtain ⟨hframe, i, hinsns, hregs⟩ := emitInvoke_ok h
  have htoks : readTokens w (registerTokens raw) = (readList w args).1 := by
    rw [readList_fst]
    unfold registerTokens
    rw [htokens]
    dsimp only
    rw [rowOf_of_isInvokeOp hop]
    by_cases hopen : args.head? = some ['{']
    · rw [if_pos hopen]
      dsimp only
      rw [if_pos ⟨hop, hopen⟩]
    · rw [if_neg hopen]
      dsimp only
      rw [if_neg (fun hand => hopen hand.2)]
      rfl
  refine ⟨?_, ⟨[i], hinsns.symm⟩, fun _ => ⟨i, hinsns, ?_⟩⟩
  · unfold afterLine
    rw [if_neg (by simp [hquiet])]
    exact hframe
  · unfold lineRegs
    rw [if_pos hinvoke, htoks, hregs]

theorem registerTokens_eq_nil {raw op : List Char} {args : List (List Char)} (htokens : tokenizeLine raw = op :: args)
    (hrow : rowOf op = none) (hop : isInvokeOp op = false) : registerTokens raw = [] := by
  unfold registerTokens
  rw [htokens]
  dsimp only
  rw [hrow]
  dsimp only
  rw [if_neg (fun hand => absurd hand.1 (by simp [hop]))]

theorem emitLine_ok {w w' : Writer} {raw : List Char} (h : emitLine w raw = (w', none)) : LineSpec w w' raw := by
  cases hq : quiet raw with
  | true =>
    obtain ⟨rfl, -⟩ := Prod.mk.inj ((emitLine_quiet w hq).symm.trans h)
    have hnone : registerTokens raw = [] := by
      cases htokens : tokenizeLine raw with
      | nil =>
        unfold registerTokens
        rw [htokens]
      | cons op args =>
        obtain ⟨hrow, hop⟩ := plain_of_isDirective ((quiet_cons htokens).symm.trans hq)
        exact registerTokens_eq_nil htokens hrow hop
    refine ⟨?_, ⟨[], by rw [List.append_nil, afterQuiet_instructions]⟩, fun hne => absurd hnone hne⟩
    unfold afterLine
    rw [if_pos hq]
    exact SameFrame.refl _
  | false =>
    cases htokens : tokenizeLine raw with
    | nil => exact absurd hq (by simp [quiet, htokens])
    | cons op args =>
      cases hrow : rowOf op with
      | some row => exact lineSpec_row htokens hrow h
      | none =>
        cases hop : isInvokeOp op with
        | true => exact lineSpec_invoke htokens hop h
        | false =>
          have hdir : isDirective op = false := (quiet_cons htokens).symm.trans hq
          have hnone := registerTokens_eq_nil htokens hrow hop
          unfold emitLine emitInsn at h
          simp only [htokens, hdir, hrow, hop, Bool.false_eq_true, if_false] at h
          split at h
          · obtain ⟨rfl, -⟩ := Prod.mk.inj h
            have hframe := getOrCreateNamedLabel_sameFrame w op
            refine ⟨?_, ⟨[.label (w.getOrCreateNamedLabel op).2], ?_⟩, fun hne => absurd hnone hne⟩
            · unfold afterLine
              rw [if_neg (by simp [hq])]
              exact ⟨hframe.registers, hframe.ins⟩
            · rw [← getOrCreateNamedLabel_instructions w op]
              rfl
          · exact absurd h (by simp)

/-! ## Texts and calls -/

theorem SameFrame.readLines {v w : Writer} (h : SameFrame v w) (n : Nat) (lines : List (List Char)) :
    SameFrame (emitLines v n lines).1 (afterLines w lines) := by
  induction lines generalizing v w n with
  | nil => exact h
  | cons raw lines ih =>
    have hsome := h.isSome_emitLine raw
    rw [emitLines, afterLines]
    cases hline : emitLine v raw with
    | mk v₁ r =>
      rw [hline] at hsome
      cases r with
      | none =>
        have haccepted : ¬ (emitLine w raw).2.isSome = true := by
          rw [← hsome]
          simp
        rw [if_neg haccepted]
        exact ih ((emitLine_ok hline).frame.trans (h.afterLine raw)) (n + 1)
      | some detail =>
        obtain ⟨rfl, -⟩ := emitLine_error hline
        have hrejected : (emitLine w raw).2.isSome = true := hsome.symm
        rw [if_pos hrejected]
        exact h

theorem SameFrame.emitLines_none_iff {v w : Writer} (h : SameFrame v w) (n : Nat) (lines : List (List Char)) :
    (emitLines v n lines).2 = none ↔ (emitLines w n lines).2 = none := by
  induction lines generalizing v w n with
  | nil => exact Iff.rfl
  | cons raw lines ih =>
    have hsome := h.isSome_emitLine raw
    rw [emitLines, emitLines]
    cases hv : emitLine v raw with
    | mk v₁ r =>
      cases hw : emitLine w raw with
      | mk w₁ r' =>
        rw [hv, hw] at hsome
        cases r with
        | none =>
          cases r' with
          | none =>
            have hframe := (emitLine_ok hv).frame.trans (h.afterLine raw)
            exact ih (hframe.trans (emitLine_ok hw).frame.symm) (n + 1)
          | some detail => exact absurd hsome (by simp)
        | some detail =>
          cases r' with
          | none => exact absurd hsome (by simp)
          | some detail' => simp

theorem emitLines_grows (w : Writer) (n : Nat) (lines : List (List Char)) :
    w.instructions <+: (emitLines w n lines).1.instructions := by
  induction lines generalizing w n with
  | nil => exact List.prefix_refl _
  | cons raw lines ih =>
    rw [emitLines]
    cases hline : emitLine w raw with
    | mk w₁ r =>
      cases r with
      | none => exact (emitLine_ok hline).grows.trans (ih w₁ (n + 1))
      | some detail =>
        obtain ⟨rfl, -⟩ := emitLine_error hline
        exact List.prefix_refl _

/-- In front of each line of a text that is accepted the lines are accepted, and the line is. What it puts stays. -/
theorem emitLines_split {w : Writer} {n : Nat} {pre post : List (List Char)} {raw : List Char}
    (h : (emitLines w n (pre ++ raw :: post)).2 = none) :
    ∃ w₁ w₂, emitLines w n pre = (w₁, none) ∧ emitLine w₁ raw = (w₂, none) ∧
      w₂.instructions <+: (emitLines w n (pre ++ raw :: post)).1.instructions := by
  induction pre generalizing w n with
  | nil =>
    rw [List.nil_append, emitLines] at h
    cases hline : emitLine w raw with
    | mk w₂ r =>
      rw [hline] at h
      cases r with
      | none =>
        refine ⟨w, w₂, rfl, hline, ?_⟩
        rw [List.nil_append, emitLines, hline]
        exact emitLines_grows w₂ (n + 1) post
      | some detail => exact absurd h (by simp)
  | cons head pre ih =>
    rw [List.cons_append, emitLines] at h
    cases hline : emitLine w head with
    | mk w₁ r =>
      rw [hline] at h
      cases r with
      | none =>
        obtain ⟨w₂, w₃, hpre, hraw, hgrows⟩ := ih h
        refine ⟨w₂, w₃, ?_, hraw, ?_⟩
        · rw [emitLines, hline]
          exact hpre
        · rw [List.cons_append, emitLines, hline]
          exact hgrows
      | some detail => exact absurd h (by simp)

theorem SameFrame.foldl_afterLine {v w w' : Writer} (h : SameFrame v w) {n : Nat} {pre : List (List Char)}
    (hpre : emitLines v n pre = (w', none)) : SameFrame w' (pre.foldl Smali.afterLine w) := by
  induction pre generalizing v w n with
  | nil =>
    obtain ⟨rfl, -⟩ := Prod.mk.inj hpre
    exact h
  | cons raw pre ih =>
    rw [emitLines] at hpre
    cases hline : emitLine v raw with
    | mk v₁ r =>
      rw [hline] at hpre
      cases r with
      | none => exact ih ((emitLine_ok hline).frame.trans (h.afterLine raw)) hpre
      | some detail => exact absurd hpre (by simp)

theorem WriterCall.grows (c : WriterCall) (w : Writer) : w.instructions <+: (c.run w).instructions := by
  cases c with
  | setRegisters total ins outs => exact List.prefix_refl _
  | makeLabel => exact List.prefix_refl _
  | put i outs => exact ⟨[i], rfl⟩
  | smali text => exact emitLines_grows w 0 (getLines text)

theorem foldl_run_grows (calls : List WriterCall) (w : Writer) :
    w.instructions <+: (calls.foldl WriterCall.run w).instructions := by
  induction calls generalizing w with
  | nil => exact List.prefix_refl _
  | cons c calls ih => exact (c.grows w).trans (ih _)

theorem SameFrame.run {v w : Writer} (h : SameFrame v w) (c : WriterCall) : SameFrame (c.run v) (c.frame w) := by
  cases c with
  | setRegisters total ins outs => exact ⟨rfl, rfl⟩
  | makeLabel => exact ⟨h.registers, h.ins⟩
  | put i outs => exact ⟨h.registers, h.ins⟩
  | smali text => exact h.readLines 0 (getLines text)

theorem SameFrame.foldl_run {v w : Writer} (h : SameFrame v w) (calls : List WriterCall) :
    SameFrame (calls.foldl WriterCall.run v) (calls.foldl WriterCall.frame w) := by
  induction calls generalizing v w with
  | nil => exact h
  | cons c calls ih => exact ih (h.run c)

theorem SameFrame.finish {v w : Writer} (h : SameFrame v w) (b : Bytecode) (expectedIns : UInt16) :
    SameFrame (b.finish expectedIns v) (b.finish expectedIns w) := by
  cases b with
  | dexWriter total ins outs calls =>
    unfold Bytecode.finish
    dsimp only
    rw [h.registers, h.ins]
    split
    · exact ⟨rfl, rfl⟩
    · exact h
  | smali text => exact h
  | builder calls => exact h

theorem Bytecode.finish_instructions (b : Bytecode) (expectedIns : UInt16) (w : Writer) :
    (b.finish expectedIns w).instructions = w.instructions := by
  cases b with
  | dexWriter total ins outs calls =>
    unfold Bytecode.finish
    dsimp only
    split <;> rfl
  | smali text => rfl
  | builder calls => rfl

/-! ## Resolving a parameter -/

theorem Writer.locals_lt (w : Writer) : w.locals < 2 ^ 16 := by
  have := w.registers.toNat_lt
  unfold Writer.locals
  omega

theorem regOf_of_paramIndex {w : Writer} {t : List Char} {k : Nat} (h : paramIndex t = some k)
    (hlt : w.locals + k < 2 ^ 31) :
    parseRegister t w.registers w.ins = (w.locals + k : Nat) ∧ (regOf w t).toNat = w.locals + k := by
  have hparse : parseRegister t w.registers w.ins = (w.locals + k : Nat) := by
    refine parseRegister_of_denotes (w := w) (l := ⟨t, false⟩) ⟨rfl, ?_⟩ hlt
    unfold paramIndex at h
    split at h
    · exact absurd h (by simp)
    · next c digits =>
        split at h
        · next hp =>
            obtain ⟨hc, hne, hdigits⟩ := hp
            obtain rfl := Option.some.inj h
            exact ⟨c, digits, rfl, hne, List.all_eq_true.mp hdigits, .inr ⟨hc, rfl⟩⟩
        · exact absurd h (by simp)
  have hnat := @toNat_ofInt ((w.locals + k : Nat) : Int) (Int.natCast_nonneg _) (by omega)
  refine ⟨hparse, ?_⟩
  unfold regOf
  rw [hparse]
  exact Int.ofNat.inj hnat

theorem readTokens_eq (w : Writer) (tokens : List (List Char)) :
    readTokens w tokens = (tokens.filter (fun t => 0 ≤ parseRegister t w.registers w.ins)).map (regOf w) := by
  unfold readTokens
  induction tokens with
  | nil => rfl
  | cons t tokens ih =>
    rw [List.map_cons, List.filterMap_cons, ih]
    by_cases hneg : parseRegister t w.registers w.ins < 0
    · rw [if_pos hneg, List.filter_cons_of_neg (by simpa using hneg)]
    · rw [if_neg hneg, List.filter_cons_of_pos (by simpa using hneg)]
      rfl

theorem mem_operandTokens_iff {w : Writer} {raw t : List Char} {k : Nat} (h : paramIndex t = some k) :
    t ∈ operandTokens w raw ↔ t ∈ registerTokens raw := by
  unfold operandTokens
  split
  · rw [List.mem_filter, h]
    simp
  · exact Iff.rfl

/-- Where the numbers of its parameters fit an `int`, the operands of a line are the registers it puts. -/
theorem lineRegs_eq {w : Writer} {raw : List Char}
    (hfit : ∀ t ∈ registerTokens raw, ∀ k ∈ paramIndex t, w.locals + k < 2 ^ 31) :
    lineRegs w raw = (operandTokens w raw).map (regOf w) := by
  unfold lineRegs operandTokens
  split
  · rw [readTokens_eq]
    congr 1
    refine List.filter_congr (fun t ht => ?_)
    cases hindex : paramIndex t with
    | none => simp
    | some k =>
      have hparse := (regOf_of_paramIndex hindex (hfit t ht k hindex)).1
      have hpos : (0 : Int) ≤ (w.locals + k : Nat) := Int.natCast_nonneg _
      rw [hparse, decide_eq_true hpos]
      rfl
  · rfl

/-- The registers of an instruction that has been put are still those of the line in the end. -/
theorem LineSpec.regsAt {w w' final : Writer} {raw : List Char} (h : LineSpec w w' raw)
    (hgrows : w'.instructions <+: final.instructions) (hne : registerTokens raw ≠ []) :
    final.regsAt w.instructions.length = lineRegs w raw := by
  obtain ⟨i, hinsns, hregs⟩ := h.puts hne
  obtain ⟨rest, hrest⟩ := hgrows
  have hi : final.instructions[w.instructions.length]? = some i := by
    rw [← hrest, hinsns, List.append_assoc, List.getElem?_append_right (Nat.le_refl _), Nat.sub_self]
    rfl
  unfold Writer.regsAt
  rw [hi]
  exact hregs

/-- All registers of the list are registers that a frame can have. -/
def Bounded (w : Writer) : Prop := ∀ i ∈ w.instructions, ∀ r ∈ insnRegs i, r.toNat < 2 ^ 16

theorem Bounded.regsAt {w : Writer} (h : Bounded w) {index : Nat} {r : UInt32} (hr : r ∈ w.regsAt index) :
    r.toNat < 2 ^ 16 := by
  unfold Writer.regsAt at hr
  split at hr
  · exact absurd hr (by simp)
  · next i hi => exact h i (List.mem_of_getElem? hi) r hr

/-- The parameters of one line: they are right in the end exactly when the number of locals is the one in the end. -/
theorem LineSpec.right_iff {w w' final : Writer} {raw : List Char} (h : LineSpec w w' raw)
    (hgrows : w'.instructions <+: final.instructions) (hbound : Bounded final) :
    (∀ (n : Nat) (t : List Char) (k : Nat), (operandTokens w raw)[n]? = some t → paramIndex t = some k →
        ∃ r : UInt32, (final.regsAt w.instructions.length)[n]? = some r ∧ r.toNat = final.locals + k) ↔
      ∀ t ∈ registerTokens raw, ∀ k ∈ paramIndex t, w.locals = final.locals ∧ w.locals + k < 2 ^ 31 := by
  have hat : ∀ t ∈ registerTokens raw, (∀ t ∈ registerTokens raw, ∀ k ∈ paramIndex t, w.locals + k < 2 ^ 31) →
      final.regsAt w.instructions.length = (operandTokens w raw).map (regOf w) := by
    intro t ht hfit
    rw [h.regsAt hgrows (List.ne_nil_of_mem ht), lineRegs_eq hfit]
  constructor
  · intro hright
    have hfit : ∀ t ∈ registerTokens raw, ∀ k ∈ paramIndex t, w.locals + k < 2 ^ 31 := by
      intro t ht k hk
      obtain ⟨n, hn⟩ := List.mem_iff_getElem?.mp ((mem_operandTokens_iff hk).mpr ht)
      obtain ⟨r, hr, hnat⟩ := hright n t k hn hk
      have hsmall := hbound.regsAt (List.mem_of_getElem? hr)
      have := w.locals_lt
      omega
    intro t ht k hk
    obtain ⟨n, hn⟩ := List.mem_iff_getElem?.mp ((mem_operandTokens_iff hk).mpr ht)
    obtain ⟨r, hr, hnat⟩ := hright n t k hn hk
    rw [hat t ht hfit, List.getElem?_map, hn] at hr
    obtain rfl : regOf w t = r := Option.some.inj hr
    have hreg := (regOf_of_paramIndex hk (hfit t ht k hk)).2
    exact ⟨by omega, hfit t ht k hk⟩
  · intro hkept n t k hn hk
    have ht : t ∈ registerTokens raw := (mem_operandTokens_iff hk).mp (List.mem_of_getElem? hn)
    obtain ⟨hlocals, hlt⟩ := hkept t ht k hk
    refine ⟨regOf w t, ?_, ?_⟩
    · rw [hat t ht (fun t' ht' k' hk' => (hkept t' ht' k' hk').2), List.getElem?_map, hn]
      rfl
    · rw [(regOf_of_paramIndex hk hlt).2, hlocals]

/-! ## Texts -/

theorem textRight_iff {w₀ v₀ final frame : Writer} {text : List Char} (h : SameFrame w₀ v₀)
    (hok : (emitSmali w₀ text).2 = none) (hgrows : (emitSmali w₀ text).1.instructions <+: final.instructions)
    (hframe : SameFrame final frame) (hbound : Bounded final) :
    TextRight w₀ text final ↔ TextKept v₀ text frame := by
  have hline : ∀ pre raw post, getLines text = pre ++ raw :: post → ∃ w w', emitLines w₀ 0 pre = (w, none) ∧
      LineSpec w w' raw ∧ w'.instructions <+: final.instructions ∧
      w.locals = (pre.foldl afterLine v₀).locals := by
    intro pre raw post hlines
    unfold emitSmali at hok hgrows
    rw [hlines] at hok hgrows
    obtain ⟨w, w', hpre, hraw, hprefix⟩ := emitLines_split hok
    exact ⟨w, w', hpre, emitLine_ok hraw, hprefix.trans hgrows, (h.foldl_afterLine hpre).locals⟩
  constructor
  · intro hright pre raw post hlines
    obtain ⟨w, w', hpre, hspec, hprefix, hlocals⟩ := hline pre raw post hlines
    rw [← hlocals, ← hframe.locals]
    exact (hspec.right_iff hprefix hbound).mp (hright pre raw post w hlines hpre)
  · intro hkept pre raw post w hlines hpre
    obtain ⟨w₁, w', hpre', hspec, hprefix, hlocals⟩ := hline pre raw post hlines
    obtain rfl : w₁ = w := (Prod.mk.inj (hpre'.symm.trans hpre)).1
    have hraw := hkept pre raw post hlines
    rw [← hlocals, ← hframe.locals] at hraw
    exact (hspec.right_iff hprefix hbound).mpr hraw

theorem bounded_of_assembleInto {ctx : SymbolicOperand → Nat} {w : Writer} {out : Assembled}
    (h : assembleInto ctx w.toWriter = .ok out) : Bounded w := by
  unfold assembleInto at h
  simp only [bind_ok] at h
  obtain ⟨_, -, _, -, _, hcheck, -⟩ := h
  intro i hi r hr
  have hregs := w.registers.toNat_lt
  cases i with
  | label id | nop => exact absurd hr (by simp [insnRegs])
  | bytecode opcode operands =>
    obtain ⟨operand, hoperand, hmem⟩ := List.mem_flatMap.mp hr
    cases operand with
    | vreg reg =>
      obtain rfl := List.mem_singleton.mp hmem
      exact Nat.lt_trans (lt_of_checkRegisters hcheck hi hoperand) hregs
    | vregList regList =>
      have hone := forM_ok (forM_ok hcheck _ hi) _ hoperand
      simp only [checkOperand] at hone
      split at hone
      · exact absurd hone (by simp)
      · have hreg := forM_ok hone r hmem
        unfold checkInvokeRegister at hreg
        split at hreg
        · exact absurd hreg (by simp)
        · next hlt => exact Nat.lt_trans (Nat.not_le.mp hlt) hregs
    | const32 c | string s | type s | field s t u | method s t u | labelTarget id =>
      exact absurd hmem (by simp [operandRegs])

/-- In a method that assembles each `p<k>` is the register of its parameter exactly when, wherever one stands, the
number of locals of the frame is then what it is in the end. -/
theorem paramsRight_iff_frameKept {ctx : SymbolicOperand → Nat} {b : Bytecode} {expectedIns : UInt16}
    {out : Assembled} (h : assembleInto ctx (b.writer expectedIns).toWriter = .ok out) :
    ParamsRight b expectedIns ↔ FrameKept b expectedIns := by
  have hbound := bounded_of_assembleInto h
  have hframe : SameFrame (b.writer expectedIns) (b.frame expectedIns) :=
    ((SameFrame.refl (b.start expectedIns)).foldl_run b.calls).finish b expectedIns
  have htext : ∀ pre text post, b.calls = pre ++ .smali text :: post →
      (emitSmali (pre.foldl WriterCall.run (b.start expectedIns)) text).2 = none →
      (TextRight (pre.foldl WriterCall.run (b.start expectedIns)) text (b.writer expectedIns) ↔
        TextKept (pre.foldl WriterCall.frame (b.start expectedIns)) text (b.frame expectedIns)) := by
    intro pre text post hcalls hok
    refine textRight_iff ((SameFrame.refl _).foldl_run pre) hok ?_ hframe hbound
    unfold Bytecode.writer
    rw [b.finish_instructions, hcalls, List.foldl_append, List.foldl_cons]
    exact foldl_run_grows post _
  have haccepted : ∀ (pre : List WriterCall) (text : List Char),
      (emitSmali (pre.foldl WriterCall.run (b.start expectedIns)) text).2 = none ↔
        (emitSmali (pre.foldl WriterCall.frame (b.start expectedIns)) text).2 = none :=
    fun pre text => ((SameFrame.refl _).foldl_run pre).emitLines_none_iff 0 (getLines text)
  constructor
  · intro hright pre text post hcalls hok
    have hok' := (haccepted pre text).mpr hok
    exact (htext pre text post hcalls hok').mp (hright pre text post hcalls hok')
  · intro hkept pre text post hcalls hok
    exact (htext pre text post hcalls hok).mpr (hkept pre text post hcalls ((haccepted pre text).mp hok))

/-- The receiver is moved, and the method returns. -/
def moveText : List Char := "move-object v0, p0\nreturn-void".toList

theorem paramsRight_iff_frameKept_move :
    ∃ out, assembleInto (fun _ => 0) ((Bytecode.smali moveText).writer 1).toWriter = .ok out ∧
      (ParamsRight (.smali moveText) 1 ↔ FrameKept (.smali moveText) 1) := by
  have hok : (assembleInto (fun _ => 0) ((Bytecode.smali moveText).writer 1).toWriter).toOption.isSome = true := by
    decide
  cases hout : assembleInto (fun _ => 0) ((Bytecode.smali moveText).writer 1).toWriter with
  | error e => exact absurd hok (by simp [hout, Except.toOption])
  | ok out => exact ⟨out, rfl, paramsRight_iff_frameKept hout⟩

/-- The frame grows behind the line that names the receiver. -/
def growText : List Char := "move-object v0, p0\n.registers 8\nreturn-void".toList

/-- The receiver is `v7`, and the instruction has `v3`. -/
theorem not_paramsRight_grow :
    ¬ ∀ (ctx : SymbolicOperand → Nat) (b : Bytecode) (expectedIns : UInt16) (out : Assembled),
      assembleInto ctx (b.writer expectedIns).toWriter = .ok out → ParamsRight b expectedIns := by
  intro h
  have hok : (assembleInto (fun _ => 0) ((Bytecode.smali growText).writer 1).toWriter).toOption.isSome = true := by
    decide
  cases hout : assembleInto (fun _ => 0) ((Bytecode.smali growText).writer 1).toWriter with
  | error e => exact absurd hok (by simp [hout, Except.toOption])
  | ok out =>
    have haccepted : (emitSmali ((Bytecode.smali growText).start 1) growText).2 = none := by
      decide
    have hlines : getLines growText = [] ++ "move-object v0, p0".toList :: [".registers 8".toList,
        "return-void".toList] := by
      decide
    have htoken : (operandTokens ((Bytecode.smali growText).start 1) "move-object v0, p0".toList)[1]? =
        some ['p', '0'] := by
      decide
    have hregs : ((Bytecode.smali growText).writer 1).regsAt 0 = [0, 3] := by decide
    have hlocals : ((Bytecode.smali growText).writer 1).locals = 7 := by decide
    obtain ⟨r, hr, hnat⟩ := h _ _ 1 out hout [] growText [] rfl haccepted [] _ _ _ hlines rfl 1 ['p', '0'] 0
      htoken (by decide)
    have hsame : ((Bytecode.smali growText).writer 1).regsAt 0 =
        ((Bytecode.smali growText).writer 1).regsAt ((Bytecode.smali growText).start 1).instructions.length := rfl
    rw [List.foldl_nil, ← hsame, hregs] at hr
    obtain rfl : 3 = r := Option.some.inj hr
    rw [hlocals] at hnat
    exact absurd hnat (by decide)

end ArtPi.Dex.Smali
