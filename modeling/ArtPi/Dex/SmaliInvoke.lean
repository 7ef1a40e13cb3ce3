import ArtPi.Dex.Smali
import Mathlib.Data.List.Forall2
import Mathlib.Algebra.Order.Ring.Int

set_option autoImplicit false

/-! # The register list of an invoke line (`src/dex/pi_dex_writer.cpp`)

An invoke line names its registers between braces. `EmitSmali` asks `ParseRegister` for each token up to the closing
one and passes over what is none. Here the line is read with the difference kept that tokens lose: what was quoted. -/

namespace ArtPi.Dex.Smali

/-! ## Lexemes -/

/-- A token and whether a part of it was quoted. -/
structure Lexeme where
  text : List Char
  quoted : Bool
  deriving DecidableEq

def flushLexeme (cur : List Char) (quoted : Bool) (lexemes : List Lexeme) : List Lexeme :=
  if cur = [] then lexemes else ⟨cur, quoted⟩ :: lexemes

/-- The lexemes of a line. A word that a quotation mark follows is one with what is quoted. -/
def lexemesFrom (inQuote escaped : Bool) (cur : List Char) (quoted : Bool) : List Char → List Lexeme
  | [] => flushLexeme cur quoted []
  | c :: rest =>
    if inQuote = true then
      if escaped = true then lexemesFrom true false (cur ++ [unescape c]) quoted rest
      else if c = backslash then lexemesFrom true true cur quoted rest
      else if c = quote then ⟨cur, true⟩ :: lexemesFrom false false [] false rest
      else lexemesFrom true false (cur ++ [c]) quoted rest
    else if c = '#' then flushLexeme cur quoted []
    else if c = quote then lexemesFrom true false cur true rest
    else if isSpace c = true ∨ c = ',' then flushLexeme cur quoted (lexemesFrom false false [] false rest)
    else if c = '{' ∨ c = '}' then
      flushLexeme cur quoted (⟨[c], false⟩ :: lexemesFrom false false [] false rest)
    else lexemesFrom false false (cur ++ [c]) quoted rest

def lexemes (line : List Char) : List Lexeme := lexemesFrom false false [] false line

def openBrace : Lexeme := ⟨['{'], false⟩
def closeBrace : Lexeme := ⟨['}'], false⟩

theorem map_flushLexeme (cur : List Char) (quoted : Bool) (ls : List Lexeme) :
    (flushLexeme cur quoted ls).map Lexeme.text = flush cur (ls.map Lexeme.text) := by
  unfold flushLexeme flush
  split <;> rfl

theorem map_lexemesFrom (line : List Char) (inQuote escaped : Bool) (cur : List Char) (quoted : Bool) :
    (lexemesFrom inQuote escaped cur quoted line).map Lexeme.text = tokenizeFrom inQuote escaped cur line := by
  induction line generalizing inQuote escaped cur quoted with
  | nil => simp [lexemesFrom, tokenizeFrom, map_flushLexeme]
  | cons c rest ih =>
    rw [lexemesFrom, tokenizeFrom]
    simp only [apply_ite (List.map Lexeme.text), map_flushLexeme, List.map_cons, List.map_nil, ih]

theorem map_lexemes (line : List Char) : (lexemes line).map Lexeme.text = tokenizeLine line :=
  map_lexemesFrom line false false [] false

/-! ## What the braces name -/

/-- The lexeme is `v` or `p` and a number, and names that register: `p0` names the register of the first
parameter. -/
def Denotes (w : Writer) (l : Lexeme) (n : Nat) : Prop :=
  l.quoted = false ∧ ∃ c digits, l.text = c :: digits ∧ digits ≠ [] ∧ (∀ d ∈ digits, d.isDigit = true) ∧
    (((c = 'v' ∨ c = 'V') ∧ n = ofDigits 10 digits) ∨
      ((c = 'p' ∨ c = 'P') ∧ n = w.registers.toNat - w.ins.toNat + ofDigits 10 digits))

/-- The braces behind the name of the instruction have these registers between them, in order. A line without braces
names none. -/
def Names (w : Writer) (line : List Char) (regs : List Nat) : Prop :=
  if (lexemes line).tail.head? = some openBrace then
    ∃ content rest, (lexemes line).tail = openBrace :: (content ++ closeBrace :: rest) ∧
      List.Forall₂ (Denotes w) content regs
  else regs = []

def isInvokeLine (line : List Char) : Bool :=
  match tokenizeLine line with
  | [] => false
  | op :: _ => isInvokeOp op

/-- If the line is accepted, the instruction it puts has the registers that the line names. -/
def Faithful (w : Writer) (line : List Char) : Prop :=
  ∀ w', emitLine w line = (w', none) → ∃ regs opcode meth,
    w'.instructions = w.instructions ++ [.bytecode opcode [.vregList regs, meth]] ∧
      Names w line (regs.map UInt32.toNat)

/-! ## Reading a register -/

theorem isSpace_of_isDigit {c : Char} (h : c.isDigit = true) : isSpace c = false ∧ c ≠ '-' ∧ c ≠ '+' := by
  have hrange : 48 ≤ c.toNat ∧ c.toNat ≤ 57 := by
    rw [Char.isDigit, Bool.and_eq_true, decide_eq_true_iff, decide_eq_true_iff] at h
    exact ⟨UInt32.le_iff_toNat_le.mp h.1, UInt32.le_iff_toNat_le.mp h.2⟩
  refine ⟨?_, ?_, ?_⟩
  · rw [isSpace, Bool.or_eq_false_iff, Bool.and_eq_false_iff, decide_eq_false_iff_not, decide_eq_false_iff_not,
      decide_eq_false_iff_not]
    refine ⟨?_, .inr (by omega)⟩
    rintro rfl
    exact absurd hrange (by decide)
  · rintro rfl
    exact absurd hrange (by decide)
  · rintro rfl
    exact absurd hrange (by decide)

theorem toInt_ofInt_of_lt {v : Nat} (h : v < 2 ^ 31) : (Int32.ofInt v).toInt = v :=
  Int32.toInt_ofInt_of_le (by omega) (by omega)

theorem atoi_digits {digits : List Char} (hne : digits ≠ []) (hdigits : ∀ d ∈ digits, d.isDigit = true)
    (hlt : ofDigits 10 digits < 2 ^ 31) : atoi digits = ofDigits 10 digits := by
  obtain ⟨d, rest, rfl⟩ := List.exists_cons_of_ne_nil hne
  obtain ⟨hspace, hminus, hplus⟩ := isSpace_of_isDigit (hdigits d List.mem_cons_self)
  have htake : (d :: rest).takeWhile Char.isDigit = d :: rest := List.takeWhile_eq_self_iff.mpr hdigits
  have hclamp : clampLong (ofDigits 10 (d :: rest)) = ofDigits 10 (d :: rest) := by
    unfold clampLong
    omega
  rw [atoi, strtollDecimal, List.dropWhile_cons_of_neg (by simp [hspace])]
  simp only [if_neg hminus, if_neg hplus, htake, hclamp]
  exact toInt_ofInt_of_lt hlt

theorem parseRegister_lt (token : List Char) (totalRegs insRegs : UInt16) :
    parseRegister token totalRegs insRegs < 2 ^ 31 := by
  have hint : ∀ v : Int32, v.toInt < 2 ^ 31 := fun v => Int32.toInt_lt v
  unfold parseRegister
  split
  · decide
  · dsimp only
    split_ifs <;> first | exact hint _ | decide

/-- A number that an `int` holds is read as it is. -/
theorem parseRegister_of_denotes {w : Writer} {l : Lexeme} {n : Nat} (h : Denotes w l n) (hlt : n < 2 ^ 31) :
    parseRegister l.text w.registers w.ins = n := by
  obtain ⟨-, c, digits, htext, hne, hdigits, hreg⟩ := h
  rw [htext, parseRegister]
  rcases hreg with ⟨hc, rfl⟩ | ⟨hc, rfl⟩
  · have hatoi := atoi_digits hne hdigits hlt
    have hmem : ¬ c ∉ ['v', 'p', 'V', 'P'] := by
      rcases hc with rfl | rfl <;> decide
    simp only [hatoi, if_neg hmem, if_pos hc]
    exact if_neg (by omega)
  · have hatoi := atoi_digits hne hdigits (show ofDigits 10 digits < 2 ^ 31 by omega)
    have hmem : ¬ c ∉ ['v', 'p', 'V', 'P'] := by
      rcases hc with rfl | rfl <;> decide
    have hnotv : ¬ (c = 'v' ∨ c = 'V') := by
      rcases hc with rfl | rfl <;> decide
    simp only [hatoi, if_neg hmem, if_neg hnotv]
    rw [if_neg (by omega), ← Nat.cast_add]
    exact toInt_ofInt_of_lt hlt

theorem text_ne_of_denotes {w : Writer} {l : Lexeme} {n : Nat} (h : Denotes w l n) : l.text ≠ ['}'] := by
  obtain ⟨-, c, digits, htext, -, -, hreg⟩ := h
  rw [htext]
  intro heq
  obtain rfl : c = '}' := (List.cons.inj heq).1
  rcases hreg with ⟨hc | hc, -⟩ | ⟨hc | hc, -⟩ <;> exact absurd hc (by decide)

/-- The registers that a list of tokens is read as. -/
def readTokens (w : Writer) (tokens : List (List Char)) : List UInt32 :=
  (tokens.map (fun t => parseRegister t w.registers w.ins)).filterMap
    (fun r => if r < 0 then none else some (UInt32.ofInt r))

theorem toNat_ofInt {r : Int} (hpos : 0 ≤ r) (hlt : r < 2 ^ 31) : ((UInt32.ofInt r).toNat : Int) = r := by
  rw [UInt32.ofInt, Int.emod_eq_of_lt hpos (by omega), UInt32.toNat_ofNat_of_lt' (show r.toNat < 2 ^ 32 by omega)]
  omega

theorem forall₂_readTokens {w : Writer} {content : List Lexeme}
    (h : ∀ l ∈ content, ∃ n < 2 ^ 31, Denotes w l n) :
    List.Forall₂ (Denotes w) content ((readTokens w (content.map Lexeme.text)).map UInt32.toNat) := by
  induction content with
  | nil => exact .nil
  | cons l content ih =>
    obtain ⟨n, hlt, hn⟩ := h l List.mem_cons_self
    have hread := parseRegister_of_denotes hn hlt
    have hrest := ih (fun l' hl' => h l' (List.mem_cons_of_mem l hl'))
    have htoNat : (UInt32.ofInt (n : Int)).toNat = n := by
      have := toNat_ofInt (r := n) (by omega) (by omega)
      omega
    unfold readTokens at hrest ⊢
    have hcons : ∀ rs : List Int, ((n : Int) :: rs).filterMap (fun r => if r < 0 then none else
        some (UInt32.ofInt r)) = UInt32.ofInt n :: rs.filterMap (fun r => if r < 0 then none else
        some (UInt32.ofInt r)) := fun rs => List.filterMap_cons_some (if_neg (by omega))
    rw [List.map_cons, List.map_cons, hread, hcons, List.map_cons, htoNat]
    exact .cons hn hrest

theorem toNat_lt_of_mem_readTokens {w : Writer} {tokens : List (List Char)} {r : UInt32}
    (h : r ∈ readTokens w tokens) : r.toNat < 2 ^ 31 := by
  obtain ⟨v, hv, hr⟩ := List.mem_filterMap.mp h
  obtain ⟨t, -, rfl⟩ := List.mem_map.mp hv
  split at hr
  · exact absurd hr (by simp)
  · rename_i hpos
    obtain rfl := Option.some.inj hr
    have hlt := parseRegister_lt t w.registers w.ins
    have := toNat_ofInt (Int.not_lt.mp hpos) hlt
    omega

theorem readTokens_eq_nil_iff (w : Writer) (tokens : List (List Char)) :
    readTokens w tokens = [] ↔ ∀ t ∈ tokens, parseRegister t w.registers w.ins < 0 := by
  unfold readTokens
  rw [List.filterMap_eq_nil_iff, List.forall_mem_map]
  refine forall₂_congr (fun t _ => ?_)
  simp

/-! ## Accepted lines -/

/-- The line is one that is refused whatever its braces name. -/
def Refused (w : Writer) (line : List Char) : Prop :=
  ∃ op args, tokenizeLine line = op :: args ∧ InvokeRefused w op args

/-- What stands between the braces is a list of registers whose numbers an `int` holds. Where an opening brace was
quoted, no token up to a closing one is a register. -/
def WellBraced (w : Writer) (line : List Char) : Prop :=
  if (lexemes line).tail.head? = some openBrace then
    ∃ content rest, (lexemes line).tail = openBrace :: (content ++ closeBrace :: rest) ∧
      ∀ l ∈ content, ∃ n < 2 ^ 31, Denotes w l n
  else
    (tokenizeLine line).tail.head? = some ['{'] →
      ∀ token ∈ (tokenizeLine line).tail.tail.takeWhile (· ≠ ['}']), parseRegister token w.registers w.ins < 0

theorem readList_fst (w : Writer) (args : List (List Char)) :
    (readList w args).1 =
      if args.head? = some ['{'] then readTokens w (args.tail.takeWhile (· ≠ ['}'])) else [] := by
  unfold readList readTokens
  split <;> rfl

theorem readList_braces {w : Writer} {content rest : List Lexeme}
    (h : ∀ l ∈ content, ∃ n, Denotes w l n) :
    (readList w ((openBrace :: (content ++ closeBrace :: rest)).map Lexeme.text)).1 =
      readTokens w (content.map Lexeme.text) := by
  have htake : ((content ++ closeBrace :: rest).map Lexeme.text).takeWhile (· ≠ ['}']) =
      content.map Lexeme.text := by
    rw [List.map_append, List.map_cons]
    refine Lib.takeWhile_append_cons (fun t ht => ?_) (by decide) _
    obtain ⟨l, hl, rfl⟩ := List.mem_map.mp ht
    obtain ⟨n, hn⟩ := h l hl
    exact decide_eq_true (text_ne_of_denotes hn)
  rw [readList_fst, List.map_cons, List.head?_cons, List.tail_cons, htake]
  exact if_pos rfl

theorem exists_of_forall₂ {w : Writer} {content : List Lexeme} {ns : List Nat}
    (h : List.Forall₂ (Denotes w) content ns) : ∀ l ∈ content, ∃ n ∈ ns, Denotes w l n := by
  induction h with
  | nil => simp
  | cons hl _ ih =>
    refine List.forall_mem_cons.mpr ⟨⟨_, List.mem_cons_self, hl⟩, fun l hmem => ?_⟩
    obtain ⟨n, hn, hd⟩ := ih l hmem
    exact ⟨n, List.mem_cons_of_mem _ hn, hd⟩

/-- The registers read are those the line names exactly when the braces are well formed. -/
theorem names_readList_iff (w : Writer) (line : List Char) :
    Names w line ((readList w (tokenizeLine line).tail).1.map UInt32.toNat) ↔ WellBraced w line := by
  have htokens : (tokenizeLine line).tail = ((lexemes line).tail).map Lexeme.text := by
    rw [← map_lexemes, List.map_tail]
  unfold Names WellBraced
  split
  · constructor
    · rintro ⟨content, rest, htail, hall⟩
      refine ⟨content, rest, htail, fun l hl => ?_⟩
      rw [htokens, htail, readList_braces (fun l hl => ?_)] at hall
      · obtain ⟨n, hn, hd⟩ := exists_of_forall₂ hall l hl
        obtain ⟨r, hr, rfl⟩ := List.mem_map.mp hn
        exact ⟨_, toNat_lt_of_mem_readTokens hr, hd⟩
      · obtain ⟨n, -, hd⟩ := exists_of_forall₂ hall l hl
        exact ⟨n, hd⟩
    · rintro ⟨content, rest, htail, hall⟩
      refine ⟨content, rest, htail, ?_⟩
      rw [htokens, htail, readList_braces (fun l hl => ?_)]
      · exact forall₂_readTokens hall
      · obtain ⟨n, -, hd⟩ := hall l hl
        exact ⟨n, hd⟩
  · rw [List.map_eq_nil_iff, readList_fst]
    split
    · rename_i hopen
      rw [readTokens_eq_nil_iff]
      exact ⟨fun h _ => h, fun h => h hopen⟩
    · rename_i hopen
      exact ⟨fun _ h => absurd h hopen, fun _ => rfl⟩

theorem rowOf_of_isInvokeOp {op : List Char} (h : isInvokeOp op = true) : rowOf op = none := by
  have hall : ∀ p ∈ rows, isInvokeOp p.1.toList = false := by decide
  cases hrow : rowOf op with
  | none => rfl
  | some row =>
    obtain ⟨front, back, hrows, -⟩ := List.lookup_eq_some_iff.mp hrow
    have hfalse := hall (String.ofList op, row) (by rw [hrows]; simp)
    rw [String.toList_ofList] at hfalse
    exact absurd h (by simp [hfalse])

theorem emitLine_invoke (w : Writer) {line op : List Char} {args : List (List Char)}
    (htokens : tokenizeLine line = op :: args) (hop : isInvokeOp op = true) :
    emitLine w line = emitInvoke w op args := by
  obtain ⟨rest, rfl⟩ : ∃ rest, op = "invoke-".toList ++ rest := by
    obtain ⟨rest, hrest⟩ := List.isPrefixOf_iff_prefix.mp hop
    exact ⟨rest, hrest.symm⟩
  have hrow := rowOf_of_isInvokeOp hop
  have hdir : isDirective ("invoke-".toList ++ rest) = false := rfl
  have hlabel : ("invoke-".toList ++ rest).head? ≠ some ':' := by simp
  unfold emitLine emitInsn
  simp only [htokens, hdir, hrow, hop, Bool.false_eq_true, if_false, if_neg hlabel, if_true]

theorem refused_iff (w : Writer) {line op : List Char} {args : List (List Char)}
    (htokens : tokenizeLine line = op :: args) : Refused w line ↔ InvokeRefused w op args := by
  unfold Refused
  rw [htokens]
  constructor
  · rintro ⟨op', args', heq, href⟩
    obtain ⟨rfl, rfl⟩ := List.cons.inj heq
    exact href
  · exact fun href => ⟨op, args, rfl, href⟩

/-- A line of an invoke is treated as it says exactly when it is refused for another reason or its braces are well
formed. -/
theorem faithful_iff (w : Writer) {line : List Char} (h : isInvokeLine line = true) :
    Faithful w line ↔ Refused w line ∨ WellBraced w line := by
  unfold isInvokeLine at h
  cases htokens : tokenizeLine line with
  | nil => exact absurd h (by simp [htokens])
  | cons op args =>
    rw [htokens] at h
    have hline := emitLine_invoke w htokens h
    have hargs : (tokenizeLine line).tail = args := by
      rw [htokens]
      rfl
    rw [refused_iff w htokens, ← names_readList_iff, hargs]
    unfold Faithful
    rw [hline]
    rcases emitInvoke_cases w op args with ⟨href, d, hres⟩ | ⟨hok, w', opcode, meth, hres, hinsns⟩
    · rw [hres]
      exact ⟨fun _ => .inl href, fun _ w' heq => absurd heq (by simp)⟩
    · rw [hres]
      constructor
      · intro hfaith
        obtain ⟨regs, opcode', meth', hinsns', hnames⟩ := hfaith w' rfl
        have hregs := hinsns.symm.trans hinsns'
        simp only [List.append_cancel_left_eq, List.cons.injEq, and_true, SymbolicInstruction.bytecode.injEq,
          SymbolicOperand.vregList.injEq] at hregs
        rw [hregs.2.1]
        exact .inr hnames
      · rintro (href | hnames) w'' heq
        · exact absurd href hok
        · obtain rfl := (Prod.mk.inj heq).1
          exact ⟨_, opcode, meth, hinsns, hnames⟩

/-! ## Texts -/

/-- Every invoke line that a call reads is treated as it says, in the state that the lines in front of it make. -/
def InvokesFaithful (w : Writer) (smali_code : List Char) : Prop :=
  ∀ pre line post w', getLines smali_code = pre ++ line :: post → emitLines w 0 pre = (w', none) →
    isInvokeLine line = true → Faithful w' line

theorem emitSmali_invokes_iff (w : Writer) (smali_code : List Char) :
    InvokesFaithful w smali_code ↔
      ∀ pre line post w', getLines smali_code = pre ++ line :: post → emitLines w 0 pre = (w', none) →
        isInvokeLine line = true → Refused w' line ∨ WellBraced w' line := by
  constructor
  · intro h pre line post w' hlines hpre hinv
    exact (faithful_iff w' hinv).mp (h pre line post w' hlines hpre hinv)
  · intro h pre line post w' hlines hpre hinv
    exact (faithful_iff w' hinv).mpr (h pre line post w' hlines hpre hinv)

/-- A range, which the parser does not have: of its three tokens the middle one is passed over. -/
def rangeText : List Char := "invoke-static {v0 .. v2} La;->m(III)V".toList

theorem ne_closeBrace_of_denotes {w : Writer} {l : Lexeme} {n : Nat} (h : Denotes w l n) : l ≠ closeBrace := by
  rintro rfl
  exact text_ne_of_denotes h rfl

theorem not_denotes_dots (w : Writer) (n : Nat) : ¬ Denotes w ⟨['.', '.'], false⟩ n := by
  rintro ⟨-, c, digits, htext, -, -, hreg⟩
  obtain rfl : '.' = c := (List.cons.inj htext).1
  rcases hreg with ⟨hc | hc, -⟩ | ⟨hc | hc, -⟩ <;> exact absurd hc (by decide)

theorem not_refused_range : ¬ Refused fresh rangeText := by
  have htokens : tokenizeLine rangeText = ["invoke-static".toList, ['{'], ['v', '0'], ['.', '.'], ['v', '2'], ['}'],
      "La;->m(III)V".toList] := by
    decide
  rw [refused_iff fresh htokens]
  rintro (h | ⟨r, hr, hbig⟩ | h | ⟨meth, hmeth, h⟩ | h)
  · exact absurd h (by decide)
  · have hregs : (readList fresh [['{'], ['v', '0'], ['.', '.'], ['v', '2'], ['}'],
        "La;->m(III)V".toList]).1 = [0, 2] := by
      decide
    rw [hregs, List.mem_pair] at hr
    rcases hr with rfl | rfl <;> exact absurd hbig (by decide)
  · exact absurd h (by decide)
  · have hall : ∀ meth ∈ (readList fresh [['{'], ['v', '0'], ['.', '.'], ['v', '2'], ['}'],
        "La;->m(III)V".toList]).2.head?, parseMethodSpec meth ≠ none := by
      decide
    exact hall meth hmeth h
  · exact absurd h (by decide)

theorem not_wellBraced_range : ¬ WellBraced fresh rangeText := by
  unfold WellBraced
  rw [if_pos (by decide)]
  rintro ⟨content, rest, htail, hall⟩
  have hcontent : content = ((lexemes rangeText).tail.tail).takeWhile (· ≠ closeBrace) := by
    rw [htail, List.tail_cons]
    refine (Lib.takeWhile_append_cons (fun l hl => ?_) (by decide) rest).symm
    obtain ⟨n, -, hn⟩ := hall l hl
    exact decide_eq_true (ne_closeBrace_of_denotes hn)
  have hmem : ⟨['.', '.'], false⟩ ∈ content := by
    rw [hcontent]
    decide
  obtain ⟨n, -, hn⟩ := hall _ hmem
  exact not_denotes_dots fresh n hn

/-- The call gets `v0` and `v2`. -/
theorem not_invokesFaithful_range :
    ¬ ∀ (w : Writer) (smali_code : List Char), InvokesFaithful w smali_code := by
  intro h
  have hlines : getLines rangeText = [] ++ rangeText :: [] := by decide
  have hfaith := h fresh rangeText [] rangeText [] fresh hlines rfl (by decide)
  rcases (faithful_iff fresh (by decide)).mp hfaith with href | hbraced
  · exact not_refused_range href
  · exact not_wellBraced_range hbraced

end ArtPi.Dex.Smali
