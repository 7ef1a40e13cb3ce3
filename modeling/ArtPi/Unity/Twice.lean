import ArtPi.Unity.Preprocess

set_option autoImplicit false

/-! # Preprocessing twice (`repl_client.cpp`, `agent_js.cpp`)

The client preprocesses a script before it sends it, and the agent preprocesses what it receives. The second pass
reads the brackets of the first. They are code again behind the name, but where a name that is rewritten ends in a
hyphen, the character in front of what follows is no longer the hyphen: a `/` there starts a regular expression in the
first pass and is a division in the second. -/

namespace ArtPi.Unity

open Lib.Scan Net Cli.Complete

/-- Behind the blanks there is a `/` that opens no comment. -/
def regexAhead (rest : List UInt8) : Bool :=
  match rest.dropWhile isBlank with
  | [] => false
  | c :: tail => c = slash && tail.head? ≠ some slash && tail.head? ≠ some star

/-- A chain that is rewritten does not end in a hyphen in front of such a `/`. -/
def Clear (p : Place State UInt8) : Prop :=
  p.state = .code → ChainAt p.before (p.head :: p.rest) →
    (chainName (p.head :: p.rest)).getLast? = some hyphen →
      regexAhead ((p.head :: p.rest).drop (kPrefix.length + (chainName (p.head :: p.rest)).length)) = false

/-! ## What the passes look back to -/

theorem context_cons_blank {c : UInt8} (h : isBlank c = true) (before : List UInt8) :
    isUnityRegexContext (c :: before) = isUnityRegexContext before := by
  unfold isUnityRegexContext
  rw [List.dropWhile_cons, if_pos h]

theorem context_cons {c : UInt8} (h : isBlank c = false) (before : List UInt8) :
    isUnityRegexContext (c :: before) = regexHeads.contains c := by
  unfold isUnityRegexContext
  rw [List.dropWhile_cons, if_neg (by simp [h])]

theorem context_append {b b' : List UInt8} (h : isUnityRegexContext b = isUnityRegexContext b') (xs : List UInt8) :
    isUnityRegexContext (xs ++ b) = isUnityRegexContext (xs ++ b') := by
  induction xs with
  | nil => exact h
  | cons c xs ih =>
    rw [List.cons_append, List.cons_append]
    cases hc : isBlank c with
    | true => rw [context_cons_blank hc, context_cons_blank hc, ih]
    | false => rw [context_cons hc, context_cons hc]

/-- The second pass, which has read `b'`, takes the same turn as the first one, which has read `b`. -/
structure Agree (s : State) (b b' rest : List UInt8) : Prop where
  ident : identBefore b = identBefore b' ∨ rest.head? ≠ some letterD
  context : isUnityRegexContext b = isUnityRegexContext b' ∨ s = .code ∧ regexAhead rest = false

theorem Agree.refl (s : State) (b rest : List UInt8) : Agree s b b rest := ⟨.inl rfl, .inl rfl⟩

theorem Agree.ident_eq {s : State} {b b' rest : List UInt8} (h : Agree s b b' (letterD :: rest)) :
    identBefore b = identBefore b' := by
  rcases h.ident with h | h
  · exact h
  · exact absurd rfl h

/-- At a `/` that opens no comment the passes agree on what it is. -/
theorem Agree.context_eq {s : State} {b b' rest : List UInt8} (h : Agree s b b' (slash :: rest))
    (hslash : rest.head? ≠ some slash) (hstar : rest.head? ≠ some star) :
    isUnityRegexContext b = isUnityRegexContext b' := by
  rcases h.context with h | ⟨-, h⟩
  · exact h
  · have hahead : regexAhead (slash :: rest) = true := by
      unfold regexAhead
      rw [List.dropWhile_cons, if_neg (by decide)]
      simp [hslash, hstar]
    rw [hahead] at h
    exact absurd h (by simp)

/-! ## A turn that copies -/

/-- A chain is rewritten in this turn. -/
structure Rewrites (s : State) (before : List UInt8) (c : UInt8) (rest name tail : List UInt8) : Prop where
  state : s = .code
  head : c = letterD
  text : rest = (kPrefix.tail ++ name) ++ tail
  ident : identBefore before = false
  names : ∀ x ∈ name, isUnityAssemblyNameChar x = true
  maximal : tail.head?.any isUnityAssemblyNameChar = false
  hyphen : hyphen ∈ name

/-- A turn that copies `c` and `xs`, and that is the same in front of every text that begins as the rest does. -/
structure CopyTurn (s : State) (before : List UInt8) (c : UInt8) (xs tail : List UInt8) (t : State) : Prop where
  now : step s before c (xs ++ tail) = ⟨xs.length, c :: xs, t⟩
  again : ∀ before' w, Agree s before before' (c :: (xs ++ tail)) → w.head? = tail.head? →
    (t = .code → kPrefix.tail <+: w → kPrefix.tail <+: tail) → step s before' c (xs ++ w) = ⟨xs.length, c :: xs, t⟩

theorem copyTurn_of_step {s t : State} {c : UInt8} {before tail : List UInt8}
    (h : ∀ before w, w.head? = tail.head? → step s before c w = ⟨0, [c], t⟩) : CopyTurn s before c [] tail t :=
  ⟨h before tail rfl, fun before' w _ hw _ => h before' w hw⟩

/-- A turn that copies the character behind too, whatever follows. -/
theorem copyTurn_pair {s t : State} {c d : UInt8} {before tail : List UInt8}
    (h : ∀ before w, step s before c (d :: w) = ⟨1, [c, d], t⟩) : CopyTurn s before c [d] tail t :=
  ⟨h before tail, fun before' w _ _ _ => h before' w⟩

theorem ne_nil_iff_of_head? {xs ys : List UInt8} (h : xs.head? = ys.head?) : xs ≠ [] ↔ ys ≠ [] := by
  rw [ne_eq, ne_eq, ← List.head?_eq_none_iff, h, List.head?_eq_none_iff]

theorem exists_copyTurn_quoted {q : UInt8} {s : State}
    (hs : ∀ before c rest, step s before c rest = quotedStep q s c rest)
    (before : List UInt8) (c : UInt8) (rest : List UInt8) :
    ∃ xs tail t, rest = xs ++ tail ∧ CopyTurn s before c xs tail t := by
  by_cases hc : c = backslash
  · cases rest with
    | nil =>
      refine ⟨[], [], if c = q then .code else s, rfl, copyTurn_of_step (fun b w hw => ?_)⟩
      obtain rfl : w = [] := by simpa using hw
      rw [hs, quotedStep, if_neg (by simp)]
    | cons d rest =>
      refine ⟨[d], rest, s, rfl, copyTurn_pair (fun b w => ?_)⟩
      rw [hs, quotedStep, if_pos ⟨hc, List.cons_ne_nil d w⟩]
      rfl
  · refine ⟨[], rest, if c = q then .code else s, rfl, copyTurn_of_step (fun b w _ => ?_)⟩
    rw [hs, quotedStep, if_neg (fun hand => hc hand.1)]

theorem exists_copyTurn_blockComment (before : List UInt8) (c : UInt8) (rest : List UInt8) :
    ∃ xs tail t, rest = xs ++ tail ∧ CopyTurn .blockComment before c xs tail t := by
  by_cases hend : c = star ∧ rest.head? = some slash
  · obtain ⟨rfl, hhead⟩ := hend
    obtain ⟨tail, rfl⟩ := List.head?_eq_some_iff.mp hhead
    exact ⟨[slash], tail, .code, rfl, copyTurn_pair (fun b w => rfl)⟩
  · refine ⟨[], rest, .blockComment, rfl, copyTurn_of_step (fun b w hw => ?_)⟩
    rw [step, if_neg (by rwa [hw])]

/-- Where a backslash has something behind it, that is copied with it. -/
theorem exists_copyTurn_regexClass (before : List UInt8) (c : UInt8) (rest : List UInt8) :
    ∃ xs tail t, rest = xs ++ tail ∧ CopyTurn .regexClass before c xs tail t := by
  by_cases hesc : c = backslash ∧ rest ≠ []
  · obtain ⟨rfl, hne⟩ := hesc
    obtain ⟨d, tail, rfl⟩ := List.exists_cons_of_ne_nil hne
    refine ⟨[d], tail, .regexClass, rfl, copyTurn_pair (fun b w => ?_)⟩
    rw [step, if_pos ⟨rfl, List.cons_ne_nil d w⟩]
    rfl
  · refine ⟨[], rest, if c = closeBracket then .regex else .regexClass, rfl, copyTurn_of_step (fun b w hw => ?_)⟩
    have hesc' : ¬ (c = backslash ∧ w ≠ []) := by
      rwa [ne_nil_iff_of_head? hw]
    rw [step, if_neg hesc']

theorem exists_copyTurn_regex (before : List UInt8) (c : UInt8) (rest : List UInt8) :
    ∃ xs tail t, rest = xs ++ tail ∧ CopyTurn .regex before c xs tail t := by
  by_cases hesc : c = backslash ∧ rest ≠ []
  · obtain ⟨rfl, hne⟩ := hesc
    obtain ⟨d, tail, rfl⟩ := List.exists_cons_of_ne_nil hne
    refine ⟨[d], tail, .regex, rfl, copyTurn_pair (fun b w => ?_)⟩
    rw [step, if_pos ⟨rfl, List.cons_ne_nil d w⟩]
    rfl
  · have hesc' : ∀ w : List UInt8, w.head? = rest.head? → ¬ (c = backslash ∧ w ≠ []) := by
      intro w hw
      rwa [ne_nil_iff_of_head? hw]
    by_cases hopen : c = openBracket
    · refine ⟨[], rest, .regexClass, rfl, copyTurn_of_step (fun b w hw => ?_)⟩
      rw [step, if_neg (hesc' w hw), if_pos hopen]
    · by_cases hslash : c = slash
      · -- the flags end where they ended
        have hflags : ∀ b w, w.head? = (rest.dropWhile isalpha).head? →
            step .regex b c (rest.takeWhile isalpha ++ w) =
              ⟨(rest.takeWhile isalpha).length, c :: rest.takeWhile isalpha, .code⟩ := by
          intro b w hw
          have hend : w.head?.any isalpha = false := by
            rw [hw]
            exact head?_dropWhile_any isalpha rest
          have hall : ∀ x ∈ rest.takeWhile isalpha, isalpha x = true := fun x hx => List.mem_takeWhile_imp hx
          have htake := takeWhile_append_of_head? hall hend
          have hback : ¬ (c = backslash ∧ rest.takeWhile isalpha ++ w ≠ []) := by
            rw [hslash]
            exact fun hand => absurd hand.1 (by decide)
          rw [step, if_neg hback, if_neg hopen, if_pos hslash, htake]
        exact ⟨rest.takeWhile isalpha, rest.dropWhile isalpha, .code, List.takeWhile_append_dropWhile.symm,
          hflags before _ rfl, fun b w _ hw _ => hflags b w hw⟩
      · refine ⟨[], rest, if c = lf then .code else .regex, rfl, copyTurn_of_step (fun b w hw => ?_)⟩
        rw [step, if_neg (hesc' w hw), if_neg hopen, if_neg hslash]

theorem exists_copyTurn_code (before : List UInt8) (c : UInt8) (rest : List UInt8) :
    (∃ name tail, Rewrites .code before c rest name tail) ∨
      ∃ xs tail t, rest = xs ++ tail ∧ CopyTurn .code before c xs tail t := by
  by_cases hsoft : Soft c
  · exact .inr ⟨[], rest, .code, rfl, copyTurn_of_step (fun b w _ => step_soft hsoft b w)⟩
  by_cases hslash : c = slash
  · subst hslash
    refine .inr ?_
    by_cases hline : rest.head? = some slash
    · obtain ⟨tail, rfl⟩ := List.head?_eq_some_iff.mp hline
      exact ⟨[slash], tail, .lineComment, rfl, copyTurn_pair (fun b w => rfl)⟩
    by_cases hblock : rest.head? = some star
    · obtain ⟨tail, rfl⟩ := List.head?_eq_some_iff.mp hblock
      exact ⟨[star], tail, .blockComment, rfl, copyTurn_pair (fun b w => rfl)⟩
    refine ⟨[], rest, _, rfl, step_slash hline hblock before, fun b w hagree hw _ => ?_⟩
    rw [List.nil_append, step_slash (by rwa [hw]) (by rwa [hw]), hagree.context_eq hline hblock]
    rfl
  by_cases hsquote : c = squote
  · subst hsquote
    exact .inr ⟨[], rest, .singleQuote, rfl, copyTurn_of_step (fun b w _ => rfl)⟩
  by_cases hdquote : c = dquote
  · subst hdquote
    exact .inr ⟨[], rest, .doubleQuote, rfl, copyTurn_of_step (fun b w _ => rfl)⟩
  by_cases hbacktick : c = backtick
  · subst hbacktick
    exact .inr ⟨[], rest, .template, rfl, copyTurn_of_step (fun b w _ => rfl)⟩
  have hd : c = letterD := by
    by_contra hne
    exact hsoft ⟨hslash, hsquote, hdquote, hbacktick, hne⟩
  subst hd
  by_cases hchain : kPrefix.tail <+: rest ∧ identBefore before = false
  · obtain ⟨hpre, hbefore⟩ := hchain
    have htext : kPrefix <+: letterD :: rest := by
      rw [kPrefix_eq, List.cons_prefix_cons]
      exact ⟨rfl, hpre⟩
    obtain ⟨tail, hsplit, hnames, hmax⟩ := chain_split htext
    have hrest : rest = (kPrefix.tail ++ chainName (letterD :: rest)) ++ tail := by
      rw [kPrefix_eq] at hsplit
      rw [List.append_assoc]
      exact (List.cons.inj hsplit).2
    by_cases hhyphen : hyphen ∈ chainName (letterD :: rest)
    · exact .inl ⟨_, tail, rfl, rfl, hrest, hbefore, hnames, hmax, hhyphen⟩
    · refine .inr ⟨kPrefix.tail ++ chainName (letterD :: rest), tail, .code, hrest, ?_, ?_⟩
      · rw [step_chain hbefore hnames hmax, if_neg hhyphen]
      · intro b w hagree hw _
        have hmax' : w.head?.any isUnityAssemblyNameChar = false := by rw [hw, hmax]
        rw [step_chain (hagree.ident_eq ▸ hbefore) hnames hmax', if_neg hhyphen]
  · have hno : kPrefix.tail <+: rest → identBefore before = true := by
      intro hpre
      by_contra hne
      exact hchain ⟨hpre, by simpa using hne⟩
    refine .inr ⟨[], rest, .code, rfl, step_letterD hno, fun b w hagree _ hlater => step_letterD (fun hpre => ?_)⟩
    rw [← hagree.ident_eq]
    exact hno (hlater rfl hpre)

theorem exists_copyTurn (s : State) (before : List UInt8) (c : UInt8) (rest : List UInt8) :
    (∃ name tail, Rewrites s before c rest name tail) ∨
      ∃ xs tail t, rest = xs ++ tail ∧ CopyTurn s before c xs tail t := by
  cases s with
  | code => exact exists_copyTurn_code before c rest
  | singleQuote => exact .inr (exists_copyTurn_quoted (fun _ _ _ => rfl) before c rest)
  | doubleQuote => exact .inr (exists_copyTurn_quoted (fun _ _ _ => rfl) before c rest)
  | template => exact .inr (exists_copyTurn_quoted (fun _ _ _ => rfl) before c rest)
  | lineComment =>
    exact .inr ⟨[], rest, if c = lf then .code else .lineComment, rfl, copyTurn_of_step (fun _ _ _ => rfl)⟩
  | blockComment => exact .inr (exists_copyTurn_blockComment before c rest)
  | regex => exact .inr (exists_copyTurn_regex before c rest)
  | regexClass => exact .inr (exists_copyTurn_regexClass before c rest)

/-! ## The second pass -/

theorem head?_run (s : State) (before rest : List UInt8) : (run step s before rest).head? = rest.head? := by
  cases rest with
  | nil => rfl
  | cons c rest =>
    rcases exists_copyTurn s before c rest with ⟨name, tail, h⟩ | ⟨xs, tail, t, rfl, h⟩
    · obtain ⟨rfl, rfl, rfl, hident, hnames, hmax, hhyphen⟩ := h
      rw [run_more (step_chain hident hnames hmax), if_pos hhyphen]
      rfl
    · rw [run_more h.now]
      rfl

/-- What a pass leaves of code begins as the code does, as far as it is soft. -/
theorem prefix_of_prefix_run {xs : List UInt8} (hsoft : ∀ c ∈ xs, Soft c) {before rest : List UInt8}
    (h : xs <+: run step .code before rest) : xs <+: rest := by
  induction xs generalizing before rest with
  | nil => exact List.nil_prefix
  | cons x xs ih =>
    cases rest with
    | nil => exact h
    | cons c rest =>
      have hhead : x = c := by
        have hfirst := head?_run .code before (c :: rest)
        obtain ⟨tail, htail⟩ := h
        rw [← htail] at hfirst
        exact Option.some.inj hfirst
      subst hhead
      rw [run_one (step_soft (hsoft x List.mem_cons_self) before rest), List.singleton_append,
        List.cons_prefix_cons] at h
      rw [List.cons_prefix_cons]
      exact ⟨rfl, ih (fun c hc => hsoft c (List.mem_cons_of_mem x hc)) h.2⟩

/-- The brackets, in front of the quotation mark. -/
def front : List UInt8 := ascii "ynamic.unity.assembly["

theorem bracketed_eq (name rest : List UInt8) :
    bracketed name ++ rest = letterD :: (front ++ dquote :: (name ++ dquote :: closeBracket :: rest)) := by
  have hopen : ascii "dynamic.unity.assembly[\"" = letterD :: (front ++ [dquote]) := by decide
  have hclose : ascii "\"]" = [dquote, closeBracket] := by decide
  rw [bracketed, hopen, hclose]
  simp

theorem not_kPrefix_front (rest : List UInt8) : ¬ kPrefix.tail <+: front ++ rest := by
  rw [← List.isPrefixOf_iff_prefix]
  exact Bool.false_ne_true

theorem step_doubleQuote {c : UInt8} (h : isUnityAssemblyNameChar c = true) (before rest : List UInt8) :
    step .doubleQuote before c rest = ⟨0, [c], .doubleQuote⟩ := by
  have hbackslash : c ≠ backslash := by
    rintro rfl
    exact absurd h (by decide)
  have hdquote : c ≠ dquote := by
    rintro rfl
    exact absurd h (by decide)
  rw [step, quotedStep, if_neg (fun hand => hbackslash hand.1), if_neg hdquote]

theorem run_bracketed {name : List UInt8} (hnames : ∀ c ∈ name, isUnityAssemblyNameChar c = true)
    (before rest : List UInt8) :
    run step .code before (bracketed name ++ rest) =
      bracketed name ++ run step .code ((bracketed name).reverse ++ before) rest := by
  have hfront : ∀ c ∈ front, Soft c := List.all_iff_forall_prop.mp (by decide)
  have hd : ∀ w, step .code before letterD (front ++ w) = ⟨0, [letterD], .code⟩ := fun w =>
    step_letterD (fun h => absurd h (not_kPrefix_front w))
  have hopen : ∀ b w, step .code b dquote w = ⟨0, [dquote], .doubleQuote⟩ := fun b w => rfl
  have hclose : ∀ b w, step .doubleQuote b dquote w = ⟨0, [dquote], .code⟩ := fun b w => rfl
  have hbracket : ∀ b w, step .code b closeBracket w = ⟨0, [closeBracket], .code⟩ := step_soft (by decide)
  have hbefore : (bracketed name).reverse ++ before =
      closeBracket :: dquote :: (name.reverse ++ dquote :: (front.reverse ++ letterD :: before)) := by
    have h := bracketed_eq name []
    rw [List.append_nil] at h
    rw [h]
    simp
  rw [bracketed_eq, run_one (hd _), run_soft hfront, run_one (hopen _ _), run_copies (fun _ hc => step_doubleQuote hc)
    hnames, run_one (hclose _ _), run_one (hbracket _ _), hbefore, bracketed_eq]
  rfl

theorem mem_of_isBlank {c : UInt8} (h : isBlank c = true) : c ∈ [0x20, 0x09, cr, lf] := by
  simpa [isBlank, or_assoc] using h

theorem soft_of_isBlank {c : UInt8} (h : isBlank c = true) : Soft c := by
  have hall : ∀ x ∈ [0x20, 0x09, cr, lf], Soft x := List.all_iff_forall_prop.mp (by decide)
  exact hall c (mem_of_isBlank h)

theorem isBlank_of_nameChar {c : UInt8} (h : isUnityAssemblyNameChar c = true) : isBlank c = false := by
  cases hblank : isBlank c with
  | false => rfl
  | true =>
    have hall : ∀ x ∈ [0x20, 0x09, cr, lf], isUnityAssemblyNameChar x = false :=
      List.all_iff_forall_prop.mp (by decide)
    exact absurd h (by simp [hall c (mem_of_isBlank hblank)])

theorem regexHeads_of_nameChar {c : UInt8} (h : isUnityAssemblyNameChar c = true) (hne : c ≠ hyphen) :
    regexHeads.contains c = false := by
  by_contra hin
  have hmem : c ∈ regexHeads := by simpa using hin
  have hall : ∀ x ∈ regexHeads, x = hyphen ∨ isUnityAssemblyNameChar x = false :=
    List.all_iff_forall_prop.mp (by decide)
  rcases hall c hmem with hx | hx
  · exact hne hx
  · exact absurd h (by simp [hx])

theorem agree_rewritten {b b' name tail : List UInt8} (hnames : ∀ c ∈ name, isUnityAssemblyNameChar c = true)
    (hmax : tail.head?.any isUnityAssemblyNameChar = false)
    (hclear : name.getLast? = some hyphen → regexAhead tail = false) :
    Agree .code ((kPrefix.tail ++ name).reverse ++ letterD :: b) ((bracketed name).reverse ++ b') tail := by
  have hbracket : isUnityRegexContext ((bracketed name).reverse ++ b') = false := by
    have h := bracketed_eq name []
    rw [List.append_nil] at h
    have hrev : (bracketed name).reverse ++ b' =
        closeBracket :: (dquote :: (name.reverse ++ dquote :: (front.reverse ++ letterD :: b'))) := by
      rw [h]
      simp
    rw [hrev, context_cons (by decide)]
    decide
  refine ⟨.inr ?_, ?_⟩
  · intro hhead
    rw [hhead] at hmax
    exact absurd hmax (by decide)
  · rw [hbracket]
    rcases List.eq_nil_or_concat name with rfl | ⟨init, x, rfl⟩
    · exact .inl rfl
    · have hx : isUnityAssemblyNameChar x = true := hnames x (by simp)
      by_cases hhyphen : x = hyphen
      · subst hhyphen
        exact .inr ⟨rfl, hclear (by simp)⟩
      · refine .inl ?_
        rw [List.concat_eq_append, ← List.append_assoc, List.reverse_append, List.append_assoc,
          List.reverse_singleton, List.singleton_append, context_cons (isBlank_of_nameChar hx)]
        exact regexHeads_of_nameChar hx hhyphen

theorem identBefore_append (xs : List UInt8) (c : UInt8) (b b' : List UInt8) :
    identBefore (xs ++ c :: b) = identBefore (xs ++ c :: b') := by
  cases xs <;> rfl

/-- Behind a turn that copies the passes agree as they did in front of it. -/
theorem agree_append {s t : State} {b b' xs tail : List UInt8} {c : UInt8} (h : Agree s b b' (c :: (xs ++ tail)))
    (hturn : CopyTurn s b c xs tail t) : Agree t (xs.reverse ++ c :: b) (xs.reverse ++ c :: b') tail := by
  refine ⟨.inl (identBefore_append _ c b b'), ?_⟩
  rcases h.context with heq | ⟨rfl, hahead⟩
  · exact .inl (context_append (context_append heq [c]) xs.reverse)
  · cases hblank : isBlank c with
    | false =>
      refine .inl (context_append ?_ xs.reverse)
      rw [context_cons hblank, context_cons hblank]
    | true =>
      have hstep := step_soft (soft_of_isBlank hblank) b (xs ++ tail)
      rw [hturn.now] at hstep
      have hlen : xs.length = 0 := congrArg Move.more hstep
      obtain rfl := List.eq_nil_of_length_eq_zero hlen
      refine .inr ⟨congrArg Move.next hstep, ?_⟩
      unfold regexAhead at hahead ⊢
      rwa [List.nil_append, List.dropWhile_cons, if_pos hblank] at hahead

theorem run_run (s : State) (b rest : List UInt8) :
    Every step Clear s b rest → ∀ b', Agree s b b' rest →
      run step s b' (run step s b rest) = run step s b rest := by
  induction s, b, rest using Lib.Scan.induction step with
  | nil s b => exact fun _ _ _ => rfl
  | cons s b c rest ih =>
    intro hclear b' hagree
    rcases exists_copyTurn s b c rest with ⟨name, tail, h⟩ | ⟨xs, tail, t, rfl, h⟩
    · obtain ⟨rfl, rfl, rfl, hident, hnames, hmax, hhyphen⟩ := h
      have hstep := step_chain hident hnames hmax
      rw [if_pos hhyphen] at hstep
      rw [hstep, List.take_left, List.drop_left] at ih
      obtain ⟨hplace, hrest⟩ := (every_more hstep).mp hclear
      have htext : letterD :: ((kPrefix.tail ++ name) ++ tail) = kPrefix ++ (name ++ tail) := by
        rw [List.append_assoc]
        rfl
      have hname := chainName_append hnames hmax
      have hnext : name.getLast? = some hyphen → regexAhead tail = false := by
        intro hlast
        have hclear' := hplace rfl
        simp only [htext] at hclear'
        have hbehind := hclear' ⟨List.prefix_append _ _, hident, by rwa [hname]⟩ (by rwa [hname])
        rwa [hname, ← List.append_assoc, ← List.length_append, List.drop_left] at hbehind
      rw [run_more hstep, run_bracketed hnames, ih hrest _ (agree_rewritten hnames hmax hnext)]
    · rw [h.now, List.take_left, List.drop_left] at ih
      have hrest := ((every_more h.now).mp hclear).2
      have hagain := h.again b' (run step t (xs.reverse ++ c :: b) tail) hagree (head?_run t _ tail) (by
        rintro rfl hpre
        exact prefix_of_prefix_run (List.all_iff_forall_prop.mp (by decide)) hpre)
      rw [run_more h.now, List.cons_append, run_more hagain, ih hrest _ (agree_append hagree h)]
      rfl

/-- Preprocessing what has been preprocessed changes nothing, where no chain that is rewritten ends in a hyphen in
front of a `/`. -/
theorem preprocess_twice {input : List UInt8} (h : Every step Clear .code [] input) :
    preprocessUnityLine (preprocessUnityLine input) = preprocessUnityLine input :=
  run_run .code [] input h [] (Agree.refl .code [] input)

instance (p : Place State UInt8) : Decidable (Clear p) :=
  inferInstanceAs (Decidable (p.state = .code → _ → _ → _))

/-- A chain, and a regular expression with another one. -/
def regexText : List UInt8 := ascii "f(dynamic.unity.assembly.A-B, /dynamic.unity.assembly.C-D/)"

theorem preprocess_twice_regexText :
    preprocessUnityLine (preprocessUnityLine regexText) = preprocessUnityLine regexText := by
  have hclear : ∀ p ∈ places step .code [] regexText, Clear p := by
    rw [regexText, ascii_ofList]
    decide
  exact preprocess_twice hclear

/-- The hyphen in front of the regular expression goes into the name. -/
def minusText : List UInt8 := ascii "dynamic.unity.assembly.A- /dynamic.unity.assembly.B-C/.lastIndex"

theorem not_preprocess_twice_minusText :
    ¬ ∀ input : List UInt8, preprocessUnityLine (preprocessUnityLine input) = preprocessUnityLine input := by
  intro h
  have hne : preprocessUnityLine (preprocessUnityLine minusText) ≠ preprocessUnityLine minusText := by
    rw [minusText, ascii_ofList]
    decide
  exact hne (h minusText)

end ArtPi.Unity
