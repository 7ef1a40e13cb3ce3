import ArtPi.Unity.Lexical

set_option autoImplicit false

/-! # Only code is rewritten

The scanner has no state for a substitution: a template ends for it at the first backtick that is not escaped. It ends
a line comment at LF only, it takes a chain whole, with a hyphen or without, and it knows identifiers of ASCII only.
Where nothing of this matters, it finds the tokens of the script. -/

namespace ArtPi.Unity

open Lib.Scan Net Cli.Complete

variable {wide : List UInt8 → Bool}

/-! ## Strings and templates -/

theorem StringBody.inert {q : UInt8} {body : List UInt8} (h : StringBody q body) (hq : q ≠ lf) : Inert q body := by
  induction h with
  | nil => exact .nil
  | char hquote hbackslash _ _ _ ih => exact .char hquote hbackslash ih
  | escape _ ih => exact .pair ih
  | crlf _ ih => exact .pair (.char hq.symm (by decide) ih)

theorem Inert.append {q : UInt8} {xs ys : List UInt8} (hxs : Inert q xs) (hys : Inert q ys) : Inert q (xs ++ ys) := by
  induction hxs with
  | nil => exact hys
  | char hquote hbackslash _ ih => exact .char hquote hbackslash ih
  | pair _ ih => exact .pair ih

/-- The template ends at the first backtick that is not escaped, where its substitutions have none. -/
theorem Template.inert {t : Template} {before after : List UInt8} (hvalid : t.Valid wide before after) (htame : t.Tame) :
    Inert backtick t.source := by
  cases t with
  | nil => exact .nil
  | char c rest =>
    obtain ⟨hbacktick, hbackslash, -, hrest⟩ := hvalid
    exact .char hbacktick hbackslash (Template.inert hrest htame)
  | escape c rest => exact .pair (Template.inert hvalid htame)
  | substitution inner rest =>
    obtain ⟨hinner, htail⟩ := htame
    have hrest := hinner.append (Template.inert hvalid.2 htail)
    rw [List.append_assoc, List.singleton_append] at hrest
    exact .char (by decide) (by decide) (.char (by decide) (by decide) hrest)

theorem run_inert {q : UInt8} {s : State} (hs : ∀ before c rest, step s before c rest = quotedStep q s c rest)
    (hq : q ≠ backslash) {body : List UInt8} (h : Inert q body) (before rest : List UInt8) :
    run step s before (body ++ q :: rest) =
      body ++ q :: run step .code (q :: (body.reverse ++ before)) rest := by
  induction h generalizing before with
  | nil =>
    have hstep : step s before q rest = ⟨0, [q], .code⟩ := by
      rw [hs, quotedStep, if_neg (fun hand => hq hand.1), if_pos rfl]
    rw [List.nil_append, run_one hstep]
    rfl
  | @char c body hquote hbackslash _ ih =>
    have hstep : step s before c (body ++ q :: rest) = ⟨0, [c], s⟩ := by
      rw [hs, quotedStep, if_neg (fun hand => hbackslash hand.1), if_neg hquote]
    rw [List.cons_append, run_one hstep, ih]
    simp
  | @pair c body _ ih =>
    have hstep : step s before backslash (c :: (body ++ q :: rest)) = ⟨1, [backslash, c], s⟩ := by
      rw [hs, quotedStep, if_pos ⟨rfl, List.cons_ne_nil _ _⟩]
      rfl
    rw [List.cons_append, List.cons_append, run_two hstep, ih]
    simp

/-! ## Comments -/

theorem run_lineComment {body : List UInt8} (h : lf ∉ body) (before rest : List UInt8) :
    run step .lineComment before (body ++ rest) =
      body ++ run step .lineComment (body.reverse ++ before) rest := by
  have hcopy : ∀ c, c ≠ lf → ∀ before rest, step .lineComment before c rest = ⟨0, [c], .lineComment⟩ := by
    intro c hc before rest
    rw [step, if_neg hc]
  refine run_copies hcopy (fun c hc => ?_) before rest
  rintro rfl
  exact h hc

/-- At LF, at CR LF and at the end the comment could as well be code. -/
theorem run_lineComment_end {rest : List UInt8} (h : rest = [] ∨ rest.head? = some lf ∨ [cr, lf] <+: rest)
    (before : List UInt8) : run step .lineComment before rest = run step .code before rest := by
  have hlf : ∀ before rest, run step .lineComment before (lf :: rest) = run step .code before (lf :: rest) := by
    intro before rest
    have hcomment : step .lineComment before lf rest = ⟨0, [lf], .code⟩ := rfl
    rw [run_one hcomment, run_one (step_soft (by decide) before rest)]
  rcases h with rfl | hhead | ⟨tail, rfl⟩
  · rfl
  · obtain ⟨tail, rfl⟩ := List.head?_eq_some_iff.mp hhead
    exact hlf before tail
  · have hcr : step .lineComment before cr (lf :: tail) = ⟨0, [cr], .lineComment⟩ := rfl
    rw [List.cons_append, List.singleton_append, run_one hcr, run_one (step_soft (by decide) before _), hlf]

theorem run_blockComment {body : List UInt8} (h : ¬ [star, slash] <:+: body ++ [star]) (before rest : List UInt8) :
    run step .blockComment before (body ++ star :: slash :: rest) =
      body ++ star :: slash :: run step .code (slash :: star :: (body.reverse ++ before)) rest := by
  induction body generalizing before with
  | nil =>
    have hstep : step .blockComment before star (slash :: rest) = ⟨1, [star, slash], .code⟩ := rfl
    rw [List.nil_append, run_two hstep]
    rfl
  | cons c body ih =>
    have hstep : step .blockComment before c (body ++ star :: slash :: rest) = ⟨0, [c], .blockComment⟩ := by
      rw [step, if_neg]
      rintro ⟨rfl, hhead⟩
      cases body with
      | nil => exact absurd (Option.some.inj hhead) (by decide)
      | cons d body =>
        obtain rfl : d = slash := Option.some.inj hhead
        exact h ⟨[], body ++ [star], rfl⟩
    have hrest : ¬ [star, slash] <:+: body ++ [star] := fun hin => h (hin.trans (List.suffix_cons c _).isInfix)
    rw [List.cons_append, run_one hstep, ih hrest]
    simp

/-! ## Regular expressions -/

theorem run_regex {k : Bool} {body : List UInt8} (h : RegexBody k body) (hlf : lf ∉ body) (before rest : List UInt8) :
    run step (if k = true then .regexClass else .regex) before (body ++ slash :: rest) =
      body ++ run step .regex (body.reverse ++ before) (slash :: rest) := by
  induction h generalizing before with
  | nil => rfl
  | @char c body hbackslash hopen hslash _ ih =>
    have hc : lf ≠ c := List.ne_of_not_mem_cons hlf
    have hbody : lf ∉ body := List.not_mem_of_not_mem_cons hlf
    have hstep : step .regex before c (body ++ slash :: rest) = ⟨0, [c], .regex⟩ := by
      rw [step, if_neg (fun hand => hbackslash hand.1), if_neg hopen, if_neg hslash, if_neg (Ne.symm hc)]
    have hrun := ih hbody (c :: before)
    rw [if_neg (by decide)] at hrun ⊢
    rw [List.cons_append, run_one hstep, hrun]
    simp
  | @opened body _ ih =>
    have hstep : step .regex before openBracket (body ++ slash :: rest) = ⟨0, [openBracket], .regexClass⟩ := rfl
    have hrun := ih (List.not_mem_of_not_mem_cons hlf) (openBracket :: before)
    rw [if_pos rfl] at hrun
    rw [if_neg (by decide), List.cons_append, run_one hstep, hrun]
    simp
  | @inside c body hbackslash hclose _ ih =>
    have hstep : step .regexClass before c (body ++ slash :: rest) = ⟨0, [c], .regexClass⟩ := by
      rw [step, if_neg (fun hand => hbackslash hand.1), if_neg hclose]
    have hrun := ih (List.not_mem_of_not_mem_cons hlf) (c :: before)
    rw [if_pos rfl] at hrun ⊢
    rw [List.cons_append, run_one hstep, hrun]
    simp
  | @closed body _ ih =>
    have hstep : step .regexClass before closeBracket (body ++ slash :: rest) = ⟨0, [closeBracket], .regex⟩ := rfl
    have hrun := ih (List.not_mem_of_not_mem_cons hlf) (closeBracket :: before)
    rw [if_neg (by decide)] at hrun
    rw [if_pos rfl, List.cons_append, run_one hstep, hrun]
    simp
  | @escape k c body _ ih =>
    have hstep : step (if k = true then .regexClass else .regex) before backslash (c :: (body ++ slash :: rest)) =
        ⟨1, [backslash, c], if k = true then .regexClass else .regex⟩ := by
      cases k <;> rfl
    have hbody : lf ∉ body := List.not_mem_of_not_mem_cons (List.not_mem_of_not_mem_cons hlf)
    rw [List.cons_append, List.cons_append, run_two hstep, ih hbody]
    simp

theorem RegexBody.head_ne {body : List UInt8} (h : RegexBody false body) (hne : body ≠ []) (tail : List UInt8) :
    (body ++ tail).head? ≠ some slash := by
  cases h with
  | nil => exact absurd rfl hne
  | char hbackslash hopen hslash _ => exact fun hhead => hslash (Option.some.inj hhead)
  | opened _ => exact fun hhead => absurd (Option.some.inj hhead) (by decide)
  | escape _ => exact fun hhead => absurd (Option.some.inj hhead) (by decide)

theorem run_flags {flags rest : List UInt8} (hflags : ∀ c ∈ flags, isalpha c = true)
    (hrest : rest.head?.any isalpha = false) (before : List UInt8) :
    run step .regex before (slash :: (flags ++ rest)) =
      slash :: (flags ++ run step .code (flags.reverse ++ slash :: before) rest) := by
  have hstep : step .regex before slash (flags ++ rest) = ⟨flags.length, slash :: flags, .code⟩ := by
    have hback : ¬ (slash = backslash ∧ flags ++ rest ≠ []) := fun hand => absurd hand.1 (by decide)
    have hopen : ¬ slash = openBracket := by decide
    rw [step, if_neg hback, if_neg hopen, if_pos rfl, takeWhile_append_of_head? hflags hrest]
  rw [run_more hstep]
  rfl

/-! ## Code -/

/-- A character of code is copied where no chain begins, also none without a hyphen. -/
theorem step_plain {nested : Bool} {before rest : List UInt8} {c : UInt8} (h : Plain wide nested before c rest)
    (hchain : ¬ (kPrefix <+: c :: rest ∧ identBefore before = false)) :
    step .code before c rest = ⟨0, [c], .code⟩ := by
  by_cases hslash : c = slash
  · subst hslash
    obtain ⟨hline, hblock, hcontext⟩ := h.slash rfl
    rw [step_slash hline hblock, if_neg (by simp [hcontext])]
  by_cases hd : c = letterD
  · subst hd
    refine step_letterD (fun hpre => ?_)
    by_contra hident
    refine hchain ⟨?_, by simpa using hident⟩
    rw [kPrefix_eq, List.cons_prefix_cons]
    exact ⟨rfl, hpre⟩
  · exact step_soft ⟨hslash, h.squote, h.dquote, h.backtick, hd⟩ before rest

/-- A character in front of which the code sees an identifier is one of an identifier. -/
theorem identBefore_of_js {before : List UInt8} (h : jsIdentBefore wide before = false) : identBefore before = false := by
  rw [jsIdentBefore, Bool.or_eq_false_iff, Bool.or_eq_false_iff] at h
  exact h.1.1

/-- No chain begins in a text in front of another. -/
def NoChain (rest : List UInt8) : List UInt8 → List UInt8 → Prop
  | _, [] => True
  | before, c :: xs => ¬ ChainAt before (c :: (xs ++ rest)) ∧ NoChain rest (c :: before) xs

theorem noChain_append {rest before xs ys : List UInt8} (hxs : NoChain (ys ++ rest) before xs)
    (hys : NoChain rest (xs.reverse ++ before) ys) : NoChain rest before (xs ++ ys) := by
  induction xs generalizing before with
  | nil => exact hys
  | cons x xs ih =>
    obtain ⟨hx, hxs⟩ := hxs
    refine ⟨?_, ih hxs ?_⟩
    · rw [← List.append_assoc] at hx
      exact hx
    · rwa [List.reverse_cons, List.append_assoc, List.singleton_append] at hys

theorem noChain_of_not_mem {rest before xs : List UInt8} (h : letterD ∉ xs) : NoChain rest before xs := by
  induction xs generalizing before with
  | nil => trivial
  | cons x xs ih =>
    have hx : letterD ≠ x := List.ne_of_not_mem_cons h
    exact ⟨fun hchain => hx (head_of_kPrefix hchain.1).1.symm, ih (List.not_mem_of_not_mem_cons h)⟩

/-- In an identifier a chain can begin at its first character only. -/
theorem noChain_of_ident {rest before xs : List UInt8} (hident : ∀ c ∈ xs, isUnityJsIdentChar c = true)
    (hfirst : ¬ ChainAt before (xs ++ rest)) : NoChain rest before xs := by
  induction xs generalizing before with
  | nil => trivial
  | cons x xs ih =>
    refine ⟨hfirst, ih (fun c hc => hident c (List.mem_cons_of_mem x hc)) (fun hchain => ?_)⟩
    have hx : identBefore (x :: before) = true := hident x List.mem_cons_self
    rw [hchain.2.1] at hx
    exact absurd hx (by simp)

/-- The characters of a chain. -/
def ChainChar (c : UInt8) : Prop := isUnityJsIdentChar c = true ∨ c = dot

theorem ChainChar.ne {c d : UInt8} (h : ChainChar c) (hd : isUnityJsIdentChar d = false) (hdot : d ≠ dot) :
    c ≠ d := by
  rintro rfl
  rcases h with h | h
  · rw [h] at hd
    exact absurd hd (by simp)
  · exact hdot h

/-- Code that begins with such characters, and with no chain among them, has them as its characters. -/
theorem Code.split {xs rest before : List UInt8} {t : Code} (hsource : t.source = xs ++ rest)
    (hvalid : t.Valid wide false before []) (htame : t.Tame wide before) (hchars : ∀ c ∈ xs, ChainChar c)
    (hno : NoChain rest before xs) :
    ∃ t' : Code, t'.source = rest ∧ t.target = xs ++ t'.target ∧ t'.Valid wide false (xs.reverse ++ before) [] ∧
      t'.Tame wide (xs.reverse ++ before) := by
  induction xs generalizing t before with
  | nil => exact ⟨t, hsource, rfl, hvalid, htame⟩
  | cons x xs ih =>
    have hx := hchars x List.mem_cons_self
    obtain ⟨hchain, hno⟩ := hno
    have hfirst : ∀ {d : UInt8} {tail : List UInt8}, d :: tail = x :: (xs ++ rest) → isUnityJsIdentChar d = false →
        d ≠ dot → False := fun h hd hdot => hx.ne hd hdot (List.cons.inj h).1.symm
    cases t with
    | nil => exact absurd hsource (by simp [Code.source])
    | char c t =>
      obtain ⟨rfl, htail⟩ := List.cons.inj hsource
      obtain ⟨t', hsrc, htgt, hval, htam⟩ :=
        ih htail hvalid.2 htame.2.2 (fun d hd => hchars d (List.mem_cons_of_mem c hd)) hno
      refine ⟨t', hsrc, ?_, ?_, ?_⟩
      · rw [Code.target, htgt]
        rfl
      · rwa [List.reverse_cons, List.append_assoc]
      · rwa [List.reverse_cons, List.append_assoc]
    | chain name t =>
      obtain ⟨hident, hnames, hhyphen, hmax, -⟩ := hvalid
      rw [List.append_nil] at hmax
      have htext : kPrefix ++ (name ++ t.source) = x :: (xs ++ rest) := by
        rw [← List.append_assoc]
        exact hsource
      refine absurd ⟨?_, identBefore_of_js hident, ?_⟩ hchain
      · rw [← htext]
        exact List.prefix_append _ _
      · rw [← htext, chainName_append hnames hmax]
        exact hhyphen
    | braces inner t => exact absurd hvalid.1 (by simp)
    | string quote body t =>
      obtain ⟨rfl | rfl, -⟩ := hvalid
      · exact (hfirst hsource (by decide) (by decide)).elim
      · exact (hfirst hsource (by decide) (by decide)).elim
    | template body t => exact (hfirst hsource (by decide) (by decide)).elim
    | lineComment body t => exact (hfirst hsource (by decide) (by decide)).elim
    | blockComment body t => exact (hfirst hsource (by decide) (by decide)).elim
    | regex body flags t => exact (hfirst hsource (by decide) (by decide)).elim

theorem identChar_of_nameChar {c : UInt8} (h : isUnityAssemblyNameChar c = true) (hne : c ≠ hyphen) :
    isUnityJsIdentChar c = true := by
  unfold isUnityAssemblyNameChar at h
  unfold isUnityJsIdentChar
  simpa [hne] using h

theorem chainChar_kPrefix : ∀ c ∈ kPrefix.tail, ChainChar c := by
  intro c hc
  have hall : ∀ c ∈ kPrefix.tail, isUnityJsIdentChar c = true ∨ c = dot :=
    List.all_iff_forall_prop.mp (by decide)
  exact hall c hc

/-- In a chain without a hyphen no other one begins, where it hides none. -/
theorem noChain_chain {before name rest : List UInt8} (hnames : ∀ c ∈ name, isUnityAssemblyNameChar c = true)
    (hhyphen : hyphen ∉ name) (hident : identBefore before = false)
    (hhide : ¬ HidesChain before (kPrefix ++ (name ++ rest))) :
    NoChain rest (letterD :: before) (kPrefix.tail ++ name) := by
  have hidents : ∀ c ∈ name, isUnityJsIdentChar c = true := by
    intro c hc
    refine identChar_of_nameChar (hnames c hc) ?_
    rintro rfl
    exact hhyphen hc
  refine noChain_append (noChain_of_not_mem (by decide)) (noChain_of_ident hidents (fun hchain => hhide ?_))
  refine ⟨List.prefix_append _ _, hident, ?_⟩
  rw [List.drop_left]
  exact ⟨hchain.1, rfl, hchain.2.2⟩

theorem Code.split_chain {before : List UInt8} {c : UInt8} {t : Code} (hvalid : (Code.char c t).Valid wide false before [])
    (htame : (Code.char c t).Tame wide before) (hpre : kPrefix <+: c :: t.source)
    (hident : identBefore before = false) :
    ∃ name t', (Code.char c t).source = letterD :: (kPrefix.tail ++ name) ++ Code.source t' ∧
      (Code.char c t).target = letterD :: (kPrefix.tail ++ name) ++ Code.target t' ∧
      (∀ x ∈ name, isUnityAssemblyNameChar x = true) ∧ hyphen ∉ name ∧
      t'.source.head?.any isUnityAssemblyNameChar = false ∧
      t'.Valid wide false ((kPrefix.tail ++ name).reverse ++ letterD :: before) [] ∧
      t'.Tame wide ((kPrefix.tail ++ name).reverse ++ letterD :: before) := by
  obtain ⟨hplain, hrest⟩ := hvalid
  obtain ⟨hhide, hknown, htail⟩ := htame
  obtain ⟨rest, hsplit, hnames, hmax⟩ := chain_split hpre
  have hhyphen : hyphen ∉ chainName (c :: t.source) := by
    intro hin
    have hchain := hplain.chain
    rw [List.append_nil] at hchain
    exact hchain ⟨hpre, hknown ⟨hpre, hident, hin⟩, hin⟩
  obtain rfl : c = letterD := (head_of_kPrefix hpre).1
  generalize hname : chainName (letterD :: t.source) = name at hsplit hnames hhyphen
  have hsource : t.source = (kPrefix.tail ++ name) ++ rest := by
    rw [List.append_assoc]
    rw [kPrefix_eq] at hsplit
    exact (List.cons.inj hsplit).2
  have hchars : ∀ x ∈ kPrefix.tail ++ name, ChainChar x := by
    intro x hx
    rcases List.mem_append.mp hx with hx | hx
    · exact chainChar_kPrefix x hx
    · refine .inl (identChar_of_nameChar (hnames x hx) ?_)
      rintro rfl
      exact hhyphen hx
  rw [hsplit] at hhide
  obtain ⟨t', hsrc, htgt, hval, htam⟩ :=
    Code.split hsource hrest htail hchars (noChain_chain hnames hhyphen hident hhide)
  refine ⟨name, t', ?_, ?_, hnames, hhyphen, ?_, hval, htam⟩
  · rw [Code.source, hsource, hsrc]
    rfl
  · rw [Code.target, htgt]
    rfl
  · rw [hsrc]
    exact hmax

theorem run_code {t : Code} {before : List UInt8} (hvalid : t.Valid wide false before []) (htame : t.Tame wide before) :
    run step .code before t.source = t.target := by
  generalize hn : t.source.length = n
  induction n using Nat.strongRecOn generalizing t before with
  | ind n ih =>
    cases t with
    | nil => rfl
    | char c t =>
      by_cases hchain : kPrefix <+: c :: t.source ∧ identBefore before = false
      · obtain ⟨name, t', hsrc, htgt, hnames, hhyphen, hmax, hval, htam⟩ :=
          Code.split_chain hvalid htame hchain.1 hchain.2
        have hstep := step_chain hchain.2 hnames hmax
        rw [if_neg hhyphen] at hstep
        have hlen : t'.source.length < n := by
          rw [← hn, hsrc, List.length_append, List.length_cons]
          omega
        rw [hsrc, htgt, List.cons_append, run_more hstep, ih _ hlen hval htam rfl]
      · have hplain := hvalid.1
        rw [List.append_nil] at hplain
        have hlen : t.source.length < n := by
          rw [← hn, Code.source, List.length_cons]
          omega
        rw [Code.source, run_one (step_plain hplain hchain), ih _ hlen hvalid.2 htame.2.2 rfl]
        rfl
    | chain name t =>
      obtain ⟨hident, hnames, hhyphen, hmax, hrest⟩ := hvalid
      rw [List.append_nil] at hmax
      have hstep := step_chain (identBefore_of_js hident) hnames hmax
      rw [if_pos hhyphen] at hstep
      have hbefore : (kPrefix ++ name).reverse ++ before =
          (kPrefix.tail ++ name).reverse ++ letterD :: before := by
        rw [kPrefix_eq]
        simp
      have hsource : (Code.chain name t).source = letterD :: ((kPrefix.tail ++ name) ++ t.source) := rfl
      have hlen : t.source.length < n := by
        rw [← hn, hsource, List.length_cons, List.length_append]
        omega
      rw [hbefore] at hrest
      rw [Code.Tame, hbefore] at htame
      rw [hsource, run_more hstep, ih _ hlen hrest htame rfl]
      rfl
    | braces inner t => exact absurd hvalid.1 (by simp)
    | string quote body t =>
      obtain ⟨hquote, hbody, hrest⟩ := hvalid
      have hlen : t.source.length < n := by
        rw [← hn, Code.source, List.length_cons, List.length_append, List.length_cons]
        omega
      have hnext := ih _ hlen hrest htame rfl
      rw [Code.source, Code.target]
      rcases hquote with rfl | rfl
      · have hopen : step .code before squote (body ++ squote :: t.source) = ⟨0, [squote], .singleQuote⟩ := rfl
        rw [run_one hopen, run_inert (fun _ _ _ => rfl) (by decide) (hbody.inert (by decide)), hnext]
        rfl
      · have hopen : step .code before dquote (body ++ dquote :: t.source) = ⟨0, [dquote], .doubleQuote⟩ := rfl
        rw [run_one hopen, run_inert (fun _ _ _ => rfl) (by decide) (hbody.inert (by decide)), hnext]
        rfl
    | template body t =>
      obtain ⟨hbody, hrest⟩ := hvalid
      obtain ⟨hbodyTame, hrestTame⟩ := htame
      have hlen : t.source.length < n := by
        rw [← hn, Code.source, List.length_cons, List.length_append, List.length_cons]
        omega
      have hopen : step .code before backtick (body.source ++ backtick :: t.source) =
          ⟨0, [backtick], .template⟩ := rfl
      rw [Code.source, Code.target, run_one hopen,
        run_inert (fun _ _ _ => rfl) (by decide) (Template.inert hbody hbodyTame), ih _ hlen hrest hrestTame rfl]
      rfl
    | lineComment body t =>
      obtain ⟨⟨hlf, -⟩, -, hrest⟩ := hvalid
      obtain ⟨hend, hrestTame⟩ := htame
      have hlen : t.source.length < n := by
        rw [← hn, Code.source, List.length_cons, List.length_cons, List.length_append]
        omega
      have hopen : step .code before slash (slash :: (body ++ t.source)) =
          ⟨1, [slash, slash], .lineComment⟩ := rfl
      have hnext := ih _ hlen hrest hrestTame rfl
      rw [Code.source, Code.target, run_two hopen, run_lineComment hlf, run_lineComment_end hend, ← hnext]
      rfl
    | blockComment body t =>
      obtain ⟨hbody, hrest⟩ := hvalid
      have hlen : t.source.length < n := by
        rw [← hn, Code.source, List.length_cons, List.length_cons, List.length_append, List.length_cons,
          List.length_cons]
        omega
      have hopen : step .code before slash (star :: (body ++ star :: slash :: t.source)) =
          ⟨1, [slash, star], .blockComment⟩ := rfl
      have hnext := ih _ hlen hrest htame rfl
      rw [Code.source, Code.target, run_two hopen, run_blockComment hbody, ← hnext]
      rfl
    | regex body flags t =>
      obtain ⟨hcontext, hbody, hline, hne, hstar, hflags, hmax, hrest⟩ := hvalid
      rw [List.append_nil] at hmax
      have hlen : t.source.length < n := by
        rw [← hn, Code.source, List.length_cons, List.length_append, List.length_cons, List.length_append]
        omega
      have hopen : step .code before slash (body ++ slash :: (flags ++ t.source)) = ⟨0, [slash], .regex⟩ := by
        have hblock : (body ++ slash :: (flags ++ t.source)).head? ≠ some star := by
          rwa [List.head?_append_of_ne_nil body hne]
        rw [step_slash (hbody.head_ne hne _) hblock, if_pos hcontext]
      have hrun := run_regex hbody hline.1 (slash :: before) (flags ++ t.source)
      rw [if_neg (by decide)] at hrun
      rw [Code.source, Code.target, run_one hopen, hrun, run_flags hflags hmax, ih _ hlen hrest htame rfl]
      rfl

theorem plain_of_soft {c : UInt8} (h : Soft c) {nested : Bool}
    (hbrace : nested = true → c ≠ leftBrace ∧ c ≠ rightBrace) (before rest : List UInt8) :
    Plain wide nested before c rest where
  squote := h.2.1
  dquote := h.2.2.1
  backtick := h.2.2.2.1
  slash := fun hslash => absurd hslash h.1
  brace := hbrace
  chain := fun hchain => h.2.2.2.2 (head_of_kPrefix hchain.1).1

theorem tame_of_soft {c : UInt8} (h : Soft c) {before : List UInt8} {rest : Code} (hrest : rest.Tame wide (c :: before)) :
    (Code.char c rest).Tame wide before :=
  ⟨fun hhide => h.2.2.2.2 (head_of_kPrefix hhide.1).1, fun hchain => absurd (head_of_kPrefix hchain.1).1 h.2.2.2.2,
    hrest⟩

/-- A template with a substitution, and a chain behind it. -/
def chainScript : Script where
  hashbang := none
  code :=
    .template (.substitution (.char 0x31 .nil) .nil) (.char 0x3B (.chain (ascii "A-B") .nil))

example : chainScript.source = ascii "`$\x7b1\x7d`;dynamic.unity.assembly.A-B" := by decide

theorem chainScript_valid : chainScript.Valid wide where
  header := fun _ => by decide
  body := fun _ h => absurd h (by simp [chainScript])
  code :=
    ⟨⟨⟨plain_of_soft (by decide) (by decide) _ _, trivial⟩, trivial⟩, plain_of_soft (by decide) (by decide) _ _,
      rfl, List.all_iff_forall_prop.mp (by decide), by decide, by decide, trivial⟩

theorem chainScript_tame : chainScript.Tame wide where
  header := rfl
  code :=
    ⟨⟨.char (by decide) (by decide) (.char (by decide) (by decide) .nil), trivial⟩,
      tame_of_soft (by decide) trivial⟩

/-- A template of characters only. -/
def Template.ofChars : List UInt8 → Template
  | [] => .nil
  | c :: cs => .char c (ofChars cs)

theorem Template.valid_ofChars {cs : List UInt8} (h : ∀ c ∈ cs, c ≠ backtick ∧ c ≠ backslash ∧ c ≠ dollar)
    (before after : List UInt8) : (Template.ofChars cs).Valid wide before after := by
  induction cs generalizing before with
  | nil => trivial
  | cons c cs ih =>
    obtain ⟨hbacktick, hbackslash, hdollar⟩ := h c List.mem_cons_self
    exact ⟨hbacktick, hbackslash, fun hc => absurd hc hdollar,
      ih (fun d hd => h d (List.mem_cons_of_mem c hd)) (c :: before)⟩

/-- A template in the substitution of a template. -/
def nestedScript : Script where
  hashbang := none
  code := .template (.substitution (.template (.ofChars (ascii "dynamic.unity.assembly.A-B")) .nil) .nil) .nil

example : nestedScript.source = ascii "`$\x7b`dynamic.unity.assembly.A-B`\x7d`" := by decide

/-- Code of characters only. -/
def Code.ofChars : List UInt8 → Code
  | [] => .nil
  | c :: cs => .char c (ofChars cs)

theorem Code.valid_ofChars {cs : List UInt8} (h : ∀ c ∈ cs, Soft c) (before after : List UInt8) :
    (Code.ofChars cs).Valid wide false before after := by
  induction cs generalizing before with
  | nil => trivial
  | cons c cs ih =>
    exact ⟨plain_of_soft (h c List.mem_cons_self) (by simp) _ _,
      ih (fun d hd => h d (List.mem_cons_of_mem c hd)) (c :: before)⟩

/-- An identifier that begins with U+00E9 and goes on like a chain. -/
def wideScript : Script where
  hashbang := none
  code := .char 0xC3 (.char 0xA9 (.char letterD (.ofChars (ascii "ynamic.unity.assembly.A-B"))))

end ArtPi.Unity
