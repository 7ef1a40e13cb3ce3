import Mathlib.Data.List.Nodup
import Mathlib.Data.List.Infix

set_option autoImplicit false

/-! # The names of assemblies and classes (`src/agent/agent_unity.cpp`, `src/agent/agent_dynamic.cpp`)

The completions write `_` for every `-`, `.` and `/` of a name, and the proxies guess back: the same separator in all
places, and for assemblies a search in the list of names. -/

namespace ArtPi.Unity.Names

abbrev Name := List Char

/-! ## What is offered -/

/-- `IsJsIdentifier` -/
def isJsIdentifier : Name → Bool
  | [] => false
  | first :: rest =>
    (first.isAlpha || first = '_' || first = '$') && rest.all fun c => c.isAlphanum || c = '_' || c = '$'

def isSeparator (c : Char) : Bool := c = '-' || c = '.' || c = '/'

def sanitizeDotChainName (s : Name) : Name := s.map fun c => if isSeparator c = true then '_' else c

def dll : Name := ['.', 'd', 'l', 'l']

/-- The name of an assembly without `.dll`, as the completions take it off. -/
def stem (name : Name) : Name :=
  if 4 < name.length ∧ dll <:+ name then name.take (name.length - 4) else name

/-- The identifiers `JsUnityCompletions` offers for one assembly. -/
def assemblyIdents (name : Name) : List Name :=
  let sanitized := sanitizeDotChainName (stem name)
  sanitized :: if sanitized ≠ stem name ∧ '.' ∉ stem name then [stem name] else []

/-- And those for one class. -/
def classIdents (name : Name) : List Name :=
  if isJsIdentifier (sanitizeDotChainName name) = true then [sanitizeDotChainName name] else []

/-! ## How a name resolves -/

/-- What a proxy returns: the proxy of an assembly or a class, a property of the object behind it, or an answer of its
own. -/
inductive Got where
  | resolved (name : Name)
  | property (prop : Name)
  | own (prop : Name)
  | undefined
  deriving DecidableEq

/-- The proxies leave these to the object behind them. -/
def isInternal (prop : Name) : Bool := ['_', '_'].isPrefixOf prop

/-- `prop.replace(/_/g, sep)` -/
def unmangle (sep : Char) (prop : Name) : Name := prop.map fun c => if c = '_' then sep else c

/-- The native lookups are by the exact name. -/
def lookup (names : List Name) (name : Name) : Option Name := names.find? (· = name)

/-- The guesses of `findAssembly`, in order. -/
def candidates (prop : Name) : List Name :=
  let dashed := unmangle '-' prop
  let dotted := unmangle '.' prop
  [prop, prop ++ dll, dashed, dashed ++ dll, dotted, dotted ++ dll]

section Assemblies

variable (lower : Name → Name) (inTarget : Name → Bool)

def normalizeAsmName (name : Name) : Name := (lower name).map fun c => if c = '-' ∨ c = '.' then '_' else c

/-- The name without `.dll`, as `findAssembly` takes it off. -/
def aStem (name : Name) : Name := if dll <:+ name then name.take (name.length - 4) else name

/-- The search of `findAssembly` stops at this name. -/
def Matches (prop aName : Name) : Prop :=
  normalizeAsmName lower (aStem aName) = normalizeAsmName lower prop ∨
    normalizeAsmName lower aName = normalizeAsmName lower prop

instance (prop aName : Name) : Decidable (Matches lower prop aName) := inferInstanceAs (Decidable (_ ∨ _))

def findAssembly (names : List Name) (prop : Name) : Option Name :=
  match (candidates prop).findSome? (lookup names) with
  | some a => some a
  | none => (names.find? fun aName => Matches lower prop aName).bind (lookup names)

/-- The `get` of `makeUnityAssemblyRootProxy`. -/
def rootGet (names : List Name) (prop : Name) : Got :=
  if prop = "__unity_kind".toList ∨ prop = "__ptr".toList ∨ prop = "toString".toList then .own prop
  else if isInternal prop = true then .property prop
  else if inTarget prop = true then .property prop
  else match findAssembly lower names prop with
    | some a => .resolved a
    | none => .undefined

end Assemblies

/-- One more guess where no class is found. -/
def orGuess (names : List Name) (prop : Name) (cls : Option Name) (sep : Char) : Option Name :=
  match cls with
  | some c => some c
  | none => if '_' ∈ prop ∧ unmangle sep prop ≠ prop then lookup names (unmangle sep prop) else none

def findClass (names : List Name) (prop : Name) : Option Name :=
  ['.', '/', '-'].foldl (orGuess names prop) (lookup names prop)

/-- The `get` of `makeAssemblyProxy`. -/
def classGet (inTarget : Name → Bool) (names : List Name) (prop : Name) : Got :=
  if isInternal prop = true then .property prop
  else match findClass names prop with
    | some c => .resolved c
    | none => if inTarget prop = true then .property prop else .undefined

/-! ## Names under the replacements -/

/-- Whatever the name has of the separators and the underscore is `sep`. -/
def Only (sep : Char) (s : Name) : Prop := ∀ c ∈ s, isSeparator c = true ∨ c = '_' → c = sep

instance (sep : Char) (s : Name) : Decidable (Only sep s) :=
  decidable_of_iff (s.all fun c => decide (isSeparator c = true ∨ c = '_' → c = sep)) (by
    simp only [List.all_eq_true, decide_eq_true_eq]
    rfl)

theorem not_separator_of_mem_sanitize {s : Name} {c : Char} (h : c ∈ sanitizeDotChainName s) :
    isSeparator c = false := by
  obtain ⟨d, -, rfl⟩ := List.mem_map.mp h
  by_cases hd : isSeparator d = true
  · rw [if_pos hd]
    rfl
  · rw [if_neg hd]
    simpa using hd

theorem notMem_sanitize {sep : Char} (h : isSeparator sep = true) (s : Name) : sep ∉ sanitizeDotChainName s :=
  fun hmem => Bool.false_ne_true ((not_separator_of_mem_sanitize hmem).symm.trans h)

theorem sanitize_of_not_separator {s : Name} (h : ∀ c ∈ s, isSeparator c = false) : sanitizeDotChainName s = s := by
  refine (List.map_congr_left fun c hc => ?_).trans (List.map_id s)
  simp [h c hc]

@[simp] theorem sanitize_sanitize (s : Name) :
    sanitizeDotChainName (sanitizeDotChainName s) = sanitizeDotChainName s :=
  sanitize_of_not_separator fun _ hc => not_separator_of_mem_sanitize hc

/-- A guess that puts a separator in leads back to the same name. -/
theorem sanitize_unmangle {sep : Char} (hs : isSeparator sep = true) (p : Name) :
    sanitizeDotChainName (unmangle sep p) = sanitizeDotChainName p := by
  rw [sanitizeDotChainName, sanitizeDotChainName, unmangle, List.map_map]
  refine List.map_congr_left fun c _ => ?_
  by_cases hc : c = '_'
  · subst hc
    simp [hs]
  · simp [hc]

/-- A guess is the name that was replaced exactly where the name has no other separator. -/
theorem unmangle_sanitize_iff (sep : Char) (s : Name) : unmangle sep (sanitizeDotChainName s) = s ↔ Only sep s := by
  rw [unmangle, sanitizeDotChainName, List.map_map]
  constructor
  · intro h c hc hsep
    have hat : ((fun c => if c = '_' then sep else c) ∘ fun c => if isSeparator c = true then '_' else c) c = c :=
      List.map_inj_left.mp (h.trans (List.map_id s).symm) c hc
    rcases hsep with hsep | rfl
    · simpa [hsep] using hat.symm
    · simpa [show isSeparator '_' = false from rfl] using hat.symm
  · intro h
    refine (List.map_congr_left fun c hc => ?_).trans (List.map_id s)
    by_cases hsep : isSeparator c = true
    · simpa [hsep] using (h c hc (.inl hsep)).symm
    · by_cases hu : c = '_'
      · simpa [hu, show isSeparator '_' = false from rfl] using (h c hc (.inr hu)).symm.trans hu
      · simp [hsep, hu]

theorem unmangle_underscore (p : Name) : unmangle '_' p = p := by
  refine (List.map_congr_left fun c _ => ?_).trans (List.map_id p)
  by_cases hc : c = '_' <;> simp [hc]

theorem unmangle_of_notMem {p : Name} (h : '_' ∉ p) (sep : Char) : unmangle sep p = p := by
  refine (List.map_congr_left fun c hc => ?_).trans (List.map_id p)
  have hne : c ≠ '_' := fun e => h (e ▸ hc)
  simp [hne]

@[simp] theorem unmangle_length (sep : Char) (p : Name) : (unmangle sep p).length = p.length := List.length_map _

@[simp] theorem sanitize_length (s : Name) : (sanitizeDotChainName s).length = s.length := List.length_map _

/-! ### The stem -/

theorem stem_append_dll {s : Name} (hs : s ≠ []) : stem (s ++ dll) = s := by
  have hlen : 0 < s.length := List.length_pos_iff.mpr hs
  have hlong : 4 < (s ++ dll).length := by
    simp [dll]
    omega
  rw [stem, if_pos ⟨hlong, List.suffix_append s dll⟩]
  simp [dll]

/-- A name is its stem, or its stem with `.dll`. -/
theorem stem_cases (name : Name) : stem name = name ∨ (name = stem name ++ dll ∧ stem name ≠ []) := by
  by_cases h : 4 < name.length ∧ dll <:+ name
  · obtain ⟨hlong, s, rfl⟩ := h
    have hs : s ≠ [] := by
      rintro rfl
      simp [dll] at hlong
    rw [stem_append_dll hs]
    exact .inr ⟨rfl, hs⟩
  · exact .inl (if_neg h)

theorem stem_of_not_suffix {s : Name} (h : ¬ dll <:+ s) : stem s = s := if_neg fun hs => h hs.2

theorem stem_of_dot_notMem {s : Name} (h : '.' ∉ s) : stem s = s := by
  refine stem_of_not_suffix fun hs => h ?_
  obtain ⟨t, rfl⟩ := hs
  simp [dll]

/-- The name is as long as its stem only where it is its stem. -/
theorem stem_eq_of_length {name : Name} (h : (stem name).length = name.length) : stem name = name := by
  rcases stem_cases name with hs | ⟨hs, -⟩
  · exact hs
  · have hlen : name.length = (stem name).length + 4 := by
      conv_lhs => rw [hs]
      simp [dll]
    omega

/-! ## Assemblies -/

theorem mem_assemblyIdents {a p : Name} : p ∈ assemblyIdents a ↔
    p = sanitizeDotChainName (stem a) ∨
      (sanitizeDotChainName (stem a) ≠ stem a ∧ '.' ∉ stem a) ∧ p = stem a := by
  rw [assemblyIdents, List.mem_cons]
  by_cases h : sanitizeDotChainName (stem a) ≠ stem a ∧ '.' ∉ stem a
  · simp [h]
  · rw [if_neg h]
    simp [h]

theorem dot_notMem_of_offered {a p : Name} (h : p ∈ assemblyIdents a) : '.' ∉ p := by
  rcases mem_assemblyIdents.mp h with rfl | ⟨⟨-, hdot⟩, rfl⟩
  · exact notMem_sanitize rfl _
  · exact hdot

theorem sanitize_of_offered {a p : Name} (h : p ∈ assemblyIdents a) :
    sanitizeDotChainName p = sanitizeDotChainName (stem a) := by
  rcases mem_assemblyIdents.mp h with rfl | ⟨-, rfl⟩
  · exact sanitize_sanitize _
  · rfl

theorem dot_notMem_unmangle {sep : Char} (hs : sep ≠ '.') {p : Name} (h : '.' ∉ p) : '.' ∉ unmangle sep p := by
  intro hmem
  obtain ⟨c, hc, hdot⟩ := List.mem_map.mp hmem
  by_cases hu : c = '_'
  · rw [if_pos hu] at hdot
    exact hs hdot
  · rw [if_neg hu] at hdot
    exact h (hdot ▸ hc)

theorem lookup_eq (names : List Name) (name : Name) : lookup names name = if name ∈ names then some name else none := by
  by_cases h : name ∈ names
  · rw [if_pos h]
    obtain ⟨b, hb⟩ := Option.isSome_iff_exists.mp (List.find?_isSome (p := (· = name)) |>.mpr ⟨name, h, by simp⟩)
    have hname : b = name := by simpa using List.find?_some hb
    exact hname ▸ hb
  · rw [if_neg h]
    exact List.find?_eq_none.mpr fun b hb hbn => h (of_decide_eq_true hbn ▸ hb)

section Assemblies

variable (lower : Name → Name) (inTarget : Name → Bool)

/-- The assemblies: without case, separators and `.dll` their names are still apart. -/
structure Assemblies where
  names : List Name
  distinct : (names.map fun a => lower (sanitizeDotChainName (stem a))).Nodup

/-- The name is the first that the search stops at. -/
def FirstMatch (names : List Name) (prop a : Name) : Prop :=
  ∃ front back, names = front ++ a :: back ∧ Matches lower prop a ∧ ∀ b ∈ front, ¬ Matches lower prop b

/-- The root proxy does not search for the name. -/
def Shadowed (prop : Name) : Prop := prop = "toString".toList ∨ isInternal prop = true ∨ inTarget prop = true

/-- One of the guesses, or else the search, is the assembly, and no other assembly has a guess for its full name. -/
def Reached (names : List Name) (a prop : Name) : Prop :=
  prop = stem a ∨ Only '-' (stem a) ∨
    ((unmangle '.' prop ∈ names → unmangle '.' prop = a) ∧ (Only '.' (stem a) ∨ FirstMatch lower names prop a))

variable {lower}

theorem Assemblies.eq_of_sanitize (A : Assemblies lower) {a b : Name} (ha : a ∈ A.names) (hb : b ∈ A.names)
    (h : sanitizeDotChainName (stem b) = sanitizeDotChainName (stem a)) : b = a :=
  List.inj_on_of_nodup_map A.distinct hb ha (congrArg lower h)

/-- An assembly under the guess `s`, or under `s` with `.dll`, is the one that `s` was made of. -/
theorem Assemblies.eq_of_guess (A : Assemblies lower) {a b s : Name} (ha : a ∈ A.names) (hb : b ∈ A.names)
    (hs : sanitizeDotChainName s = sanitizeDotChainName (stem a))
    (h : (b = s ∧ stem s = s) ∨ (b = s ++ dll ∧ s ≠ [])) : b = a := by
  apply A.eq_of_sanitize ha hb
  rcases h with ⟨rfl, hstem⟩ | ⟨rfl, hne⟩
  · rw [hstem, hs]
  · rw [stem_append_dll hne, hs]

theorem findAssembly_eq (names : List Name) (prop : Name) : findAssembly lower names prop =
    if prop ∈ names then some prop
    else if prop ++ dll ∈ names then some (prop ++ dll)
    else if unmangle '-' prop ∈ names then some (unmangle '-' prop)
    else if unmangle '-' prop ++ dll ∈ names then some (unmangle '-' prop ++ dll)
    else if unmangle '.' prop ∈ names then some (unmangle '.' prop)
    else if unmangle '.' prop ++ dll ∈ names then some (unmangle '.' prop ++ dll)
    else (names.find? fun aName => Matches lower prop aName).bind (lookup names) := by
  simp only [findAssembly, candidates, List.findSome?_cons, List.findSome?_nil, lookup_eq]
  split_ifs <;> rfl

theorem search_eq_some_iff (names : List Name) (prop a : Name) :
    (names.find? fun aName => Matches lower prop aName).bind (lookup names) = some a ↔
      FirstMatch lower names prop a := by
  have hback : (names.find? fun aName => Matches lower prop aName).bind (lookup names) =
      names.find? fun aName => Matches lower prop aName := by
    cases h : names.find? fun aName => Matches lower prop aName with
    | none => rfl
    | some b => rw [Option.bind_some, lookup_eq, if_pos (List.mem_of_find?_eq_some h)]
  rw [hback, List.find?_eq_some_iff_append]
  constructor
  · rintro ⟨hm, front, back, hsplit, hfront⟩
    exact ⟨front, back, hsplit, of_decide_eq_true hm, fun b hb => by simpa using hfront b hb⟩
  · rintro ⟨front, back, hsplit, hm, hfront⟩
    exact ⟨decide_eq_true hm, front, back, hsplit, fun b hb => by simpa using hfront b hb⟩

variable (A : Assemblies lower) {a p : Name} (ha : a ∈ A.names) (hp : p ∈ assemblyIdents a)

include ha hp

/-- The name itself and the name with hyphens never lead to another assembly. -/
theorem Assemblies.eq_of_early {b s : Name} (hb : b ∈ A.names) (hs : s = p ∨ s = unmangle '-' p)
    (h : b = s ∨ (b = s ++ dll ∧ s ≠ [])) : b = a := by
  have hdot : '.' ∉ s := by
    rcases hs with rfl | rfl
    · exact dot_notMem_of_offered hp
    · exact dot_notMem_unmangle (by decide) (dot_notMem_of_offered hp)
  have hsan : sanitizeDotChainName s = sanitizeDotChainName (stem a) := by
    rcases hs with rfl | rfl
    · exact sanitize_of_offered hp
    · rw [sanitize_unmangle rfl, sanitize_of_offered hp]
  exact A.eq_of_guess ha hb hsan (h.imp_left fun he => ⟨he, stem_of_dot_notMem hdot⟩)

/-- Where the stem is the name, or the name with hyphens, the guesses find the assembly. -/
theorem Assemblies.findAssembly_of_early (h : stem a = p ∨ stem a = unmangle '-' p) :
    findAssembly lower A.names p = some a := by
  -- an empty identifier is offered for the empty name alone, which is found at once
  have hne : p ∉ A.names → p ≠ [] := by
    rintro hout rfl
    have hstem : stem a = [] := by simpa [unmangle] using h
    rcases stem_cases a with he | ⟨-, he⟩
    · have hnil : a = [] := he.symm.trans hstem
      exact hout (hnil ▸ ha)
    · exact he hstem
  have hdashed : unmangle '-' p = [] → p = [] := by
    intro he
    exact List.map_eq_nil_iff.mp he
  have early {b s : Name} (hb : b ∈ A.names) := A.eq_of_early (b := b) (s := s) ha hp hb
  rw [findAssembly_eq]
  by_cases h₁ : p ∈ A.names
  · rw [if_pos h₁, early h₁ (.inl rfl) (.inl rfl)]
  rw [if_neg h₁]
  by_cases h₂ : p ++ dll ∈ A.names
  · rw [if_pos h₂, early h₂ (.inl rfl) (.inr ⟨rfl, hne h₁⟩)]
  rw [if_neg h₂]
  by_cases h₃ : unmangle '-' p ∈ A.names
  · rw [if_pos h₃, early h₃ (.inr rfl) (.inl rfl)]
  rw [if_neg h₃]
  by_cases h₄ : unmangle '-' p ++ dll ∈ A.names
  · rw [if_pos h₄, early h₄ (.inr rfl) (.inr ⟨rfl, fun he => hne h₁ (hdashed he)⟩)]
  -- the assembly has one of the four names
  rcases stem_cases a with he | ⟨he, -⟩ <;> rcases h with h | h
  · exact absurd (h ▸ he.symm ▸ ha) h₁
  · exact absurd (h ▸ he.symm ▸ ha) h₃
  · exact absurd (h ▸ he ▸ ha) h₂
  · exact absurd (h ▸ he ▸ ha) h₄

theorem Assemblies.findAssembly_of_late (h : stem a ≠ p) (hdash : stem a ≠ unmangle '-' p) :
    findAssembly lower A.names p =
      if unmangle '.' p ∈ A.names then some (unmangle '.' p)
      else if unmangle '.' p ++ dll ∈ A.names then some (unmangle '.' p ++ dll)
      else (A.names.find? fun aName => Matches lower p aName).bind (lookup A.names) := by
  have hlen : (stem a).length = p.length := by
    have hl := congrArg List.length (sanitize_of_offered hp)
    rw [sanitize_length, sanitize_length] at hl
    exact hl.symm
  have hne : p ≠ [] := by
    rintro rfl
    exact h (List.length_eq_zero_iff.mp hlen)
  have out {s : Name} (hs : s = p ∨ s = unmangle '-' p) : s ∉ A.names ∧ s ++ dll ∉ A.names := by
    have hstem : stem a ≠ s := by
      rcases hs with rfl | rfl
      · exact h
      · exact hdash
    have hdot : '.' ∉ s := by
      rcases hs with rfl | rfl
      · exact dot_notMem_of_offered hp
      · exact dot_notMem_unmangle (by decide) (dot_notMem_of_offered hp)
    have hsne : s ≠ [] := by
      rcases hs with rfl | rfl
      · exact hne
      · exact fun he => hne (List.map_eq_nil_iff.mp he)
    constructor
    · intro hb
      have he := A.eq_of_early ha hp hb hs (.inl rfl)
      exact hstem (he ▸ stem_of_dot_notMem hdot)
    · intro hb
      have he := A.eq_of_early ha hp hb hs (.inr ⟨rfl, hsne⟩)
      exact hstem (he ▸ stem_append_dll hsne)
  rw [findAssembly_eq, if_neg (out (.inl rfl)).1, if_neg (out (.inl rfl)).2, if_neg (out (.inr rfl)).1,
    if_neg (out (.inr rfl)).2]

/-- What the guess with dots is: the assembly where the stem has no other separator. -/
theorem Assemblies.dotted_iff (h : stem a ≠ p) (hin : unmangle '.' p ∉ A.names) :
    unmangle '.' p ++ dll ∈ A.names ↔ Only '.' (stem a) := by
  have hsan : p = sanitizeDotChainName (stem a) := by
    rcases mem_assemblyIdents.mp hp with he | ⟨-, he⟩
    · exact he
    · exact absurd he.symm h
  rw [← unmangle_sanitize_iff, ← hsan]
  have hne : unmangle '.' p ≠ [] := by
    intro he
    have hnil : p = [] := List.map_eq_nil_iff.mp he
    apply h
    have hstem : (stem a).length = 0 := by rw [← sanitize_length, ← hsan, hnil, List.length_nil]
    rw [List.length_eq_zero_iff.mp hstem, hnil]
  constructor
  · intro hb
    have he := A.eq_of_guess (s := unmangle '.' p) ha hb
      (by rw [sanitize_unmangle rfl, sanitize_of_offered hp]) (.inr ⟨rfl, hne⟩)
    rw [← he, stem_append_dll hne]
  · intro he
    rcases stem_cases a with hs | ⟨hs, -⟩
    · have hname : a = unmangle '.' p := hs.symm.trans he.symm
      exact absurd (hname ▸ ha) hin
    · have hname : a = unmangle '.' p ++ dll := by rw [he, ← hs]
      exact hname ▸ ha

theorem Assemblies.findAssembly_eq_some_iff :
    findAssembly lower A.names p = some a ↔ Reached lower A.names a p := by
  by_cases hstem : stem a = p
  · simp only [A.findAssembly_of_early ha hp (.inl hstem), true_iff]
    exact .inl hstem.symm
  have hsan : p = sanitizeDotChainName (stem a) := by
    rcases mem_assemblyIdents.mp hp with he | ⟨-, he⟩
    · exact he
    · exact absurd he.symm hstem
  have hdashed : stem a = unmangle '-' p ↔ Only '-' (stem a) := by
    rw [← unmangle_sanitize_iff, ← hsan, eq_comm]
  by_cases hdash : stem a = unmangle '-' p
  · simp only [A.findAssembly_of_early ha hp (.inr hdash), true_iff]
    exact .inr (.inl (hdashed.mp hdash))
  have hreached : Reached lower A.names a p ↔
      (unmangle '.' p ∈ A.names → unmangle '.' p = a) ∧ (Only '.' (stem a) ∨ FirstMatch lower A.names p a) := by
    rw [Reached, ← hdashed]
    simp only [Ne.symm hstem, hdash, false_or]
  rw [hreached, A.findAssembly_of_late ha hp hstem hdash]
  by_cases hin : unmangle '.' p ∈ A.names
  · rw [if_pos hin, Option.some_inj]
    simp only [hin, forall_const]
    constructor
    · intro he
      -- the full name is as long as the stem, so that it is the stem
      have hlen : (stem a).length = a.length :=
        calc (stem a).length = p.length := by rw [hsan, sanitize_length]
          _ = (unmangle '.' p).length := (unmangle_length '.' p).symm
          _ = a.length := congrArg List.length he
      refine ⟨he, .inl ?_⟩
      rw [← unmangle_sanitize_iff, ← hsan, he, stem_eq_of_length hlen]
    · exact fun hr => hr.1
  rw [if_neg hin]
  have hdotted := A.dotted_iff ha hp hstem hin
  by_cases hdll : unmangle '.' p ++ dll ∈ A.names
  · rw [if_pos hdll]
    have hne : unmangle '.' p ≠ [] := by
      intro he
      have hlen : (stem a).length = 0 := by rw [← sanitize_length, ← hsan, ← unmangle_length '.' p, he, List.length_nil]
      exact hstem (by rw [List.length_eq_zero_iff.mp hlen, List.map_eq_nil_iff.mp he])
    have he := A.eq_of_guess (s := unmangle '.' p) ha hdll
      (by rw [sanitize_unmangle rfl, sanitize_of_offered hp]) (.inr ⟨rfl, hne⟩)
    simp only [he, true_iff]
    exact ⟨fun h => absurd h hin, .inl (hdotted.mp hdll)⟩
  · rw [if_neg hdll, search_eq_some_iff]
    simp [hin, mt hdotted.mpr hdll]

/-- An identifier reaches the assembly that it is offered for exactly where no property of the proxied function has its
name, and one of the guesses or the search gets to it. -/
theorem Assemblies.rootGet_eq_iff :
    rootGet lower inTarget A.names p = .resolved a ↔ ¬ Shadowed inTarget p ∧ Reached lower A.names a p := by
  rw [← A.findAssembly_eq_some_iff ha hp, rootGet]
  by_cases hown : p = "__unity_kind".toList ∨ p = "__ptr".toList ∨ p = "toString".toList
  · have hsh : Shadowed inTarget p := by
      rcases hown with rfl | rfl | rfl
      · exact .inr (.inl rfl)
      · exact .inr (.inl rfl)
      · exact .inl rfl
    rw [if_pos hown]
    simp [hsh]
  rw [if_neg hown]
  by_cases hint : isInternal p = true
  · have hsh : Shadowed inTarget p := .inr (.inl hint)
    rw [if_pos hint]
    simp [hsh]
  rw [if_neg hint]
  by_cases htar : inTarget p = true
  · have hsh : Shadowed inTarget p := .inr (.inr htar)
    rw [if_pos htar]
    simp [hsh]
  rw [if_neg htar]
  have hsh : ¬ Shadowed inTarget p := by
    rintro (h | h | h)
    · exact hown (.inr (.inr h))
    · exact hint h
    · exact htar h
  cases findAssembly lower A.names p with
  | none => simp
  | some b => simp [hsh]

end Assemblies

/-! ## Classes -/

/-- The classes of an assembly: without case and separators their names are still apart. -/
structure Classes (lower : Name → Name) where
  names : List Name
  distinct : (names.map fun c => lower (sanitizeDotChainName c)).Nodup

theorem mem_classIdents {c p : Name} :
    p ∈ classIdents c ↔ p = sanitizeDotChainName c ∧ isJsIdentifier (sanitizeDotChainName c) = true := by
  rw [classIdents]
  split
  · rename_i h
    simp [h]
  · rename_i h
    simp [h]

/-- Every separator and every underscore of the name is the same character. -/
def Uniform (c : Name) : Prop := ∃ sep ∈ ['_', '.', '/', '-'], Only sep c

/-- The guesses so far have found nothing or the class, and the class if it is under the identifier itself. -/
def Sound (p c : Name) (cls : Option Name) : Prop := (cls = none ∨ cls = some c) ∧ (p = c → cls = some c)

section Classes

variable {lower : Name → Name} (C : Classes lower) {c : Name} (hc : c ∈ C.names)

include hc

/-- A class under a guess is the one that the identifier was made of. -/
theorem Classes.lookup_guess {s : Name} (hs : sanitizeDotChainName s = sanitizeDotChainName c) :
    lookup C.names s = if s = c then some c else none := by
  rw [lookup_eq]
  by_cases hin : s ∈ C.names
  · have he : s = c := List.inj_on_of_nodup_map C.distinct hin hc (congrArg lower hs)
    rw [if_pos hin, if_pos he, he]
  · have hne : s ≠ c := fun he => hin (he ▸ hc)
    rw [if_neg hin, if_neg hne]

theorem Classes.orGuess_sound {cls : Option Name} {sep : Char} (hsep : isSeparator sep = true)
    (h : Sound (sanitizeDotChainName c) c cls) :
    Sound (sanitizeDotChainName c) c (orGuess C.names (sanitizeDotChainName c) cls sep) ∧
      (orGuess C.names (sanitizeDotChainName c) cls sep = some c ↔ cls = some c ∨ Only sep c) := by
  obtain ⟨hcls, hself⟩ := h
  rcases hcls with rfl | rfl
  · -- the identifier is not the name, so that a guess that is the name differs from it
    have hne : sanitizeDotChainName c ≠ c := fun he => nomatch hself he
    rw [← unmangle_sanitize_iff]
    by_cases hchanged : '_' ∈ sanitizeDotChainName c ∧
        unmangle sep (sanitizeDotChainName c) ≠ sanitizeDotChainName c
    · have hguess : sanitizeDotChainName (unmangle sep (sanitizeDotChainName c)) = sanitizeDotChainName c := by
        rw [sanitize_unmangle hsep, sanitize_sanitize]
      simp only [orGuess, if_pos hchanged, C.lookup_guess hc hguess]
      by_cases he : unmangle sep (sanitizeDotChainName c) = c
      · simp [Sound, he]
      · simp [Sound, he, hne]
    · have hsame : unmangle sep (sanitizeDotChainName c) = sanitizeDotChainName c := by
        by_cases hu : '_' ∈ sanitizeDotChainName c
        · exact not_not.mp fun hs => hchanged ⟨hu, hs⟩
        · exact unmangle_of_notMem hu sep
      simp only [orGuess, hsame]
      simp [Sound, hne]
  · simp [orGuess, Sound]

theorem Classes.foldl_orGuess_iff (seps : List Char) (hseps : ∀ sep ∈ seps, isSeparator sep = true)
    {cls : Option Name} (h : Sound (sanitizeDotChainName c) c cls) :
    seps.foldl (orGuess C.names (sanitizeDotChainName c)) cls = some c ↔
      cls = some c ∨ ∃ sep ∈ seps, Only sep c := by
  induction seps generalizing cls with
  | nil => simp
  | cons sep seps ih =>
    obtain ⟨hsound, hstep⟩ := C.orGuess_sound hc (hseps sep (.head _)) h
    rw [List.foldl_cons, ih (fun s hs => hseps s (.tail _ hs)) hsound, hstep]
    simp only [List.mem_cons, exists_eq_or_imp, or_assoc]

theorem Classes.findClass_eq_some_iff : findClass C.names (sanitizeDotChainName c) = some c ↔ Uniform c := by
  have hstart : lookup C.names (sanitizeDotChainName c) = if sanitizeDotChainName c = c then some c else none :=
    C.lookup_guess hc (sanitize_sanitize c)
  have hself : sanitizeDotChainName c = c ↔ Only '_' c := by
    rw [← unmangle_sanitize_iff, unmangle_underscore]
  have hsound : Sound (sanitizeDotChainName c) c (lookup C.names (sanitizeDotChainName c)) := by
    rw [hstart]
    by_cases he : sanitizeDotChainName c = c
    · simp [Sound, he]
    · simp [Sound, he]
  have huniform : Uniform c ↔ Only '_' c ∨ ∃ sep ∈ ['.', '/', '-'], Only sep c := List.exists_mem_cons_iff ..
  rw [findClass, C.foldl_orGuess_iff hc ['.', '/', '-'] (by simp [isSeparator]) hsound, hstart, huniform, ← hself]
  by_cases he : sanitizeDotChainName c = c
  · simp [he]
  · simp [he]

/-- An identifier reaches the class that it is offered for exactly where it does not start with two underscores and the
class has separators of one kind. -/
theorem Classes.classGet_eq_iff (inTarget : Name → Bool) {p : Name} (hp : p ∈ classIdents c) :
    classGet inTarget C.names p = .resolved c ↔ isInternal p = false ∧ Uniform c := by
  obtain ⟨rfl, -⟩ := mem_classIdents.mp hp
  rw [← C.findClass_eq_some_iff hc, classGet]
  by_cases hint : isInternal (sanitizeDotChainName c) = true
  · simp [hint]
  rw [if_neg hint]
  have hint' : isInternal (sanitizeDotChainName c) = false := by simpa using hint
  cases findClass C.names (sanitizeDotChainName c) with
  | none =>
    by_cases htar : inTarget (sanitizeDotChainName c) = true
    · simp [htar]
    · simp [htar]
  | some b => simp [hint']

end Classes

/-! ## Every name -/

/-- Each identifier offered for an assembly or a class leads to it. -/
def NamesResolve (lower : Name → Name) (rootHas asmHas : Name → Bool) (A : Assemblies lower) (C : Classes lower) : Prop :=
  (∀ a ∈ A.names, ∀ p ∈ assemblyIdents a, rootGet lower rootHas A.names p = .resolved a) ∧
    ∀ c ∈ C.names, ∀ p ∈ classIdents c, classGet asmHas C.names p = .resolved c

/-- Which of the identifiers do. -/
theorem names_resolve_iff (lower : Name → Name) (rootHas asmHas : Name → Bool) (A : Assemblies lower)
    (C : Classes lower) :
    (∀ a ∈ A.names, ∀ p ∈ assemblyIdents a, rootGet lower rootHas A.names p = .resolved a ↔
      ¬ Shadowed rootHas p ∧ Reached lower A.names a p) ∧
    (∀ c ∈ C.names, ∀ p ∈ classIdents c, classGet asmHas C.names p = .resolved c ↔
      isInternal p = false ∧ Uniform c) :=
  ⟨fun _ ha _ hp => A.rootGet_eq_iff rootHas ha hp, fun _ hc _ hp => C.classGet_eq_iff hc asmHas hp⟩

def projectAssemblies : Assemblies (List.map Char.toLower) where
  names := ["mscorlib.dll".toList, "Assembly-CSharp.dll".toList, "Unity.Timeline-Editor.dll".toList]
  distinct := by decide

def projectClasses : Classes (List.map Char.toLower) where
  names := ["<Module>".toList, "Outer/Inner".toList]
  distinct := by decide

theorem names_resolve_project :
    rootGet (List.map Char.toLower) (fun _ => false) projectAssemblies.names "Unity_Timeline_Editor".toList =
        .resolved "Unity.Timeline-Editor.dll".toList ∧
      classGet (fun _ => false) projectClasses.names "Outer_Inner".toList = .resolved "Outer/Inner".toList := by
  have h := names_resolve_iff (List.map Char.toLower) (fun _ => false) (fun _ => false) projectAssemblies projectClasses
  refine ⟨(h.1 _ (by decide) _ (by decide)).mpr ⟨?_, .inr (.inr ⟨?_, .inr ⟨projectAssemblies.names.take 2, [], rfl, ?_, ?_⟩⟩)⟩,
    (h.2 _ (by decide) _ (by decide)).mpr ⟨rfl, '/', by decide, by decide⟩⟩
  · rintro (h | h | h) <;> exact absurd h (by decide)
  · exact fun h => absurd h (by decide)
  · decide
  · decide

/-- A class of generated code. -/
def generatedClasses : Classes (List.map Char.toLower) where
  names := ["__JobReflectionRegistrationOutput__1".toList]
  distinct := by decide

/-- It is offered, and the proxy takes the name for one of its own. -/
theorem not_names_resolve : ¬ ∀ (lower : Name → Name) (rootHas asmHas : Name → Bool) (A : Assemblies lower)
    (C : Classes lower), NamesResolve lower rootHas asmHas A C := by
  intro h
  have hclass := (h _ (fun _ => false) (fun _ => false) projectAssemblies generatedClasses).2
    "__JobReflectionRegistrationOutput__1".toList (by decide) "__JobReflectionRegistrationOutput__1".toList (by decide)
  exact absurd hclass (by decide)

end ArtPi.Unity.Names
