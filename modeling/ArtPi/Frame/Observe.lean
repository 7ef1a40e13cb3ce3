import ArtPi.Frame.Original
import ArtPi.Lib.ModifiedUtf8

set_option autoImplicit false

/-! # A callback that only looks (`src/agent/agent_java_hook.cpp`)

Before a JavaScript callback runs, every argument of the call is made a JavaScript value; behind it,
every value of the array is written back into the frame, changed or not. `transparent_iff` says for
which arguments the way there and back is the identity. It is not for strings that do not look like
text, because the text of an argument comes from the function that formats it for the log, and not
for a null string, which comes back as the text `null`. -/

namespace ArtPi.Frame

open ArtPi.Lib

/-! ## Text -/

def isContinuation (b : UInt8) : Bool := b &&& 0xC0 == 0x80

/-- Not a control character, a surrogate, in private use, or a halfwidth form or special. -/
def isTextCodePoint (cp : Nat) : Bool :=
  !(cp < 0x20 || cp == 0x7F) && !(0x80 ≤ cp && cp ≤ 0x9F) && !(0xD800 ≤ cp && cp ≤ 0xDFFF) &&
    !(0xE000 ≤ cp && cp ≤ 0xF8FF) && !(0xFF80 ≤ cp && cp ≤ 0xFFFF)

/-- One more continuation byte of a code point. -/
def addContinuation (cp : Nat) (b : UInt8) : Nat := cp <<< 6 ||| (b &&& 0x3F).toNat

def looksLikeText : List UInt8 → Bool
  | [] => true
  | c :: rest =>
    if c < 0x80 then isTextCodePoint c.toNat && looksLikeText rest
    else if c &&& 0xE0 == 0xC0 then
      match rest with
      | b₁ :: rest =>
        isContinuation b₁ && isTextCodePoint (addContinuation (c &&& 0x1F).toNat b₁) &&
          looksLikeText rest
      | _ => false
    else if c &&& 0xF0 == 0xE0 then
      match rest with
      | b₁ :: b₂ :: rest =>
        isContinuation b₁ && isContinuation b₂ &&
          isTextCodePoint (addContinuation (addContinuation (c &&& 0x0F).toNat b₁) b₂) &&
          looksLikeText rest
      | _ => false
    else if c &&& 0xF8 == 0xF0 then
      match rest with
      | b₁ :: b₂ :: b₃ :: rest =>
        isContinuation b₁ && isContinuation b₂ && isContinuation b₃ &&
          isTextCodePoint (addContinuation
            (addContinuation (addContinuation (c &&& 0x07).toNat b₁) b₂) b₃) &&
          looksLikeText rest
      | _ => false
    else false

def hexDigit (n : Nat) : UInt8 := UInt8.ofNat (if n < 10 then 0x30 + n else 0x61 + (n - 10))

/-- `"\\x%02x"`. -/
def escapeByte (c : UInt8) : List UInt8 :=
  if 0x20 ≤ c ∧ c < 0x7F then [c]
  else [0x5C, 0x78, hexDigit (c.toNat / 16), hexDigit (c.toNat % 16)]

def sanitizeForLog (s : List UInt8) : List UInt8 :=
  if s.isEmpty || looksLikeText s then s else s.flatMap escapeByte

/-- The bytes of `"null"`. -/
def nullText : List UInt8 := [0x6E, 0x75, 0x6C, 0x6C]

/-- A printable ASCII character. -/
def IsPrintable (c : UInt8) : Prop := 0x20 ≤ c.toNat ∧ c.toNat < 0x7F

/-- The strings of ART and of the JavaScript engine at their C interfaces: `GetStringUTFChars` and
    `NewStringUTF`, `JS_NewString` and `JS_ToCString`. Both directions are inverse where the code
    needs it: for every Java string, for printable ASCII, and for the encoding of a Java string that
    is text. -/
structure Strings (σ : Type) where
  getStringUTFChars : List UInt16 → List UInt8
  newStringUTF : List UInt8 → List UInt16
  jsNewString : List UInt8 → σ
  jsToCString : σ → List UInt8
  new_get : ∀ s, newStringUTF (getStringUTFChars s) = s
  get_new : ∀ b, (∀ c ∈ b, IsPrintable c) → getStringUTFChars (newStringUTF b) = b
  js_roundTrip : ∀ s, looksLikeText (getStringUTFChars s) = true →
    jsToCString (jsNewString (getStringUTFChars s)) = getStringUTFChars s

/-! ## Arguments and JavaScript values -/

/-- What an argument becomes; numbers are given by their bits. -/
inductive JsValue (σ : Type) where
  | int32 (bits : Nat)
  | bool (b : Bool)
  | bigInt64 (bits : Nat)
  | float64 (bits : Nat)
  | string (s : σ)
  | object

/-- The frame and the contents of the strings in the heap. -/
structure Observed where
  frame : CallFrame
  chars : Nat → List UInt16

section Conversions

variable {σ : Type} (refs : LocalRefs) (strings : Strings σ) (fresh : Nat → Nat)

/-- `CallFrame::getArgString` of a `String`. -/
def getArgString (o : Observed) (i : Nat) : List UInt8 :=
  if o.frame.getArg refs i = 0 then nullText
  else sanitizeForLog
    (strings.getStringUTFChars (o.chars (refs.decodeJObject (o.frame.getArg refs i))))

def jsValueFromFrameArg (o : Observed) (i : Nat) (t : JType) : JsValue σ :=
  match t with
  | .int | .short | .byte | .char => .int32 (o.frame.getArgRaw i % 2 ^ 32)
  | .boolean => .bool (o.frame.getArgRaw i ≠ 0)
  | .long => .bigInt64 (o.frame.getArgRaw i)
  | .float | .double => .float64 (o.frame.getArgRaw i)
  | .object _ | .array _ =>
    if t = .string then .string (strings.jsNewString (getArgString refs strings o i)) else .object

/-- Stores a value the argument was converted to; `fresh i` is where `NewStringUTF` puts the string
    for the `i`-th argument. The other pairs of a type and a value only arise when a callback has put
    something else into its array. -/
def jsValueToFrameArg (o : Observed) (i : Nat) (t : JType) (v : JsValue σ) : Observed :=
  match t, v with
  | .int, .int32 bits | .short, .int32 bits | .byte, .int32 bits | .char, .int32 bits =>
    { o with frame := o.frame.setArgRaw i bits }
  | .boolean, .bool b => { o with frame := o.frame.setArgRaw i (if b then 1 else 0) }
  | .long, .bigInt64 bits => { o with frame := o.frame.setArgRaw i bits }
  | .float, .float64 bits | .double, .float64 bits => { o with frame := o.frame.setArgRaw i bits }
  | .object className, .string s =>
    if JType.object className = .string then
      { frame := o.frame.setArgRaw i (fresh i)
        chars := Function.update o.chars (fresh i) (strings.newStringUTF (strings.jsToCString s)) }
    else o
  | _, _ => o

/-- The way back of the `i`-th argument, whose value was made in the state `o₀`. -/
def writeBackArg (o₀ o : Observed) (i : Nat) : Observed :=
  match o₀.frame.argTypes[i]? with
  | some t => jsValueToFrameArg strings fresh o i t (jsValueFromFrameArg refs strings o₀ i t)
  | none => o

/-- The two loops around a callback that changes nothing and sets no result; they are the same for a
    single callback and for the first one of an enter/leave pair. -/
def writeBack (o₀ : Observed) : Observed :=
  (List.range o₀.frame.argCount).foldl (writeBackArg refs strings fresh o₀) o₀

end Conversions

/-! ## The property and its condition -/

/-- A primitive argument has the same bits, and a reference is null as before or refers to the same
    text. -/
def SameArg (o o' : Observed) (i : Nat) (t : JType) : Prop :=
  if t.isRef then
    (o'.frame.value i t = 0 ↔ o.frame.value i t = 0) ∧
      (o.frame.value i t ≠ 0 → o'.chars (o'.frame.value i t) = o.chars (o.frame.value i t))
  else o'.frame.value i t = o.frame.value i t

def Transparent (o o' : Observed) : Prop :=
  ∀ i t, o.frame.argTypes[i]? = some t → SameArg o o' i t

/-- `NewStringUTF` makes new objects in the heap. -/
structure FreshStrings (o : Observed) (fresh : Nat → Nat) : Prop where
  heap : ∀ i, i < o.frame.argCount → IsHeapAddr (fresh i)
  new : ∀ i j t, i < o.frame.argCount → o.frame.argTypes[j]? = some t → t.isRef = true →
    o.frame.value j t ≠ fresh i
  inj : ∀ i j, i < o.frame.argCount → j < o.frame.argCount → fresh i = fresh j → i = j

/-- A `boolean` is zero in all bits that are read of it, or one; a `String` is not null and its bytes
    look like text. -/
def ArgObservable {σ : Type} (strings : Strings σ) (o : Observed) (i : Nat) (t : JType) : Prop :=
  (t = .boolean → o.frame.getArgRaw i = 0 ∨ o.frame.value i t = 1) ∧
    (t = .string → o.frame.value i t ≠ 0 ∧
      looksLikeText (strings.getStringUTFChars (o.chars (o.frame.value i t))) = true)

/-! ## Text is kept -/

theorem looksLikeText_of_printable (b : List UInt8) (h : ∀ c ∈ b, IsPrintable c) :
    looksLikeText b = true := by
  induction b with
  | nil => rfl
  | cons c b ih =>
    obtain ⟨hge, hlt⟩ := h c List.mem_cons_self
    have hascii : c < 0x80 := UInt8.lt_iff_toNat_lt.2 (Nat.lt_trans hlt (by decide))
    have htext : isTextCodePoint c.toNat = true := by
      unfold isTextCodePoint
      simp
      omega
    conv_lhs => unfold looksLikeText
    rw [if_pos hascii, htext, ih (fun d hd => h d (List.mem_cons_of_mem _ hd))]
    rfl

theorem isPrintable_escapeByte (c d : UInt8) (hd : d ∈ escapeByte c) : IsPrintable d := by
  unfold escapeByte at hd
  split at hd
  · rename_i hprintable
    obtain rfl := List.mem_singleton.1 hd
    exact ⟨UInt8.le_iff_toNat_le.1 hprintable.1, UInt8.lt_iff_toNat_lt.1 hprintable.2⟩
  · have hhex : ∀ n < 16, IsPrintable (hexDigit n) := by
      intro n hn
      have hlt : (if n < 10 then 0x30 + n else 0x61 + (n - 10)) < 256 := by split <;> omega
      unfold IsPrintable hexDigit
      rw [UInt8.toNat_ofNat_of_lt' hlt]
      split <;> omega
    have hc := c.toNat_lt
    simp only [List.mem_cons, List.not_mem_nil, or_false] at hd
    rcases hd with rfl | rfl | rfl | rfl
    · exact ⟨by decide, by decide⟩
    · exact ⟨by decide, by decide⟩
    · exact hhex _ (by omega)
    · exact hhex _ (by omega)

theorem sanitizeForLog_cases (s : List UInt8) :
    (looksLikeText s = true ∧ sanitizeForLog s = s) ∨
      (looksLikeText s = false ∧ ∀ c ∈ sanitizeForLog s, IsPrintable c) := by
  unfold sanitizeForLog
  cases htext : looksLikeText s with
  | true => exact Or.inl ⟨rfl, by simp⟩
  | false =>
    have hempty : s.isEmpty = false := by
      cases s with
      | nil => exact absurd htext (by simp [looksLikeText])
      | cons c s => rfl
    refine Or.inr ⟨rfl, fun d hd => ?_⟩
    simp only [hempty, Bool.or_self, Bool.false_eq_true, if_false] at hd
    obtain ⟨c, -, hc⟩ := List.mem_flatMap.1 hd
    exact isPrintable_escapeByte c d hc

/-! ## One argument -/

section Argument

variable {σ : Type} (refs : LocalRefs) (strings : Strings σ) (fresh : Nat → Nat)

/-- What is written for an argument, if anything is. -/
def written (o : Observed) (i : Nat) (t : JType) : Option Nat :=
  match t with
  | .int | .short | .byte | .char => some (o.frame.getArgRaw i % 2 ^ 32)
  | .boolean => some (if o.frame.getArgRaw i ≠ 0 then 1 else 0)
  | .long | .float | .double => some (o.frame.getArgRaw i)
  | .object _ | .array _ => if t = .string then some (fresh i) else none

/-- The contents of the string made for an argument. -/
def writtenChars (o : Observed) (i : Nat) : List UInt16 :=
  strings.newStringUTF (strings.jsToCString (strings.jsNewString (getArgString refs strings o i)))

/-- The way back of one argument writes its slot, and for a `String` makes a new one. -/
theorem writeBackArg_eq {o₀ : Observed} {i : Nat} {t : JType}
    (hget : o₀.frame.argTypes[i]? = some t) (o : Observed) :
    writeBackArg refs strings fresh o₀ o i
      = { frame := ((written fresh o₀ i t).map (o.frame.setArgRaw i)).getD o.frame
          chars := if t = .string then
              Function.update o.chars (fresh i) (writtenChars refs strings o₀ i)
            else o.chars } := by
  unfold writeBackArg
  rw [hget]
  unfold written jsValueFromFrameArg
  cases t with
  | object className =>
    simp only
    by_cases hstring : JType.object className = .string
    · rw [if_pos hstring, if_pos hstring, if_pos hstring]
      simp only [jsValueToFrameArg]
      rw [if_pos hstring]
      rfl
    · rw [if_neg hstring, if_neg hstring, if_neg hstring]
      rfl
  | boolean =>
    -- the test for zero is a proposition on one side and a Boolean on the other
    simp [jsValueToFrameArg, JType.string]
  | byte | char | short | int | long | float | double | array _ => rfl

/-- The value of an argument behind the way back. -/
def valueBehind (o : Observed) (i : Nat) (t : JType) : Nat :=
  ((written fresh o i t).map (· % 2 ^ t.bits)).getD (o.frame.value i t)

end Argument

/-! ## All arguments -/

section Loop

variable {σ : Type} {refs : LocalRefs} {strings : Strings σ} {fresh : Nat → Nat}

/-- The first `k` arguments are written back. -/
structure WrittenBack (refs : LocalRefs) (strings : Strings σ) (fresh : Nat → Nat)
    (o₀ o : Observed) (k : Nat) : Prop where
  types : o.frame.argTypes = o₀.frame.argTypes
  ahead : ∀ j t, o₀.frame.argTypes[j]? = some t → k ≤ j →
    o.frame.value j t = o₀.frame.value j t
  behind : ∀ j t, o₀.frame.argTypes[j]? = some t → j < k →
    o.frame.value j t = valueBehind fresh o₀ j t
  kept : ∀ a, (∀ j, j < o₀.frame.argCount → a ≠ fresh j) → o.chars a = o₀.chars a
  made : ∀ j, o₀.frame.argTypes[j]? = some .string → j < k →
    o.chars (fresh j) = writtenChars refs strings o₀ j

theorem argTypes_setArgRaw (f : CallFrame) (i v : Nat) :
    (f.setArgRaw i v).argTypes = f.argTypes := by
  unfold CallFrame.setArgRaw
  split
  · rfl
  · simp only
    split <;> rfl

theorem WrittenBack.step {o₀ o : Observed} {k : Nat}
    (hinj : ∀ i j, i < o₀.frame.argCount → j < o₀.frame.argCount → fresh i = fresh j → i = j)
    (h : WrittenBack refs strings fresh o₀ o k) (hk : k < o₀.frame.argCount) :
    WrittenBack refs strings fresh o₀ (writeBackArg refs strings fresh o₀ o k) (k + 1) := by
  obtain ⟨u, hu⟩ : ∃ u, o₀.frame.argTypes[k]? = some u := ⟨_, List.getElem?_eq_getElem hk⟩
  have hframe := congrArg Observed.frame (writeBackArg_eq refs strings fresh hu o)
  have hchars := congrArg Observed.chars (writeBackArg_eq refs strings fresh hu o)
  dsimp only at hframe hchars
  have hu' : o.frame.argTypes[k]? = some u := by rw [h.types, hu]
  have hne : ∀ j t, o₀.frame.argTypes[j]? = some t → j ≠ k →
      (writeBackArg refs strings fresh o₀ o k).frame.value j t = o.frame.value j t := by
    intro j t hj hjk
    rw [hframe]
    cases written fresh o₀ k u with
    | none => rfl
    | some v =>
      exact o.frame.value_setArgRaw_of_ne hu' (by rw [h.types, hj]) (Ne.symm hjk) v
  -- the `k`-th argument is where it was before its own step, and the others do not notice it
  constructor
  · rw [hframe]
    cases written fresh o₀ k u with
    | none => exact h.types
    | some v => exact (argTypes_setArgRaw _ _ _).trans h.types
  · intro j t hj hkj
    rw [hne j t hj (by omega)]
    exact h.ahead j t hj (by omega)
  · intro j t hj hjk
    by_cases hjk' : j = k
    · subst hjk'
      obtain rfl : u = t := Option.some.inj (hu.symm.trans hj)
      unfold valueBehind
      rw [hframe]
      cases hwritten : written fresh o₀ j u with
      | none => exact h.ahead j u hu (Nat.le_refl j)
      | some v => exact o.frame.value_setArgRaw hu' v
    · rw [hne j t hj hjk']
      exact h.behind j t hj (by omega)
  · intro a ha
    rw [hchars]
    split
    · rw [Function.update_of_ne (ha k hk)]
      exact h.kept a ha
    · exact h.kept a ha
  · intro j hj hjk
    rw [hchars]
    by_cases hjk' : j = k
    · subst hjk'
      obtain rfl : u = .string := Option.some.inj (hu.symm.trans hj)
      rw [if_pos rfl, Function.update_self]
    · have hlt : j < o₀.frame.argCount := (List.getElem?_eq_some_iff.1 hj).1
      have hfresh : fresh j ≠ fresh k := fun heq => hjk' (hinj j k hlt hk heq)
      have hmade := h.made j hj (by omega)
      split
      · rw [Function.update_of_ne hfresh]
        exact hmade
      · exact hmade

theorem writeBack_spec (refs : LocalRefs) (strings : Strings σ) (o₀ : Observed)
    (hinj : ∀ i j, i < o₀.frame.argCount → j < o₀.frame.argCount → fresh i = fresh j → i = j) :
    WrittenBack refs strings fresh o₀ (writeBack refs strings fresh o₀) o₀.frame.argCount := by
  have hrange : ∀ k ≤ o₀.frame.argCount, WrittenBack refs strings fresh o₀
      ((List.range k).foldl (writeBackArg refs strings fresh o₀) o₀) k := by
    intro k
    induction k with
    | zero =>
      intro _
      exact ⟨rfl, fun _ _ _ _ => rfl, fun _ _ _ h => absurd h (by omega), fun _ _ => rfl,
        fun _ _ h => absurd h (by omega)⟩
    | succ k ih =>
      intro hk
      rw [List.range_succ, List.foldl_append, List.foldl_cons, List.foldl_nil]
      exact (ih (by omega)).step hinj (by omega)
  exact hrange _ (Nat.le_refl _)

/-! ## When an argument is the same -/

/-- A text goes through the engine and back iff it looks like text. -/
theorem formatted_iff (strings : Strings σ) (s : List UInt16) :
    strings.newStringUTF (strings.jsToCString (strings.jsNewString
        (sanitizeForLog (strings.getStringUTFChars s)))) = s ↔
      looksLikeText (strings.getStringUTFChars s) = true := by
  rcases sanitizeForLog_cases (strings.getStringUTFChars s) with ⟨htext, hsame⟩ | ⟨htext, hprint⟩
  · rw [hsame, strings.js_roundTrip s htext, strings.new_get]
    exact ⟨fun _ => htext, fun _ => rfl⟩
  · -- what is not text is escaped, and only the escaped text goes through the engine
    have hget := strings.get_new _ hprint
    have hjs := strings.js_roundTrip (strings.newStringUTF
      (sanitizeForLog (strings.getStringUTFChars s)))
      (by rw [hget]; exact looksLikeText_of_printable _ hprint)
    rw [hget] at hjs
    rw [hjs]
    constructor
    · -- the escaped text would be the text itself, and that is printable
      intro heq
      rw [heq] at hget
      exact looksLikeText_of_printable _ (hget ▸ hprint)
    · exact fun h => absurd (htext.symm.trans h) (by simp)

theorem getArgString_of_heap {o : Observed} {i : Nat} (hget : o.frame.argTypes[i]? = some .string)
    (hheap : IsHeapAddr (o.frame.value i .string)) :
    getArgString refs strings o i
      = sanitizeForLog (strings.getStringUTFChars (o.chars (o.frame.value i .string))) := by
  have hdecode := refs.decode_add _ (Nat.lt_of_lt_of_le (by decide) hheap.1) hheap.2.1
  have harg : o.frame.getArg refs i = refs.addLocalRef (o.frame.value i .string) := by
    have hobject : (if JType.string.isRef then refs.toJObject (o.frame.argRef i) else 0)
        = refs.toJObject (o.frame.argRef i) := if_pos rfl
    unfold CallFrame.getArg
    rw [hget]
    simp only
    rw [hobject, o.frame.argRef_eq hget rfl]
    exact if_pos hheap
  have hne : refs.addLocalRef (o.frame.value i .string) ≠ 0 := by
    intro hzero
    rw [hzero, refs.decode_null] at hdecode
    have := hheap.1
    omega
  unfold getArgString
  rw [harg, if_neg hne, hdecode]

/-- A `String` is the same iff it is not null and looks like text. -/
theorem sameArg_string_iff {o : Observed} (hfresh : FreshStrings o fresh) {i : Nat}
    (hget : o.frame.argTypes[i]? = some .string)
    (href : o.frame.value i .string = 0 ∨ IsHeapAddr (o.frame.value i .string)) :
    SameArg o (writeBack refs strings fresh o) i .string ↔
      o.frame.value i .string ≠ 0 ∧
        looksLikeText (strings.getStringUTFChars (o.chars (o.frame.value i .string))) = true := by
  have hlt : i < o.frame.argCount := (List.getElem?_eq_some_iff.1 hget).1
  have hspec := writeBack_spec refs strings o hfresh.inj
  have hvalue : (writeBack refs strings fresh o).frame.value i .string = fresh i := by
    rw [hspec.behind i _ hget hlt]
    exact Nat.mod_eq_of_lt (hfresh.heap i hlt).2.1
  have hfresh0 : fresh i ≠ 0 := by
    have := (hfresh.heap i hlt).1
    omega
  have hnull : (fresh i = 0 ↔ o.frame.value i .string = 0) ↔ o.frame.value i .string ≠ 0 :=
    ⟨fun h h0 => hfresh0 (h.2 h0), fun h => ⟨fun h0 => absurd h0 hfresh0, fun h0 => absurd h0 h⟩⟩
  have hsame : SameArg o (writeBack refs strings fresh o) i .string ↔
      (fresh i = 0 ↔ o.frame.value i .string = 0) ∧ (o.frame.value i .string ≠ 0 →
        writtenChars refs strings o i = o.chars (o.frame.value i .string)) := by
    unfold SameArg
    rw [if_pos (show JType.string.isRef = true from rfl), hvalue, hspec.made i hget hlt]
  rw [hsame, hnull]
  refine and_congr_right (fun hne => ?_)
  have hheap := href.resolve_left hne
  have hformatted := formatted_iff strings (o.chars (o.frame.value i .string))
  unfold writtenChars
  rw [getArgString_of_heap hget hheap]
  exact ⟨fun h => hformatted.1 (h hne), fun h _ => hformatted.2 h⟩

/-- A `boolean` is the same iff nothing is set in it or it is one. -/
theorem sameArg_boolean_iff {o : Observed} (hfresh : FreshStrings o fresh) {i : Nat}
    (hget : o.frame.argTypes[i]? = some .boolean) :
    SameArg o (writeBack refs strings fresh o) i .boolean ↔
      o.frame.getArgRaw i = 0 ∨ o.frame.value i .boolean = 1 := by
  have hlt : i < o.frame.argCount := (List.getElem?_eq_some_iff.1 hget).1
  have hspec := writeBack_spec refs strings o hfresh.inj
  have hraw := o.frame.getArgRaw_mod hget
  have hvalue : (writeBack refs strings fresh o).frame.value i .boolean
      = (if o.frame.getArgRaw i ≠ 0 then 1 else 0) % 2 ^ JType.boolean.bits :=
    hspec.behind i _ hget hlt
  have hsame : SameArg o (writeBack refs strings fresh o) i .boolean ↔
      (writeBack refs strings fresh o).frame.value i .boolean = o.frame.value i .boolean := by
    unfold SameArg
    rw [if_neg (by decide)]
  rw [hsame, hvalue]
  by_cases hzero : o.frame.getArgRaw i = 0
  · rw [hzero] at hraw
    simp only [hzero, ne_eq, not_true_eq_false, if_false, true_or, iff_true]
    exact hraw
  · have hone : 1 % 2 ^ JType.boolean.bits = 1 := by decide
    rw [if_pos hzero, hone]
    exact ⟨fun h => Or.inr h.symm, fun h => (h.resolve_left hzero).symm⟩

theorem sameArg_of_not_isRef {o : Observed} (hfresh : FreshStrings o fresh) {i : Nat} {t : JType}
    (hget : o.frame.argTypes[i]? = some t) (href : t.isRef = false) (hboolean : t ≠ .boolean) :
    SameArg o (writeBack refs strings fresh o) i t := by
  have hlt : i < o.frame.argCount := (List.getElem?_eq_some_iff.1 hget).1
  have hspec := writeBack_spec refs strings o hfresh.inj
  have hraw := o.frame.getArgRaw_mod hget
  unfold SameArg
  rw [if_neg (by simp [href]), hspec.behind i t hget hlt]
  unfold valueBehind
  cases t with
  | boolean => exact absurd rfl hboolean
  | object _ | array _ => exact absurd href (by simp [JType.isRef])
  | long | float | double => exact hraw
  | int | short | byte | char =>
    refine Eq.trans ?_ hraw
    exact Nat.mod_mod_of_dvd _ (pow_dvd_pow 2 (by decide))

theorem sameArg_of_isRef {o : Observed} (hfresh : FreshStrings o fresh) {i : Nat} {t : JType}
    (hget : o.frame.argTypes[i]? = some t) (href : t.isRef = true) (hstring : t ≠ .string) :
    SameArg o (writeBack refs strings fresh o) i t := by
  have hlt : i < o.frame.argCount := (List.getElem?_eq_some_iff.1 hget).1
  have hspec := writeBack_spec refs strings o hfresh.inj
  have hvalue : (writeBack refs strings fresh o).frame.value i t = o.frame.value i t := by
    have hnone : written fresh o i t = none := by
      unfold written
      cases t with
      | object className => exact if_neg hstring
      | array elem => exact if_neg hstring
      | boolean | byte | char | short | int | long | float | double =>
        exact absurd href (by simp [JType.isRef])
    rw [hspec.behind i t hget hlt]
    unfold valueBehind
    rw [hnone]
    rfl
  unfold SameArg
  rw [if_pos href, hvalue]
  exact ⟨Iff.rfl, fun _ => hspec.kept _ (fun j hj => hfresh.new j i t hj hget href)⟩

/-- An argument is the same behind a callback that changes nothing iff it can be observed. -/
theorem sameArg_iff {o : Observed} (hfresh : FreshStrings o fresh) {i : Nat} {t : JType}
    (hget : o.frame.argTypes[i]? = some t)
    (href : t.isRef = true → o.frame.value i t = 0 ∨ IsHeapAddr (o.frame.value i t)) :
    SameArg o (writeBack refs strings fresh o) i t ↔ ArgObservable strings o i t := by
  unfold ArgObservable
  by_cases hstring : t = .string
  · subst hstring
    rw [sameArg_string_iff hfresh hget (href rfl)]
    exact ⟨fun h => ⟨fun hne => absurd hne (by decide), fun _ => h⟩, fun h => h.2 rfl⟩
  by_cases hboolean : t = .boolean
  · subst hboolean
    rw [sameArg_boolean_iff hfresh hget]
    exact ⟨fun h => ⟨fun _ => h, fun hne => absurd hne hstring⟩, fun h => h.1 rfl⟩
  have hsame : SameArg o (writeBack refs strings fresh o) i t := by
    cases hisRef : t.isRef with
    | true => exact sameArg_of_isRef hfresh hget hisRef hstring
    | false => exact sameArg_of_not_isRef hfresh hget hisRef hboolean
  exact ⟨fun _ => ⟨fun h => absurd h hboolean, fun h => absurd h hstring⟩, fun _ => hsame⟩

end Loop

/-- A callback that changes nothing leaves all arguments as they are iff every `boolean` has only
    zeros or is one, and every `String` is not null and looks like text. -/
theorem transparent_iff {σ : Type} (refs : LocalRefs) (strings : Strings σ) (fresh : Nat → Nat)
    (o : Observed)
    (hrefs : ∀ i t, o.frame.argTypes[i]? = some t → t.isRef = true →
      o.frame.value i t = 0 ∨ IsHeapAddr (o.frame.value i t))
    (hfresh : FreshStrings o fresh) :
    Transparent o (writeBack refs strings fresh o) ↔
      ∀ i t, o.frame.argTypes[i]? = some t → ArgObservable strings o i t := by
  constructor
  · intro h i t hget
    exact (sameArg_iff hfresh hget (hrefs i t hget)).1 (h i t hget)
  · intro h i t hget
    exact (sameArg_iff hfresh hget (hrefs i t hget)).2 (h i t hget)

/-! ## Calls -/

/-- Strings in modified UTF-8, and an engine that keeps them as they are. -/
def plainStrings : Strings (List UInt8) where
  getStringUTFChars := ModifiedUtf8.encode
  newStringUTF := ModifiedUtf8.decode
  jsNewString b := b
  jsToCString s := s
  new_get := ModifiedUtf8.decode_encode
  get_new b h := ModifiedUtf8.encode_decode_ascii b (fun c hc =>
    ⟨Nat.lt_of_lt_of_le (by decide) (h c hc).1, Nat.lt_trans (h c hc).2 (by decide)⟩)
  js_roundTrip _ _ := rfl

/-- A static call with a `String` at `ref`, a `byte` of `-1` and `true`; all strings are `text`. -/
def stringCall (ref : UInt64) (text : List UInt16) : Observed where
  frame :=
    { isStatic := true
      argTypes := [.string, .byte, .boolean]
      r := fun n => if n = 1 then ref else if n = 2 then 0xFFFFFFFF else 1
      d := fun _ => 0
      stack := fun _ => 0 }
  chars := fun _ => text

def newStrings (i : Nat) : Nat := 0x40000 + 8 * (i % 16)

theorem stringCall_argTypes {ref : UInt64} {text : List UInt16} {i : Nat} {t : JType}
    (hget : (stringCall ref text).frame.argTypes[i]? = some t) :
    i = 0 ∧ t = .string ∨ i = 1 ∧ t = .byte ∨ i = 2 ∧ t = .boolean := by
  match i with
  | 0 => exact Or.inl ⟨rfl, (Option.some.inj hget).symm⟩
  | 1 => exact Or.inr (Or.inl ⟨rfl, (Option.some.inj hget).symm⟩)
  | 2 => exact Or.inr (Or.inr ⟨rfl, (Option.some.inj hget).symm⟩)
  | i + 3 => exact absurd hget (by simp [stringCall])

theorem newStrings_fresh (ref : UInt64) (text : List UInt16)
    (href : (stringCall ref text).frame.value 0 .string < 0x40000) :
    FreshStrings (stringCall ref text) newStrings := by
  have hcount : (stringCall ref text).frame.argCount = 3 := rfl
  constructor
  · intro i hi
    unfold IsHeapAddr newStrings
    omega
  · intro i j t hi hj hisRef
    rcases stringCall_argTypes hj with ⟨rfl, rfl⟩ | ⟨rfl, rfl⟩ | ⟨rfl, rfl⟩
    · unfold newStrings
      omega
    · exact absurd hisRef (by decide)
    · exact absurd hisRef (by decide)
  · intro i j hi hj heq
    unfold newStrings at heq
    omega

/-- A call with the string `hi`. -/
theorem stringCall_transparent :
    Transparent (stringCall 0x20000 [0x68, 0x69])
      (writeBack plainRefs plainStrings newStrings (stringCall 0x20000 [0x68, 0x69])) := by
  have hfresh := newStrings_fresh 0x20000 [0x68, 0x69] (by decide)
  refine (transparent_iff plainRefs plainStrings newStrings _ ?_ hfresh).2 ?_
  · intro i t hget hisRef
    rcases stringCall_argTypes hget with ⟨rfl, rfl⟩ | ⟨rfl, rfl⟩ | ⟨rfl, rfl⟩
    · exact Or.inr (by decide)
    · exact absurd hisRef (by decide)
    · exact absurd hisRef (by decide)
  · intro i t hget
    rcases stringCall_argTypes hget with ⟨rfl, rfl⟩ | ⟨rfl, rfl⟩ | ⟨rfl, rfl⟩
    · exact ⟨fun h => absurd h (by decide), fun _ => ⟨by decide, by decide⟩⟩
    · exact ⟨fun h => absurd h (by decide), fun h => absurd h (by decide)⟩
    · exact ⟨fun _ => Or.inr (by decide), fun h => absurd h (by decide)⟩

/-- A null string comes back as a string, and a line feed as four characters. -/
theorem stringCall_not_transparent :
    ¬ Transparent (stringCall 0 [])
        (writeBack plainRefs plainStrings newStrings (stringCall 0 [])) ∧
      ¬ Transparent (stringCall 0x20000 [0x0A])
        (writeBack plainRefs plainStrings newStrings (stringCall 0x20000 [0x0A])) := by
  constructor
  · intro h
    have hfresh := newStrings_fresh 0 [] (by decide)
    have hsame := (sameArg_string_iff hfresh rfl (Or.inl (by decide))).1 (h 0 .string rfl)
    exact hsame.1 (by decide)
  · intro h
    have hfresh := newStrings_fresh 0x20000 [0x0A] (by decide)
    have hsame := (sameArg_string_iff hfresh rfl (Or.inr (by decide))).1 (h 0 .string rfl)
    exact absurd hsame.2 (by decide)

end ArtPi.Frame
