import ArtPi.Mpack.Basic
import Mathlib.Data.List.Induction
import Mathlib.Tactic.IntervalCases

set_option autoImplicit false

/-! # MessagePack round trip

What the reader makes of the writer's bytes. The reading methods are specified by two judgements:
`Yields rd bs a` says that wherever the reader stands in front of `bs`, `rd` answers `a` and moves
just behind `bs`; `Rejects rd bs` says that it answers `false` there. Both compose along the
`do` blocks of the reader, so the theorem about a whole value is a recursion over the value that
uses one spec lemma per tag. -/

namespace ArtPi.Mpack

open Bytes

/-! ## Words

The writer's shifts spell a word big-endian and the reader's shifts and ors read it back. -/

theorem write16_eq (v : UInt16) : write16 v = beBytes 2 v.toNat := by
  simp only [write16, beBytes, List.cons.injEq, and_true]
  refine ⟨?_, ?_⟩ <;> apply UInt8.toNat_inj.mp <;>
    simp [UInt16.toNat_shiftRight, Nat.shiftRight_eq_div_pow]

theorem write32_eq (v : UInt32) : write32 v = beBytes 4 v.toNat := by
  simp only [write32, beBytes, List.cons.injEq, and_true]
  refine ⟨?_, ?_, ?_, ?_⟩ <;> apply UInt8.toNat_inj.mp <;>
    simp [UInt32.toNat_shiftRight, Nat.shiftRight_eq_div_pow]

theorem write64_eq (v : UInt64) : write64 v = beBytes 8 v.toNat := by
  simp only [write64, beBytes, List.map_cons, List.map_nil, List.cons.injEq, and_true]
  refine ⟨?_, ?_, ?_, ?_, ?_, ?_, ?_, ?_⟩ <;> apply UInt8.toNat_inj.mp <;>
    simp [UInt64.toNat_shiftRight, Nat.shiftRight_eq_div_pow]

theorem toNat_read16 (b0 b1 : UInt8) :
    (b0.toUInt16 <<< 8 ||| b1.toUInt16).toNat = beNat [b0, b1] := by
  have h0 := b0.toNat_lt
  simp only [UInt16.toNat_or, UInt16.toNat_shiftLeft, UInt8.toNat_toUInt16, beNat]
  rw [Nat.mod_eq_of_lt (by simp [Nat.shiftLeft_eq]; omega)]
  simp [shl8_or]

theorem toNat_read32 (b0 b1 b2 b3 : UInt8) :
    (b0.toUInt32 <<< 24 ||| b1.toUInt32 <<< 16 ||| b2.toUInt32 <<< 8 ||| b3.toUInt32).toNat
      = beNat [b0, b1, b2, b3] := by
  have hshift (b : UInt8) (k : Nat) (hk : k ≤ 24) : b.toNat <<< k % 2 ^ 32 = b.toNat <<< k := by
    have hb : b.toNat ≤ 255 := by have := b.toNat_lt; omega
    have hk2 : 2 ^ k ≤ 2 ^ 24 := Nat.pow_le_pow_right (by omega) hk
    apply Nat.mod_eq_of_lt
    rw [Nat.shiftLeft_eq]
    calc b.toNat * 2 ^ k ≤ 255 * 2 ^ 24 := Nat.mul_le_mul hb hk2
      _ < 2 ^ 32 := by decide
  have hval : (b0.toUInt32 <<< 24 ||| b1.toUInt32 <<< 16 ||| b2.toUInt32 <<< 8 |||
      b3.toUInt32).toNat = b0.toNat <<< 24 ||| b1.toNat <<< 16 ||| b2.toNat <<< 8 ||| b3.toNat := by
    simp only [UInt32.toNat_or, UInt32.toNat_shiftLeft, UInt8.toNat_toUInt32]
    exact congrArg₂ _ (congrArg₂ _ (congrArg₂ _ (hshift b0 24 (by omega)) (hshift b1 16 (by omega)))
      (hshift b2 8 (by omega))) rfl
  have hor : b0.toNat <<< 24 ||| b1.toNat <<< 16 ||| b2.toNat <<< 8 ||| b3.toNat
      = ((b0.toNat <<< 8 ||| b1.toNat) <<< 8 ||| b2.toNat) <<< 8 ||| b3.toNat := by
    simp only [Nat.shiftLeft_or_distrib, ← Nat.shiftLeft_add]
  rw [hval, hor, shl8_or, shl8_or, shl8_or]
  simp only [beNat, List.length_cons, List.length_nil]
  omega

theorem toNat_read64 (bs : List UInt8) (h : bs.length ≤ 8) :
    (bs.foldl (fun (out : UInt64) (b : UInt8) => out <<< 8 ||| b.toUInt64) 0).toNat
      = beNat bs := by
  induction bs using List.reverseRecOn with
  | nil => rfl
  | append_singleton bs b ih =>
    simp only [List.length_append, List.length_singleton] at h
    have hlt := beNat_lt bs
    have hpow : 256 ^ bs.length ≤ 256 ^ 7 := Nat.pow_le_pow_right (by omega) (by omega)
    rw [List.foldl_append, List.foldl_cons, List.foldl_nil, beNat_concat]
    simp only [UInt64.toNat_or, UInt64.toNat_shiftLeft, UInt8.toNat_toUInt64, ih (by omega)]
    rw [Nat.mod_eq_of_lt (by simp [Nat.shiftLeft_eq]; omega)]
    simp [shl8_or]

/-! ## Judgements on reading methods -/

/-- The reader stands inside its buffer, in front of exactly `s`. -/
def Reader.Ahead (r : Reader) (s : List UInt8) : Prop :=
  r.pos ≤ r.size ∧ r.data.drop r.pos = s

theorem Reader.Ahead.size_eq {r : Reader} {s : List UInt8} (h : r.Ahead s) :
    r.size = r.pos + s.length := by
  have hlen := congrArg List.length h.2
  have hpos := h.1
  simp only [List.length_drop, Reader.size] at *
  omega

theorem Reader.Ahead.advance {r : Reader} {bs s : List UInt8} (h : r.Ahead (bs ++ s)) :
    (r.advance bs.length).Ahead s := by
  refine ⟨?_, ?_⟩
  · have hsize := h.size_eq
    simp only [List.length_append, Reader.advance, Reader.size] at *
    omega
  · simp only [Reader.advance]
    rw [← List.drop_drop, h.2, List.drop_left]

theorem Reader.Ahead.getElem? {r : Reader} {s : List UInt8} (h : r.Ahead s) (i : Nat) :
    r.data[r.pos + i]? = s[i]? := by
  rw [← h.2, List.getElem?_drop]

@[simp] theorem Reader.advance_zero (r : Reader) : r.advance 0 = r := rfl

@[simp] theorem Reader.advance_pos (r : Reader) (n : Nat) : (r.advance n).pos = r.pos + n := rfl

theorem Reader.advance_advance (r : Reader) (m n : Nat) :
    (r.advance m).advance n = r.advance (m + n) := by
  simp only [Reader.advance, Nat.add_assoc]

/-- In front of `bs`, `rd` answers `a` and moves behind `bs`. -/
def Yields {α : Type} (rd : Read α) (bs : List UInt8) (a : α) : Prop :=
  ∀ (r : Reader) (rest : List UInt8), r.Ahead (bs ++ rest) → rd r = (.ok a, r.advance bs.length)

/-- In front of `bs`, `rd` moves behind `bs` and goes on as `rd'`. -/
def Steps {α : Type} (rd : Read α) (bs : List UInt8) (rd' : Read α) : Prop :=
  ∀ (r : Reader) (rest : List UInt8), r.Ahead (bs ++ rest) → rd r = rd' (r.advance bs.length)

/-- In front of `bs`, `rd` returns `false`. -/
def Rejects {α : Type} (rd : Read α) (bs : List UInt8) : Prop :=
  ∀ (r : Reader) (rest : List UInt8), r.Ahead (bs ++ rest) → ∃ r', rd r = (.error .reject, r')

theorem yields_pure {α : Type} (a : α) : Yields (pure a) [] a := fun _ _ _ => rfl

theorem Steps.yields {α : Type} {rd rd' : Read α} {bs cs : List UInt8} {a : α}
    (h : Steps rd bs rd') (h' : Yields rd' cs a) : Yields rd (bs ++ cs) a := by
  intro r rest hr
  rw [List.append_assoc] at hr
  rw [h r (cs ++ rest) hr, h' _ rest hr.advance, Reader.advance_advance, List.length_append]

theorem Steps.rejects {α : Type} {rd rd' : Read α} {bs cs : List UInt8}
    (h : Steps rd bs rd') (h' : Rejects rd' cs) : Rejects rd (bs ++ cs) := by
  intro r rest hr
  rw [List.append_assoc] at hr
  rw [h r (cs ++ rest) hr]
  exact h' _ rest hr.advance

theorem Steps.trans {α : Type} {rd rd' rd'' : Read α} {bs cs : List UInt8}
    (h : Steps rd bs rd') (h' : Steps rd' cs rd'') : Steps rd (bs ++ cs) rd'' := by
  intro r rest hr
  rw [List.append_assoc] at hr
  rw [h r (cs ++ rest) hr, h' _ rest hr.advance, Reader.advance_advance, List.length_append]

theorem Yields.steps {α β : Type} {rd : Read α} {bs : List UInt8} {a : α} (h : Yields rd bs a)
    (f : α → Read β) : Steps (rd >>= f) bs (f a) := by
  intro r rest hr
  simp only [Bind.bind, h r rest hr]

theorem Yields.map {α β : Type} {rd : Read α} {bs : List UInt8} {a : α} (hrd : Yields rd bs a)
    (g : α → β) : Yields (do let x ← rd; pure (g x)) bs (g a) := by
  have h := (hrd.steps (fun x => pure (g x))).yields (yields_pure (g a))
  rwa [List.append_nil] at h

theorem Rejects.bind {α β : Type} {rd : Read α} {f : α → Read β} {bs : List UInt8}
    (hrd : Rejects rd bs) (cs : List UInt8) : Rejects (rd >>= f) (bs ++ cs) := by
  intro r rest hr
  rw [List.append_assoc] at hr
  obtain ⟨r', h1⟩ := hrd r (cs ++ rest) hr
  exact ⟨r', by simp only [Bind.bind, h1]⟩

/-! ## Bytes and words -/

theorem byteAt_ahead {r : Reader} {s : List UInt8} (h : r.Ahead s) {i : Nat} {b : UInt8}
    (hb : s[i]? = some b) : byteAt (r.pos + i) r = (.ok b, r) := by
  simp only [byteAt, h.getElem? i, hb]

theorem bytesAt_ahead {r : Reader} {s : List UInt8} (h : r.Ahead s) (bs : List UInt8) :
    ∀ (i : Nat) (rest : List UInt8), s.drop i = bs ++ rest →
      bytesAt (r.pos + i) bs.length r = (.ok bs, r) := by
  induction bs with
  | nil => intro i rest _; rfl
  | cons b bs ih =>
    intro i rest hs
    have hb : s[i]? = some b := by
      have h0 : (s.drop i)[0]? = some b := by rw [hs]; rfl
      rwa [List.getElem?_drop] at h0
    have htail : s.drop (i + 1) = bs ++ rest := by
      rw [← List.drop_drop, hs]; rfl
    have h1 := byteAt_ahead h hb
    have h2 := ih (i + 1) rest htail
    rw [← Nat.add_assoc] at h2
    simp only [List.length_cons, bytesAt, Bind.bind, h1, h2, Pure.pure]

theorem yields_read8 (b : UInt8) : Yields read8 [b] b := by
  intro r rest hr
  have hsize := hr.size_eq
  simp only [List.length_append, List.length_singleton] at hsize
  have hb := byteAt_ahead hr (i := 0) (b := b) rfl
  rw [Nat.add_zero] at hb
  simp only [read8, if_neg (show ¬ r.pos ≥ r.size by omega), Bind.bind, hb, advance, Pure.pure,
    List.length_singleton]

theorem yields_read16 (v : UInt16) : Yields read16 (write16 v) v := by
  intro r rest hr
  have hsize := hr.size_eq
  have hlen : (write16 v).length = 2 := rfl
  simp only [List.length_append, hlen] at hsize
  have hb0 := byteAt_ahead hr (i := 0) rfl
  have hb1 := byteAt_ahead hr (i := 1) rfl
  rw [Nat.add_zero] at hb0
  have hv : (v >>> 8).toUInt8.toUInt16 <<< 8 ||| v.toUInt8.toUInt16 = v := by
    apply UInt16.toNat_inj.mp
    rw [toNat_read16, ← write16, write16_eq, beNat_beBytes v.toNat_lt]
  simp only [read16, if_neg (show ¬ r.pos + 2 > r.size by omega), Bind.bind, hb0, hb1, advance,
    Pure.pure, hlen, hv]

theorem yields_read32 (v : UInt32) : Yields read32 (write32 v) v := by
  intro r rest hr
  have hsize := hr.size_eq
  have hlen : (write32 v).length = 4 := rfl
  simp only [List.length_append, hlen] at hsize
  have hb0 := byteAt_ahead hr (i := 0) rfl
  have hb1 := byteAt_ahead hr (i := 1) rfl
  have hb2 := byteAt_ahead hr (i := 2) rfl
  have hb3 := byteAt_ahead hr (i := 3) rfl
  rw [Nat.add_zero] at hb0
  have hv : (v >>> 24).toUInt8.toUInt32 <<< 24 ||| (v >>> 16).toUInt8.toUInt32 <<< 16 |||
      (v >>> 8).toUInt8.toUInt32 <<< 8 ||| v.toUInt8.toUInt32 = v := by
    apply UInt32.toNat_inj.mp
    rw [toNat_read32, ← write32, write32_eq, beNat_beBytes v.toNat_lt]
  simp only [read32, if_neg (show ¬ r.pos + 4 > r.size by omega), Bind.bind, hb0, hb1, hb2, hb3,
    advance, Pure.pure, hlen, hv]

theorem yields_read64 (v : UInt64) : Yields read64 (write64 v) v := by
  intro r rest hr
  have hsize := hr.size_eq
  have hlen : (write64 v).length = 8 := rfl
  simp only [List.length_append, hlen] at hsize
  have hbs := bytesAt_ahead hr (write64 v) 0 rest rfl
  rw [Nat.add_zero, hlen] at hbs
  have hv : (write64 v).foldl (fun (out : UInt64) (b : UInt8) => out <<< 8 ||| b.toUInt64) 0
      = v := by
    apply UInt64.toNat_inj.mp
    rw [toNat_read64 _ (by omega), write64_eq, beNat_beBytes v.toNat_lt]
  simp only [read64, if_neg (show ¬ r.pos + 8 > r.size by omega), Bind.bind, hbs, advance,
    Pure.pure, hlen, hv]

theorem yields_readStringContent (s : List UInt8) :
    Yields (readStringContent s.length) s (.str s) := by
  intro r rest hr
  have hsize := hr.size_eq
  simp only [List.length_append] at hsize
  have hbs := bytesAt_ahead hr s 0 rest rfl
  rw [Nat.add_zero] at hbs
  simp only [readStringContent, if_neg (show ¬ r.pos + s.length > r.size by omega), Bind.bind, hbs,
    advance, Pure.pure]

/-! ## Values

`norm` is what a value looks like after the trip: the reader answers `uint` only for the wide
tags, and `double` for every floating-point number. -/

mutual

def Value.norm : Value → Value
  | .uint u => if u ≤ 127 then .int u.toInt64 else .uint u
  | .float f => .double f
  | .array vs => .array (normItems vs)
  | .map m => .map (normEntries m)
  | .nil => .nil
  | .bool b => .bool b
  | .int i => .int i
  | .double f => .double f
  | .str s => .str s
  | .bin b => .bin b

def normItems : List Value → List Value
  | [] => []
  | v :: vs => v.norm :: normItems vs

def normEntries : List (List UInt8 × Value) → List (List UInt8 × Value)
  | [] => []
  | (k, v) :: rest => (k, v.norm) :: normEntries rest

end

mutual

/-- Every string, binary, array and map in the value is shorter than `2 ^ 32`. -/
def Value.lengthsFit : Value → Bool
  | .str s => s.length < 2 ^ 32
  | .bin b => b.length < 2 ^ 32
  | .array vs => vs.length < 2 ^ 32 && lengthsFitItems vs
  | .map m => m.length < 2 ^ 32 && lengthsFitEntries m
  | _ => true

def lengthsFitItems : List Value → Bool
  | [] => true
  | v :: vs => v.lengthsFit && lengthsFitItems vs

def lengthsFitEntries : List (List UInt8 × Value) → Bool
  | [] => true
  | (k, v) :: rest => k.length < 2 ^ 32 && (v.lengthsFit && lengthsFitEntries rest)

end

mutual

/-- A binary occurs somewhere in the value. -/
def Value.hasBin : Value → Bool
  | .bin _ => true
  | .array vs => hasBinItems vs
  | .map m => hasBinEntries m
  | _ => false

def hasBinItems : List Value → Bool
  | [] => false
  | v :: vs => v.hasBin || hasBinItems vs

def hasBinEntries : List (List UInt8 × Value) → Bool
  | [] => false
  | (_, v) :: rest => v.hasBin || hasBinEntries rest

end

/-! ## Tags -/

theorem readTagged_fixmap (rv : Read Value) (n : Nat) (h : n ≤ 15) :
    readTagged rv (UInt8.ofNat (0x80 ||| n)) = readMap rv n := by
  interval_cases n <;> rfl

theorem readTagged_fixarray (rv : Read Value) (n : Nat) (h : n ≤ 15) :
    readTagged rv (UInt8.ofNat (0x90 ||| n)) = readArray rv n := by
  interval_cases n <;> rfl

theorem readTagged_fixstr (rv : Read Value) (n : Nat) (h : n ≤ 31) :
    readTagged rv (UInt8.ofNat (0xa0 ||| n)) = readStringContent n := by
  interval_cases n <;> rfl

theorem readTagged_fixint (rv : Read Value) (tag : UInt8) (h : tag ≤ 0x7f) :
    readTagged rv tag = pure (.int tag.toUInt64.toInt64) := by
  rw [readTagged, if_pos h]

/-- The negative fixints are the tags from `0xe0` on. -/
theorem readTagged_negative (rv : Read Value) (tag : UInt8) (h : 0xe0 ≤ tag) :
    readTagged rv tag = pure (.int tag.toInt8.toInt64) := by
  obtain ⟨n, hlt, rfl⟩ : ∃ n < 256, tag = UInt8.ofNat n := ⟨tag.toNat, tag.toNat_lt, by simp⟩
  have hn : 0xe0 ≤ n := by
    have hnat : (0xe0 : UInt8).toNat ≤ (UInt8.ofNat n).toNat := h
    rwa [UInt8.toNat_ofNat', Nat.mod_eq_of_lt hlt] at hnat
  interval_cases n <;> rfl

theorem steps_tag (fuel : Nat) (tag : UInt8) :
    Steps (readValueN (fuel + 1)) [tag] (readTagged (readValueN fuel) tag) :=
  (yields_read8 tag).steps _

theorem yields_tag {fuel : Nat} {tag : UInt8} {bs : List UInt8} {v : Value}
    (h : Yields (readTagged (readValueN fuel) tag) bs v) :
    Yields (readValueN (fuel + 1)) (tag :: bs) v :=
  (steps_tag fuel tag).yields h

/-! ## Numbers -/

theorem int64_toInt8 (i : Int64) (h0 : -128 ≤ i) (h1 : i ≤ 127) :
    i.toUInt64.toUInt8.toInt8.toInt64 = i := by
  apply Int64.toInt_inj.mp
  have hlow : i.toUInt64.toUInt8.toInt8 = i.toInt8 := by
    apply Int8.toBitVec_inj.mp
    simp [BitVec.signExtend_eq_setWidth_of_le]
  have hlo : -128 ≤ i.toInt := Int64.le_iff_toInt_le.mp h0
  have hhi : i.toInt ≤ 127 := Int64.le_iff_toInt_le.mp h1
  rw [hlow, Int8.toInt_toInt64, Int64.toInt_toInt8]
  apply Int.bmod_eq_of_le <;> norm_num <;> omega

theorem int64_toInt16 (i : Int64) (h0 : -32768 ≤ i) (h1 : i ≤ 32767) :
    i.toUInt64.toUInt16.toInt16.toInt64 = i := by
  apply Int64.toInt_inj.mp
  have hlow : i.toUInt64.toUInt16.toInt16 = i.toInt16 := by
    apply Int16.toBitVec_inj.mp
    simp [BitVec.signExtend_eq_setWidth_of_le]
  have hlo : -32768 ≤ i.toInt := Int64.le_iff_toInt_le.mp h0
  have hhi : i.toInt ≤ 32767 := Int64.le_iff_toInt_le.mp h1
  rw [hlow, Int16.toInt_toInt64, Int64.toInt_toInt16]
  apply Int.bmod_eq_of_le <;> norm_num <;> omega

theorem int64_toInt32 (i : Int64) (h0 : -2147483648 ≤ i) (h1 : i ≤ 2147483647) :
    i.toUInt64.toUInt32.toInt32.toInt64 = i := by
  apply Int64.toInt_inj.mp
  have hlow : i.toUInt64.toUInt32.toInt32 = i.toInt32 := by
    apply Int32.toBitVec_inj.mp
    simp [BitVec.signExtend_eq_setWidth_of_le]
  have hlo : -2147483648 ≤ i.toInt := Int64.le_iff_toInt_le.mp h0
  have hhi : i.toInt ≤ 2147483647 := Int64.le_iff_toInt_le.mp h1
  rw [hlow, Int32.toInt_toInt64, Int64.toInt_toInt32]
  apply Int.bmod_eq_of_le <;> norm_num <;> omega

set_option maxRecDepth 8192 in
/-- The low byte of a number in the fixint range, seen from the number. -/
theorem fixint_tag (tag : UInt8) :
    (0 ≤ tag.toInt8.toInt64 → tag ≤ 0x7f ∧ tag.toUInt64.toInt64 = tag.toInt8.toInt64) ∧
    (-32 ≤ tag.toInt8.toInt64 → tag.toInt8.toInt64 < 0 → 0xe0 ≤ tag) := by
  have hall : ∀ n : Fin 256,
      (0 ≤ (UInt8.ofFin n).toInt8.toInt64 → UInt8.ofFin n ≤ 0x7f ∧
        (UInt8.ofFin n).toUInt64.toInt64 = (UInt8.ofFin n).toInt8.toInt64) ∧
      (-32 ≤ (UInt8.ofFin n).toInt8.toInt64 → (UInt8.ofFin n).toInt8.toInt64 < 0 →
        0xe0 ≤ UInt8.ofFin n) := by decide
  exact hall tag.toFin

theorem yields_writeInt (fuel : Nat) (i : Int64) :
    Yields (readValueN (fuel + 1)) (writeInt i) (.int i) := by
  simp only [writeInt]
  split
  · rename_i h
    have hi := int64_toInt8 i (Int64.le_trans (by decide) h.1) h.2
    obtain ⟨hpos, hneg⟩ := fixint_tag i.toUInt64.toUInt8
    rw [hi] at hpos hneg
    apply yields_tag
    by_cases h0 : 0 ≤ i
    · rw [readTagged_fixint _ _ (hpos h0).1, (hpos h0).2]
      exact yields_pure _
    · rw [readTagged_negative _ _ (hneg h.1 (Int64.not_le.mp h0)), hi]
      exact yields_pure _
  · split
    · rename_i h
      have hi := int64_toInt8 i h.1 h.2
      have hy := (yields_read8 i.toUInt64.toUInt8).map (fun v => Value.int v.toInt8.toInt64)
      rw [hi] at hy
      exact yields_tag hy
    · split
      · rename_i h
        have hi := int64_toInt16 i h.1 h.2
        have hy := (yields_read16 i.toUInt64.toUInt16).map (fun v => Value.int v.toInt16.toInt64)
        rw [hi] at hy
        exact yields_tag hy
      · split
        · rename_i h
          have hi := int64_toInt32 i h.1 h.2
          have hy := (yields_read32 i.toUInt64.toUInt32).map (fun v => Value.int v.toInt32.toInt64)
          rw [hi] at hy
          exact yields_tag hy
        · exact yields_tag ((yields_read64 i.toUInt64).map (fun v => Value.int v.toInt64))

theorem uint64_narrow8 (u : UInt64) (h : u ≤ 0xff) : u.toUInt8.toUInt64 = u := by
  have hu : u.toNat ≤ 0xff := h
  apply UInt64.toNat_inj.mp
  rw [UInt8.toNat_toUInt64, UInt64.toNat_toUInt8, Nat.mod_eq_of_lt (by omega)]

theorem uint64_narrow16 (u : UInt64) (h : u ≤ 0xffff) : u.toUInt16.toUInt64 = u := by
  have hu : u.toNat ≤ 0xffff := h
  apply UInt64.toNat_inj.mp
  rw [UInt16.toNat_toUInt64, UInt64.toNat_toUInt16, Nat.mod_eq_of_lt (by omega)]

theorem uint64_narrow32 (u : UInt64) (h : u ≤ 0xffffffff) : u.toUInt32.toUInt64 = u := by
  have hu : u.toNat ≤ 0xffffffff := h
  apply UInt64.toNat_inj.mp
  rw [UInt32.toNat_toUInt64, UInt64.toNat_toUInt32, Nat.mod_eq_of_lt (by omega)]

theorem yields_writeUInt (fuel : Nat) (u : UInt64) :
    Yields (readValueN (fuel + 1)) (writeUInt u) (Value.uint u).norm := by
  simp only [writeUInt, Value.norm]
  split
  · rename_i h
    have hu := uint64_narrow8 u (UInt64.le_trans h (by decide))
    have htag : u.toUInt8 ≤ 0x7f := by
      have hnat : u.toNat ≤ 127 := h
      rw [UInt8.le_iff_toNat_le, UInt64.toNat_toUInt8, Nat.mod_eq_of_lt (by omega)]
      exact hnat
    apply yields_tag
    rw [readTagged_fixint _ _ htag, hu]
    exact yields_pure _
  · split
    · rename_i h
      have hy := (yields_read8 u.toUInt8).map (fun v => Value.uint v.toUInt64)
      rw [uint64_narrow8 u h] at hy
      exact yields_tag hy
    · split
      · rename_i h
        have hy := (yields_read16 u.toUInt16).map (fun v => Value.uint v.toUInt64)
        rw [uint64_narrow16 u h] at hy
        exact yields_tag hy
      · split
        · rename_i h
          have hy := (yields_read32 u.toUInt32).map (fun v => Value.uint v.toUInt64)
          rw [uint64_narrow32 u h] at hy
          exact yields_tag hy
        · exact yields_tag ((yields_read64 u).map (fun v => Value.uint v))

theorem yields_writeDouble (fuel : Nat) (f : UInt64) :
    Yields (readValueN (fuel + 1)) (writeDouble f) (.double f) :=
  yields_tag ((yields_read64 f).map (fun u => Value.double u))

theorem yields_writeBool (fuel : Nat) (b : Bool) :
    Yields (readValueN (fuel + 1)) (writeBool b) (.bool b) := by
  cases b
  · exact yields_tag (yields_pure _)
  · exact yields_tag (yields_pure _)

/-! ## Headers

A tag that carries or is followed by a length leaves the reader with the loop for that length. -/

theorem steps_len16 {fuel : Nat} {tag : UInt8} {n : Nat} (f : Nat → Read Value)
    (htag : readTagged (readValueN fuel) tag = do let len ← read16; f len.toNat)
    (h : n ≤ 0xffff) :
    Steps (readValueN (fuel + 1)) (tag :: write16 (UInt16.ofNat n)) (f n) := by
  have hlen := (yields_read16 (UInt16.ofNat n)).steps (fun len => f len.toNat)
  rw [UInt16.toNat_ofNat', Nat.mod_eq_of_lt (by omega)] at hlen
  exact (steps_tag fuel tag).trans (htag ▸ hlen)

theorem steps_len32 {fuel : Nat} {tag : UInt8} {n : Nat} (f : Nat → Read Value)
    (htag : readTagged (readValueN fuel) tag = do let len ← read32; f len.toNat)
    (h : n < 2 ^ 32) :
    Steps (readValueN (fuel + 1)) (tag :: write32 (UInt32.ofNat n)) (f n) := by
  have hlen := (yields_read32 (UInt32.ofNat n)).steps (fun len => f len.toNat)
  rw [UInt32.toNat_ofNat', Nat.mod_eq_of_lt h] at hlen
  exact (steps_tag fuel tag).trans (htag ▸ hlen)

theorem steps_writeStringHeader (fuel : Nat) {n : Nat} (h : n < 2 ^ 32) :
    Steps (readValueN (fuel + 1)) (writeStringHeader n) (readStringContent n) := by
  simp only [writeStringHeader]
  split
  · rename_i hn
    have hs := steps_tag fuel (UInt8.ofNat (0xa0 ||| n))
    rwa [readTagged_fixstr _ _ hn] at hs
  · split
    · rename_i hn
      have hlen := (yields_read8 (UInt8.ofNat n)).steps (fun len => readStringContent len.toNat)
      rw [UInt8.toNat_ofNat', Nat.mod_eq_of_lt (by omega)] at hlen
      exact (steps_tag fuel 0xd9).trans hlen
    · split
      · rename_i hn
        exact steps_len16 readStringContent rfl hn
      · exact steps_len32 readStringContent rfl h

theorem steps_writeArrayHeader (fuel : Nat) {n : Nat} (h : n < 2 ^ 32) :
    Steps (readValueN (fuel + 1)) (writeArrayHeader n) (readArray (readValueN fuel) n) := by
  simp only [writeArrayHeader]
  split
  · rename_i hn
    have hs := steps_tag fuel (UInt8.ofNat (0x90 ||| n))
    rwa [readTagged_fixarray _ _ hn] at hs
  · split
    · rename_i hn
      exact steps_len16 (readArray (readValueN fuel)) rfl hn
    · exact steps_len32 (readArray (readValueN fuel)) rfl h

theorem steps_writeMapHeader (fuel : Nat) {n : Nat} (h : n < 2 ^ 32) :
    Steps (readValueN (fuel + 1)) (writeMapHeader n) (readMap (readValueN fuel) n) := by
  simp only [writeMapHeader]
  split
  · rename_i hn
    have hs := steps_tag fuel (UInt8.ofNat (0x80 ||| n))
    rwa [readTagged_fixmap _ _ hn] at hs
  · split
    · rename_i hn
      exact steps_len16 (readMap (readValueN fuel)) rfl hn
    · exact steps_len32 (readMap (readValueN fuel)) rfl h

theorem yields_writeString (fuel : Nat) {s : List UInt8} (h : s.length < 2 ^ 32) :
    Yields (readValueN (fuel + 1)) (writeString s) (.str s) :=
  (steps_writeStringHeader fuel h).yields (yields_readStringContent s)

/-- None of the three binary tags has a case in the reader's switch. -/
theorem rejects_writeBinary (fuel : Nat) (b : List UInt8) :
    Rejects (readValueN (fuel + 1)) (writeBinary b) := by
  have htag (tag : UInt8) (bs : List UInt8)
      (h : readTagged (readValueN fuel) tag = fail .reject) :
      Rejects (readValueN (fuel + 1)) (tag :: bs) := by
    intro r rest hr
    have hs := steps_tag fuel tag r (bs ++ rest) hr
    rw [h] at hs
    exact ⟨_, hs⟩
  simp only [writeBinary]
  split
  · exact htag _ _ rfl
  · split
    · exact htag _ _ rfl
    · exact htag _ _ rfl

/-! ## Whole values

Every level of the reader's recursion starts with a tag, so a value is read with at least as much
fuel as it has bytes. -/

theorem writeStringHeader_pos (n : Nat) : 0 < (writeStringHeader n).length := by
  simp only [writeStringHeader]
  split <;> [skip; split <;> [skip; split]] <;> simp

theorem writeArrayHeader_pos (n : Nat) : 0 < (writeArrayHeader n).length := by
  simp only [writeArrayHeader]
  split <;> [skip; split] <;> simp

theorem writeMapHeader_pos (n : Nat) : 0 < (writeMapHeader n).length := by
  simp only [writeMapHeader]
  split <;> [skip; split] <;> simp

theorem writeValue_pos (v : Value) : 0 < (writeValue v).length := by
  cases v with
  | nil => simp [writeValue, writeNil]
  | bool b => simp [writeValue, writeBool]
  | int i =>
    simp only [writeValue, writeInt]
    split <;> [skip; split <;> [skip; split <;> [skip; split]]] <;> simp
  | uint u =>
    simp only [writeValue, writeUInt]
    split <;> [skip; split <;> [skip; split <;> [skip; split]]] <;> simp
  | float f => simp [writeValue, writeDouble]
  | double f => simp [writeValue, writeDouble]
  | str s =>
    have := writeStringHeader_pos s.length
    simp only [writeValue, writeString, List.length_append]
    omega
  | bin b =>
    simp only [writeValue, writeBinary]
    split <;> [skip; split] <;> simp
  | array vs =>
    have := writeArrayHeader_pos vs.length
    simp only [writeValue, List.length_append]
    omega
  | map m =>
    have := writeMapHeader_pos m.length
    simp only [writeValue, List.length_append]
    omega

theorem yields_key {fuel : Nat} {k : List UInt8} (hlen : k.length < 2 ^ 32)
    (hfuel : (writeString k).length ≤ fuel) :
    Yields (readValueN fuel) (writeString k) (.str k) := by
  have hpos := writeStringHeader_pos k.length
  simp only [writeString, List.length_append] at hfuel
  obtain ⟨fuel, rfl⟩ : ∃ n, fuel = n + 1 := ⟨fuel - 1, by omega⟩
  exact yields_writeString fuel hlen

mutual

/-- The writer's bytes of a value without binaries are read back as the value's normal form. -/
theorem yields_writeValue (v : Value) (fuel : Nat) (hfit : v.lengthsFit = true)
    (hbin : v.hasBin = false) (hfuel : (writeValue v).length ≤ fuel) :
    Yields (readValueN fuel) (writeValue v) v.norm := by
  have hpos := writeValue_pos v
  obtain ⟨fuel, rfl⟩ : ∃ k, fuel = k + 1 := ⟨fuel - 1, by omega⟩
  match v with
  | .nil => exact yields_tag (yields_pure _)
  | .bool b => exact yields_writeBool fuel b
  | .int i => exact yields_writeInt fuel i
  | .uint u => exact yields_writeUInt fuel u
  | .float f => exact yields_writeDouble fuel f
  | .double f => exact yields_writeDouble fuel f
  | .str s => exact yields_writeString fuel (by simpa [Value.lengthsFit] using hfit)
  | .bin b => simp [Value.hasBin] at hbin
  | .array vs =>
    simp only [Value.lengthsFit, Bool.and_eq_true, decide_eq_true_eq] at hfit
    have hh := writeArrayHeader_pos vs.length
    simp only [writeValue, List.length_append] at hfuel
    have hvs := yields_writeItems vs fuel hfit.2 hbin (by omega)
    exact (steps_writeArrayHeader fuel hfit.1).yields (hvs.map Value.array)
  | .map m =>
    simp only [Value.lengthsFit, Bool.and_eq_true, decide_eq_true_eq] at hfit
    have hh := writeMapHeader_pos m.length
    simp only [writeValue, List.length_append] at hfuel
    have hm := yields_writeEntries m fuel hfit.2 hbin (by omega)
    exact (steps_writeMapHeader fuel hfit.1).yields (hm.map Value.map)

theorem yields_writeItems (vs : List Value) (fuel : Nat) (hfit : lengthsFitItems vs = true)
    (hbin : hasBinItems vs = false) (hfuel : (writeItems vs).length ≤ fuel) :
    Yields (readItems (readValueN fuel) vs.length) (writeItems vs) (normItems vs) := by
  match vs with
  | [] => exact yields_pure _
  | v :: vs =>
    simp only [lengthsFitItems, Bool.and_eq_true] at hfit
    simp only [hasBinItems, Bool.or_eq_false_iff] at hbin
    simp only [writeItems, List.length_append] at hfuel
    have hv := yields_writeValue v fuel hfit.1 hbin.1 (by omega)
    have hvs := yields_writeItems vs fuel hfit.2 hbin.2 (by omega)
    exact (hv.steps _).yields (hvs.map (fun rest => v.norm :: rest))

theorem yields_writeEntries (m : List (List UInt8 × Value)) (fuel : Nat)
    (hfit : lengthsFitEntries m = true) (hbin : hasBinEntries m = false)
    (hfuel : (writeEntries m).length ≤ fuel) :
    Yields (readEntries (readValueN fuel) m.length) (writeEntries m) (normEntries m) := by
  match m with
  | [] => exact yields_pure _
  | (k, v) :: rest =>
    simp only [lengthsFitEntries, Bool.and_eq_true, decide_eq_true_eq] at hfit
    simp only [hasBinEntries, Bool.or_eq_false_iff] at hbin
    simp only [writeEntries, List.length_append] at hfuel
    have hk := yields_key hfit.1 (show (writeString k).length ≤ fuel by omega)
    have hv := yields_writeValue v fuel hfit.2.1 hbin.1 (by omega)
    have hrest := yields_writeEntries rest fuel hfit.2.2 hbin.2 (by omega)
    exact (hk.steps _).yields
      ((hv.steps _).yields (hrest.map (fun rest => (k, v.norm) :: rest)))

end

mutual

/-- A binary anywhere in a value makes the reader refuse the writer's bytes. -/
theorem rejects_writeValue (v : Value) (fuel : Nat) (hfit : v.lengthsFit = true)
    (hbin : v.hasBin = true) (hfuel : (writeValue v).length ≤ fuel) :
    Rejects (readValueN fuel) (writeValue v) := by
  have hpos := writeValue_pos v
  obtain ⟨fuel, rfl⟩ : ∃ k, fuel = k + 1 := ⟨fuel - 1, by omega⟩
  match v with
  | .nil | .bool _ | .int _ | .uint _ | .float _ | .double _ | .str _ =>
    simp [Value.hasBin] at hbin
  | .bin b => exact rejects_writeBinary fuel b
  | .array vs =>
    simp only [Value.lengthsFit, Bool.and_eq_true, decide_eq_true_eq] at hfit
    have hh := writeArrayHeader_pos vs.length
    simp only [writeValue, List.length_append] at hfuel
    have hvs := rejects_writeItems vs fuel hfit.2 hbin (by omega)
    have harr : Rejects (readArray (readValueN fuel) vs.length) (writeItems vs ++ []) :=
      hvs.bind []
    rw [List.append_nil] at harr
    exact (steps_writeArrayHeader fuel hfit.1).rejects harr
  | .map m =>
    simp only [Value.lengthsFit, Bool.and_eq_true, decide_eq_true_eq] at hfit
    have hh := writeMapHeader_pos m.length
    simp only [writeValue, List.length_append] at hfuel
    have hm := rejects_writeEntries m fuel hfit.2 hbin (by omega)
    have hmap : Rejects (readMap (readValueN fuel) m.length) (writeEntries m ++ []) :=
      hm.bind []
    rw [List.append_nil] at hmap
    exact (steps_writeMapHeader fuel hfit.1).rejects hmap

theorem rejects_writeItems (vs : List Value) (fuel : Nat) (hfit : lengthsFitItems vs = true)
    (hbin : hasBinItems vs = true) (hfuel : (writeItems vs).length ≤ fuel) :
    Rejects (readItems (readValueN fuel) vs.length) (writeItems vs) := by
  match vs with
  | [] => simp [hasBinItems] at hbin
  | v :: vs =>
    simp only [lengthsFitItems, Bool.and_eq_true] at hfit
    simp only [writeItems, List.length_append] at hfuel
    by_cases hv : v.hasBin = true
    · exact (rejects_writeValue v fuel hfit.1 hv (by omega)).bind _
    · rw [Bool.not_eq_true] at hv
      have hvs : hasBinItems vs = true := by simpa [hasBinItems, hv] using hbin
      have hyes := yields_writeValue v fuel hfit.1 hv (by omega)
      have hno := (rejects_writeItems vs fuel hfit.2 hvs (by omega)).bind
        (f := fun rest => pure (v.norm :: rest)) []
      rw [List.append_nil] at hno
      exact (hyes.steps _).rejects hno

theorem rejects_writeEntries (m : List (List UInt8 × Value)) (fuel : Nat)
    (hfit : lengthsFitEntries m = true) (hbin : hasBinEntries m = true)
    (hfuel : (writeEntries m).length ≤ fuel) :
    Rejects (readEntries (readValueN fuel) m.length) (writeEntries m) := by
  match m with
  | [] => simp [hasBinEntries] at hbin
  | (k, v) :: rest =>
    simp only [lengthsFitEntries, Bool.and_eq_true, decide_eq_true_eq] at hfit
    simp only [writeEntries, List.length_append] at hfuel
    have hk := yields_key hfit.1 (show (writeString k).length ≤ fuel by omega)
    apply (hk.steps _).rejects
    by_cases hv : v.hasBin = true
    · exact (rejects_writeValue v fuel hfit.2.1 hv (by omega)).bind _
    · rw [Bool.not_eq_true] at hv
      have hrest : hasBinEntries rest = true := by simpa [hasBinEntries, hv] using hbin
      have hyes := yields_writeValue v fuel hfit.2.1 hv (by omega)
      have hno := (rejects_writeEntries rest fuel hfit.2.2 hrest (by omega)).bind
        (f := fun rest => pure ((k, v.norm) :: rest)) []
      rw [List.append_nil] at hno
      exact (hyes.steps _).rejects hno

end

/-- Writing a value and reading the buffer back answers `true`, yields the value up to `norm` and
    consumes exactly the bytes written. -/
def RoundTrips (v : Value) : Prop :=
  readValue ⟨writeValue v, 0⟩ = (.ok v.norm, ⟨writeValue v, (writeValue v).length⟩)

theorem roundTrips_iff (v : Value) (hfit : v.lengthsFit = true) :
    RoundTrips v ↔ v.hasBin = false := by
  have hahead : Reader.Ahead ⟨writeValue v, 0⟩ (writeValue v ++ []) := ⟨by simp, by simp⟩
  have hread : readValue ⟨writeValue v, 0⟩
      = readValueN ((writeValue v).length + 1) ⟨writeValue v, 0⟩ := rfl
  constructor
  · intro h
    by_contra hbin
    rw [Bool.not_eq_false] at hbin
    obtain ⟨r', hr⟩ := rejects_writeValue v _ hfit hbin (Nat.le_succ _) _ [] hahead
    rw [RoundTrips, hread, hr] at h
    exact absurd (congrArg Prod.fst h) (by simp)
  · intro hbin
    have hy := yields_writeValue v _ hfit hbin (Nat.le_succ _) _ [] hahead
    rw [RoundTrips, hread, hy, Reader.advance, Nat.zero_add]

/-- A map that holds every kind of value but a binary. -/
theorem roundTrips_map_of_scalars :
    RoundTrips (.map [([0x6b], .array [.nil, .bool true, .int (-7), .uint 300, .uint 5, .float 1,
      .double 2, .str [0x61, 0x62]])]) :=
  (roundTrips_iff _ (by decide)).mpr (by decide)

theorem not_roundTrips_bin :
    (Value.bin []).lengthsFit = true ∧ ¬ RoundTrips (.bin []) := by
  refine ⟨by decide, ?_⟩
  intro h
  have hr : (readValue ⟨writeValue (.bin []), 0⟩).1 = .error .reject := rfl
  rw [RoundTrips] at h
  rw [h] at hr
  exact absurd hr (by simp)

end ArtPi.Mpack
