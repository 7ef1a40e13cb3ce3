import ArtPi.Lib.Bits

set_option autoImplicit false

/-! # The header of a CodeInfo

Interleaved varints in a window of bytes in front of compiled code: a nibble for each value first, the values that
do not fit one behind all nibbles. A read outside of the window is `none`. -/

namespace ArtPi.Debug.CodeInfo

open Lib.Bits

def kCodeInfoVarintBits : Nat := 4
def kCodeInfoVarintMax : Nat := 11
def kArm64StackAlignment : UInt32 := 16

/-! ## The decoder -/

/-- `(ci[bp >> 3] >> (bp & 7)) & 1` -/
def bitAt (ci : List UInt8) (bp : Nat) : Option Nat :=
  ci[bp >>> 3]?.map fun b => b.toNat >>> (bp &&& 7) &&& 1

/-- The loop of `readBits`, at `bit`; the caller adds `count` to it. -/
def readBits (ci : List UInt8) (bit count : Nat) : Option Nat :=
  (List.range count).foldlM (fun v i => (bitAt ci (bit + i)).map fun b => v ||| b <<< i) 0

/-- The nibbles, packed into one number. -/
def readPacked (ci : List UInt8) (n : Nat) : Option Nat :=
  (List.range n).foldlM (fun packed i =>
    (readBits ci (i * kCodeInfoVarintBits) kCodeInfoVarintBits).map fun h =>
      packed ||| h <<< (i * kCodeInfoVarintBits)) 0

/-- The last loop: the values that the nibbles give only the length of. -/
def readLarge (ci : List UInt8) : Nat → List Nat → Option (List Nat)
  | _, [] => some []
  | bit, out :: rest =>
    if kCodeInfoVarintMax < out then do
      let count := (out - kCodeInfoVarintMax) * 8
      let v ← readBits ci bit count
      return v :: (← readLarge ci (bit + count) rest)
    else return out :: (← readLarge ci bit rest)

def decodeCodeInfoHeader (ci : List UInt8) (n : Nat) : Option (List Nat) := do
  let packed ← readPacked ci n
  let out := (List.range n).map fun i => packed >>> (i * kCodeInfoVarintBits) &&& 0xF
  readLarge ci (n * kCodeInfoVarintBits) out

/-- What `ArtMethodFrameSize` makes of the window: `kS` from Android 12 on. -/
def frameOfWindow (kS : Bool) (ci : List UInt8) : Option UInt32 := do
  let hdr ← decodeCodeInfoHeader ci (if kS then 7 else 6)
  let frame := UInt32.ofNat (hdr.getD 1 0) * kArm64StackAlignment
  return if frame < kArm64StackAlignment ∨ 0x40000 < frame ∨ frame &&& 0xF ≠ 0 then 0 else frame

/-! ## The encoding -/

/-- A value and the number of bytes it is given behind the nibbles, none if the nibble is the value. -/
structure Varint where
  value : Nat
  bytes : Nat
  bytes_le : bytes ≤ 4
  fits : if bytes = 0 then value ≤ kCodeInfoVarintMax else value < 256 ^ bytes

def Varint.header (v : Varint) : Nat := if v.bytes = 0 then v.value else kCodeInfoVarintMax + v.bytes

def Varint.body (v : Varint) : List Bool := spell (v.bytes * 8) v.value

/-- The nibbles, then the bytes. -/
def encode (vs : List Varint) : List Bool :=
  vs.flatMap (fun v => spell kCodeInfoVarintBits v.header) ++ vs.flatMap Varint.body

/-- The fewest bytes that hold the value. -/
def minimumBytes (v : UInt32) : Nat :=
  if v.toNat < 256 then 1 else if v.toNat < 256 ^ 2 then 2 else if v.toNat < 256 ^ 3 then 3 else 4

theorem lt_minimumBytes (v : UInt32) : v.toNat < 256 ^ minimumBytes v := by
  have hv := v.toNat_lt
  unfold minimumBytes
  split_ifs <;> omega

theorem minimumBytes_bounds (v : UInt32) : 1 ≤ minimumBytes v ∧ minimumBytes v ≤ 4 := by
  unfold minimumBytes
  split_ifs <;> omega

/-- A value as the runtime writes it. -/
def Varint.ofValue (v : UInt32) : Varint :=
  if h : v.toNat ≤ kCodeInfoVarintMax then ⟨v.toNat, 0, by decide, h⟩
  else ⟨v.toNat, minimumBytes v, (minimumBytes_bounds v).2, by
    have hb := (minimumBytes_bounds v).1
    rw [if_neg (by omega)]
    exact lt_minimumBytes v⟩

@[simp] theorem Varint.value_ofValue (v : UInt32) : (Varint.ofValue v).value = v.toNat := by
  unfold ofValue
  split <;> rfl

theorem Varint.header_lt (v : Varint) : v.header < 16 := by
  have hb := v.bytes_le
  have hf := v.fits
  unfold header
  split_ifs at hf ⊢ with h
  · exact Nat.lt_of_le_of_lt hf (by decide)
  · simp only [kCodeInfoVarintMax]
    omega

theorem Varint.header_le {v : Varint} : v.header ≤ kCodeInfoVarintMax ↔ v.bytes = 0 := by
  have hf := v.fits
  unfold header
  split_ifs at hf ⊢ with h
  · exact iff_of_true hf h
  · exact iff_of_false (by omega) h

/-! ## What the loops read -/

theorem bitAt_eq (ci : List UInt8) (bp : Nat) : bitAt ci bp = (ofBytes ci)[bp]?.map Bool.toNat := by
  rw [bitAt, getElem?_ofBytes, Nat.shiftRight_eq_div_pow]
  rw [show bp &&& 7 = bp % 8 from Nat.and_two_pow_sub_one_eq_mod bp 3, Option.map_map]
  refine congrArg (Option.map · ci[bp / 8]?) (funext fun b => ?_)
  rw [Function.comp_apply, Nat.toNat_testBit, Nat.shiftRight_eq_div_pow]
  exact Nat.and_two_pow_sub_one_eq_mod _ 1

/-- As long as the bits are there, the loop reads the number they spell. -/
theorem readBits_eq {ci : List UInt8} {bit count : Nat} (h : bit + count ≤ 8 * ci.length) :
    readBits ci bit count = some (number (((ofBytes ci).drop bit).take count)) := by
  induction count with
  | zero => rfl
  | succ count ih =>
    have hlt : bit + count < (ofBytes ci).length := by rw [length_ofBytes]; omega
    have hlen : (((ofBytes ci).drop bit).take count).length = count := by
      rw [List.length_take, List.length_drop, length_ofBytes]
      omega
    rw [readBits] at ih ⊢
    rw [List.range_succ, List.foldlM_append, ih (by omega)]
    have hbit : bitAt ci (bit + count) = some (number [(ofBytes ci)[bit + count]]) := by
      rw [bitAt_eq, List.getElem?_eq_getElem hlt]
      rfl
    have htake : ((ofBytes ci).drop bit).take (count + 1) =
        ((ofBytes ci).drop bit).take count ++ [(ofBytes ci)[bit + count]] := by
      rw [List.take_add_one, List.getElem?_drop, List.getElem?_eq_getElem hlt]
      rfl
    rw [htake, ← number_append_or, hlen]
    simp only [List.foldlM_cons, List.foldlM_nil, hbit, Option.map_some, bind_pure, Option.bind_eq_bind,
      Option.bind_some]

theorem readPacked_eq {ci : List UInt8} {n : Nat} (h : n * 4 ≤ 8 * ci.length) :
    readPacked ci n = some (number ((ofBytes ci).take (n * 4))) := by
  induction n with
  | zero => rfl
  | succ n ih =>
    have hlen : ((ofBytes ci).take (n * 4)).length = n * 4 := by
      rw [List.length_take, length_ofBytes]
      omega
    rw [readPacked] at ih ⊢
    rw [List.range_succ, List.foldlM_append, ih (by omega)]
    have hread : readBits ci (n * 4) 4 = some (number (((ofBytes ci).drop (n * 4)).take 4)) :=
      readBits_eq (by omega)
    have htake : (ofBytes ci).take ((n + 1) * 4) =
        (ofBytes ci).take (n * 4) ++ ((ofBytes ci).drop (n * 4)).take 4 := by
      rw [Nat.succ_mul, List.take_add]
    rw [htake, ← number_append_or, hlen]
    simp only [List.foldlM_cons, List.foldlM_nil, kCodeInfoVarintBits, hread, Option.map_some, bind_pure,
      Option.bind_eq_bind, Option.bind_some]

/-- The nibbles of the bits. -/
def nibbles (bits : List Bool) (n : Nat) : List Nat :=
  (List.range n).map fun i => number ((bits.drop (i * 4)).take 4)

theorem map_unpack {bits : List Bool} {n : Nat} :
    (List.range n).map (fun i => number (bits.take (n * 4)) >>> (i * kCodeInfoVarintBits) &&& 0xF) =
      nibbles bits n := by
  refine List.map_congr_left fun i hi => ?_
  have hi := List.mem_range.1 hi
  rw [kCodeInfoVarintBits, ← number_drop, show (0xF : Nat) = 2 ^ 4 - 1 from rfl,
    Nat.and_two_pow_sub_one_eq_mod, ← number_take, List.drop_take, List.take_take]
  rw [Nat.min_eq_left (by omega)]

theorem decodeCodeInfoHeader_eq {ci : List UInt8} {n : Nat} (h : n * 4 ≤ 8 * ci.length) :
    decodeCodeInfoHeader ci n = readLarge ci (n * kCodeInfoVarintBits) (nibbles (ofBytes ci) n) := by
  rw [decodeCodeInfoHeader, readPacked_eq h]
  exact congrArg (readLarge ci _) map_unpack

theorem readLarge_small {ci : List UInt8} {bit out : Nat} {rest : List Nat} (h : out ≤ kCodeInfoVarintMax) :
    readLarge ci bit (out :: rest) = (readLarge ci bit rest).map (out :: ·) := by
  rw [readLarge, if_neg (Nat.not_lt.2 h)]
  cases readLarge ci bit rest <;> rfl

theorem readLarge_large {ci : List UInt8} {bit out count : Nat} {rest : List Nat}
    (h : kCodeInfoVarintMax < out) (hcount : (out - kCodeInfoVarintMax) * 8 = count) :
    readLarge ci bit (out :: rest) =
      (readBits ci bit count).bind fun v => (readLarge ci (bit + count) rest).map (v :: ·) := by
  rw [readLarge, if_pos h, hcount]
  change (readBits ci bit count).bind (fun v => (readLarge ci (bit + count) rest).bind fun vs => some (v :: vs)) = _
  exact congrArg _ (funext fun v => by rw [Option.map_eq_bind]; rfl)

/-! ## Inside of the window -/

theorem lt_of_mem_nibbles {bits : List Bool} {n h : Nat} (hh : h ∈ nibbles bits n) : h < 16 := by
  obtain ⟨i, _, rfl⟩ := List.mem_map.1 hh
  rw [number_take]
  exact Nat.mod_lt _ (by decide)

theorem readLarge_isSome {ci : List UInt8} {hs : List Nat} (hh : ∀ h ∈ hs, h < 16) {bit : Nat}
    (hbit : bit + 32 * hs.length ≤ 8 * ci.length) : ∃ vs, readLarge ci bit hs = some vs := by
  induction hs generalizing bit with
  | nil => exact ⟨[], rfl⟩
  | cons h hs ih =>
    have hlt := hh h List.mem_cons_self
    have hrest : ∀ h ∈ hs, h < 16 := fun h hmem => hh h (List.mem_cons_of_mem _ hmem)
    rw [List.length_cons] at hbit
    by_cases hmax : h ≤ kCodeInfoVarintMax
    · obtain ⟨vs, hvs⟩ := ih hrest (show bit + 32 * hs.length ≤ _ by omega)
      exact ⟨h :: vs, by rw [readLarge_small hmax, hvs]; rfl⟩
    · obtain ⟨count, hcount⟩ : ∃ count, (h - kCodeInfoVarintMax) * 8 = count := ⟨_, rfl⟩
      have hle : count ≤ 32 := by simp only [kCodeInfoVarintMax] at hcount; omega
      obtain ⟨vs, hvs⟩ := ih hrest (show bit + count + 32 * hs.length ≤ _ by omega)
      refine ⟨number (((ofBytes ci).drop bit).take count) :: vs, ?_⟩
      rw [readLarge_large (Nat.not_le.1 hmax) hcount, readBits_eq (by omega), hvs]
      rfl

theorem decodeCodeInfoHeader_isSome {ci : List UInt8} {n : Nat} (h : n * 36 ≤ 8 * ci.length) :
    ∃ vs, decodeCodeInfoHeader ci n = some vs := by
  rw [decodeCodeInfoHeader_eq (by omega)]
  refine readLarge_isSome (fun _ => lt_of_mem_nibbles) ?_
  rw [nibbles, List.length_map, List.length_range, kCodeInfoVarintBits]
  omega

/-! ## The inverse -/

theorem number_header (v : Varint) : number (spell 4 v.header) = v.header := by
  rw [number_spell]
  exact Nat.mod_eq_of_lt v.header_lt

theorem nibbles_encode (vs : List Varint) (rest : List Bool) :
    nibbles (vs.flatMap (fun v => spell 4 v.header) ++ rest) vs.length = vs.map Varint.header := by
  induction vs with
  | nil => rfl
  | cons v vs ih =>
    rw [List.length_cons, nibbles, List.range_succ_eq_map, List.map_cons, List.map_map]
    rw [List.flatMap_cons, List.append_assoc, List.map_cons, ← ih, nibbles]
    have hlen : (spell 4 v.header).length = 4 := length_spell 4 _
    refine congrArg₂ List.cons ?_ (List.map_congr_left fun i _ => ?_)
    · rw [Nat.zero_mul, List.drop_zero, List.take_left' hlen]
      exact number_header v
    · rw [Function.comp_apply, Nat.succ_mul, Nat.add_comm, ← List.drop_drop, List.drop_left' hlen]

theorem readLarge_encode {ci : List UInt8} {vs : List Varint} {rest : List Bool} {bit : Nat}
    (h : (ofBytes ci).drop bit = vs.flatMap Varint.body ++ rest) :
    readLarge ci bit (vs.map Varint.header) = some (vs.map Varint.value) := by
  induction vs generalizing bit with
  | nil => rfl
  | cons v vs ih =>
    rw [List.flatMap_cons, List.append_assoc] at h
    rw [List.map_cons, List.map_cons]
    have hfits := v.fits
    by_cases hb : v.bytes = 0
    · have hbody : v.body = [] := by rw [Varint.body, hb]; rfl
      rw [hbody, List.nil_append] at h
      rw [readLarge_small (Varint.header_le.2 hb), ih h, Varint.header, if_pos hb]
      rfl
    · have hcount : (v.header - kCodeInfoVarintMax) * 8 = v.bytes * 8 := by
        rw [Varint.header, if_neg hb, Nat.add_sub_cancel_left]
      have hlen : v.body.length = v.bytes * 8 := length_spell _ _
      have hroom : bit + v.bytes * 8 ≤ 8 * ci.length := by
        have hlength := congrArg List.length h
        rw [List.length_drop, length_ofBytes, List.length_append, hlen] at hlength
        have := v.bytes_le
        omega
      have hv : number v.body = v.value := by
        rw [if_neg hb] at hfits
        rw [Varint.body, number_spell, Nat.mul_comm, Nat.pow_mul]
        exact Nat.mod_eq_of_lt hfits
      have hrest : (ofBytes ci).drop (bit + v.bytes * 8) = vs.flatMap Varint.body ++ rest := by
        rw [← List.drop_drop, h, List.drop_left' hlen]
      have hmax : kCodeInfoVarintMax < v.header :=
        Nat.not_le.1 fun hle => hb (Varint.header_le.1 hle)
      rw [readLarge_large hmax hcount, readBits_eq hroom, h, List.take_left' hlen, hv, ih hrest]
      rfl

theorem length_headers (vs : List Varint) :
    (vs.flatMap fun v => spell kCodeInfoVarintBits v.header).length = vs.length * 4 := by
  induction vs with
  | nil => rfl
  | cons v vs ih =>
    rw [List.flatMap_cons, List.length_append, length_spell, ih, List.length_cons, kCodeInfoVarintBits]
    omega

theorem decodeCodeInfoHeader_encode {ci : List UInt8} {vs : List Varint}
    (h : encode vs <+: ofBytes ci) :
    decodeCodeInfoHeader ci vs.length = some (vs.map Varint.value) := by
  obtain ⟨rest, hrest⟩ := h
  rw [encode, List.append_assoc] at hrest
  have hlen := length_headers vs
  have hroom : vs.length * 4 ≤ 8 * ci.length := by
    have hlength := congrArg List.length hrest
    rw [List.length_append, hlen, length_ofBytes] at hlength
    omega
  rw [decodeCodeInfoHeader_eq hroom, ← hrest]
  have hnibbles := nibbles_encode vs (vs.flatMap Varint.body ++ rest)
  rw [show (4 : Nat) = kCodeInfoVarintBits from rfl] at hnibbles
  rw [hnibbles]
  have hdrop : (ofBytes ci).drop (vs.length * kCodeInfoVarintBits) = vs.flatMap Varint.body ++ rest := by
    rw [← hrest]
    exact List.drop_left' hlen
  exact readLarge_encode hdrop

/-! ## The window of the walk -/

theorem map_value_ofValue (values : List UInt32) :
    (values.map Varint.ofValue).map Varint.value = values.map UInt32.toNat := by
  rw [List.map_map]
  exact List.map_congr_left fun v _ => Varint.value_ofValue v

/-- In 64 bytes the decoder finds up to seven values as they were written, with any number of bytes that holds them
    and with the fewest; whatever is in the bytes, it reads no bit behind them. -/
theorem decodeCodeInfoHeader_window {ci : List UInt8} (hci : ci.length = 64) :
    (∀ values : List UInt32, values.length ≤ 7 → encode (values.map Varint.ofValue) <+: ofBytes ci →
      decodeCodeInfoHeader ci values.length = some (values.map UInt32.toNat)) ∧
    (∀ vs : List Varint, vs.length ≤ 7 → encode vs <+: ofBytes ci →
      decodeCodeInfoHeader ci vs.length = some (vs.map Varint.value)) ∧
    (∀ n, n ≤ 7 → ∃ vs, decodeCodeInfoHeader ci n = some vs) ∧
    (∀ kS, ∃ frame, frameOfWindow kS ci = some frame) := by
  have hread : ∀ n, n ≤ 7 → ∃ vs, decodeCodeInfoHeader ci n = some vs :=
    fun n hn => decodeCodeInfoHeader_isSome (by omega)
  refine ⟨fun values _ h => ?_, fun vs _ h => decodeCodeInfoHeader_encode h, hread, fun kS => ?_⟩
  · have hdecode := decodeCodeInfoHeader_encode h
    rwa [List.length_map, map_value_ofValue] at hdecode
  · obtain ⟨hdr, hhdr⟩ := hread (if kS then 7 else 6) (by split <;> decide)
    rw [frameOfWindow, hhdr]
    exact ⟨_, rfl⟩

/-- Flags 1, a packed frame size of 12 and five zeros. -/
theorem decodeCodeInfoHeader_window_frame :
    decodeCodeInfoHeader ([0xC1, 0, 0, 0xC0] ++ List.replicate 60 0) 7 = some [1, 12, 0, 0, 0, 0, 0] := by
  have h := (@decodeCodeInfoHeader_window ([0xC1, 0, 0, 0xC0] ++ List.replicate 60 0) rfl).1
    [1, 12, 0, 0, 0, 0, 0] (by decide) (by decide)
  exact h

end ArtPi.Debug.CodeInfo
