import ArtPi.Lib.Crc
import Mathlib.Algebra.Order.Ring.Int
import Mathlib.Data.List.Induction
import Mathlib.Tactic.Linarith

set_option autoImplicit false

/-! # Checksums (`engine/utils/pi_hash.cpp`, `src/agent/agent_java_decompile.cpp`)

The CRCs go by a table of 256 entries, and Adler-32 reduces its sums once for 5552 bytes. Both are compared with the
checksum as it is defined, bit by bit and byte by byte. -/

namespace ArtPi.Hash

open Lib

/-- What a function gets: a pointer and a size. There is nothing behind a null pointer. -/
inductive Span where
  | null (size : Nat)
  | bytes (data : List UInt8)

/-- `if (!data && size > 0) return refused;` in front of the loop. -/
def Span.guarded (refused : UInt32) (f : List UInt8 → UInt32) : Span → UInt32
  | .null 0 => f []
  | .null (_ + 1) => refused
  | .bytes data => f data

/-! ## `Crc32` and `Crc32c` -/

/-- One round of the constructor of `CrcTable`. -/
def crcRound (Poly c : UInt32) : UInt32 := if c &&& 1 ≠ 0 then Poly ^^^ (c >>> 1) else c >>> 1

def crcTable (Poly : UInt32) : Vector UInt32 256 :=
  Vector.ofFn (fun i => (crcRound Poly)^[8] (UInt32.ofNat i.val))

def kCrc32Table : Vector UInt32 256 := crcTable 0xEDB88320

def kCrc32cTable : Vector UInt32 256 := crcTable 0x82F63B78

theorem toNat_and_0xFF (c : UInt32) : (c &&& 0xFF).toNat = c.toNat % 2 ^ 8 :=
  (UInt32.toNat_and c 0xFF).trans (Nat.and_two_pow_sub_one_eq_mod c.toNat 8)

theorem toNat_and_0xFF_lt (c : UInt32) : (c &&& 0xFF).toNat < 256 := by
  rw [toNat_and_0xFF]
  exact Nat.mod_lt _ (by decide)

/-- The body of the loop over the data. -/
def crcByte (table : Vector UInt32 256) (crc : UInt32) (b : UInt8) : UInt32 :=
  table.get ⟨((crc ^^^ b.toUInt32) &&& 0xFF).toNat, toNat_and_0xFF_lt _⟩ ^^^ (crc >>> 8)

def crcLoop (table : Vector UInt32 256) (prev : UInt32) (data : List UInt8) : UInt32 :=
  ~~~ data.foldl (crcByte table) (~~~ prev)

def crc32 (data : Span) (prev : UInt32) : UInt32 := data.guarded 0 (crcLoop kCrc32Table prev)

def crc32c (data : Span) (prev : UInt32) : UInt32 := data.guarded 0 (crcLoop kCrc32cTable prev)

/-- The reflected CRC with a polynomial, bit by bit, the lowest bit of a byte first. -/
def bitwiseCrc (poly : BitVec 32) (data : List UInt8) (prev : UInt32) : UInt32 :=
  ⟨~~~ (data.flatMap (fun b => Crc.bitsOf b.toBitVec)).foldl (Crc.feed poly) (~~~ prev.toBitVec)⟩

theorem and_one_ne_zero_iff (c : UInt32) : c &&& 1 ≠ 0 ↔ c.toBitVec.getLsbD 0 = true := by
  have hand : (c &&& 1).toNat = c.toNat % 2 ^ 1 :=
    (UInt32.toNat_and c 1).trans (Nat.and_two_pow_sub_one_eq_mod c.toNat 1)
  rw [Ne, ← UInt32.toNat_inj, hand, BitVec.getLsbD, Nat.testBit_zero, decide_eq_true_iff]
  show ¬ c.toNat % 2 ^ 1 = 0 ↔ c.toNat % 2 = 1
  omega

theorem toBitVec_crcRound (Poly c : UInt32) :
    (crcRound Poly c).toBitVec = Crc.shift Poly.toBitVec c.toBitVec := by
  have hshr : (c >>> 1).toBitVec = c.toBitVec >>> 1 := rfl
  unfold crcRound Crc.shift
  by_cases h : c &&& 1 ≠ 0
  · rw [if_pos h, if_pos ((and_one_ne_zero_iff c).1 h), UInt32.toBitVec_xor, hshr, BitVec.xor_comm]
  · rw [if_neg h, if_neg (fun hbit => h ((and_one_ne_zero_iff c).2 hbit)), hshr, BitVec.xor_zero]

theorem toBitVec_iterate_crcRound (Poly : UInt32) (n : Nat) (c : UInt32) :
    ((crcRound Poly)^[n] c).toBitVec = (Crc.shift Poly.toBitVec)^[n] c.toBitVec := by
  induction n generalizing c with
  | zero => rfl
  | succ n ih => rw [Function.iterate_succ_apply, Function.iterate_succ_apply, ih, toBitVec_crcRound]

theorem toBitVec_crcTable_get (Poly : UInt32) (i : Fin 256) :
    ((crcTable Poly).get i).toBitVec = (Crc.shift Poly.toBitVec)^[8] (BitVec.ofNat 32 i.val) := by
  have hget : (crcTable Poly).get i = (crcRound Poly)^[8] (UInt32.ofNat i.val) := by
    exact Vector.getElem_ofFn i.isLt
  rw [hget, toBitVec_iterate_crcRound]
  rfl

theorem toBitVec_crcByte (Poly crc : UInt32) (b : UInt8) :
    (crcByte (crcTable Poly) crc b).toBitVec =
      (Crc.shift Poly.toBitVec)^[8] (crc.toBitVec ^^^ b.toBitVec.setWidth 32) := by
  have hindex : BitVec.ofNat 32 ((crc ^^^ b.toUInt32) &&& 0xFF).toNat =
      ((crc.toBitVec ^^^ b.toBitVec.setWidth 32).setWidth 8).setWidth 32 := by
    apply BitVec.eq_of_toNat_eq
    rw [toNat_and_0xFF, BitVec.toNat_setWidth, BitVec.toNat_setWidth, BitVec.toNat_ofNat]
    rfl
  have hupper : (crc.toBitVec ^^^ b.toBitVec.setWidth 32) >>> 8 = crc.toBitVec >>> 8 := by
    apply BitVec.eq_of_getLsbD_eq
    intro i _
    rw [BitVec.getLsbD_ushiftRight, BitVec.getLsbD_ushiftRight, BitVec.getLsbD_xor, BitVec.getLsbD_setWidth,
      BitVec.getLsbD_of_ge b.toBitVec (8 + i) (by omega), Bool.and_false, Bool.xor_false]
  rw [Crc.iterate_shift_split, hupper, crcByte, UInt32.toBitVec_xor, toBitVec_crcTable_get, hindex]
  rfl

theorem foldl_crcByte (Poly : UInt32) (data : List UInt8) (crc : UInt32) :
    (data.foldl (crcByte (crcTable Poly)) crc).toBitVec =
      (data.flatMap (fun b => Crc.bitsOf b.toBitVec)).foldl (Crc.feed Poly.toBitVec) crc.toBitVec := by
  induction data generalizing crc with
  | nil => rfl
  | cons b data ih =>
    rw [List.foldl_cons, ih, List.flatMap_cons, List.foldl_append, Crc.foldl_feed _ _ (by decide),
      toBitVec_crcByte]

theorem crcLoop_eq (Poly : UInt32) (prev : UInt32) (data : List UInt8) :
    crcLoop (crcTable Poly) prev data = bitwiseCrc Poly.toBitVec data prev := by
  apply UInt32.eq_of_toBitVec_eq
  rw [crcLoop, UInt32.toBitVec_not, foldl_crcByte, UInt32.toBitVec_not]
  rfl

/-- The complement behind a part is undone in front of the next one. -/
theorem crcLoop_append (table : Vector UInt32 256) (prev : UInt32) (a b : List UInt8) :
    crcLoop table prev (a ++ b) = crcLoop table (crcLoop table prev a) b := by
  unfold crcLoop
  rw [List.foldl_append, UInt32.not_not]

/-- Both CRCs are those of their polynomials, bit by bit, from every value before, and a list may be taken in two
parts. -/
theorem crcs_bitwise (a b : List UInt8) (prev : UInt32) :
    (crc32 (.bytes a) prev = bitwiseCrc 0xEDB88320 a prev ∧
      crc32c (.bytes a) prev = bitwiseCrc 0x82F63B78 a prev) ∧
    (crc32 (.bytes (a ++ b)) prev = crc32 (.bytes b) (crc32 (.bytes a) prev) ∧
      crc32c (.bytes (a ++ b)) prev = crc32c (.bytes b) (crc32c (.bytes a) prev)) :=
  ⟨⟨crcLoop_eq _ prev a, crcLoop_eq _ prev a⟩, crcLoop_append _ prev a b, crcLoop_append _ prev a b⟩

/-! ## `Adler32` -/

def BASE : Nat := 65521

/-- One byte of the inner loop: `a += *buf++; b += a;` -/
def adlerByte (s : UInt32 × UInt32) (x : UInt8) : UInt32 × UInt32 :=
  (s.1 + x.toUInt32, s.2 + (s.1 + x.toUInt32))

def reduceSums (s : UInt32 × UInt32) : UInt32 × UInt32 := (s.1 % 65521, s.2 % 65521)

/-- The outer loop. -/
def adlerLoop (s : UInt32 × UInt32) (data : List UInt8) : UInt32 × UInt32 :=
  if data = [] then s
  else adlerLoop (reduceSums ((data.take 5552).foldl adlerByte s)) (data.drop 5552)
termination_by data.length
decreasing_by
  have := List.length_pos_iff.2 ‹_›
  rw [List.length_drop]
  omega

def unpackSums (prev : UInt32) : UInt32 × UInt32 := (prev &&& 0xffff, (prev >>> 16) &&& 0xffff)

def packSums (s : UInt32 × UInt32) : UInt32 := (s.2 <<< 16) ||| s.1

def adler32 (data : Span) (prev : UInt32) : UInt32 :=
  data.guarded 1 (fun buf => packSums (adlerLoop (unpackSums prev) buf))

/-- The blocks that the outer loop takes, each with the sums in front of it. -/
def adlerBlocks (s : UInt32 × UInt32) (data : List UInt8) : List ((UInt32 × UInt32) × List UInt8) :=
  if data = [] then []
  else (s, data.take 5552) ::
    adlerBlocks (reduceSums ((data.take 5552).foldl adlerByte s)) (data.drop 5552)
termination_by data.length
decreasing_by
  have := List.length_pos_iff.2 ‹_›
  rw [List.length_drop]
  omega

/-- `DexAdler32`: one byte, each sum reduced by a subtraction. -/
def dexAdlerByte (s : UInt32 × UInt32) (x : UInt8) : UInt32 × UInt32 :=
  let a := s.1 + x.toUInt32
  let a := if 65521 ≤ a then a - 65521 else a
  let b := s.2 + a
  let b := if 65521 ≤ b then b - 65521 else b
  (a, b)

def dexAdler32 (data : List UInt8) : UInt32 := packSums (data.foldl dexAdlerByte (1, 0))

/-! ### The reference -/

/-- The sums without a bound and without a reduction. -/
def sumByte (s : Nat × Nat) (x : UInt8) : Nat × Nat := (s.1 + x.toNat, s.2 + (s.1 + x.toNat))

/-- Both sums are reduced after every byte. -/
def reducedByte (s : Nat × Nat) (x : UInt8) : Nat × Nat :=
  ((s.1 + x.toNat) % BASE, (s.2 + (s.1 + x.toNat) % BASE) % BASE)

def referenceAdler (data : List UInt8) (prev : Nat) : Nat :=
  let s := data.foldl reducedByte (prev % 2 ^ 16, prev / 2 ^ 16)
  s.2 * 2 ^ 16 + s.1

/-- The sums as numbers. -/
def nats (s : UInt32 × UInt32) : Nat × Nat := (s.1.toNat, s.2.toNat)

/-- Sums modulo `BASE` that a block may begin with, in 32 bits. -/
def Halves (s : Nat × Nat) : Prop := s.1 < 2 ^ 16 ∧ s.2 < 2 ^ 16

/-- Two sums are the same modulo `BASE`. -/
def Congruent (s t : Nat × Nat) : Prop := s.1 % BASE = t.1 % BASE ∧ s.2 % BASE = t.2 % BASE

/-! ### A block does not overflow -/

/-- The second sum grows quadratically, the first one linearly. -/
theorem foldl_sumByte_le (block : List UInt8) (s : Nat × Nat) :
    (block.foldl sumByte s).1 ≤ s.1 + 255 * block.length ∧
      2 * (block.foldl sumByte s).2 ≤
        2 * s.2 + 2 * s.1 * block.length + 255 * block.length * (block.length + 1) := by
  induction block generalizing s with
  | nil => simp
  | cons x block ih =>
    obtain ⟨hfst, hsnd⟩ := ih (sumByte s x)
    have hx : x.toNat ≤ 255 := Nat.le_of_lt_succ x.toNat_lt
    rw [List.foldl_cons, List.length_cons]
    refine ⟨hfst.trans ?_, hsnd.trans ?_⟩
    · simp only [sumByte]
      omega
    · simp only [sumByte]
      nlinarith [Nat.mul_le_mul_right block.length hx]

theorem foldl_sumByte_lt {block : List UInt8} (hlen : block.length ≤ 5552) {s : Nat × Nat} (hs : Halves s) :
    (block.foldl sumByte s).1 < 2 ^ 32 ∧ (block.foldl sumByte s).2 < 2 ^ 32 := by
  obtain ⟨hfst, hsnd⟩ := foldl_sumByte_le block s
  obtain ⟨ha, hb⟩ := hs
  have hlinear : s.1 * block.length ≤ 65535 * 5552 := Nat.mul_le_mul (by omega) hlen
  have hquadratic : block.length * (block.length + 1) ≤ 5552 * 5553 := Nat.mul_le_mul hlen (by omega)
  rw [Nat.mul_assoc, Nat.mul_assoc] at hsnd
  omega

theorem nats_foldl_adlerByte {block : List UInt8} (hlen : block.length ≤ 5552) {s : UInt32 × UInt32}
    (hs : Halves (nats s)) : nats (block.foldl adlerByte s) = block.foldl sumByte (nats s) := by
  induction block using List.reverseRecOn with
  | nil => rfl
  | append_singleton block x ih =>
    rw [List.length_append, List.length_singleton] at hlen
    have hbound := @foldl_sumByte_lt (block ++ [x]) (by simpa using hlen) _ hs
    have hprefix := ih (by omega)
    rw [List.foldl_append, List.foldl_cons, List.foldl_nil, ← hprefix] at hbound
    rw [List.foldl_append, List.foldl_append, List.foldl_cons, List.foldl_cons, List.foldl_nil,
      List.foldl_nil, ← hprefix]
    have hfst : ((block.foldl adlerByte s).1 + x.toUInt32).toNat = (block.foldl adlerByte s).1.toNat + x.toNat :=
      (UInt32.toNat_add _ _).trans (Nat.mod_eq_of_lt hbound.1)
    refine Prod.ext hfst ?_
    show ((block.foldl adlerByte s).2 + ((block.foldl adlerByte s).1 + x.toUInt32)).toNat = _
    rw [UInt32.toNat_add, hfst]
    exact Nat.mod_eq_of_lt hbound.2

/-! ### Reductions -/

theorem Congruent.sumByte {s t : Nat × Nat} (h : Congruent s t) (x : UInt8) :
    Congruent (sumByte s x) (reducedByte t x) := by
  unfold Congruent at h ⊢
  unfold Hash.sumByte reducedByte BASE
  unfold BASE at h
  omega

theorem Congruent.foldl {s t : Nat × Nat} (h : Congruent s t) (data : List UInt8) :
    Congruent (data.foldl Hash.sumByte s) (data.foldl reducedByte t) := by
  induction data generalizing s t with
  | nil => exact h
  | cons x data ih => exact ih (h.sumByte x)

theorem foldl_reducedByte_lt {data : List UInt8} (hne : data ≠ []) (s : Nat × Nat) :
    (data.foldl reducedByte s).1 < BASE ∧ (data.foldl reducedByte s).2 < BASE := by
  obtain ⟨init, x, rfl⟩ := List.eq_nil_or_concat data |>.resolve_left hne
  rw [List.concat_eq_append, List.foldl_append, List.foldl_cons, List.foldl_nil]
  exact ⟨Nat.mod_lt _ (by decide), Nat.mod_lt _ (by decide)⟩

theorem nats_reduceSums (s : UInt32 × UInt32) : nats (reduceSums s) = ((nats s).1 % BASE, (nats s).2 % BASE) := by
  unfold nats reduceSums
  rw [UInt32.toNat_mod, UInt32.toNat_mod]
  rfl

theorem halves_reduceSums (s : UInt32 × UInt32) : Halves (nats (reduceSums s)) := by
  rw [nats_reduceSums]
  exact ⟨(Nat.mod_lt _ (by decide)).trans (by decide), (Nat.mod_lt _ (by decide)).trans (by decide)⟩

/-- A block and the reduction behind it are the reference over the block. -/
theorem nats_reduceSums_block {block : List UInt8} (hne : block ≠ []) (hlen : block.length ≤ 5552)
    {s : UInt32 × UInt32} (hs : Halves (nats s)) :
    nats (reduceSums (block.foldl adlerByte s)) = block.foldl reducedByte (nats s) := by
  have hcongr : Congruent (block.foldl sumByte (nats s)) (block.foldl reducedByte (nats s)) :=
    Congruent.foldl ⟨rfl, rfl⟩ block
  obtain ⟨hfst, hsnd⟩ := foldl_reducedByte_lt hne (nats s)
  rw [nats_reduceSums, nats_foldl_adlerByte hlen hs]
  refine Prod.ext ?_ ?_
  · exact hcongr.1.trans (Nat.mod_eq_of_lt hfst)
  · exact hcongr.2.trans (Nat.mod_eq_of_lt hsnd)

theorem take_ne_nil {data : List UInt8} (hne : data ≠ []) : data.take 5552 ≠ [] := by
  rw [Ne, List.take_eq_nil_iff]
  exact not_or.2 ⟨by decide, hne⟩

theorem nats_adlerLoop (data : List UInt8) {s : UInt32 × UInt32} (hs : Halves (nats s)) :
    nats (adlerLoop s data) = data.foldl reducedByte (nats s) := by
  fun_induction adlerLoop s data with
  | case1 s => rfl
  | case2 s data hne ih =>
    rw [ih (halves_reduceSums _), nats_reduceSums_block (take_ne_nil hne) (List.length_take_le 5552 data) hs,
      ← List.foldl_append, List.take_append_drop]

/-- Every block begins with sums of 16 bits and has at most 5552 bytes. -/
theorem halves_of_mem_adlerBlocks {data block : List UInt8} {s t : UInt32 × UInt32} (hs : Halves (nats s))
    (h : (t, block) ∈ adlerBlocks s data) : Halves (nats t) ∧ block.length ≤ 5552 := by
  fun_induction adlerBlocks s data with
  | case1 s => exact absurd h List.not_mem_nil
  | case2 s data hne ih =>
    rcases List.mem_cons.1 h with heq | hrest
    · obtain ⟨rfl, rfl⟩ := Prod.mk.inj heq
      exact ⟨hs, List.length_take_le 5552 data⟩
    · exact ih (halves_reduceSums _) hrest

/-! ### Both halves in one word -/

theorem toNat_packSums {s : UInt32 × UInt32} (hs : Halves (nats s)) :
    (packSums s).toNat = (nats s).2 * 2 ^ 16 + (nats s).1 := by
  obtain ⟨ha, hb⟩ := hs
  unfold nats at ha hb ⊢
  have hshl : (s.2 <<< 16).toNat = s.2.toNat <<< 16 := by
    rw [UInt32.toNat_shiftLeft]
    show s.2.toNat <<< 16 % 2 ^ 32 = s.2.toNat <<< 16
    rw [Nat.shiftLeft_eq]
    exact Nat.mod_eq_of_lt (by omega)
  rw [packSums, UInt32.toNat_or, hshl, ← Nat.shiftLeft_add_eq_or_of_lt ha, Nat.shiftLeft_eq]

theorem nats_unpackSums (prev : UInt32) : nats (unpackSums prev) = (prev.toNat % 2 ^ 16, prev.toNat / 2 ^ 16) := by
  have hlow : (prev &&& 0xffff).toNat = prev.toNat % 2 ^ 16 :=
    (UInt32.toNat_and prev 0xffff).trans (Nat.and_two_pow_sub_one_eq_mod prev.toNat 16)
  have hhigh : ((prev >>> 16) &&& 0xffff).toNat = prev.toNat / 2 ^ 16 := by
    have hshr : (prev >>> 16).toNat = prev.toNat / 2 ^ 16 :=
      (UInt32.toNat_shiftRight prev 16).trans (Nat.shiftRight_eq_div_pow prev.toNat 16)
    rw [UInt32.toNat_and, hshr]
    refine (Nat.and_two_pow_sub_one_eq_mod _ 16).trans (Nat.mod_eq_of_lt ?_)
    have := prev.toNat_lt
    omega
  unfold nats unpackSums
  rw [hlow, hhigh]

theorem halves_unpackSums (prev : UInt32) : Halves (nats (unpackSums prev)) := by
  rw [nats_unpackSums]
  have := prev.toNat_lt
  exact ⟨Nat.mod_lt _ (by decide), by omega⟩

/-- The sums of the reference fit in the halves, and come out of them again. -/
theorem halves_foldl_reducedByte (data : List UInt8) {s : Nat × Nat} (hs : Halves s) :
    Halves (data.foldl reducedByte s) := by
  by_cases hne : data = []
  · rw [hne]
    exact hs
  · obtain ⟨hfst, hsnd⟩ := foldl_reducedByte_lt hne s
    exact ⟨hfst.trans (by decide), hsnd.trans (by decide)⟩

theorem referenceAdler_append (a b : List UInt8) {prev : Nat} (hprev : prev < 2 ^ 32) :
    referenceAdler (a ++ b) prev = referenceAdler b (referenceAdler a prev) := by
  have hhalves := @halves_foldl_reducedByte a (prev % 2 ^ 16, prev / 2 ^ 16)
    ⟨Nat.mod_lt _ (by decide), by show prev / 2 ^ 16 < 2 ^ 16; omega⟩
  unfold referenceAdler
  rw [List.foldl_append]
  obtain ⟨ha, hb⟩ := hhalves
  generalize a.foldl reducedByte (prev % 2 ^ 16, prev / 2 ^ 16) = s at ha hb ⊢
  have hlow : (s.2 * 2 ^ 16 + s.1) % 2 ^ 16 = s.1 := by omega
  have hhigh : (s.2 * 2 ^ 16 + s.1) / 2 ^ 16 = s.2 := by omega
  rw [hlow, hhigh]

theorem toNat_adler32 (data : List UInt8) (prev : UInt32) :
    (adler32 (.bytes data) prev).toNat = referenceAdler data prev.toNat := by
  have hloop := nats_adlerLoop data (halves_unpackSums prev)
  rw [nats_unpackSums] at hloop
  have hhalves : Halves (nats (adlerLoop (unpackSums prev) data)) := by
    rw [hloop, ← nats_unpackSums]
    exact halves_foldl_reducedByte data (halves_unpackSums prev)
  unfold adler32 Span.guarded referenceAdler
  rw [toNat_packSums hhalves, hloop]

/-! ### `DexAdler32` -/

/-- A sum of two reduced numbers is reduced by one subtraction. -/
theorem toNat_subtract {v : UInt32} (h : v.toNat < 2 * BASE) :
    (if 65521 ≤ v then v - 65521 else v).toNat = v.toNat % BASE := by
  have hle : 65521 ≤ v ↔ 65521 ≤ v.toNat := UInt32.le_iff_toNat_le
  unfold BASE at h ⊢
  split
  · rename_i hbig
    rw [UInt32.toNat_sub_of_le _ _ hbig]
    show v.toNat - 65521 = _
    have := hle.1 hbig
    omega
  · rename_i hsmall
    have := mt hle.2 hsmall
    omega

theorem nats_dexAdlerByte {s : UInt32 × UInt32} (hs : (nats s).1 < BASE ∧ (nats s).2 < BASE) (x : UInt8) :
    nats (dexAdlerByte s x) = reducedByte (nats s) x := by
  obtain ⟨ha, hb⟩ := hs
  unfold nats at ha hb ⊢
  have hx := x.toNat_lt
  have hsum : (s.1 + x.toUInt32).toNat = s.1.toNat + x.toNat := by
    refine (UInt32.toNat_add _ _).trans (Nat.mod_eq_of_lt ?_)
    rw [UInt8.toNat_toUInt32]
    unfold BASE at ha
    omega
  have hfst := @toNat_subtract (s.1 + x.toUInt32) (by rw [hsum]; unfold BASE at ha ⊢; omega)
  rw [hsum] at hfst
  have hred : (s.1.toNat + x.toNat) % BASE < BASE := Nat.mod_lt _ (by decide)
  unfold dexAdlerByte reducedByte
  simp only
  generalize (if 65521 ≤ s.1 + x.toUInt32 then s.1 + x.toUInt32 - 65521 else s.1 + x.toUInt32) = a at hfst ⊢
  have hsum' : (s.2 + a).toNat = s.2.toNat + (s.1.toNat + x.toNat) % BASE := by
    rw [UInt32.toNat_add, hfst]
    refine Nat.mod_eq_of_lt ?_
    unfold BASE at hb hred ⊢
    omega
  have hsnd := @toNat_subtract (s.2 + a) (by rw [hsum']; omega)
  rw [hfst, hsnd, hsum']

theorem nats_foldl_dexAdlerByte (data : List UInt8) {s : UInt32 × UInt32}
    (hs : (nats s).1 < BASE ∧ (nats s).2 < BASE) :
    nats (data.foldl dexAdlerByte s) = data.foldl reducedByte (nats s) := by
  induction data generalizing s with
  | nil => rfl
  | cons x data ih =>
    have hbyte := nats_dexAdlerByte hs x
    rw [List.foldl_cons, List.foldl_cons, ih, hbyte]
    rw [hbyte]
    exact ⟨Nat.mod_lt _ (by decide), Nat.mod_lt _ (by decide)⟩

theorem dexAdler32_eq (data : List UInt8) : dexAdler32 data = adler32 (.bytes data) 1 := by
  apply UInt32.toNat_inj.1
  have hfold := @nats_foldl_dexAdlerByte data (1, 0) ⟨by decide, by decide⟩
  have hhalves : Halves (nats (data.foldl dexAdlerByte (1, 0))) := by
    rw [hfold]
    exact halves_foldl_reducedByte data ⟨by decide, by decide⟩
  rw [toNat_adler32, dexAdler32, toNat_packSums hhalves, hfold]
  rfl

/-- Adler-32 with one reduction a block is Adler-32 with one a byte; in no block do the sums overflow, whichever of its
bytes have been added; a list may be taken in two parts; and the one of the dumper is the same from 1 on. -/
theorem adler32_exact (a b : List UInt8) (prev : UInt32) :
    (adler32 (.bytes a) prev).toNat = referenceAdler a prev.toNat ∧
      (∀ t block added, (t, block) ∈ adlerBlocks (unpackSums prev) a → added <+: block →
        (added.foldl sumByte (nats t)).1 < 2 ^ 32 ∧ (added.foldl sumByte (nats t)).2 < 2 ^ 32 ∧
          nats (added.foldl adlerByte t) = added.foldl sumByte (nats t)) ∧
      adler32 (.bytes (a ++ b)) prev = adler32 (.bytes b) (adler32 (.bytes a) prev) ∧
      dexAdler32 a = adler32 (.bytes a) 1 := by
  refine ⟨toNat_adler32 a prev, ?_, ?_, dexAdler32_eq a⟩
  · intro t block added hblock hadded
    obtain ⟨hhalves, hlen⟩ := halves_of_mem_adlerBlocks (halves_unpackSums prev) hblock
    have hlen' := hadded.length_le.trans hlen
    obtain ⟨hfst, hsnd⟩ := foldl_sumByte_lt hlen' hhalves
    exact ⟨hfst, hsnd, nats_foldl_adlerByte hlen' hhalves⟩
  · apply UInt32.toNat_inj.1
    rw [toNat_adler32, toNat_adler32, toNat_adler32, referenceAdler_append a b prev.toNat_lt]

end ArtPi.Hash
