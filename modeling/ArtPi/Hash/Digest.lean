import ArtPi.Hash.Transform
import ArtPi.Lib.Blocks
import Mathlib.Algebra.Order.Ring.Int

set_option autoImplicit false

/-! # MD5, SHA-1 and SHA-256 of a stream (`engine/utils/pi_hash.cpp`)

`Update` takes a message in parts, with a buffer for what does not fill a block and a count of what has come, and
`Final` pads and writes the digest out. `Taken` says what a context is that has taken a message, whatever the parts
were: each `Update` keeps it, and from it `Final` gives the digest of the message in one piece. -/

namespace ArtPi.Hash

open Lib Lib.Blocks

/-! ## The digest of a message -/

/-- A one, zeros, and the length in bits. -/
def pad (lengthBytes : Nat → List UInt8) (msg : List UInt8) : List UInt8 :=
  msg ++ 0x80 :: (List.replicate ((119 - msg.length % 64) % 64) 0 ++ lengthBytes (8 * msg.length))

/-- The padded message, folded block by block. -/
def digestOf {State : Type} (transform : State → List UInt8 → State) (initial : State)
    (lengthBytes : Nat → List UInt8) (out : State → List UInt8) (msg : List UInt8) : List UInt8 :=
  out ((blocks 64 (pad lengthBytes msg)).foldl transform initial)

def littleBytes (n v : Nat) : List UInt8 := (Bytes.beBytes n v).reverse

def md5Of : List UInt8 → List UInt8 :=
  digestOf Md5.transform Md5.initial (littleBytes 8) (fun s => s.words.flatMap (fun w => littleBytes 4 w.toNat))

def sha1Of : List UInt8 → List UInt8 :=
  digestOf Sha1.transform Sha1.initial (Bytes.beBytes 8) (fun s => s.words.flatMap (fun w => Bytes.beBytes 4 w.toNat))

def sha256Of : List UInt8 → List UInt8 :=
  digestOf Sha256.transform Sha256.initial (Bytes.beBytes 8)
    (fun s => s.words.flatMap (fun w => Bytes.beBytes 4 w.toNat))

/-! ## Contexts -/

/-- `md5_impl::Context` and `sha1_impl::Context`. The count is that of the bits, in two words. -/
structure Context (State : Type) where
  state : State
  count0 : UInt32
  count1 : UInt32
  buffer : Buffer UInt8 64

namespace Context

variable {State : Type}

/-- `Init` leaves the buffer as it is. -/
def init (initial : State) (buffer : Buffer UInt8 64) : Context State := ⟨initial, 0, 0, buffer⟩

/-- The count of bits. -/
def bits (ctx : Context State) : Nat := ctx.count0.toNat + 2 ^ 32 * ctx.count1.toNat

/-- The context of a message that has come. -/
structure Taken (transform : State → List UInt8 → State) (initial : State) (msg : List UInt8) (ctx : Context State) :
    Prop where
  absorbed : Absorbed transform initial msg ctx.state ctx.buffer
  bits_eq : ctx.bits = 8 * msg.length % 2 ^ 64

theorem taken_init (transform : State → List UInt8 → State) (initial : State) (buffer : Buffer UInt8 64) :
    Taken transform initial [] (init initial buffer) where
  absorbed := absorbed_nil transform initial buffer
  bits_eq := rfl

theorem Taken.index {transform : State → List UInt8 → State} {initial : State} {msg : List UInt8}
    {ctx : Context State} (h : Taken transform initial msg ctx) :
    ((ctx.count0 >>> 3) &&& 0x3F).toNat = msg.length % 64 := by
  have hbits := h.bits_eq
  have hshr : (ctx.count0 >>> 3).toNat = ctx.count0.toNat / 2 ^ 3 :=
    (UInt32.toNat_shiftRight ctx.count0 3).trans (Nat.shiftRight_eq_div_pow ctx.count0.toNat 3)
  have hand : ((ctx.count0 >>> 3) &&& 0x3F).toNat = (ctx.count0 >>> 3).toNat % 2 ^ 6 :=
    (UInt32.toNat_and _ 0x3F).trans (Nat.and_two_pow_sub_one_eq_mod _ 6)
  have hlt := ctx.count0.toNat_lt
  unfold bits at hbits
  rw [hand, hshr]
  omega

end Context

/-! ## `Update` -/

/-- A sum in 32 bits is less than what was added exactly when it has wrapped. -/
def carry (sum added : UInt32) : UInt32 := if sum < added then 1 else 0

/-- The count of a `size_t` more bytes: the low word, the carry out of it, and the high bits of the length. -/
theorem bits_count {c0 c1 added : UInt32} (len : Nat) (h : added.toNat = 8 * len % 2 ^ 32) :
    (c0 + added).toNat +
        2 ^ 32 * (c1 + carry (c0 + added) added + ((UInt64.ofNat len) >>> 29).toUInt32).toNat =
      (c0.toNat + 2 ^ 32 * c1.toNat + 8 * len) % 2 ^ 64 := by
  have hshr : ((UInt64.ofNat len) >>> 29).toNat = len % 2 ^ 64 / 2 ^ 29 := by
    have hlen : (UInt64.ofNat len).toNat = len % 2 ^ 64 := UInt64.toNat_ofNat'
    exact (UInt64.toNat_shiftRight _ 29).trans ((Nat.shiftRight_eq_div_pow _ 29).trans (by rw [hlen]))
  have hhigh : ((UInt64.ofNat len) >>> 29).toUInt32.toNat = len % 2 ^ 64 / 2 ^ 29 % 2 ^ 32 := by
    rw [UInt64.toNat_toUInt32, hshr]
  have h0 := c0.toNat_lt
  have h1 := c1.toNat_lt
  have hsum : (c0 + added).toNat = (c0.toNat + added.toNat) % 2 ^ 32 := UInt32.toNat_add c0 added
  have hcarry : (carry (c0 + added) added).toNat = if (c0.toNat + added.toNat) % 2 ^ 32 < added.toNat then 1 else 0 := by
    unfold carry
    by_cases hlt : c0 + added < added
    · rw [if_pos hlt, if_pos (hsum ▸ UInt32.lt_iff_toNat_lt.1 hlt)]
      rfl
    · rw [if_neg hlt, if_neg (hsum ▸ fun hnat => hlt (UInt32.lt_iff_toNat_lt.2 hnat))]
      rfl
  rw [hsum, UInt32.toNat_add, UInt32.toNat_add, hcarry, hhigh, h]
  split <;> omega

def md5Update (ctx : Context Md5.State) (input : List UInt8) : Context Md5.State :=
  let index := ((ctx.count0 >>> 3) &&& 0x3F).toNat
  let bitLen := UInt64.ofNat input.length * 8
  let count0 := ctx.count0 + bitLen.toUInt32
  let count1 := ctx.count1 + carry count0 bitLen.toUInt32 + (UInt64.ofNat input.length >>> 29).toUInt32
  let partLen := 64 - index
  if partLen ≤ input.length then
    let buffer := copyAt ctx.buffer index (input.take partLen)
    let s := loop Md5.transform 64 input.length (Md5.transform ctx.state buffer.1) (input.drop partLen)
    ⟨s.1, count0, count1, copyAt buffer 0 s.2⟩
  else ⟨ctx.state, count0, count1, copyAt ctx.buffer index input⟩

def sha1Update (ctx : Context Sha1.State) (data : List UInt8) : Context Sha1.State :=
  let j := ((ctx.count0 >>> 3) &&& 63).toNat
  let count0 := ctx.count0 + (UInt32.ofNat data.length <<< 3)
  let count1 := ctx.count1 + carry count0 (UInt32.ofNat data.length <<< 3) +
    (UInt64.ofNat data.length >>> 29).toUInt32
  if 63 < j + data.length then
    let buffer := copyAt ctx.buffer j (data.take (64 - j))
    let s := loop Sha1.transform 64 data.length (Sha1.transform ctx.state buffer.1) (data.drop (64 - j))
    ⟨s.1, count0, count1, copyAt buffer 0 s.2⟩
  else ⟨ctx.state, count0, count1, copyAt ctx.buffer j data⟩

namespace Context

variable {State : Type} {transform : State → List UInt8 → State} {initial : State} {msg : List UInt8}
  {ctx : Context State}

/-- What both updates do to a context: the data fills the buffer or it does not. -/
def put (transform : State → List UInt8 → State) (ctx : Context State) (index : Nat) (data : List UInt8) :
    State × Buffer UInt8 64 :=
  if 64 ≤ index + data.length then
    let buffer := copyAt ctx.buffer index (data.take (64 - index))
    let s := loop transform 64 data.length (transform ctx.state buffer.1) (data.drop (64 - index))
    (s.1, copyAt buffer 0 s.2)
  else (ctx.state, copyAt ctx.buffer index data)

theorem Taken.put (h : Taken transform initial msg ctx) (data : List UInt8) :
    Absorbed transform initial (msg ++ data) (ctx.put transform (msg.length % 64) data).1
      (ctx.put transform (msg.length % 64) data).2 := by
  unfold Context.put
  split
  · rename_i hfull
    have hloop := @loop_eq _ _ transform 64 (by decide) data.length
      (transform ctx.state (copyAt ctx.buffer (msg.length % 64) (data.take (64 - msg.length % 64))).1)
      (data.drop (64 - msg.length % 64)) (by rw [List.length_drop]; omega)
    simp only [hloop]
    exact h.absorbed.fill data (by decide) hfull _
  · rename_i hroom
    exact h.absorbed.stay data (Nat.lt_of_not_le hroom)

end Context

theorem md5Update_taken {msg : List UInt8} {ctx : Context Md5.State}
    (h : ctx.Taken Md5.transform Md5.initial msg) (input : List UInt8) :
    (md5Update ctx input).Taken Md5.transform Md5.initial (msg ++ input) := by
  have hlow : (UInt64.ofNat input.length * 8).toUInt32.toNat = 8 * input.length % 2 ^ 32 := by
    have hlen : (UInt64.ofNat input.length).toNat = input.length % 2 ^ 64 := UInt64.toNat_ofNat'
    have hmul : (UInt64.ofNat input.length * 8).toNat = input.length % 2 ^ 64 * 8 % 2 ^ 64 := by
      rw [UInt64.toNat_mul, hlen]
      rfl
    rw [UInt64.toNat_toUInt32, hmul]
    omega
  have hput := h.put input
  have hbits := @bits_count ctx.count0 ctx.count1 _ input.length hlow
  have hbefore := h.bits_eq
  unfold Context.put at hput
  unfold Context.bits at hbefore
  have hroom : 64 - msg.length % 64 ≤ input.length ↔ 64 ≤ msg.length % 64 + input.length := by omega
  have htotal : (8 * msg.length % 2 ^ 64 + 8 * input.length) % 2 ^ 64 = 8 * (msg ++ input).length % 2 ^ 64 := by
    rw [List.length_append]
    omega
  rw [hbefore, htotal] at hbits
  unfold md5Update
  simp only [h.index]
  by_cases hfull : 64 ≤ msg.length % 64 + input.length
  · rw [if_pos hfull] at hput
    rw [if_pos (hroom.2 hfull)]
    exact ⟨hput, hbits⟩
  · rw [if_neg hfull] at hput
    rw [if_neg (mt hroom.1 hfull)]
    exact ⟨hput, hbits⟩

theorem sha1Update_taken {msg : List UInt8} {ctx : Context Sha1.State}
    (h : ctx.Taken Sha1.transform Sha1.initial msg) (data : List UInt8) :
    (sha1Update ctx data).Taken Sha1.transform Sha1.initial (msg ++ data) := by
  have hlow : (UInt32.ofNat data.length <<< 3).toNat = 8 * data.length % 2 ^ 32 := by
    have hlen : (UInt32.ofNat data.length).toNat = data.length % 2 ^ 32 := UInt32.toNat_ofNat'
    have hshl : (UInt32.ofNat data.length <<< 3).toNat = data.length % 2 ^ 32 * 2 ^ 3 % 2 ^ 32 := by
      rw [UInt32.toNat_shiftLeft, hlen]
      exact congrArg (· % 2 ^ 32) (Nat.shiftLeft_eq _ 3)
    rw [hshl]
    omega
  have hput := h.put data
  have hbits := @bits_count ctx.count0 ctx.count1 _ data.length hlow
  have hbefore := h.bits_eq
  unfold Context.put at hput
  unfold Context.bits at hbefore
  have htotal : (8 * msg.length % 2 ^ 64 + 8 * data.length) % 2 ^ 64 = 8 * (msg ++ data).length % 2 ^ 64 := by
    rw [List.length_append]
    omega
  rw [hbefore, htotal] at hbits
  unfold sha1Update
  have hindex : ((ctx.count0 >>> 3) &&& 63).toNat = msg.length % 64 := h.index
  simp only [hindex]
  by_cases hfull : 64 ≤ msg.length % 64 + data.length
  · rw [if_pos hfull] at hput
    rw [if_pos (show 63 < msg.length % 64 + data.length from hfull)]
    exact ⟨hput, hbits⟩
  · rw [if_neg hfull] at hput
    rw [if_neg (show ¬ 63 < msg.length % 64 + data.length from hfull)]
    exact ⟨hput, hbits⟩

/-- `sha256_impl::Context`, which counts the bytes. -/
structure Context256 where
  state : Sha256.State
  count : UInt64
  buffer : Buffer UInt8 64

namespace Context256

def init (buffer : Buffer UInt8 64) : Context256 := ⟨Sha256.initial, 0, buffer⟩

structure Taken (msg : List UInt8) (ctx : Context256) : Prop where
  absorbed : Absorbed Sha256.transform Sha256.initial msg ctx.state ctx.buffer
  count_eq : ctx.count.toNat = msg.length % 2 ^ 64

theorem taken_init (buffer : Buffer UInt8 64) : Taken [] (init buffer) where
  absorbed := absorbed_nil Sha256.transform Sha256.initial buffer
  count_eq := rfl

theorem Taken.index {msg : List UInt8} {ctx : Context256} (h : ctx.Taken msg) :
    (ctx.count &&& 63).toNat = msg.length % 64 := by
  have hand : (ctx.count &&& 63).toNat = ctx.count.toNat % 2 ^ 6 :=
    (UInt64.toNat_and _ 63).trans (Nat.and_two_pow_sub_one_eq_mod _ 6)
  rw [hand, h.count_eq]
  omega

end Context256

def sha256Update (ctx : Context256) (data : List UInt8) : Context256 :=
  let index := (ctx.count &&& 63).toNat
  let count := ctx.count + UInt64.ofNat data.length
  let take := min data.length (64 - index)
  let buffer := if 0 < index then copyAt ctx.buffer index (data.take take) else ctx.buffer
  let state := if 0 < index ∧ index + take = 64 then Sha256.transform ctx.state buffer.1 else ctx.state
  let s := loop Sha256.transform 64 data.length state (if 0 < index then data.drop take else data)
  ⟨s.1, count, if s.2 ≠ [] then copyAt buffer 0 s.2 else buffer⟩

theorem sha256Update_taken {msg : List UInt8} {ctx : Context256} (h : ctx.Taken msg) (data : List UInt8) :
    (sha256Update ctx data).Taken (msg ++ data) := by
  have hcount : (ctx.count + UInt64.ofNat data.length).toNat = (msg ++ data).length % 2 ^ 64 := by
    have hlen : (UInt64.ofNat data.length).toNat = data.length % 2 ^ 64 := UInt64.toNat_ofNat'
    rw [UInt64.toNat_add, h.count_eq, hlen, List.length_append]
    omega
  have hcopy : ∀ (b : Buffer UInt8 64) (xs : List UInt8), (if xs ≠ [] then copyAt b 0 xs else b) = copyAt b 0 xs := by
    intro b xs
    split
    · rfl
    · rename_i hnil
      rw [not_not.1 hnil, copyAt_nil b (Nat.zero_le 64)]
  have hloop : ∀ (s : Sha256.State) {xs : List UInt8}, xs.length ≤ data.length →
      loop Sha256.transform 64 data.length s xs = ((blocks 64 xs).foldl Sha256.transform s, rest 64 xs) :=
    fun s _ hle => loop_eq Sha256.transform (by decide) s hle
  have hmod := Nat.mod_lt msg.length (show 64 > 0 by decide)
  unfold sha256Update
  simp only [h.index, hcopy]
  by_cases hindex : 0 < msg.length % 64
  · rw [if_pos hindex, if_pos hindex]
    rcases Nat.lt_or_ge (msg.length % 64 + data.length) 64 with hroom | hfull
    · rw [Nat.min_eq_left (by omega), if_neg (by omega), List.take_length, List.drop_length, hloop _ (Nat.zero_le _)]
      refine ⟨?_, hcount⟩
      have hstay := h.absorbed.stay data hroom
      rw [← copyAt_nil (copyAt ctx.buffer (msg.length % 64) data) (Nat.zero_le 64)] at hstay
      exact hstay
    · rw [Nat.min_eq_right (by omega), if_pos ⟨hindex, by omega⟩, hloop _ (by rw [List.length_drop]; omega)]
      exact ⟨h.absorbed.fill data (by decide) hfull _, hcount⟩
  · rw [if_neg hindex, if_neg hindex, if_neg (fun hand => hindex hand.1), hloop _ (Nat.le_refl _)]
    exact ⟨h.absorbed.aligned data (by decide) (Nat.eq_zero_of_not_pos hindex), hcount⟩

/-! ## Bytes of words -/

/-- `static_cast<uint8_t>((w >> n) & 0xFF)` -/
def shiftedByte (w n : UInt32) : UInt8 := ((w >>> n) &&& 0xFF).toUInt8

theorem shiftedByte_eq (w n : UInt32) : shiftedByte w n = UInt8.ofNat (w.toNat / 2 ^ (n.toNat % 32)) := by
  apply UInt8.toNat_inj.1
  have hand : ((w >>> n) &&& 0xFF).toNat = w.toNat / 2 ^ (n.toNat % 32) % 2 ^ 8 := by
    rw [UInt32.toNat_and, UInt32.toNat_shiftRight, Nat.shiftRight_eq_div_pow]
    exact Nat.and_two_pow_sub_one_eq_mod _ 8
  rw [shiftedByte, UInt32.toNat_toUInt8, hand, UInt8.toNat_ofNat', Nat.mod_mod]

theorem ofNat_eq_ofNat {a b : Nat} (h : a % 256 = b % 256) : UInt8.ofNat a = UInt8.ofNat b := by
  apply UInt8.toNat_inj.1
  rw [UInt8.toNat_ofNat', UInt8.toNat_ofNat']
  exact h

theorem littleBytes_word (w : UInt32) :
    [shiftedByte w 0, shiftedByte w 8, shiftedByte w 16, shiftedByte w 24] = littleBytes 4 w.toNat := by
  simp only [shiftedByte_eq]
  rfl

theorem bigBytes_word (w : UInt32) :
    [shiftedByte w 24, shiftedByte w 16, shiftedByte w 8, shiftedByte w 0] = Bytes.beBytes 4 w.toNat := by
  simp only [shiftedByte_eq]
  rfl

theorem bigBytes_split {low high v : Nat} (hlow : low < 2 ^ 32) (h : low + 2 ^ 32 * high = v % 2 ^ 64) :
    Bytes.beBytes 8 v = Bytes.beBytes 4 high ++ Bytes.beBytes 4 low := by
  simp only [Bytes.beBytes, List.cons_append, List.nil_append, List.cons.injEq, and_true]
  refine ⟨?_, ?_, ?_, ?_, ?_, ?_, ?_, ?_⟩
  all_goals
    apply ofNat_eq_ofNat
    omega

theorem littleBytes_split {low high v : Nat} (hlow : low < 2 ^ 32) (h : low + 2 ^ 32 * high = v % 2 ^ 64) :
    littleBytes 8 v = littleBytes 4 low ++ littleBytes 4 high := by
  rw [littleBytes, bigBytes_split hlow h, List.reverse_append]
  rfl

/-! ## `Final` -/

def PADDING : List UInt8 := 0x80 :: List.replicate 63 0

def md5Final (ctx : Context Md5.State) : List UInt8 :=
  let bits := [shiftedByte ctx.count0 0, shiftedByte ctx.count0 8, shiftedByte ctx.count0 16,
    shiftedByte ctx.count0 24, shiftedByte ctx.count1 0, shiftedByte ctx.count1 8, shiftedByte ctx.count1 16,
    shiftedByte ctx.count1 24]
  let index := ((ctx.count0 >>> 3) &&& 0x3F).toNat
  let padLen := if index < 56 then 56 - index else 120 - index
  let ctx := md5Update (md5Update ctx (PADDING.take padLen)) bits
  ctx.state.words.flatMap (fun w => [shiftedByte w 0, shiftedByte w 8, shiftedByte w 16, shiftedByte w 24])

theorem md5Final_eq {msg : List UInt8} {ctx : Context Md5.State} (h : ctx.Taken Md5.transform Md5.initial msg) :
    md5Final ctx = md5Of msg := by
  have hbits : [shiftedByte ctx.count0 0, shiftedByte ctx.count0 8, shiftedByte ctx.count0 16,
      shiftedByte ctx.count0 24, shiftedByte ctx.count1 0, shiftedByte ctx.count1 8, shiftedByte ctx.count1 16,
      shiftedByte ctx.count1 24] = littleBytes 8 (8 * msg.length) := by
    rw [littleBytes_split ctx.count0.toNat_lt h.bits_eq, ← littleBytes_word, ← littleBytes_word]
    rfl
  have hpadding : PADDING.take (if msg.length % 64 < 56 then 56 - msg.length % 64 else 120 - msg.length % 64) =
      0x80 :: List.replicate ((119 - msg.length % 64) % 64) 0 := by
    have hmod := Nat.mod_lt msg.length (show 64 > 0 by decide)
    obtain ⟨k, hk, hk63, hpad⟩ : ∃ k, (if msg.length % 64 < 56 then 56 - msg.length % 64
        else 120 - msg.length % 64) = k + 1 ∧ k ≤ 63 ∧ (119 - msg.length % 64) % 64 = k :=
      ⟨(119 - msg.length % 64) % 64, by split <;> omega, by omega, rfl⟩
    rw [hk, hpad, PADDING, List.take_succ_cons, List.take_replicate, Nat.min_eq_left hk63]
  have hfinal := (md5Update_taken (md5Update_taken h (0x80 :: List.replicate ((119 - msg.length % 64) % 64) 0))
    (littleBytes 8 (8 * msg.length))).absorbed.state_eq
  rw [List.append_assoc, List.cons_append] at hfinal
  unfold md5Final md5Of digestOf pad
  simp only [h.index, hpadding, hbits]
  simp only [littleBytes_word, hfinal]

theorem toNat_and_504 (c : UInt32) : (c &&& 504).toNat = 8 * (c.toNat / 8 % 64) := by
  have hand : c.toNat &&& 504 = ((c.toNat >>> 3) &&& 63) <<< 3 := by
    apply Nat.eq_of_testBit_eq
    intro i
    have hmask : Nat.testBit 504 i = (decide (3 ≤ i) && Nat.testBit 63 (i - 3)) :=
      (congrArg (Nat.testBit · i) (show 504 = 63 <<< 3 from rfl)).trans (Nat.testBit_shiftLeft 63)
    rw [Nat.testBit_and, Nat.testBit_shiftLeft, Nat.testBit_and, Nat.testBit_shiftRight, hmask]
    by_cases hi : 3 ≤ i
    · simp [hi]
    · simp [hi]
  have hlow : (c.toNat >>> 3) &&& 63 = c.toNat / 2 ^ 3 % 2 ^ 6 := by
    rw [Nat.shiftRight_eq_div_pow]
    exact Nat.and_two_pow_sub_one_eq_mod _ 6
  rw [UInt32.toNat_and]
  show c.toNat &&& 504 = _
  rw [hand, hlow, Nat.shiftLeft_eq]
  omega

/-- A loop that takes a zero until 56 bytes of a block are there takes as many zeros as the padding has. -/
theorem taken_zeros {σ : Type} (Taken : σ → List UInt8 → Prop) (zeros : Nat → σ → σ) (feed : σ → σ)
    (hzero : ∀ ctx, zeros 0 ctx = ctx)
    (hdone : ∀ fuel ctx msg, Taken ctx msg → msg.length % 64 = 56 → zeros (fuel + 1) ctx = ctx)
    (hmore : ∀ fuel ctx msg, Taken ctx msg → msg.length % 64 ≠ 56 → zeros (fuel + 1) ctx = zeros fuel (feed ctx))
    (hfeed : ∀ ctx msg, Taken ctx msg → Taken (feed ctx) (msg ++ [0]))
    (fuel : Nat) {msg : List UInt8} {ctx : σ} (h : Taken ctx msg) (hfuel : (120 - msg.length % 64) % 64 ≤ fuel) :
    Taken (zeros fuel ctx) (msg ++ List.replicate ((120 - msg.length % 64) % 64) 0) := by
  induction fuel generalizing msg ctx with
  | zero =>
    rw [Nat.le_zero.1 hfuel, List.replicate_zero, List.append_nil, hzero]
    exact h
  | succ fuel ih =>
    by_cases hmod : msg.length % 64 = 56
    · rw [hdone fuel ctx msg h hmod, hmod]
      simpa using h
    · rw [hmore fuel ctx msg h hmod]
      have hlen : (msg ++ [0]).length % 64 = (msg.length % 64 + 1) % 64 := by
        rw [List.length_append, List.length_singleton, Nat.mod_add_mod]
      have hnext : (120 - msg.length % 64) % 64 = (120 - (msg ++ [0]).length % 64) % 64 + 1 := by omega
      have hrest := ih (hfeed ctx msg h) (by omega)
      rw [hnext, List.replicate_succ]
      rwa [List.append_assoc, List.singleton_append] at hrest

/-- `while ((ctx.count[0] & 504) != 448) { c = 0x00; Update(ctx, &c, 1); }`, which no buffer goes through more than 63
times. -/
def sha1Zeros : Nat → Context Sha1.State → Context Sha1.State
  | 0, ctx => ctx
  | fuel + 1, ctx => if ctx.count0 &&& 504 ≠ 448 then sha1Zeros fuel (sha1Update ctx [0]) else ctx

theorem sha1_full_iff {msg : List UInt8} {ctx : Context Sha1.State}
    (h : ctx.Taken Sha1.transform Sha1.initial msg) : ctx.count0 &&& 504 = 448 ↔ msg.length % 64 = 56 := by
  have hbits := h.bits_eq
  unfold Context.bits at hbits
  have hlt := ctx.count0.toNat_lt
  rw [← UInt32.toNat_inj, toNat_and_504]
  show 8 * (ctx.count0.toNat / 8 % 64) = 448 ↔ _
  omega

theorem sha1Zeros_taken (fuel : Nat) {msg : List UInt8} {ctx : Context Sha1.State}
    (h : ctx.Taken Sha1.transform Sha1.initial msg) (hfuel : (120 - msg.length % 64) % 64 ≤ fuel) :
    (sha1Zeros fuel ctx).Taken Sha1.transform Sha1.initial
      (msg ++ List.replicate ((120 - msg.length % 64) % 64) 0) := by
  refine taken_zeros (fun ctx msg => ctx.Taken Sha1.transform Sha1.initial msg) sha1Zeros
    (fun ctx => sha1Update ctx [0]) (fun _ => rfl) ?_ ?_ (fun _ _ htaken => sha1Update_taken htaken [0]) fuel h hfuel
  · intro fuel ctx msg htaken hmod
    exact if_neg (not_not.2 ((sha1_full_iff htaken).2 hmod))
  · intro fuel ctx msg htaken hmod
    exact if_pos (mt (sha1_full_iff htaken).1 hmod)

def sha1Final (ctx : Context Sha1.State) : List UInt8 :=
  let finalcount := (List.range 8).map (fun i =>
    shiftedByte (if 4 ≤ i then ctx.count0 else ctx.count1) (UInt32.ofNat ((3 - (i &&& 3)) * 8)))
  let ctx := sha1Update (sha1Zeros 64 (sha1Update ctx [0x80])) finalcount
  (List.range 20).map (fun i =>
    shiftedByte (ctx.state.words.getD (i >>> 2) 0) (UInt32.ofNat ((3 - (i &&& 3)) * 8)))

theorem sha1Final_eq {msg : List UInt8} {ctx : Context Sha1.State} (h : ctx.Taken Sha1.transform Sha1.initial msg) :
    sha1Final ctx = sha1Of msg := by
  have hcount : (List.range 8).map (fun i =>
      shiftedByte (if 4 ≤ i then ctx.count0 else ctx.count1) (UInt32.ofNat ((3 - (i &&& 3)) * 8))) =
      Bytes.beBytes 8 (8 * msg.length) := by
    rw [bigBytes_split ctx.count0.toNat_lt h.bits_eq, ← bigBytes_word, ← bigBytes_word]
    rfl
  have hout : ∀ s : Sha1.State, (List.range 20).map (fun i =>
      shiftedByte (s.words.getD (i >>> 2) 0) (UInt32.ofNat ((3 - (i &&& 3)) * 8))) =
      s.words.flatMap (fun w => Bytes.beBytes 4 w.toNat) := by
    intro s
    simp only [← bigBytes_word]
    rfl
  have hone := sha1Update_taken h [0x80]
  have hlen : (msg ++ [0x80]).length % 64 = (msg.length % 64 + 1) % 64 := by
    rw [List.length_append, List.length_singleton, Nat.mod_add_mod]
  have hzeros := sha1Zeros_taken 64 hone (by omega)
  have hnumber : (120 - (msg ++ [0x80]).length % 64) % 64 = (119 - msg.length % 64) % 64 := by omega
  rw [hnumber] at hzeros
  have hfinal := (sha1Update_taken hzeros (Bytes.beBytes 8 (8 * msg.length))).absorbed.state_eq
  rw [List.append_assoc, List.append_assoc, List.singleton_append] at hfinal
  unfold sha1Final sha1Of digestOf pad
  simp only [hcount, hout, hfinal]

/-- `while ((ctx.count & 63) != 56) Update(ctx, &zero, 1);` -/
def sha256Zeros : Nat → Context256 → Context256
  | 0, ctx => ctx
  | fuel + 1, ctx => if ctx.count &&& 63 ≠ 56 then sha256Zeros fuel (sha256Update ctx [0]) else ctx

theorem sha256_full_iff {msg : List UInt8} {ctx : Context256} (h : ctx.Taken msg) :
    ctx.count &&& 63 = 56 ↔ msg.length % 64 = 56 := by
  rw [← UInt64.toNat_inj, h.index]
  rfl

theorem sha256Zeros_taken (fuel : Nat) {msg : List UInt8} {ctx : Context256} (h : ctx.Taken msg)
    (hfuel : (120 - msg.length % 64) % 64 ≤ fuel) :
    (sha256Zeros fuel ctx).Taken (msg ++ List.replicate ((120 - msg.length % 64) % 64) 0) := by
  refine taken_zeros (fun ctx msg => ctx.Taken msg) sha256Zeros (fun ctx => sha256Update ctx [0]) (fun _ => rfl) ?_ ?_
    (fun _ _ htaken => sha256Update_taken htaken [0]) fuel h hfuel
  · intro fuel ctx msg htaken hmod
    exact if_neg (not_not.2 ((sha256_full_iff htaken).2 hmod))
  · intro fuel ctx msg htaken hmod
    exact if_pos (mt (sha256_full_iff htaken).1 hmod)

/-- `static_cast<uint8_t>((w >> n) & 0xFF)` of a 64-bit word. -/
def shiftedByte64 (w n : UInt64) : UInt8 := ((w >>> n) &&& 0xFF).toUInt8

theorem shiftedByte64_eq (w n : UInt64) : shiftedByte64 w n = UInt8.ofNat (w.toNat / 2 ^ (n.toNat % 64)) := by
  apply UInt8.toNat_inj.1
  have hand : ((w >>> n) &&& 0xFF).toNat = w.toNat / 2 ^ (n.toNat % 64) % 2 ^ 8 := by
    rw [UInt64.toNat_and, UInt64.toNat_shiftRight, Nat.shiftRight_eq_div_pow]
    exact Nat.and_two_pow_sub_one_eq_mod _ 8
  rw [shiftedByte64, UInt64.toNat_toUInt8, hand, UInt8.toNat_ofNat', Nat.mod_mod]

def sha256Final (ctx : Context256) : List UInt8 :=
  let totalBits := ctx.count * 8
  let bits := (List.range 8).map (fun i => shiftedByte64 totalBits (UInt64.ofNat ((7 - i) * 8)))
  let ctx := sha256Update (sha256Zeros 64 (sha256Update ctx [0x80])) bits
  ctx.state.words.flatMap (fun w => [shiftedByte w 24, shiftedByte w 16, shiftedByte w 8, shiftedByte w 0])

theorem sha256Final_eq {msg : List UInt8} {ctx : Context256} (h : ctx.Taken msg) :
    sha256Final ctx = sha256Of msg := by
  have htotal : (ctx.count * 8).toNat = 8 * msg.length % 2 ^ 64 := by
    rw [UInt64.toNat_mul, h.count_eq]
    show msg.length % 2 ^ 64 * 8 % 2 ^ 64 = _
    omega
  have hbits : (List.range 8).map (fun i => shiftedByte64 (ctx.count * 8) (UInt64.ofNat ((7 - i) * 8))) =
      Bytes.beBytes 8 (8 * msg.length) := by
    simp only [shiftedByte64_eq, htotal]
    have hsplit := @bigBytes_split (8 * msg.length % 2 ^ 64 % 2 ^ 32) (8 * msg.length % 2 ^ 64 / 2 ^ 32)
      (8 * msg.length % 2 ^ 64) (Nat.mod_lt _ (by decide)) (by omega)
    have hmod := @bigBytes_split (8 * msg.length % 2 ^ 64 % 2 ^ 32) (8 * msg.length % 2 ^ 64 / 2 ^ 32)
      (8 * msg.length) (Nat.mod_lt _ (by decide)) (by omega)
    rw [hmod, ← hsplit]
    rfl
  have hone := sha256Update_taken h [0x80]
  have hlen : (msg ++ [0x80]).length % 64 = (msg.length % 64 + 1) % 64 := by
    rw [List.length_append, List.length_singleton, Nat.mod_add_mod]
  have hzeros := sha256Zeros_taken 64 hone (by omega)
  have hnumber : (120 - (msg ++ [0x80]).length % 64) % 64 = (119 - msg.length % 64) % 64 := by omega
  rw [hnumber] at hzeros
  have hfinal := (sha256Update_taken hzeros (Bytes.beBytes 8 (8 * msg.length))).absorbed.state_eq
  rw [List.append_assoc, List.append_assoc, List.singleton_append] at hfinal
  unfold sha256Final sha256Of digestOf pad
  simp only [hbits, bigBytes_word, hfinal]

/-! ## A message in parts -/

/-- What an update keeps for one part it keeps for all of them. -/
theorem foldl_taken {Ctx : Type} {Taken : List UInt8 → Ctx → Prop} {update : Ctx → List UInt8 → Ctx}
    (hstep : ∀ {msg : List UInt8} {ctx : Ctx}, Taken msg ctx → ∀ part, Taken (msg ++ part) (update ctx part))
    (parts : List (List UInt8)) {msg : List UInt8} {ctx : Ctx} (h : Taken msg ctx) :
    Taken (msg ++ parts.flatten) (parts.foldl update ctx) := by
  induction parts generalizing msg ctx with
  | nil => simpa using h
  | cons part parts ih =>
    have hrest := ih (hstep h part)
    rwa [List.append_assoc, ← List.flatten_cons] at hrest

theorem md5Updates_taken (buffer : Buffer UInt8 64) (parts : List (List UInt8)) :
    (parts.foldl md5Update (.init Md5.initial buffer)).Taken Md5.transform Md5.initial parts.flatten :=
  foldl_taken md5Update_taken parts (Context.taken_init _ _ buffer)

theorem sha1Updates_taken (buffer : Buffer UInt8 64) (parts : List (List UInt8)) :
    (parts.foldl sha1Update (.init Sha1.initial buffer)).Taken Sha1.transform Sha1.initial parts.flatten :=
  foldl_taken sha1Update_taken parts (Context.taken_init _ _ buffer)

theorem sha256Updates_taken (buffer : Buffer UInt8 64) (parts : List (List UInt8)) :
    (parts.foldl sha256Update (.init buffer)).Taken parts.flatten :=
  foldl_taken sha256Update_taken parts (Context256.taken_init buffer)

/-- Whatever the parts of a message are and whatever is in the buffer before, the digests are those of the message, and
the two words count its bits. -/
theorem digests_of_parts (buffer : Buffer UInt8 64) (parts : List (List UInt8)) :
    (md5Final (parts.foldl md5Update (.init Md5.initial buffer)) = md5Of parts.flatten ∧
      (parts.foldl md5Update (.init Md5.initial buffer)).bits = 8 * parts.flatten.length % 2 ^ 64) ∧
    (sha1Final (parts.foldl sha1Update (.init Sha1.initial buffer)) = sha1Of parts.flatten ∧
      (parts.foldl sha1Update (.init Sha1.initial buffer)).bits = 8 * parts.flatten.length % 2 ^ 64) ∧
    (sha256Final (parts.foldl sha256Update (.init buffer)) = sha256Of parts.flatten ∧
      8 * (parts.foldl sha256Update (.init buffer)).count.toNat % 2 ^ 64 = 8 * parts.flatten.length % 2 ^ 64) := by
  have hmd5 := md5Updates_taken buffer parts
  have hsha1 := sha1Updates_taken buffer parts
  have hsha256 := sha256Updates_taken buffer parts
  refine ⟨⟨md5Final_eq hmd5, hmd5.bits_eq⟩, ⟨sha1Final_eq hsha1, hsha1.bits_eq⟩, sha256Final_eq hsha256, ?_⟩
  rw [hsha256.count_eq]
  omega

set_option maxRecDepth 8192 in
example : md5Of [97, 98, 99] = [0x90, 0x01, 0x50, 0x98, 0x3c, 0xd2, 0x4f, 0xb0, 0xd6, 0x96, 0x3f, 0x7d, 0x28, 0xe1,
    0x7f, 0x72] := by
  decide

end ArtPi.Hash
