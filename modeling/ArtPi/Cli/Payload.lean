import ArtPi.Lib.Bytes

set_option autoImplicit false

/-! # Payloads behind the executable (`cli/injector/payload.cpp`, `cli/injector/build.gradle`)

The build appends blocks `[payload][magic][size]` to the injector, and the injector looks for one of
them in its own image, from the last block towards the first. Each size it reads says where the block
in front ends; the walk stops at the first trailer whose size does not fit. That test adds the size
and the length of the trailer as 64-bit numbers, so a base image that ends in a size close to `2 ^ 64`
is taken for one more block. -/

namespace ArtPi.Cli

/-- magic(8) + size(8) -/
def kTrailer : Nat := 16

/-- What `memcmp(trailer, magic, 8)` compares. -/
abbrev Magic := {m : List UInt8 // m.length = 8}

/-! ## The packer -/

/-- A payload to append, with its magic. -/
structure Block where
  payload : List UInt8
  magic : Magic
  nonempty : payload ≠ []

/-- The eight bytes `sz` of a length. -/
def sizeBytes (payloadLen : Nat) : List UInt8 :=
  (List.range 8).map (fun i => UInt8.ofNat (payloadLen >>> (8 * i) &&& 0xff))

def appendPayload (os : List UInt8) (b : Block) : List UInt8 :=
  os ++ (b.payload ++ (b.magic.val ++ sizeBytes b.payload.length))

/-- The image with its chain of blocks. -/
def pack (base : List UInt8) (chain : List Block) : List UInt8 := chain.foldl appendPayload base

/-! ## The reader -/

/-- A `uint64_t` cast to `off_t`. -/
def toOff (size : Nat) : Int := if size < 2 ^ 63 then size else size - 2 ^ 64

/-- `pread` on a regular file: no bytes at a negative offset (`EINVAL`), and never more than
    `0x7ffff000` bytes in one call. -/
def pread (file : List UInt8) (count : Nat) (off : Int) : List UInt8 :=
  if off < 0 then [] else (file.drop off.toNat).take (min count 0x7ffff000)

/-- The loop that sets `size` from a trailer. -/
def trailerSize (trailer : List UInt8) : Nat :=
  (List.range 8).foldl (fun size i => size ||| (trailer.getD (8 + i) 0).toNat <<< (8 * i)) 0

def isXzStream (data : List UInt8) : Bool :=
  6 ≤ data.length && data.take 6 == [0xFD, 0x37, 0x7A, 0x58, 0x5A, 0x00]

/-- The loop that fills `rawPayload`; `raw` are the bytes done. `none` is a short read. -/
def readPayload (file : List UInt8) (size : Nat) (payloadOff : Int) (raw : List UInt8) :
    Option (List UInt8) :=
  if raw.length < size then
    match pread file (size - raw.length) (payloadOff + raw.length) with
    | [] => none
    | b :: bs => readPayload file size payloadOff (raw ++ b :: bs)
  else some raw
termination_by size - raw.length
decreasing_by simp only [List.length_append, List.length_cons]; omega

/-- How the function ends: it returns, with `out` or with `err`, or the vector for the payload is
    longer than `max_size()`, which ends the process (the injector is built without exceptions). -/
inductive Outcome where
  | returns (result : Except String (List UInt8))
  | aborts
  deriving DecidableEq

/-- One round of the walk: the function ends, or the walk goes on at another end. -/
inductive Turn where
  | done (outcome : Outcome)
  | next (currentEnd : Int)

def fails (err : String) : Outcome := .returns (.error err)

def magicNotFound (magic : Magic) : String :=
  "payload magic not found: " ++
    String.ofList ((magic.val.takeWhile (· ≠ 0)).map (fun b => Char.ofNat b.toNat))

section Reader

variable (decompressXz : List UInt8 → Except String (List UInt8))

/-- What the function makes of the payload it has read. -/
def deliver (rawPayload : List UInt8) : Outcome :=
  .returns (if isXzStream rawPayload then decompressXz rawPayload else .ok rawPayload)

/-- The body of the loop, with its condition. -/
def turn (file : List UInt8) (magic : Magic) (currentEnd : Int) : Turn :=
  let trailer := pread file kTrailer (currentEnd - kTrailer)
  let size := trailerSize trailer
  let payloadOff := currentEnd - kTrailer - toOff size
  if currentEnd < kTrailer ∨ trailer.length ≠ kTrailer then .done (fails (magicNotFound magic))
  else if size = 0 ∨ currentEnd < ((size + kTrailer) % 2 ^ 64 : Nat) then
    .done (fails (magicNotFound magic))
  else if trailer.take 8 = magic.val then
    -- `std::vector<uint8_t> rawPayload((size_t)size)`
    if 2 ^ 63 ≤ size then .done .aborts
    else
      match readPayload file size payloadOff [] with
      | none => .done (fails "payload short read")
      | some rawPayload => .done (deliver decompressXz rawPayload)
  else .next payloadOff

/-- The loop; `none` is a walk that `fuel` rounds do not finish. -/
def walk (file : List UInt8) (magic : Magic) : Nat → Int → Option Outcome
  | 0, _ => none
  | fuel + 1, currentEnd =>
    match turn decompressXz file magic currentEnd with
    | .done outcome => some outcome
    | .next payloadOff => walk file magic fuel payloadOff

/-- `ExtractEmbeddedPayload` on an image that can be opened. -/
def extractEmbeddedPayload (file : List UInt8) (magic : Magic) (fuel : Nat) : Option Outcome :=
  if file.length ≤ kTrailer then some (fails "own exe too small")
  else walk decompressXz file magic fuel file.length

/-- The function delivers the payload of a magic in the chain and fails for any other. -/
def ExtractsRight (base : List UInt8) (chain : List Block) (magic : Magic) : Prop :=
  (∀ b ∈ chain, b.magic = magic →
    ∃ fuel, extractEmbeddedPayload decompressXz (pack base chain) magic fuel
      = some (deliver decompressXz b.payload)) ∧
  ((∀ b ∈ chain, b.magic ≠ magic) →
    ∃ fuel err, extractEmbeddedPayload decompressXz (pack base chain) magic fuel
      = some (fails err))

end Reader

/-- The image ends in a size that wraps around when the length of a trailer is added to it. -/
def SizeWraps (base : List UInt8) : Prop :=
  kTrailer ≤ base.length ∧
    2 ^ 64 ≤ trailerSize (base.drop (base.length - kTrailer)) + kTrailer

instance (base : List UInt8) : Decidable (SizeWraps base) := inferInstanceAs (Decidable (_ ∧ _))

/-! ## Reading what was packed -/

theorem trailerSize_eq (trailer : List UInt8) (h : trailer.length = kTrailer) :
    trailerSize trailer = Bytes.leNat (trailer.drop 8) := by
  have hlen : (trailer.drop 8).length = 8 := by rw [List.length_drop, h]; rfl
  have hget : ∀ i, (trailer.drop 8).getD i 0 = trailer.getD (8 + i) 0 := by
    intro i
    rw [List.getD_eq_getElem?_getD, List.getElem?_drop, List.getD_eq_getElem?_getD]
  have hfold := Bytes.foldl_or_shl (trailer.drop 8)
  rw [hlen] at hfold
  rw [← hfold]
  unfold trailerSize
  simp only [hget]

@[simp] theorem length_sizeBytes (n : Nat) : (sizeBytes n).length = 8 := by
  unfold sizeBytes
  rw [List.length_map, List.length_range]

theorem leNat_sizeBytes {n : Nat} (h : n < 2 ^ 64) : Bytes.leNat (sizeBytes n) = n := by
  unfold sizeBytes
  rw [Bytes.leNat_map_shr]
  exact Nat.mod_eq_of_lt h

/-- A piece of a file that is not longer than what one call reads. -/
theorem pread_mid {pre mid post : List UInt8} {count : Nat} (hlen : mid.length = count)
    (hcount : count ≤ 0x7ffff000) {off : Int} (hoff : off = pre.length) :
    pread (pre ++ (mid ++ post)) count off = mid := by
  unfold pread
  rw [hoff, if_neg (by omega), Int.toNat_natCast, List.drop_left, Nat.min_eq_left hcount]
  exact List.take_left' hlen

/-- The loop reads the piece at its offset, in as many calls as that takes. -/
theorem readPayload_mid (pre mid post raw : List UInt8) :
    readPayload (pre ++ (raw ++ (mid ++ post))) (raw.length + mid.length) pre.length raw
      = some (raw ++ mid) := by
  -- on what is left to read: a call may return less of it than it was asked for
  induction hn : mid.length using Nat.strong_induction_on generalizing mid raw with
  | _ n ih =>
    have hdrop : pread (pre ++ (raw ++ (mid ++ post))) mid.length
          ((pre.length : Int) + raw.length)
        = mid.take 0x7ffff000 := by
      unfold pread
      rw [if_neg (by omega), ← List.append_assoc pre,
        show ((pre.length : Int) + raw.length).toNat = (pre ++ raw).length by
          rw [List.length_append]; omega,
        List.drop_left, List.take_append_of_le_length (Nat.min_le_left _ _)]
      rcases Nat.le_total mid.length 0x7ffff000 with hle | hle
      · rw [Nat.min_eq_left hle, List.take_length, List.take_of_length_le hle]
      · rw [Nat.min_eq_right hle]
    unfold readPayload
    by_cases hmid : mid = []
    · subst hmid
      rw [← hn, if_neg (by simp), List.append_nil]
    · have hpos : 0 < mid.length := List.length_pos_iff.2 hmid
      rw [← hn, if_pos (by omega), Nat.add_sub_cancel_left, hdrop]
      cases htake : mid.take 0x7ffff000 with
      | nil => exact absurd htake (by simp [hmid])
      | cons b bs =>
        have hsplit : mid = (b :: bs) ++ mid.drop 0x7ffff000 := by
          rw [← htake, List.take_append_drop]
        have hrest := ih (mid.drop 0x7ffff000).length (by rw [List.length_drop]; omega)
          (mid.drop 0x7ffff000) (raw ++ b :: bs) rfl
        have hfile : pre ++ ((raw ++ b :: bs) ++ (mid.drop 0x7ffff000 ++ post))
            = pre ++ (raw ++ (mid ++ post)) := by
          conv_rhs => rw [hsplit]
          simp only [List.append_assoc]
        have hsize : (raw ++ b :: bs).length + (mid.drop 0x7ffff000).length
            = raw.length + mid.length := by
          rw [List.length_append, Nat.add_assoc, ← List.length_append, ← hsplit]
        rw [hfile, hsize, List.append_assoc, ← hsplit] at hrest
        exact hrest

/-! ## The walk over the chain -/

section Walk

variable (decompressXz : List UInt8 → Except String (List UInt8))

theorem length_trailer (b : Block) :
    (b.magic.val ++ sizeBytes b.payload.length).length = kTrailer := by
  rw [List.length_append, length_sizeBytes, b.magic.property]
  rfl

theorem length_appendPayload (os : List UInt8) (b : Block) :
    (appendPayload os b).length = os.length + b.payload.length + kTrailer := by
  unfold appendPayload
  rw [List.length_append, List.length_append, length_trailer, ← Nat.add_assoc]

theorem pack_concat (base : List UInt8) (chain : List Block) (b : Block) :
    pack base (chain ++ [b]) = appendPayload (pack base chain) b := by
  unfold pack
  rw [List.foldl_append, List.foldl_cons, List.foldl_nil]

theorem pack_append (base : List UInt8) (chain : List Block) :
    ∃ post, pack base chain = base ++ post := by
  induction chain using List.reverseRecOn with
  | nil => exact ⟨[], (List.append_nil base).symm⟩
  | append_singleton chain b ih =>
    obtain ⟨post, hpost⟩ := ih
    rw [pack_concat, hpost]
    unfold appendPayload
    exact ⟨_, List.append_assoc _ _ _⟩

theorem length_pack_of_mem (base : List UInt8) {chain : List Block} {b : Block} (hb : b ∈ chain) :
    kTrailer < (pack base chain).length := by
  induction chain using List.reverseRecOn with
  | nil => exact absurd hb (by simp)
  | append_singleton chain c ih =>
    have hpos : 0 < c.payload.length := List.length_pos_iff.2 c.nonempty
    rw [pack_concat, length_appendPayload]
    omega

/-- At the end of a block the trailer gives its magic and the length of its payload. -/
theorem trailer_appendPayload (os : List UInt8) (b : Block) (post : List UInt8)
    (hlen : (appendPayload os b).length < 2 ^ 63) :
    pread (appendPayload os b ++ post) kTrailer ((appendPayload os b).length - kTrailer)
        = b.magic.val ++ sizeBytes b.payload.length ∧
      trailerSize (b.magic.val ++ sizeBytes b.payload.length) = b.payload.length := by
  rw [length_appendPayload] at hlen
  constructor
  · have hfile : appendPayload os b ++ post
        = (os ++ b.payload) ++ ((b.magic.val ++ sizeBytes b.payload.length) ++ post) := by
      unfold appendPayload
      simp only [List.append_assoc]
    rw [hfile]
    refine pread_mid (length_trailer b) (by decide) ?_
    rw [length_appendPayload, List.length_append]
    omega
  · rw [trailerSize_eq _ (length_trailer b), List.drop_left' b.magic.property]
    exact leNat_sizeBytes (by omega)

/-- One round at the end of a block delivers its payload or goes on in front of it. -/
theorem turn_appendPayload (os : List UInt8) (b : Block) (post : List UInt8) (magic : Magic)
    (hlen : (appendPayload os b).length < 2 ^ 63) :
    turn decompressXz (appendPayload os b ++ post) magic (appendPayload os b).length
      = if b.magic = magic then .done (deliver decompressXz b.payload) else .next os.length := by
  obtain ⟨htrailer, hsize⟩ := trailer_appendPayload os b post hlen
  have hend := length_appendPayload os b
  have hpos : 0 < b.payload.length := List.length_pos_iff.2 b.nonempty
  have hoff : ((appendPayload os b).length : Int) - kTrailer - toOff b.payload.length
      = os.length := by
    unfold toOff
    rw [if_pos (by omega)]
    omega
  have hfits : ((appendPayload os b).length : Int)
      ≥ ((b.payload.length + kTrailer) % 2 ^ 64 : Nat) := by
    have := Nat.mod_le (b.payload.length + kTrailer) (2 ^ 64)
    omega
  have hread : readPayload (appendPayload os b ++ post) b.payload.length os.length []
      = some b.payload := by
    have h := readPayload_mid os b.payload (b.magic.val ++ sizeBytes b.payload.length ++ post) []
    unfold appendPayload
    simpa only [List.nil_append, List.length_nil, Nat.zero_add, List.append_assoc] using h
  have htrailerLen := length_trailer b
  unfold turn
  simp only [htrailer, hsize, hoff, List.take_left' b.magic.property]
  rw [if_neg (by omega), if_neg (by omega)]
  by_cases hmagic : b.magic = magic
  · rw [if_pos (congrArg Subtype.val hmagic), if_neg (by omega), hread, if_pos hmagic]
  · rw [if_neg (fun h => hmagic (Subtype.ext h)), if_neg hmagic]

/-- A magic that is not in the chain takes the walk to the end of the base image. -/
theorem walk_pack_of_notMem (base : List UInt8) (chain : List Block) (magic : Magic)
    (hmagic : ∀ b ∈ chain, b.magic ≠ magic) (post : List UInt8)
    (hlen : (pack base chain).length < 2 ^ 63) (fuel : Nat) :
    walk decompressXz (pack base chain ++ post) magic (fuel + chain.length) (pack base chain).length
      = walk decompressXz (pack base chain ++ post) magic fuel base.length := by
  induction chain using List.reverseRecOn generalizing post with
  | nil => rfl
  | append_singleton chain b ih =>
    rw [pack_concat] at hlen ⊢
    have hb : b.magic ≠ magic := hmagic b (by simp)
    have hfile : ∃ post', appendPayload (pack base chain) b ++ post = pack base chain ++ post' :=
      ⟨_, by unfold appendPayload; rw [List.append_assoc]⟩
    obtain ⟨post', hfile⟩ := hfile
    rw [List.length_append, List.length_singleton, ← Nat.add_assoc]
    conv_lhs => unfold walk
    rw [turn_appendPayload decompressXz _ b post magic hlen, if_neg hb, hfile]
    have hfront := length_appendPayload (pack base chain) b
    exact ih (fun c hc => hmagic c (by simp [hc])) post' (by omega)

theorem walk_pack_of_mem (base : List UInt8) (chain : List Block)
    (hnodup : (chain.map Block.magic).Nodup) (b : Block) (hb : b ∈ chain) (post : List UInt8)
    (hlen : (pack base chain).length < 2 ^ 63) :
    ∃ fuel, walk decompressXz (pack base chain ++ post) b.magic fuel (pack base chain).length
      = some (deliver decompressXz b.payload) := by
  induction chain using List.reverseRecOn generalizing post with
  | nil => exact absurd hb (by simp)
  | append_singleton chain c ih =>
    rw [List.map_append, List.nodup_append] at hnodup
    obtain ⟨hnodup, -, hne⟩ := hnodup
    rw [pack_concat] at hlen ⊢
    rcases List.mem_append.1 hb with hb | hb
    · have hcb : c.magic ≠ b.magic := fun h =>
        hne b.magic (List.mem_map_of_mem hb) c.magic (by simp) h.symm
      have hfront := length_appendPayload (pack base chain) c
      have hfile : appendPayload (pack base chain) c ++ post
          = pack base chain ++ (c.payload ++ (c.magic.val ++ sizeBytes c.payload.length) ++ post) := by
        unfold appendPayload
        simp only [List.append_assoc]
      obtain ⟨fuel, hfuel⟩ := ih hnodup hb
        (c.payload ++ (c.magic.val ++ sizeBytes c.payload.length) ++ post) (by omega)
      refine ⟨fuel + 1, ?_⟩
      unfold walk
      rw [turn_appendPayload decompressXz _ c post b.magic hlen, if_neg hcb, hfile]
      exact hfuel
    · obtain rfl : b = c := by simpa using hb
      refine ⟨1, ?_⟩
      unfold walk
      rw [turn_appendPayload decompressXz _ b post b.magic hlen, if_pos rfl]

/-! ## The end of the base image -/

theorem pread_trailer {base : List UInt8} (hlen : kTrailer ≤ base.length) (post : List UInt8) :
    pread (base ++ post) kTrailer ((base.length : Int) - kTrailer)
      = base.drop (base.length - kTrailer) := by
  have hfile : base ++ post = base.take (base.length - kTrailer) ++
      (base.drop (base.length - kTrailer) ++ post) := by
    rw [← List.append_assoc, List.take_append_drop]
  rw [hfile]
  refine pread_mid (by rw [List.length_drop]; omega) (by decide) ?_
  rw [List.length_take]
  omega

/-- A size that fits in front of the trailer makes the end of the image a block. -/
theorem exists_appendPayload {base : List UInt8} (hlen : kTrailer ≤ base.length)
    (hpos : 0 < trailerSize (base.drop (base.length - kTrailer)))
    (hfits : trailerSize (base.drop (base.length - kTrailer)) + kTrailer ≤ base.length) :
    ∃ os b, base = appendPayload os b := by
  obtain ⟨front, trailer, rfl, htrailer⟩ : ∃ front trailer, base = front ++ trailer ∧
      trailer.length = kTrailer :=
    ⟨_, _, (List.take_append_drop (base.length - kTrailer) base).symm, by
      rw [List.length_drop]; omega⟩
  rw [List.length_append, htrailer, Nat.add_sub_cancel, List.drop_left,
    trailerSize_eq _ htrailer] at hpos hfits
  have hfront : Bytes.leNat (trailer.drop 8) ≤ front.length := by omega
  have hpayload : (front.drop (front.length - Bytes.leNat (trailer.drop 8))).length
      = Bytes.leNat (trailer.drop 8) := by
    rw [List.length_drop]
    omega
  have hmagic : (trailer.take 8).length = 8 := by
    rw [List.length_take, htrailer]
    rfl
  have hsize : (trailer.drop 8).length = 8 := by
    rw [List.length_drop, htrailer]
    rfl
  have hspell : sizeBytes (Bytes.leNat (trailer.drop 8)) = trailer.drop 8 := by
    have hlt := Bytes.leNat_lt (trailer.drop 8)
    rw [hsize] at hlt
    exact Bytes.leNat_inj (by rw [length_sizeBytes, hsize]) (leNat_sizeBytes hlt)
  have hne : front.drop (front.length - Bytes.leNat (trailer.drop 8)) ≠ [] :=
    List.length_pos_iff.1 (by omega)
  refine ⟨front.take (front.length - Bytes.leNat (trailer.drop 8)), ⟨_, ⟨_, hmagic⟩, hne⟩, ?_⟩
  simp only [appendPayload, hpayload, hspell]
  rw [List.take_append_drop, ← List.append_assoc, List.take_append_drop]

/-- The walk ends at an image that neither ends in a block nor in a size that wraps around. -/
theorem turn_base {base : List UInt8} (hbase : ∀ os b, base ≠ appendPayload os b)
    (hwraps : ¬ SizeWraps base) (post : List UInt8) (magic : Magic) :
    turn decompressXz (base ++ post) magic base.length = .done (fails (magicNotFound magic)) := by
  unfold turn
  by_cases hlen : kTrailer ≤ base.length
  · simp only [pread_trailer hlen]
    split
    · rfl
    · rw [if_pos]
      -- a size that passes the test without wrapping around would make the image end in a block
      by_contra hsize
      rw [not_or] at hsize
      have hlt : trailerSize (base.drop (base.length - kTrailer)) + kTrailer < 2 ^ 64 :=
        Nat.lt_of_not_le (fun h => hwraps ⟨hlen, h⟩)
      rw [Nat.mod_eq_of_lt hlt] at hsize
      obtain ⟨os, b, hblock⟩ := exists_appendPayload hlen (Nat.pos_of_ne_zero hsize.1) (by omega)
      exact hbase os b hblock
  · exact if_pos (Or.inl (by omega))

/-- A size that wraps around passes the test, and its magic asks for a vector of that size. -/
theorem turn_base_of_sizeWraps {base : List UInt8} (hwraps : SizeWraps base) (post : List UInt8)
    (magic : Magic)
    (hmagic : (base.drop (base.length - kTrailer)).take 8 = magic.val) :
    turn decompressXz (base ++ post) magic base.length = .done .aborts := by
  obtain ⟨hlen, hsize⟩ := hwraps
  have htrailer : (base.drop (base.length - kTrailer)).length = kTrailer := by
    rw [List.length_drop]
    omega
  have hlt : trailerSize (base.drop (base.length - kTrailer)) < 2 ^ 64 := by
    have h8 : ((base.drop (base.length - kTrailer)).drop 8).length = 8 := by
      rw [List.length_drop, htrailer]
      rfl
    have h := Bytes.leNat_lt ((base.drop (base.length - kTrailer)).drop 8)
    rw [h8] at h
    rw [trailerSize_eq _ htrailer]
    exact h
  have hkTrailer : kTrailer = 16 := rfl
  unfold turn
  simp only [pread_trailer hlen]
  rw [if_neg (by omega), if_neg (by omega), if_pos hmagic, if_pos (by omega)]

theorem ne_appendPayload_of_sizeWraps {base : List UInt8} (hlen : base.length < 2 ^ 63)
    (hwraps : SizeWraps base) (os : List UInt8) (b : Block) : base ≠ appendPayload os b := by
  rintro rfl
  obtain ⟨htrailer, hsize⟩ := trailer_appendPayload os b [] hlen
  rw [pread_trailer hwraps.1] at htrailer
  have hwrap := hwraps.2
  rw [htrailer, hsize] at hwrap
  rw [length_appendPayload] at hlen
  omega

/-! ## The function -/

theorem walk_mono {file : List UInt8} {magic : Magic} {fuel : Nat} {outcome : Outcome}
    (extra : Nat) : ∀ {currentEnd : Int},
    walk decompressXz file magic fuel currentEnd = some outcome →
      walk decompressXz file magic (fuel + extra) currentEnd = some outcome := by
  induction fuel with
  | zero => exact fun h => absurd h (by simp [walk])
  | succ fuel ih =>
    intro currentEnd h
    rw [Nat.add_right_comm]
    unfold walk at h ⊢
    cases hturn : turn decompressXz file magic currentEnd with
    | done o =>
      rw [hturn] at h
      exact h
    | next payloadOff =>
      rw [hturn] at h
      exact ih h

/-- Behind a chain that does not have its magic, a size that wraps around is not reported as a
    failure: with enough rounds the process ends. -/
theorem ne_fails_of_sizeWraps {base : List UInt8} (hwraps : SizeWraps base) (chain : List Block)
    (magic : Magic) (hmagic : (base.drop (base.length - kTrailer)).take 8 = magic.val)
    (hchain : ∀ b ∈ chain, b.magic ≠ magic) (hlong : kTrailer < (pack base chain).length)
    (hlen : (pack base chain).length < 2 ^ 63) (fuel : Nat) (err : String) :
    extractEmbeddedPayload decompressXz (pack base chain) magic fuel ≠ some (fails err) := by
  intro hfails
  unfold extractEmbeddedPayload at hfails
  rw [if_neg (by omega)] at hfails
  have hmore := walk_mono decompressXz (1 + chain.length) hfails
  have hwalk := walk_pack_of_notMem decompressXz base chain magic hchain [] hlen (fuel + 1)
  obtain ⟨post, hpost⟩ := pack_append base chain
  rw [List.append_nil, Nat.add_assoc, hmore] at hwalk
  unfold walk at hwalk
  rw [hpost, turn_base_of_sizeWraps decompressXz hwraps post magic hmagic] at hwalk
  exact absurd hwalk (by simp [fails])

/-- A magic that is not in the chain fails when the walk ends at the base image. -/
theorem fails_of_notMem {base : List UInt8} (hbase : ∀ os b, base ≠ appendPayload os b)
    (hwraps : ¬ SizeWraps base) (chain : List Block) (magic : Magic)
    (hchain : ∀ b ∈ chain, b.magic ≠ magic) (hlen : (pack base chain).length < 2 ^ 63) :
    ∃ fuel err, extractEmbeddedPayload decompressXz (pack base chain) magic fuel
      = some (fails err) := by
  refine ⟨1 + chain.length, ?_⟩
  unfold extractEmbeddedPayload
  split
  · exact ⟨_, rfl⟩
  · have hwalk := walk_pack_of_notMem decompressXz base chain magic hchain [] hlen 1
    obtain ⟨post, hpost⟩ := pack_append base chain
    rw [List.append_nil] at hwalk
    refine ⟨magicNotFound magic, ?_⟩
    rw [hwalk]
    unfold walk
    rw [hpost, turn_base decompressXz hbase hwraps post magic]

theorem exists_block_ne (magic : Magic) : ∃ b : Block, b.magic ≠ magic ∧ b.payload.length = 1 := by
  by_cases hzero : magic.val = List.replicate 8 0
  · refine ⟨⟨[0], ⟨List.replicate 8 1, rfl⟩, by simp⟩, fun h => ?_, rfl⟩
    rw [← h] at hzero
    exact absurd hzero (by decide)
  · exact ⟨⟨[0], ⟨List.replicate 8 0, rfl⟩, by simp⟩,
      fun h => hzero (congrArg Subtype.val h.symm), rfl⟩

/-- For a base image that does not end in a block, every chain of blocks with different magics is
    read right, for every magic, iff the image does not end in a size that wraps around. -/
theorem extractsRight_iff (base : List UInt8) (hbase : ∀ os b, base ≠ appendPayload os b)
    (hlen : base.length < 2 ^ 63) :
    (∀ chain : List Block, (chain.map Block.magic).Nodup → (pack base chain).length < 2 ^ 63 →
      ∀ magic, ExtractsRight decompressXz base chain magic) ↔ ¬ SizeWraps base := by
  constructor
  · intro hright hwraps
    have hmagic : ((base.drop (base.length - kTrailer)).take 8).length = 8 := by
      have h : kTrailer = 16 := rfl
      have := hwraps.1
      rw [List.length_take, List.length_drop]
      omega
    rcases Nat.lt_or_eq_of_le hwraps.1 with hlong | hshort
    · -- the magic in front of the size is in no chain, so already the empty chain is read wrong
      obtain ⟨fuel, err, hfails⟩ := (hright [] (by simp) hlen ⟨_, hmagic⟩).2 (by simp)
      exact ne_fails_of_sizeWraps decompressXz hwraps [] ⟨_, hmagic⟩ rfl (by simp) hlong hlen
        fuel err hfails
    · -- an image that is only a trailer needs a block behind it to be walked at all
      obtain ⟨b, hb, hbyte⟩ := exists_block_ne ⟨_, hmagic⟩
      have hpack : (pack base [b]).length = kTrailer + 1 + kTrailer := by
        rw [← List.nil_append [b], pack_concat, length_appendPayload, hbyte, hshort]
        rfl
      have hfit : (pack base [b]).length < 2 ^ 63 := by
        rw [hpack]
        decide
      have hchain : ∀ c ∈ [b], c.magic ≠ ⟨_, hmagic⟩ := by simpa using hb
      obtain ⟨fuel, err, hfails⟩ := (hright [b] (by simp) hfit ⟨_, hmagic⟩).2 hchain
      exact ne_fails_of_sizeWraps decompressXz hwraps [b] ⟨_, hmagic⟩ rfl hchain (by omega) hfit
        fuel err hfails
  · intro hwraps chain hnodup hlen magic
    constructor
    · rintro b hb rfl
      obtain ⟨fuel, hwalk⟩ := walk_pack_of_mem decompressXz base chain hnodup b hb [] hlen
      rw [List.append_nil] at hwalk
      refine ⟨fuel, ?_⟩
      unfold extractEmbeddedPayload
      rw [if_neg (Nat.not_le.2 (length_pack_of_mem base hb)), hwalk]
    · exact fun hchain => fails_of_notMem decompressXz hbase hwraps chain magic hchain hlen

end Walk

/-- A small image: the first bytes of an ELF file. -/
def elfStart : List UInt8 := [0x7F, 0x45, 0x4C, 0x46]

/-- `"PPAYLOAD"` and `"PJADXJAR"`. -/
def payloadMagic : Magic := ⟨[0x50, 0x50, 0x41, 0x59, 0x4C, 0x4F, 0x41, 0x44], rfl⟩

def jadxMagic : Magic := ⟨[0x50, 0x4A, 0x41, 0x44, 0x58, 0x4A, 0x41, 0x52], rfl⟩

def agentAndJar : List Block := [⟨[1, 2, 3], payloadMagic, by simp⟩, ⟨[4], jadxMagic, by simp⟩]

theorem elfStart_ne_appendPayload (os : List UInt8) (b : Block) : elfStart ≠ appendPayload os b := by
  intro h
  have hlen := congrArg List.length h
  rw [length_appendPayload] at hlen
  have hk : kTrailer = 16 := rfl
  have helf : elfStart.length = 4 := rfl
  omega

theorem agentAndJar_extractsRight : ¬ SizeWraps elfStart ∧
    ∀ magic, ExtractsRight (fun _ => .error "xz stream truncated or corrupted")
      elfStart agentAndJar magic := by
  have hwraps : ¬ SizeWraps elfStart := by decide
  exact ⟨hwraps, (extractsRight_iff _ elfStart elfStart_ne_appendPayload (by decide)).2 hwraps
    agentAndJar (by decide) (by decide)⟩

/-- An image that is one byte, a magic and the size `2 ^ 64 - 1`. -/
def wrappingImage : List UInt8 := 0 :: (payloadMagic.val ++ List.replicate 8 0xFF)

/-- An image that ends in eight zeros and the size `2 ^ 64 - 16`. -/
def loopingImage : List UInt8 := List.replicate 9 0 ++ (0xF0 :: List.replicate 7 0xFF)

/-- Less that size, which is a negative `off_t`, the walk is where it was. -/
theorem turn_loopingImage :
    turn .ok loopingImage payloadMagic loopingImage.length = .next loopingImage.length := by
  have htrailer : pread loopingImage kTrailer ((loopingImage.length : Int) - kTrailer)
      = List.replicate 8 0 ++ (0xF0 :: List.replicate 7 0xFF) := by decide
  have hsize : trailerSize (List.replicate 8 0 ++ (0xF0 :: List.replicate 7 0xFF))
      = 2 ^ 64 - 16 := by decide
  unfold turn
  simp only [htrailer, hsize]
  rw [if_neg (by decide), if_neg (by decide), if_neg (by decide)]
  rfl

theorem walk_loopingImage (fuel : Nat) :
    walk .ok loopingImage payloadMagic fuel loopingImage.length = none := by
  induction fuel with
  | zero => rfl
  | succ fuel ih =>
    unfold walk
    rw [turn_loopingImage]
    exact ih

/-- There is no payload in front of either size, but the function takes both images for blocks with
    one: asking for its magic ends the process with the first, and the walk over the second does not
    end. -/
theorem wrappingImage_not_extractsRight :
    ((∀ os b, wrappingImage ≠ appendPayload os b) ∧
      extractEmbeddedPayload .ok wrappingImage payloadMagic 1 = some .aborts ∧
      ¬ ExtractsRight .ok wrappingImage [] payloadMagic) ∧
    (∀ os b, loopingImage ≠ appendPayload os b) ∧
      (∀ fuel, extractEmbeddedPayload .ok loopingImage payloadMagic fuel = none) ∧
      ¬ ExtractsRight .ok loopingImage [] payloadMagic := by
  constructor
  · have hwraps : SizeWraps wrappingImage := by decide
    refine ⟨ne_appendPayload_of_sizeWraps (by decide) hwraps, ?_, ?_⟩
    · have hturn := turn_base_of_sizeWraps .ok hwraps [] payloadMagic rfl
      rw [List.append_nil] at hturn
      unfold extractEmbeddedPayload walk
      rw [if_neg (by decide), hturn]
    · intro hright
      obtain ⟨fuel, err, hfails⟩ := hright.2 (by simp)
      exact ne_fails_of_sizeWraps .ok hwraps [] payloadMagic rfl (by simp) (by decide) (by decide)
        fuel err hfails
  · have hloops : ∀ fuel, extractEmbeddedPayload .ok loopingImage payloadMagic fuel = none := by
      intro fuel
      unfold extractEmbeddedPayload
      rw [if_neg (by decide), walk_loopingImage]
    refine ⟨ne_appendPayload_of_sizeWraps (by decide) (by decide), hloops, ?_⟩
    intro hright
    obtain ⟨fuel, err, hfails⟩ := hright.2 (by simp)
    exact absurd ((hloops fuel).symm.trans hfails) (by simp)

end ArtPi.Cli
