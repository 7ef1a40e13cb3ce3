import ArtPi.Cli.Payload
import Mathlib.Algebra.Order.Ring.Int

set_option autoImplicit false

/-! # The walk on an arbitrary image (`cli/injector/payload.cpp`)

Nothing is known of the image here: the size in front of each end is any 64-bit number. A round goes
on in front of the block that the size describes, or, where the size and the length of the trailer
wrap around to `d < 16`, at `currentEnd - d`. The second kind of round still goes down unless the
size is `2 ^ 64 - 16`, and it stays inside the image unless it is asked for the payload. -/

namespace ArtPi.Cli

section Walk

variable (decompressXz : List UInt8 → Except String (List UInt8))

/-- The offsets and lengths of the slices that the round at `currentEnd` takes: the trailer, and the
    payload where the trailer passes the tests. -/
def slices (file : List UInt8) (magic : Magic) (currentEnd : Int) : List (Int × Nat) :=
  let trailer := pread file kTrailer (currentEnd - kTrailer)
  let size := trailerSize trailer
  if currentEnd < kTrailer then []
  else if trailer.length = kTrailer ∧ ¬ (size = 0 ∨ currentEnd < ((size + kTrailer) % 2 ^ 64 : Nat)) ∧
      trailer.take 8 = magic.val then
    [(currentEnd - kTrailer, kTrailer), (currentEnd - kTrailer - toOff size, size)]
  else [(currentEnd - kTrailer, kTrailer)]

/-- The values that `currentEnd` takes. -/
inductive Visits (file : List UInt8) (magic : Magic) : Int → Prop where
  | start : kTrailer < file.length → Visits file magic file.length
  | next {currentEnd payloadOff : Int} : Visits file magic currentEnd →
      turn decompressXz file magic currentEnd = .next payloadOff → Visits file magic payloadOff

/-- The function returns, each round goes on at a smaller end, and no slice leaves the image. -/
structure Bounded (file : List UInt8) (magic : Magic) : Prop where
  ends : ∃ fuel result,
    extractEmbeddedPayload decompressXz file magic fuel = some (.returns result)
  decreases : ∀ currentEnd payloadOff, Visits decompressXz file magic currentEnd →
    turn decompressXz file magic currentEnd = .next payloadOff → payloadOff < currentEnd
  inside : ∀ currentEnd, Visits decompressXz file magic currentEnd →
    ∀ s ∈ slices file magic currentEnd, 0 ≤ s.1 ∧ s.1 + s.2 ≤ file.length

/-! ## The chain as the image has it -/

/-- The sixteen bytes in front of an end. -/
def trailerAt (file : List UInt8) (e : Nat) : List UInt8 := (file.drop (e - kTrailer)).take kTrailer

def magicAt (file : List UInt8) (e : Nat) : List UInt8 := (trailerAt file e).take 8

def sizeAt (file : List UInt8) (e : Nat) : Nat := Bytes.leNat ((trailerAt file e).drop 8)

/-- The ends of what passes for a block of some other magic, from the end of the image on. -/
inductive BlockEnd (file : List UInt8) (magic : Magic) : Nat → Prop where
  | last : kTrailer < file.length → BlockEnd file magic file.length
  | block {e : Nat} : BlockEnd file magic e → magicAt file e ≠ magic.val →
      0 < sizeAt file e → sizeAt file e + kTrailer ≤ e →
      BlockEnd file magic (e - kTrailer - sizeAt file e)
  | wrapped {e : Nat} : BlockEnd file magic e → kTrailer ≤ e → magicAt file e ≠ magic.val →
      2 ^ 64 - kTrailer ≤ sizeAt file e →
      BlockEnd file magic (e - (sizeAt file e - (2 ^ 64 - kTrailer)))

/-- The trailer in front of an end does no harm: a size that wraps around does not come with the
    magic that is asked for, and is not the one that leads back to the same end. -/
def Harmless (file : List UInt8) (magic : Magic) (e : Nat) : Prop :=
  if magicAt file e = magic.val then sizeAt file e < 2 ^ 64 - kTrailer
  else sizeAt file e ≠ 2 ^ 64 - kTrailer

theorem BlockEnd.le_length {file : List UInt8} {magic : Magic} {e : Nat}
    (h : BlockEnd file magic e) : e ≤ file.length := by
  induction h with
  | last => exact Nat.le_refl _
  | block _ _ _ _ ih => omega
  | wrapped _ _ _ _ ih => omega

theorem length_trailerAt {file : List UInt8} {e : Nat} (he : kTrailer ≤ e)
    (hle : e ≤ file.length) : (trailerAt file e).length = kTrailer := by
  unfold trailerAt
  rw [List.length_take, List.length_drop]
  omega

theorem pread_trailerAt {file : List UInt8} {e : Nat} (he : kTrailer ≤ e) :
    pread file kTrailer ((e : Int) - kTrailer) = trailerAt file e := by
  unfold pread trailerAt
  rw [if_neg (by omega), show ((e : Int) - kTrailer).toNat = e - kTrailer by omega,
    Nat.min_eq_left (by decide)]

theorem trailerSize_trailerAt {file : List UInt8} {e : Nat} (he : kTrailer ≤ e)
    (hle : e ≤ file.length) : trailerSize (trailerAt file e) = sizeAt file e :=
  trailerSize_eq _ (length_trailerAt he hle)

theorem sizeAt_lt {file : List UInt8} {e : Nat} (he : kTrailer ≤ e) (hle : e ≤ file.length) :
    sizeAt file e < 2 ^ 64 := by
  have h8 : ((trailerAt file e).drop 8).length = 8 := by
    rw [List.length_drop, length_trailerAt he hle]
    rfl
  have h := Bytes.leNat_lt ((trailerAt file e).drop 8)
  rw [h8] at h
  exact h

/-! ## One round -/

theorem size_test_iff {e size : Nat} (he : kTrailer ≤ e) (hsize : size < 2 ^ 64) :
    ¬ (size = 0 ∨ (e : Int) < ((size + kTrailer) % 2 ^ 64 : Nat)) ↔
      0 < size ∧ (size + kTrailer ≤ e ∨ 2 ^ 64 - kTrailer ≤ size) := by
  have hk : kTrailer = 16 := rfl
  rcases Nat.lt_or_ge (size + kTrailer) (2 ^ 64) with hlt | hge
  · rw [Nat.mod_eq_of_lt hlt]
    omega
  · omega

theorem turn_of_lt {file : List UInt8} {magic : Magic} {e : Nat} (he : e < kTrailer) :
    turn decompressXz file magic e = .done (fails (magicNotFound magic)) := by
  unfold turn
  exact if_pos (Or.inl (by omega))

theorem turn_of_le {file : List UInt8} {magic : Magic} {e : Nat} (he : kTrailer ≤ e)
    (hle : e ≤ file.length) :
    turn decompressXz file magic e =
      if 0 < sizeAt file e ∧ (sizeAt file e + kTrailer ≤ e ∨ 2 ^ 64 - kTrailer ≤ sizeAt file e) then
        if magicAt file e = magic.val then
          if 2 ^ 63 ≤ sizeAt file e then .done .aborts
          else
            match readPayload file (sizeAt file e) (e - kTrailer - toOff (sizeAt file e)) [] with
            | none => .done (fails "payload short read")
            | some rawPayload => .done (deliver decompressXz rawPayload)
        else .next (e - kTrailer - toOff (sizeAt file e))
      else .done (fails (magicNotFound magic)) := by
  unfold turn
  simp only [pread_trailerAt he, trailerSize_trailerAt he hle, length_trailerAt he hle]
  rw [if_neg (by omega)]
  have htest := size_test_iff he (sizeAt_lt he hle)
  by_cases hfits : 0 < sizeAt file e ∧
      (sizeAt file e + kTrailer ≤ e ∨ 2 ^ 64 - kTrailer ≤ sizeAt file e)
  · rw [if_neg (htest.2 hfits), if_pos hfits]
    rfl
  · rw [if_neg hfits, if_pos (not_not.1 (fun h => hfits (htest.1 h)))]

theorem slices_of_le {file : List UInt8} {magic : Magic} {e : Nat} (he : kTrailer ≤ e)
    (hle : e ≤ file.length) :
    slices file magic e =
      if (0 < sizeAt file e ∧ (sizeAt file e + kTrailer ≤ e ∨ 2 ^ 64 - kTrailer ≤ sizeAt file e)) ∧
          magicAt file e = magic.val then
        [((e : Int) - kTrailer, kTrailer),
          ((e : Int) - kTrailer - toOff (sizeAt file e), sizeAt file e)]
      else [((e : Int) - kTrailer, kTrailer)] := by
  unfold slices
  simp only [pread_trailerAt he, trailerSize_trailerAt he hle, length_trailerAt he hle,
    size_test_iff he (sizeAt_lt he hle)]
  rw [if_neg (by omega)]
  simp only [true_and]
  rfl

theorem sub_toOff_of_le {e size : Nat} (hfits : size + kTrailer ≤ e) (hlt : e < 2 ^ 63) :
    (e : Int) - kTrailer - toOff size = (e - kTrailer - size : Nat) := by
  unfold toOff
  rw [if_pos (by omega)]
  omega

theorem sub_toOff_of_wraps {e size : Nat} (he : kTrailer ≤ e) (hsize : size < 2 ^ 64)
    (hwraps : 2 ^ 64 - kTrailer ≤ size) :
    (e : Int) - kTrailer - toOff size = (e - (size - (2 ^ 64 - kTrailer)) : Nat) := by
  have hk : kTrailer = 16 := rfl
  unfold toOff
  rw [if_neg (by omega)]
  omega

theorem turn_eq_next_iff {file : List UInt8} {magic : Magic} {e : Nat} (hle : e ≤ file.length)
    (hlen : file.length < 2 ^ 63) (payloadOff : Int) :
    turn decompressXz file magic e = .next payloadOff ↔
      (magicAt file e ≠ magic.val ∧ 0 < sizeAt file e ∧ sizeAt file e + kTrailer ≤ e ∧
          payloadOff = (e - kTrailer - sizeAt file e : Nat)) ∨
      (kTrailer ≤ e ∧ magicAt file e ≠ magic.val ∧ 2 ^ 64 - kTrailer ≤ sizeAt file e ∧
          payloadOff = (e - (sizeAt file e - (2 ^ 64 - kTrailer)) : Nat)) := by
  rcases Nat.lt_or_ge e kTrailer with hshort | he
  · rw [turn_of_lt decompressXz hshort]
    constructor
    · exact fun h => absurd h (by simp)
    · rintro (⟨-, -, hfits, -⟩ | ⟨he, -⟩)
      · omega
      · omega
  · have hk : kTrailer = 16 := rfl
    have hsize := sizeAt_lt he hle
    rw [turn_of_le decompressXz he hle]
    by_cases hmagic : magicAt file e = magic.val
    · -- with the magic that is asked for, the round ends
      rw [if_pos hmagic]
      constructor
      · intro h
        split at h
        · split at h
          · exact absurd h (by simp)
          · split at h <;> exact absurd h (by simp)
        · exact absurd h (by simp)
      · rintro (⟨hne, -⟩ | ⟨-, hne, -⟩)
        · exact absurd hmagic hne
        · exact absurd hmagic hne
    · rw [if_neg hmagic]
      constructor
      · intro h
        split at h
        · next hfits =>
            injection h with h
            rcases hfits with ⟨hpos, hfits | hwraps⟩
            · exact Or.inl ⟨hmagic, hpos, hfits, by rw [← h, sub_toOff_of_le hfits (by omega)]⟩
            · exact Or.inr ⟨he, hmagic, hwraps, by rw [← h, sub_toOff_of_wraps he hsize hwraps]⟩
        · exact absurd h (by simp)
      · rintro (⟨-, hpos, hfits, rfl⟩ | ⟨-, -, hwraps, rfl⟩)
        · rw [if_pos ⟨hpos, Or.inl hfits⟩, sub_toOff_of_le hfits (by omega)]
        · rw [if_pos ⟨by omega, Or.inr hwraps⟩, sub_toOff_of_wraps he hsize hwraps]

/-! ## The whole walk -/

theorem visits_iff {file : List UInt8} (magic : Magic) (hlen : file.length < 2 ^ 63)
    (currentEnd : Int) :
    Visits decompressXz file magic currentEnd ↔
      ∃ e : Nat, currentEnd = e ∧ BlockEnd file magic e := by
  constructor
  · intro h
    induction h with
    | start h => exact ⟨_, rfl, .last h⟩
    | next _ hturn ih =>
      obtain ⟨e, rfl, he⟩ := ih
      rcases (turn_eq_next_iff decompressXz he.le_length hlen _).1 hturn with
        ⟨hmagic, hpos, hfits, rfl⟩ | ⟨hk, hmagic, hwraps, rfl⟩
      · exact ⟨_, rfl, .block he hmagic hpos hfits⟩
      · exact ⟨_, rfl, .wrapped he hk hmagic hwraps⟩
  · rintro ⟨e, rfl, he⟩
    induction he with
    | last h => exact .start h
    | block he hmagic hpos hfits ih =>
      exact .next ih ((turn_eq_next_iff decompressXz he.le_length hlen _).2
        (Or.inl ⟨hmagic, hpos, hfits, rfl⟩))
    | wrapped he hk hmagic hwraps ih =>
      exact .next ih ((turn_eq_next_iff decompressXz he.le_length hlen _).2
        (Or.inr ⟨hk, hmagic, hwraps, rfl⟩))

/-- A round at a harmless end returns or goes on at a smaller one. -/
theorem turn_of_harmless {file : List UInt8} {magic : Magic} {e : Nat}
    (hlen : file.length < 2 ^ 63) (he : BlockEnd file magic e)
    (hharmless : kTrailer ≤ e → Harmless file magic e) :
    (∃ result, turn decompressXz file magic e = .done (.returns result)) ∨
      ∃ e' : Nat, turn decompressXz file magic e = .next e' ∧ BlockEnd file magic e' ∧ e' < e := by
  have hle := he.le_length
  rcases Nat.lt_or_ge e kTrailer with hshort | hk
  · exact Or.inl ⟨_, turn_of_lt decompressXz hshort⟩
  · have hsafe := hharmless hk
    unfold Harmless at hsafe
    by_cases hmagic : magicAt file e = magic.val
    · rw [if_pos hmagic] at hsafe
      left
      rw [turn_of_le decompressXz hk hle, if_pos hmagic]
      split
      · next hfits =>
          rw [if_neg (by omega)]
          split
          · exact ⟨_, rfl⟩
          · exact ⟨_, rfl⟩
      · exact ⟨_, rfl⟩
    · rw [if_neg hmagic] at hsafe
      by_cases hfits : 0 < sizeAt file e ∧
          (sizeAt file e + kTrailer ≤ e ∨ 2 ^ 64 - kTrailer ≤ sizeAt file e)
      · right
        have hkpos : kTrailer = 16 := rfl
        rcases hfits with ⟨hpos, hfits | hwraps⟩
        · exact ⟨_, (turn_eq_next_iff decompressXz hle hlen _).2 (Or.inl ⟨hmagic, hpos, hfits, rfl⟩),
            .block he hmagic hpos hfits, by omega⟩
        · exact ⟨_, (turn_eq_next_iff decompressXz hle hlen _).2
              (Or.inr ⟨hk, hmagic, hwraps, rfl⟩),
            .wrapped he hk hmagic hwraps, by omega⟩
      · left
        rw [turn_of_le decompressXz hk hle, if_neg hfits]
        exact ⟨_, rfl⟩

theorem walk_returns {file : List UInt8} {magic : Magic} (hlen : file.length < 2 ^ 63)
    (hharmless : ∀ e, BlockEnd file magic e → kTrailer ≤ e → Harmless file magic e) {e : Nat}
    (he : BlockEnd file magic e) :
    ∃ fuel result, walk decompressXz file magic fuel e = some (.returns result) := by
  -- on the end, which is smaller in the next round
  induction e using Nat.strong_induction_on with
  | _ e ih =>
    rcases turn_of_harmless decompressXz hlen he (hharmless e he) with
      ⟨result, hturn⟩ | ⟨e', hturn, he', hlt⟩
    · refine ⟨1, result, ?_⟩
      unfold walk
      rw [hturn]
    · obtain ⟨fuel, result, hwalk⟩ := ih e' hlt he'
      refine ⟨fuel + 1, result, ?_⟩
      unfold walk
      rw [hturn]
      exact hwalk

theorem slices_inside {file : List UInt8} {magic : Magic} (hlen : file.length < 2 ^ 63) {e : Nat}
    (hle : e ≤ file.length) (hharmless : kTrailer ≤ e → Harmless file magic e) :
    ∀ s ∈ slices file magic e, 0 ≤ s.1 ∧ s.1 + s.2 ≤ file.length := by
  intro s hs
  rcases Nat.lt_or_ge e kTrailer with hshort | hk
  · unfold slices at hs
    simp only [Nat.cast_lt, hshort, if_true, List.not_mem_nil] at hs
  · have htrailer : (0 : Int) ≤ (e : Int) - kTrailer ∧
        (e : Int) - kTrailer + kTrailer ≤ file.length := by omega
    rw [slices_of_le hk hle] at hs
    split at hs
    · next hpayload =>
        obtain ⟨⟨hpos, hfits⟩, hmagic⟩ := hpayload
        have hsafe := hharmless hk
        unfold Harmless at hsafe
        rw [if_pos hmagic] at hsafe
        rcases List.mem_pair.1 hs with rfl | rfl
        · exact htrailer
        · have hfront : sizeAt file e + kTrailer ≤ e := by omega
          simp only [sub_toOff_of_le hfront (by omega)]
          omega
    · obtain rfl := List.mem_singleton.1 hs
      exact htrailer

/-- For every image and magic: the function returns, with smaller and smaller ends and all slices
    inside the image, iff every trailer that it comes to is harmless. -/
theorem bounded_iff_forall_harmless (file : List UInt8) (hlen : file.length < 2 ^ 63)
    (magic : Magic) :
    Bounded decompressXz file magic ↔
      ∀ e, BlockEnd file magic e → kTrailer ≤ e → Harmless file magic e := by
  constructor
  · intro hbounded e he hk
    have hle := he.le_length
    have hvisits := (visits_iff decompressXz magic hlen _).2 ⟨e, rfl, he⟩
    have hkpos : kTrailer = 16 := rfl
    have hsize := sizeAt_lt hk hle
    unfold Harmless
    split
    · next hmagic =>
        -- the slice of a size that wraps around ends behind the image
        by_contra hwraps
        have hslice : ((e : Int) - kTrailer - toOff (sizeAt file e), sizeAt file e)
            ∈ slices file magic e := by
          rw [slices_of_le hk hle, if_pos ⟨⟨by omega, Or.inr (by omega)⟩, hmagic⟩]
          exact List.mem_pair.2 (Or.inr rfl)
        have hinside := (hbounded.inside e hvisits _ hslice).2
        simp only [sub_toOff_of_wraps hk hsize (by omega)] at hinside
        omega
    · next hmagic =>
        intro hsame
        have hturn := (turn_eq_next_iff decompressXz hle hlen _).2
          (Or.inr ⟨hk, hmagic, Nat.le_of_eq hsame.symm, rfl⟩)
        have hlt := hbounded.decreases _ _ hvisits hturn
        omega
  · intro hharmless
    refine ⟨?_, ?_, ?_⟩
    · unfold extractEmbeddedPayload
      split
      · exact ⟨0, _, rfl⟩
      · next hlong => exact walk_returns decompressXz hlen hharmless (.last (by omega))
    · intro currentEnd payloadOff hvisits hturn
      obtain ⟨e, rfl, he⟩ := (visits_iff decompressXz magic hlen _).1 hvisits
      rcases turn_of_harmless decompressXz hlen he (hharmless e he) with
        ⟨result, hdone⟩ | ⟨e', hnext, -, hlt⟩
      · exact absurd (hdone.symm.trans hturn) (by simp)
      · obtain rfl : (e' : Int) = payloadOff := Turn.next.inj (hnext.symm.trans hturn)
        exact Int.ofNat_lt.2 hlt
    · intro currentEnd hvisits
      obtain ⟨e, rfl, he⟩ := (visits_iff decompressXz magic hlen _).1 hvisits
      exact slices_inside hlen he.le_length (hharmless e he)

end Walk

/-- A magic of which there is no block. -/
def absentMagic : Magic := ⟨List.replicate 8 0x41, rfl⟩

theorem blockEnd_agentAndJar {e : Nat}
    (h : BlockEnd (pack elfStart agentAndJar) absentMagic e) : e = 40 ∨ e = 23 ∨ e = 4 := by
  have hsize40 : sizeAt (pack elfStart agentAndJar) 40 = 1 := by decide
  have hsize23 : sizeAt (pack elfStart agentAndJar) 23 = 3 := by decide
  have hk : kTrailer = 16 := rfl
  induction h with
  | last => exact Or.inl (by decide)
  | block _ _ _ hfits ih =>
    rcases ih with rfl | rfl | rfl
    · rw [hsize40]
      exact Or.inr (Or.inl rfl)
    · rw [hsize23]
      exact Or.inr (Or.inr rfl)
    · omega
  | wrapped _ he _ hwraps ih =>
    rcases ih with rfl | rfl | rfl
    · omega
    · omega
    · omega

theorem agentAndJar_bounded : (pack elfStart agentAndJar).length < 2 ^ 63 ∧
    Bounded (fun _ => .error "xz stream truncated or corrupted") (pack elfStart agentAndJar)
      absentMagic := by
  have hlen : (pack elfStart agentAndJar).length < 2 ^ 63 := by decide
  refine ⟨hlen, (bounded_iff_forall_harmless _ _ hlen absentMagic).2 ?_⟩
  intro e he hk
  unfold Harmless
  rcases blockEnd_agentAndJar he with rfl | rfl | rfl
  · rw [if_neg (by decide)]
    decide
  · rw [if_neg (by decide)]
    decide
  · exact absurd hk (by decide)

/-- The walk over the one image stays at its end for ever, and the slice that holds the payload of the
    other reaches behind it. -/
theorem loopingImage_not_bounded :
    ((∀ fuel, extractEmbeddedPayload .ok loopingImage payloadMagic fuel = none) ∧
      ¬ Bounded .ok loopingImage payloadMagic) ∧
    (((2, 2 ^ 64 - 1) ∈ slices wrappingImage payloadMagic wrappingImage.length ∧
        wrappingImage.length = 17) ∧
      ¬ Bounded .ok wrappingImage payloadMagic) := by
  constructor
  · have hloops : ∀ fuel, extractEmbeddedPayload .ok loopingImage payloadMagic fuel = none := by
      intro fuel
      unfold extractEmbeddedPayload
      rw [if_neg (by decide), walk_loopingImage]
    refine ⟨hloops, fun hbounded => ?_⟩
    obtain ⟨fuel, result, hends⟩ := hbounded.ends
    exact absurd ((hloops fuel).symm.trans hends) (by simp)
  · have hslice : (2, 2 ^ 64 - 1) ∈ slices wrappingImage payloadMagic wrappingImage.length := by
      decide
    refine ⟨⟨hslice, rfl⟩, fun hbounded => ?_⟩
    have hinside := (hbounded.inside _ (.start (by decide)) _ hslice).2
    exact absurd hinside (by decide)

end ArtPi.Cli
