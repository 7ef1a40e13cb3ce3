import Mathlib.Data.List.Basic

set_option autoImplicit false

/-! # Modified UTF-8

The encoding of UTF-16 strings at a JNI boundary: every unit for itself, in one to three bytes, with
two bytes for zero, so that no byte is zero. -/

namespace ArtPi.Lib.ModifiedUtf8

def encodeUnit (u : UInt16) : List UInt8 :=
  let n := u.toNat
  if 1 ≤ n ∧ n < 0x80 then [UInt8.ofNat n]
  else if n < 0x800 then [UInt8.ofNat (0xC0 + n / 64), UInt8.ofNat (0x80 + n % 64)]
  else [UInt8.ofNat (0xE0 + n / 4096), UInt8.ofNat (0x80 + n / 64 % 64), UInt8.ofNat (0x80 + n % 64)]

def encode (s : List UInt16) : List UInt8 := s.flatMap encodeUnit

/-- The units of a byte string; an incomplete unit at its end is dropped. -/
def decode : List UInt8 → List UInt16
  | [] => []
  | c :: rest =>
    if c.toNat < 0x80 then UInt16.ofNat c.toNat :: decode rest
    else
      match rest with
      | [] => []
      | d :: rest =>
        if c.toNat < 0xE0 then
          UInt16.ofNat (c.toNat % 32 * 64 + d.toNat % 64) :: decode rest
        else
          match rest with
          | [] => []
          | e :: rest =>
            UInt16.ofNat (c.toNat % 16 * 4096 + d.toNat % 64 * 64 + e.toNat % 64) ::
              decode rest

theorem decode_cons_ascii {c : UInt8} (h : c.toNat < 0x80) (rest : List UInt8) :
    decode (c :: rest) = UInt16.ofNat c.toNat :: decode rest := by
  conv_lhs => unfold decode
  exact if_pos h

theorem decode_encodeUnit (u : UInt16) (rest : List UInt8) :
    decode (encodeUnit u ++ rest) = u :: decode rest := by
  have hu := u.toNat_lt
  have hof : ∀ n < 256, (UInt8.ofNat n).toNat = n := fun n hn => UInt8.toNat_ofNat_of_lt' hn
  have heq : ∀ n, n = u.toNat → UInt16.ofNat n = u := by
    rintro n rfl
    exact UInt16.ofNat_toNat
  unfold encodeUnit
  simp only
  split
  · rename_i hone
    rw [List.singleton_append, decode_cons_ascii (by rw [hof _ (by omega)]; omega),
      hof _ (by omega), UInt16.ofNat_toNat]
  · split
    · rename_i htwo
      rw [List.cons_append, List.singleton_append]
      conv_lhs => unfold decode
      simp only [hof (0xC0 + u.toNat / 64) (by omega), hof (0x80 + u.toNat % 64) (by omega)]
      rw [if_neg (by omega), if_pos (by omega), heq _ (by omega)]
    · rw [List.cons_append, List.cons_append, List.singleton_append]
      conv_lhs => unfold decode
      simp only [hof (0xE0 + u.toNat / 4096) (by omega), hof (0x80 + u.toNat / 64 % 64) (by omega),
        hof (0x80 + u.toNat % 64) (by omega)]
      rw [if_neg (by omega), if_neg (by omega), heq _ (by omega)]

theorem decode_encode (s : List UInt16) : decode (encode s) = s := by
  induction s with
  | nil => rfl
  | cons u s ih =>
    unfold encode at ih ⊢
    rw [List.flatMap_cons, decode_encodeUnit, ih]

theorem ofNat_ne_zero {n : Nat} (hpos : 0 < n) (hlt : n < 256) : UInt8.ofNat n ≠ 0 := by
  intro h
  have hn := congrArg UInt8.toNat h
  rw [UInt8.toNat_ofNat_of_lt' hlt] at hn
  exact absurd hn (Nat.ne_of_gt hpos)

theorem ne_zero_of_mem_encodeUnit {u : UInt16} {b : UInt8} (h : b ∈ encodeUnit u) : b ≠ 0 := by
  have hu := u.toNat_lt
  unfold encodeUnit at h
  dsimp only at h
  split at h
  · next hone =>
      rw [List.mem_singleton.1 h]
      exact ofNat_ne_zero hone.1 (by omega)
  · split at h
    · simp only [List.mem_cons, List.not_mem_nil, or_false] at h
      rcases h with rfl | rfl
      · exact ofNat_ne_zero (by omega) (by omega)
      · exact ofNat_ne_zero (by omega) (by omega)
    · simp only [List.mem_cons, List.not_mem_nil, or_false] at h
      rcases h with rfl | rfl | rfl
      · exact ofNat_ne_zero (by omega) (by omega)
      · exact ofNat_ne_zero (by omega) (by omega)
      · exact ofNat_ne_zero (by omega) (by omega)

theorem ne_zero_of_mem_encode {s : List UInt16} {b : UInt8} (h : b ∈ encode s) : b ≠ 0 := by
  obtain ⟨u, -, hb⟩ := List.mem_flatMap.1 h
  exact ne_zero_of_mem_encodeUnit hb

theorem toNat_of_mem_encodeUnit {n : Nat} {u : UInt16} (hn : n < 0x80) (h : UInt8.ofNat n ∈ encodeUnit u) :
    u.toNat = n := by
  have hu := u.toNat_lt
  have hof : ∀ m k, UInt8.ofNat m = UInt8.ofNat k → m < 256 → k < 256 → m = k := by
    intro m k hmk hm hk
    rw [← UInt8.toNat_ofNat_of_lt' hm, hmk, UInt8.toNat_ofNat_of_lt' hk]
  rw [encodeUnit] at h
  split_ifs at h with hone htwo
  · exact (hof _ _ (List.mem_singleton.1 h) (by omega) (by omega)).symm
  · simp only [List.mem_cons, List.not_mem_nil, or_false] at h
    rcases h with h | h
    · have := hof _ _ h (by omega) (by omega)
      omega
    · have := hof _ _ h (by omega) (by omega)
      omega
  · simp only [List.mem_cons, List.not_mem_nil, or_false] at h
    rcases h with h | h | h
    · have := hof _ _ h (by omega) (by omega)
      omega
    · have := hof _ _ h (by omega) (by omega)
      omega
    · have := hof _ _ h (by omega) (by omega)
      omega

theorem encode_decode_ascii (b : List UInt8) (h : ∀ c ∈ b, 0 < c.toNat ∧ c.toNat < 0x80) :
    encode (decode b) = b := by
  induction b with
  | nil => rfl
  | cons c b ih =>
    obtain ⟨hpos, hlt⟩ := h c List.mem_cons_self
    have hto : (UInt16.ofNat c.toNat).toNat = c.toNat :=
      UInt16.toNat_ofNat_of_lt' (Nat.lt_trans hlt (by decide))
    have hunit : encodeUnit (UInt16.ofNat c.toNat) = [c] := by
      unfold encodeUnit
      simp only [hto]
      rw [if_pos ⟨hpos, hlt⟩, UInt8.ofNat_toNat]
    have hrest := ih (fun d hd => h d (List.mem_cons_of_mem _ hd))
    unfold encode at hrest ⊢
    rw [decode_cons_ascii hlt, List.flatMap_cons, hunit, hrest, List.singleton_append]

end ArtPi.Lib.ModifiedUtf8
