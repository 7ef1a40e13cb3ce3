import Mathlib.Data.List.Basic
import Mathlib.Data.Nat.Bitwise

set_option autoImplicit false

/-! # UTF-8, leniently

Byte sequences of one to four bytes with the marks of UTF-8, whether or not the sequence is the shortest one
for its code point and whether or not that is a surrogate, and the UTF-16 units they stand for. What Unicode
allows is a part of it: `spells_utf8` says that each of its strings spells its own UTF-16 form. -/

namespace ArtPi.Lib.Utf8

/-! ## Units -/

/-- The UTF-16 units of a code point. -/
def units (cp : Nat) : List UInt16 :=
  if cp ≤ 0xFFFF then [UInt16.ofNat cp]
  else [UInt16.ofNat (0xD800 + (cp - 0x10000) / 1024), UInt16.ofNat (0xDC00 + (cp - 0x10000) % 1024)]

def utf16 (cs : List Char) : List UInt16 := cs.flatMap (fun c => units c.toNat)

def utf8 (cs : List Char) : List UInt8 := cs.flatMap String.utf8EncodeChar

/-! ## Spellings -/

/-- A continuation byte. -/
def Tail (b : UInt8) : Prop := 0x80 ≤ b.toNat ∧ b.toNat < 0xC0

/-- The bytes have the marks of a sequence, and the number in them is `cp`. -/
inductive Spelling : Nat → List UInt8 → Prop where
  | one {a : UInt8} : a.toNat < 0x80 → Spelling a.toNat [a]
  | two {a b : UInt8} : 0xC0 ≤ a.toNat → a.toNat < 0xE0 → Tail b →
      Spelling (a.toNat % 32 * 64 + b.toNat % 64) [a, b]
  | three {a b c : UInt8} : 0xE0 ≤ a.toNat → a.toNat < 0xF0 → Tail b → Tail c →
      Spelling ((a.toNat % 16 * 64 + b.toNat % 64) * 64 + c.toNat % 64) [a, b, c]
  | four {a b c d : UInt8} : 0xF0 ≤ a.toNat → a.toNat < 0xF8 → Tail b → Tail c → Tail d →
      Spelling (((a.toNat % 8 * 64 + b.toNat % 64) * 64 + c.toNat % 64) * 64 + d.toNat % 64)
        [a, b, c, d]

/-- The bytes are sequences for code points, and these have the units. -/
inductive Spells : List UInt8 → List UInt16 → Prop where
  | nil : Spells [] []
  | cons {cp : Nat} {s rest : List UInt8} {us : List UInt16} :
      Spelling cp s → cp ≤ 0x10FFFF → Spells rest us → Spells (s ++ rest) (units cp ++ us)

/-! ## Unicode -/

theorem toNat_ofNat {n : Nat} (h : n < 256) : (UInt8.ofNat n).toNat = n := UInt8.toNat_ofNat_of_lt' h

theorem tail_ofNat (n : Nat) : Tail (UInt8.ofNat (n % 64 + 0x80)) := by
  rw [Tail, toNat_ofNat (by omega)]
  omega

theorem toNat_tail (n : Nat) : (UInt8.ofNat (n % 64 + 0x80)).toNat % 64 = n % 64 := by
  rw [toNat_ofNat (by omega)]
  omega

theorem spelling_two {n : Nat} (h : n ≤ 0x7ff) :
    Spelling n [UInt8.ofNat (n / 64 % 0x20 + 0xc0), UInt8.ofNat (n % 0x40 + 0x80)] := by
  have hlead : (UInt8.ofNat (n / 64 % 0x20 + 0xc0)).toNat = n / 64 % 0x20 + 0xc0 :=
    toNat_ofNat (by omega)
  have hspelling := Spelling.two (by rw [hlead]; omega) (by rw [hlead]; omega) (tail_ofNat n)
  rw [hlead, toNat_tail] at hspelling
  convert hspelling using 1
  omega

theorem spelling_three {n : Nat} (h : n ≤ 0xffff) :
    Spelling n [UInt8.ofNat (n / 4096 % 0x10 + 0xe0), UInt8.ofNat (n / 64 % 0x40 + 0x80),
      UInt8.ofNat (n % 0x40 + 0x80)] := by
  have hlead : (UInt8.ofNat (n / 4096 % 0x10 + 0xe0)).toNat = n / 4096 % 0x10 + 0xe0 :=
    toNat_ofNat (by omega)
  have hspelling := Spelling.three (by rw [hlead]; omega) (by rw [hlead]; omega) (tail_ofNat (n / 64))
    (tail_ofNat n)
  rw [hlead, toNat_tail, toNat_tail] at hspelling
  convert hspelling using 1
  omega

theorem spelling_four {n : Nat} (h : n < 0x200000) :
    Spelling n [UInt8.ofNat (n / 262144 % 0x08 + 0xf0), UInt8.ofNat (n / 4096 % 0x40 + 0x80),
      UInt8.ofNat (n / 64 % 0x40 + 0x80), UInt8.ofNat (n % 0x40 + 0x80)] := by
  have hlead : (UInt8.ofNat (n / 262144 % 0x08 + 0xf0)).toNat = n / 262144 % 0x08 + 0xf0 :=
    toNat_ofNat (by omega)
  have hspelling := Spelling.four (by rw [hlead]; omega) (by rw [hlead]; omega)
    (tail_ofNat (n / 4096)) (tail_ofNat (n / 64)) (tail_ofNat n)
  rw [hlead, toNat_tail, toNat_tail, toNat_tail] at hspelling
  convert hspelling using 1
  omega

theorem toNat_le (c : Char) : c.toNat ≤ 0x10FFFF := by
  rcases c.valid with h | h
  · exact Nat.le_of_lt (Nat.lt_trans h (by decide))
  · exact Nat.le_of_lt_succ h.2

theorem spelling_utf8EncodeChar (c : Char) : Spelling c.toNat (String.utf8EncodeChar c) := by
  have hle := toNat_le c
  unfold String.utf8EncodeChar
  change Spelling c.toNat (if c.toNat ≤ 0x7f then _ else _)
  split
  · next h =>
      have hone : (UInt8.ofNat c.toNat).toNat = c.toNat := toNat_ofNat (by omega)
      have hspelling := Spelling.one (a := UInt8.ofNat c.toNat) (by rw [hone]; omega)
      rwa [hone] at hspelling
  · split
    · next h => exact spelling_two h
    · split
      · next h => exact spelling_three h
      · exact spelling_four (by omega)

theorem spells_utf8 (cs : List Char) : Spells (utf8 cs) (utf16 cs) := by
  induction cs with
  | nil => exact .nil
  | cons c cs ih => exact .cons (spelling_utf8EncodeChar c) (toNat_le c) ih

/-! ## Surrogates

Every string of UTF-16 units has a form in bytes if a unit that is no part of a pair is taken for a code point. -/

def IsHi (u : UInt16) : Prop := 0xD800 ≤ u.toNat ∧ u.toNat < 0xDC00

def IsLo (u : UInt16) : Prop := 0xDC00 ≤ u.toNat ∧ u.toNat < 0xE000

instance instDecidableIsHi (u : UInt16) : Decidable (IsHi u) := inferInstanceAs (Decidable (_ ∧ _))

instance instDecidableIsLo (u : UInt16) : Decidable (IsLo u) := inferInstanceAs (Decidable (_ ∧ _))

/-- The code points of a string, with surrogates that are in no pair. -/
def points : List UInt16 → List Nat
  | [] => []
  | [u] => [u.toNat]
  | u :: v :: rest =>
    if IsHi u ∧ IsLo v then (0x10000 + (u.toNat - 0xD800) * 1024 + (v.toNat - 0xDC00)) :: points rest
    else u.toNat :: points (v :: rest)

def encodePoint (n : Nat) : List UInt8 :=
  if n ≤ 0x7f then [UInt8.ofNat n]
  else if n ≤ 0x7ff then [UInt8.ofNat (n / 64 % 0x20 + 0xc0), UInt8.ofNat (n % 0x40 + 0x80)]
  else if n ≤ 0xffff then
    [UInt8.ofNat (n / 4096 % 0x10 + 0xe0), UInt8.ofNat (n / 64 % 0x40 + 0x80), UInt8.ofNat (n % 0x40 + 0x80)]
  else
    [UInt8.ofNat (n / 262144 % 0x08 + 0xf0), UInt8.ofNat (n / 4096 % 0x40 + 0x80),
      UInt8.ofNat (n / 64 % 0x40 + 0x80), UInt8.ofNat (n % 0x40 + 0x80)]

def encode (s : List UInt16) : List UInt8 := (points s).flatMap encodePoint

theorem points_cons {u : UInt16} (h : ¬ IsHi u) (rest : List UInt16) :
    points (u :: rest) = u.toNat :: points rest := by
  cases rest with
  | nil => rfl
  | cons v rest =>
    rw [points, if_neg]
    exact fun hpair => h hpair.1

theorem points_units (c : Char) (rest : List UInt16) : points (units c.toNat ++ rest) = c.toNat :: points rest := by
  have hle := toNat_le c
  have hof : ∀ n, n < 65536 → (UInt16.ofNat n).toNat = n := fun n h => UInt16.toNat_ofNat_of_lt' h
  unfold units
  split_ifs with hbmp
  · have hself := hof c.toNat (by omega)
    rw [List.singleton_append, points_cons, hself]
    rintro ⟨hlo, hhi⟩
    rw [hself] at hlo hhi
    rcases c.valid with h | h
    · exact absurd (show c.toNat < 0xD800 from h) (by omega)
    · exact absurd (show 0xDFFF < c.toNat from h.1) (by omega)
  · have hhi := hof (0xD800 + (c.toNat - 0x10000) / 1024) (by omega)
    have hlo := hof (0xDC00 + (c.toNat - 0x10000) % 1024) (by omega)
    have hpair : IsHi (UInt16.ofNat (0xD800 + (c.toNat - 0x10000) / 1024)) ∧
        IsLo (UInt16.ofNat (0xDC00 + (c.toNat - 0x10000) % 1024)) := by
      unfold IsHi IsLo
      omega
    have hpoint : 0x10000 + ((UInt16.ofNat (0xD800 + (c.toNat - 0x10000) / 1024)).toNat - 0xD800) * 1024 +
        ((UInt16.ofNat (0xDC00 + (c.toNat - 0x10000) % 1024)).toNat - 0xDC00) = c.toNat := by
      omega
    rw [List.cons_append, List.singleton_append, points, if_pos hpair, hpoint]

theorem encode_utf16 (cs : List Char) : encode (utf16 cs) = utf8 cs := by
  induction cs with
  | nil => rfl
  | cons c cs ih =>
    have hunits : utf16 (c :: cs) = units c.toNat ++ utf16 cs := rfl
    have hbytes : utf8 (c :: cs) = encodePoint c.toNat ++ utf8 cs := rfl
    rw [encode, hunits, points_units, List.flatMap_cons, hbytes, ← ih]
    rfl

theorem le_of_mem_encodePoint {n : Nat} (h : 0x7f < n) {b : UInt8} (hb : b ∈ encodePoint n) : 0x80 ≤ b.toNat := by
  have hlead : ∀ m, 0x80 ≤ m → m < 256 → 0x80 ≤ (UInt8.ofNat m).toNat := by
    intro m hlo hhi
    rw [toNat_ofNat hhi]
    exact hlo
  have htail : ∀ k, 0x80 ≤ (UInt8.ofNat (k % 0x40 + 0x80)).toNat := fun k => (tail_ofNat k).1
  unfold encodePoint at hb
  rw [if_neg (Nat.not_le.2 h)] at hb
  split_ifs at hb
  all_goals simp only [List.mem_cons, List.not_mem_nil, or_false] at hb
  · rcases hb with rfl | rfl
    · exact hlead _ (by omega) (by omega)
    · exact htail n
  · rcases hb with rfl | rfl | rfl
    · exact hlead _ (by omega) (by omega)
    · exact htail (n / 64)
    · exact htail n
  · rcases hb with rfl | rfl | rfl | rfl
    · exact hlead _ (by omega) (by omega)
    · exact htail (n / 4096)
    · exact htail (n / 64)
    · exact htail n

theorem points_utf16 (text : List Char) : points (utf16 text) = text.map Char.toNat := by
  induction text with
  | nil => rfl
  | cons c text ih =>
    have hunits : utf16 (c :: text) = units c.toNat ++ utf16 text := rfl
    rw [hunits, points_units, ih, List.map_cons]

theorem utf16_inj {s t : List Char} (h : utf16 s = utf16 t) : s = t := by
  have hpoints : s.map Char.toNat = t.map Char.toNat := by rw [← points_utf16, h, points_utf16]
  exact List.map_injective_iff.2 (fun _ _ hc => Char.toNat_inj.1 hc) hpoints

theorem mem_of_mem_utf8 {c : Char} {text : List Char} (hc : c.toNat < 0x80) (h : UInt8.ofNat c.toNat ∈ utf8 text) :
    c ∈ text := by
  obtain ⟨d, hd, hb⟩ := List.mem_flatMap.1 h
  have hlow : ¬0x7f < d.toNat := by
    intro hhigh
    have hle : 0x80 ≤ (UInt8.ofNat c.toNat).toNat := le_of_mem_encodePoint hhigh hb
    rw [UInt8.toNat_ofNat_of_lt' (show c.toNat < 256 by omega)] at hle
    omega
  have hbyte : UInt8.ofNat c.toNat ∈ encodePoint d.toNat := hb
  rw [encodePoint, if_pos (Nat.le_of_not_lt hlow), List.mem_singleton] at hbyte
  have hnat := congrArg UInt8.toNat hbyte
  rw [UInt8.toNat_ofNat_of_lt' (show c.toNat < 256 by omega), UInt8.toNat_ofNat_of_lt' (show d.toNat < 256 by omega)] at hnat
  exact Char.toNat_inj.1 hnat ▸ hd

/-! ## Units and points -/

theorem toNat_ofNat16 {n : Nat} (h : n < 65536) : (UInt16.ofNat n).toNat = n := UInt16.toNat_ofNat_of_lt' h

theorem points_cons_cons {u v : UInt16} (h : IsHi u ∧ IsLo v) (rest : List UInt16) :
    points (u :: v :: rest) = (0x10000 + (u.toNat - 0xD800) * 1024 + (v.toNat - 0xDC00)) :: points rest := by
  rw [points, if_pos h]

theorem flatMap_units_points (us : List UInt16) : (points us).flatMap units = us := by
  induction us using points.induct with
  | case1 => rfl
  | case2 u =>
    have hu := u.toNat_lt
    have hunits : units u.toNat = [u] := by
      unfold units
      rw [if_pos (by omega), UInt16.ofNat_toNat]
    rw [points, List.flatMap_cons, hunits]
    rfl
  | case3 u v rest h ih =>
    have hunits : units (0x10000 + (u.toNat - 0xD800) * 1024 + (v.toNat - 0xDC00)) = [u, v] := by
      obtain ⟨⟨hulo, huhi⟩, hvlo, hvhi⟩ := h
      have hfirst :
          0xD800 + (0x10000 + (u.toNat - 0xD800) * 1024 + (v.toNat - 0xDC00) - 0x10000) / 1024 = u.toNat := by
        omega
      have hsecond :
          0xDC00 + (0x10000 + (u.toNat - 0xD800) * 1024 + (v.toNat - 0xDC00) - 0x10000) % 1024 = v.toNat := by
        omega
      unfold units
      rw [if_neg (by omega), hfirst, hsecond, UInt16.ofNat_toNat, UInt16.ofNat_toNat]
    rw [points_cons_cons h, List.flatMap_cons, hunits, ih]
    rfl
  | case4 u v rest h ih =>
    have hu := u.toNat_lt
    have hunits : units u.toNat = [u] := by
      unfold units
      rw [if_pos (by omega), UInt16.ofNat_toNat]
    rw [points, if_neg h, List.flatMap_cons, hunits, ih]
    rfl

theorem points_le {us : List UInt16} {n : Nat} (h : n ∈ points us) : n ≤ 0x10FFFF := by
  induction us using points.induct with
  | case1 => cases h
  | case2 u =>
    have hu := u.toNat_lt
    rw [points, List.mem_singleton] at h
    omega
  | case3 u v rest hpair ih =>
    rw [points_cons_cons hpair, List.mem_cons] at h
    obtain ⟨⟨hulo, huhi⟩, hvlo, hvhi⟩ := hpair
    rcases h with hn | h
    · omega
    · exact ih h
  | case4 u v rest hpair ih =>
    have hu := u.toNat_lt
    rw [points, if_neg hpair, List.mem_cons] at h
    rcases h with hn | h
    · omega
    · exact ih h

theorem length_encodePoint (n : Nat) : (encodePoint n).length =
    if n ≤ 0x7f then 1 else if n ≤ 0x7ff then 2 else if n ≤ 0xffff then 3 else 4 := by
  unfold encodePoint
  split_ifs <;> rfl

theorem encode_points {us vs : List UInt16} {n : Nat} (h : points us = n :: points vs) :
    encode us = encodePoint n ++ encode vs := by
  unfold encode
  rw [h, List.flatMap_cons]

/-- A surrogate behind another one takes less room with it than alone. -/
theorem length_encode_cons_le (u : UInt16) (us : List UInt16) :
    (encode (u :: us)).length ≤ (encodePoint u.toNat).length + (encode us).length := by
  cases us with
  | nil =>
    have hu : points [u] = u.toNat :: points [] := rfl
    rw [encode_points hu, List.length_append]
  | cons v rest =>
    by_cases hpair : IsHi u ∧ IsLo v
    · have hv : points (v :: rest) = v.toNat :: points rest := by
        refine points_cons (fun hhi => ?_) rest
        have := hpair.2.1
        have := hhi.2
        omega
      rw [encode_points (points_cons_cons hpair rest), encode_points hv, List.length_append, List.length_append,
        length_encodePoint, length_encodePoint, length_encodePoint]
      obtain ⟨⟨hulo, huhi⟩, hvlo, hvhi⟩ := hpair
      split_ifs <;> omega
    · have hu : points (u :: v :: rest) = u.toNat :: points (v :: rest) := by
        rw [points, if_neg hpair]
      rw [encode_points hu, List.length_append]

theorem length_encode_units_le {n : Nat} (hn : n ≤ 0x10FFFF) (us : List UInt16) :
    (encode (units n ++ us)).length ≤ (encodePoint n).length + (encode us).length := by
  by_cases hbmp : n ≤ 0xFFFF
  · have hunits : units n = [UInt16.ofNat n] := if_pos hbmp
    have hself : (UInt16.ofNat n).toNat = n := toNat_ofNat16 (by omega)
    have hle := length_encode_cons_le (UInt16.ofNat n) us
    rwa [hself, ← List.singleton_append, ← hunits] at hle
  · have hunits : units n =
        [UInt16.ofNat (0xD800 + (n - 0x10000) / 1024), UInt16.ofNat (0xDC00 + (n - 0x10000) % 1024)] := if_neg hbmp
    have hhi := toNat_ofNat16 (n := 0xD800 + (n - 0x10000) / 1024) (by omega)
    have hlo := toNat_ofNat16 (n := 0xDC00 + (n - 0x10000) % 1024) (by omega)
    have hpair : IsHi (UInt16.ofNat (0xD800 + (n - 0x10000) / 1024)) ∧
        IsLo (UInt16.ofNat (0xDC00 + (n - 0x10000) % 1024)) := by
      unfold IsHi IsLo
      omega
    have hpoints := points_cons_cons hpair us
    have hvalue : 0x10000 + ((UInt16.ofNat (0xD800 + (n - 0x10000) / 1024)).toNat - 0xD800) * 1024 +
        ((UInt16.ofNat (0xDC00 + (n - 0x10000) % 1024)).toNat - 0xDC00) = n := by
      omega
    rw [hvalue] at hpoints
    rw [hunits, List.cons_append, List.singleton_append, encode_points hpoints, List.length_append]

theorem length_encode_flatMap_units_le {ns : List Nat} (h : ∀ n ∈ ns, n ≤ 0x10FFFF) :
    (encode (ns.flatMap units)).length ≤ (ns.flatMap encodePoint).length := by
  induction ns with
  | nil => exact Nat.le_refl 0
  | cons n ns ih =>
    obtain ⟨hn, hns⟩ := List.forall_mem_cons.mp h
    have hhead := length_encode_units_le hn (ns.flatMap units)
    have htail := ih hns
    rw [List.flatMap_cons, List.flatMap_cons, List.length_append]
    omega

end ArtPi.Lib.Utf8
