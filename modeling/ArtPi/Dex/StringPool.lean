import ArtPi.Lib.ModifiedUtf8
import ArtPi.Lib.Utf8
import ArtPi.Sandbox.Leb
import Mathlib.Data.List.Nodup

set_option autoImplicit false

/-! # The string pool (`pi_dex_gen.cpp`, `pi_dex_resolver.cpp`, `slicer/buffer.h`)

`Builder::Str` makes an entry of the pool out of a byte string: it reads the bytes as UTF-8, or each byte as a
unit if they are not, and writes the number of the units, the units in modified UTF-8, and a zero. Entries are
kept by the byte strings they were made from. -/

namespace ArtPi.Dex.StringPool

open Lib

/-! ## `Utf8ToUtf16` -/

/-- The first byte of a sequence: its bits of the code point, and the number of bytes that follow. -/
def lead (c : UInt8) : Option (Nat × Nat) :=
  if c < 0x80 then some (c.toNat, 0)
  else if c &&& 0xE0 = 0xC0 then some ((c &&& 0x1F).toNat, 1)
  else if c &&& 0xF0 = 0xE0 then some ((c &&& 0x0F).toNat, 2)
  else if c &&& 0xF8 = 0xF0 then some ((c &&& 0x07).toNat, 3)
  else none

/-- The bytes that follow. Whether there are enough of them is checked before, with the same result. -/
def continuation : Nat → Nat → List UInt8 → Option (Nat × List UInt8)
  | 0, cp, s => some (cp, s)
  | _ + 1, _, [] => none
  | extra + 1, cp, cc :: s =>
    if cc &&& 0xC0 ≠ 0x80 then none
    else continuation extra (cp <<< 6 ||| (cc &&& 0x3F).toNat) s

def codeUnits (cp : Nat) : Option (List UInt16) :=
  if cp ≤ 0xFFFF then some [UInt16.ofNat cp]
  else if cp ≤ 0x10FFFF then
    some [UInt16.ofNat (0xD800 + (cp - 0x10000) >>> 10), UInt16.ofNat (0xDC00 + ((cp - 0x10000) &&& 0x3FF))]
  else none

theorem length_le_of_continuation {extra cp cp' : Nat} {s rest : List UInt8}
    (h : continuation extra cp s = some (cp', rest)) : rest.length ≤ s.length := by
  induction extra generalizing cp s with
  | zero =>
    obtain ⟨-, rfl⟩ := Prod.mk.inj (Option.some.inj h)
    exact Nat.le_refl _
  | succ extra ih =>
    cases s with
    | nil => exact absurd h (by simp [continuation])
    | cons cc s =>
      rw [continuation] at h
      split at h
      · exact absurd h (by simp)
      · exact Nat.le_succ_of_le (ih h)

def utf8ToUtf16 (s : List UInt8) : Option (List UInt16) :=
  match s with
  | [] => some []
  | c :: s =>
    match lead c with
    | none => none
    | some (cp, extra) =>
      match _h : continuation extra cp s with
      | none => none
      | some (cp, rest) =>
        match codeUnits cp with
        | none => none
        | some us => (utf8ToUtf16 rest).map (us ++ ·)
termination_by s.length
decreasing_by exact Nat.lt_succ_of_le (length_le_of_continuation _h)

/-! ## `Builder::Str` -/

def appendMutf8Unit (unit : UInt16) : List UInt8 :=
  if unit ≠ 0 ∧ unit ≤ 0x7F then [unit.toUInt8]
  else if unit ≤ 0x7FF then
    [((0xC0 : UInt16) ||| unit >>> 6).toUInt8, ((0x80 : UInt16) ||| unit &&& 0x3F).toUInt8]
  else
    [((0xE0 : UInt16) ||| unit >>> 12).toUInt8, ((0x80 : UInt16) ||| unit >>> 6 &&& 0x3F).toUInt8,
      ((0x80 : UInt16) ||| unit &&& 0x3F).toUInt8]

/-- `WriteULeb128` -/
def writeULeb128 (data : Nat) : List UInt8 :=
  let out := data &&& 0x7f
  if out ≠ data then UInt8.ofNat (out ||| 0x80) :: writeULeb128 (data >>> 7) else [UInt8.ofNat out]
termination_by data
decreasing_by
  rename_i hne
  have hout : data &&& 0x7f = data % 128 := Leb128.low7 data
  rw [Nat.shiftRight_eq_div_pow]
  omega

/-- `Buffer::PushULeb128`, which has four bytes for the number and asserts that they are enough. -/
def pushULeb128 (value : Nat) : Option (List UInt8) :=
  if (writeULeb128 value).length ≤ 4 then some (writeULeb128 value) else none

/-- The units that `Str` writes. -/
def strUnits (value : List UInt8) : List UInt16 :=
  match utf8ToUtf16 value with
  | some us => us
  | none => value.map UInt8.toUInt16

/-- The `string_data_item`. The number of units is a `dex::u4`. -/
def stringData (value : List UInt8) : Option (List UInt8) :=
  let us := strUnits value
  (pushULeb128 (us.length % 2 ^ 32)).map (fun size => size ++ us.flatMap appendMutf8Unit ++ [0])

/-- The pool: the entry of each string, and the data of each entry. -/
structure Pool where
  strings : List (List UInt8 × Nat)
  entries : List (List UInt8)
  deriving DecidableEq

def Pool.empty : Pool := ⟨[], []⟩

/-- `Builder::Str` -/
def str (p : Pool) (value : List UInt8) : Option (Pool × Nat) :=
  match p.strings.lookup value with
  | some n => some (p, n)
  | none =>
    (stringData value).map (fun data =>
      (⟨(value, p.entries.length) :: p.strings, p.entries ++ [data]⟩, p.entries.length))

/-- A sequence of calls, with the entries they return. -/
def strs (p : Pool) : List (List UInt8) → Option (Pool × List Nat)
  | [] => some (p, [])
  | value :: values =>
    match str p value with
    | none => none
    | some (p, n) => (strs p values).map (fun r => (r.1, n :: r.2))

/-! ## `DexResolver` -/

/-- The loop is that of `readUleb`. -/
def decodeULEB128 (s : List UInt8) : Option (Nat × List UInt8) := Sandbox.readUlebLoop 5 0 0 s

/-- What `resolveString` returns points behind the length of the data. -/
def resolveString (data : List UInt8) : Option (List UInt8) := (decodeULEB128 data).map Prod.snd

/-- The string that a pointer to bytes is in C. -/
def cString (s : List UInt8) : List UInt8 := s.takeWhile (· ≠ 0)

/-! ## The reader of UTF-8 -/

open Utf8

theorem or_shiftLeft {cp n : Nat} (h : n < 64) : cp <<< 6 ||| n = cp * 64 + n := by
  rw [← Nat.shiftLeft_add_eq_or_of_lt (i := 6) h, Nat.shiftLeft_eq]

theorem toNat_low6 (c : UInt8) : (c &&& 0x3F).toNat = c.toNat % 64 := by
  rw [UInt8.toNat_and]
  exact Nat.and_two_pow_sub_one_eq_mod c.toNat 6

set_option maxRecDepth 8192 in
theorem isTail_iff (c : UInt8) : c &&& 0xC0 = 0x80 ↔ Tail c := by
  have hall : ∀ n < 256, UInt8.ofNat n &&& 0xC0 = 0x80 ↔ 0x80 ≤ n ∧ n < 0xC0 := by
    decide
  have hc := hall c.toNat c.toNat_lt
  rwa [UInt8.ofNat_toNat] at hc

set_option maxRecDepth 8192 in
theorem lead_eq (c : UInt8) :
    lead c =
      if c.toNat < 0x80 then some (c.toNat, 0)
      else if c.toNat < 0xC0 then none
      else if c.toNat < 0xE0 then some (c.toNat % 32, 1)
      else if c.toNat < 0xF0 then some (c.toNat % 16, 2)
      else if c.toNat < 0xF8 then some (c.toNat % 8, 3)
      else none := by
  have hall : ∀ n < 256, lead (UInt8.ofNat n) =
      if n < 0x80 then some (n, 0)
      else if n < 0xC0 then none
      else if n < 0xE0 then some (n % 32, 1)
      else if n < 0xF0 then some (n % 16, 2)
      else if n < 0xF8 then some (n % 8, 3)
      else none := by
    decide
  have hc := hall c.toNat c.toNat_lt
  rwa [UInt8.ofNat_toNat] at hc

theorem continuation_tail {cc : UInt8} (h : Tail cc) (extra cp : Nat) (s : List UInt8) :
    continuation (extra + 1) cp (cc :: s) = continuation extra (cp * 64 + cc.toNat % 64) s := by
  rw [continuation, if_neg (not_not.2 ((isTail_iff cc).2 h)), toNat_low6,
    or_shiftLeft (Nat.mod_lt _ (by decide))]

theorem cons_of_continuation {extra cp cp' : Nat} {s rest : List UInt8}
    (h : continuation (extra + 1) cp s = some (cp', rest)) :
    ∃ cc s', s = cc :: s' ∧ Tail cc ∧
      continuation extra (cp * 64 + cc.toNat % 64) s' = some (cp', rest) := by
  cases s with
  | nil => exact absurd h (by simp [continuation])
  | cons cc s =>
    by_cases htail : Tail cc
    · rw [continuation_tail htail] at h
      exact ⟨cc, s, rfl, htail, h⟩
    · rw [continuation, if_pos (fun hmark => htail ((isTail_iff cc).1 hmark))] at h
      exact absurd h (by simp)

/-- What is read is spelled by the bytes in front of the rest. -/
theorem spelling_of_read {c : UInt8} {s rest : List UInt8} {cp cp' extra : Nat} (hlead : lead c = some (cp, extra))
    (hcont : continuation extra cp s = some (cp', rest)) : ∃ seq, c :: s = seq ++ rest ∧ Spelling cp' seq := by
  rw [lead_eq] at hlead
  split at hlead
  · next hc =>
      obtain ⟨rfl, rfl⟩ := Prod.mk.inj (Option.some.inj hlead)
      obtain ⟨rfl, rfl⟩ := Prod.mk.inj (Option.some.inj hcont)
      exact ⟨[c], rfl, .one hc⟩
  · split at hlead
    · exact absurd hlead (by simp)
    · split at hlead
      · obtain ⟨rfl, rfl⟩ := Prod.mk.inj (Option.some.inj hlead)
        obtain ⟨b, s, rfl, hb, hcont⟩ := cons_of_continuation hcont
        obtain ⟨rfl, rfl⟩ := Prod.mk.inj (Option.some.inj hcont)
        exact ⟨[c, b], rfl, .two (by omega) (by omega) hb⟩
      · split at hlead
        · obtain ⟨rfl, rfl⟩ := Prod.mk.inj (Option.some.inj hlead)
          obtain ⟨b, s, rfl, hb, hcont⟩ := cons_of_continuation hcont
          obtain ⟨d, s, rfl, hd, hcont⟩ := cons_of_continuation hcont
          obtain ⟨rfl, rfl⟩ := Prod.mk.inj (Option.some.inj hcont)
          exact ⟨[c, b, d], rfl, .three (by omega) (by omega) hb hd⟩
        · split at hlead
          · obtain ⟨rfl, rfl⟩ := Prod.mk.inj (Option.some.inj hlead)
            obtain ⟨b, s, rfl, hb, hcont⟩ := cons_of_continuation hcont
            obtain ⟨d, s, rfl, hd, hcont⟩ := cons_of_continuation hcont
            obtain ⟨e, s, rfl, he, hcont⟩ := cons_of_continuation hcont
            obtain ⟨rfl, rfl⟩ := Prod.mk.inj (Option.some.inj hcont)
            exact ⟨[c, b, d, e], rfl, .four (by omega) (by omega) hb hd he⟩
          · exact absurd hlead (by simp)

theorem read_of_spelling {c : UInt8} {s rest seq : List UInt8} {cp : Nat} (hseq : c :: s = seq ++ rest)
    (hspelling : Spelling cp seq) :
    ∃ start extra, lead c = some (start, extra) ∧ continuation extra start s = some (cp, rest) := by
  cases hspelling with
  | @one a ha =>
    obtain ⟨rfl, rfl⟩ := List.cons.inj hseq
    exact ⟨c.toNat, 0, by rw [lead_eq, if_pos ha], rfl⟩
  | @two a b hlow hhigh hb =>
    obtain ⟨rfl, rfl⟩ := List.cons.inj hseq
    exact ⟨c.toNat % 32, 1, by
      rw [lead_eq, if_neg (by omega), if_neg (by omega), if_pos hhigh], continuation_tail hb _ _ _⟩
  | @three a b d hlow hhigh hb hd =>
    obtain ⟨rfl, rfl⟩ := List.cons.inj hseq
    refine ⟨c.toNat % 16, 2, by
      rw [lead_eq, if_neg (by omega), if_neg (by omega), if_neg (by omega), if_pos hhigh], ?_⟩
    exact (continuation_tail hb _ _ _).trans (continuation_tail hd _ _ _)
  | @four a b d e hlow hhigh hb hd he =>
    obtain ⟨rfl, rfl⟩ := List.cons.inj hseq
    refine ⟨c.toNat % 8, 3, by
      rw [lead_eq, if_neg (by omega), if_neg (by omega), if_neg (by omega), if_neg (by omega),
        if_pos hhigh], ?_⟩
    exact (continuation_tail hb _ _ _).trans
      ((continuation_tail hd _ _ _).trans (continuation_tail he _ _ _))

theorem read_iff {c : UInt8} {s rest : List UInt8} {cp' : Nat} :
    (∃ cp extra, lead c = some (cp, extra) ∧ continuation extra cp s = some (cp', rest)) ↔
      ∃ seq, c :: s = seq ++ rest ∧ Spelling cp' seq := by
  constructor
  · rintro ⟨cp, extra, hlead, hcont⟩
    exact spelling_of_read hlead hcont
  · rintro ⟨seq, hseq, hspelling⟩
    exact read_of_spelling hseq hspelling

theorem codeUnits_eq (cp : Nat) : codeUnits cp = if cp ≤ 0x10FFFF then some (units cp) else none := by
  unfold codeUnits units
  rw [Nat.shiftRight_eq_div_pow, show (cp - 0x10000) &&& 0x3FF = (cp - 0x10000) % 1024 from
    Nat.and_two_pow_sub_one_eq_mod _ 10]
  by_cases hsmall : cp ≤ 0xFFFF
  · rw [if_pos hsmall, if_pos hsmall, if_pos (by omega)]
  · rw [if_neg hsmall, if_neg hsmall]

theorem utf8ToUtf16_cons_iff {c : UInt8} {s : List UInt8} {us : List UInt16} :
    utf8ToUtf16 (c :: s) = some us ↔
      ∃ cp extra cp' rest us', lead c = some (cp, extra) ∧ continuation extra cp s = some (cp', rest) ∧
        cp' ≤ 0x10FFFF ∧ utf8ToUtf16 rest = some us' ∧ us = units cp' ++ us' := by
  rw [utf8ToUtf16]
  cases hlead : lead c with
  | none => simp
  | some r =>
    obtain ⟨cp, extra⟩ := r
    dsimp only
    split
    · next hcont => simp [hcont]
    · next cp' rest hcont =>
        rw [codeUnits_eq]
        by_cases hcp : cp' ≤ 0x10FFFF
        · rw [if_pos hcp]
          dsimp only
          rw [Option.map_eq_some_iff]
          constructor
          · rintro ⟨us', hrest, rfl⟩
            exact ⟨cp, extra, cp', rest, us', rfl, hcont, hcp, hrest, rfl⟩
          · rintro ⟨_, _, _, _, us', heq, hcont', _, hrest, rfl⟩
            obtain ⟨rfl, rfl⟩ := Prod.mk.inj (Option.some.inj heq)
            obtain ⟨rfl, rfl⟩ := Prod.mk.inj (Option.some.inj (hcont.symm.trans hcont'))
            exact ⟨us', hrest, rfl⟩
        · rw [if_neg hcp]
          refine iff_of_false (by simp) ?_
          rintro ⟨_, _, _, _, us', heq, hcont', hle, _⟩
          obtain ⟨rfl, rfl⟩ := Prod.mk.inj (Option.some.inj heq)
          obtain ⟨rfl, rfl⟩ := Prod.mk.inj (Option.some.inj (hcont.symm.trans hcont'))
          exact hcp hle

/-- The reader accepts exactly what spells units, in the lenient sense, and finds these units. -/
theorem utf8ToUtf16_eq_some_iff {s : List UInt8} {us : List UInt16} :
    utf8ToUtf16 s = some us ↔ Spells s us := by
  constructor
  · intro h
    induction hn : s.length using Nat.strong_induction_on generalizing s us with
    | _ n ih =>
      cases s with
      | nil =>
        rw [utf8ToUtf16] at h
        obtain rfl := Option.some.inj h
        exact .nil
      | cons c s =>
        obtain ⟨cp, extra, cp', rest, us', hlead, hcont, hcp, hrest, rfl⟩ := utf8ToUtf16_cons_iff.1 h
        have hlen := length_le_of_continuation hcont
        have hspells := ih rest.length (by rw [← hn, List.length_cons]; omega) hrest rfl
        obtain ⟨seq, hseq, hspelling⟩ := read_iff.1 ⟨cp, extra, hlead, hcont⟩
        rw [hseq]
        exact .cons hspelling hcp hspells
  · intro h
    induction h with
    | nil => rw [utf8ToUtf16]
    | @cons cp seq rest us hspelling hcp _ ih =>
      obtain ⟨c, s, hseq⟩ : ∃ c s, seq ++ rest = c :: s := by
        cases hspelling <;> exact ⟨_, _, rfl⟩
      obtain ⟨cp0, extra, hlead, hcont⟩ := read_iff.2 ⟨seq, hseq.symm, hspelling⟩
      rw [hseq]
      exact utf8ToUtf16_cons_iff.2 ⟨cp0, extra, cp, rest, us, hlead, hcont, hcp, ih, rfl⟩

/-! ## The writer of modified UTF-8 -/

theorem toUInt8_mark {k m : Nat} {x : UInt16} {n : Nat} (hx : x.toNat = n) (hn : n < 2 ^ k)
    (hmark : m <<< k < 2 ^ 8) :
    (UInt16.ofNat (m <<< k) ||| x).toUInt8 = UInt8.ofNat (m <<< k + n) := by
  rw [← UInt8.toNat_inj, UInt16.toNat_toUInt8, UInt16.toNat_or, hx,
    UInt16.toNat_ofNat_of_lt' (Nat.lt_trans hmark (by decide)),
    ← Nat.shiftLeft_add_eq_or_of_lt hn, UInt8.toNat_ofNat']

theorem toNat_low6_unit (u : UInt16) : (u &&& 0x3F).toNat = u.toNat % 64 := by
  rw [UInt16.toNat_and]
  exact Nat.and_two_pow_sub_one_eq_mod u.toNat 6

theorem appendMutf8Unit_eq (u : UInt16) : appendMutf8Unit u = ModifiedUtf8.encodeUnit u := by
  have hu := u.toNat_lt
  have hzero : u ≠ 0 ↔ 1 ≤ u.toNat := by
    rw [Ne, ← UInt16.toNat_inj, Nat.one_le_iff_ne_zero]
    rfl
  have hlow : ((0x80 : UInt16) ||| u &&& 0x3F).toUInt8 = UInt8.ofNat (0x80 + u.toNat % 64) :=
    toUInt8_mark (k := 7) (m := 1) (toNat_low6_unit u) (by omega) (by decide)
  have hsix : (u >>> 6).toNat = u.toNat / 64 := by
    rw [UInt16.toNat_shiftRight, Nat.shiftRight_eq_div_pow]
    rfl
  have htwelve : (u >>> 12).toNat = u.toNat / 4096 := by
    rw [UInt16.toNat_shiftRight, Nat.shiftRight_eq_div_pow]
    rfl
  have hmid : ((0x80 : UInt16) ||| u >>> 6 &&& 0x3F).toUInt8 =
      UInt8.ofNat (0x80 + u.toNat / 64 % 64) :=
    toUInt8_mark (k := 7) (m := 1) ((toNat_low6_unit _).trans (by rw [hsix])) (by omega)
      (by decide)
  unfold appendMutf8Unit ModifiedUtf8.encodeUnit
  simp only [hzero, UInt16.le_iff_toNat_le, show UInt16.toNat 0x7F = 0x7F from rfl,
    show UInt16.toNat 0x7FF = 0x7FF from rfl]
  by_cases hone : 1 ≤ u.toNat ∧ u.toNat < 0x80
  · rw [if_pos ⟨hone.1, Nat.le_of_lt_succ hone.2⟩, if_pos hone]
    rfl
  · rw [if_neg (fun hle => hone ⟨hle.1, Nat.lt_succ_of_le hle.2⟩), if_neg hone]
    by_cases htwo : u.toNat < 0x800
    · have hfirst : ((0xC0 : UInt16) ||| u >>> 6).toUInt8 = UInt8.ofNat (0xC0 + u.toNat / 64) :=
        toUInt8_mark (k := 6) (m := 3) hsix (by omega) (by decide)
      rw [if_pos (Nat.le_of_lt_succ htwo), if_pos htwo, hfirst, hlow]
    · have hfirst : ((0xE0 : UInt16) ||| u >>> 12).toUInt8 = UInt8.ofNat (0xE0 + u.toNat / 4096) :=
        toUInt8_mark (k := 5) (m := 7) htwelve (by omega) (by decide)
      rw [if_neg (fun hle => htwo (Nat.lt_succ_of_le hle)), if_neg htwo, hfirst, hmid, hlow]

theorem flatMap_appendMutf8Unit (us : List UInt16) :
    us.flatMap appendMutf8Unit = ModifiedUtf8.encode us :=
  congrArg us.flatMap (funext appendMutf8Unit_eq)

/-! ## The number of units -/

theorem writeULeb128_eq (n : Nat) :
    writeULeb128 n =
      if n < 128 then [UInt8.ofNat n] else UInt8.ofNat (n % 128 + 128) :: writeULeb128 (n / 128) := by
  have hmark : n % 128 ||| 0x80 = n % 128 + 128 := by
    have hlt : n % 128 < 2 ^ 7 := Nat.mod_lt _ (by decide)
    have hadd := Nat.shiftLeft_add_eq_or_of_lt hlt 1
    rw [Nat.or_comm, Nat.add_comm]
    exact hadd.symm
  rw [writeULeb128]
  simp only [Leb128.low7, Nat.shiftRight_eq_div_pow, hmark]
  by_cases hn : n < 128
  · rw [if_neg (not_not.2 (Nat.mod_eq_of_lt hn)), if_pos hn, Nat.mod_eq_of_lt hn]
  · rw [if_pos (by omega), if_neg hn]

theorem writeULeb128_ne_nil (n : Nat) : writeULeb128 n ≠ [] := by
  rw [writeULeb128_eq]
  split <;> exact List.cons_ne_nil _ _

theorem spelled_writeULeb128 (n : Nat) : Leb128.Spelled (writeULeb128 n) := by
  induction n using Nat.strong_induction_on with
  | _ n ih =>
    rw [writeULeb128_eq]
    split
    · next hn =>
        change (UInt8.ofNat n).toNat < 128
        rwa [UInt8.toNat_ofNat_of_lt' (show n < 256 by omega)]
    · next hn =>
        have hrest := ih (n / 128) (by omega)
        obtain ⟨b, bs, hbs⟩ := List.exists_cons_of_ne_nil (writeULeb128_ne_nil (n / 128))
        rw [hbs] at hrest ⊢
        refine ⟨?_, hrest⟩
        rw [UInt8.toNat_ofNat_of_lt' (show n % 128 + 128 < 256 by omega)]
        omega

theorem value_writeULeb128 (n : Nat) : Leb128.value (writeULeb128 n) = n := by
  induction n using Nat.strong_induction_on with
  | _ n ih =>
    rw [writeULeb128_eq]
    split
    · next hn =>
        rw [Leb128.value, Leb128.value, UInt8.toNat_ofNat_of_lt' (show n < 256 by omega)]
        omega
    · next hn =>
        rw [Leb128.value, ih (n / 128) (by omega),
          UInt8.toNat_ofNat_of_lt' (show n % 128 + 128 < 256 by omega)]
        omega

theorem length_writeULeb128_le_iff (n k : Nat) :
    (writeULeb128 n).length ≤ k + 1 ↔ n < 128 ^ (k + 1) := by
  induction k generalizing n with
  | zero =>
    rw [writeULeb128_eq]
    split
    · next hn => exact iff_of_true (Nat.le_refl _) hn
    · next hn =>
        have hpos := List.length_pos_iff.2 (writeULeb128_ne_nil (n / 128))
        refine iff_of_false ?_ (by simpa using hn)
        rw [List.length_cons]
        omega
  | succ k ih =>
    rw [writeULeb128_eq]
    split
    · next hn =>
        have hpow : 128 ^ 1 ≤ 128 ^ (k + 1 + 1) := Nat.pow_le_pow_right (by decide) (by omega)
        exact iff_of_true (Nat.succ_le_succ (Nat.zero_le _)) (by omega)
    · next hn =>
        rw [List.length_cons, Nat.add_le_add_iff_right, ih, Nat.pow_succ 128 (k + 1),
          Nat.div_lt_iff_lt_mul (by decide)]

theorem pushULeb128_eq_some_iff {n : Nat} {size : List UInt8} :
    pushULeb128 n = some size ↔ n < 2 ^ 28 ∧ size = writeULeb128 n := by
  unfold pushULeb128
  have hlen := length_writeULeb128_le_iff n 3
  by_cases hn : n < 2 ^ 28
  · rw [if_pos (hlen.2 hn), Option.some.injEq]
    exact ⟨fun h => ⟨hn, h.symm⟩, fun h => h.2.symm⟩
  · rw [if_neg (fun hle => hn (hlen.1 hle))]
    exact iff_of_false (by simp) (fun h => hn h.1)

/-- The reader of the resolver reads back a number of 28 bits. -/
theorem decodeULEB128_writeULeb128 {n : Nat} (h : n < 2 ^ 28) (behind : List UInt8) :
    decodeULEB128 (writeULeb128 n ++ behind) = some (n, behind) := by
  have hlen := (length_writeULeb128_le_iff n 3).2 h
  have hread := Sandbox.Leb.readUleb_append
    ⟨writeULeb128 n, spelled_writeULeb128 n, Nat.le_succ_of_le hlen⟩ behind
  have hvalue : Leb128.value (writeULeb128 n) % 2 ^ 32 = n := by
    rw [value_writeULeb128]
    omega
  rw [Sandbox.Leb.toU32, hvalue] at hread
  exact hread

/-! ## The data of an entry -/

theorem stringData_eq_some_iff {value data : List UInt8} :
    stringData value = some data ↔
      (strUnits value).length % 2 ^ 32 < 2 ^ 28 ∧
        data = writeULeb128 ((strUnits value).length % 2 ^ 32) ++ ModifiedUtf8.encode (strUnits value) ++
          [0] := by
  unfold stringData
  dsimp only
  rw [Option.map_eq_some_iff, flatMap_appendMutf8Unit]
  constructor
  · rintro ⟨size, hpush, rfl⟩
    obtain ⟨hlt, rfl⟩ := pushULeb128_eq_some_iff.1 hpush
    exact ⟨hlt, rfl⟩
  · rintro ⟨hlt, rfl⟩
    exact ⟨_, pushULeb128_eq_some_iff.2 ⟨hlt, rfl⟩, rfl⟩

theorem strUnits_utf8 (cs : List Char) : strUnits (utf8 cs) = utf16 cs := by
  unfold strUnits
  rw [utf8ToUtf16_eq_some_iff.2 (spells_utf8 cs)]

theorem cString_append {s : List UInt8} (h : ∀ b ∈ s, b ≠ 0) (behind : List UInt8) :
    cString (s ++ [0] ++ behind) = s := by
  unfold cString
  rw [List.append_assoc, List.takeWhile_append_of_pos (by simpa using h)]
  simp

/-- The `string_data_item` of a Unicode string, in its parts, and what the resolver makes of it. -/
structure RoundTrip (cs : List Char) (size mutf8 : List UInt8) : Prop where
  data : stringData (utf8 cs) = some (size ++ mutf8 ++ [0])
  spelled : Leb128.Spelled size
  value : Leb128.value size = (utf16 cs).length
  encodes : mutf8 = ModifiedUtf8.encode (utf16 cs)
  noZero : 0 ∉ mutf8
  decodes : ModifiedUtf8.decode mutf8 = utf16 cs
  skips : ∀ behind, resolveString (size ++ mutf8 ++ [0] ++ behind) = some (mutf8 ++ [0] ++ behind)
  whole : ∀ behind, cString (mutf8 ++ [0] ++ behind) = mutf8

theorem RoundTrip.length_lt {cs : List Char} {size mutf8 : List UInt8} (h : RoundTrip cs size mutf8) :
    (utf16 cs).length < 2 ^ 28 := by
  obtain ⟨hlt, hdata⟩ := stringData_eq_some_iff.1 h.data
  rw [strUnits_utf8] at hlt hdata
  have hsize := List.append_cancel_right (List.append_cancel_right (h.encodes ▸ hdata))
  have hvalue := h.value
  rw [hsize, value_writeULeb128] at hvalue
  rw [← hvalue]
  exact hlt

/-- For every Unicode string: its entry of the pool makes the round trip iff the string has fewer than
    `2 ^ 28` UTF-16 units. -/
theorem roundTrip_iff (cs : List Char) :
    (∃ size mutf8, RoundTrip cs size mutf8) ↔ (utf16 cs).length < 2 ^ 28 := by
  constructor
  · rintro ⟨size, mutf8, h⟩
    exact h.length_lt
  · intro hlt
    have hmod : (utf16 cs).length % 2 ^ 32 = (utf16 cs).length := Nat.mod_eq_of_lt (by omega)
    have hbytes : ∀ b ∈ ModifiedUtf8.encode (utf16 cs), b ≠ 0 :=
      fun b hb => ModifiedUtf8.ne_zero_of_mem_encode hb
    refine ⟨writeULeb128 (utf16 cs).length, ModifiedUtf8.encode (utf16 cs), ?_,
      spelled_writeULeb128 _, value_writeULeb128 _, rfl, fun h => hbytes 0 h rfl,
      ModifiedUtf8.decode_encode _, fun behind => ?_, cString_append hbytes⟩
    · rw [stringData_eq_some_iff, strUnits_utf8, hmod]
      exact ⟨hlt, rfl⟩
    · unfold resolveString
      rw [List.append_assoc, List.append_assoc, decodeULEB128_writeULeb128 hlt, Option.map_some,
        List.append_assoc]

theorem length_utf16_replicate (n : Nat) : (utf16 (List.replicate n 'a')).length = n := by
  induction n with
  | zero => rfl
  | succ n ih =>
    unfold utf16 at ih ⊢
    rw [List.replicate_succ, List.flatMap_cons, List.length_append, ih, Nat.add_comm]
    rfl

/-- Of `2 ^ 28` times `a` the number does not fit in the four bytes. -/
theorem not_roundTrip_of_long :
    ¬ ∃ size mutf8, RoundTrip (List.replicate (2 ^ 28) 'a') size mutf8 := by
  rintro ⟨size, mutf8, h⟩
  have hlt := h.length_lt
  rw [length_utf16_replicate] at hlt
  exact Nat.lt_irrefl _ hlt

/-! ## Equal data -/

/-- The text of a byte string: what it spells, or its bytes as they are if it spells nothing. -/
def TextOf (s : List UInt8) (us : List UInt16) : Prop :=
  Spells s us ∨ (∀ us', ¬ Spells s us') ∧ us = s.map UInt8.toUInt16

/-- Two byte strings with the same text: one has, say, a longer sequence for a code point than the other, or
    two surrogates in place of the sequence of four bytes. -/
def SameText (s t : List UInt8) : Prop := ∃ us, TextOf s us ∧ TextOf t us

theorem textOf_iff {s : List UInt8} {us : List UInt16} : TextOf s us ↔ us = strUnits s := by
  unfold TextOf strUnits
  cases h : utf8ToUtf16 s with
  | some us' =>
    have hspells := utf8ToUtf16_eq_some_iff.1 h
    constructor
    · rintro (hus | ⟨hnone, -⟩)
      · exact Option.some.inj ((utf8ToUtf16_eq_some_iff.2 hus).symm.trans h)
      · exact absurd hspells (hnone us')
    · rintro rfl
      exact Or.inl hspells
  | none =>
    have hnone : ∀ us', ¬ Spells s us' := by
      intro us' hspells
      rw [utf8ToUtf16_eq_some_iff.2 hspells] at h
      exact absurd h (by simp)
    exact ⟨fun hus => (hus.resolve_left (hnone us)).2, fun hus => Or.inr ⟨hnone, hus⟩⟩

theorem sameText_iff {s t : List UInt8} : SameText s t ↔ strUnits s = strUnits t := by
  simp only [SameText, textOf_iff, exists_eq_left]

/-- The number of units, as the pool counts them, fits in the four bytes. -/
def Short (s : List UInt8) : Prop := ∀ us, TextOf s us → us.length % 2 ^ 32 < 2 ^ 28

theorem short_iff {s : List UInt8} : Short s ↔ ∃ data, stringData s = some data := by
  simp only [Short, textOf_iff, forall_eq, stringData_eq_some_iff, exists_and_left, exists_eq,
    and_true]

theorem strUnits_inj {s t data : List UInt8} (hs : stringData s = some data)
    (ht : stringData t = some data) : strUnits s = strUnits t := by
  obtain ⟨hslt, rfl⟩ := stringData_eq_some_iff.1 hs
  obtain ⟨htlt, hdata⟩ := stringData_eq_some_iff.1 ht
  rw [List.append_assoc, List.append_assoc] at hdata
  have hread := decodeULEB128_writeULeb128 hslt (ModifiedUtf8.encode (strUnits s) ++ [0])
  rw [hdata, decodeULEB128_writeULeb128 htlt] at hread
  have hunits := List.append_cancel_right (Prod.mk.inj (Option.some.inj hread)).2
  rw [← ModifiedUtf8.decode_encode (strUnits s), ← hunits, ModifiedUtf8.decode_encode]

theorem stringData_congr {s t : List UInt8} (h : strUnits s = strUnits t) :
    stringData s = stringData t := by
  unfold stringData
  rw [h]

/-! ## Sequences of calls -/

/-- The pool holds the strings `keys`, in the order of its entries. -/
structure Pool.Holds (p : Pool) (keys : List (List UInt8)) : Prop where
  nodup : keys.Nodup
  lookup : ∀ value n, p.strings.lookup value = some n ↔ keys[n]? = some value
  data : p.entries.map some = keys.map stringData

theorem Pool.holds_empty : Pool.empty.Holds [] :=
  ⟨List.nodup_nil, fun _ _ => by simp [Pool.empty], rfl⟩

theorem Pool.Holds.length {p : Pool} {keys : List (List UInt8)} (h : p.Holds keys) :
    p.entries.length = keys.length := by
  rw [← List.length_map some, h.data, List.length_map]

theorem getElem?_concat_eq_some_iff {keys : List (List UInt8)} {value v : List UInt8} {n : Nat} :
    (keys ++ [value])[n]? = some v ↔ keys[n]? = some v ∨ n = keys.length ∧ v = value := by
  rw [List.getElem?_append]
  split
  · next hn => exact ⟨Or.inl, fun h => h.resolve_right (fun hlast => by omega)⟩
  · next hn =>
      rw [List.getElem?_eq_none (Nat.le_of_not_lt hn)]
      obtain ⟨k, rfl⟩ := Nat.exists_eq_add_of_le (Nat.le_of_not_lt hn)
      rw [Nat.add_sub_cancel_left]
      cases k with
      | zero => simp [eq_comm]
      | succ k => simp

theorem Pool.Holds.push {p : Pool} {keys : List (List UInt8)} (h : p.Holds keys) {value data : List UInt8}
    (hnew : p.strings.lookup value = none) (hdata : stringData value = some data) :
    Pool.Holds ⟨(value, p.entries.length) :: p.strings, p.entries ++ [data]⟩ (keys ++ [value]) := by
  have hnot : value ∉ keys := by
    intro hmem
    obtain ⟨n, hn⟩ := List.getElem?_of_mem hmem
    rw [(h.lookup value n).2 hn] at hnew
    exact absurd hnew (by simp)
  refine ⟨?_, fun v n => ?_, ?_⟩
  · refine List.nodup_append.2 ⟨h.nodup, by simp, ?_⟩
    rintro a ha b hb rfl
    exact hnot (List.mem_singleton.1 hb ▸ ha)
  · rw [List.lookup_cons, h.length, getElem?_concat_eq_some_iff, ← h.lookup]
    by_cases hv : v = value
    · subst hv
      rw [beq_self_eq_true, hnew]
      simp [eq_comm]
    · rw [beq_false_of_ne hv]
      simp [hv]
  · rw [List.map_append, List.map_append, h.data, List.map_singleton, List.map_singleton, hdata]

theorem Pool.Holds.str {p p' : Pool} {keys : List (List UInt8)} (h : p.Holds keys) {value : List UInt8}
    {n : Nat} (hstr : str p value = some (p', n)) :
    ∃ new, p'.Holds (keys ++ new) ∧ (keys ++ new)[n]? = some value ∧ ∀ k ∈ new, k = value := by
  unfold StringPool.str at hstr
  cases hlookup : p.strings.lookup value with
  | some m =>
    rw [hlookup] at hstr
    obtain ⟨rfl, rfl⟩ := Prod.mk.inj (Option.some.inj hstr)
    refine ⟨[], ?_, ?_, List.forall_mem_nil _⟩
    · rwa [List.append_nil]
    · rw [List.append_nil]
      exact (h.lookup value m).1 hlookup
  | none =>
    rw [hlookup] at hstr
    obtain ⟨data, hdata, heq⟩ := Option.map_eq_some_iff.1 hstr
    obtain ⟨rfl, rfl⟩ := Prod.mk.inj heq
    refine ⟨[value], h.push hlookup hdata, ?_, fun k hk => List.mem_singleton.1 hk⟩
    exact getElem?_concat_eq_some_iff.2 (Or.inr ⟨h.length, rfl⟩)

/-- A sequence of calls keeps the entries, and returns those of its strings. -/
theorem Pool.Holds.strs {p p' : Pool} {keys : List (List UInt8)} (h : p.Holds keys)
    {values : List (List UInt8)} {ids : List Nat} (hstrs : strs p values = some (p', ids)) :
    ∃ new, p'.Holds (keys ++ new) ∧ ids.map ((keys ++ new)[·]?) = values.map some ∧
      ∀ k ∈ new, k ∈ values := by
  induction values generalizing p keys ids with
  | nil =>
    obtain ⟨rfl, rfl⟩ := Prod.mk.inj (Option.some.inj hstrs)
    exact ⟨[], by rwa [List.append_nil], rfl, List.forall_mem_nil _⟩
  | cons value values ih =>
    rw [StringPool.strs] at hstrs
    cases hstr : StringPool.str p value with
    | none =>
      rw [hstr] at hstrs
      exact absurd hstrs (by simp)
    | some r =>
      obtain ⟨mid, n⟩ := r
      rw [hstr] at hstrs
      obtain ⟨⟨_, ids'⟩, hrest, heq⟩ := Option.map_eq_some_iff.1 hstrs
      obtain ⟨rfl, rfl⟩ := Prod.mk.inj heq
      obtain ⟨new, hmid, hn, hnew⟩ := h.str hstr
      obtain ⟨new', hp', hids, hnew'⟩ := ih hmid hrest
      rw [List.append_assoc] at hp' hids
      refine ⟨new ++ new', hp', ?_, fun k hk => ?_⟩
      · rw [List.map_cons, List.map_cons, hids, ← List.append_assoc, List.getElem?_append_left, hn]
        exact (List.getElem?_eq_some_iff.1 hn).1
      · rcases List.mem_append.1 hk with hk | hk
        · rw [hnew k hk]
          exact List.mem_cons_self
        · exact List.mem_cons_of_mem _ (hnew' k hk)

theorem exists_strs {values : List (List UInt8)} (hshort : ∀ s ∈ values, Short s) (p : Pool) :
    ∃ p' ids, strs p values = some (p', ids) := by
  induction values generalizing p with
  | nil => exact ⟨p, [], rfl⟩
  | cons value values ih =>
    obtain ⟨hvalue, hvalues⟩ := List.forall_mem_cons.1 hshort
    obtain ⟨data, hdata⟩ := short_iff.1 hvalue
    obtain ⟨mid, n, hstr⟩ : ∃ mid n, str p value = some (mid, n) := by
      unfold str
      cases hlookup : p.strings.lookup value with
      | some m => exact ⟨p, m, rfl⟩
      | none => exact ⟨_, _, by rw [hdata]; rfl⟩
    obtain ⟨p', ids, hrest⟩ := ih hvalues mid
    exact ⟨p', n :: ids, by rw [strs, hstr]; dsimp only; rw [hrest]; rfl⟩

/-! ## Distinct entries -/

/-- What the pool should be after the calls: no two entries have the same data, and equal strings got the
    same entry. -/
structure Interned (values : List (List UInt8)) (p : Pool) (ids : List Nat) : Prop where
  run : strs .empty values = some (p, ids)
  distinct : p.entries.Nodup
  equal : ∀ i j : Nat, values[i]? = values[j]? → ids[i]? = ids[j]?

theorem holds_of_strs {values : List (List UInt8)} {p : Pool} {ids : List Nat}
    (h : strs .empty values = some (p, ids)) :
    ∃ keys, p.Holds keys ∧ ids.map (keys[·]?) = values.map some ∧ ∀ k, k ∈ keys ↔ k ∈ values := by
  obtain ⟨keys, hkeys, hids, hsub⟩ := Pool.holds_empty.strs h
  rw [List.nil_append] at hkeys hids
  refine ⟨keys, hkeys, hids, fun k => ⟨hsub k, fun hk => ?_⟩⟩
  have hmem : some k ∈ ids.map (keys[·]?) := by
    rw [hids]
    exact List.mem_map_of_mem hk
  obtain ⟨n, -, hn⟩ := List.mem_map.1 hmem
  exact List.mem_of_getElem? hn

theorem Pool.Holds.entries_nodup_iff {p : Pool} {keys : List (List UInt8)} (h : p.Holds keys) :
    p.entries.Nodup ↔ ∀ s ∈ keys, ∀ t ∈ keys, stringData s = stringData t → s = t := by
  have hmap : p.entries.Nodup ↔ (keys.map stringData).Nodup := by
    rw [← h.data, List.nodup_map_iff (Option.some_injective _)]
  rw [hmap]
  exact ⟨fun hnodup s hs t ht => List.inj_on_of_nodup_map hnodup hs ht, fun hinj => h.nodup.map_on hinj⟩

theorem Pool.Holds.exists_data {p : Pool} {keys : List (List UInt8)} (h : p.Holds keys) {s : List UInt8}
    (hs : s ∈ keys) : ∃ data, stringData s = some data := by
  have hmem : stringData s ∈ p.entries.map some := by
    rw [h.data]
    exact List.mem_map_of_mem hs
  obtain ⟨data, -, hdata⟩ := List.mem_map.1 hmem
  exact ⟨data, hdata.symm⟩

theorem Pool.Holds.ids_congr {p : Pool} {keys values : List (List UInt8)} (h : p.Holds keys)
    {ids : List Nat} (hids : ids.map (keys[·]?) = values.map some) {i j : Nat}
    (heq : values[i]? = values[j]?) : ids[i]? = ids[j]? := by
  have hget : ∀ k : Nat, ids[k]?.map (keys[·]?) = values[k]?.map some := by
    intro k
    rw [← List.getElem?_map, hids, List.getElem?_map]
  have hi := hget i
  have hj := hget j
  cases hvalue : values[i]? with
  | none =>
    rw [← heq, hvalue, Option.map_none, Option.map_eq_none_iff] at hj
    rw [hvalue, Option.map_none, Option.map_eq_none_iff] at hi
    rw [hi, hj]
  | some v =>
    rw [← heq, hvalue] at hj
    rw [hvalue] at hi
    obtain ⟨n, hn, hkn⟩ := Option.map_eq_some_iff.1 hi
    obtain ⟨m, hm, hkm⟩ := Option.map_eq_some_iff.1 hj
    rw [hn, hm]
    have hlt := (List.getElem?_eq_some_iff.1 hkn).1
    rw [(List.getElem?_inj hlt h.nodup).1 (hkn.trans hkm.symm)]

/-- For every sequence of calls: the pool has distinct entries in the end iff the numbers of units fit, and no
    two different strings have the same text. -/
theorem interned_iff (values : List (List UInt8)) :
    (∃ p ids, Interned values p ids) ↔
      (∀ s ∈ values, Short s) ∧ ∀ s ∈ values, ∀ t ∈ values, SameText s t → s = t := by
  constructor
  · rintro ⟨p, ids, h⟩
    obtain ⟨keys, hkeys, -, hmem⟩ := holds_of_strs h.run
    have hdistinct := hkeys.entries_nodup_iff.1 h.distinct
    refine ⟨fun s hs => short_iff.2 (hkeys.exists_data ((hmem s).2 hs)), fun s hs t ht hsame => ?_⟩
    exact hdistinct s ((hmem s).2 hs) t ((hmem t).2 ht) (stringData_congr (sameText_iff.1 hsame))
  · rintro ⟨hshort, hsame⟩
    obtain ⟨p, ids, hrun⟩ := exists_strs hshort .empty
    obtain ⟨keys, hkeys, hids, hmem⟩ := holds_of_strs hrun
    refine ⟨p, ids, hrun, hkeys.entries_nodup_iff.2 fun s hs t ht hdata => ?_, fun i j heq =>
      hkeys.ids_congr hids heq⟩
    obtain ⟨data, hs'⟩ := hkeys.exists_data hs
    exact hsame s ((hmem s).1 hs) t ((hmem t).1 ht)
      (sameText_iff.2 (strUnits_inj hs' (hdata ▸ hs')))

/-- `A` in one byte, and in two. -/
theorem not_interned_of_overlong : ¬ ∃ p ids, Interned [[0x41], [0xC1, 0x81]] p ids := by
  rintro ⟨p, ids, h⟩
  have hrun : strs .empty [[0x41], [0xC1, 0x81]] =
      some (⟨[([0xC1, 0x81], 1), ([0x41], 0)], [[1, 0x41, 0], [1, 0x41, 0]]⟩, [0, 1]) := by
    decide +kernel
  obtain ⟨rfl, -⟩ := Prod.mk.inj (Option.some.inj (hrun.symm.trans h.run))
  exact absurd h.distinct (by decide)

end ArtPi.Dex.StringPool
