import ArtPi.Mpack.RoundTrip

set_option autoImplicit false

/-! # The MessagePack reader on arbitrary bytes

`Stays n rd rd'` follows one reading method on a buffer and on the same buffer with more bytes behind
it: `rd` keeps the position inside the buffer and either rejects or answers, and what it answers,
`rd'` answers on the longer buffer, with the same position behind it. It composes along the `do`
blocks of the reader, so one recursion gives both that no read leaves the buffer and that a truncated
value is rejected: an answer to it would also be the answer to the whole value, which ends later. -/

namespace ArtPi.Mpack

open Bytes

/-- On every buffer with less than `n` bytes ahead. -/
def Stays {α : Type} (n : Nat) (rd rd' : Read α) : Prop :=
  ∀ (data s : List UInt8) (pos : Nat), pos ≤ data.length → data.length - pos < n →
    ∃ pos', pos ≤ pos' ∧ pos' ≤ data.length ∧
      (rd ⟨data, pos⟩ = (.error .reject, ⟨data, pos'⟩) ∨
        ∃ a, rd ⟨data, pos⟩ = (.ok a, ⟨data, pos'⟩) ∧
          rd' ⟨data ++ s, pos⟩ = (.ok a, ⟨data ++ s, pos'⟩))

theorem stays_pure {α : Type} (n : Nat) (a : α) : Stays n (pure a) (pure a) :=
  fun _ _ pos hpos _ => ⟨pos, Nat.le_refl _, hpos, Or.inr ⟨a, rfl, rfl⟩⟩

theorem stays_reject {α : Type} (n : Nat) : Stays n (fail .reject : Read α) (fail .reject) :=
  fun _ _ pos hpos _ => ⟨pos, Nat.le_refl _, hpos, Or.inl rfl⟩

theorem Stays.bind {α β : Type} {n : Nat} {rd rd' : Read α} {f f' : α → Read β}
    (hrd : Stays n rd rd') (hf : ∀ a, Stays n (f a) (f' a)) :
    Stays n (rd >>= f) (rd' >>= f') := by
  intro data s pos hpos hn
  obtain ⟨pos1, hle1, hpos1, hreject | ⟨a, hrd1, hrd1'⟩⟩ := hrd data s pos hpos hn
  · exact ⟨pos1, hle1, hpos1, Or.inl (by simp only [Bind.bind, hreject])⟩
  · -- fewer bytes are ahead than before
    obtain ⟨pos2, hle2, hpos2, hf2⟩ := hf a data s pos1 hpos1 (by omega)
    refine ⟨pos2, by omega, hpos2, ?_⟩
    simp only [Bind.bind, hrd1, hrd1']
    exact hf2

/-- The byte that a value starts with is behind the reader when it goes on. -/
theorem stays_read8_bind {α : Type} {n : Nat} {f f' : UInt8 → Read α}
    (hf : ∀ b, Stays n (f b) (f' b)) : Stays (n + 1) (read8 >>= f) (read8 >>= f') := by
  intro data s pos hpos hn
  rcases Nat.lt_or_ge pos data.length with hlt | hge
  · have hread : read8 ⟨data, pos⟩ = (.ok data[pos], ⟨data, pos + 1⟩) :=
      yields_read8 data[pos] ⟨data, pos⟩ (data.drop (pos + 1)) ⟨hpos, List.drop_eq_getElem_cons hlt⟩
    have hread' : read8 ⟨data ++ s, pos⟩ = (.ok data[pos], ⟨data ++ s, pos + 1⟩) := by
      refine yields_read8 data[pos] ⟨data ++ s, pos⟩ (data.drop (pos + 1) ++ s) ⟨?_, ?_⟩
      · simp only [Reader.size, List.length_append]
        omega
      · rw [List.drop_append_of_le_length hpos, List.drop_eq_getElem_cons hlt]
        rfl
    obtain ⟨pos', hle, hpos', hf'⟩ := hf data[pos] data s (pos + 1) hlt (by omega)
    refine ⟨pos', by omega, hpos', ?_⟩
    simp only [Bind.bind, hread, hread']
    exact hf'
  · refine ⟨pos, Nat.le_refl _, hpos, Or.inl ?_⟩
    have hread : read8 ⟨data, pos⟩ = (.error .reject, ⟨data, pos⟩) := if_pos hge
    simp only [Bind.bind, hread]

/-- A method that checks for `k` bytes and answers in front of any `k` bytes. -/
theorem stays_of_yields {α : Type} {k : Nat} {rd : Read α} (n : Nat)
    (hyields : ∀ bs : List UInt8, bs.length = k → ∃ a, Yields rd bs a)
    (hrejects : ∀ r : Reader, r.pos + k > r.size → rd r = fail .reject r) : Stays n rd rd := by
  intro data s pos hpos _
  rcases Nat.lt_or_ge data.length (pos + k) with hshort | hfits
  · exact ⟨pos, Nat.le_refl _, hpos, Or.inl (hrejects ⟨data, pos⟩ hshort)⟩
  · have hlen : ((data.drop pos).take k).length = k := by
      rw [List.length_take, List.length_drop]
      omega
    have hdrop : data.drop pos = (data.drop pos).take k ++ data.drop (pos + k) := by
      rw [← List.drop_drop, List.take_append_drop]
    obtain ⟨a, ha⟩ := hyields _ hlen
    refine ⟨pos + k, by omega, hfits, Or.inr ⟨a, ?_, ?_⟩⟩
    · have h := ha ⟨data, pos⟩ (data.drop (pos + k)) ⟨hpos, hdrop⟩
      rw [hlen] at h
      exact h
    · have hahead : Reader.Ahead ⟨data ++ s, pos⟩
          ((data.drop pos).take k ++ (data.drop (pos + k) ++ s)) := by
        refine ⟨?_, ?_⟩
        · simp only [Reader.size, List.length_append]
          omega
        · rw [← List.append_assoc, ← hdrop]
          exact List.drop_append_of_le_length hpos
      have h := ha ⟨data ++ s, pos⟩ _ hahead
      rw [hlen] at h
      exact h

/-! ## The reading methods -/

theorem stays_read8 (n : Nat) : Stays n read8 read8 := by
  refine stays_of_yields (k := 1) n (fun bs hbs => ?_) (fun r hr => if_pos (by omega))
  obtain ⟨b, rfl⟩ := List.length_eq_one_iff.1 hbs
  exact ⟨b, yields_read8 b⟩

theorem stays_read16 (n : Nat) : Stays n read16 read16 := by
  refine stays_of_yields n (fun bs hbs => ⟨UInt16.ofNat (beNat bs), ?_⟩) (fun r hr => if_pos hr)
  have hlt : beNat bs < 2 ^ 16 := by
    have h := beNat_lt bs
    rwa [hbs] at h
  have hspell : write16 (UInt16.ofNat (beNat bs)) = bs := by
    rw [write16_eq, UInt16.toNat_ofNat', Nat.mod_eq_of_lt hlt, ← hbs, beBytes_beNat]
  have h := yields_read16 (UInt16.ofNat (beNat bs))
  rwa [hspell] at h

theorem stays_read32 (n : Nat) : Stays n read32 read32 := by
  refine stays_of_yields n (fun bs hbs => ⟨UInt32.ofNat (beNat bs), ?_⟩) (fun r hr => if_pos hr)
  have hlt : beNat bs < 2 ^ 32 := by
    have h := beNat_lt bs
    rwa [hbs] at h
  have hspell : write32 (UInt32.ofNat (beNat bs)) = bs := by
    rw [write32_eq, UInt32.toNat_ofNat', Nat.mod_eq_of_lt hlt, ← hbs, beBytes_beNat]
  have h := yields_read32 (UInt32.ofNat (beNat bs))
  rwa [hspell] at h

theorem stays_read64 (n : Nat) : Stays n read64 read64 := by
  refine stays_of_yields n (fun bs hbs => ⟨UInt64.ofNat (beNat bs), ?_⟩) (fun r hr => if_pos hr)
  have hlt : beNat bs < 2 ^ 64 := by
    have h := beNat_lt bs
    rwa [hbs] at h
  have hspell : write64 (UInt64.ofNat (beNat bs)) = bs := by
    rw [write64_eq, UInt64.toNat_ofNat', Nat.mod_eq_of_lt hlt, ← hbs, beBytes_beNat]
  have h := yields_read64 (UInt64.ofNat (beNat bs))
  rwa [hspell] at h

theorem stays_readStringContent (n len : Nat) :
    Stays n (readStringContent len) (readStringContent len) := by
  refine stays_of_yields n (fun bs hbs => ⟨.str bs, ?_⟩) (fun r hr => if_pos hr)
  rw [← hbs]
  exact yields_readStringContent bs

theorem Stays.readItems {n : Nat} {rv rv' : Read Value} (h : Stays n rv rv') (count : Nat) :
    Stays n (readItems rv count) (readItems rv' count) := by
  induction count with
  | zero => exact stays_pure n []
  | succ count ih => exact h.bind (fun item => ih.bind (fun rest => stays_pure n (item :: rest)))

theorem Stays.readEntries {n : Nat} {rv rv' : Read Value} (h : Stays n rv rv') (count : Nat) :
    Stays n (readEntries rv count) (readEntries rv' count) := by
  induction count with
  | zero => exact stays_pure n []
  | succ count ih =>
    refine h.bind (fun key => ?_)
    cases key with
    | str k => exact h.bind (fun val => ih.bind (fun rest => stays_pure n ((k, val) :: rest)))
    | _ => exact stays_reject n

theorem Stays.readArray {n : Nat} {rv rv' : Read Value} (h : Stays n rv rv') (count : Nat) :
    Stays n (readArray rv count) (readArray rv' count) :=
  (h.readItems count).bind (fun arr => stays_pure n (Value.array arr))

theorem Stays.readMap {n : Nat} {rv rv' : Read Value} (h : Stays n rv rv') (count : Nat) :
    Stays n (readMap rv count) (readMap rv' count) :=
  (h.readEntries count).bind (fun m => stays_pure n (Value.map m))

/-- The switch: numbers and constants, then the tags with a length behind them. -/
theorem Stays.readTagged {n : Nat} {rv rv' : Read Value} (h : Stays n rv rv') (tag : UInt8) :
    Stays n (readTagged rv tag) (readTagged rv' tag) := by
  unfold Mpack.readTagged
  split_ifs
  · exact stays_pure n _
  · exact h.readMap _
  · exact h.readArray _
  · exact stays_readStringContent n _
  · exact stays_pure n _
  · split
    · exact stays_pure n _
    · exact stays_pure n _
    · exact stays_pure n _
    · exact (stays_read8 n).bind (fun v => stays_pure n _)
    · exact (stays_read16 n).bind (fun v => stays_pure n _)
    · exact (stays_read32 n).bind (fun v => stays_pure n _)
    · exact (stays_read64 n).bind (fun v => stays_pure n _)
    · exact (stays_read8 n).bind (fun v => stays_pure n _)
    · exact (stays_read16 n).bind (fun v => stays_pure n _)
    · exact (stays_read32 n).bind (fun v => stays_pure n _)
    · exact (stays_read64 n).bind (fun v => stays_pure n _)
    · exact (stays_read64 n).bind (fun u => stays_pure n _)
    · exact (stays_read8 n).bind (fun len => stays_readStringContent n _)
    · exact (stays_read16 n).bind (fun len => stays_readStringContent n _)
    · exact (stays_read32 n).bind (fun len => stays_readStringContent n _)
    · exact (stays_read16 n).bind (fun count => h.readArray _)
    · exact (stays_read32 n).bind (fun count => h.readArray _)
    · exact (stays_read16 n).bind (fun count => h.readMap _)
    · exact (stays_read32 n).bind (fun count => h.readMap _)
    · exact stays_reject n

/-- More fuel than there are bytes ahead is never used up, and still more changes no answer. -/
theorem stays_readValueN (n : Nat) : ∀ m, n ≤ m → Stays n (readValueN n) (readValueN m) := by
  induction n with
  | zero => exact fun _ _ _ _ _ _ hn => absurd hn (Nat.not_lt_zero _)
  | succ n ih =>
    intro m hm
    obtain ⟨m, rfl⟩ : ∃ k, m = k + 1 := ⟨m - 1, by omega⟩
    exact stays_read8_bind ((ih m (by omega)).readTagged)

/-! ## Self-delimiting and bounded -/

/-- The reader finds the end of a value by itself: behind it stands whatever follows, and a value of
    which something is missing is no value. -/
structure Delimits (v : Value) : Prop where
  decodes : ∀ rest, readValue ⟨writeValue v ++ rest, 0⟩
    = (.ok v.norm, ⟨writeValue v ++ rest, (writeValue v).length⟩)
  rejects : ∀ p, p <+: writeValue v → p ≠ writeValue v → (readValue ⟨p, 0⟩).1 = .error .reject

/-- No `data[i]` is outside the buffer, and the reader stays inside. -/
structure Contained (r : Reader) : Prop where
  inBounds : (readValue r).1 ≠ .error .outOfBounds
  /-- the recursion bound of the model is not reached -/
  notTooDeep : (readValue r).1 ≠ .error .tooDeep
  data_eq : (readValue r).2.data = r.data
  pos_le : (readValue r).2.pos ≤ r.size

theorem contained_of_pos_le (r : Reader) (hpos : r.pos ≤ r.size) : Contained r := by
  obtain ⟨pos', -, hpos', hreject | ⟨a, hread, -⟩⟩ :=
    stays_readValueN (r.size - r.pos + 1) _ (Nat.le_refl _) r.data [] r.pos hpos (Nat.lt_succ_self _)
  · have h : readValue r = (.error .reject, ⟨r.data, pos'⟩) := hreject
    have hanswer : (readValue r).1 = .error .reject := by rw [h]
    exact ⟨by simp [hanswer], by simp [hanswer], by rw [h], by rw [h]; exact hpos'⟩
  · have h : readValue r = (.ok a, ⟨r.data, pos'⟩) := hread
    have hanswer : (readValue r).1 = .ok a := by rw [h]
    exact ⟨by simp [hanswer], by simp [hanswer], by rw [h], by rw [h]; exact hpos'⟩

theorem delimits_of_lengthsFit (v : Value) (hfit : v.lengthsFit = true) (hbin : v.hasBin = false) :
    Delimits v := by
  constructor
  · intro rest
    have hahead : Reader.Ahead ⟨writeValue v ++ rest, 0⟩ (writeValue v ++ rest) :=
      ⟨Nat.zero_le _, rfl⟩
    have hfuel : (writeValue v).length ≤ (writeValue v ++ rest).length - 0 + 1 := by
      rw [List.length_append]
      omega
    have h := yields_writeValue v _ hfit hbin hfuel _ rest hahead
    rw [Reader.advance, Nat.zero_add] at h
    exact h
  · rintro p ⟨q, hq⟩ hne
    have hshort : p.length < (writeValue v).length := by
      rcases List.eq_nil_or_concat q with rfl | ⟨_, _, rfl⟩
      · exact absurd (by simpa using hq) hne
      · rw [← hq]
        simp only [List.length_append, List.concat_eq_append, List.length_singleton]
        omega
    obtain ⟨pos', -, hpos', hreject | ⟨a, -, hlong⟩⟩ :=
      stays_readValueN (p.length - 0 + 1) (writeValue v).length (by omega) p q 0 (Nat.zero_le _)
        (Nat.lt_succ_self _)
    · have h : readValue ⟨p, 0⟩ = (.error .reject, ⟨p, pos'⟩) := hreject
      rw [h]
    · -- the answer would be that to the whole value, but with the position in front of its end
      have hahead : Reader.Ahead ⟨p ++ q, 0⟩ (writeValue v ++ []) := by
        rw [hq, List.append_nil]
        exact ⟨Nat.zero_le _, rfl⟩
      have hwhole := yields_writeValue v _ hfit hbin (Nat.le_refl _) _ [] hahead
      have hend := congrArg (fun x => x.2.pos) (hlong.symm.trans hwhole)
      simp only [Reader.advance_pos, Nat.zero_add] at hend
      omega

/-- The reader on the bytes of any value without binaries, on their prefixes, and on any bytes at
    all. -/
theorem readValue_selfDelimiting :
    (∀ v : Value, v.lengthsFit = true → v.hasBin = false → Delimits v) ∧
      ∀ r : Reader, r.pos ≤ r.size → Contained r :=
  ⟨delimits_of_lengthsFit, contained_of_pos_le⟩

/-- A nested value, and an array that announces two elements and has one. -/
theorem delimits_map_of_scalars :
    Delimits (.map [([0x6b], .array [.nil, .uint 300, .double 2, .str [0x61, 0x62]])]) ∧
      Contained ⟨[0xdd, 0, 0, 0, 2, 0xc0], 0⟩ :=
  ⟨readValue_selfDelimiting.1 _ (by decide) (by decide),
    readValue_selfDelimiting.2 _ (Nat.zero_le _)⟩

/-- The length of a string of `2 ^ 32` bytes is written as `0`. -/
theorem readValue_writeValue_of_length_eq {s : List UInt8} (hlen : s.length = 2 ^ 32) :
    readValue ⟨writeValue (.str s), 0⟩ = (.ok (.str []), ⟨writeValue (.str s), 5⟩) := by
  have hheader : writeValue (.str s) = 0xdb :: write32 (UInt32.ofNat 0) ++ ([] ++ s) := by
    simp only [writeValue, writeString, writeStringHeader, hlen]
    rfl
  have hsteps : Steps (readValueN ((writeValue (.str s)).length + 1))
      (0xdb :: write32 (UInt32.ofNat 0)) (readStringContent 0) :=
    steps_len32 readStringContent rfl (by decide)
  refine hsteps.yields (yields_readStringContent []) ⟨writeValue (.str s), 0⟩ s
    ⟨Nat.zero_le _, ?_⟩
  rw [List.append_assoc]
  exact hheader

/-- A small unsigned number comes back as a signed one, and a string of `2 ^ 32` bytes as the empty
    one, with the position behind its header. -/
theorem readValue_ne_of_uint_or_long :
    (readValue ⟨writeValue (.uint 5), 0⟩ = (.ok (.int 5), ⟨[5], 1⟩) ∧ Value.int 5 ≠ .uint 5) ∧
    readValue ⟨writeValue (.str (List.replicate (2 ^ 32) 0)), 0⟩
        = (.ok (.str []), ⟨writeValue (.str (List.replicate (2 ^ 32) 0)), 5⟩) ∧
      (writeValue (.str (List.replicate (2 ^ 32) 0))).length = 2 ^ 32 + 5 := by
  have hlen : (List.replicate (2 ^ 32) (0 : UInt8)).length = 2 ^ 32 := List.length_replicate
  refine ⟨⟨rfl, fun h => Value.noConfusion h⟩, readValue_writeValue_of_length_eq hlen, ?_⟩
  simp only [writeValue, writeString, List.length_append, hlen, writeStringHeader]
  rfl

end ArtPi.Mpack
