import ArtPi.Lib.Framing

set_option autoImplicit false

/-! # Items behind their lengths

A header of fixed width has the length of the item behind it. The framer that reads such items gives a stream up at a
length from a limit on; what it cuts off is what a stream of encoded items begins with. -/

namespace ArtPi.Lib.Prefixed

open Framing

/-- Headers of one width, which spell the lengths below a bound. -/
structure Header (α : Type) where
  width : Nat
  bound : Nat
  len : List α → Nat
  write : Nat → List α
  len_lt : ∀ {s}, s.length = width → len s < bound
  length_write : ∀ n, (write n).length = width
  len_write : ∀ {n}, n < bound → len (write n) = n
  write_len : ∀ {s}, s.length = width → write (len s) = s
  width_pos : 0 < width

namespace Header

variable {α : Type} (H : Header α)

/-- The length at the front of a buffer. -/
def size (s : List α) : Nat := H.len (s.take H.width)

def encode (item : List α) : List α := H.write item.length ++ item

/-- The item at the front of a buffer. -/
def next (limit : Nat) (s : List α) : Next α (List α) :=
  if s.length < H.width then .more
  else if limit ≤ H.size s then .stop
  else if s.length < H.width + H.size s then .more
  else .item ((s.drop H.width).take (H.size s)) (s.drop (H.width + H.size s))

variable {H}

theorem size_append {s : List α} (h : H.width ≤ s.length) (t : List α) : H.size (s ++ t) = H.size s := by
  rw [size, size, List.take_append_of_le_length h]

theorem size_lt {s : List α} (h : H.width ≤ s.length) : H.size s < H.bound :=
  H.len_lt (by rw [List.length_take, Nat.min_eq_left h])

theorem next_item {limit : Nat} {s b rest : List α} (h : H.next limit s = .item b rest) :
    H.width + H.size s ≤ s.length ∧ H.size s < limit ∧ b = (s.drop H.width).take (H.size s) ∧
      rest = s.drop (H.width + H.size s) := by
  unfold next at h
  split_ifs at h with hheader hlimit hbody
  obtain ⟨rfl, rfl⟩ := Next.item.inj h
  exact ⟨Nat.not_lt.1 hbody, Nat.not_le.1 hlimit, rfl, rfl⟩

theorem next_stop {limit : Nat} {s : List α} :
    H.next limit s = .stop ↔ H.width ≤ s.length ∧ limit ≤ H.size s := by
  unfold next
  split_ifs with hheader hlimit hbody <;> simp <;> omega

theorem next_more {limit : Nat} {s : List α} (h : H.next limit s = .more) (hheader : H.width ≤ s.length) :
    H.size s < limit ∧ s.length < H.width + H.size s := by
  unfold next at h
  rw [if_neg (Nat.not_lt.2 hheader)] at h
  split_ifs at h with hlimit hbody
  exact ⟨Nat.not_le.1 hlimit, hbody⟩

variable (H)

/-- The framer that gives up at a limit. -/
def framer (limit : Nat) : Framer α (List α) where
  next := H.next limit
  item_lt := by
    intro s b rest h
    obtain ⟨hlen, -, -, rfl⟩ := next_item h
    have hpos := H.width_pos
    rw [List.length_drop]
    omega
  item_append := by
    intro s b rest t h
    obtain ⟨hlen, hlimit, rfl, rfl⟩ := next_item h
    have hheader : H.width ≤ s.length := by omega
    unfold next
    rw [size_append hheader, List.length_append, if_neg (by omega), if_neg (by omega), if_neg (by omega),
      List.drop_append_of_le_length hheader, List.drop_append_of_le_length hlen,
      List.take_append_of_le_length (by rw [List.length_drop]; omega)]
  stop_append := by
    intro s t h
    obtain ⟨hheader, hlimit⟩ := next_stop.1 h
    refine next_stop.2 ⟨?_, ?_⟩
    · rw [List.length_append]
      omega
    · rwa [size_append hheader]

variable {H}

theorem encode_append {limit : Nat} {s b rest : List α} (h : H.next limit s = .item b rest) :
    s = H.encode b ++ rest ∧ b.length = H.size s := by
  obtain ⟨hlen, -, rfl, rfl⟩ := next_item h
  have hsize : ((s.drop H.width).take (H.size s)).length = H.size s := by
    rw [List.length_take, List.length_drop]
    omega
  have hwrite : H.write (H.size s) = s.take H.width := H.write_len (by rw [List.length_take]; omega)
  refine ⟨?_, hsize⟩
  rw [encode, hsize, hwrite, ← List.drop_drop, List.append_assoc, List.take_append_drop, List.take_append_drop]

theorem next_encode {limit : Nat} {b : List α} (hlimit : b.length < limit) (hbound : b.length < H.bound)
    (rest : List α) : H.next limit (H.encode b ++ rest) = .item b rest := by
  have hwidth : (H.write b.length).length = H.width := H.length_write _
  have hsize : H.size (H.encode b ++ rest) = b.length := by
    rw [size, encode, List.append_assoc, List.take_left' hwidth, H.len_write hbound]
  have hlen : (H.encode b ++ rest).length = H.width + b.length + rest.length := by
    rw [encode, List.length_append, List.length_append, hwidth]
  have htail : (H.encode b ++ rest).drop H.width = b ++ rest := by
    rw [encode, List.append_assoc, List.drop_left' hwidth]
  unfold next
  rw [hsize, hlen, if_neg (by omega), if_neg (by omega), if_neg (by omega), htail, List.take_left' rfl,
    ← List.drop_drop, htail, List.drop_left' rfl]

/-- A stream is what was cut off and what is left, which asks for more or is given up. -/
theorem drain_spec (limit : Nat) (s : List α) :
    ∃ tail, s = (drain (H.framer limit) s).1.flatMap H.encode ++ tail ∧
      (∀ b ∈ (drain (H.framer limit) s).1, b.length < limit ∧ b.length < H.bound) ∧
      (match (drain (H.framer limit) s).2 with
        | none => H.next limit tail = .stop
        | some left => tail = left ∧ H.next limit left = .more) := by
  induction hn : s.length using Nat.strongRecOn generalizing s with
  | ind n ih =>
    match h : (H.framer limit).next s with
    | .more =>
      refine ⟨s, ?_⟩
      rw [drain_more _ h]
      exact ⟨rfl, by simp, rfl, h⟩
    | .stop =>
      refine ⟨s, ?_⟩
      rw [drain_stop _ h]
      exact ⟨rfl, by simp, h⟩
    | .item b rest =>
      have hlt := (H.framer limit).item_lt h
      obtain ⟨tail, hcover, hall, hleft⟩ := ih rest.length (by omega) rest rfl
      obtain ⟨hencode, hlen⟩ := encode_append h
      obtain ⟨hheader, hlimit, -, -⟩ := next_item h
      refine ⟨tail, ?_, ?_, ?_⟩
      · rw [drain_item _ h, List.flatMap_cons, List.append_assoc, ← hcover]
        exact hencode
      · rw [drain_item _ h]
        refine List.forall_mem_cons.2 ⟨⟨by omega, ?_⟩, hall⟩
        rw [hlen]
        exact size_lt (by omega)
      · rw [drain_item _ h]
        exact hleft

theorem drain_encode {limit : Nat} {items : List (List α)}
    (hall : ∀ b ∈ items, b.length < limit ∧ b.length < H.bound) (rest : List α) :
    drain (H.framer limit) (items.flatMap H.encode ++ rest) =
      (items ++ (drain (H.framer limit) rest).1, (drain (H.framer limit) rest).2) := by
  induction items with
  | nil => rfl
  | cons b items ih =>
    obtain ⟨hb, hall⟩ := List.forall_mem_cons.1 hall
    have hnext : (H.framer limit).next (H.encode b ++ (items.flatMap H.encode ++ rest)) =
      .item b (items.flatMap H.encode ++ rest) := next_encode hb.1 hb.2 _
    rw [List.flatMap_cons, List.append_assoc, drain_item _ hnext, ih hall]
    rfl

/-- A higher limit only adds items, and none where the lower one was not reached. -/
theorem drain_of_le {limit limit' : Nat} (hle : limit ≤ limit') (s : List α) :
    (∃ more, (drain (H.framer limit') s).1 = (drain (H.framer limit) s).1 ++ more) ∧
      ((drain (H.framer limit) s).2 ≠ none → drain (H.framer limit') s = drain (H.framer limit) s) := by
  obtain ⟨tail, hcover, hall, hleft⟩ := @drain_spec α H limit s
  have hdrain := @drain_encode α H limit' (drain (H.framer limit) s).1
    (fun b hb => ⟨Nat.lt_of_lt_of_le (hall b hb).1 hle, (hall b hb).2⟩) tail
  rw [← hcover] at hdrain
  refine ⟨⟨_, congrArg Prod.fst hdrain⟩, fun hsome => ?_⟩
  obtain ⟨left, hsome⟩ := Option.ne_none_iff_exists'.1 hsome
  rw [hsome] at hleft
  obtain ⟨rfl, hmore⟩ := hleft
  have hmore' : (H.framer limit').next tail = .more := by
    change H.next limit' tail = .more
    unfold next at hmore ⊢
    split_ifs at hmore ⊢ with hheader hlimit' hlimit hbody <;> first | rfl | omega
  rw [hdrain, drain_more _ hmore', List.append_nil, ← hsome]

end Header

end ArtPi.Lib.Prefixed
