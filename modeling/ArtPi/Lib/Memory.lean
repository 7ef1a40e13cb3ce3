import ArtPi.Lib.Bytes

set_option autoImplicit false

/-! # Byte memory

A memory gives every address a byte. Code that patches memory saves the bytes it is about to
overwrite and writes them back later: `write_restore` says that this undoes the patch. `load` and
`store` are the little-endian accesses of a given width. -/

namespace ArtPi.Lib

abbrev Memory := Nat → UInt8

/-- A pointer that is not null. -/
abbrev Ptr := {a : Nat // 0 < a}

/-- A string without a zero in it. -/
abbrev CStr := {s : List UInt8 // 0 ∉ s}

namespace Memory

/-- The `n` bytes from `a` on. -/
def read (m : Memory) (a n : Nat) : List UInt8 := (List.range n).map (fun i => m (a + i))

/-- The memory with `bs` from `a` on. -/
def write (m : Memory) (a : Nat) (bs : List UInt8) : Memory :=
  fun x => if a ≤ x then bs.getD (x - a) (m x) else m x

@[simp] theorem length_read (m : Memory) (a n : Nat) : (m.read a n).length = n := by
  unfold read
  rw [List.length_map, List.length_range]

theorem read_write (m : Memory) (a : Nat) (bs : List UInt8) :
    (m.write a bs).read a bs.length = bs := by
  apply List.ext_getElem (length_read _ _ _)
  intro i _ hi
  simp [read, write, hi]

/-- The byte that a write puts at an address, if it reaches it. -/
def put (a : Nat) (bs : List UInt8) (x : Nat) : Option UInt8 :=
  if a ≤ x then bs[x - a]? else none

theorem write_apply (m : Memory) (a : Nat) (bs : List UInt8) (x : Nat) :
    m.write a bs x = (put a bs x).getD (m x) := by
  unfold write put
  split
  · rw [List.getD_eq_getElem?_getD]
  · rfl

/-- A write of bytes that were read puts the old byte wherever one of the same length puts any. -/
theorem put_read (m : Memory) (a : Nat) (bs : List UInt8) (x : Nat) :
    put a (m.read a bs.length) x = (put a bs x).map (fun _ => m x) := by
  unfold put
  by_cases hx : a ≤ x
  · rw [if_pos hx, if_pos hx]
    by_cases hlt : x - a < bs.length
    · have hax : a + (x - a) = x := by omega
      simp [read, hlt, hax]
    · have hlen : bs.length ≤ x - a := by omega
      simp [read, hlen]
  · rw [if_neg hx, if_neg hx, Option.map_none]

theorem write_restore (m : Memory) (a : Nat) (bs : List UInt8) :
    (m.write a bs).write a (m.read a bs.length) = m := by
  funext x
  rw [write_apply, put_read, write_apply]
  cases put a bs x <;> rfl

theorem read_write_of_disjoint (m : Memory) {a b n : Nat} {bs : List UInt8}
    (h : a + bs.length ≤ b ∨ b + n ≤ a) : (m.write a bs).read b n = m.read b n := by
  apply List.map_congr_left
  intro i hi
  have hlt := List.mem_range.1 hi
  unfold write
  by_cases hx : a ≤ b + i
  · have hlen : bs.length ≤ b + i - a := by omega
    rw [if_pos hx, List.getD_eq_default _ _ hlen]
  · rw [if_neg hx]

theorem read_add (m : Memory) (a i j : Nat) : m.read a (i + j) = m.read a i ++ m.read (a + i) j := by
  unfold read
  rw [List.range_add, List.map_append, List.map_map]
  refine congrArg _ (List.map_congr_left fun k _ => ?_)
  rw [Function.comp_apply, Nat.add_assoc]

theorem write_append (m : Memory) (a : Nat) (bs cs : List UInt8) :
    (m.write a bs).write (a + bs.length) cs = m.write a (bs ++ cs) := by
  funext x
  unfold write
  by_cases hx : a ≤ x
  · rw [if_pos hx]
    by_cases hlt : x - a < bs.length
    · rw [if_neg (by omega), if_pos hx, List.getD_append _ _ _ _ hlt]
    · have hsub : x - (a + bs.length) = x - a - bs.length := by omega
      have hbehind : bs.getD (x - a) (m x) = m x := List.getD_eq_default _ _ (Nat.le_of_not_lt hlt)
      rw [if_pos (by omega), if_pos hx, List.getD_append_right _ _ _ _ (by omega), hsub, hbehind]
  · rw [if_neg (by omega), if_neg hx, if_neg hx]

theorem read_write_append (m : Memory) (a : Nat) (bs cs : List UInt8) :
    (m.write a (bs ++ cs)).read a bs.length = bs := by
  rw [← write_append, read_write_of_disjoint _ (.inr (Nat.le_refl _)), read_write]

/-- Writing the chunks of a buffer one behind the other writes the buffer. -/
theorem write_chunks (m : Memory) (a k n : Nat) {buf : List UInt8} (hn : k * n ≤ buf.length) :
    (List.range n).foldl (fun m i => m.write (a + k * i) ((buf.drop (k * i)).take k)) m =
      m.write a (buf.take (k * n)) := by
  induction n with
  | zero =>
    funext x
    simp [write]
  | succ n ih =>
    have hmul : k * (n + 1) = k * n + k := Nat.mul_succ k n
    have hlen : (buf.take (k * n)).length = k * n := List.length_take_of_le (by omega)
    have happend := write_append m a (buf.take (k * n)) ((buf.drop (k * n)).take k)
    rw [hlen] at happend
    rw [List.range_succ, List.foldl_append, ih (by omega), hmul, List.take_add, ← happend]
    rfl

/-! ## Terminated strings -/

/-- The string and a zero are in memory. -/
def Holds (m : Memory) (a : Nat) (s : List UInt8) : Prop := m.read a (s.length + 1) = s ++ [0]

theorem holds_iff_drop {m : Memory} {a k : Nat} {s : List UInt8} (hk : k ≤ s.length) :
    m.Holds a s ↔ m.read a k = s.take k ∧ m.Holds (a + k) (s.drop k) := by
  have hlen : s.length + 1 = k + (s.length - k + 1) := by omega
  have hsplit : s ++ [0] = s.take k ++ (s.drop k ++ [0]) := by
    rw [← List.append_assoc, List.take_append_drop]
  have htake : (s.take k).length = (m.read a k).length := by
    rw [length_read, List.length_take_of_le hk]
  unfold Holds
  rw [hlen, read_add, hsplit, List.length_drop]
  constructor
  · intro h
    obtain ⟨hread, hrest⟩ := List.append_inj h htake.symm
    exact ⟨hread, hrest⟩
  · rintro ⟨hread, hrest⟩
    rw [hread, hrest]

theorem holds_nil {m : Memory} {a : Nat} : m.Holds a [] ↔ m a = 0 := by simp [Holds, read]

theorem holds_cons {m : Memory} {a : Nat} {b : UInt8} {s : List UInt8} :
    m.Holds a (b :: s) ↔ m a = b ∧ m.Holds (a + 1) s := by
  rw [holds_iff_drop (k := 1) (by simp)]
  simp [read]

theorem Holds.unique {m : Memory} {a : Nat} {s t : List UInt8} (hs : m.Holds a s) (ht : m.Holds a t)
    (hs0 : 0 ∉ s) (ht0 : 0 ∉ t) : s = t := by
  induction s generalizing a t with
  | nil =>
    cases t with
    | nil => rfl
    | cons c t =>
      rw [holds_nil] at hs
      rw [holds_cons, hs] at ht
      exact absurd (ht.1 ▸ List.mem_cons_self) ht0
  | cons b s ih =>
    rw [holds_cons] at hs
    cases t with
    | nil =>
      rw [holds_nil, hs.1] at ht
      exact absurd (ht ▸ List.mem_cons_self) hs0
    | cons c t =>
      rw [holds_cons] at ht
      have hrest := ih hs.2 ht.2 (fun h => hs0 (List.mem_cons_of_mem b h))
        (fun h => ht0 (List.mem_cons_of_mem c h))
      rw [← hs.1, ← ht.1, hrest]

theorem holds_write_of_disjoint (m : Memory) {a b : Nat} {bs s : List UInt8}
    (h : b + bs.length ≤ a ∨ a + (s.length + 1) ≤ b) : (m.write b bs).Holds a s ↔ m.Holds a s := by
  unfold Holds
  rw [read_write_of_disjoint m h]

/-! ## Little-endian accesses -/

/-- The number in the `n` bytes from `a` on. -/
def load (m : Memory) (a n : Nat) : Nat := Bytes.leNat (m.read a n)

/-- The memory with a number, cut to `n` bytes, from `a` on. -/
def store (m : Memory) (a n v : Nat) : Memory :=
  m.write a ((List.range n).map (fun i => UInt8.ofNat (v >>> (8 * i) &&& 0xff)))

theorem load_lt (m : Memory) (a n : Nat) : m.load a n < 256 ^ n := by
  have h := Bytes.leNat_lt (m.read a n)
  rw [length_read] at h
  exact h

theorem load_store (m : Memory) (a n v : Nat) : (m.store a n v).load a n = v % 256 ^ n := by
  have hread := m.read_write a ((List.range n).map (fun i => UInt8.ofNat (v >>> (8 * i) &&& 0xff)))
  rw [List.length_map, List.length_range] at hread
  unfold load store
  rw [hread, Bytes.leNat_map_shr]

theorem load_store_of_disjoint (m : Memory) {a b n k : Nat} (v : Nat)
    (h : a + n ≤ b ∨ b + k ≤ a) : (m.store a n v).load b k = m.load b k := by
  unfold load store
  rw [read_write_of_disjoint m (by rwa [List.length_map, List.length_range])]

end Memory

end ArtPi.Lib
