import Mathlib.Data.List.TakeDrop

set_option autoImplicit false

/-! # Folding over the blocks of a stream

`blocks n xs` are the full blocks of `n` that a list begins with and `rest n xs` is what is behind them. What comes in
parts is folded with a state and a buffer for the rest: `Absorbed` says what both are when a message has been taken,
`Absorbed.stay` is a part that does not fill the buffer and `Absorbed.fill` one that does. -/

namespace ArtPi.Lib.Blocks

variable {α σ : Type}

/-- The first `k` blocks. -/
def cut (n : Nat) : Nat → List α → List (List α)
  | 0, _ => []
  | k + 1, xs => xs.take n :: cut n k (xs.drop n)

def blocks (n : Nat) (xs : List α) : List (List α) := cut n (xs.length / n) xs

def rest (n : Nat) (xs : List α) : List α := xs.drop (n * (xs.length / n))

theorem cut_add (n a b : Nat) (xs : List α) : cut n (a + b) xs = cut n a xs ++ cut n b (xs.drop (n * a)) := by
  induction a generalizing xs with
  | zero => simp [cut]
  | succ a ih =>
    rw [Nat.succ_add, cut, cut, ih, List.drop_drop, List.cons_append, Nat.mul_succ, Nat.add_comm n]

theorem cut_append {n k : Nat} {xs : List α} (h : n * k ≤ xs.length) (ys : List α) :
    cut n k (xs ++ ys) = cut n k xs := by
  induction k generalizing xs with
  | zero => rfl
  | succ k ih =>
    rw [Nat.mul_succ] at h
    rw [cut, cut, List.take_append_of_le_length (by omega), List.drop_append_of_le_length (by omega),
      ih (by rw [List.length_drop]; omega)]

theorem length_rest (n : Nat) (xs : List α) : (rest n xs).length = xs.length % n := by
  rw [rest, List.length_drop, ← Nat.mod_eq_sub]

theorem length_append_div {n : Nat} (hn : 0 < n) (xs ys : List α) :
    (xs ++ ys).length / n = xs.length / n + (rest n xs ++ ys).length / n := by
  rw [List.length_append, List.length_append, length_rest]
  have hxs := Nat.div_add_mod xs.length n
  have hsum : xs.length + ys.length = (xs.length % n + ys.length) + n * (xs.length / n) := by omega
  rw [hsum, Nat.add_mul_div_left _ _ hn, Nat.add_comm]

theorem drop_append_rest (n : Nat) (xs ys : List α) :
    (xs ++ ys).drop (n * (xs.length / n)) = rest n xs ++ ys :=
  List.drop_append_of_le_length (Nat.mul_div_le _ n)

theorem blocks_append {n : Nat} (hn : 0 < n) (xs ys : List α) :
    blocks n (xs ++ ys) = blocks n xs ++ blocks n (rest n xs ++ ys) := by
  rw [blocks, length_append_div hn, cut_add, cut_append (Nat.mul_div_le _ n), drop_append_rest]
  rfl

theorem rest_append {n : Nat} (hn : 0 < n) (xs ys : List α) :
    rest n (xs ++ ys) = rest n (rest n xs ++ ys) := by
  rw [rest, length_append_div hn, Nat.mul_add, ← List.drop_drop, drop_append_rest]
  rfl

theorem blocks_of_lt {n : Nat} {xs : List α} (h : xs.length < n) : blocks n xs = [] := by
  rw [blocks, Nat.div_eq_of_lt h]
  rfl

theorem rest_of_lt {n : Nat} {xs : List α} (h : xs.length < n) : rest n xs = xs := by
  rw [rest, Nat.div_eq_of_lt h]
  rfl

theorem blocks_cons {n : Nat} (hn : 0 < n) {b : List α} (h : b.length = n) (xs : List α) :
    blocks n (b ++ xs) = b :: blocks n xs := by
  have hrest : rest n b = [] := by
    rw [rest, h, Nat.div_self hn, Nat.mul_one, ← h, List.drop_length]
  have hblock : blocks n b = [b] := by
    rw [blocks, h, Nat.div_self hn, cut, cut, ← h, List.take_length]
  rw [blocks_append hn, hrest, hblock, List.singleton_append, List.nil_append]

theorem rest_cons {n : Nat} (hn : 0 < n) {b : List α} (h : b.length = n) (xs : List α) :
    rest n (b ++ xs) = rest n xs := by
  have hrest : rest n b = [] := by
    rw [rest, h, Nat.div_self hn, Nat.mul_one, ← h, List.drop_length]
  rw [rest_append hn, hrest, List.nil_append]

/-! ## The loop over the full blocks -/

/-- `for (; i + n <= len; i += n) f(&data[i]);`, with the data that is left. A round takes `n`, so that there are never
more rounds than data. -/
def loop (f : σ → List α → σ) (n : Nat) : Nat → σ → List α → σ × List α
  | 0, s, xs => (s, xs)
  | fuel + 1, s, xs => if n ≤ xs.length then loop f n fuel (f s (xs.take n)) (xs.drop n) else (s, xs)

theorem loop_eq (f : σ → List α → σ) {n : Nat} (hn : 0 < n) {fuel : Nat} (s : σ) {xs : List α}
    (h : xs.length ≤ fuel) : loop f n fuel s xs = ((blocks n xs).foldl f s, rest n xs) := by
  induction fuel generalizing s xs with
  | zero =>
    obtain rfl := List.eq_nil_of_length_eq_zero (Nat.le_zero.1 h)
    rw [blocks_of_lt (by exact hn), rest_of_lt (by exact hn)]
    rfl
  | succ fuel ih =>
    rw [loop]
    split
    · rename_i hle
      have hblock : (xs.take n).length = n := List.length_take_of_le hle
      have hblocks := blocks_cons hn hblock (xs.drop n)
      have hrest := rest_cons hn hblock (xs.drop n)
      rw [List.take_append_drop] at hblocks hrest
      rw [ih _ (by rw [List.length_drop]; omega), hblocks, hrest, List.foldl_cons]
    · rename_i hlt
      rw [blocks_of_lt (Nat.lt_of_not_le hlt), rest_of_lt (Nat.lt_of_not_le hlt)]
      rfl

/-! ## The buffer -/

/-- An array of `n`. -/
abbrev Buffer (α : Type) (n : Nat) := {b : List α // b.length = n}

/-- `memcpy(&b[i], xs, size)`; the array ends where it ends. -/
def copyAt {n : Nat} (b : Buffer α n) (i : Nat) (xs : List α) : Buffer α n :=
  ⟨(b.1.take i ++ xs ++ b.1.drop (i + xs.length)).take n, by
    have := b.2
    simp only [List.length_take, List.length_append, List.length_drop]
    omega⟩

theorem copyAt_val {n : Nat} (b : Buffer α n) {i : Nat} {xs : List α} (h : i + xs.length ≤ n) :
    (copyAt b i xs).1 = b.1.take i ++ xs ++ b.1.drop (i + xs.length) := by
  refine List.take_of_length_le ?_
  have := b.2
  simp only [List.length_take, List.length_append, List.length_drop]
  omega

theorem take_copyAt {n : Nat} (b : Buffer α n) (i : Nat) (xs : List α) (h : i + xs.length ≤ n) :
    (copyAt b i xs).1.take (i + xs.length) = b.1.take i ++ xs := by
  have hlen : (b.1.take i ++ xs).length = i + xs.length := by
    rw [List.length_append, List.length_take_of_le (by rw [b.2]; omega)]
  rw [copyAt_val b h, ← hlen, List.take_left]

theorem copyAt_nil {n : Nat} (b : Buffer α n) {i : Nat} (h : i ≤ n) : copyAt b i [] = b := by
  apply Subtype.ext
  rw [copyAt_val b (by simpa using h), List.append_nil, List.length_nil, Nat.add_zero, List.take_append_drop]

/-! ## What has been taken -/

/-- The state is that of the full blocks of the message, and the rest is at the beginning of the buffer. -/
structure Absorbed {n : Nat} (f : σ → List α → σ) (init : σ) (msg : List α) (state : σ) (buffer : Buffer α n) :
    Prop where
  state_eq : state = (blocks n msg).foldl f init
  buffer_take : buffer.1.take (msg.length % n) = rest n msg

theorem absorbed_nil {n : Nat} (f : σ → List α → σ) (init : σ) (buffer : Buffer α n) :
    Absorbed f init [] init buffer where
  state_eq := by simp [blocks, cut]
  buffer_take := by simp [rest]

namespace Absorbed

variable {n : Nat} {f : σ → List α → σ} {init : σ} {msg : List α} {state : σ} {buffer : Buffer α n}

theorem stay (h : Absorbed f init msg state buffer) (data : List α) (hlt : msg.length % n + data.length < n) :
    Absorbed f init (msg ++ data) state (copyAt buffer (msg.length % n) data) := by
  have hn : 0 < n := by omega
  have hjoined : (rest n msg ++ data).length < n := by rwa [List.length_append, length_rest]
  have hlen : (msg ++ data).length % n = msg.length % n + data.length := by
    rw [List.length_append, ← Nat.mod_add_mod, Nat.mod_eq_of_lt hlt]
  constructor
  · rw [blocks_append hn, blocks_of_lt hjoined, List.append_nil]
    exact h.state_eq
  · rw [hlen, take_copyAt buffer _ _ (Nat.le_of_lt hlt), h.buffer_take, rest_append hn, rest_of_lt hjoined]

/-- A part that fills it: the full buffer is a block, then come the blocks of the data, and what is left of it goes to
the beginning of whatever the buffer has then. -/
theorem fill (h : Absorbed f init msg state buffer) (data : List α) (hn : 0 < n)
    (hle : n ≤ msg.length % n + data.length) (later : Buffer α n) :
    Absorbed f init (msg ++ data)
      ((blocks n (data.drop (n - msg.length % n))).foldl f
        (f state (copyAt buffer (msg.length % n) (data.take (n - msg.length % n))).1))
      (copyAt later 0 (rest n (data.drop (n - msg.length % n)))) := by
  have hmod := Nat.mod_lt msg.length hn
  have htake : (data.take (n - msg.length % n)).length = n - msg.length % n := List.length_take_of_le (by omega)
  have hfull : (copyAt buffer (msg.length % n) (data.take (n - msg.length % n))).1 =
      rest n msg ++ data.take (n - msg.length % n) := by
    have hcopy := take_copyAt buffer (msg.length % n) (data.take (n - msg.length % n)) (by omega)
    rw [h.buffer_take, htake, Nat.add_sub_cancel' (Nat.le_of_lt hmod)] at hcopy
    rw [← hcopy, List.take_of_length_le (Nat.le_of_eq (copyAt _ _ _).2)]
  have hblock : (rest n msg ++ data.take (n - msg.length % n)).length = n := by
    rw [List.length_append, length_rest, htake]
    omega
  have hsplit : rest n msg ++ data =
      (rest n msg ++ data.take (n - msg.length % n)) ++ data.drop (n - msg.length % n) := by
    rw [List.append_assoc, List.take_append_drop]
  have hblocks := blocks_cons hn hblock (data.drop (n - msg.length % n))
  have hrest := rest_cons hn hblock (data.drop (n - msg.length % n))
  rw [← hsplit] at hblocks hrest
  constructor
  · rw [blocks_append hn, hblocks, hfull, List.foldl_append, List.foldl_cons, ← h.state_eq]
  · have hlen : (rest n (data.drop (n - msg.length % n))).length = (msg ++ data).length % n := by
      rw [← hrest, ← rest_append hn, length_rest]
    have hcopy := take_copyAt later 0 (rest n (data.drop (n - msg.length % n)))
      (by rw [hlen, Nat.zero_add]; exact Nat.le_of_lt (Nat.mod_lt _ hn))
    rw [Nat.zero_add, hlen, List.take_zero, List.nil_append] at hcopy
    rw [hcopy, rest_append hn, hrest]

/-- Behind full blocks the data begins with a block of its own. -/
theorem aligned (h : Absorbed f init msg state buffer) (data : List α) (hn : 0 < n) (hmod : msg.length % n = 0) :
    Absorbed f init (msg ++ data) ((blocks n data).foldl f state) (copyAt buffer 0 (rest n data)) := by
  have hrest : rest n msg = [] := List.eq_nil_of_length_eq_zero ((length_rest n msg).trans hmod)
  constructor
  · rw [blocks_append hn, hrest, List.nil_append, List.foldl_append, ← h.state_eq]
  · have hlen : (msg ++ data).length % n = (rest n data).length := by
      rw [length_rest, List.length_append, Nat.add_mod, hmod, Nat.zero_add, Nat.mod_mod]
    have hcopy := take_copyAt buffer 0 (rest n data)
      (by rw [length_rest, Nat.zero_add]; exact Nat.le_of_lt (Nat.mod_lt _ hn))
    rw [Nat.zero_add, List.take_zero, List.nil_append] at hcopy
    rw [hlen, hcopy, rest_append hn, hrest, List.nil_append]

end Absorbed

end ArtPi.Lib.Blocks
