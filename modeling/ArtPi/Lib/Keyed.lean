import ArtPi.Lib.Segments
import Mathlib.Data.List.Infix

set_option autoImplicit false

/-! # Texts of keys and values

A text of lines, each a key, a sign and a value, in which a key with its sign is looked for as a piece of text. The
first occurrence stands at the line of the key, or within a value above it. -/

namespace ArtPi.Lib.Keyed

variable {α : Type}

/-! ## Separators and signs -/

/-- A piece that does not have the separator does not reach over it. -/
theorem prefix_append_sep {k x y : List α} {c : α} (hk : c ∉ k) : k <+: x ++ c :: y ↔ k <+: x := by
  constructor
  · intro h
    by_cases hle : k.length ≤ x.length
    · exact List.prefix_of_prefix_length_le h (List.prefix_append x _) hle
    · -- the separator would be in the piece
      obtain ⟨z, rfl⟩ := List.prefix_of_prefix_length_le (List.prefix_append x (c :: y)) h (by omega)
      have hz : z <+: c :: y := (List.prefix_append_right_inj x).mp h
      cases z with
      | nil => exact absurd (by rw [List.append_nil]) hle
      | cons b z =>
        obtain rfl : b = c := (List.cons_prefix_cons.mp hz).1
        exact absurd (List.mem_append_right x List.mem_cons_self) hk
  · intro h
    exact h.trans (List.prefix_append x _)

/-- A key and a sign stand at the start of a line exactly where it is the line of the key. -/
theorem key_prefix_iff {k w key v : List α} {e : α} (hk : e ∉ k) (hkey : e ∉ key) :
    k ++ e :: w <+: key ++ e :: v ↔ k = key ∧ w <+: v := by
  constructor
  · rintro ⟨s, hs⟩
    rw [List.append_assoc, List.cons_append] at hs
    obtain ⟨hkeys, hvalues⟩ := append_sep_inj hk hkey hs
    exact ⟨hkeys, s, hvalues⟩
  · rintro ⟨rfl, s, rfl⟩
    exact ⟨s, by rw [List.append_assoc, List.cons_append]⟩

/-! ## Lines -/

/-- The text of lines. -/
def render (e nl : α) : List (List α × List α) → List α
  | [] => []
  | l :: ls => l.1 ++ e :: (l.2 ++ nl :: render e nl ls)

/-- The size of the text. -/
def size : List (List α × List α) → Nat
  | [] => 0
  | l :: ls => l.1.length + l.2.length + 2 + size ls

/-- What is left of the values where only the start of the text is kept. -/
def keptValues : Nat → List (List α × List α) → List (List α)
  | _, [] => []
  | n, l :: ls => l.2.take (n - (l.1.length + 1)) :: keptValues (n - (l.1.length + l.2.length + 2)) ls

theorem mem_render {e nl : α} {ls : List (List α × List α)} {b : α} (h : b ∈ render e nl ls) :
    b = e ∨ b = nl ∨ ∃ l ∈ ls, b ∈ l.1 ∨ b ∈ l.2 := by
  induction ls with
  | nil => cases h
  | cons l ls ih =>
    unfold render at h
    rw [List.mem_append, List.mem_cons, List.mem_append, List.mem_cons] at h
    rcases h with h | h | h | h | h
    · exact .inr (.inr ⟨l, List.mem_cons_self, .inl h⟩)
    · exact .inl h
    · exact .inr (.inr ⟨l, List.mem_cons_self, .inr h⟩)
    · exact .inr (.inl h)
    · rcases ih h with h | h | ⟨l', hl', h⟩
      · exact .inl h
      · exact .inr (.inl h)
      · exact .inr (.inr ⟨l', List.mem_cons_of_mem l hl', h⟩)

theorem keptValues_append (n : Nat) (above ls : List (List α × List α)) :
    keptValues n (above ++ ls) = keptValues n above ++ keptValues (n - size above) ls := by
  induction above generalizing n with
  | nil => rfl
  | cons l above ih =>
    have hsub : n - (l.1.length + l.2.length + 2) - size above = n - (l.1.length + l.2.length + 2 + size above) := by
      omega
    rw [List.cons_append, keptValues, keptValues, ih, size, hsub]
    rfl

theorem keptValues_take (n i : Nat) (ls : List (List α × List α)) :
    keptValues n (ls.take i) = (keptValues n ls).take i := by
  induction ls generalizing n i with
  | nil => rw [List.take_nil, keptValues, List.take_nil]
  | cons l ls ih =>
    cases i with
    | zero => rfl
    | succ i => rw [List.take_succ_cons, keptValues, keptValues, ih, List.take_succ_cons]

variable [DecidableEq α]

/-! ## Occurrences -/

/-- What follows the first occurrence of a piece. -/
def after (k : List α) : List α → Option (List α)
  | [] => if k = [] then some [] else none
  | a :: t => if k.isPrefixOf (a :: t) then some ((a :: t).drop k.length) else after k t

theorem after_eq_none_of_length_lt {k t : List α} (h : t.length < k.length) : after k t = none := by
  induction t with
  | nil =>
    unfold after
    rw [if_neg]
    rintro rfl
    exact absurd h (Nat.lt_irrefl 0)
  | cons a t ih =>
    unfold after
    rw [if_neg, ih (Nat.lt_of_succ_lt h)]
    intro hbegins
    have hle := (List.isPrefixOf_iff_prefix.mp hbegins).length_le
    omega

theorem after_eq_none_of_notMem {k t : List α} {c : α} (hc : c ∈ k) (h : c ∉ t) : after k t = none := by
  induction t with
  | nil =>
    unfold after
    rw [if_neg (List.ne_nil_of_mem hc)]
  | cons a t ih =>
    unfold after
    rw [if_neg, ih (fun hmem => h (List.mem_cons_of_mem a hmem))]
    intro hbegins
    exact h ((List.isPrefixOf_iff_prefix.mp hbegins).subset hc)

theorem after_isSome_iff {k t : List α} : (after k t).isSome ↔ k <:+: t := by
  induction t with
  | nil =>
    unfold after
    rw [List.infix_nil]
    split_ifs with hk
    · exact ⟨fun _ => hk, fun _ => rfl⟩
    · exact ⟨fun h => absurd h Bool.false_ne_true, fun h => absurd h hk⟩
  | cons a t ih =>
    unfold after
    rw [List.infix_cons_iff, ← ih]
    split_ifs with hbegins
    · exact ⟨fun _ => .inl (List.isPrefixOf_iff_prefix.mp hbegins), fun _ => rfl⟩
    · constructor
      · exact .inr
      · rintro (h | h)
        · exact absurd (List.isPrefixOf_iff_prefix.mpr h) hbegins
        · exact h

/-! ## Occurrences in lines -/

/-- A piece is found in front of a separator that it does not have, or behind it. -/
theorem after_append_sep {k : List α} {c : α} (hk : c ∉ k) (hne : k ≠ []) (x y : List α) :
    after k (x ++ c :: y) =
      match after k x with
      | some r => some (r ++ c :: y)
      | none => after k y := by
  induction x with
  | nil =>
    have hnil : after k ([] : List α) = none := by
      unfold after
      rw [if_neg hne]
    have hnot : ¬ k.isPrefixOf (c :: y) = true := by
      intro h
      have hbegins : k <+: [] ++ c :: y := List.isPrefixOf_iff_prefix.mp h
      exact hne (List.prefix_nil.mp ((prefix_append_sep hk).mp hbegins))
    rw [hnil, List.nil_append, after, if_neg hnot]
  | cons a x ih =>
    have hiff : k.isPrefixOf (a :: (x ++ c :: y)) = true ↔ k.isPrefixOf (a :: x) = true := by
      rw [List.isPrefixOf_iff_prefix, List.isPrefixOf_iff_prefix, ← List.cons_append]
      exact prefix_append_sep hk
    rw [List.cons_append, after, after]
    by_cases hbegins : k.isPrefixOf (a :: x) = true
    · have hle := (List.isPrefixOf_iff_prefix.mp hbegins).length_le
      rw [if_pos (hiff.mpr hbegins), if_pos hbegins, ← List.cons_append, List.drop_append_of_le_length hle]
    · rw [if_neg (fun h => hbegins (hiff.mp h)), if_neg hbegins, ih]

/-- In a line, a key with its sign is found at the end of the key of the line, or within the value. -/
theorem after_key {k w key : List α} {e : α} (hk : e ∉ k) (hkey : e ∉ key) (v : List α) :
    after (k ++ e :: w) (key ++ e :: v) =
      if k <:+ key ∧ w <+: v then some (v.drop w.length) else after (k ++ e :: w) v := by
  induction key with
  | nil =>
    have hiff : (k ++ e :: w).isPrefixOf (e :: v) = true ↔ k <:+ [] ∧ w <+: v := by
      rw [List.isPrefixOf_iff_prefix, List.suffix_nil]
      exact key_prefix_iff hk List.not_mem_nil
    rw [List.nil_append, after]
    by_cases h : k <:+ [] ∧ w <+: v
    · rw [if_pos (hiff.mpr h), if_pos h, List.suffix_nil.mp h.1]
      rfl
    · rw [if_neg (fun hp => h (hiff.mp hp)), if_neg h]
  | cons a key ih =>
    have hkey' : e ∉ key := fun hmem => hkey (List.mem_cons_of_mem a hmem)
    have hiff : (k ++ e :: w).isPrefixOf (a :: (key ++ e :: v)) = true ↔ k = a :: key ∧ w <+: v := by
      rw [List.isPrefixOf_iff_prefix, ← List.cons_append]
      exact key_prefix_iff hk hkey
    rw [List.cons_append, after, ih hkey']
    by_cases hhere : k = a :: key ∧ w <+: v
    · obtain ⟨rfl, hw⟩ := hhere
      have hdrop : (a :: (key ++ e :: v)).drop ((a :: key) ++ e :: w).length = v.drop w.length := by
        have hlen : ((a :: key) ++ e :: w).length = ((a :: key) ++ [e]).length + w.length := by
          simp only [List.length_append, List.length_cons, List.length_nil]
          omega
        have hsplit : a :: (key ++ e :: v) = ((a :: key) ++ [e]) ++ v := by simp
        rw [hsplit, hlen, List.drop_length_add_append]
      rw [if_pos (hiff.mpr ⟨rfl, hw⟩), if_pos ⟨List.suffix_refl _, hw⟩, hdrop]
    · rw [if_neg (fun hp => hhere (hiff.mp hp))]
      by_cases hlater : k <:+ key ∧ w <+: v
      · rw [if_pos hlater, if_pos ⟨hlater.1.trans (List.suffix_cons a key), hlater.2⟩]
      · rw [if_neg hlater, if_neg]
        rintro ⟨hkeys, hw⟩
        rcases List.suffix_cons_iff.mp hkeys with hkeys | hkeys
        · exact hhere ⟨hkeys, hw⟩
        · exact hlater ⟨hkeys, hw⟩

/-! ## Values that are found -/

/-- What follows a key, its sign and the start of a value in the line where they are found first, where only the start
of the text is kept. -/
def lookup (e : α) (k w : List α) : Nat → List (List α × List α) → Option (List α)
  | _, [] => none
  | n, l :: ls =>
    if l.1.length < n ∧ k <:+ l.1 ∧ w <+: l.2.take (n - (l.1.length + 1)) then
      some ((l.2.take (n - (l.1.length + 1))).drop w.length)
    else
      (after (k ++ e :: w) (l.2.take (n - (l.1.length + 1)))).or
        (lookup e k w (n - (l.1.length + l.2.length + 2)) ls)

section

variable {e nl : α} {k w : List α}

theorem after_nil : after (k ++ e :: w) [] = none := by
  unfold after
  rw [if_neg (by simp)]

theorem lookup_zero (ls : List (List α × List α)) : lookup e k w 0 ls = none := by
  induction ls with
  | nil => rfl
  | cons l ls ih =>
    unfold lookup
    rw [if_neg (fun h => Nat.not_lt_zero _ h.1), Nat.zero_sub, Nat.zero_sub, List.take_zero, after_nil, ih]
    rfl

theorem takeWhile_append_sep {x y : List α} (hx : nl ∉ x) :
    (x ++ nl :: y).takeWhile (fun b => decide (b ≠ nl)) = x := by
  have hall : ∀ b ∈ x, decide (b ≠ nl) = true := by
    intro b hb
    rw [decide_eq_true_eq]
    rintro rfl
    exact hx hb
  rw [List.takeWhile_append_of_pos hall, List.takeWhile_cons_of_neg (by simp), List.append_nil]

theorem takeWhile_self {x : List α} (hx : nl ∉ x) : x.takeWhile (fun b => decide (b ≠ nl)) = x := by
  rw [List.takeWhile_eq_self_iff]
  intro b hb
  rw [decide_eq_true_eq]
  rintro rfl
  exact hx hb

theorem notMem_of_after {k t r : List α} (hnl : nl ∉ t) (h : after k t = some r) : nl ∉ r := by
  induction t with
  | nil =>
    unfold after at h
    rw [Option.ite_none_right_eq_some, Option.some.injEq] at h
    rw [← h.2]
    exact List.not_mem_nil
  | cons a t ih =>
    unfold after at h
    split at h
    · rw [← Option.some.inj h]
      exact fun hmem => hnl (List.mem_of_mem_drop hmem)
    · exact ih (fun hmem => hnl (List.mem_cons_of_mem a hmem)) h

theorem after_take_render (hk : e ∉ k) (hkl : nl ∉ k) (hwl : nl ∉ w) (hne : nl ≠ e)
    {ls : List (List α × List α)} (hls : ∀ l ∈ ls, e ∉ l.1 ∧ nl ∉ l.2) (n : Nat) :
    (after (k ++ e :: w) ((render e nl ls).take n)).map (fun r => r.takeWhile (fun b => decide (b ≠ nl))) =
      lookup e k w n ls := by
  have hpiece : nl ∉ k ++ e :: w := by simp [hkl, hwl, hne]
  have hpiece' : k ++ e :: w ≠ [] := by simp
  induction ls generalizing n with
  | nil =>
    unfold render lookup
    rw [List.take_nil, after_nil]
    rfl
  | cons l ls ih =>
    obtain ⟨⟨hl, hv⟩, hrest⟩ := List.forall_mem_cons.mp hls
    unfold render
    by_cases hn : l.1.length < n
    · -- the sign of the line is kept
      obtain ⟨m, rfl⟩ : ∃ m, n = l.1.length + 1 + m := ⟨n - (l.1.length + 1), by omega⟩
      have hcut : (l.1 ++ e :: (l.2 ++ nl :: render e nl ls)).take (l.1.length + 1 + m) =
          l.1 ++ e :: (l.2 ++ nl :: render e nl ls).take m := by
        rw [Nat.add_assoc, List.take_length_add_append, Nat.add_comm 1 m, List.take_succ_cons]
      rw [hcut, after_key hk hl, lookup]
      have hsub : l.1.length + 1 + m - (l.1.length + 1) = m := by omega
      have hnext : l.1.length + 1 + m - (l.1.length + l.2.length + 2) = m - (l.2.length + 1) := by omega
      rw [hsub, hnext]
      by_cases hm : m ≤ l.2.length
      · have hshort : (l.2 ++ nl :: render e nl ls).take m = l.2.take m := List.take_append_of_le_length hm
        have hnone : m - (l.2.length + 1) = 0 := by omega
        have hclean : nl ∉ l.2.take m := fun h => hv (List.mem_of_mem_take h)
        rw [hshort, hnone, lookup_zero, Option.or_none]
        by_cases hhere : k <:+ l.1 ∧ w <+: l.2.take m
        · rw [if_pos hhere, if_pos ⟨hn, hhere⟩, Option.map_some,
            takeWhile_self (fun h => hclean (List.mem_of_mem_drop h))]
        · rw [if_neg hhere, if_neg (fun h => hhere h.2)]
          cases hr : after (k ++ e :: w) (l.2.take m) with
          | none => rfl
          | some r => rw [Option.map_some, takeWhile_self (notMem_of_after hclean hr)]
      · obtain ⟨j, rfl⟩ : ∃ j, m = l.2.length + 1 + j := ⟨m - (l.2.length + 1), by omega⟩
        have hlong : (l.2 ++ nl :: render e nl ls).take (l.2.length + 1 + j) =
            l.2 ++ nl :: (render e nl ls).take j := by
          rw [Nat.add_assoc, List.take_length_add_append, Nat.add_comm 1 j, List.take_succ_cons]
        have hwhole : l.2.take (l.2.length + 1 + j) = l.2 := List.take_of_length_le (by omega)
        have hleft : l.2.length + 1 + j - (l.2.length + 1) = j := by omega
        have hiff : w <+: l.2 ++ nl :: (render e nl ls).take j ↔ w <+: l.2 := prefix_append_sep hwl
        rw [hlong, hwhole, hleft]
        by_cases hhere : k <:+ l.1 ∧ w <+: l.2
        · rw [if_pos ⟨hhere.1, hiff.mpr hhere.2⟩, if_pos ⟨hn, hhere⟩, Option.map_some,
            List.drop_append_of_le_length hhere.2.length_le,
            takeWhile_append_sep (fun h => hv (List.mem_of_mem_drop h))]
        · rw [if_neg (fun h => hhere ⟨h.1, hiff.mp h.2⟩), if_neg (fun h => hhere h.2),
            after_append_sep hpiece hpiece', ← ih hrest j]
          cases hr : after (k ++ e :: w) l.2 with
          | none => rfl
          | some r =>
            dsimp only
            rw [Option.map_some, takeWhile_append_sep (notMem_of_after hv hr)]
            rfl
    · -- nothing of the value is kept
      have hshort : (l.1 ++ e :: (l.2 ++ nl :: render e nl ls)).take n = l.1.take n :=
        List.take_append_of_le_length (Nat.le_of_not_lt hn)
      have hnone : after (k ++ e :: w) (l.1.take n) = none :=
        after_eq_none_of_notMem (List.mem_append_right k List.mem_cons_self)
          (fun h => hl (List.mem_of_mem_take h))
      have hzero : n - (l.1.length + 1) = 0 := by omega
      have hnext : n - (l.1.length + l.2.length + 2) = 0 := by omega
      rw [hshort, hnone, lookup, if_neg (fun h => hn h.1), hzero, hnext, List.take_zero, after_nil, lookup_zero]
      rfl

/-- Above the line of a key, it is found in what is left of the values only. -/
theorem lookup_append {above : List (List α × List α)} (habove : ∀ l ∈ above, ¬ k <:+ l.1) (n : Nat)
    (ls : List (List α × List α)) :
    lookup e k w n (above ++ ls) =
      ((keptValues n above).findSome? (after (k ++ e :: w))).or (lookup e k w (n - size above) ls) := by
  induction above generalizing n with
  | nil => rfl
  | cons l above ih =>
    obtain ⟨hl, hrest⟩ := List.forall_mem_cons.mp habove
    have hsub : n - (l.1.length + l.2.length + 2) - size above = n - (l.1.length + l.2.length + 2 + size above) := by
      omega
    rw [List.cons_append, lookup, if_neg (fun h => hl h.2.1), ih hrest, keptValues, size, hsub, List.findSome?_cons]
    cases after (k ++ e :: w) (l.2.take (n - (l.1.length + 1))) with
    | none => rfl
    | some r => rfl

theorem lookup_key (n : Nat) (v : List α) (ls : List (List α × List α)) :
    lookup e k [] n ((k, v) :: ls) = if k.length < n then some (v.take (n - (k.length + 1))) else none := by
  unfold lookup
  by_cases hn : k.length < n
  · rw [if_pos ⟨hn, List.suffix_refl k, List.nil_prefix⟩, if_pos hn]
    rfl
  · have hzero : n - (k.length + 1) = 0 := by omega
    have hnext : n - (k.length + v.length + 2) = 0 := by omega
    rw [if_neg (fun h => hn h.1), if_neg hn]
    dsimp only
    rw [hzero, hnext, List.take_zero, after_nil, lookup_zero]
    rfl

/-- A key with the start of its value is found at its own line, or in what is left of a value. -/
theorem lookup_isSome_iff {above below : List (List α × List α)} (habove : ∀ l ∈ above, ¬ k <:+ l.1)
    (hbelow : ∀ l ∈ below, ¬ k <:+ l.1) (n : Nat) (v : List α) :
    (lookup e k w n (above ++ (k, v) :: below)).isSome ↔
      (k.length < n - size above ∧ w <+: v.take (n - size above - (k.length + 1))) ∨
        ∃ u ∈ keptValues n (above ++ (k, v) :: below), k ++ e :: w <:+: u := by
  have hfound : ∀ us : List (List α), (us.findSome? (after (k ++ e :: w))).isSome ↔ ∃ u ∈ us, k ++ e :: w <:+: u := by
    intro us
    rw [List.findSome?_isSome_iff]
    simp only [after_isSome_iff]
  have hlow : ∀ m, lookup e k w m below = (keptValues m below).findSome? (after (k ++ e :: w)) := by
    intro m
    have happend := lookup_append (w := w) hbelow m (e := e) []
    rwa [List.append_nil, lookup, Option.or_none] at happend
  rw [lookup_append habove, Option.isSome_or, Bool.or_eq_true, hfound, keptValues_append, lookup, keptValues]
  by_cases hown : k.length < n - size above ∧ w <+: v.take (n - size above - (k.length + 1))
  · rw [if_pos ⟨hown.1, List.suffix_refl k, hown.2⟩]
    exact ⟨fun _ => .inl hown, fun _ => .inr rfl⟩
  · rw [if_neg (fun h => hown ⟨h.1, h.2.2⟩), Option.isSome_or, Bool.or_eq_true, hlow, hfound, after_isSome_iff]
    constructor
    · rintro (⟨u, hu, h⟩ | h | ⟨u, hu, h⟩)
      · exact .inr ⟨u, List.mem_append_left _ hu, h⟩
      · exact .inr ⟨_, List.mem_append_right _ List.mem_cons_self, h⟩
      · exact .inr ⟨u, List.mem_append_right _ (List.mem_cons_of_mem _ hu), h⟩
    · rintro (h | ⟨u, hu, h⟩)
      · exact absurd h hown
      · rcases List.mem_append.mp hu with hu | hu
        · exact .inl ⟨u, hu, h⟩
        · rcases List.mem_cons.mp hu with rfl | hu
          · exact .inr (.inl h)
          · exact .inr (.inr ⟨u, hu, h⟩)

end

end ArtPi.Lib.Keyed
