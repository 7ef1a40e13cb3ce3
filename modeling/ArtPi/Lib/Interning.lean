import Mathlib.Data.List.Nodup

set_option autoImplicit false

/-! # Interning

A table numbers its rows in the order in which they are made, and has a map from keys to numbers. A key that is in the
map gets the number it has, and another one a new row. What a row tells of its key may rest on other tables that grow as
well, so it is a relation that may become true of more and of nothing less. -/

namespace ArtPi.Interning

variable {κ ρ : Type}

structure Table (κ ρ : Type) where
  map : List (κ × Nat)
  rows : List ρ

namespace Table

def empty : Table κ ρ := ⟨[], []⟩

def push (t : Table κ ρ) (key : κ) (row : ρ) : Table κ ρ := ⟨(key, t.rows.length) :: t.map, t.rows ++ [row]⟩

variable [BEq κ]

/-- A key of the map has a row that tells it, and every row has a key. -/
structure Sound (t : Table κ ρ) (Tells : κ → ρ → Prop) : Prop where
  tells : ∀ key n, t.map.lookup key = some n → ∃ row, t.rows[n]? = some row ∧ Tells key row
  keyed : ∀ n < t.rows.length, ∃ key, t.map.lookup key = some n

variable {t : Table κ ρ} {Tells Tells' : κ → ρ → Prop} {key : κ} {row : ρ} {n : Nat}

theorem Sound.empty : (empty : Table κ ρ).Sound Tells where
  tells _ _ h := absurd h (by simp [Table.empty])
  keyed _ h := absurd h (by simp [Table.empty])

theorem Sound.mono (h : t.Sound Tells) (htells : ∀ key row, Tells key row → Tells' key row) : t.Sound Tells' where
  tells key n hn := (h.tells key n hn).imp fun row hrow => ⟨hrow.1, htells key row hrow.2⟩
  keyed := h.keyed

theorem Sound.exists_key (h : t.Sound Tells) (hn : t.rows[n]? = some row) : ∃ key, Tells key row := by
  obtain ⟨key, hkey⟩ := h.keyed n (List.getElem?_eq_some_iff.1 hn).1
  obtain ⟨row', hrow, htells⟩ := h.tells key n hkey
  obtain rfl := Option.some.inj (hn.symm.trans hrow)
  exact ⟨key, htells⟩

theorem Sound.push [LawfulBEq κ] (h : t.Sound Tells) (hnew : t.map.lookup key = none) (hrow : Tells key row) :
    (t.push key row).Sound Tells where
  tells key' n hn := by
    rw [Table.push, List.lookup_cons] at hn
    by_cases heq : key' = key
    · rw [heq, beq_self_eq_true] at hn
      obtain rfl := Option.some.inj hn
      exact ⟨row, by simp [Table.push], heq ▸ hrow⟩
    · rw [beq_false_of_ne heq] at hn
      obtain ⟨row', hrow', htells⟩ := h.tells key' n hn
      exact ⟨row', by rw [Table.push, List.getElem?_append_left (List.getElem?_eq_some_iff.1 hrow').1, hrow'], htells⟩
  keyed n hn := by
    rcases Nat.lt_succ_iff_lt_or_eq.1 (by simpa [Table.push] using hn) with hlt | rfl
    · obtain ⟨key', hkey'⟩ := h.keyed n hlt
      refine ⟨key', ?_⟩
      have hne : key' ≠ key := by
        rintro rfl
        exact absurd (hnew.symm.trans hkey') (by simp)
      rw [Table.push, List.lookup_cons, beq_false_of_ne hne]
      exact hkey'
    · exact ⟨key, by rw [Table.push, List.lookup_cons, beq_self_eq_true]⟩

theorem Sound.nodup {α : Type} (h : t.Sound Tells) (f : ρ → α)
    (hkey : ∀ key key' row row', Tells key row → Tells key' row' → f row = f row' → key = key') :
    (t.rows.map f).Nodup := by
  rw [List.nodup_iff_injective_get]
  intro i j hij
  obtain ⟨i, hi⟩ := i
  obtain ⟨j, hj⟩ := j
  rw [List.length_map] at hi hj
  rw [List.get_eq_getElem, List.get_eq_getElem, List.getElem_map, List.getElem_map] at hij
  obtain ⟨key, hki⟩ := h.keyed i hi
  obtain ⟨key', hkj⟩ := h.keyed j hj
  obtain ⟨row, hrow, htells⟩ := h.tells key i hki
  obtain ⟨row', hrow', htells'⟩ := h.tells key' j hkj
  obtain rfl : t.rows[i] = row := Option.some.inj ((List.getElem?_eq_getElem hi).symm.trans hrow)
  obtain rfl : t.rows[j] = row' := Option.some.inj ((List.getElem?_eq_getElem hj).symm.trans hrow')
  obtain rfl := hkey key key' _ _ htells htells' hij
  exact Fin.ext (Option.some.inj (hki.symm.trans hkj))

end Table

end ArtPi.Interning
