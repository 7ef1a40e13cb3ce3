import Mathlib.Data.List.Induction
import Mathlib.Data.List.Nodup

set_option autoImplicit false

/-! # The first element of each key

What is left of a list where an element whose key has been seen is dropped. -/

namespace ArtPi.Lib

variable {α κ : Type} [DecidableEq κ] (key : α → κ)

def addFirst (fs : List α) (x : α) : List α := if key x ∈ fs.map key then fs else fs ++ [x]

def firsts (xs : List α) : List α := xs.foldl (addFirst key) []

variable {key} {xs : List α}

theorem firsts_concat (xs : List α) (x : α) : firsts key (xs ++ [x]) = addFirst key (firsts key xs) x := by
  unfold firsts
  rw [List.foldl_append, List.foldl_cons, List.foldl_nil]

theorem mem_addFirst {fs : List α} {x y : α} (h : y ∈ addFirst key fs x) :
    y ∈ fs ∨ (y = x ∧ key x ∉ fs.map key) := by
  unfold addFirst at h
  split_ifs at h with hseen
  · exact .inl h
  · exact (List.mem_append.mp h).imp_right fun hy => ⟨List.mem_singleton.mp hy, hseen⟩

theorem firsts_nodup (key : α → κ) (xs : List α) : ((firsts key xs).map key).Nodup := by
  induction xs using List.reverseRecOn with
  | nil => exact List.nodup_nil
  | append_singleton xs x ih =>
    rw [firsts_concat]
    unfold addFirst
    split_ifs with hseen
    · exact ih
    · rw [List.map_append, List.map_singleton]
      exact ih.append (List.nodup_singleton _) (List.disjoint_singleton.mpr hseen)

theorem eq_of_mem_firsts {x y : α} (hx : x ∈ firsts key xs) (hy : y ∈ firsts key xs) (h : key x = key y) : x = y :=
  List.inj_on_of_nodup_map (firsts_nodup key xs) hx hy h

theorem exists_firsts (key : α → κ) {x : α} (h : x ∈ xs) : ∃ f ∈ firsts key xs, key f = key x := by
  induction xs using List.reverseRecOn with
  | nil => cases h
  | append_singleton xs y ih =>
    rw [firsts_concat]
    rcases List.mem_append.mp h with h | h
    · obtain ⟨f, hf, hkey⟩ := ih h
      refine ⟨f, ?_, hkey⟩
      unfold addFirst
      split_ifs
      · exact hf
      · exact List.mem_append_left _ hf
    · obtain rfl := List.mem_singleton.mp h
      unfold addFirst
      split_ifs with hseen
      · exact List.mem_map.mp hseen
      · exact ⟨x, by simp, rfl⟩

/-- It is that of an element with no other of the key in front of it. -/
theorem split_of_mem_firsts {f : α} (h : f ∈ firsts key xs) :
    ∃ front rest, xs = front ++ f :: rest ∧ ∀ e ∈ front, key e ≠ key f := by
  induction xs using List.reverseRecOn with
  | nil => cases h
  | append_singleton xs x ih =>
    rw [firsts_concat] at h
    rcases mem_addFirst h with h | ⟨rfl, hnew⟩
    · obtain ⟨front, rest, hsplit, hfront⟩ := ih h
      exact ⟨front, rest ++ [x], by rw [hsplit]; simp, hfront⟩
    · refine ⟨xs, [], rfl, fun e he heq => hnew ?_⟩
      obtain ⟨f', hf', hkey⟩ := exists_firsts key he
      exact List.mem_map.mpr ⟨f', hf', hkey.trans heq⟩

theorem mem_of_mem_firsts {f : α} (h : f ∈ firsts key xs) : f ∈ xs := by
  obtain ⟨front, rest, hsplit, -⟩ := split_of_mem_firsts h
  rw [hsplit]
  simp

end ArtPi.Lib
