import Mathlib.Data.List.Basic

set_option autoImplicit false

/-! # Strings in quotes

A mark opens and closes a string, and another one takes the meaning of the character behind it. What stands between
the quotes is a `Body`; a scan for the end of a string is not misled by what is in one. -/

namespace ArtPi.Lib.Quoted

structure Marks (α : Type) where
  quote : α
  escape : α
  ne : quote ≠ escape

variable {α : Type} (M : Marks α)

/-- A text in which every quote is escaped, and in which no escape is left open. -/
inductive Body : List α → Prop where
  | nil : Body []
  | plain {a : α} {s : List α} : a ≠ M.quote → a ≠ M.escape → Body s → Body (a :: s)
  | escaped {a : α} {s : List α} : Body s → Body (M.escape :: a :: s)

variable {M}

theorem Body.append {s t : List α} (hs : Body M s) (ht : Body M t) : Body M (s ++ t) := by
  induction hs with
  | nil => exact ht
  | plain hquote hescape _ ih => exact .plain hquote hescape ih
  | escaped _ ih => exact .escaped ih

theorem Body.of_forall {s : List α} (h : ∀ a ∈ s, a ≠ M.quote ∧ a ≠ M.escape) : Body M s := by
  induction s with
  | nil => exact .nil
  | cons a s ih =>
    obtain ⟨ha, hs⟩ := List.forall_mem_cons.1 h
    exact .plain ha.1 ha.2 (ih hs)

theorem Body.flatMap {β : Type} {f : β → List α} (h : ∀ b, Body M (f b)) (l : List β) : Body M (l.flatMap f) := by
  induction l with
  | nil => exact .nil
  | cons b l ih =>
    rw [List.flatMap_cons]
    exact (h b).append ih

variable (M) [DecidableEq α]

/-- Where the string ends whose text begins here; the flag says that the character in front was an escape. -/
def closing : Bool → List α → Option Nat
  | _, [] => none
  | true, _ :: rest => (closing false rest).map (· + 1)
  | false, a :: rest =>
    if a = M.escape then (closing true rest).map (· + 1)
    else if a = M.quote then some 0
    else (closing false rest).map (· + 1)

variable {M}

theorem closing_body {s : List α} (h : Body M s) (rest : List α) :
    closing M false (s ++ M.quote :: rest) = some s.length := by
  induction h with
  | nil =>
    rw [List.nil_append, closing, if_neg M.ne, if_pos rfl]
    rfl
  | plain hquote hescape _ ih =>
    rw [List.cons_append, closing, if_neg hescape, if_neg hquote, ih]
    rfl
  | escaped _ ih =>
    rw [List.cons_append, List.cons_append, closing, if_pos rfl, closing, ih]
    rfl

end ArtPi.Lib.Quoted
