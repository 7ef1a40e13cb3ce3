import Mathlib.Data.List.Nodup

set_option autoImplicit false

/-! # Search with a stack

What is pushed is marked, and is not pushed again; what was pushed last is visited next. -/

namespace ArtPi.Lib.StackSearch

variable {α : Type} [DecidableEq α]

/-- What is still to be visited, the next one first, and all that was pushed. -/
structure Front (α : Type) where
  stack : List α
  marked : List α

namespace Front

def push (s : Front α) (a : α) : Front α := if a ∈ s.marked then s else ⟨a :: s.stack, a :: s.marked⟩

def pushAll (s : Front α) (as : List α) : Front α := as.foldl push s

/-- The stack holds what is marked, and nothing twice. -/
structure Ok (s : Front α) : Prop where
  nodup : s.stack.Nodup
  marked : ∀ a ∈ s.stack, a ∈ s.marked

theorem mem_push_stack {s : Front α} {a b : α} (h : b ∈ (s.push a).stack) : b ∈ s.stack ∨ b ∉ s.marked := by
  unfold push at h
  split at h
  · exact .inl h
  · rename_i ha
    rcases List.mem_cons.mp h with rfl | h
    · exact .inr ha
    · exact .inl h

theorem mem_push_marked {s : Front α} {a b : α} : b ∈ (s.push a).marked ↔ b = a ∨ b ∈ s.marked := by
  unfold push
  split
  · rename_i ha
    constructor
    · exact .inr
    · rintro (rfl | h)
      · exact ha
      · exact h
  · exact List.mem_cons

theorem Ok.push {s : Front α} (h : s.Ok) (a : α) : (s.push a).Ok := by
  unfold Front.push
  split
  · exact h
  · rename_i ha
    refine ⟨List.nodup_cons.mpr ⟨fun hmem => ha (h.marked a hmem), h.nodup⟩, fun b hb => ?_⟩
    rcases List.mem_cons.mp hb with rfl | hb
    · exact List.mem_cons_self
    · exact List.mem_cons_of_mem a (h.marked b hb)

theorem mem_pushAll_stack {s : Front α} {as : List α} {b : α} (h : b ∈ (s.pushAll as).stack) :
    b ∈ s.stack ∨ b ∉ s.marked := by
  induction as generalizing s with
  | nil => exact .inl h
  | cons a as ih =>
    rcases ih h with h | h
    · exact mem_push_stack h
    · exact .inr (fun hb => h (mem_push_marked.mpr (.inr hb)))

theorem mem_pushAll_marked {s : Front α} {as : List α} {b : α} :
    b ∈ (s.pushAll as).marked ↔ b ∈ as ∨ b ∈ s.marked := by
  induction as generalizing s with
  | nil => simp [pushAll]
  | cons a as ih =>
    have hstep : (s.pushAll (a :: as)) = (s.push a).pushAll as := rfl
    rw [hstep, ih, mem_push_marked, List.mem_cons]
    tauto

theorem Ok.pushAll {s : Front α} (h : s.Ok) (as : List α) : (s.pushAll as).Ok := by
  induction as generalizing s with
  | nil => exact h
  | cons a as ih => exact ih (h.push a)

end Front

/-- The order in which a search visits. -/
def order (next : α → List α) : Nat → Front α → List α
  | 0, _ => []
  | n + 1, s =>
    match s.stack with
    | [] => []
    | a :: rest => a :: order next n (Front.pushAll ⟨rest, s.marked⟩ (next a))

variable {next : α → List α}

theorem order_of_nil (n : Nat) {s : Front α} (h : s.stack = []) : order next n s = [] := by
  cases n with
  | zero => rfl
  | succ n =>
    rw [order, h]

theorem order_succ (n : Nat) (a : α) (rest marked : List α) :
    order next (n + 1) ⟨a :: rest, marked⟩ = a :: order next n (Front.pushAll ⟨rest, marked⟩ (next a)) := rfl

theorem order_nodup (n : Nat) {s : Front α} (h : s.Ok) :
    (order next n s).Nodup ∧ ∀ a ∈ order next n s, a ∈ s.stack ∨ a ∉ s.marked := by
  induction n generalizing s with
  | zero => exact ⟨List.nodup_nil, fun a ha => by cases ha⟩
  | succ n ih =>
    obtain ⟨stack, marked⟩ := s
    cases stack with
    | nil => exact ⟨List.nodup_nil, fun a ha => by cases ha⟩
    | cons a rest =>
      obtain ⟨hnotin, hrest⟩ := List.nodup_cons.mp h.nodup
      have hok : (⟨rest, marked⟩ : Front α).Ok := ⟨hrest, fun b hb => h.marked b (List.mem_cons_of_mem a hb)⟩
      obtain ⟨hnodup, hmem⟩ := ih (hok.pushAll (next a))
      have hback : ∀ b ∈ order next n (Front.pushAll ⟨rest, marked⟩ (next a)), b ∈ rest ∨ b ∉ marked := by
        intro b hb
        rcases hmem b hb with h | h
        · exact Front.mem_pushAll_stack h
        · exact .inr (fun hmarked => h (Front.mem_pushAll_marked.mpr (.inr hmarked)))
      rw [order_succ]
      refine ⟨List.nodup_cons.mpr ⟨fun ha => ?_, hnodup⟩, fun b hb => ?_⟩
      · rcases hback a ha with h' | h'
        · exact hnotin h'
        · exact h' (h.marked a List.mem_cons_self)
      · rcases List.mem_cons.mp hb with rfl | hb
        · exact .inl List.mem_cons_self
        · exact (hback b hb).imp (List.mem_cons_of_mem a) id

end ArtPi.Lib.StackSearch
