import Mathlib.Data.List.Basic

set_option autoImplicit false

/-! # Cutting a stream into items

A `Framer` looks at the front of a buffer and either asks for more input, gives the stream up, or
cuts one item off. Its laws say that a cut makes progress and that what the framer decided does not
change when more input arrives behind the buffer. `drain` cuts as long as it can; the point of the
module is `drain_append`: draining again when more has arrived gives the items of draining all of it
at once. -/

namespace ArtPi.Framing

/-- What a framer makes of the front of a buffer. -/
inductive Next (α β : Type) where
  | more
  | stop
  | item (b : β) (rest : List α)

structure Framer (α β : Type) where
  next : List α → Next α β
  item_lt : ∀ {s : List α} {b : β} {rest : List α},
    next s = .item b rest → rest.length < s.length
  item_append : ∀ {s : List α} {b : β} {rest : List α} (t : List α),
    next s = .item b rest → next (s ++ t) = .item b (rest ++ t)
  stop_append : ∀ {s : List α} (t : List α), next s = .stop → next (s ++ t) = .stop

variable {α β : Type} (F : Framer α β)

/-- The items at the front of a buffer, and the uncut rest (`none` once the stream is given up). -/
def drain (s : List α) : List β × Option (List α) :=
  match h : F.next s with
  | .more => ([], some s)
  | .stop => ([], none)
  | .item b rest =>
    have := F.item_lt h
    let (bs, left) := drain rest
    (b :: bs, left)
termination_by s.length

theorem drain_more {s : List α} (h : F.next s = .more) : drain F s = ([], some s) := by
  rw [drain]
  split <;> rename_i h' <;> rw [h] at h' <;> first | rfl | exact absurd h' (by simp)

theorem drain_stop {s : List α} (h : F.next s = .stop) : drain F s = ([], none) := by
  rw [drain]
  split <;> rename_i h' <;> rw [h] at h' <;> first | rfl | exact absurd h' (by simp)

theorem drain_item {s : List α} {b : β} {rest : List α} (h : F.next s = .item b rest) :
    drain F s = (b :: (drain F rest).1, (drain F rest).2) := by
  rw [drain]
  split
  · rename_i h'; rw [h] at h'; exact absurd h' (by simp)
  · rename_i h'; rw [h] at h'; exact absurd h' (by simp)
  · rename_i b' rest' h'
    rw [h] at h'
    obtain ⟨rfl, rfl⟩ := Next.item.inj h'
    rfl

/-- Arrival of a chunk: nothing is cut from a stream that was given up. -/
def feed (left : Option (List α)) (chunk : List α) : List β × Option (List α) :=
  match left with
  | none => ([], none)
  | some buf => drain F (buf ++ chunk)

/-- Cutting what is there and going on when the rest has arrived. -/
theorem drain_append (s t : List α) :
    drain F (s ++ t) = ((drain F s).1 ++ (feed F (drain F s).2 t).1, (feed F (drain F s).2 t).2) := by
  induction hn : s.length using Nat.strongRecOn generalizing s with
  | ind n ih =>
    match h : F.next s with
    | .more => simp only [drain_more F h, feed, List.nil_append]
    | .stop => simp only [drain_stop F h, drain_stop F (F.stop_append t h), feed, List.nil_append]
    | .item b rest =>
      have hlt := F.item_lt h
      rw [drain_item F h, drain_item F (F.item_append t h), ih rest.length (by omega) rest rfl]
      simp only [List.cons_append]

theorem drain_left (s : List α) {left : List α} (h : (drain F s).2 = some left) :
    F.next left = .more := by
  induction hn : s.length using Nat.strongRecOn generalizing s with
  | ind n ih =>
    match hs : F.next s with
    | .more =>
      rw [drain_more F hs] at h
      obtain rfl := Option.some.inj h
      exact hs
    | .stop => rw [drain_stop F hs] at h; exact absurd h (by simp)
    | .item b rest =>
      rw [drain_item F hs] at h
      exact ih rest.length (by have := F.item_lt hs; omega) rest h rfl

end ArtPi.Framing
