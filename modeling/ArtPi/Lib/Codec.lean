import Mathlib.Data.List.Basic

set_option autoImplicit false

/-! # Readers

A reader takes something off the front of its input. `Reads p bs a` says what it takes off for sure: the items `bs`,
which it reads as `a`, whatever is behind them. Readers one after the other read such pieces one after the other, so
a reader is followed through an encoding piece by piece. -/

namespace ArtPi.Codec

variable {α β γ : Type}

abbrev Reader (β α : Type) := StateT (List β) Option α

/-- The next item. -/
def next : Reader β β
  | [] => none
  | b :: s => some (b, s)

/-! ## What is read -/

/-- The reader reads exactly these items. -/
def Reads (p : Reader β α) (bs : List β) (a : α) : Prop := ∀ rest, p (bs ++ rest) = some (a, rest)

theorem reads_pure (a : α) : Reads (β := β) (pure a) [] a := fun _ => rfl

theorem reads_next (b : β) : Reads next [b] b := fun _ => rfl

variable {p : Reader β α} {f : α → Reader β γ} {bs cs : List β} {a : α} {c : γ}

theorem Reads.bind (hp : Reads p bs a) (hf : Reads (f a) cs c) : Reads (p >>= f) (bs ++ cs) c := by
  intro rest
  show (p (bs ++ cs ++ rest)).bind (fun r => f r.1 r.2) = some (c, rest)
  rw [List.append_assoc, hp, Option.bind_some, hf]

theorem Reads.bind_nil (hp : Reads p bs a) (hf : Reads (f a) [] c) : Reads (p >>= f) bs c := by
  simpa using hp.bind hf

end ArtPi.Codec
