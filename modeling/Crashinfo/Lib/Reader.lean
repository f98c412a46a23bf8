import Mathlib.Data.List.Infix

/-!
# Programs that read

A program reads a stream piece by piece, and what it does next depends on the piece
(`Reader`).  A call may bring less than was asked for, so one and the same stream may
lead to different places; `Came` are the places it may lead to, if no piece is longer
than `cap`.
-/

namespace Reading

variable {α β : Type}

inductive Reader (β α : Type) where
  | ret (a : α)
  /-- it asks for at most `n` elements -/
  | read (n : Nat) (next : List β → Reader β α)

/-- `r` may have read `xs` and have become what follows. -/
inductive Came (cap : Nat) (r : Reader β α) : List β → Reader β α → Prop
  | refl : Came cap r [] r
  | piece {xs ys : List β} {n : Nat} {next : List β → Reader β α}
      (h : Came cap r xs (.read n next)) (hne : ys ≠ []) (hn : ys.length ≤ n)
      (hcap : ys.length ≤ cap) : Came cap r (xs ++ ys) (next ys)
  | nothing {xs : List β} {next : List β → Reader β α} (h : Came cap r xs (.read 0 next)) :
      Came cap r xs (next [])

/-- It may read all of `xs` and want more. -/
def Hungry (cap : Nat) (r : Reader β α) (xs : List β) : Prop :=
  ∃ n next, 0 < n ∧ Came cap r xs (.read n next)

end Reading
