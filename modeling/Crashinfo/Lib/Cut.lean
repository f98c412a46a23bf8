import Crashinfo.Lib.Credit

/-!
# Programs cut into steps

A program reads its script from the front and does not look at what follows
(`Frames`).  So it can be cut where it asks: `go` takes it from one place to the
next one, `rest` is what remains to be done from a place on, and if `rest` is `go`
and then `rest`, who walks from place to place comes to where the program as a whole
would have come (`Walks.rest_eq`).  A loop is cut by its first turn
(`forever_unroll`).
-/

namespace Script

open Run

variable {ω ε σ α β π : Type}

/-! ### What follows in the script -/

/-- What follows in the script makes no difference to a program that ends before it. -/
def Frames (m : Run ω ε σ α) : Prop :=
  ∀ s o a s' o', m s o = .done a s' o' → ∀ x, m s (o ++ x) = .done a s' (o' ++ x)

section Frames

theorem frames_pure (a : α) : Frames (pure a : Run ω ε σ α) := by
  intro s o b s' o' h x
  cases h
  rfl

theorem frames_ask : Frames (ask : Run ω ε σ ω) := by
  intro s o w s' o' h x
  cases o with
  | nil => cases h
  | cons v o =>
    cases h
    rfl

theorem frames_get : Frames (get : Run ω ε σ σ) := by
  intro s o t s' o' h x
  cases h
  rfl

theorem frames_modify (f : σ → σ) : Frames (modify f : Run ω ε σ Unit) := by
  intro s o u s' o' h x
  cases h
  rfl

theorem frames_stop (why : Stop ε) : Frames (fun s _ => .stop why s : Run ω ε σ α) := by
  intro s o b s' o' h x
  cases h

theorem frames_ite {c : Prop} [Decidable c] {m m' : Run ω ε σ α} (h : Frames m) (h' : Frames m') :
    Frames (if c then m else m') := by
  split
  · exact h
  · exact h'

theorem frames_bind {m : Run ω ε σ α} {f : α → Run ω ε σ β} (hm : Frames m)
    (hf : ∀ a, Frames (f a)) : Frames (m >>= f) := by
  intro s o b s' o' h x
  obtain ⟨a, t, p, hrun, hrest⟩ := of_bind_done h
  rw [bind_of_done (hm _ _ _ _ _ hrun x)]
  exact hf a _ _ _ _ _ hrest x

end Frames

/-! ### The first turn of a loop -/

theorem forever_unroll {body : α → Run ω ε σ (α ⊕ β)} (hask : Asking body) (a : α) :
    forever body a = (body a >>= Sum.elim (fun a' => forever body a') pure) := by
  funext s o
  cases hrun : body a s o with
  | stop why s' => rw [forever_stop hrun, bind_of_stop hrun]
  | done r s' o' =>
    rw [bind_of_done hrun]
    cases r with
    | inl a' => exact forever_inl hask hrun
    | inr b => exact forever_inr hrun

/-! ### From place to place -/

/-- From the place `p` in the state `s`, with the answers `o`, to the place `p'` in
the state `s'`. -/
inductive Walks (go : π → Run ω ε σ π) (p : π) (s : σ) : List ω → π → σ → Prop
  | refl : Walks go p s [] p s
  | step {o o' : List ω} {p' p'' : π} {s' s'' : σ} (h : Walks go p s o p' s')
      (hgo : go p' s' o' = .done p'' s'' []) : Walks go p s (o ++ o') p'' s''

/-- **The program as a whole** does what is done from place to place, and then the
rest. -/
theorem Walks.rest_eq {go : π → Run ω ε σ π} {rest : π → Run ω ε σ α} {p p' : π} {s s' : σ}
    {o : List ω} (h : Walks go p s o p' s') (hframes : ∀ p, Frames (go p))
    (hrest : ∀ p, rest p = go p >>= rest) (x : List ω) : rest p s (o ++ x) = rest p' s' x := by
  induction h generalizing x with
  | refl => rfl
  | step _ hgo ih =>
    rw [List.append_assoc, ih, hrest, bind_of_done (hframes _ _ _ _ _ _ hgo x), List.nil_append]

end Script
