import Mathlib.Data.List.Basic

/-!
# Records of what happened

A record is a list that grows at its end.  `Each P l` says of every entry that it
is as `P` says after what stands in front of it, and it is kept by a step just if
the new entry is so (`each_snoc`).
-/

namespace Journal

variable {α : Type} {P : List α → α → Prop} {l l' : List α} {e : α}

/-- Every entry is as `P` says, after the entries in front of it. -/
def Each (P : List α → α → Prop) (l : List α) : Prop :=
  ∀ pre e post, l = pre ++ e :: post → P pre e

theorem each_nil : Each P [] := fun _ _ _ h => absurd h.symm (List.append_ne_nil_of_right_ne_nil _
  (List.cons_ne_nil _ _))

/-- What holds of a record holds of what there was of it before. -/
theorem Each.before (h : Each P l') (hl : l <+: l') : Each P l := by
  obtain ⟨rest, rfl⟩ := hl
  rintro pre e post rfl
  exact h pre e (post ++ rest) (by rw [List.append_assoc, List.cons_append])

/-- **The step**: one more entry. -/
theorem each_snoc : Each P (l ++ [e]) ↔ Each P l ∧ P l e := by
  constructor
  · exact fun h => ⟨h.before (List.prefix_append _ _), h l e [] rfl⟩
  · rintro ⟨h, he⟩ pre x post heq
    rcases List.eq_nil_or_concat post with rfl | ⟨post, y, rfl⟩
    · obtain ⟨rfl, hx⟩ := List.append_inj' heq rfl
      obtain rfl := List.singleton_inj.mp hx
      exact he
    · rw [List.concat_eq_append, ← List.cons_append, ← List.append_assoc] at heq
      exact h pre x post (List.append_inj' heq rfl).1

/-- Every entry of the record is one with something in front of it. -/
theorem Each.of_mem (h : Each P l) (he : e ∈ l) : ∃ pre, P pre e := by
  obtain ⟨pre, post, heq⟩ := List.append_of_mem he
  exact ⟨pre, h pre e post heq⟩

end Journal
