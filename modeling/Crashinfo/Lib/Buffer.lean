import Mathlib.Algebra.Group.Nat.Defs
import Mathlib.Data.List.TakeDrop
import Mathlib.Tactic.ByContra

/-!
# Arrays that grow

An array starts without any room.  When it is full and one more element is to go in,
it gets room for `b` elements, or for twice as many as before (`next`).  `Fits` are the
sizes that come about this way, and the only numbers of elements at which the array
is full are `b * 2 ^ j` (`Fits.eq_iff`).
-/

namespace Buffer

/-- How many elements there is room for after an array with room for `n` has grown. -/
def next (b n : Nat) : Nat := if n * 2 ≠ 0 then n * 2 else b

/-- An array with room for `n` elements holds `k`, which went in one by one. -/
inductive Fits (b : Nat) : Nat → Nat → Prop
  | nil : Fits b 0 0
  | grow {n : Nat} (h : Fits b n n) : Fits b (next b n) (n + 1)
  | push {n k : Nat} (h : Fits b n k) (hroom : k < n) : Fits b n (k + 1)

def IsFull (b k : Nat) : Prop := k = 0 ∨ ∃ j, k = b * 2 ^ j

section Fits

variable {b n k : Nat}

/-- **The sizes**: there is no room, or it is one of the sizes, and all the smaller ones
did not do. -/
theorem Fits.size (hb : 0 < b) (h : Fits b n k) :
    n = 0 ∧ k = 0 ∨ (∃ j, n = b * 2 ^ j) ∧ 0 < k ∧ k ≤ n ∧ ∀ i, b * 2 ^ i < n → b * 2 ^ i < k := by
  induction h with
  | nil => exact Or.inl ⟨rfl, rfl⟩
  | @grow n h ih =>
    right
    rcases ih with ⟨rfl, -⟩ | ⟨⟨j, rfl⟩, hpos, -, -⟩
    · refine ⟨⟨0, (Nat.mul_one b).symm⟩, Nat.one_pos, hb, fun i hi => ?_⟩
      have hle : b * 1 ≤ b * 2 ^ i := Nat.mul_le_mul_left b Nat.one_le_two_pow
      have hnext : next b 0 = b := rfl
      omega
    · have hnext : next b (b * 2 ^ j) = b * 2 ^ (j + 1) := by
        rw [next, if_pos (by omega), Nat.mul_assoc, Nat.pow_succ]
      rw [hnext]
      refine ⟨⟨j + 1, rfl⟩, Nat.succ_pos _, ?_, fun i hi => ?_⟩
      · rw [Nat.pow_succ, ← Nat.mul_assoc]
        omega
      · have hij := (Nat.pow_lt_pow_iff_right (by decide)).mp (Nat.lt_of_mul_lt_mul_left hi)
        exact Nat.lt_succ_of_le (Nat.mul_le_mul_left b (Nat.pow_le_pow_right (by decide)
          (Nat.le_of_lt_succ hij)))
  | push h hroom ih =>
    rcases ih with ⟨rfl, -⟩ | ⟨hsize, hpos, hle, hpast⟩
    · exact absurd hroom (Nat.not_lt_zero _)
    · exact Or.inr ⟨hsize, Nat.succ_pos _, hroom, fun i hi => Nat.lt_succ_of_lt (hpast i hi)⟩

theorem Fits.le (hb : 0 < b) (h : Fits b n k) : k ≤ n := by
  rcases h.size hb with ⟨rfl, rfl⟩ | ⟨-, -, hle, -⟩
  · exact Nat.le_refl 0
  · exact hle

/-- **When the array is full.** -/
theorem Fits.eq_iff (hb : 0 < b) (h : Fits b n k) : n = k ↔ IsFull b k := by
  rcases h.size hb with ⟨rfl, rfl⟩ | ⟨⟨j, rfl⟩, hpos, hle, hpast⟩
  · exact iff_of_true rfl (Or.inl rfl)
  · refine ⟨fun heq => Or.inr ⟨j, heq.symm⟩, ?_⟩
    rintro (rfl | ⟨i, rfl⟩)
    · exact absurd hpos (Nat.lt_irrefl 0)
    · -- if it were smaller, the array would have grown past it
      by_contra hne
      exact absurd (hpast i (by omega)) (Nat.lt_irrefl _)

end Fits

/-! ### The elements -/

variable {α : Type} {d : α} {l : List α}

/-- `realloc`: the elements stay, and new ones are `d`. -/
def resize (d : α) (n : Nat) (l : List α) : List α := l.take n ++ List.replicate (n - l.length) d

/-- An array with room to spare that gets more of it. -/
theorem resize_append {m n : Nat} (h : m ≤ n) (hm : l.length ≤ m) :
    resize d n (l ++ List.replicate (m - l.length) d) = l ++ List.replicate (n - l.length) d := by
  have hlen : (l ++ List.replicate (m - l.length) d).length = m := by
    rw [List.length_append, List.length_replicate]
    omega
  have hmore : m - l.length + (n - m) = n - l.length := by omega
  rw [resize, List.take_of_length_le (by omega), hlen, List.append_assoc,
    List.replicate_append_replicate, hmore]

theorem modify_append_cons (f : α → α) (l : List α) (a : α) (r : List α) :
    (l ++ a :: r).modify l.length f = l ++ f a :: r := by
  induction l with
  | nil => rfl
  | cons b l ih => exact congrArg (b :: ·) ih

theorem modify_append {f : α → α} {n : Nat} (hn : l.length < n) :
    (l ++ List.replicate (n - l.length) d).modify l.length f =
      l ++ f d :: List.replicate (n - (l.length + 1)) d := by
  obtain ⟨k, rfl⟩ := Nat.exists_eq_add_of_lt hn
  have hspare : l.length + k + 1 - l.length = k + 1 := by omega
  rw [hspare, List.replicate_succ, modify_append_cons]
  congr 3
  omega

end Buffer
