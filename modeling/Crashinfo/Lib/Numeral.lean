import Mathlib.Data.Nat.Digits.Lemmas

/-!
# Numerals

A number written out in a base, most significant digit first.  `digits b n` is
`Nat.digits` turned round, except that `0` is written with one digit, as every
`printf` does.  `padded b w n` fills it up with zeros on the left to the width
`w`.  Both are read back by `value`, so a numeral names its number:
`padded_injective`.
-/

namespace Numeral

/-- The digits of `n`, most significant first; `0` is one digit. -/
def digits (b n : Nat) : List Nat := if n = 0 then [0] else (Nat.digits b n).reverse

def value (b : Nat) (ds : List Nat) : Nat := Nat.ofDigits b ds.reverse

/-- The digits of `n`, filled up with zeros to the width `w`. -/
def padded (b w n : Nat) : List Nat :=
  List.replicate (w - (digits b n).length) 0 ++ digits b n

@[simp] theorem digits_zero (b : Nat) : digits b 0 = [0] := rfl

theorem digits_pos {b n : Nat} (h : n ≠ 0) : digits b n = (Nat.digits b n).reverse := if_neg h

@[simp] theorem digits_ne_nil (b n : Nat) : digits b n ≠ [] := by
  by_cases h : n = 0
  · rw [h]; simp
  · rw [digits_pos h]
    exact List.reverse_ne_nil_iff.mpr (Nat.digits_ne_nil_iff_ne_zero.mpr h)

theorem length_digits_pos (b n : Nat) : 0 < (digits b n).length :=
  List.length_pos_of_ne_nil (digits_ne_nil b n)

theorem digits_lt {b n d : Nat} (hb : 1 < b) (hd : d ∈ digits b n) : d < b := by
  by_cases h : n = 0
  · rw [h, digits_zero, List.mem_singleton] at hd; omega
  · rw [digits_pos h, List.mem_reverse] at hd
    exact Nat.digits_lt_base hb hd

@[simp] theorem value_digits (b n : Nat) : value b (digits b n) = n := by
  by_cases h : n = 0
  · subst h; simp [value]
  · rw [digits_pos h, value, List.reverse_reverse, Nat.ofDigits_digits]

/-- A number does not begin with a zero, unless it is zero. -/
theorem head_digits {b n : Nat} (h : n ≠ 0) : ∀ d ∈ (digits b n).head?, d ≠ 0 := by
  intro d hd
  have hne := Nat.digits_ne_nil_iff_ne_zero (b := b).mpr h
  rw [digits_pos h, List.head?_reverse, List.getLast?_eq_some_getLast hne] at hd
  rw [← Option.some.inj hd]
  exact Nat.getLast_digit_ne_zero b h

theorem digits_of_lt {b n : Nat} (h : n < b) : digits b n = [n] := by
  by_cases h0 : n = 0
  · rw [h0, digits_zero]
  · rw [digits_pos h0, Nat.digits_of_lt b n h0 h]; rfl

/-- The last digit is the remainder, the others are the quotient's. -/
theorem digits_of_le {b n : Nat} (hb : 1 < b) (h : b ≤ n) :
    digits b n = digits b (n / b) ++ [n % b] := by
  have hq : n / b ≠ 0 := Nat.div_ne_zero_iff.mpr ⟨by omega, h⟩
  rw [digits_pos (by omega), digits_pos hq, Nat.digits_def' hb (by omega), List.reverse_cons]

theorem length_digits {b n : Nat} (hb : 1 < b) (h : n ≠ 0) :
    (digits b n).length = Nat.log b n + 1 := by
  rw [digits_pos h, List.length_reverse, Nat.length_digits b n hb h]

theorem length_digits_mono {b m n : Nat} (hb : 1 < b) (h : m ≤ n) :
    (digits b m).length ≤ (digits b n).length := by
  by_cases hm : m = 0
  · rw [hm, digits_zero]; exact length_digits_pos b n
  · rw [length_digits hb hm, length_digits hb (by omega)]
    exact Nat.add_le_add_right (Nat.log_mono_right h) 1

/-- How many digits a number has tells how large it is. -/
theorem length_digits_le_iff {b n k : Nat} (hb : 1 < b) (hk : 0 < k) :
    (digits b n).length ≤ k ↔ n < b ^ k := by
  by_cases hn : n = 0
  · rw [hn, digits_zero]
    exact iff_of_true hk (Nat.pow_pos (Nat.zero_lt_of_lt hb))
  · rw [length_digits hb hn, Nat.add_one_le_iff]
    exact Nat.log_lt_iff_lt_pow hb hn

@[simp] theorem value_padded (b w n : Nat) : value b (padded b w n) = n := by
  rw [padded, value, List.reverse_append, List.reverse_replicate,
    Nat.ofDigits_append_replicate_zero]
  exact value_digits b n

@[simp] theorem length_padded (b w n : Nat) :
    (padded b w n).length = max w (digits b n).length := by
  rw [padded, List.length_append, List.length_replicate]
  omega

theorem length_padded_of_le {b w n : Nat} (h : (digits b n).length ≤ w) :
    (padded b w n).length = w := by
  rw [length_padded]; omega

theorem padded_lt {b w n d : Nat} (hb : 1 < b) (hd : d ∈ padded b w n) : d < b := by
  rcases List.mem_append.mp hd with h | h
  · rw [List.eq_of_mem_replicate h]; omega
  · exact digits_lt hb h

/-- **A padded numeral names its number.** -/
theorem padded_injective (b w : Nat) : Function.Injective (padded b w) :=
  Function.LeftInverse.injective (value_padded b w)

end Numeral
