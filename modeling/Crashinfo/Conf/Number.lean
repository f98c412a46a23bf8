import Crashinfo.Basic

/-!
# Numbers out of text

`strtol`, as the C library has it where a `long` has 64 bits: white space, a
sign, with the base 0 a prefix that tells the base, and as many digits as there
are.  What it returns is the number and where the text goes on.

A number that `%d` has printed is read back (`strtol_fmtD`).
-/

namespace Crashinfo

/-- What a character stands for as a digit, in the largest base there is. -/
def digitVal (c : Byte) : Option Nat :=
  if 48 ≤ c.toNat ∧ c.toNat ≤ 57 then some (c.toNat - 48)
  else if 97 ≤ c.toNat ∧ c.toNat ≤ 122 then some (c.toNat - 87)
  else if 65 ≤ c.toNat ∧ c.toNat ≤ 90 then some (c.toNat - 55)
  else none

def isDigit (base : Nat) (c : Byte) : Bool := (digitVal c).any (· < base)

/-- The prefix of the base 0; without a digit behind it `0x` is a zero. -/
def radix : Str → Nat × Str
  | c :: x :: s =>
    if c = ch '0' then
      if (x = ch 'x' ∨ x = ch 'X') ∧ s.head?.any (isDigit 16) then (16, s) else (8, c :: x :: s)
    else (10, c :: x :: s)
  | [c] => (if c = ch '0' then 8 else 10, [c])
  | [] => (10, [])

def sign : Str → Bool × Str
  | c :: s => if c = ch '-' then (true, s) else if c = ch '+' then (false, s) else (false, c :: s)
  | [] => (false, [])

def toLong (i : Int) : Int := max (-2 ^ 63) (min i (2 ^ 63 - 1))

/-- `strtol(s, &end, base)` for the bases 0 and 10: the number, and the text at
`end`. -/
def strtol (base : Nat) (s : Str) : Int × Str :=
  let (neg, t) := sign (s.dropWhile fun c => isspace (sint c))
  let (b, t) := if base = 0 then radix t else (base, t)
  let ds := (t.takeWhile (isDigit b)).filterMap digitVal
  if ds = [] then (0, s)
  else
    let n : Int := Numeral.value b ds
    (toLong (if neg then -n else n), t.dropWhile (isDigit b))

def toInt (i : Int) : Int := i.bmod (2 ^ 32)

def IsInt (i : Int) : Prop := -2 ^ 31 ≤ i ∧ i < 2 ^ 31

theorem isInt_toInt (i : Int) : IsInt (toInt i) := by
  have h1 := Int.le_bmod (x := i) (m := 2 ^ 32) (by decide)
  have h2 := Int.bmod_lt (x := i) (m := 2 ^ 32) (by decide)
  rw [toInt]
  constructor
  · omega
  · omega

theorem toInt_of_isInt {i : Int} (h : IsInt i) : toInt i = i := by
  obtain ⟨h1, h2⟩ := h
  rw [toInt, Int.bmod_def]
  split
  · omega
  · omega

theorem toLong_of_isInt {i : Int} (h : IsInt i) : toLong i = i := by
  obtain ⟨h1, h2⟩ := h
  rw [toLong]
  omega

/-! ### Where the text goes on -/

theorem sign_suffix (s : Str) : (sign s).2 <:+ s := by
  cases s with
  | nil => exact List.suffix_refl _
  | cons c s =>
    rw [sign]
    split
    · exact List.suffix_cons c s
    · split
      · exact List.suffix_cons c s
      · exact List.suffix_refl _

theorem radix_suffix (s : Str) : (radix s).2 <:+ s := by
  match s with
  | [] => exact List.suffix_refl _
  | [c] => exact List.suffix_refl _
  | c :: x :: s =>
    rw [radix]
    split
    · split
      · exact (List.suffix_cons x s).trans (List.suffix_cons c _)
      · exact List.suffix_refl _
    · exact List.suffix_refl _

theorem strtol_suffix (base : Nat) (s : Str) : (strtol base s).2 <:+ s := by
  have hsign := (sign_suffix (s.dropWhile fun c => isspace (sint c))).trans
    (List.dropWhile_suffix _)
  have hdigits : ∀ (neg : Bool) (p : Nat × Str), p.2 <:+ s →
      (if (p.2.takeWhile (isDigit p.1)).filterMap digitVal = [] then ((0 : Int), s)
      else
        let n : Int := Numeral.value p.1 ((p.2.takeWhile (isDigit p.1)).filterMap digitVal)
        (toLong (if neg then -n else n), p.2.dropWhile (isDigit p.1))).2 <:+ s := by
    intro neg p hp
    split
    · exact List.suffix_refl s
    · exact (List.dropWhile_suffix _).trans hp
  have hradix : (if base = 0 then radix (sign (s.dropWhile fun c => isspace (sint c))).2
      else (base, (sign (s.dropWhile fun c => isspace (sint c))).2)).2 <:+ s := by
    split
    · exact (radix_suffix _).trans hsign
    · exact hsign
  exact hdigits (sign (s.dropWhile fun c => isspace (sint c))).1 _ hradix

/-! ### Reading what was printed -/

theorem digitVal_digitChar {d : Nat} (h : d < 36) : digitVal (digitChar d) = some d := by
  revert d
  decide

theorem isDigit_digitChar {b d : Nat} (hb : b ≤ 36) (h : d < b) : isDigit b (digitChar d) = true := by
  rw [isDigit, digitVal_digitChar (by omega)]
  exact decide_eq_true h

theorem filterMap_digitVal {ds : List Nat} (h : ∀ d ∈ ds, d < 36) :
    (ds.map digitChar).filterMap digitVal = ds := by
  induction ds with
  | nil => rfl
  | cons d ds ih =>
    obtain ⟨hd, hds⟩ := List.forall_mem_cons.mp h
    rw [List.map_cons, List.filterMap_cons, digitVal_digitChar hd, ih hds]

theorem takeWhile_isDigit_dec (n : Nat) : (dec n).takeWhile (isDigit 10) = dec n := by
  refine List.takeWhile_eq_self_iff.mpr fun c hc => ?_
  obtain ⟨d, hd, rfl⟩ := List.mem_map.mp hc
  exact isDigit_digitChar (by decide) (Numeral.digits_lt (by decide) hd)

theorem dropWhile_isDigit_dec (n : Nat) : (dec n).dropWhile (isDigit 10) = [] := by
  refine List.dropWhile_eq_nil_iff.mpr fun c hc => ?_
  obtain ⟨d, hd, rfl⟩ := List.mem_map.mp hc
  exact isDigit_digitChar (by decide) (Numeral.digits_lt (by decide) hd)

theorem value_dec (n : Nat) :
    Numeral.value 10 ((dec n).filterMap digitVal) = n := by
  rw [dec, filterMap_digitVal, Numeral.value_digits]
  intro d hd
  have := Numeral.digits_lt (by decide) hd
  omega

theorem filterMap_dec_ne_nil (n : Nat) : (dec n).filterMap digitVal ≠ [] := by
  rw [dec, filterMap_digitVal]
  · exact Numeral.digits_ne_nil 10 n
  · intro d hd
    have := Numeral.digits_lt (by decide) hd
    omega

theorem radix_dec {n : Nat} (h : n ≠ 0) : radix (dec n) = (10, dec n) := by
  have hhead := Numeral.head_digits (b := 10) h
  have hlt : ∀ d ∈ Numeral.digits 10 n, d < 10 := fun d hd => Numeral.digits_lt (by decide) hd
  have hzero : ∀ d < 10, d ≠ 0 → digitChar d ≠ ch '0' := by decide
  rw [dec]
  generalize Numeral.digits 10 n = ds at hhead hlt
  rcases ds with _ | ⟨d, _ | ⟨e, ds⟩⟩
  · rfl
  · rw [List.map_cons, List.map_nil, radix, if_neg]
    exact hzero d (hlt d List.mem_cons_self) (hhead d rfl)
  · rw [List.map_cons, List.map_cons, radix, if_neg]
    exact hzero d (hlt d List.mem_cons_self) (hhead d rfl)

/-- What begins with a digit has neither white space nor a sign in front. -/
theorem sign_dec (n : Nat) : sign ((dec n).dropWhile fun c => isspace (sint c)) = (false, dec n) := by
  have hlt : ∀ d ∈ Numeral.digits 10 n, d < 10 := fun d hd => Numeral.digits_lt (by decide) hd
  have hplain : ∀ d < 10, isspace (sint (digitChar d)) = false ∧ digitChar d ≠ ch '-' ∧
      digitChar d ≠ ch '+' := by decide
  rw [dec]
  generalize Numeral.digits 10 n = ds at hlt
  cases ds with
  | nil => rfl
  | cons d ds =>
    obtain ⟨h1, h2, h3⟩ := hplain d (hlt d List.mem_cons_self)
    rw [List.map_cons, List.dropWhile_cons_of_neg (by rw [h1]; exact Bool.false_ne_true), sign,
      if_neg h2, if_neg h3]

theorem strtol_of_dec {s : Str} {neg : Bool} {n : Nat} (hn : n ≠ 0)
    (hs : sign (s.dropWhile fun c => isspace (sint c)) = (neg, dec n)) :
    strtol 0 s = (toLong (if neg then -n else n), []) := by
  rw [strtol, hs]
  dsimp only
  rw [if_pos rfl, radix_dec hn]
  dsimp only
  rw [takeWhile_isDigit_dec, if_neg (filterMap_dec_ne_nil n), value_dec, dropWhile_isDigit_dec]

/-- **`%d` and `strtol`.** -/
theorem strtol_fmtD {i : Int} (h : IsInt i) : strtol 0 (fmtD i) = (i, []) := by
  unfold fmtD
  by_cases hneg : i < 0
  · have hsign : sign ((ch '-' :: dec i.natAbs).dropWhile fun c => isspace (sint c)) =
        (true, dec i.natAbs) := rfl
    rw [if_pos hneg, strtol_of_dec (by omega) hsign]
    have hi : -(i.natAbs : Int) = i := by omega
    rw [if_pos rfl, hi, toLong_of_isInt h]
  · rw [if_neg hneg]
    by_cases hzero : i = 0
    · rw [hzero]
      decide
    · rw [strtol_of_dec (by omega) (sign_dec _)]
      have hi : (i.toNat : Int) = i := by omega
      rw [if_neg Bool.false_ne_true, hi, toLong_of_isInt h]

end Crashinfo
