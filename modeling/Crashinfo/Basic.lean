import Crashinfo.Lib.Numeral
import Crashinfo.Lib.Token

/-!
# Bytes, C strings, the conversions of `printf`, and faults

A `char` is a byte, a C string is the list of its bytes without the final NUL.
`char` is signed where the program runs, so a byte from `0x80` on is a negative
number as soon as it is promoted to `int` (`sint`), and `%x` then prints the
32-bit two's complement (`uint`).  The character classes are those of the C
locale, which the program never leaves.

A `Fault` is what a run comes to when the code does something C gives no
meaning to, or when an assertion fails.
-/

namespace Crashinfo

abbrev Byte := UInt8

/-- A C string, without its NUL. -/
abbrev Str := List Byte

/-- The test for equal strings finds out equal strings. -/
instance : LawfulBEq Str := inferInstance

def ch (c : Char) : Byte := c.toUInt8

theorem forall_byte {p : Byte → Prop} (h : ∀ n < 256, p (UInt8.ofNat n)) (c : Byte) : p c := by
  have hc := h c.toNat c.toNat_lt
  rwa [UInt8.ofNat_toNat] at hc

def lit (s : String) : Str := s.toList.map ch

inductive Fault where
  /-- a NULL pointer is used -/
  | nullDeref
  /-- an array is read that was left indeterminate -/
  | indeterminate
  /-- an `int` leaves its range -/
  | overflow
  /-- memory outside an array is used -/
  | outOfBounds
  | assertion
  /-- a thread is joined that was not created -/
  | badThread
  /-- a conversion of `printf` has no argument -/
  | noArgument
  deriving DecidableEq, Repr

def intMax : Int := 2147483647

/-! ### Character classes -/

def sint (c : Byte) : Int := if c.toNat < 128 then c.toNat else c.toNat - 256

def isprint (c : Int) : Bool := decide (0x20 ≤ c ∧ c ≤ 0x7e)

def isspace (c : Int) : Bool := decide (c = 0x20 ∨ 9 ≤ c ∧ c ≤ 13)

def delim : Str := lit " \n\r\t\x0c\x0b"

/-- `strchr(delim, c)` for a `c` that is not NUL. -/
def isDelim (c : Byte) : Bool := delim.contains c

theorem isspace_sint (c : Byte) : isspace (sint c) = isDelim c := by
  apply forall_byte (p := fun c => isspace (sint c) = isDelim c)
  decide +kernel

/-- `strtok`, with what is left for the next call; after the last word it has
nothing to go on with. -/
def strtok (s : Str) : Option Str × Str :=
  match Token.next isDelim s with
  | some (t, rest) => (some t, rest)
  | none => (none, [])

theorem strtok_fst (s : Str) : (strtok s).1 = (Token.tokens isDelim s).head? := by
  rw [strtok]
  cases hn : Token.next isDelim s with
  | none =>
    rw [Token.tokens_of_blank (Token.next_eq_none_iff.mp hn)]
    rfl
  | some p =>
    rw [(Token.tokens_of_next hn).2]
    rfl

/-! ### Conversions -/

def digitChar (d : Nat) : Byte := UInt8.ofNat (if d < 10 then 48 + d else 87 + d)

/-- An `int` passed where `%x` expects an `unsigned`. -/
def uint (i : Int) : Nat := (i % 2 ^ 32).toNat

def dec (n : Nat) : Str := (Numeral.digits 10 n).map digitChar

def fmtD (i : Int) : Str := if i < 0 then ch '-' :: dec i.natAbs else dec i.toNat

def fmt0D (w : Nat) (i : Int) : Str :=
  if i < 0 then ch '-' :: (Numeral.padded 10 (w - 1) i.natAbs).map digitChar
  else (Numeral.padded 10 w i.toNat).map digitChar

def fmt02x (n : Nat) : Str := (Numeral.padded 16 2 n).map digitChar

def hexVal (c : Byte) : Option Nat :=
  if 48 ≤ c.toNat ∧ c.toNat ≤ 57 then some (c.toNat - 48)
  else if 97 ≤ c.toNat ∧ c.toNat ≤ 102 then some (c.toNat - 87)
  else none

theorem hexVal_digitChar {d : Nat} (h : d < 16) : hexVal (digitChar d) = some d := by
  revert d
  decide

theorem digitChar_injOn {d e : Nat} (hd : d < 16) (he : e < 16)
    (h : digitChar d = digitChar e) : d = e := by
  have := hexVal_digitChar hd
  rw [h, hexVal_digitChar he] at this
  exact (Option.some.inj this).symm

theorem map_digitChar_injOn : ∀ {ds es : List Nat}, (∀ d ∈ ds, d < 16) → (∀ e ∈ es, e < 16) →
    ds.map digitChar = es.map digitChar → ds = es := by
  intro ds
  induction ds with
  | nil => intro es _ _ h; exact (List.map_eq_nil_iff.mp h.symm).symm
  | cons d ds ih =>
    intro es hd he h
    cases es with
    | nil => simp at h
    | cons e es =>
      obtain ⟨h1, h2⟩ := List.cons.inj h
      rw [digitChar_injOn (hd d (by simp)) (he e (by simp)) h1,
        ih (fun x hx => hd x (by simp [hx])) (fun x hx => he x (by simp [hx])) h2]

theorem uint_of_nonneg {i : Int} (h0 : 0 ≤ i) (h : i < 2 ^ 32) : uint i = i.toNat := by
  rw [uint, Int.emod_eq_of_lt h0 h]

theorem fmt02x_of_lt {n : Nat} (h : n < 256) :
    fmt02x n = [digitChar (n / 16), digitChar (n % 16)] := by
  by_cases h16 : n < 16
  · rw [fmt02x, Numeral.padded, Numeral.digits_of_lt h16, Nat.div_eq_of_lt h16,
      Nat.mod_eq_of_lt h16]
    rfl
  · rw [fmt02x, Numeral.padded, Numeral.digits_of_le (by decide) (by omega),
      Numeral.digits_of_lt (show n / 16 < 16 by omega)]
    rfl

theorem dec_ne_nil (n : Nat) : dec n ≠ [] := by
  rw [dec, Ne, List.map_eq_nil_iff]
  exact Numeral.digits_ne_nil 10 n

theorem fmtD_ne_nil (i : Int) : fmtD i ≠ [] := by
  unfold fmtD
  split
  · simp
  · exact dec_ne_nil _

theorem length_fmt0D {w n : Nat} (h : (Numeral.digits 10 n).length ≤ w) :
    (fmt0D w n).length = w := by
  rw [fmt0D, if_neg (by omega), List.length_map, Int.toNat_natCast,
    Numeral.length_padded_of_le h]

/-- **A zero-padded number can be read off.** -/
theorem fmt0D_injective {w m n : Nat} (h : fmt0D w m = fmt0D w n) : m = n := by
  rw [fmt0D, fmt0D, if_neg (by omega), if_neg (by omega), Int.toNat_natCast,
    Int.toNat_natCast] at h
  refine Numeral.padded_injective 10 w (map_digitChar_injOn ?_ ?_ h)
  · exact fun d hd => by have := Numeral.padded_lt (by decide) hd; omega
  · exact fun d hd => by have := Numeral.padded_lt (by decide) hd; omega

def IsNum (b : Byte) : Prop := b = ch '-' ∨ 48 ≤ b.toNat ∧ b.toNat ≤ 57

theorem isNum_digitChar {d : Nat} (h : d < 10) : IsNum (digitChar d) := by
  refine Or.inr ?_
  revert d
  decide

theorem isNum_of_mem_fmtD {b : Byte} {i : Int} (h : b ∈ fmtD i) : IsNum b := by
  have hdec : ∀ n, b ∈ dec n → IsNum b := by
    intro n hb
    obtain ⟨d, hd, rfl⟩ := List.mem_map.mp hb
    exact isNum_digitChar (Numeral.digits_lt (by decide) hd)
  unfold fmtD at h
  split at h
  · rcases List.mem_cons.mp h with rfl | h
    · exact Or.inl rfl
    · exact hdec _ h
  · exact hdec _ h

theorem isNum_of_mem_fmt0D {b : Byte} {w : Nat} {i : Int} (h : b ∈ fmt0D w i) : IsNum b := by
  have hpad : ∀ w n, b ∈ (Numeral.padded 10 w n).map digitChar → IsNum b := by
    intro w n hb
    obtain ⟨d, hd, rfl⟩ := List.mem_map.mp hb
    exact isNum_digitChar (Numeral.padded_lt (by decide) hd)
  unfold fmt0D at h
  split at h
  · rcases List.mem_cons.mp h with rfl | h
    · exact Or.inl rfl
    · exact hpad _ _ h
  · exact hpad _ _ h

theorem IsNum.ne {b : Byte} (h : IsNum b) : b ≠ 0 ∧ b ≠ ch '/' := by
  constructor
  · rintro rfl
    rcases h with h | h
    · exact absurd h (by decide)
    · exact absurd h.1 (by decide)
  · rintro rfl
    rcases h with h | h
    · exact absurd h (by decide)
    · exact absurd h.1 (by decide)

end Crashinfo
