import Crashinfo.Conf.Literal

/-!
# The conversions of `scanf`

A format is a list of conversions.  Each of them takes something from the front of the
text, or fails, and with the first one that fails `sscanf` is done.  What it has stored
until then is a list of items, in the order of the format.

There is one rule for each directive, which says what it does with a text that begins
with what the directive is meant for.
-/

namespace Crashinfo

open Token

inductive Conv where
  /-- a blank: white space, if there is any -/
  | white
  /-- an ordinary character -/
  | lit (c : Byte)
  /-- `%c`; `%*c` if `keep` is not set -/
  | char (keep : Bool)
  /-- a number that is stored as an `uintmax_t`, or not at all -/
  | num (base : Nat) (keep : Bool)
  /-- `%*s` -/
  | word
  /-- `%n` -/
  | pos
  /-- `%*[^\n]` -/
  | line
  deriving DecidableEq, Repr

inductive Scanned where
  | num (n : Nat)
  | char (c : Byte)
  | pos (n : Nat)
  deriving DecidableEq, Repr

/-- A text behind the `0x` that a number with the base 16 may have. -/
def skipHex : Str → Str
  | c :: x :: s => if c = ch '0' ∧ (x = ch 'x' ∨ x = ch 'X') then s else c :: x :: s
  | s => s

/-- The nearest `uintmax_t`; a number with a minus is subtracted from 2^64. -/
def toUmax (neg : Bool) (n : Nat) : Nat :=
  if n < 2 ^ 64 then if neg then (2 ^ 64 - n) % 2 ^ 64 else n else 2 ^ 64 - 1

def scanNum (base : Nat) (s : Str) : Option (Nat × Str) :=
  let (neg, t) := sign (s.dropWhile isDelim)
  let t := if base = 16 then skipHex t else t
  if t.takeWhile (isDigit base) = [] then none
  else some (toUmax neg (digitsVal base (t.takeWhile (isDigit base))), t.dropWhile (isDigit base))

/-- What a directive takes, with `n` characters of the text behind it; `none` if it
fails. -/
def Conv.take (n : Nat) (s : Str) : Conv → Option (Option Scanned × Str)
  | .white => some (none, s.dropWhile isDelim)
  | .lit c => if s.head? = some c then some (none, s.tail) else none
  | .char keep => s.head?.map fun c => (if keep then some (.char c) else none, s.tail)
  | .num base keep =>
    (scanNum base s).map fun (v, t) => (if keep then some (.num v) else none, t)
  | .word =>
    let t := s.dropWhile isDelim
    if t = [] then none else some (none, t.dropWhile fun c => !isDelim c)
  | .pos => some (some (.pos (n - s.length)), s)
  | .line => if s.head?.all (· = ch '\n') then none else some (none, s.dropWhile (· ≠ ch '\n'))

/-- The items that are stored out of `s`, the rest of a text of `n` characters. -/
def scanFrom (n : Nat) : List Conv → Str → List Scanned
  | [], _ => []
  | d :: ds, s =>
    match d.take n s with
    | none => []
    | some (item, t) => item.toList ++ scanFrom n ds t

def sscanf (format : List Conv) (s : Str) : List Scanned := scanFrom s.length format s

/-! ### The rules -/

section Rules

variable {n : Nat} {ds : List Conv} {s : Str}

theorem scanFrom_white {w : Str} (hw : Blank isDelim w) (hs : ∀ c ∈ s.head?, isDelim c = false) :
    scanFrom n (.white :: ds) (w ++ s) = scanFrom n ds s := by
  rw [scanFrom, Conv.take, (span_append hw hs).2]
  rfl

theorem scanFrom_lit (c : Byte) : scanFrom n (.lit c :: ds) (c :: s) = scanFrom n ds s := by
  rw [scanFrom, Conv.take, List.head?_cons, if_pos rfl]
  rfl

theorem scanFrom_char (keep : Bool) (c : Byte) :
    scanFrom n (.char keep :: ds) (c :: s) =
      (if keep then [.char c] else []) ++ scanFrom n ds s := by
  cases keep with
  | false => rfl
  | true => rfl

theorem scanFrom_char_nil (keep : Bool) : scanFrom n (.char keep :: ds) [] = [] := rfl

theorem scanFrom_pos : scanFrom n (.pos :: ds) s = .pos (n - s.length) :: scanFrom n ds s := rfl

theorem scanFrom_word {w : Str} (hw : Word isDelim w) (hs : ∀ c ∈ s.head?, isDelim c = true) :
    scanFrom n (.word :: ds) (w ++ s) = scanFrom n ds s := by
  have hskip : (w ++ s).dropWhile isDelim = w ++ s :=
    (span_append (List.forall_mem_nil _) (hw.head_append s)).2
  have hplain : ∀ c ∈ w, (!isDelim c) = true := by
    intro c hc
    rw [hw.plain c hc]
    rfl
  have hstop : ∀ c ∈ s.head?, (!isDelim c) = false := by
    intro c hc
    rw [hs c hc]
    rfl
  rw [scanFrom, Conv.take, hskip, if_neg (List.append_ne_nil_of_left_ne_nil hw.ne_nil s),
    (span_append hplain hstop).2]
  rfl

theorem scanFrom_num {base : Nat} {a : Str} (keep : Bool) (hdigits : ∀ c ∈ a, isDigit base c = true)
    (hne : a ≠ []) (hsign : sign ((a ++ s).dropWhile isDelim) = (false, a ++ s))
    (hhex : base = 16 → skipHex (a ++ s) = a ++ s) (hs : ∀ c ∈ s.head?, isDigit base c = false)
    (hlt : digitsVal base a < 2 ^ 64 ∨ keep = false) :
    scanFrom n (.num base keep :: ds) (a ++ s) =
      (if keep then [.num (digitsVal base a)] else []) ++ scanFrom n ds s := by
  have hskip : (if base = 16 then skipHex (a ++ s) else a ++ s) = a ++ s := by
    split
    · rename_i hbase
      exact hhex hbase
    · rfl
  obtain ⟨htake, hdrop⟩ := span_append hdigits hs
  have hscan : scanNum base (a ++ s) = some (toUmax false (digitsVal base a), s) := by
    rw [scanNum, hsign]
    dsimp only
    rw [hskip, htake, hdrop, if_neg hne]
  rw [scanFrom, Conv.take, hscan]
  cases keep with
  | false => rfl
  | true =>
    have hval : toUmax false (digitsVal base a) = digitsVal base a :=
      if_pos (hlt.resolve_right Bool.noConfusion)
    simp [hval]

theorem scanFrom_dec (m : Nat) (hs : ∀ c ∈ s.head?, isDigit 10 c = false) :
    scanFrom n (.num 10 false :: ds) (dec m ++ s) = scanFrom n ds s := by
  have hdigits : ∀ c ∈ dec m, isDigit 10 c = true := fun c hc => isDigit_of_mem_dec hc
  have hsign : sign ((dec m ++ s).dropWhile isDelim) = (false, dec m ++ s) := by
    cases hdec : dec m with
    | nil => exact absurd hdec (dec_ne_nil m)
    | cons c r => exact sign_of_isDigit (hdigits c (by rw [hdec]; exact List.mem_cons_self)) (r ++ s)
  exact scanFrom_num false hdigits (dec_ne_nil m) hsign (fun h => absurd h (by decide)) hs
    (Or.inr rfl)

def fmt08x (m : Nat) : Str := (Numeral.padded 16 8 m).map digitChar

theorem isDigit_of_mem_fmt08x {m : Nat} {c : Byte} (h : c ∈ fmt08x m) : isDigit 16 c = true := by
  obtain ⟨d, hd, rfl⟩ := List.mem_map.mp h
  exact isDigit_digitChar (by decide) (Numeral.padded_lt (by decide) hd)

theorem digitsVal_fmt08x (m : Nat) : digitsVal 16 (fmt08x m) = m := by
  rw [digitsVal, fmt08x, filterMap_digitVal, Numeral.value_padded]
  intro d hd
  have := Numeral.padded_lt (by decide) hd
  omega

theorem length_fmt08x (m : Nat) : (fmt08x m).length = max 8 (Numeral.digits 16 m).length := by
  rw [fmt08x, List.length_map, Numeral.length_padded]

theorem scanFrom_hex {m : Nat} (keep : Bool) (hs : ∀ c ∈ s.head?, isDigit 16 c = false)
    (hlt : m < 2 ^ 64 ∨ keep = false) :
    scanFrom n (.num 16 keep :: ds) (fmt08x m ++ s) =
      (if keep then [.num m] else []) ++ scanFrom n ds s := by
  have hdigits : ∀ c ∈ fmt08x m, isDigit 16 c = true := fun c hc => isDigit_of_mem_fmt08x hc
  have hlen : 8 ≤ (fmt08x m).length := by
    rw [length_fmt08x]
    exact Nat.le_max_left _ _
  rw [← digitsVal_fmt08x m] at hlt
  have hscan : scanFrom n (.num 16 keep :: ds) (fmt08x m ++ s) =
      (if keep then [.num (digitsVal 16 (fmt08x m))] else []) ++ scanFrom n ds s := by
    -- there are two digits at least, so there is no prefix
    cases hhex : fmt08x m with
    | nil =>
      rw [hhex] at hlen
      exact absurd hlen (by decide)
    | cons c r =>
      cases r with
      | nil =>
        rw [hhex, List.length_singleton] at hlen
        omega
      | cons x r =>
        rw [hhex] at hdigits hlt
        have hx := hdigits x (List.mem_cons_of_mem c List.mem_cons_self)
        refine scanFrom_num keep hdigits (List.cons_ne_nil _ _)
          (sign_of_isDigit (hdigits c List.mem_cons_self) _) (fun _ => ?_) hs hlt
        refine if_neg fun h => ?_
        rcases h.2 with rfl | rfl
        · exact absurd hx (by decide)
        · exact absurd hx (by decide)
  rw [hscan, digitsVal_fmt08x]

end Rules

end Crashinfo
