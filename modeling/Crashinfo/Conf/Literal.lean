import Crashinfo.Conf.Number

/-!
# Integer literals

What `strtol` reads with the base 0 is an integer as C writes it, with or
without a sign.  The grammar says which texts these are and what numbers they
name, whatever their length; `strtol` reads just them (`strtol_literal`,
`strtol_cases`), up to the nearest number that is a `long`.
-/

namespace Crashinfo

open Token

def digitsVal (b : Nat) (s : Str) : Nat := Numeral.value b (s.filterMap digitVal)

inductive Unsigned : Str → Nat → Prop
  | decimal {c : Byte} {s : Str} (h0 : c ≠ ch '0') (h : ∀ d ∈ c :: s, isDigit 10 d = true) :
      Unsigned (c :: s) (digitsVal 10 (c :: s))
  | octal {s : Str} (h : ∀ d ∈ s, isDigit 8 d = true) : Unsigned (ch '0' :: s) (digitsVal 8 s)
  | hex {x : Byte} {s : Str} (hx : x = ch 'x' ∨ x = ch 'X') (hs : s ≠ [])
      (h : ∀ d ∈ s, isDigit 16 d = true) : Unsigned (ch '0' :: x :: s) (digitsVal 16 s)

/-- **A literal and its value.** -/
inductive Literal : Str → Int → Prop
  | plain {s : Str} {n : Nat} (h : Unsigned s n) : Literal s n
  | plus {s : Str} {n : Nat} (h : Unsigned s n) : Literal (ch '+' :: s) n
  | minus {s : Str} {n : Nat} (h : Unsigned s n) : Literal (ch '-' :: s) (-n)

def Breaks (r : Str) : Prop := ∀ c ∈ r.head?, digitVal c = none

theorem breaks_nil : Breaks [] := fun _ hc => absurd hc (Option.not_mem_none _)

theorem breaks_cons {c : Byte} (hc : digitVal c = none) (r : Str) : Breaks (c :: r) := by
  intro d hd
  rwa [← Option.some.inj hd]

/-! ### The parts of a number -/

theorem radix_of_ne {c : Byte} (h : c ≠ ch '0') (s : Str) : radix (c :: s) = (10, c :: s) := by
  cases s with
  | nil => rw [radix, if_neg h]
  | cons x s => rw [radix, if_neg h]

theorem radix_hex {x : Byte} {s : Str} (hx : x = ch 'x' ∨ x = ch 'X')
    (hs : s.head?.any (isDigit 16) = true) : radix (ch '0' :: x :: s) = (16, s) := by
  rw [radix, if_pos rfl, if_pos ⟨hx, hs⟩]

theorem radix_octal {s : Str} (hx : ∀ x ∈ s.head?, x ≠ ch 'x' ∧ x ≠ ch 'X') :
    radix (ch '0' :: s) = (8, ch '0' :: s) := by
  cases s with
  | nil => rw [radix, if_pos rfl]
  | cons x s =>
    obtain ⟨h1, h2⟩ := hx x rfl
    rw [radix, if_pos rfl, if_neg]
    intro h
    exact h.1.elim h1 h2

theorem radix_cases (t : Str) :
    (∃ x s, t = ch '0' :: x :: s ∧ (x = ch 'x' ∨ x = ch 'X') ∧ radix t = (16, s)) ∨
      (∃ s, t = ch '0' :: s ∧ radix t = (8, t)) ∨ (∀ c ∈ t.head?, c ≠ ch '0') ∧ radix t = (10, t) := by
  rcases t with _ | ⟨c, _ | ⟨x, s⟩⟩
  · exact Or.inr (Or.inr ⟨fun _ hc => absurd hc (Option.not_mem_none _), rfl⟩)
  · by_cases hc : c = ch '0'
    · rw [radix, if_pos hc, hc]
      exact Or.inr (Or.inl ⟨[], rfl, rfl⟩)
    · refine Or.inr (Or.inr ⟨fun d hd => ?_, radix_of_ne hc []⟩)
      rwa [← Option.some.inj hd]
  · by_cases hc : c = ch '0'
    · rw [radix, if_pos hc, hc]
      split
      · rename_i hx
        exact Or.inl ⟨x, s, rfl, hx.1, rfl⟩
      · exact Or.inr (Or.inl ⟨x :: s, rfl, rfl⟩)
    · refine Or.inr (Or.inr ⟨fun d hd => ?_, radix_of_ne hc (x :: s)⟩)
      rwa [← Option.some.inj hd]

theorem sign_cases (t : Str) :
    sign t = (false, t) ∨ (∃ s, t = ch '+' :: s ∧ sign t = (false, s)) ∨
      ∃ s, t = ch '-' :: s ∧ sign t = (true, s) := by
  cases t with
  | nil => exact Or.inl rfl
  | cons c s =>
    rw [sign]
    split
    · rename_i hc
      exact Or.inr (Or.inr ⟨s, by rw [hc], rfl⟩)
    split
    · rename_i hc
      exact Or.inr (Or.inl ⟨s, by rw [hc], rfl⟩)
    · exact Or.inl rfl

theorem digitVal_of_isDigit {b : Nat} {c : Byte} (h : isDigit b c = true) :
    ∃ d, digitVal c = some d ∧ d < b := by
  rw [isDigit, Option.any_eq_true] at h
  obtain ⟨d, hd, hlt⟩ := h
  exact ⟨d, hd, of_decide_eq_true hlt⟩

theorem filterMap_eq_nil_iff_of_digits {b : Nat} {s : Str} (h : ∀ c ∈ s, isDigit b c = true) :
    s.filterMap digitVal = [] ↔ s = [] := by
  constructor
  · intro hnil
    cases s with
    | nil => rfl
    | cons c s =>
      obtain ⟨d, hd, -⟩ := digitVal_of_isDigit (h c List.mem_cons_self)
      rw [List.filterMap_cons, hd] at hnil
      cases hnil
  · rintro rfl
    rfl

theorem digitsVal_zero_cons (b : Nat) (s : Str) : digitsVal b (ch '0' :: s) = digitsVal b s := by
  have hzero : (ch '0' :: s).filterMap digitVal = 0 :: s.filterMap digitVal := rfl
  rw [digitsVal, hzero, digitsVal, Numeral.value, Numeral.value, List.reverse_cons,
    Nat.ofDigits_append, Nat.ofDigits_singleton, Nat.mul_zero, Nat.add_zero]

theorem strtol_of {s t u : Str} {neg : Bool} {b : Nat}
    (hsign : sign (s.dropWhile fun c => isspace (sint c)) = (neg, t)) (hradix : radix t = (b, u)) :
    strtol 0 s =
      if u.takeWhile (isDigit b) = [] then (0, s)
      else (toLong (if neg then -(digitsVal b (u.takeWhile (isDigit b)) : Int)
        else digitsVal b (u.takeWhile (isDigit b))), u.dropWhile (isDigit b)) := by
  have hnil := filterMap_eq_nil_iff_of_digits fun c (hc : c ∈ u.takeWhile (isDigit b)) =>
    List.mem_takeWhile_imp hc
  rw [strtol, hsign]
  dsimp only
  rw [if_pos rfl, hradix]
  dsimp only
  simp only [hnil, digitsVal]

/-! ### Reading a literal -/

section Literal

variable {w r : Str}

/-- A literal in front of something else is digits in front of that. -/
theorem Unsigned.radix {n : Nat} (h : Unsigned w n) (hr : Breaks r) :
    ∃ b u, radix (w ++ r) = (b, u ++ r) ∧ u ≠ [] ∧ (∀ d ∈ u, isDigit b d = true) ∧
      n = digitsVal b u := by
  cases h with
  | @decimal c s h0 h => exact ⟨10, c :: s, radix_of_ne h0 (s ++ r), List.cons_ne_nil _ _, h, rfl⟩
  | @octal s h =>
    refine ⟨8, ch '0' :: s, radix_octal fun x hx => ?_, List.cons_ne_nil _ _,
      List.forall_mem_cons.mpr ⟨by decide, h⟩, (digitsVal_zero_cons 8 s).symm⟩
    have hletter : ∀ x, isDigit 8 x = true ∨ digitVal x = none → x ≠ ch 'x' ∧ x ≠ ch 'X' := by
      rintro x hx
      refine ⟨?_, ?_⟩
      · rintro rfl
        revert hx
        decide
      · rintro rfl
        revert hx
        decide
    cases s with
    | nil => exact hletter x (Or.inr (hr x hx))
    | cons d s =>
      rw [← Option.some.inj hx]
      exact hletter d (Or.inl (h d List.mem_cons_self))
  | @hex x s hx hs h =>
    cases s with
    | nil => exact absurd rfl hs
    | cons d s => exact ⟨16, d :: s, radix_hex hx (h d List.mem_cons_self), hs, h, rfl⟩

theorem Unsigned.head {n : Nat} (h : Unsigned w n) :
    ∃ c s, w = c :: s ∧ isDigit 10 c = true := by
  cases h with
  | decimal h0 h => exact ⟨_, _, rfl, h _ List.mem_cons_self⟩
  | octal h => exact ⟨_, _, rfl, by decide⟩
  | hex hx hs h => exact ⟨_, _, rfl, by decide⟩

/-- A digit is neither white space nor a sign, in no base. -/
theorem plain_of_isDigit {b : Nat} {c : Byte} (h : isDigit b c = true) :
    isDelim c = false ∧ c ≠ ch '-' ∧ c ≠ ch '+' ∧ c ≠ 0 := by
  have hplain : (digitVal c).isSome → isDelim c = false ∧ c ≠ ch '-' ∧ c ≠ ch '+' ∧ c ≠ 0 := by
    apply forall_byte (p := fun c => (digitVal c).isSome →
      isDelim c = false ∧ c ≠ ch '-' ∧ c ≠ ch '+' ∧ c ≠ 0)
    decide +kernel
  obtain ⟨d, hd, -⟩ := digitVal_of_isDigit h
  exact hplain (by rw [hd]; rfl)

theorem isDelim_of_isDigit {b : Nat} {c : Byte} (h : isDigit b c = true) : isDelim c = false :=
  (plain_of_isDigit h).1

theorem sign_of_isDigit {b : Nat} {c : Byte} (h : isDigit b c = true) (s : Str) :
    Crashinfo.sign ((c :: s).dropWhile isDelim) = (false, c :: s) := by
  obtain ⟨hdelim, hminus, hplus, -⟩ := plain_of_isDigit h
  rw [List.dropWhile_cons_of_neg (by rw [hdelim]; exact Bool.false_ne_true), Crashinfo.sign,
    if_neg hminus, if_neg hplus]

theorem Literal.sign {n : Int} (h : Literal w n) (r : Str) :
    ∃ (neg : Bool) (t : Str) (m : Nat), Unsigned t m ∧ n = (if neg then -(m : Int) else m) ∧
      sign ((w ++ r).dropWhile fun c => isspace (sint c)) = (neg, t ++ r) := by
  cases h with
  | @plain s m h =>
    refine ⟨false, w, m, h, rfl, ?_⟩
    obtain ⟨c, s, rfl, hc⟩ := h.head
    rw [funext isspace_sint]
    exact sign_of_isDigit hc (s ++ r)
  | @plus s m h => exact ⟨false, s, m, h, rfl, rfl⟩
  | @minus s m h => exact ⟨true, s, m, h, rfl, rfl⟩

/-- **`strtol` reads a literal**, and stops behind it. -/
theorem strtol_literal {n : Int} (h : Literal w n) (hr : Breaks r) :
    strtol 0 (w ++ r) = (toLong n, r) := by
  obtain ⟨neg, t, m, ht, rfl, hsign⟩ := h.sign r
  obtain ⟨b, u, hradix, hne, hdigits, rfl⟩ := ht.radix hr
  have hstop : ∀ c ∈ r.head?, isDigit b c = false := by
    intro c hc
    rw [isDigit, hr c hc]
    rfl
  obtain ⟨htake, hdrop⟩ := span_append hdigits hstop
  rw [strtol_of hsign hradix, htake, hdrop, if_neg hne]

theorem Literal.unique {m n : Int} (hm : Literal w m) (hn : Literal w n) : m = n := by
  obtain ⟨neg, t, i, ht, rfl, hsign⟩ := hm.sign []
  obtain ⟨neg', t', j, ht', rfl, hsign'⟩ := hn.sign []
  rw [hsign, List.append_nil, List.append_nil] at hsign'
  obtain ⟨rfl, rfl⟩ := Prod.mk.inj hsign'
  obtain ⟨b, u, hradix, -, -, rfl⟩ := ht.radix breaks_nil
  obtain ⟨b', u', hradix', -, -, rfl⟩ := ht'.radix breaks_nil
  rw [hradix, List.append_nil, List.append_nil] at hradix'
  obtain ⟨rfl, rfl⟩ := Prod.mk.inj hradix'
  rfl

/-- The prefix, with the digits behind it, is a literal. -/
theorem unsigned_of_radix {t u : Str} {b : Nat} (hradix : Crashinfo.radix t = (b, u))
    (hne : u.takeWhile (isDigit b) ≠ []) :
    ∃ w, Unsigned w (digitsVal b (u.takeWhile (isDigit b))) ∧ t = w ++ u.dropWhile (isDigit b) := by
  have hdigits : ∀ c ∈ u.takeWhile (isDigit b), isDigit b c = true :=
    fun c hc => List.mem_takeWhile_imp hc
  have hu := List.takeWhile_append_dropWhile (p := isDigit b) (l := u)
  rcases radix_cases t with ⟨x, s, rfl, hx, heq⟩ | ⟨s, rfl, heq⟩ | ⟨hhead, heq⟩
  · rw [hradix] at heq
    obtain ⟨rfl, rfl⟩ := Prod.mk.inj heq
    refine ⟨_, .hex hx hne hdigits, ?_⟩
    rw [List.cons_append, List.cons_append, hu]
  · rw [hradix] at heq
    obtain ⟨rfl, rfl⟩ := Prod.mk.inj heq
    have htake : (ch '0' :: s).takeWhile (isDigit 8) = ch '0' :: s.takeWhile (isDigit 8) :=
      List.takeWhile_cons_of_pos (by decide)
    rw [htake] at hdigits hu ⊢
    rw [digitsVal_zero_cons]
    exact ⟨_, .octal fun d hd => hdigits d (List.mem_cons_of_mem _ hd), hu.symm⟩
  · rw [hradix] at heq
    obtain ⟨rfl, rfl⟩ := Prod.mk.inj heq
    refine ⟨u.takeWhile (isDigit 10), ?_, hu.symm⟩
    cases hds : u.takeWhile (isDigit 10) with
    | nil => exact absurd hds hne
    | cons c s =>
      rw [hds] at hdigits hu
      refine .decimal (hhead c ?_) hdigits
      rw [← hu]
      rfl

/-- **What `strtol` reads is a literal**, if it reads anything. -/
theorem strtol_cases (s : Str) :
    strtol 0 s = (0, s) ∨ ∃ ws w n, Blank isDelim ws ∧ Literal w n ∧
      s = ws ++ (w ++ (strtol 0 s).2) ∧ (strtol 0 s).1 = toLong n := by
  have hskip : s = s.takeWhile isDelim ++ s.dropWhile fun c => isspace (sint c) := by
    rw [funext isspace_sint, List.takeWhile_append_dropWhile]
  have hblank : Blank isDelim (s.takeWhile isDelim) := fun c hc => List.mem_takeWhile_imp hc
  generalize hsign : sign (s.dropWhile fun c => isspace (sint c)) = p
  obtain ⟨neg, t⟩ := p
  generalize hradix : radix t = q
  obtain ⟨b, u⟩ := q
  rw [strtol_of hsign hradix]
  split
  · exact Or.inl rfl
  · rename_i hne
    obtain ⟨w, hw, ht⟩ := unsigned_of_radix hradix hne
    right
    rcases sign_cases (s.dropWhile fun c => isspace (sint c)) with heq | ⟨s', hs', heq⟩ |
      ⟨s', hs', heq⟩
    · rw [hsign] at heq
      obtain ⟨rfl, hst⟩ := Prod.mk.inj heq
      refine ⟨_, w, _, hblank, .plain hw, ?_, rfl⟩
      rw [← ht, hst]
      exact hskip
    · rw [hsign] at heq
      obtain ⟨rfl, rfl⟩ := Prod.mk.inj heq
      refine ⟨_, _, _, hblank, .plus hw, ?_, rfl⟩
      rw [List.cons_append, ← ht, ← hs']
      exact hskip
    · rw [hsign] at heq
      obtain ⟨rfl, rfl⟩ := Prod.mk.inj heq
      refine ⟨_, _, _, hblank, .minus hw, ?_, rfl⟩
      rw [List.cons_append, ← ht, ← hs']
      exact hskip

end Literal

/-! ### The base 10 -/

/-- **A literal in the base 10 and its value**, behind white space. -/
inductive Decimal : Str → Int → Prop
  | plain {ws ds : Str} (hws : Blank isDelim ws) (hne : ds ≠ [])
      (h : ∀ c ∈ ds, isDigit 10 c = true) : Decimal (ws ++ ds) (digitsVal 10 ds)
  | plus {ws ds : Str} (hws : Blank isDelim ws) (hne : ds ≠ [])
      (h : ∀ c ∈ ds, isDigit 10 c = true) : Decimal (ws ++ ch '+' :: ds) (digitsVal 10 ds)
  | minus {ws ds : Str} (hws : Blank isDelim ws) (hne : ds ≠ [])
      (h : ∀ c ∈ ds, isDigit 10 c = true) : Decimal (ws ++ ch '-' :: ds) (-(digitsVal 10 ds))

section Decimal

variable {s ds : Str} {neg : Bool} {n : Int}

/-- What `strtol` does with the base 10, step by step. -/
theorem strtol_ten (hsign : sign (s.dropWhile fun c => isspace (sint c)) = (neg, ds)) :
    strtol 10 s =
      if ds.takeWhile (isDigit 10) = [] then (0, s)
      else (toLong (if neg then -(digitsVal 10 (ds.takeWhile (isDigit 10)) : Int)
        else digitsVal 10 (ds.takeWhile (isDigit 10))), ds.dropWhile (isDigit 10)) := by
  have hnil := filterMap_eq_nil_iff_of_digits fun c (hc : c ∈ ds.takeWhile (isDigit 10)) =>
    List.mem_takeWhile_imp hc
  have hbase : (if (10 : Nat) = 0 then radix ds else (10, ds)) = (10, ds) := rfl
  rw [strtol, hsign]
  dsimp only
  rw [hbase]
  simp only [hnil, digitsVal]

theorem Decimal.sign (h : Decimal s n) :
    ∃ (neg : Bool) (ds : Str), sign (s.dropWhile fun c => isspace (sint c)) = (neg, ds) ∧
      ds ≠ [] ∧ (∀ c ∈ ds, isDigit 10 c = true) ∧
      n = if neg then -(digitsVal 10 ds : Int) else digitsVal 10 ds := by
  rw [funext isspace_sint]
  cases h with
  | @plain ws ds hws hne h =>
    refine ⟨false, ds, ?_, hne, h, rfl⟩
    rw [List.dropWhile_append_of_pos hws]
    cases ds with
    | nil => exact absurd rfl hne
    | cons c ds => exact sign_of_isDigit (h c List.mem_cons_self) ds
  | @plus ws ds hws hne h =>
    refine ⟨false, ds, ?_, hne, h, rfl⟩
    rw [List.dropWhile_append_of_pos hws]
    rfl
  | @minus ws ds hws hne h =>
    refine ⟨true, ds, ?_, hne, h, rfl⟩
    rw [List.dropWhile_append_of_pos hws]
    rfl

theorem decimal_of_sign (hsign : sign (s.dropWhile fun c => isspace (sint c)) = (neg, ds))
    (hne : ds ≠ []) (h : ∀ c ∈ ds, isDigit 10 c = true) :
    Decimal s (if neg then -(digitsVal 10 ds : Int) else digitsVal 10 ds) := by
  have hskip : s = s.takeWhile isDelim ++ s.dropWhile fun c => isspace (sint c) := by
    rw [funext isspace_sint, List.takeWhile_append_dropWhile]
  have hblank : Blank isDelim (s.takeWhile isDelim) := fun c hc => List.mem_takeWhile_imp hc
  rw [hskip]
  rcases sign_cases (s.dropWhile fun c => isspace (sint c)) with heq | ⟨u, hu, heq⟩ | ⟨u, hu, heq⟩
  · rw [hsign] at heq
    obtain ⟨rfl, hds⟩ := Prod.mk.inj heq
    rw [← hds]
    exact .plain hblank hne h
  · rw [hsign] at heq
    obtain ⟨rfl, rfl⟩ := Prod.mk.inj heq
    rw [hu]
    exact .plus hblank hne h
  · rw [hsign] at heq
    obtain ⟨rfl, rfl⟩ := Prod.mk.inj heq
    rw [hu]
    exact .minus hblank hne h

/-- **`strtol` reads a literal to its end.** -/
theorem strtol_decimal (h : Decimal s n) : strtol 10 s = (toLong n, []) := by
  obtain ⟨neg, ds, hsign, hne, hdigits, rfl⟩ := h.sign
  rw [strtol_ten hsign, List.takeWhile_eq_self_iff.mpr hdigits, if_neg hne,
    List.dropWhile_eq_nil_iff.mpr hdigits]

/-- **What `strtol` reads to its end is a literal**, if it is not empty. -/
theorem decimal_of_strtol (hne : s ≠ []) (h : (strtol 10 s).2 = []) : ∃ n, Decimal s n := by
  generalize hsign : sign (s.dropWhile fun c => isspace (sint c)) = p
  obtain ⟨neg, ds⟩ := p
  rw [strtol_ten hsign] at h
  split at h
  · exact absurd h hne
  · rename_i hds
    have hall : ∀ c ∈ ds, isDigit 10 c = true := List.dropWhile_eq_nil_iff.mp h
    rw [List.takeWhile_eq_self_iff.mpr hall] at hds
    exact ⟨_, decimal_of_sign hsign hds hall⟩

theorem Decimal.unique {m : Int} (hm : Decimal s m) (hn : Decimal s n) : m = n := by
  obtain ⟨neg, ds, hsign, -, -, rfl⟩ := hm.sign
  obtain ⟨neg', ds', hsign', -, -, rfl⟩ := hn.sign
  rw [hsign] at hsign'
  obtain ⟨rfl, rfl⟩ := Prod.mk.inj hsign'
  rfl

end Decimal

/-- What begins with a digit is read as the digits there are. -/
theorem strtol_digits {c : Byte} {s : Str} (hc : isDigit 10 c = true) :
    strtol 10 (c :: s) = (toLong (digitsVal 10 ((c :: s).takeWhile (isDigit 10))),
      (c :: s).dropWhile (isDigit 10)) := by
  have hsign : sign ((c :: s).dropWhile fun c => isspace (sint c)) = (false, c :: s) := by
    rw [funext isspace_sint]
    exact sign_of_isDigit hc s
  have hne : (c :: s).takeWhile (isDigit 10) ≠ [] := by
    rw [List.takeWhile_cons_of_pos hc]
    exact List.cons_ne_nil _ _
  rw [strtol_ten hsign, if_neg hne]
  rfl

theorem isDigit_of_mem_dec {n : Nat} {c : Byte} (h : c ∈ dec n) : isDigit 10 c = true := by
  obtain ⟨d, hd, rfl⟩ := List.mem_map.mp h
  exact isDigit_digitChar (by decide) (Numeral.digits_lt (by decide) hd)

/-- **`%d` and `strtol` with the base 10**, in front of something that is no digit. -/
theorem strtol_dec {r : Str} (n : Nat) (hr : ∀ c ∈ r.head?, isDigit 10 c = false) :
    strtol 10 (dec n ++ r) = (toLong n, r) := by
  have hdigits : ∀ c ∈ dec n, isDigit 10 c = true := fun c hc => isDigit_of_mem_dec hc
  cases hdec : dec n with
  | nil => exact absurd hdec (dec_ne_nil n)
  | cons c s =>
    have hc : isDigit 10 c = true := hdigits c (by rw [hdec]; exact List.mem_cons_self)
    obtain ⟨htake, hdrop⟩ := span_append hdigits hr
    rw [List.cons_append, strtol_digits hc, ← List.cons_append, ← hdec, htake, hdrop, digitsVal,
      value_dec]

end Crashinfo
