import Crashinfo.Lib.Code
import Crashinfo.Basic

/-!
# Quoting for YAML

`info.c` writes every name it does not control through `fputy`: two double
quotes and between them `yaml_esc` of each byte.  `yaml_esc` answers with a
constant, or with a text it builds in a buffer of six bytes (`yaml_esc_buf_t`).

The reader side is written from what the escapes mean (`readEsc`): it takes one
byte off the front of a text and refuses a raw control character and a lone
double quote.  On ASCII the two sides form a `Coding.Quoted` code (`yamlCode`),
so what is quoted is read back.  A byte from `0x80` on is negative as a `char`;
`%02x` then prints eight digits, which neither fit the buffer
(`length_yamlEsc_high`) nor read back.
-/

namespace Crashinfo

def yamlEscBufSize : Nat := 6

/-- The string `yaml_esc` returns for the byte `c`. -/
def yamlEsc (c : Byte) : Str :=
  if c = ch '\n' then lit "\\n"
  else if c = ch '\t' then lit "\\t"
  else if c = ch '\r' then lit "\\r"
  else if c = ch '\\' then lit "\\\\"
  else if c = ch '"' then lit "\\\""
  else if isprint (sint c) then [c]
  else lit "\\x" ++ fmt02x (uint (sint c))

/-- What `fputy` puts into a stream for the string `s`. -/
def fputy (s : Str) : Str := ch '"' :: (s.flatMap yamlEsc ++ [ch '"'])

def SP : Str := List.replicate 23 (ch ' ')

/-- `spaces`; `sizeof` makes the first comparison one of numbers without a sign. -/
def spaces (length : Int) : Str :=
  if (length % 2 ^ 64).toNat ≥ 24 then SP
  else if length < 0 then []
  else SP.drop (24 - length.toNat - 1)

def FitsEscBuf (s : Str) : Prop := s.length + 1 ≤ yamlEscBufSize

instance (s : Str) : Decidable (FitsEscBuf s) := inferInstanceAs (Decidable (_ ≤ _))

/-! ### Reading the escapes -/

def readHex : Str → Option (Byte × Str)
  | h :: l :: t =>
    match hexVal h, hexVal l with
    | some a, some b => some (UInt8.ofNat (16 * a + b), t)
    | _, _ => none
  | _ => none

def readEscaped : Str → Option (Byte × Str)
  | [] => none
  | e :: t =>
    if e = ch 'n' then some (ch '\n', t)
    else if e = ch 't' then some (ch '\t', t)
    else if e = ch 'r' then some (ch '\r', t)
    else if e = ch '\\' then some (ch '\\', t)
    else if e = ch '"' then some (ch '"', t)
    else if e = ch 'x' then readHex t
    else none

def readEsc : Str → Option (Byte × Str)
  | [] => none
  | c :: t =>
    if c = ch '\\' then readEscaped t
    else if c = ch '"' then none
    else if isprint (sint c) then some (c, t)
    else none

theorem readHex_shorter {t : Str} {a : Byte} {rest : Str} (h : readHex t = some (a, rest)) :
    rest.length < t.length := by
  unfold readHex at h
  split at h
  · split at h
    · obtain ⟨-, rfl⟩ := Prod.mk.inj (Option.some.inj h)
      simp only [List.length_cons]
      omega
    · cases h
  · cases h

theorem readEscaped_shorter {t : Str} {a : Byte} {rest : Str}
    (h : readEscaped t = some (a, rest)) : rest.length < t.length := by
  cases t with
  | nil => cases h
  | cons e t =>
    have hlen : t.length < (e :: t).length := Nat.lt_succ_self _
    simp only [readEscaped] at h
    repeat' split at h
    all_goals first
      | (obtain ⟨-, rfl⟩ := Prod.mk.inj (Option.some.inj h); exact hlen)
      | exact Nat.lt_trans (readHex_shorter h) hlen
      | cases h

theorem readEsc_shorter {t : Str} {a : Byte} {rest : Str} (h : readEsc t = some (a, rest)) :
    rest.length < t.length := by
  cases t with
  | nil => cases h
  | cons c t =>
    have hlen : t.length < (c :: t).length := Nat.lt_succ_self _
    simp only [readEsc] at h
    repeat' split at h
    · exact Nat.lt_trans (readEscaped_shorter h) hlen
    · cases h
    · obtain ⟨-, rfl⟩ := Prod.mk.inj (Option.some.inj h)
      exact hlen
    · cases h

/-! ### The two sides agree on ASCII -/

theorem sint_of_lt {c : Byte} (h : c.toNat < 128) : sint c = c.toNat := if_pos h

theorem sint_of_le {c : Byte} (h : 128 ≤ c.toNat) : sint c = c.toNat - 256 :=
  if_neg (by omega)

/-- An ASCII byte that is not printed raw is written with two hex digits. -/
theorem hex_of_ascii {c : Byte} (h : c.toNat < 128) :
    fmt02x (uint (sint c)) = [digitChar (c.toNat / 16), digitChar (c.toNat % 16)] := by
  rw [sint_of_lt h, uint_of_nonneg (by omega) (by omega), Int.toNat_natCast,
    fmt02x_of_lt (by omega)]

theorem readHex_hex {c : Byte} (t : Str) :
    readHex (digitChar (c.toNat / 16) :: digitChar (c.toNat % 16) :: t) = some (c, t) := by
  have hc := c.toNat_lt
  rw [readHex, hexVal_digitChar (by omega), hexVal_digitChar (by omega)]
  simp only [Nat.div_add_mod, UInt8.ofNat_toNat]

/-- **One escape is read back**, whatever follows it. -/
theorem readEsc_yamlEsc {c : Byte} (h : c.toNat < 128) (rest : Str) :
    readEsc (yamlEsc c ++ rest) = some (c, rest) := by
  unfold yamlEsc
  split
  · rename_i hc; subst hc; rfl
  split
  · rename_i hc; subst hc; rfl
  split
  · rename_i hc; subst hc; rfl
  split
  · rename_i hc; subst hc; rfl
  split
  · rename_i hc; subst hc; rfl
  split
  · rename_i hb hq hp
    rw [List.singleton_append, readEsc, if_neg hb, if_neg hq, if_pos hp]
  · rw [hex_of_ascii h, List.append_assoc]
    exact readHex_hex rest

theorem head_yamlEsc (c : Byte) : (yamlEsc c).head? ≠ some (ch '"') := by
  unfold yamlEsc
  repeat' split
  · decide
  · decide
  · decide
  · decide
  · decide
  · rename_i hq _; simpa using hq
  · exact fun h => absurd (Option.some.inj h) (by decide)

def yamlCode : Coding.Quoted Byte Byte where
  enc := yamlEsc
  valid := fun c => c.toNat < 128
  read := readEsc
  read_enc := fun _ h rest => readEsc_yamlEsc h rest
  read_shorter := readEsc_shorter
  quote := ch '"'
  head_enc := fun c _ => head_yamlEsc c

theorem quoteAll_yamlCode (s : Str) : yamlCode.quoteAll s = fputy s := rfl

/-! ### The buffer -/

theorem fits_yamlEsc {c : Byte} (h : c.toNat < 128) : FitsEscBuf (yamlEsc c) := by
  unfold yamlEsc
  repeat' split
  · decide
  · decide
  · decide
  · decide
  · decide
  · exact Nat.le_of_ble_eq_true rfl
  · rw [hex_of_ascii h]
    exact Nat.le_of_ble_eq_true rfl

/-- The six digits that stand in front of every negative `char`. -/
theorem digits_high {n : Nat} (h : n < 256) :
    Numeral.digits 16 (0xffffff * 256 + n) = [15, 15, 15, 15, 15, 15, n / 16, n % 16] := by
  have h6 : Numeral.digits 16 0xffffff = [15, 15, 15, 15, 15, 15] := by
    simp [Numeral.digits]
  rw [Numeral.digits_of_le (by decide) (by omega), Numeral.digits_of_le (by decide) (by omega),
    show (0xffffff * 256 + n) / 16 / 16 = 0xffffff by omega, h6,
    show (0xffffff * 256 + n) / 16 % 16 = n / 16 by omega,
    show (0xffffff * 256 + n) % 16 = n % 16 by omega]
  rfl

/-- **A byte from `0x80` on is negative**, and `%02x` prints all of its 32 bits. -/
theorem yamlEsc_high {c : Byte} (h : 128 ≤ c.toNat) :
    yamlEsc c = lit "\\xffffff" ++ [digitChar (c.toNat / 16), digitChar (c.toNat % 16)] := by
  have hne : ∀ d : Byte, d.toNat < 128 → c ≠ d := by
    rintro d hd rfl
    omega
  have hlt := c.toNat_lt
  have hs : sint c = c.toNat - 256 := sint_of_le h
  have hu : uint (sint c) = 0xffffff * 256 + c.toNat := by
    rw [hs, uint]
    omega
  have hp : isprint (sint c) = false := by
    rw [hs, isprint, decide_eq_false_iff_not]
    omega
  rw [yamlEsc, if_neg (hne _ (by decide)), if_neg (hne _ (by decide)), if_neg (hne _ (by decide)),
    if_neg (hne _ (by decide)), if_neg (hne _ (by decide)), hp, if_neg (by decide), hu, fmt02x,
    Numeral.padded, digits_high hlt]
  rfl

theorem not_fits_yamlEsc {c : Byte} (h : 128 ≤ c.toNat) : ¬ FitsEscBuf (yamlEsc c) := by
  rw [yamlEsc_high h]
  exact Nat.not_le.mpr (Nat.le_of_ble_eq_true rfl)

/-- The first two of the eight digits are taken for the byte `0xff`. -/
theorem readEsc_yamlEsc_high {c : Byte} (h : 128 ≤ c.toNat) (rest : Str) :
    ∃ w, readEsc (yamlEsc c ++ rest) = some (255, w) := by
  rw [yamlEsc_high h]
  exact ⟨_, rfl⟩

theorem head_yamlEsc_high {c : Byte} (h : 128 ≤ c.toNat) (rest : Str) :
    ∃ w, yamlEsc c ++ rest = ch '\\' :: w := by
  rw [yamlEsc_high h]
  exact ⟨_, rfl⟩

/-! ### Nothing raw is written -/

theorem isprint_digitChar {d : Nat} (h : d < 16) : isprint (sint (digitChar d)) := by
  revert d
  decide

theorem isprint_fmt02x (n : Nat) : ∀ b ∈ fmt02x n, isprint (sint b) := by
  intro b hb
  obtain ⟨d, hd, rfl⟩ := List.mem_map.mp hb
  exact isprint_digitChar (Numeral.padded_lt (by decide) hd)

theorem isprint_all {s : Str} (h : s.all fun b => isprint (sint b)) :
    ∀ b ∈ s, isprint (sint b) :=
  List.all_eq_true.mp h

theorem isprint_yamlEsc (c : Byte) : ∀ b ∈ yamlEsc c, isprint (sint b) := by
  unfold yamlEsc
  split
  · exact isprint_all (by decide)
  split
  · exact isprint_all (by decide)
  split
  · exact isprint_all (by decide)
  split
  · exact isprint_all (by decide)
  split
  · exact isprint_all (by decide)
  split
  · rename_i hp
    intro b hb
    rw [List.mem_singleton.mp hb]
    exact hp
  · intro b hb
    have hx : ∀ d ∈ lit "\\x", isprint (sint d) := isprint_all (by decide)
    exact (List.mem_append.mp hb).elim (hx b) (isprint_fmt02x _ b)

theorem isprint_fputy (s : Str) : ∀ b ∈ fputy s, isprint (sint b) := by
  intro b hb
  rcases List.mem_cons.mp hb with rfl | hb
  · rfl
  rcases List.mem_append.mp hb with hb | hb
  · obtain ⟨c, -, hc⟩ := List.mem_flatMap.mp hb
    exact isprint_yamlEsc c b hc
  · rw [List.mem_singleton.mp hb]
    rfl

/-! ### When a string is quoted well -/

def Ascii (s : Str) : Prop := ∀ c ∈ s, c.toNat < 128

structure QuotesWell (s : Str) : Prop where
  /-- no escape overruns the buffer -/
  fits : ∀ c ∈ s, FitsEscBuf (yamlEsc c)
  /-- no raw control character -/
  printable : ∀ b ∈ fputy s, isprint (sint b)
  /-- one scalar, closed by the last quote, that means `s` -/
  readsBack : yamlCode.unquote (fputy s) = some s
  /-- no other string looks the same -/
  distinct : ∀ t, fputy t = fputy s → t = s

/-- A string that is not ASCII splits at its first byte from `0x80` on. -/
theorem exists_high_of_not_ascii : ∀ {s : Str}, ¬ Ascii s →
    ∃ a c b, s = a ++ c :: b ∧ Ascii a ∧ 128 ≤ c.toNat := by
  intro s
  induction s with
  | nil => intro h; exact absurd (fun c hc => by simp at hc) h
  | cons x s ih =>
    intro h
    by_cases hx : x.toNat < 128
    · have hs : ¬ Ascii s := by
        intro hs
        apply h
        intro c hc
        rcases List.mem_cons.mp hc with rfl | hc
        · exact hx
        · exact hs c hc
      obtain ⟨a, c, b, rfl, ha, hc⟩ := ih hs
      refine ⟨x :: a, c, b, rfl, ?_, hc⟩
      intro d hd
      rcases List.mem_cons.mp hd with rfl | hd
      · exact hx
      · exact ha d hd
    · exact ⟨[], x, s, rfl, fun c hc => by simp at hc, by omega⟩

/-- The text of a string that is not ASCII, if it is read at all, is read as a
string that is not ASCII either. -/
theorem not_ascii_of_unquote {s t : Str} (hs : ¬ Ascii s)
    (h : yamlCode.unquote (fputy s) = some t) : ¬ Ascii t := by
  obtain ⟨a, c, b, rfl, ha, hc⟩ := exists_high_of_not_ascii hs
  obtain ⟨w, hw⟩ := readEsc_yamlEsc_high hc (b.flatMap yamlEsc ++ [ch '"'])
  obtain ⟨v, hv⟩ := head_yamlEsc_high hc (b.flatMap yamlEsc ++ [ch '"'])
  have htext : fputy (a ++ c :: b)
      = yamlCode.quote :: (yamlCode.encAll a ++ (yamlEsc c ++ (b.flatMap yamlEsc ++ [ch '"']))) := by
    rw [fputy, List.flatMap_append, List.flatMap_cons, List.append_assoc, List.append_assoc]
    rfl
  have hread : yamlCode.unquote (fputy (a ++ c :: b))
      = ((yamlCode.readTo w).map (255 :: ·)).map (a ++ ·) := by
    rw [htext, yamlCode.unquote_cons, yamlCode.readTo_encAll a ha, hv,
      yamlCode.readTo_of_read (by decide) (by rw [← hv]; exact hw)]
  rw [hread] at h
  obtain ⟨u, hu, rfl⟩ := Option.map_eq_some_iff.mp h
  obtain ⟨x, -, rfl⟩ := Option.map_eq_some_iff.mp hu
  intro hascii
  exact absurd (hascii 255 (by simp)) (by decide)

/-- **A string is quoted well exactly when it is ASCII.** -/
theorem quotesWell_iff (s : Str) : QuotesWell s ↔ Ascii s := by
  constructor
  · intro h c hc
    by_contra hn
    exact not_fits_yamlEsc (by omega) (h.fits c hc)
  · intro h
    refine ⟨fun c hc => fits_yamlEsc (h c hc), isprint_fputy s, ?_, ?_⟩
    · rw [← quoteAll_yamlCode]
      exact yamlCode.unquote_quoteAll h
    · intro t ht
      have hu : yamlCode.unquote (fputy t) = some s := by
        rw [ht, ← quoteAll_yamlCode]
        exact yamlCode.unquote_quoteAll h
      by_cases hta : Ascii t
      · exact yamlCode.quoteAll_injOn hta h ht
      · exact absurd h (not_ascii_of_unquote hta hu)

/-- The byte `0x80` overruns the buffer: eleven bytes where six are. -/
theorem not_quotesWell_high : ¬ ∀ s : Str, 0 ∉ s → QuotesWell s := by
  intro h
  have h80 := (h [0x80] (by decide)).fits 0x80 (by simp)
  exact absurd h80 (by decide)

end Crashinfo
