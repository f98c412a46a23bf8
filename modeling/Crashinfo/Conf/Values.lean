import Crashinfo.Conf.Literal
import Crashinfo.Conf.Reject

/-!
# Values that are numbers

`parse_int` and `parse_mapping_multi` leave their number to `strtol`, so they take
every literal.  What is stored passes through a `long`: an option that should be a
number from 0 to `INT_MAX` takes any other number too, an address is only what it
was written as if it is less than 2^63, and an address may be missing.
-/

namespace Crashinfo

open Token

/-- What stands behind the first `=`, without the white space around it. -/
def valueText (line : Str) : Str := trim isDelim (tailOf line)

/-! ### Literals and words -/

section Literal

variable {w : Str}

theorem not_literal_nil {n : Int} : ¬Literal [] n := by
  intro h
  cases h with
  | plain h => cases h

theorem Unsigned.word {n : Nat} (h : Unsigned w n) : Word isDelim w := by
  cases h with
  | decimal h0 h => exact ⟨List.cons_ne_nil _ _, fun d hd => isDelim_of_isDigit (h d hd)⟩
  | octal h =>
    refine ⟨List.cons_ne_nil _ _, List.forall_mem_cons.mpr ⟨by decide, fun d hd => ?_⟩⟩
    exact isDelim_of_isDigit (h d hd)
  | hex hx hs h =>
    refine ⟨List.cons_ne_nil _ _, List.forall_mem_cons.mpr ⟨by decide,
      List.forall_mem_cons.mpr ⟨?_, fun d hd => isDelim_of_isDigit (h d hd)⟩⟩⟩
    rcases hx with rfl | rfl
    · decide
    · decide

theorem Literal.word {n : Int} (h : Literal w n) : Word isDelim w := by
  cases h with
  | plain h => exact h.word
  | plus h =>
    exact ⟨List.cons_ne_nil _ _, List.forall_mem_cons.mpr ⟨by decide, h.word.plain⟩⟩
  | minus h =>
    exact ⟨List.cons_ne_nil _ _, List.forall_mem_cons.mpr ⟨by decide, h.word.plain⟩⟩

/-- White space in front of a literal is not part of a trimmed text. -/
theorem blank_eq_nil {v ws r : Str} (hv : Trimmed isDelim v) (hws : Blank isDelim ws)
    (heq : v = ws ++ r) : ws = [] := by
  cases ws with
  | nil => rfl
  | cons c ws =>
    have hc := hv.head c (by rw [heq]; rfl)
    rw [hws c List.mem_cons_self] at hc
    cases hc

/-- `strtol` takes the whole of a word just if that is a literal. -/
theorem strtol_eq_nil_iff (hw : Word isDelim w) : (strtol 0 w).2 = [] ↔ ∃ n, Literal w n := by
  constructor
  · intro hend
    rcases strtol_cases w with heq | ⟨ws, u, n, hws, hu, hsplit, -⟩
    · rw [heq] at hend
      exact absurd hend hw.ne_nil
    · rw [hend, List.append_nil] at hsplit
      obtain rfl := blank_eq_nil hw.trimmed hws hsplit
      rw [List.nil_append] at hsplit
      exact ⟨n, hsplit ▸ hu⟩
  · rintro ⟨n, h⟩
    have hread := strtol_literal h breaks_nil
    rw [List.append_nil] at hread
    rw [hread]

end Literal

/-! ### Integers -/

def Parser.asInt : (p : Parser) → p.Storage → Option Int
  | .int, v => some v
  | .enumExists, _ | .enumBool, _ | .enumLoglevel, _ | .string, _ | .stringMulti, _
  | .mappingMulti, _ => none

/-- **The manual on integers**: the value is a number that is not negative and fits,
and it is stored. -/
def StoresNumber (alloc : Bool) (s : ConfState) (k : Key) (line : Str) : Prop :=
  (Accepts alloc s line ↔ ∃ n, Literal (valueText line) n ∧ 0 ≤ n ∧ n ≤ intMax) ∧
    ∀ r n, parseLine alloc s line = .ok r → r.ret = 0 → Literal (valueText line) n →
      k.entry.parser.asInt (k.read r.state.conf) = some n

section Integer

variable {alloc : Bool} {s : ConfState} {k : Key} {line : Str} {ts : List Str}

theorem word_literal {p : Parser} (hp : p = .int) {w : Str} {n : Int} (h : Literal w n)
    (old : p.Storage) :
    (p.word w).isSome ∧ p.asInt ((p.word w).getD old) = some (toInt (toLong n)) := by
  subst hp
  have hread := strtol_literal h breaks_nil
  rw [List.append_nil] at hread
  rw [Parser.word, hread]
  exact ⟨rfl, rfl⟩

theorem literal_of_word {p : Parser} (hp : p = .int) {w : Str} (hw : Word isDelim w)
    (h : (p.word w).isSome) : ∃ n, Literal w n := by
  subst hp
  rw [Parser.word] at h
  split at h
  · rename_i hend
    exact (strtol_eq_nil_iff hw).mp hend
  · cases h

/-- **A number is stored as an `int`.** -/
theorem parseLine_literal (alloc : Bool) (s : ConfState) (hk : k.entry.parser = .int)
    (hwords : headWords line = k.name :: ts) {n : Int} (h : Literal (valueText line) n) :
    ∃ r, parseLine alloc s line = .ok r ∧ r.ret = 0 ∧
      k.entry.parser.asInt (k.read r.state.conf) = some (toInt (toLong n)) := by
  have htok : tokens isDelim (valueText line) = [valueText line] := tokens_word h.word
  have hblank : ¬Blank isDelim (tailOf line) := by
    intro hb
    rw [valueText, tokens_trim, tokens_of_blank hb] at htok
    cases htok
  have hp : k.entry.parser.TakesWord := by
    rw [hk]
    trivial
  obtain ⟨log, hparse⟩ := parse_words hp htok alloc k.name (k.read s.conf)
  obtain ⟨seen, log', hrun⟩ := parseOption_of_ok hparse
  obtain ⟨hsome, hval⟩ := word_literal hk h (k.read s.conf)
  refine ⟨_, (parseLine_option hwords hblank).trans hrun, if_pos ⟨hsome, rfl⟩, ?_⟩
  rw [Key.read_write]
  exact hval

/-- **Every number is taken**, and nothing else. -/
theorem accepts_integer (hk : k.entry.parser = .int) (hwords : headWords line = k.name :: ts) :
    Accepts alloc s line ↔ ∃ n, Literal (valueText line) n := by
  constructor
  · intro hacc
    have hp : k.entry.parser.TakesWord := by
      rw [hk]
      trivial
    rcases accepts_iff.mp hacc with hno | hcomment | ⟨j, us, hj, hblank, r, hparse, hret⟩
    · rw [hwords] at hno
      cases hno
    · obtain ⟨t, us, hus, ht⟩ := isComment_iff.mp hcomment
      rw [hwords] at hus
      exact absurd ((List.cons.inj hus).1 ▸ ht) k.plain_name.2
    · rw [hwords] at hj
      obtain rfl := Key.name_injective (List.cons.inj hj).1
      obtain ⟨-, -, -, -, htrim, -⟩ := exists_trim hblank
      obtain ⟨w, ws, htok⟩ := htrim.exists_tokens
      obtain ⟨log, hwordsParse⟩ := parse_words hp htok alloc k.name (k.read s.conf)
      rw [hwordsParse] at hparse
      cases hparse
      by_cases hone : (k.entry.parser.word w).isSome ∧ ws = []
      · obtain ⟨hsome, rfl⟩ := hone
        obtain ⟨-, -, -, -, hw, -⟩ := tokens_eq_singleton_iff.mp htok
        rw [valueText, htrim.eq_of_tokens htok]
        exact literal_of_word hk hw hsome
      · rw [if_neg hone] at hret
        cases hret
  · rintro ⟨n, h⟩
    obtain ⟨r, hrun, hret, -⟩ := parseLine_literal alloc s hk hwords h
    exact ⟨r, hrun, hret⟩

/-- **The code does what the manual says of integers** just if the value is no number,
or one that is not negative and fits. -/
theorem storesNumber_iff (hk : k.entry.parser = .int) (alloc : Bool) (s : ConfState)
    (hwords : headWords line = k.name :: ts) :
    StoresNumber alloc s k line ↔ ∀ n, Literal (valueText line) n → 0 ≤ n ∧ n ≤ intMax := by
  rw [StoresNumber, accepts_integer hk hwords]
  constructor
  · intro h n hn
    obtain ⟨m, hm, hrange⟩ := h.1.mp ⟨n, hn⟩
    rwa [hn.unique hm]
  · intro h
    refine ⟨⟨fun ⟨n, hn⟩ => ⟨n, hn, h n hn⟩, fun ⟨n, hn, _⟩ => ⟨n, hn⟩⟩, ?_⟩
    intro r n hrun hret hn
    obtain ⟨r', hrun', -, hval⟩ := parseLine_literal alloc s hk hwords hn
    rw [hrun] at hrun'
    cases hrun'
    obtain ⟨h0, hmax⟩ := h n hn
    have hint : IsInt n := ⟨by omega, by rw [intMax] at hmax; omega⟩
    rw [hval, toLong_of_isInt hint, toInt_of_isInt hint]

theorem storesNumber_hex :
    let s : ConfState := { conf := {}, seen := fun _ => 0 }
    StoresNumber true s .backtraceMaxDepth (lit "backtrace_max_depth = 0x20\n") ↔
      ∀ n, Literal (valueText (lit "backtrace_max_depth = 0x20\n")) n → 0 ≤ n ∧ n ≤ intMax :=
  storesNumber_iff rfl true _ (by decide : headWords _ = Key.name .backtraceMaxDepth :: [])

/-- A negative number is taken, and 2^32 is stored as 0. -/
theorem not_storesNumber :
    let s : ConfState := { conf := {}, seen := fun _ => 0 }
    ¬StoresNumber true s .coreBufferSize (lit "core_buffer_size = -1\n") ∧
      ¬StoresNumber true s .coreBufferSize (lit "core_buffer_size = 4294967296\n") := by
  intro s
  have hrange : ∀ {w : Str} {n : Int}, Literal w n → ¬(0 ≤ n ∧ n ≤ intMax) →
      ¬∃ n, Literal w n ∧ 0 ≤ n ∧ n ≤ intMax := by
    rintro w n hn hno ⟨m, hm, hm'⟩
    exact hno (hn.unique hm ▸ hm')
  have hneg : Literal (valueText (lit "core_buffer_size = -1\n")) (-1) := by
    have htext : valueText (lit "core_buffer_size = -1\n") = lit "-1" := by decide
    rw [htext]
    exact .minus (.decimal (by decide) (List.all_eq_true.mp (by decide)))
  have hbig : Literal (valueText (lit "core_buffer_size = 4294967296\n")) 4294967296 := by
    have htext : valueText (lit "core_buffer_size = 4294967296\n") = lit "4294967296" := by
      decide
    rw [htext]
    exact .plain (.decimal (by decide) (List.all_eq_true.mp (by decide)))
  constructor
  · intro h
    exact hrange hneg (by decide) (h.1.mp ⟨_, rfl, by decide⟩)
  · intro h
    exact hrange hbig (by decide) (h.1.mp ⟨_, rfl, by decide⟩)

end Integer

/-! ### Mappings -/

def IsMapping (value : Str) (addr : Int) (path : Str) : Prop :=
  ∃ a, value = a ++ ch ':' :: path ∧ Literal a addr

def IsEntry (value : Str) (addr : Nat) (path : Str) : Prop :=
  IsMapping value addr path ∧ addr < 2 ^ 64 ∧ path ≠ []

/-- **The manual on mappings**: `~` removes them, and `<addr>:<path>` adds one at the
end; nothing else is taken, nor changes anything. -/
def Decodes (maps : List (Nat × Str)) (value : Str) (ret : Int) (maps' : List (Nat × Str)) :
    Prop :=
  (value = lit "~" → ret = 0 ∧ maps' = []) ∧
    (∀ addr path, IsEntry value addr path → ret = 0 ∧ maps' = maps ++ [(addr, path)]) ∧
    (value ≠ lit "~" → (∀ addr path, ¬IsEntry value addr path) → ret ≠ 0 ∧ maps' = maps)

/-- What the manual and the code agree about: there is an address, and a path, and
the address is less than 2^63.  Without memory there is no new mapping. -/
def MappingWell (alloc : Bool) (value : Str) : Prop :=
  value ≠ lit "~" ∧
    if alloc then value.head? ≠ some (ch ':') ∧
      ∀ addr path, IsMapping value addr path → 0 ≤ addr ∧ addr < 2 ^ 63 ∧ path ≠ []
    else ∀ addr path, ¬IsEntry value addr path

section Mapping

variable {v : Str}

theorem breaks_colon (path : Str) : Breaks (ch ':' :: path) := breaks_cons (by decide) path

theorem IsMapping.strtol {addr : Int} {path : Str} (h : IsMapping v addr path) :
    strtol 0 v = (toLong addr, ch ':' :: path) := by
  obtain ⟨a, rfl, ha⟩ := h
  exact strtol_literal ha (breaks_colon path)

theorem IsMapping.unique {m n : Int} {p q : Str} (hm : IsMapping v m p) (hn : IsMapping v n q) :
    m = n ∧ p = q := by
  have hread := hm.strtol
  rw [hn.strtol] at hread
  obtain rfl := (List.cons.inj (Prod.mk.inj hread).2).2
  obtain ⟨a, rfl, ha⟩ := hm
  obtain ⟨b, hb, hb'⟩ := hn
  rw [List.append_cancel_right hb] at ha
  exact ⟨ha.unique hb', rfl⟩

/-- Where a number ends: there is none and a `:`, or one and a `:`, or no `:`. -/
theorem mapping_cases (hv : Trimmed isDelim v) :
    (v.head? = some (ch ':') ∧ strtol 0 v = (0, v)) ∨
      (v.head? ≠ some (ch ':') ∧ ∃ addr path, IsMapping v addr path) ∨
      v.head? ≠ some (ch ':') ∧ (strtol 0 v).2.head? ≠ some (ch ':') := by
  rcases strtol_cases v with heq | ⟨ws, w, n, hws, hw, hsplit, -⟩
  · by_cases hhead : v.head? = some (ch ':')
    · exact Or.inl ⟨hhead, heq⟩
    · rw [heq]
      exact Or.inr (Or.inr ⟨hhead, hhead⟩)
  · obtain rfl := blank_eq_nil hv hws hsplit
    rw [List.nil_append] at hsplit
    have hhead : v.head? ≠ some (ch ':') := by
      have hno : ∀ {s : Str}, s.head? = some (ch ':') → ¬∃ c ∈ s.head?, c = ch '+' ∨ c = ch '-' ∨
          isDigit 10 c = true := by
        rintro s hs ⟨c, hc, h⟩
        obtain rfl := Option.some.inj (hs.symm.trans hc)
        revert h
        decide
      intro hcolon
      refine hno hcolon ?_
      rw [hsplit]
      cases hw with
      | plain h =>
        obtain ⟨c, s, rfl, hc⟩ := h.head
        exact ⟨c, rfl, Or.inr (Or.inr hc)⟩
      | plus h => exact ⟨_, rfl, Or.inl rfl⟩
      | minus h => exact ⟨_, rfl, Or.inr (Or.inl rfl)⟩
    cases hend : (Crashinfo.strtol 0 v).2 with
    | nil => exact Or.inr (Or.inr ⟨hhead, nofun⟩)
    | cons c path =>
      rw [hend] at hsplit
      by_cases hc : c = ch ':'
      · exact Or.inr (Or.inl ⟨hhead, n, path, w, by rw [← hc]; exact hsplit, hw⟩)
      · exact Or.inr (Or.inr ⟨hhead, fun h => hc (Option.some.inj h)⟩)

theorem not_isMapping {addr : Int} {path : Str} (h : (strtol 0 v).2.head? ≠ some (ch ':')) :
    ¬IsMapping v addr path := by
  intro hm
  rw [hm.strtol] at h
  exact h rfl

theorem not_isMapping_of_none {addr : Int} {path : Str} (h : strtol 0 v = (0, v)) :
    ¬IsMapping v addr path := by
  intro hm
  have hread := hm.strtol
  rw [h] at hread
  obtain ⟨a, hsplit, ha⟩ := hm
  rw [(Prod.mk.inj hread).2] at hsplit
  have hnil := List.self_eq_append_left.mp hsplit
  exact not_literal_nil (hnil ▸ ha)

theorem decodes_rejected {maps : List (Nat × Str)} {ret : Int} (hret : ret ≠ 0) :
    Decodes maps v ret maps ↔ v ≠ lit "~" ∧ ∀ addr path, ¬IsEntry v addr path := by
  constructor
  · rintro ⟨hreset, hadd, -⟩
    exact ⟨fun h => hret (hreset h).1, fun addr path h => hret (hadd addr path h).1⟩
  · rintro ⟨hreset, hadd⟩
    exact ⟨fun h => absurd h hreset, fun addr path h => absurd h (hadd addr path),
      fun _ _ => ⟨hret, rfl⟩⟩

/-- The address that is stored is the one that was written. -/
theorem toLong_mod_eq_iff (addr : Nat) (h : addr < 2 ^ 64) :
    (toLong addr % 2 ^ 64).toNat = addr ↔ addr < 2 ^ 63 := by
  rw [toLong]
  constructor
  · intro heq
    by_contra hlarge
    have hmax : max (-2 ^ 63) (min (addr : Int) (2 ^ 63 - 1)) = 2 ^ 63 - 1 := by omega
    rw [hmax] at heq
    omega
  · intro hlt
    have hmin : max (-2 ^ 63) (min (addr : Int) (2 ^ 63 - 1)) = addr := by omega
    rw [hmin]
    omega

/-- A mapping that is taken is the one that was written, if it is to be taken at all. -/
theorem decodes_taken {maps : List (Nat × Str)} {addr : Int} {path : Str}
    (h : IsMapping v addr path) :
    Decodes maps v 0 (maps ++ [((toLong addr % 2 ^ 64).toNat, path)]) ↔
      v ≠ lit "~" ∧ 0 ≤ addr ∧ addr < 2 ^ 63 ∧ path ≠ [] := by
  have hreset : v ≠ lit "~" := by
    rintro rfl
    have hread := h.strtol
    revert hread
    have htilde : strtol 0 (lit "~") = (0, lit "~") := by decide
    rw [htilde]
    intro hread
    exact absurd (List.cons.inj (Prod.mk.inj hread).2).1 (by decide)
  rw [and_iff_right hreset]
  constructor
  · rintro ⟨-, hadd, hno⟩
    by_cases hentry : ∃ n q, IsEntry v n q
    · obtain ⟨n, q, hm, hlt, hq⟩ := hentry
      obtain ⟨rfl, rfl⟩ := h.unique hm
      have hsame := List.append_cancel_left (hadd n path ⟨hm, hlt, hq⟩).2
      have haddr := (Prod.mk.inj (List.cons.inj hsame).1).1
      have := (toLong_mod_eq_iff n hlt).mp haddr
      exact ⟨by omega, by omega, hq⟩
    · push Not at hentry
      exact absurd rfl (hno hreset hentry).1
  · rintro ⟨h0, hlt, hpath⟩
    obtain ⟨n, rfl⟩ := Int.eq_ofNat_of_zero_le h0
    have hentry : IsEntry v n path := ⟨h, by omega, hpath⟩
    refine ⟨fun h => absurd h hreset, fun n' q hq => ?_, fun _ hno => absurd hentry (hno n path)⟩
    obtain ⟨heq, rfl⟩ := h.unique hq.1
    obtain rfl := Int.ofNat.inj heq
    have haddr : (toLong (n : Int) % 2 ^ 64).toNat = n :=
      (toLong_mod_eq_iff n (by omega)).mpr (by omega)
    rw [haddr]
    exact ⟨rfl, rfl⟩

theorem parseMappingMulti_eq (hv : Trimmed isDelim v) (alloc : Bool) (keyword : Str)
    (maps : List (Nat × Str)) :
    ∃ log, parseMappingMulti alloc keyword v maps =
      .ok (if (strtol 0 v).2.head? = some (ch ':') ∧ alloc then
        ⟨0, maps ++ [(((strtol 0 v).1 % 2 ^ 64).toNat, (strtol 0 v).2.tail)], log⟩
      else ⟨-1, maps, log⟩) := by
  have hpath : chompSpace (strtol 0 v).2.tail = (strtol 0 v).2.tail := by
    rw [chompSpace_eq]
    exact hv.chomp_of_suffix ((List.tail_suffix _).trans (strtol_suffix 0 v))
  rw [parseMappingMulti]
  dsimp only
  by_cases hend : (strtol 0 v).2.head? = some (ch ':')
  · rw [if_neg (not_not.mpr hend), hpath]
    cases alloc with
    | true => exact ⟨[], by rw [if_pos rfl, if_pos ⟨hend, rfl⟩]⟩
    | false =>
      refine ⟨noMemory keyword, ?_⟩
      rw [if_neg Bool.false_ne_true, if_neg fun h => Bool.false_ne_true h.2]
  · rw [if_pos hend]
    exact ⟨_, by rw [if_neg fun h => hend h.1]⟩

/-- **A value is decoded as the manual says** just if the two agree about it. -/
theorem decodes_parseMappingMulti (hv : Trimmed isDelim v) {alloc : Bool} {keyword : Str}
    {maps : List (Nat × Str)} {r : Stored (List (Nat × Str))}
    (hr : parseMappingMulti alloc keyword v maps = .ok r) :
    Decodes maps v r.ret r.storage ↔ MappingWell alloc v := by
  obtain ⟨log, hrun⟩ := parseMappingMulti_eq hv alloc keyword maps
  rw [hrun] at hr
  obtain rfl := Except.ok.inj hr
  clear hr hrun
  have hfail : (-1 : Int) ≠ 0 := by decide
  rw [MappingWell]
  cases alloc with
  | false =>
    rw [if_neg fun h => Bool.false_ne_true h.2, if_neg Bool.false_ne_true]
    exact decodes_rejected hfail
  | true =>
    rw [if_pos rfl]
    rcases mapping_cases hv with ⟨hhead, hread⟩ | ⟨hhead, addr, path, hm⟩ | ⟨hhead, hend⟩
    · -- an address is missing, and the value is taken
      rw [if_pos ⟨by rw [hread]; exact hhead, rfl⟩]
      refine iff_of_false ?_ fun h => h.2.1 hhead
      rintro ⟨-, -, hno⟩
      refine (hno ?_ fun addr path h => ?_).1 rfl
      · rintro rfl
        exact absurd (Option.some.inj hhead) (by decide)
      · exact not_isMapping_of_none hread h.1
    · rw [hm.strtol, if_pos ⟨rfl, rfl⟩]
      refine (decodes_taken hm).trans (and_congr_right fun _ => ?_)
      constructor
      · rintro h
        refine ⟨hhead, fun n q hq => ?_⟩
        obtain ⟨rfl, rfl⟩ := hm.unique hq
        exact h
      · rintro ⟨-, h⟩
        exact h addr path hm
    · rw [if_neg fun h => hend h.1]
      refine (decodes_rejected hfail).trans (and_congr_right fun _ => ?_)
      refine iff_of_true (fun addr path h => not_isMapping hend h.1) ⟨hhead, fun addr path h => ?_⟩
      exact absurd h (not_isMapping hend)

end Mapping

section MappingLine

variable {line : Str} {ts : List Str}

/-- **The directive `proc_maps` does what the manual says** just if its value is not
`~`, and an address is there, and less than 2^63, and a path. -/
theorem parseLine_mapping_iff (alloc : Bool) (s : ConfState)
    (hwords : headWords line = Key.name .procMaps :: ts) :
    (∃ r, parseLine alloc s line = .ok r ∧
      Decodes s.conf.proc.maps (valueText line) r.ret r.state.conf.proc.maps) ↔
      MappingWell alloc (valueText line) := by
  by_cases hblank : Blank isDelim (tailOf line)
  · have htext : valueText line = [] := by
      rw [valueText, trim, List.dropWhile_eq_nil_iff.mpr hblank]
      rfl
    have hno : ∀ (addr : Int) (path : Str), ¬IsMapping [] addr path := by
      rintro addr path ⟨a, ha, -⟩
      exact List.append_ne_nil_of_right_ne_nil a (List.cons_ne_nil _ path) ha.symm
    obtain ⟨log, hrun⟩ : ∃ log, parseLine alloc s line = .ok { ret := 1, state := s, log := log } :=
      parseLine_fails hwords (Key.plain_name .procMaps).2 (Or.inl hblank)
    have hfail : (1 : Int) ≠ 0 := by decide
    rw [htext]
    refine iff_of_true ⟨_, hrun, (decodes_rejected hfail).mpr
      ⟨by decide, fun addr path h => hno addr path h.1⟩⟩ ⟨by decide, ?_⟩
    split
    · exact ⟨by decide, fun addr path h => absurd h (hno addr path)⟩
    · exact fun addr path h => hno addr path h.1
  · obtain ⟨-, -, -, -, htrim, -⟩ := exists_trim hblank
    obtain ⟨log, hparse⟩ := parseMappingMulti_eq htrim alloc (Key.name .procMaps) s.conf.proc.maps
    obtain ⟨seen, log', hrun⟩ := parseOption_of_ok (k := .procMaps) hparse
    rw [parseLine_option hwords hblank, hrun]
    constructor
    · rintro ⟨r, hr, hdec⟩
      cases hr
      exact (decodes_parseMappingMulti htrim hparse).mp hdec
    · intro hwell
      exact ⟨_, rfl, (decodes_parseMappingMulti htrim hparse).mpr hwell⟩

theorem parseLine_mapping_colon :
    let s : ConfState := { conf := {}, seen := fun _ => 0 }
    (∃ r, parseLine true s (lit "proc_maps = 0x7f01:/lib/a b:c\n") = .ok r ∧
      Decodes s.conf.proc.maps (valueText (lit "proc_maps = 0x7f01:/lib/a b:c\n")) r.ret
        r.state.conf.proc.maps) ↔
      MappingWell true (valueText (lit "proc_maps = 0x7f01:/lib/a b:c\n")) :=
  parseLine_mapping_iff true _ (by decide : headWords _ = Key.name .procMaps :: [])

/-- `~` is not taken; a mapping without an address is. -/
theorem not_decodes :
    let s : ConfState := { conf := { proc := { maps := [(1, lit "/a")] } }, seen := fun _ => 0 }
    (∀ r, parseLine true s (lit "proc_maps = ~") = .ok r →
      ¬Decodes s.conf.proc.maps (valueText (lit "proc_maps = ~")) r.ret r.state.conf.proc.maps) ∧
      ∀ r, parseLine true s (lit "proc_maps = :/b") = .ok r →
        ¬Decodes s.conf.proc.maps (valueText (lit "proc_maps = :/b")) r.ret
          r.state.conf.proc.maps := by
  intro s
  have hreset : (parseLine true s (lit "proc_maps = ~")).map Parsed.ret = .ok (-1) := by
    decide
  have hempty : (parseLine true s (lit "proc_maps = :/b")).map Parsed.ret = .ok 0 := by
    decide
  constructor
  · intro r hr hdec
    rw [hr] at hreset
    rw [Except.ok.inj hreset] at hdec
    exact absurd (hdec.1 (by decide)).1 (by decide)
  · intro r hr hdec
    rw [hr] at hempty
    rw [Except.ok.inj hempty] at hdec
    refine (hdec.2.2 (by decide) fun addr path h => ?_).1 rfl
    exact not_isMapping_of_none (by decide) h.1

end MappingLine

end Crashinfo
