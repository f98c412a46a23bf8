import Crashinfo.Conf.Parse

/-!
# The lines `parse_line` accepts

A line of the configuration is blank, or a comment, or a directive: a keyword, a
`=` and a value its parser accepts, with white space around each of them.
`parse_line` looks at the first word in front of the first `=` only, so it also
accepts a line without a word there, and one with more than one.
-/

namespace Crashinfo

open Token

def headWords (line : Str) : List Str := tokens isDelim (line.takeWhile (· ≠ ch '='))

def tailOf (line : Str) : Str := (line.dropWhile (· ≠ ch '=')).tail

/-- The first character that is not white space is `#`. -/
def IsComment (line : Str) : Prop := (line.dropWhile isDelim).head? = some (ch '#')

/-- `w1 option w2 '=' w3 value w4` -/
def IsDirective (k : Key) (value line : Str) : Prop :=
  ∃ w₁ w₂ w₃ w₄, Blank isDelim w₁ ∧ Blank isDelim w₂ ∧ Blank isDelim w₃ ∧ Blank isDelim w₄ ∧
    Trimmed isDelim value ∧ line = w₁ ++ (k.name ++ (w₂ ++ ch '=' :: (w₃ ++ (value ++ w₄))))

def Key.Takes (alloc : Bool) (s : ConfState) (k : Key) (value : Str) : Prop :=
  ∃ r, k.entry.parser.parse alloc k.name value (k.read s.conf) = .ok r ∧ r.ret = 0

def InGrammar (alloc : Bool) (s : ConfState) (line : Str) : Prop :=
  Blank isDelim line ∨ IsComment line ∨ ∃ k value, IsDirective k value line ∧ k.Takes alloc s value

/-- `parse_line` returns 0. -/
def Accepts (alloc : Bool) (s : ConfState) (line : Str) : Prop :=
  ∃ r, parseLine alloc s line = .ok r ∧ r.ret = 0

/-! ### The parts of a line -/

section Parts

variable {line : Str}

theorem takeWhile_append_eq {a : Str} (ha : ch '=' ∉ a) (b : Str) :
    (a ++ ch '=' :: b).takeWhile (· ≠ ch '=') = a := by
  have hall : ∀ c ∈ a, decide (c ≠ ch '=') = true := by
    intro c hc
    refine decide_eq_true ?_
    intro heq
    exact ha (heq ▸ hc)
  rw [List.takeWhile_append_of_pos hall, List.takeWhile_cons_of_neg (by simp), List.append_nil]

theorem tailOf_append_eq {a : Str} (ha : ch '=' ∉ a) (b : Str) : tailOf (a ++ ch '=' :: b) = b := by
  have hall : ∀ c ∈ a, decide (c ≠ ch '=') = true := by
    intro c hc
    refine decide_eq_true ?_
    intro heq
    exact ha (heq ▸ hc)
  rw [tailOf, List.dropWhile_append_of_pos hall, List.dropWhile_cons_of_neg (by simp)]
  rfl

theorem line_cases (line : Str) :
    ch '=' ∉ line ∧ line.takeWhile (· ≠ ch '=') = line ∧ line.dropWhile (· ≠ ch '=') = [] ∨
      ∃ a b, ch '=' ∉ a ∧ line = a ++ ch '=' :: b := by
  by_cases hmem : ch '=' ∈ line
  · obtain ⟨a, b, hl, ha⟩ := List.eq_append_cons_of_mem hmem
    exact Or.inr ⟨a, b, ha, hl⟩
  · have hall : ∀ c ∈ line, decide (c ≠ ch '=') = true := by
      intro c hc
      refine decide_eq_true ?_
      intro heq
      exact hmem (heq ▸ hc)
    exact Or.inl ⟨hmem, List.takeWhile_eq_self_iff.mpr hall, List.dropWhile_eq_nil_iff.mpr hall⟩

theorem notMem_of_blank {w : Str} (hw : Blank isDelim w) : ch '=' ∉ w := by
  intro hmem
  exact absurd (hw _ hmem) (by decide)

theorem headWords_append_eq {a : Str} (ha : ch '=' ∉ a) (b : Str) :
    headWords (a ++ ch '=' :: b) = tokens isDelim a := by
  rw [headWords, takeWhile_append_eq ha]

theorem blank_iff : Blank isDelim line ↔ headWords line = [] ∧ ch '=' ∉ line := by
  rcases line_cases line with ⟨hno, htake, -⟩ | ⟨a, b, ha, rfl⟩
  · rw [headWords, htake, tokens_eq_nil_iff]
    exact ⟨fun h => ⟨h, hno⟩, fun h => h.1⟩
  · refine iff_of_false (fun h => notMem_of_blank h (by simp)) fun h => h.2 (by simp)

theorem isComment_iff :
    IsComment line ↔ ∃ t ts, headWords line = t :: ts ∧ t.head? = some (ch '#') := by
  have hword : ∀ a : Str, (a.dropWhile isDelim).head? = some (ch '#') ↔
      ∃ t ts, tokens isDelim a = t :: ts ∧ t.head? = some (ch '#') := by
    intro a
    cases htok : tokens isDelim a with
    | nil =>
      rw [List.dropWhile_eq_nil_iff.mpr (tokens_eq_nil_iff.mp htok)]
      exact iff_of_false nofun fun ⟨_, _, h, _⟩ => nomatch h
    | cons t ts =>
      obtain ⟨c, ht, ha⟩ := head_dropWhile_of_tokens htok
      rw [ha, ← ht]
      exact ⟨fun h => ⟨t, ts, rfl, h⟩, fun ⟨_, _, h, hc⟩ => (List.cons.inj h).1 ▸ hc⟩
  rcases line_cases line with ⟨-, htake, -⟩ | ⟨a, b, ha, rfl⟩
  · rw [IsComment, headWords, htake, hword]
  · rw [IsComment, headWords_append_eq ha, ← hword, List.dropWhile_append]
    cases hd : a.dropWhile isDelim with
    | nil =>
      show ((ch '=' :: b).dropWhile isDelim).head? = _ ↔ _
      rw [List.dropWhile_cons_of_neg (by decide)]
      exact iff_of_false (fun h => absurd (Option.some.inj h) (by decide)) nofun
    | cons c r => exact Iff.rfl

/-- **A directive is one keyword in front of the first `=`, and its value is what is
left of the text behind it.** -/
theorem isDirective_iff {k : Key} {value : Str} : IsDirective k value line ↔
    headWords line = [k.name] ∧ ¬Blank isDelim (tailOf line) ∧ value = trim isDelim (tailOf line) := by
  constructor
  · rintro ⟨w₁, w₂, w₃, w₄, h₁, h₂, h₃, h₄, hv, rfl⟩
    have hhead : ch '=' ∉ w₁ ++ (k.name ++ w₂) := by
      rw [List.mem_append, List.mem_append, not_or, not_or]
      exact ⟨notMem_of_blank h₁, k.plain_name.1, notMem_of_blank h₂⟩
    have hline : w₁ ++ (k.name ++ (w₂ ++ ch '=' :: (w₃ ++ (value ++ w₄)))) =
        w₁ ++ (k.name ++ w₂) ++ ch '=' :: (w₃ ++ (value ++ w₄)) := by
      simp only [List.append_assoc]
    rw [hline, headWords_append_eq hhead, tailOf_append_eq hhead, trim_pad h₃ hv h₄]
    refine ⟨tokens_eq_singleton_iff.mpr ⟨w₁, w₂, h₁, h₂, k.word_name, rfl⟩, fun hb => ?_, rfl⟩
    exact hv.not_blank fun c hc => hb c (by simp [hc])
  · rintro ⟨hwords, hblank, rfl⟩
    rcases line_cases line with ⟨-, -, hdrop⟩ | ⟨a, b, ha, rfl⟩
    · rw [tailOf, hdrop] at hblank
      exact absurd nofun hblank
    · rw [headWords_append_eq ha] at hwords
      rw [tailOf_append_eq ha] at hblank ⊢
      obtain ⟨w₁, w₂, h₁, h₂, -, hsplit⟩ := tokens_eq_singleton_iff.mp hwords
      obtain ⟨w₃, w₄, h₃, h₄, hv, hb⟩ := exists_trim hblank
      refine ⟨w₁, w₂, w₃, w₄, h₁, h₂, h₃, h₄, hv, ?_⟩
      rw [← hb, hsplit, List.append_assoc, List.append_assoc]

end Parts

/-! ### What is accepted -/

section Lines

variable {alloc : Bool} {s : ConfState} {line : Str}

theorem valueOf_iff : (valueOf line = none ∨ valueOf line = some []) ↔
    Blank isDelim (tailOf line) := by
  rw [valueOf, tailOf]
  cases line.dropWhile (· ≠ ch '=') with
  | nil => exact iff_of_true (Or.inl rfl) nofun
  | cons c value =>
    dsimp only
    rw [Option.some.injEq, List.dropWhile_eq_nil_iff]
    exact or_iff_right nofun

theorem chompSpace_valueOf :
    chompSpace ((valueOf line).getD []) = trim isDelim (tailOf line) := by
  rw [chompSpace_eq, valueOf, tailOf]
  cases hd : line.dropWhile (· ≠ ch '=') with
  | nil => rfl
  | cons c value => rfl

/-- A line without a word in front of the `=`, or that begins with a comment. -/
theorem parseLine_skip (h : headWords line = [] ∨ IsComment line) :
    parseLine alloc s line = .ok { ret := 0, state := s } := by
  rw [parseLine, strtok_fst, ← headWords]
  rcases h with hno | hcomment
  · rw [hno]
    rfl
  · obtain ⟨t, ts, hwords, ht⟩ := isComment_iff.mp hcomment
    rw [hwords]
    dsimp only [List.head?_cons]
    rw [if_pos ht]

/-- A line whose first word is the keyword of an option. -/
theorem parseLine_option {k : Key} {ts : List Str} (hwords : headWords line = k.name :: ts)
    (hvalue : ¬Blank isDelim (tailOf line)) :
    parseLine alloc s line = parseOption alloc s k (trim isDelim (tailOf line)) := by
  rw [parseLine, strtok_fst, ← headWords, hwords]
  dsimp only [List.head?_cons]
  rw [if_neg k.plain_name.2, if_neg (valueOf_iff.not.mpr hvalue), Key.find_name,
    chompSpace_valueOf]

theorem parseLine_fails {t : Str} {ts : List Str} (hwords : headWords line = t :: ts)
    (ht : t.head? ≠ some (ch '#'))
    (hno : Blank isDelim (tailOf line) ∨ ∀ k : Key, k.name ≠ t) :
    ∃ log, parseLine alloc s line = .ok { ret := 1, state := s, log := log } := by
  rw [parseLine, strtok_fst, ← headWords, hwords]
  dsimp only [List.head?_cons]
  rw [if_neg ht]
  split
  · exact ⟨_, rfl⟩
  · rename_i hvalue
    rcases find_keywords (t := t) with ⟨k, -, hk⟩ | ⟨hfind, -⟩
    · rcases hno with hblank | hno
      · exact absurd (valueOf_iff.mpr hblank) hvalue
      · exact absurd hk (hno k)
    · rw [hfind]
      exact ⟨_, rfl⟩

/-- A line leaves everything as it was, or is about one option. -/
theorem parseLine_cases (alloc : Bool) (s : ConfState) (line : Str) :
    (∃ ret log, parseLine alloc s line = .ok { ret := ret, state := s, log := log }) ∨
      ∃ (k : Key) (ts : List Str), headWords line = k.name :: ts ∧
        Trimmed isDelim (trim isDelim (tailOf line)) ∧
        parseLine alloc s line = parseOption alloc s k (trim isDelim (tailOf line)) := by
  cases hwords : headWords line with
  | nil => exact Or.inl ⟨_, _, parseLine_skip (Or.inl hwords)⟩
  | cons t ts =>
    by_cases ht : t.head? = some (ch '#')
    · exact Or.inl ⟨_, _, parseLine_skip (Or.inr (isComment_iff.mpr ⟨t, ts, hwords, ht⟩))⟩
    by_cases hno : Blank isDelim (tailOf line) ∨ ∀ k : Key, k.name ≠ t
    · obtain ⟨log, hrun⟩ := parseLine_fails hwords ht hno
      exact Or.inl ⟨_, log, hrun⟩
    · push Not at hno
      obtain ⟨hvalue, k, rfl⟩ := hno
      obtain ⟨-, -, -, -, htrim, -⟩ := exists_trim hvalue
      exact Or.inr ⟨k, ts, rfl, htrim, parseLine_option hwords hvalue⟩

/-- **No parser faults** on a value that is not blank. -/
theorem Parser.parse_total (p : Parser) {keyword value : Str} (hvalue : ¬Blank isDelim value)
    (storage : p.Storage) : ∃ r, p.parse alloc keyword value storage = .ok r := by
  obtain ⟨⟨t, r⟩, hnext⟩ := Option.ne_none_iff_exists'.mp (next_eq_none_iff.not.mpr hvalue)
  have htok : strtok value = (some t, r) := by rw [strtok, hnext]
  have henum : ∀ {α : Type} (table : List (Str × α)) (x : α),
      ∃ r, parseEnum table keyword value x = .ok r := by
    intro α table x
    rw [parseEnum, htok]
    dsimp only
    split
    · exact ⟨_, rfl⟩
    · exact ⟨_, rfl⟩
  cases p with
  | enumExists => exact henum _ _
  | enumBool => exact henum _ _
  | enumLoglevel => exact henum _ _
  | int =>
    rw [Parser.parse, parseInt, htok]
    dsimp only
    split
    · exact ⟨_, rfl⟩
    · exact ⟨_, rfl⟩
  | string =>
    rw [Parser.parse, parseString]
    split_ifs
    · exact ⟨_, rfl⟩
    · exact ⟨_, rfl⟩
    · exact ⟨_, rfl⟩
  | stringMulti =>
    rw [Parser.parse, parseStringMulti]
    split_ifs
    · exact ⟨_, rfl⟩
    · exact ⟨_, rfl⟩
    · exact ⟨_, rfl⟩
  | mappingMulti =>
    rw [Parser.parse, parseMappingMulti]
    dsimp only
    split_ifs
    · exact ⟨_, rfl⟩
    · exact ⟨_, rfl⟩
    · exact ⟨_, rfl⟩

theorem parseOption_of_ok {k : Key} {value : Str} {r : Stored k.Storage}
    (h : k.entry.parser.parse alloc k.name value (k.read s.conf) = .ok r) :
    ∃ seen log, parseOption alloc s k value =
      .ok { ret := r.ret, state := { conf := k.write s.conf r.storage, seen := seen }, log := log } := by
  rw [parseOption, h]
  exact ⟨_, _, rfl⟩

theorem parseOption_of_error {k : Key} {value : Str} {f : Fault}
    (h : k.entry.parser.parse alloc k.name value (k.read s.conf) = .error f) :
    parseOption alloc s k value = .error f := by
  rw [parseOption, h]
  rfl

/-- **`parse_line` never faults.** -/
theorem parseLine_total (alloc : Bool) (s : ConfState) (line : Str) :
    ∃ r, parseLine alloc s line = .ok r := by
  rcases parseLine_cases alloc s line with ⟨ret, log, hrun⟩ | ⟨k, -, -, hvalue, hrun⟩
  · exact ⟨_, hrun⟩
  · have htotal : ∃ r, k.entry.parser.parse alloc k.name _ (k.read s.conf) = .ok r :=
      k.entry.parser.parse_total hvalue.not_blank _
    obtain ⟨r, hr⟩ := htotal
    obtain ⟨seen, log, hopt⟩ := parseOption_of_ok hr
    exact ⟨_, hrun.trans hopt⟩

theorem parseOption_accepts {k : Key} {value : Str} :
    (∃ r, parseOption alloc s k value = .ok r ∧ r.ret = 0) ↔ k.Takes alloc s value := by
  rw [Key.Takes]
  cases h : k.entry.parser.parse alloc k.name value (k.read s.conf) with
  | error f =>
    rw [parseOption_of_error h]
    constructor
    · intro ⟨r, hr, _⟩
      cases hr
    · intro ⟨r, hr, _⟩
      cases hr
  | ok r =>
    obtain ⟨seen, log, hopt⟩ := parseOption_of_ok h
    rw [hopt]
    constructor
    · intro ⟨r', hr, hret⟩
      cases hr
      exact ⟨r, rfl, hret⟩
    · intro ⟨r', hr, hret⟩
      cases hr
      exact ⟨_, rfl, hret⟩

theorem accepts_iff : Accepts alloc s line ↔
    headWords line = [] ∨ IsComment line ∨ ∃ (k : Key) (ts : List Str),
      headWords line = k.name :: ts ∧ ¬Blank isDelim (tailOf line) ∧
        k.Takes alloc s (trim isDelim (tailOf line)) := by
  have hskip : headWords line = [] ∨ IsComment line → Accepts alloc s line :=
    fun h => ⟨_, parseLine_skip h, rfl⟩
  cases hwords : headWords line with
  | nil => exact iff_of_true (hskip (Or.inl hwords)) (Or.inl rfl)
  | cons t ts =>
    rw [or_iff_right (List.cons_ne_nil t ts)]
    by_cases hcomment : IsComment line
    · exact iff_of_true (hskip (Or.inr hcomment)) (Or.inl hcomment)
    rw [or_iff_right hcomment]
    have ht : t.head? ≠ some (ch '#') := fun ht => hcomment (isComment_iff.mpr ⟨t, ts, hwords, ht⟩)
    have hfails : (Blank isDelim (tailOf line) ∨ ∀ k : Key, k.name ≠ t) →
        ¬Accepts alloc s line := by
      intro hno hacc
      obtain ⟨log, hrun⟩ : ∃ log, parseLine alloc s line = .ok { ret := 1, state := s, log := log } :=
        parseLine_fails hwords ht hno
      obtain ⟨r, hr, hret⟩ := hacc
      rw [hrun] at hr
      cases hr
      cases hret
    by_cases hvalue : Blank isDelim (tailOf line)
    · exact iff_of_false (hfails (Or.inl hvalue)) fun ⟨_, _, _, hno, _⟩ => hno hvalue
    by_cases hkey : ∃ k : Key, k.name = t
    · obtain ⟨k, rfl⟩ := hkey
      rw [Accepts, parseLine_option hwords hvalue, parseOption_accepts]
      constructor
      · exact fun h => ⟨k, ts, rfl, hvalue, h⟩
      · intro ⟨j, ts', hj, _, h⟩
        rwa [Key.name_injective (List.cons.inj hj).1]
    · rw [not_exists] at hkey
      refine iff_of_false (hfails (Or.inr hkey)) ?_
      exact fun ⟨k, _, hk, _⟩ => hkey k (List.cons.inj hk).1.symm

theorem inGrammar_iff : InGrammar alloc s line ↔
    (headWords line = [] ∧ ch '=' ∉ line) ∨ IsComment line ∨ ∃ k : Key,
      headWords line = [k.name] ∧ ¬Blank isDelim (tailOf line) ∧
        k.Takes alloc s (trim isDelim (tailOf line)) := by
  rw [InGrammar, blank_iff]
  refine or_congr_right (or_congr_right ⟨?_, ?_⟩)
  · intro ⟨k, value, hdir, htakes⟩
    obtain ⟨hwords, hvalue, rfl⟩ := isDirective_iff.mp hdir
    exact ⟨k, hwords, hvalue, htakes⟩
  · intro ⟨k, hwords, hvalue, htakes⟩
    exact ⟨k, _, isDirective_iff.mpr ⟨hwords, hvalue, rfl⟩, htakes⟩

/-- There is one word in front of the first `=`, or what there is does not lead to
an option that takes the value; with no word there is no `=` either. -/
def LineWell (alloc : Bool) (s : ConfState) (line : Str) : Prop :=
  match headWords line with
  | [] => ch '=' ∉ line
  | [_] => True
  | t :: _ => IsComment line ∨ Blank isDelim (tailOf line) ∨
      ∀ k : Key, k.name = t → ¬k.Takes alloc s (trim isDelim (tailOf line))

/-- **`parse_line` accepts the lines of the grammar**, and no others, exactly where
it has seen all words in front of the `=`.  A line that is blank or a comment
changes nothing. -/
theorem accepts_iff_inGrammar (alloc : Bool) (s : ConfState) (line : Str) :
    ((Accepts alloc s line ↔ InGrammar alloc s line) ∧
      (Blank isDelim line ∨ IsComment line → ∃ log,
        parseLine alloc s line = .ok { ret := 0, state := s, log := log })) ↔
      LineWell alloc s line := by
  have hkeep : Blank isDelim line ∨ IsComment line → ∃ log,
      parseLine alloc s line = .ok { ret := 0, state := s, log := log } := by
    intro h
    exact ⟨_, parseLine_skip (h.imp_left fun hb => (blank_iff.mp hb).1)⟩
  rw [and_iff_left hkeep, accepts_iff, inGrammar_iff, LineWell]
  match hwords : headWords line with
  | [] =>
    have hno : ¬IsComment line := by
      rw [isComment_iff, hwords]
      exact fun ⟨_, _, h, _⟩ => nomatch h
    have hdir : ¬∃ k : Key, [] = [k.name] ∧ ¬Blank isDelim (tailOf line) ∧
        k.Takes alloc s (trim isDelim (tailOf line)) := fun ⟨_, h, _⟩ => nomatch h
    simp only [hno, hdir, true_or, true_and, or_false, true_iff]
  | [t] =>
    refine iff_of_true (or_congr (iff_of_false nofun nofun) (or_congr_right ⟨?_, ?_⟩)) trivial
    · intro ⟨k, ts, hk, hrest⟩
      exact ⟨k, by rw [(List.cons.inj hk).1], hrest⟩
    · intro ⟨k, hk, hrest⟩
      exact ⟨k, [], hk, hrest⟩
  | t :: t' :: ts =>
    have hdir : ¬∃ k : Key, t :: t' :: ts = [k.name] ∧ ¬Blank isDelim (tailOf line) ∧
        k.Takes alloc s (trim isDelim (tailOf line)) := fun ⟨_, h, _⟩ => nomatch h
    have hopt : (∃ (k : Key) (us : List Str), t :: t' :: ts = k.name :: us ∧
        ¬Blank isDelim (tailOf line) ∧ k.Takes alloc s (trim isDelim (tailOf line))) ↔
        ¬(Blank isDelim (tailOf line) ∨
          ∀ k : Key, k.name = t → ¬k.Takes alloc s (trim isDelim (tailOf line))) := by
      rw [not_or]
      constructor
      · intro ⟨k, us, hk, hvalue, htakes⟩
        refine ⟨hvalue, fun hall => hall k ?_ htakes⟩
        exact (List.cons.inj hk).1.symm
      · intro ⟨hvalue, hall⟩
        push Not at hall
        obtain ⟨k, rfl, htakes⟩ := hall
        exact ⟨k, t' :: ts, rfl, hvalue, htakes⟩
    have hnil : ¬(t :: t' :: ts = []) := List.cons_ne_nil _ _
    show _ ↔ (IsComment line ∨ Blank isDelim (tailOf line) ∨
      ∀ k : Key, k.name = t → ¬k.Takes alloc s (trim isDelim (tailOf line)))
    rw [hopt]
    simp only [hnil, hdir, false_or, false_and, or_false]
    constructor
    · intro h
      by_contra hn
      exact hn (Or.inl (h.mp (Or.inr fun hb => hn (Or.inr hb))))
    · intro h
      exact ⟨fun hc => hc.elim id h.resolve_right, Or.inl⟩

/-- A line without an option, and one with a word too many, are accepted. -/
theorem not_accepts_iff_inGrammar :
    let s : ConfState := { conf := {}, seen := fun _ => 0 }
    (Accepts true s (lit "= 1") ∧ ¬InGrammar true s (lit "= 1")) ∧
      Accepts true s (lit "core_exists is = keep") ∧
        ¬InGrammar true s (lit "core_exists is = keep") := by
  intro s
  have hnone : headWords (lit "= 1") = [] := by decide
  have htwo : headWords (lit "core_exists is = keep") = [lit "core_exists", lit "is"] := by
    decide
  refine ⟨⟨⟨_, parseLine_skip (Or.inl hnone), rfl⟩, fun h => ?_⟩, ?_, fun h => ?_⟩
  · rcases inGrammar_iff.mp h with ⟨-, hno⟩ | hcomment | ⟨k, hk, -⟩
    · exact hno (by decide)
    · obtain ⟨t, ts, hwords, -⟩ := isComment_iff.mp hcomment
      rw [hnone] at hwords
      cases hwords
    · rw [hnone] at hk
      cases hk
  · refine accepts_iff.mpr (Or.inr (Or.inr ⟨.coreExists, [lit "is"], htwo, ?_, ?_⟩))
    · decide
    · exact ⟨_, rfl, by decide⟩
  · rcases inGrammar_iff.mp h with ⟨hwords, -⟩ | hcomment | ⟨k, hk, -⟩
    · rw [htwo] at hwords
      cases hwords
    · revert hcomment
      unfold IsComment
      decide
    · rw [htwo] at hk
      exact List.cons_ne_nil _ _ (List.cons.inj hk).2

end Lines

end Crashinfo
