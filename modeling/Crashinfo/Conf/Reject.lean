import Crashinfo.Conf.Reference

/-!
# Directives that are rejected

A parser that takes one word stores what the word stands for, and then looks for
more words.  If there is one the directive is rejected, but the option keeps what
was stored.  No other parser stores anything it does not return 0 for, so this is
the only way a rejected directive leaves a trace.
-/

namespace Crashinfo

open Token

/-- What a word stands for, to a parser that takes one word. -/
def Parser.word : (p : Parser) → Str → Option p.Storage
  | .enumExists, w => parseEnumExists.lookup w
  | .enumBool, w => parseEnumBool.lookup w
  | .enumLoglevel, w => parseEnumLoglevel.lookup w
  | .int, w => if (strtol 0 w).2 = [] then some (toInt (strtol 0 w).1) else none
  | .string, _ => none
  | .stringMulti, _ => none
  | .mappingMulti, _ => none

def Parser.TakesWord : Parser → Prop
  | .enumExists | .enumBool | .enumLoglevel | .int => True
  | .string | .stringMulti | .mappingMulti => False

/-- **A directive with a word too many**, and with a word for the option that is not
what the option is. -/
def Spoils (c : Conf) (line : Str) : Prop :=
  ∃ (k : Key) (ts : List Str) (w w' : Str) (ws : List Str) (v : k.Storage),
    headWords line = k.name :: ts ∧ tokens isDelim (tailOf line) = w :: w' :: ws ∧
      k.entry.parser.word w = some v ∧ v ≠ k.read c

/-! ### One value -/

section Value

variable {value : Str}

theorem strtok_of_tokens {w : Str} {ws : List Str} (h : tokens isDelim value = w :: ws) :
    ∃ rest, strtok value = (some w, rest) ∧ tokens isDelim rest = ws := by
  rw [strtok]
  cases hn : next isDelim value with
  | none =>
    rw [tokens_of_blank (next_eq_none_iff.mp hn)] at h
    cases h
  | some p =>
    rw [(tokens_of_next hn).2] at h
    obtain ⟨rfl, rfl⟩ := List.cons.inj h
    exact ⟨p.2, rfl, rfl⟩

theorem parseEndline_fst (rest : Str) :
    (parseEndline rest).1 = if tokens isDelim rest = [] then 0 else -1 := by
  rw [parseEndline, strtok_fst]
  cases tokens isDelim rest with
  | nil => rfl
  | cons t ts => rfl

/-- **What a parser makes of words**: it stores what the first one stands for, and it
takes only one. -/
theorem parse_words {p : Parser} (hp : p.TakesWord) {w : Str} {ws : List Str}
    (htok : tokens isDelim value = w :: ws) (alloc : Bool) (keyword : Str) (old : p.Storage) :
    ∃ log, p.parse alloc keyword value old =
      .ok ⟨if (p.word w).isSome ∧ ws = [] then 0 else -1, (p.word w).getD old, log⟩ := by
  obtain ⟨rest, hs, rfl⟩ := strtok_of_tokens htok
  have henum : ∀ {α : Type} (table : List (Str × α)) (old : α),
      ∃ log, parseEnum table keyword value old =
        .ok ⟨if (table.lookup w).isSome ∧ tokens isDelim rest = [] then 0 else -1,
          (table.lookup w).getD old, log⟩ := by
    intro α table old
    rw [parseEnum, hs]
    dsimp only
    cases table.lookup w with
    | none => exact ⟨_, rfl⟩
    | some v =>
      refine ⟨(parseEndline rest).2, ?_⟩
      simp only [parseEndline_fst, Option.isSome_some, true_and]
      rfl
  cases p with
  | enumExists => exact henum _ old
  | enumBool => exact henum _ old
  | enumLoglevel => exact henum _ old
  | int =>
    show ∃ log, parseInt keyword value old = _
    rw [parseInt, hs, Parser.word]
    dsimp only
    by_cases hend : (strtol 0 w).2 = []
    · refine ⟨(parseEndline rest).2, ?_⟩
      rw [if_neg (not_not.mpr hend), if_pos hend]
      simp only [parseEndline_fst, Option.isSome_some, true_and]
      rfl
    · rw [if_pos hend, if_neg hend]
      exact ⟨_, rfl⟩
  | string => exact absurd hp id
  | stringMulti => exact absurd hp id
  | mappingMulti => exact absurd hp id

/-- **The other parsers** store nothing, or return 0. -/
theorem parse_text {p : Parser} (hp : ¬p.TakesWord) (keyword : Str) (old : p.Storage) :
    ∃ r, p.parse true keyword value old = .ok r ∧ (r.ret ≠ 0 → r.storage = old) := by
  cases p with
  | string =>
    show ∃ r, parseString true keyword value = .ok r ∧ _
    rw [parseString]
    split
    · exact ⟨_, rfl, fun h => absurd rfl h⟩
    · exact ⟨_, rfl, fun h => absurd rfl h⟩
  | stringMulti =>
    show ∃ r, parseStringMulti true keyword value old = .ok r ∧ _
    rw [parseStringMulti]
    split
    · exact ⟨_, rfl, fun h => absurd rfl h⟩
    · exact ⟨_, rfl, fun h => absurd rfl h⟩
  | mappingMulti =>
    show ∃ r, parseMappingMulti true keyword value old = .ok r ∧ _
    rw [parseMappingMulti]
    dsimp only
    split
    · exact ⟨_, rfl, fun _ => rfl⟩
    · exact ⟨_, rfl, fun h => absurd rfl h⟩
  | enumExists | enumBool | enumLoglevel | int => exact absurd trivial hp

/-- A word stands for something only where one word is taken. -/
theorem Parser.takesWord_of_word {p : Parser} {w : Str} {v : p.Storage} (h : p.word w = some v) :
    p.TakesWord := by
  cases p with
  | enumExists | enumBool | enumLoglevel | int => trivial
  | string | stringMulti | mappingMulti => cases h

end Value

/-! ### A line -/

section Line

variable {s : ConfState} {line : Str}

/-- **A rejected directive leaves a trace just if it spoils the option.**  There is
always an outcome. -/
theorem parseLine_keeps_iff (s : ConfState) (line : Str) :
    (∃ r, parseLine true s line = .ok r ∧ (r.ret ≠ 0 → r.state.conf = s.conf)) ↔
      ¬Spoils s.conf line := by
  constructor
  · rintro ⟨r, hr, hkeep⟩ ⟨k, ts, w, w', ws, v, hwords, htok, hv, hne⟩
    have hblank : ¬Blank isDelim (tailOf line) := by
      intro hb
      rw [tokens_of_blank hb] at htok
      cases htok
    rw [← tokens_trim] at htok
    obtain ⟨log, hparse⟩ := parse_words (Parser.takesWord_of_word hv) htok true k.name
      (k.read s.conf)
    obtain ⟨seen, log', hrun⟩ := parseOption_of_ok hparse
    rw [parseLine_option hwords hblank, hrun] at hr
    cases hr
    have hret : (if (k.entry.parser.word w).isSome ∧ w' :: ws = [] then (0 : Int) else -1) ≠ 0 := by
      rw [if_neg fun h => List.cons_ne_nil _ _ h.2]
      decide
    have hsame := congrArg (Key.read · k) (hkeep hret)
    rw [Key.read_write, hv] at hsame
    exact hne hsame
  · intro hno
    rcases parseLine_cases true s line with ⟨ret, log, hrun⟩ | ⟨k, ts, hwords, htrim, hrun⟩
    · exact ⟨_, hrun, fun _ => rfl⟩
    obtain ⟨r, hr, hkeep⟩ : ∃ r, k.entry.parser.parse true k.name (trim isDelim (tailOf line))
        (k.read s.conf) = .ok r ∧ (r.ret ≠ 0 → r.storage = k.read s.conf) := by
      by_cases hp : k.entry.parser.TakesWord
      · obtain ⟨w, ws, htok⟩ := htrim.exists_tokens
        obtain ⟨log, hparse⟩ := parse_words hp htok true k.name (k.read s.conf)
        refine ⟨_, hparse, fun hret => ?_⟩
        cases hv : k.entry.parser.word w with
        | none => rfl
        | some v =>
          rw [hv] at hret
          by_contra hne
          cases ws with
          | nil => exact hret rfl
          | cons w' ws =>
            rw [tokens_trim] at htok
            exact hno ⟨k, ts, w, w', ws, v, hwords, htok, hv, hne⟩
      · exact parse_text hp k.name _
    obtain ⟨seen, log, hopt⟩ := parseOption_of_ok hr
    refine ⟨_, hrun.trans hopt, fun hret => Conf.ext_read fun j => ?_⟩
    by_cases hj : j = k
    · rw [hj, Key.read_write, hkeep hret]
    · rw [Key.read_write_of_ne _ hj]

/-- A word too many, and the option is not what it was. -/
theorem parseLine_spoils :
    ¬∀ (s : ConfState) (line : Str) (r : Parsed), parseLine true s line = .ok r → r.ret ≠ 0 →
      r.state.conf = s.conf := by
  intro h
  let s : ConfState := { conf := {}, seen := fun _ => 0 }
  have hkeep : ∀ r, parseLine true s (lit "info_exists = keep all") = .ok r → r.ret ≠ 0 →
      r.state.conf = s.conf := h s _
  have hsame := hkeep _ rfl (by decide)
  revert hsame
  decide

end Line

end Crashinfo
