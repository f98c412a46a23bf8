import Crashinfo.Basic

/-!
# The arguments of a program

The child of `spawn_proc` cuts the command into words, and fills `argv` up to
its last entry but one.  `@1` and `@2` are to stand for the two arguments
(`expandWord`), but the comparison is the wrong way round, it is made for the
entries behind the last word as well, and not for the first one.  So a command
with an argument only comes out right in freak cases (`ArgvRight`), and one
without them as long as it fits.
-/

namespace Crashinfo

def argvSize : Nat := 32

/-- `arg && strcmp(tok, mark)` -/
def replaces (arg : Option Str) (mark : Str) : Option Str → Except Fault Bool
  | none => if arg.isSome then .error .nullDeref else .ok false
  | some t => .ok (arg.isSome && decide (t ≠ mark))

/-- What becomes of a word, or of the NULL behind the last one. -/
def argvAt (arg1 arg2 tok : Option Str) : Except Fault (Option Str) := do
  if ← replaces arg1 (lit "@1") tok then return arg1
  else if ← replaces arg2 (lit "@2") tok then return arg2
  else return tok

def argvLoop (arg1 arg2 : Option Str) : Nat → Str → Except Fault (List (Option Str))
  | 0, _ => return []
  | n + 1, s => do
    let a ← argvAt arg1 arg2 (strtok s).1
    return a :: (← argvLoop arg1 arg2 n (strtok s).2)

def spawnArgv (cmd : Str) (arg1 arg2 : Option Str) : Except Fault (List (Option Str)) := do
  let args ← argvLoop arg1 arg2 (argvSize - 2) (strtok cmd).2
  return (strtok cmd).1 :: (args ++ [none])

def cmdWords (cmd : Str) : List Str := Token.tokens isDelim cmd

def expandWord (arg1 arg2 : Option Str) (t : Str) : Str :=
  if t = lit "@1" then arg1.getD t else if t = lit "@2" then arg2.getD t else t

def IsVector (argv : List (Option Str)) (ws : List Str) : Prop :=
  ∃ rest, argv = ws.map some ++ none :: rest

/-- A word behind the first one comes out as it should. -/
def WordRight (arg1 arg2 : Option Str) (t : Str) : Prop :=
  match arg1, arg2 with
  | none, none => True
  | some x, none => t = x
  | none, some y => t = y
  | some x, some y => if t = lit "@1" ∨ t = lit "@2" then x = y else t = x

/-- There are no arguments and the words fit, or there are as many words as fit
and the arguments change nothing that they should not. -/
def ArgvRight (arg1 arg2 : Option Str) (ws : List Str) : Prop :=
  arg1 = none ∧ arg2 = none ∧ ws.length < argvSize ∨
    ws.length + 1 = argvSize ∧ (∀ t ∈ ws.head?, expandWord arg1 arg2 t = t) ∧
      ∀ t ∈ ws.tail, WordRight arg1 arg2 t

/-! ### The entries -/

section Entries

variable {arg1 arg2 : Option Str}

/-- What the child makes of a word behind the first one. -/
def putWord (arg1 arg2 : Option Str) (t : Str) : Str :=
  if t = lit "@1" then arg2.getD t
  else arg1.getD (if t = lit "@2" then t else arg2.getD t)

theorem argvAt_some (t : Str) : argvAt arg1 arg2 (some t) = .ok (some (putWord arg1 arg2 t)) := by
  have hne : lit "@1" ≠ lit "@2" := by decide
  rw [putWord]
  by_cases h1 : t = lit "@1"
  · rw [if_pos h1]
    subst h1
    cases arg1 <;> cases arg2 <;> simp [argvAt, replaces, hne] <;> rfl
  · rw [if_neg h1]
    by_cases h2 : t = lit "@2"
    · cases arg1 <;> cases arg2 <;> simp [argvAt, replaces, h2] <;> rfl
    · cases arg1 <;> cases arg2 <;> simp [argvAt, replaces, h1, h2] <;> rfl

theorem argvAt_none (h : arg1.isSome ∨ arg2.isSome) :
    argvAt arg1 arg2 none = .error .nullDeref := by
  cases arg1 with
  | some x => rfl
  | none =>
    cases arg2 with
    | some y => rfl
    | none => exact absurd h (by decide)

theorem putWord_eq_iff (t : Str) :
    putWord arg1 arg2 t = expandWord arg1 arg2 t ↔ WordRight arg1 arg2 t := by
  unfold putWord expandWord WordRight
  have hne : lit "@2" ≠ lit "@1" := by decide
  cases arg1 with
  | none =>
    cases arg2 with
    | none => simp
    | some y =>
      by_cases h1 : t = lit "@1"
      · rw [if_pos h1, if_pos h1]
        exact eq_comm
      by_cases h2 : t = lit "@2"
      · rw [if_neg h1, if_neg h1, if_pos h2]
        simp [h2]
      · rw [if_neg h1, if_neg h1, if_neg h2]
        simp [h2, eq_comm]
  | some x =>
    cases arg2 with
    | none =>
      by_cases h1 : t = lit "@1"
      · rw [if_pos h1, if_pos h1]
        exact Iff.rfl
      · rw [if_neg h1, if_neg h1]
        simp [eq_comm]
    | some y =>
      by_cases h1 : t = lit "@1"
      · rw [if_pos h1, if_pos h1]
        simp [h1, eq_comm]
      by_cases h2 : t = lit "@2"
      · rw [if_neg h1, if_neg h1, if_pos h2]
        simp [h2]
      · rw [if_neg h1, if_neg h1, if_neg h2]
        simp [h1, h2, eq_comm]

/-- With words for all the entries, each is put in its place. -/
theorem argvLoop_of_le : ∀ (n : Nat) (s : Str), n ≤ (Token.tokens isDelim s).length →
    argvLoop arg1 arg2 n s =
      .ok (((Token.tokens isDelim s).take n).map fun t => some (putWord arg1 arg2 t)) := by
  intro n
  induction n with
  | zero => exact fun _ _ => rfl
  | succ n ih =>
    intro s hn
    cases hs : Token.next isDelim s with
    | none =>
      rw [Token.tokens_of_blank (Token.next_eq_none_iff.mp hs)] at hn
      exact absurd hn (Nat.not_succ_le_zero n)
    | some p =>
      obtain ⟨t, r⟩ := p
      rw [(Token.tokens_of_next hs).2] at hn ⊢
      rw [argvLoop, strtok, hs]
      dsimp only
      rw [argvAt_some, ih r (Nat.le_of_succ_le_succ hn)]
      rfl

/-- The NULL behind the last word is compared with `@1` or `@2`. -/
theorem argvLoop_of_lt (harg : arg1.isSome ∨ arg2.isSome) :
    ∀ (n : Nat) (s : Str), (Token.tokens isDelim s).length < n →
      argvLoop arg1 arg2 n s = .error .nullDeref := by
  intro n
  induction n with
  | zero => exact fun _ h => absurd h (Nat.not_lt_zero _)
  | succ n ih =>
    intro s hn
    cases hs : Token.next isDelim s with
    | none =>
      rw [argvLoop, strtok, hs]
      dsimp only
      rw [argvAt_none harg]
      rfl
    | some p =>
      obtain ⟨t, r⟩ := p
      rw [(Token.tokens_of_next hs).2, List.length_cons] at hn
      rw [argvLoop, strtok, hs]
      dsimp only
      rw [argvAt_some, ih r (Nat.lt_of_succ_lt_succ hn)]
      rfl

theorem argvLoop_none (n : Nat) : ∀ s : Str, argvLoop none none n s =
    .ok (((Token.tokens isDelim s).take n).map some ++
      List.replicate (n - (Token.tokens isDelim s).length) none) := by
  induction n with
  | zero => exact fun _ => by simp [argvLoop]; rfl
  | succ n ih =>
    intro s
    cases hs : Token.next isDelim s with
    | none =>
      have hnil : argvLoop none none n [] = .ok (List.replicate n none) := by
        rw [ih, Token.tokens_nil, List.take_nil, List.length_nil, Nat.sub_zero]
        rfl
      rw [Token.tokens_of_blank (Token.next_eq_none_iff.mp hs), argvLoop, strtok, hs]
      dsimp only
      rw [hnil]
      rfl
    | some p =>
      obtain ⟨t, r⟩ := p
      rw [(Token.tokens_of_next hs).2, argvLoop, strtok, hs]
      dsimp only
      rw [ih, List.length_cons, Nat.succ_sub_succ, List.take_succ_cons]
      rfl

end Entries

/-! ### The whole of it -/

section Whole

variable {cmd : Str} {arg1 arg2 : Option Str} {t : Str} {ts : List Str}

theorem strtok_of_words (hcmd : cmdWords cmd = t :: ts) :
    (strtok cmd).1 = some t ∧ Token.tokens isDelim (strtok cmd).2 = ts := by
  cases hs : Token.next isDelim cmd with
  | none =>
    rw [cmdWords, Token.tokens_of_blank (Token.next_eq_none_iff.mp hs)] at hcmd
    cases hcmd
  | some p =>
    obtain ⟨t', r⟩ := p
    rw [cmdWords, (Token.tokens_of_next hs).2] at hcmd
    obtain ⟨rfl, rfl⟩ := List.cons.inj hcmd
    rw [strtok, hs]
    exact ⟨rfl, rfl⟩

theorem spawnArgv_none (hcmd : cmdWords cmd = t :: ts) : spawnArgv cmd none none =
    .ok (some t :: (ts.take 30).map some ++ List.replicate (30 - ts.length) none ++ [none]) := by
  obtain ⟨hfirst, hrest⟩ := strtok_of_words hcmd
  rw [spawnArgv, argvLoop_none, hfirst, hrest]
  rfl

/-- With an argument, a command of less than 31 words is never started. -/
theorem spawnArgv_faults (harg : arg1.isSome ∨ arg2.isSome) (hcmd : cmdWords cmd = t :: ts)
    (hlen : ts.length < 30) : spawnArgv cmd arg1 arg2 = .error .nullDeref := by
  obtain ⟨hfirst, hrest⟩ := strtok_of_words hcmd
  rw [spawnArgv, argvLoop_of_lt harg _ _ (by rw [hrest]; exact hlen)]
  rfl

theorem spawnArgv_some (hcmd : cmdWords cmd = t :: ts) (hlen : 30 ≤ ts.length) :
    spawnArgv cmd arg1 arg2 =
      .ok (some t :: (ts.take 30).map (fun t => some (putWord arg1 arg2 t)) ++ [none]) := by
  obtain ⟨hfirst, hrest⟩ := strtok_of_words hcmd
  rw [spawnArgv, argvLoop_of_le _ _ (by rw [hrest]; exact hlen), hfirst, hrest]
  rfl

theorem IsVector.length_lt {argv : List (Option Str)} {ws : List Str} (h : IsVector argv ws) :
    ws.length < argv.length := by
  obtain ⟨rest, rfl⟩ := h
  rw [List.length_append, List.length_map, List.length_cons]
  omega

theorem isVector_iff {as : List (Option Str)} {ws : List Str} (hlen : as.length = ws.length)
    (rest : List (Option Str)) : IsVector (as ++ none :: rest) ws ↔ as = ws.map some := by
  constructor
  · rintro ⟨rest', h⟩
    exact (List.append_inj h (by rw [hlen, List.length_map])).1
  · rintro rfl
    exact ⟨rest, rfl⟩

/-- What stands in the places of the words is right just if each word is. -/
theorem map_putWord_iff (t : Str) (ts : List Str) :
    (some t :: ts.map fun t => some (putWord arg1 arg2 t)) =
      ((t :: ts).map (expandWord arg1 arg2)).map some ↔
    expandWord arg1 arg2 t = t ∧ ∀ t ∈ ts, WordRight arg1 arg2 t := by
  rw [List.map_map, List.map_cons, List.cons.injEq, List.map_inj_left]
  refine and_congr ?_ (forall₂_congr fun t _ => ?_)
  · exact ⟨fun h => (Option.some.inj h).symm, fun h => congrArg some h.symm⟩
  · rw [← putWord_eq_iff]
    exact Option.some_inj

/-- Without arguments the words are taken as they are, as long as they fit. -/
theorem spawnArgv_none_iff (hws : cmdWords cmd = t :: ts) :
    (∃ argv, spawnArgv cmd none none = .ok argv ∧
      IsVector argv ((t :: ts).map (expandWord none none))) ↔ ArgvRight none none (t :: ts) := by
  have hexpand : (t :: ts).map (expandWord none none) = t :: ts := by
    rw [show expandWord none none = id from funext fun t => by simp [expandWord], List.map_id]
  rw [spawnArgv_none hws, hexpand]
  constructor
  · rintro ⟨argv, hargv, hvec⟩
    cases hargv
    have := hvec.length_lt
    simp at this
    exact Or.inl ⟨rfl, rfl, by rw [argvSize, List.length_cons]; omega⟩
  · intro hright
    have hlen : ts.length ≤ 30 := by
      rcases hright with ⟨-, -, hlt⟩ | ⟨heq, -⟩
      · rw [argvSize, List.length_cons] at hlt
        omega
      · rw [argvSize, List.length_cons] at heq
        omega
    refine ⟨_, rfl, ?_⟩
    rw [List.take_of_length_le hlen]
    cases hn : 30 - ts.length with
    | zero => exact ⟨[], by simp⟩
    | succ n => exact ⟨List.replicate n none ++ [none], by simp [List.replicate_succ]⟩

/-- **The arguments of a command are its words, with the placeholders replaced,
just if they are `ArgvRight`.** -/
theorem spawnArgv_iff (cmd : Str) (arg1 arg2 : Option Str) (hcmd : cmdWords cmd ≠ []) :
    (∃ argv, spawnArgv cmd arg1 arg2 = .ok argv ∧
      IsVector argv ((cmdWords cmd).map (expandWord arg1 arg2))) ↔
    ArgvRight arg1 arg2 (cmdWords cmd) := by
  obtain ⟨t, ts, hws⟩ := List.exists_cons_of_ne_nil hcmd
  rw [hws]
  by_cases harg : arg1.isSome ∨ arg2.isSome
  · have hno : ¬(arg1 = none ∧ arg2 = none ∧ (t :: ts).length < argvSize) := by
      rintro ⟨rfl, rfl, -⟩
      exact absurd harg (by decide)
    rw [ArgvRight, or_iff_right hno, argvSize, List.length_cons]
    rcases Nat.lt_trichotomy ts.length 30 with hlen | hlen | hlen
    · rw [spawnArgv_faults harg hws hlen]
      constructor
      · rintro ⟨argv, hargv, -⟩
        cases hargv
      · rintro ⟨heq, -⟩
        omega
    · -- all entries but the last are words
      rw [spawnArgv_some hws (by omega), List.take_of_length_le (by omega)]
      have hiff : IsVector ((some t :: ts.map fun t => some (putWord arg1 arg2 t)) ++ [none])
          ((t :: ts).map (expandWord arg1 arg2)) ↔ _ := isVector_iff (by simp) []
      constructor
      · rintro ⟨argv, hargv, hvec⟩
        cases hargv
        obtain ⟨hhead, htail⟩ := (map_putWord_iff t ts).mp (hiff.mp hvec)
        exact ⟨by omega, fun t' ht' => Option.some.inj ht' ▸ hhead, htail⟩
      · rintro ⟨-, hhead, htail⟩
        exact ⟨_, rfl, hiff.mpr ((map_putWord_iff t ts).mpr ⟨hhead t rfl, htail⟩)⟩
    · rw [spawnArgv_some hws (by omega)]
      constructor
      · rintro ⟨argv, hargv, hvec⟩
        cases hargv
        have := hvec.length_lt
        simp at this
        omega
      · rintro ⟨heq, -⟩
        omega
  · have hnone : arg1 = none ∧ arg2 = none := by
      rw [not_or, Option.not_isSome_iff_eq_none, Option.not_isSome_iff_eq_none] at harg
      exact harg
    obtain ⟨rfl, rfl⟩ := hnone
    exact spawnArgv_none_iff hws

theorem spawnArgv_iff_filter :
    (∃ argv, spawnArgv (lit "gzip -9\n") none none = .ok argv ∧
      IsVector argv ((cmdWords (lit "gzip -9\n")).map (expandWord none none))) ↔
    ArgvRight none none (cmdWords (lit "gzip -9\n")) :=
  spawnArgv_iff (lit "gzip -9\n") none none (by decide)

/-- A notification with the name of the file for `@1`. -/
theorem not_spawnArgv_notify :
    ¬∃ argv, spawnArgv (lit "mail @1") (some (lit "/x")) none = .ok argv ∧
      IsVector argv ((cmdWords (lit "mail @1")).map (expandWord (some (lit "/x")) none)) := by
  have hrun : spawnArgv (lit "mail @1") (some (lit "/x")) none = .error .nullDeref := by rfl
  rintro ⟨argv, hargv, -⟩
  rw [hrun] at hargv
  cases hargv

end Whole

end Crashinfo
