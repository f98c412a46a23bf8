import Crashinfo.Conf.Grammar
import Crashinfo.Main.Options

/-!
# The lines of a configuration file

What a configuration file is supposed to be is a list of lines, each with its
line end, that are given to `parse_line` one after the other.  `parse_file` does
the same with what `fgets` reads, and takes for too long what fills the buffer.
The two are one fold (`foldLines`) over different lists, and differ at the lines
that just fill the buffer and at long lines with a NUL (`Odd`).  Besides, the
number of a line is an `int` in the program, and it is counted on behind every
line.
-/

namespace Crashinfo

open Script Script.Run Lines

/-! ### What a file comes to -/

inductive Reason where
  | tooLong
  /-- `parse_line` does not return 0 -/
  | rejected
  deriving DecidableEq

inductive FileEnd where
  | done (s : ConfState)
  | failed (why : Reason) (linenum : Nat)
  | fault (f : Fault)

/-- Lines are given to `parse_line` up to the first one that is too long, or not
taken; each call gets what is next of `allocs`.  The line `last` is the last one
behind which they can be counted on. -/
def foldLines (tooLong : List Byte → Bool) (text : List Byte → Str) (last : Nat → Bool) :
    List Bool → ConfState → Nat → List (List Byte) → FileEnd
  | _, s, _, [] => .done s
  | allocs, s, linenum, line :: lines =>
    if tooLong line then .failed .tooLong linenum
    else
      match parseLine (allocs.headD true) s (text line) with
      | .error f => .fault f
      | .ok r =>
        if r.ret ≠ 0 then .failed .rejected linenum
        else if last linenum then .fault .overflow
        else foldLines tooLong text last allocs.tail r.state (linenum + 1) lines

/-- **What a file should come to.**  A line is too long if there is no room for it,
with its line end, and a NUL. -/
def foldFile (allocs : List Bool) (s : ConfState) (linenum : Nat) (lines : List (List Byte)) :
    FileEnd :=
  foldLines (fun line => decide (lineSize < line.length + 1)) cstr (fun _ => false) allocs s linenum
    lines

def foldChunks (allocs : List Bool) (s : ConfState) (linenum : Nat) (chunks : List Str) : FileEnd :=
  foldLines (fun line => decide (line.length = lineSize - 1)) id
    (fun linenum => decide ((linenum : Int) ≥ intMax)) allocs s linenum chunks

/-- The line has room and is taken for too long, or the other way round. -/
def Odd (line : List Byte) : Prop :=
  line.length = lineSize - 1 ∧ 0 ∉ line ∨ lineSize ≤ line.length ∧ 0 ∈ line.take (lineSize - 1)

/-- There is such a line, or one that is taken and whose number is `INT_MAX`, and all
the lines in front of it have room and are taken. -/
def OddReached : List Bool → ConfState → Nat → List (List Byte) → Prop
  | _, _, _, [] => False
  | allocs, s, linenum, line :: lines =>
    Odd line ∨ line.length < lineSize ∧ ∃ r, parseLine (allocs.headD true) s (cstr line) = .ok r ∧
      r.ret = 0 ∧
        ((linenum : Int) ≥ intMax ∨ OddReached allocs.tail r.state (linenum + 1) lines)

/-! ### Two folds -/

section Fold

variable {allocs : List Bool} {s : ConfState} {linenum : Nat}

def FileEnd.line : FileEnd → Option Nat
  | .failed _ n => some n
  | .done _ => none
  | .fault _ => none

/-- A fold ends at no line in front of the first one. -/
theorem foldLines_line {tooLong : List Byte → Bool} {text : List Byte → Str} {last : Nat → Bool}
    {lines : List (List Byte)} :
    ∀ n ∈ (foldLines tooLong text last allocs s linenum lines).line, linenum ≤ n := by
  induction lines generalizing allocs s linenum with
  | nil => exact fun n hn => absurd hn (Option.not_mem_none n)
  | cons line lines ih =>
    intro n hn
    rw [foldLines] at hn
    split at hn
    · exact Nat.le_of_eq (Option.some.inj hn)
    split at hn
    · exact absurd hn (Option.not_mem_none n)
    split at hn
    · exact Nat.le_of_eq (Option.some.inj hn)
    split at hn
    · exact absurd hn (Option.not_mem_none n)
    · exact Nat.le_of_succ_le (ih n hn)

/-- A line that is not too long does not end the fold as one. -/
theorem foldLines_ne {tooLong : List Byte → Bool} {text : List Byte → Str} {last : Nat → Bool}
    {line : List Byte} {lines : List (List Byte)} (h : tooLong line = false) :
    foldLines tooLong text last allocs s linenum (line :: lines) ≠ .failed .tooLong linenum := by
  rw [foldLines, if_neg (by rw [h]; exact Bool.false_ne_true)]
  split
  · intro heq
    cases heq
  split
  · intro heq
    cases heq
  split
  · intro heq
    cases heq
  · intro heq
    have hle := foldLines_line linenum (by rw [heq]; rfl)
    exact absurd hle (Nat.not_succ_le_self linenum)

theorem foldFile_ne_fault {lines : List (List Byte)} (f : Fault) :
    foldFile allocs s linenum lines ≠ .fault f := by
  rw [foldFile]
  induction lines generalizing allocs s linenum with
  | nil =>
    intro heq
    cases heq
  | cons line lines ih =>
    obtain ⟨r, hr⟩ := parseLine_total (allocs.headD true) s (cstr line)
    rw [foldLines, hr]
    dsimp only
    split
    · intro heq
      cases heq
    split
    · intro heq
      cases heq
    · exact ih

theorem foldChunks_full {chunk : List Byte} (hnul : 0 ∉ chunk)
    (hlen : chunk.length = lineSize - 1) (chunks : List Str) :
    foldChunks allocs s linenum (cstr chunk :: chunks) = .failed .tooLong linenum := by
  rw [foldChunks, foldLines, cstr_of_notMem hnul, if_pos (decide_eq_true hlen)]

/-- What is left of a chunk with a NUL does not fill the buffer. -/
theorem foldChunks_nul {chunk : List Byte} (hnul : 0 ∈ chunk)
    (hlen : chunk.length ≤ lineSize - 1) (chunks : List Str) :
    foldChunks allocs s linenum (cstr chunk :: chunks) ≠ .failed .tooLong linenum := by
  have := length_cstr_lt hnul
  apply foldLines_ne
  exact decide_eq_false (by omega)

theorem foldChunks_long_iff {line : List Byte} (hlong : lineSize ≤ line.length)
    (chunks : List Str) (lines : List (List Byte)) :
    foldChunks allocs s linenum (cstr (line.take (lineSize - 1)) :: chunks) =
        foldFile allocs s linenum (line :: lines) ↔
      ¬OddReached allocs s linenum (line :: lines) := by
  have hfile : foldFile allocs s linenum (line :: lines) = .failed .tooLong linenum := by
    rw [foldFile, foldLines, if_pos (decide_eq_true (by omega))]
  have hlen : (line.take (lineSize - 1)).length = lineSize - 1 := by
    rw [List.length_take]
    omega
  rw [hfile]
  by_cases hnul : 0 ∈ line.take (lineSize - 1)
  · refine iff_of_false (foldChunks_nul hnul (Nat.le_of_eq hlen) _) fun h => ?_
    exact h (Or.inl (Or.inr ⟨hlong, hnul⟩))
  · refine iff_of_true (foldChunks_full hnul hlen _) ?_
    rintro ((h | h) | h)
    · have := h.1
      have hsize : lineSize = 4096 := rfl
      omega
    · exact hnul h.2
    · exact absurd h.1 (Nat.not_lt.mpr hlong)

/-- At a line that there is room for, but for the NUL behind it. -/
theorem foldChunks_full_iff {line : List Byte} (hlen : line.length = lineSize - 1)
    (hnul : 0 ∉ line) (chunks : List Str) (lines : List (List Byte)) :
    foldChunks allocs s linenum (cstr line :: chunks) =
        foldFile allocs s linenum (line :: lines) ↔
      ¬OddReached allocs s linenum (line :: lines) := by
  rw [foldChunks_full hnul hlen]
  have hsize : lineSize = 4096 := rfl
  refine iff_of_false ?_ fun h => h (Or.inl (Or.inl ⟨hlen, hnul⟩))
  refine fun heq => foldLines_ne ?_ heq.symm
  exact decide_eq_false (by omega)

theorem foldChunks_short_iff {line : List Byte} (hroom : line.length < lineSize)
    (hodd : ¬Odd line) {chunks : List Str} {lines : List (List Byte)}
    (hrest : ∀ allocs s linenum, foldChunks allocs s linenum chunks =
      foldFile allocs s linenum lines ↔ ¬OddReached allocs s linenum lines) :
    foldChunks allocs s linenum (cstr line :: chunks) =
        foldFile allocs s linenum (line :: lines) ↔
      ¬OddReached allocs s linenum (line :: lines) := by
  have hlen : (cstr line).length ≠ lineSize - 1 := by
    intro heq
    have hle := length_cstr_le line
    refine hodd (Or.inl ⟨by omega, fun hmem => ?_⟩)
    have := length_cstr_lt hmem
    omega
  have hlong : ¬(lineSize < line.length + 1) := by omega
  rw [foldChunks, foldFile, foldLines, foldLines,
    if_neg (by simpa using hlen), if_neg (by simpa using hlong), OddReached,
    or_iff_right hodd, and_iff_right hroom, id]
  obtain ⟨r, hparse⟩ := parseLine_total (allocs.headD true) s (cstr line)
  rw [hparse]
  dsimp only
  by_cases hret : r.ret = 0
  · rw [if_neg (not_not.mpr hret), if_neg (not_not.mpr hret), if_neg Bool.false_ne_true]
    by_cases hlast : (linenum : Int) ≥ intMax
    · -- the number of the next line is no `int`
      rw [if_pos (decide_eq_true hlast)]
      refine iff_of_false (foldFile_ne_fault _).symm fun h => ?_
      exact h ⟨r, rfl, hret, Or.inl hlast⟩
    · rw [if_neg (by simpa using hlast)]
      refine (hrest allocs.tail r.state (linenum + 1)).trans (not_congr ?_)
      constructor
      · exact fun h => ⟨r, rfl, hret, Or.inr h⟩
      · rintro ⟨r', hr', -, h⟩
        cases hr'
        exact h.resolve_left hlast
  · rw [if_pos hret, if_pos hret]
    refine iff_of_true rfl ?_
    rintro ⟨r', hr', hret', -⟩
    cases hr'
    exact hret hret'

/-- **The two folds come to the same** just if no odd line is come to, and the lines
can be counted. -/
theorem foldChunks_eq_iff {n : Nat} {content : List Byte} (hn : content.length ≤ n) :
    foldChunks allocs s linenum (fgetsAll n content) =
        foldFile allocs s linenum (lines (ch '\n') content) ↔
      ¬OddReached allocs s linenum (lines (ch '\n') content) := by
  induction n generalizing allocs s linenum content with
  | zero =>
    obtain rfl := List.length_eq_zero_iff.mp (Nat.le_zero.mp hn)
    exact iff_of_true rfl id
  | succ n ih =>
    by_cases hs : content = []
    · subst hs
      exact iff_of_true rfl id
    rw [lines_eq hs]
    generalize hline : content.take (lineLen (ch '\n') content) = line
    by_cases hroom : line.length < lineSize
    · rw [fgetsAll_line hs n (by rw [hline]; omega), hline]
      by_cases hfull : line.length = lineSize - 1 ∧ 0 ∉ line
      · exact foldChunks_full_iff hfull.1 hfull.2 _ _
      · have hodd : ¬Odd line := by
          rintro (h | h)
          · exact hfull h
          · omega
        have hdrop : (content.drop (lineLen (ch '\n') content)).length ≤ n := by
          have := length_drop_lt hs (k := lineLen (ch '\n') content) (Nat.succ_pos _)
          omega
        exact foldChunks_short_iff hroom hodd fun _ _ _ => ih hdrop
    · have hlong : lineSize ≤ line.length := Nat.not_lt.mp hroom
      rw [fgetsAll_long hs n (by rw [hline]; exact hlong), hline]
      exact foldChunks_long_iff hlong _ _

end Fold

/-! ### The run of `parse_file` -/

def Answer.gives : Answer → Bool
  | .err _ => false
  | _ => true

def fatalMessage (path : Str) (linenum : Nat) : Message :=
  (.crit, lit "Fatal error while parsing " ++ path ++ lit ":" ++ fmtD linenum)

def tooLongMessage (text : Str) : Message := (.crit, lit "Line too long: " ++ text)

def Reason.Tells : Reason → Message → Prop
  | .tooLong, m => ∃ text, m = tooLongMessage text
  | .rejected, m => NotLong m.2

/-- What `parse_file` returns and logs, for each of the ends. -/
def Shows (path : Str) (res : Res Answer Fault Host (Option ConfState)) : FileEnd → Prop
  | .done s => ∃ h rest, res = .done (some s) h rest
  | .failed why n => ∃ h rest log m, res = .done none h rest ∧
      h.log = log ++ [m, fatalMessage path n] ∧ why.Tells m
  | .fault f => ∃ h, res = .stop (.fault f) h

section Run

variable {path : Str} {h : Host}

theorem fatalMessage_injective {m n : Nat} (heq : fatalMessage path m = fatalMessage path n) :
    m = n := by
  have htext := List.append_cancel_left (Prod.mk.inj heq).2
  have hdec : ∀ k : Nat, fmtD k = dec k := fun k => if_neg (by omega)
  rw [hdec, hdec] at htext
  rw [← value_dec m, htext, value_dec]

theorem Reason.unique {why why' : Reason} {m : Message} (h : why.Tells m) (h' : why'.Tells m) :
    why = why' := by
  have hno : ∀ text, ¬NotLong (tooLongMessage text).2 := by
    rintro text ⟨c, hc, hne⟩
    exact hne (Option.some.inj hc).symm
  cases why with
  | tooLong =>
    cases why' with
    | tooLong => rfl
    | rejected =>
      obtain ⟨text, rfl⟩ := h
      exact absurd h' (hno text)
  | rejected =>
    cases why' with
    | rejected => rfl
    | tooLong =>
      obtain ⟨text, rfl⟩ := h'
      exact absurd h (hno text)

/-- **What is shown tells the ends apart.** -/
theorem Shows.unique {res : Res Answer Fault Host (Option ConfState)} {e e' : FileEnd}
    (he : Shows path res e) (he' : Shows path res e') : e = e' := by
  cases e with
  | done s =>
    obtain ⟨h, rest, rfl⟩ := he
    cases e' with
    | done s' =>
      obtain ⟨h', rest', heq⟩ := he'
      cases heq
      rfl
    | failed why n =>
      obtain ⟨h', rest', log, m, heq, -⟩ := he'
      cases heq
    | fault f =>
      obtain ⟨h', heq⟩ := he'
      cases heq
  | failed why n =>
    obtain ⟨h, rest, log, m, rfl, hlog, hwhy⟩ := he
    cases e' with
    | done s' =>
      obtain ⟨h', rest', heq⟩ := he'
      cases heq
    | failed why' n' =>
      obtain ⟨h', rest', log', m', heq, hlog', hwhy'⟩ := he'
      cases heq
      have htail := (List.append_inj' (hlog.symm.trans hlog') rfl).2
      obtain ⟨rfl, hrest⟩ := List.cons.inj htail
      rw [Reason.unique hwhy hwhy', fatalMessage_injective (List.cons.inj hrest).1]
    | fault f =>
      obtain ⟨h', heq⟩ := he'
      cases heq
  | fault f =>
    obtain ⟨h, rfl⟩ := he
    cases e' with
    | done s' =>
      obtain ⟨h', rest', heq⟩ := he'
      cases heq
    | failed why n =>
      obtain ⟨h', rest', log, m, heq, -⟩ := he'
      cases heq
    | fault f' =>
      obtain ⟨h', heq⟩ := he'
      cases heq
      rfl

theorem runLine_eq (s : ConfState) (line : Str) (w : Answer) (o : List Answer) :
    runLine s line h (w :: o) =
      match parseLine w.gives s line with
      | .error f => .stop (.fault f) h
      | .ok r => .done (r.ret, r.state) { h with log := h.log ++ r.log } o := by
  have hask : runLine s line h (w :: o) =
      (match parseLine w.gives s line with
      | .error f => (fault f : HostRun (Int × ConfState))
      | .ok r => do
        modify fun h => { h with log := h.log ++ r.log }
        return (r.ret, r.state)) h o := by
    cases w <;> rfl
  rw [hask]
  cases parseLine w.gives s line with
  | error f => rfl
  | ok r => rfl

def LoopShows (res : Res Answer Fault Host (Except Nat ConfState)) : FileEnd → Prop
  | .done s => ∃ h rest, res = .done (.ok s) h rest
  | .failed why n => ∃ h rest log m, res = .done (.error n) h rest ∧ h.log = log ++ [m] ∧
      why.Tells m
  | .fault f => ∃ h, res = .stop (.fault f) h

/-- **The loop is the fold over what `fgets` reads.** -/
theorem fileLoop_shows {chunks : List Str} {s : ConfState} {n : Nat} {o : List Answer}
    (ho : chunks.length ≤ o.length) :
    LoopShows (fileLoop s n chunks h o) (foldChunks (o.map Answer.gives) s n chunks) := by
  induction chunks generalizing s n h o with
  | nil => exact ⟨h, o, rfl⟩
  | cons line lines ih =>
    rw [foldChunks, foldLines, fileLoop]
    by_cases hlong : line.length = lineSize - 1
    · rw [if_pos hlong, if_pos (decide_eq_true hlong)]
      exact ⟨_, o, h.log, _, rfl, rfl, _, rfl⟩
    · rw [if_neg hlong, if_neg (by simpa using hlong)]
      cases o with
      | nil => exact absurd ho (Nat.not_succ_le_zero _)
      | cons w o =>
        have hrun := runLine_eq (h := h) s line w o
        show LoopShows (Run.bind (runLine s line) _ h (w :: o)) _
        rw [Run.bind, hrun, List.map_cons, List.headD_cons, List.tail_cons, id]
        cases hparse : parseLine w.gives s line with
        | error f => exact ⟨h, rfl⟩
        | ok r =>
          dsimp only
          by_cases hret : r.ret = 0
          · rw [if_neg (not_not.mpr hret), if_neg (not_not.mpr hret)]
            by_cases hlast : (n : Int) ≥ intMax
            · rw [if_pos hlast, if_pos (decide_eq_true hlast)]
              exact ⟨_, rfl⟩
            · rw [if_neg hlast, if_neg (by simpa using hlast)]
              exact ih (Nat.le_of_succ_le_succ ho)
          · rw [if_pos hret, if_pos hret]
            obtain ⟨log, m, hlog, -, hm⟩ := parseLine_blames hparse hret
            refine ⟨_, o, h.log ++ log, m, rfl, ?_, hm⟩
            rw [List.append_assoc, ← hlog]

theorem length_fgetsAll (n : Nat) (content : List Byte) :
    (fgetsAll n content).length ≤ n := by
  induction n generalizing content with
  | zero => exact Nat.le_refl 0
  | succ n ih =>
    rw [fgetsAll]
    split
    · exact Nat.zero_le _
    · exact Nat.succ_le_succ (ih _)

def parseFileEnd (path : Str) (fd : Nat) : Except Nat ConfState → HostRun (Option ConfState)
  | .error linenum => do
    logmsg .crit (lit "Fatal error while parsing " ++ path ++ lit ":" ++ fmtD linenum)
    close fd
    return none
  | .ok s => do
    close fd
    return some s

theorem parseFile_shows (env : Env) (path : Str) (content : List Byte) (s : ConfState) (h : Host)
    {w : Answer} {o : List Answer} (hopen : w.gives = true) (ho : content.length ≤ o.length) :
    Shows path (parseFile env path content s h (w :: o))
      (foldChunks (o.map Answer.gives) s 1 (fgetsAll content.length content)) := by
  have hclose : ∀ (fd : Int) (h : Host), (h.close fd).log = h.log := by
    intro fd h
    rw [Host.close]
    split
    · rfl
    · rfl
  have hloop := fileLoop_shows (h := h.alloc ⟨.conf, false⟩) (s := s) (n := 1) (o := o)
    ((length_fgetsAll content.length content).trans ho)
  have hrun : parseFile env path content s h (w :: o) =
      (fileLoop s 1 (fgetsAll content.length content) >>= parseFileEnd path h.fds.free)
        (h.alloc ⟨.conf, false⟩) o := by
    cases w with
    | err e => cases hopen
    | ok => rfl
    | amount n => rfl
    | prepared p => rfl
    | thread a => rfl
    | status b n => rfl
  rw [hrun]
  show Shows path (Run.bind _ _ _ o) _
  rw [Run.bind]
  cases hend : foldChunks (o.map Answer.gives) s 1 (fgetsAll content.length content) with
  | done s' =>
    rw [hend] at hloop
    obtain ⟨h', rest, heq⟩ := hloop
    rw [heq]
    exact ⟨_, rest, rfl⟩
  | failed why n =>
    rw [hend] at hloop
    obtain ⟨h', rest, log, m, heq, hlog, hwhy⟩ := hloop
    rw [heq]
    refine ⟨_, rest, log, m, rfl, ?_, hwhy⟩
    show (Host.close _ _).log = _
    rw [hclose]
    show h'.log ++ [fatalMessage path n] = _
    rw [hlog, List.append_assoc]
    rfl
  | fault f =>
    rw [hend] at hloop
    obtain ⟨h', heq⟩ := hloop
    rw [heq]
    exact ⟨h', rfl⟩

/-- **`parse_file` is the fold of `parse_line` over the lines of the file** just if it
comes to no odd line, and to no line whose number is `INT_MAX`. -/
theorem parseFile_fold_iff (env : Env) (path : Str) (content : List Byte) (s : ConfState)
    (h : Host) {w : Answer} {o : List Answer} (hopen : w.gives = true)
    (ho : content.length ≤ o.length) :
    Shows path (parseFile env path content s h (w :: o))
        (foldFile (o.map Answer.gives) s 1 (lines (ch '\n') content)) ↔
      ¬OddReached (o.map Answer.gives) s 1 (lines (ch '\n') content) := by
  have hshows := parseFile_shows env path content s h hopen ho
  rw [← foldChunks_eq_iff (Nat.le_refl _)]
  constructor
  · exact fun hfile => hshows.unique hfile
  · intro heq
    rw [← heq]
    exact hshows

/-- Where all lines are short, and not too many, there is no odd one. -/
theorem not_oddReached {allocs : List Bool} {s : ConfState} {n : Nat} {ls : List (List Byte)}
    (hshort : ∀ l ∈ ls, l.length < lineSize - 1) (hfew : (n + ls.length : Int) ≤ intMax) :
    ¬OddReached allocs s n ls := by
  induction ls generalizing allocs s n with
  | nil => exact id
  | cons l ls ih =>
    obtain ⟨hl, hrest⟩ := List.forall_mem_cons.mp hshort
    rw [List.length_cons] at hfew
    rintro ((h | h) | ⟨-, r, -, -, h | h⟩)
    · omega
    · omega
    · omega
    · exact ih hrest (by omega) h

theorem parseFile_fold_short :
    let content := lit "core_exists = keep\n# end"
    let s : ConfState := { conf := {}, seen := fun _ => 0 }
    let o := List.replicate 24 Answer.ok
    Shows (lit "/c") (parseFile (Env.plain 42 none) (lit "/c") content s (Host.std []) (.ok :: o))
      (foldFile (o.map Answer.gives) s 1 (lines (ch '\n') content)) := by
  intro content s o
  have hlen : ∀ l ∈ lines (ch '\n') content, l.length < lineSize - 1 := by decide
  exact (parseFile_fold_iff _ _ content s _ rfl (by decide)).mpr
    (not_oddReached hlen (by decide))

/-- A comment that just fills the buffer, and a long line with a NUL. -/
theorem not_parseFile_fold :
    let s : ConfState := { conf := {}, seen := fun _ => 0 }
    let full := List.replicate 4094 (ch '#')
    let long := 0 :: List.replicate 4095 (ch '#')
    ∀ line ∈ [full, long], ∀ o : List Answer, line.length < o.length →
      ¬Shows (lit "/c") (parseFile (Env.plain 42 none) (lit "/c") (line ++ [ch '\n']) s
          (Host.std []) (.ok :: o))
        (foldFile (o.map Answer.gives) s 1 (lines (ch '\n') (line ++ [ch '\n']))) := by
  intro s full long line hline o ho hfile
  have hopen : Answer.gives .ok = true := rfl
  have hlen : (line ++ [ch '\n']).length ≤ o.length := by
    rw [List.length_append]
    exact ho
  have hshows := parseFile_shows (Env.plain 42 none) (lit "/c") _ s (Host.std []) hopen hlen
  have heq := hshows.unique hfile
  refine (foldChunks_eq_iff (Nat.le_refl _)).mp heq ?_
  have hhash : ∀ (n : Nat) (c : Byte), c ≠ ch '#' → c ∉ List.replicate n (ch '#') :=
    fun n c hc hmem => hc (List.eq_of_mem_replicate hmem)
  rcases List.mem_cons.mp hline with rfl | hline
  · rw [lines_append_cons (hhash _ _ (by decide))]
    refine Or.inl (Or.inl ⟨?_, ?_⟩)
    · rw [List.length_append, List.length_replicate]
      rfl
    · rw [List.mem_append, not_or]
      exact ⟨hhash _ _ (by decide), by decide⟩
  · rw [List.mem_singleton.mp hline, lines_append_cons]
    · refine Or.inl (Or.inr ⟨?_, List.mem_cons_self⟩)
      rw [List.length_append, List.length_cons, List.length_replicate]
      decide
    · rw [List.mem_cons, not_or]
      exact ⟨by decide, hhash _ _ (by decide)⟩

end Run

end Crashinfo
