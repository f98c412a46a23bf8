import Crashinfo.Lib.Lines
import Crashinfo.Log
import Crashinfo.Output.Expand

/-!
# Streams

`fgets` cuts what is in a file into the strings that a buffer has room for.

The thread that dumps the information writes to `run.info.output` through stdio,
and `logmsg` writes to the same stream.  What happens to the stream is a list of
`Event`; what comes out of it depends on the threshold `conf.log.info`
(`stream`).  A reader of the stream passes over empty lines and lines that begin
with `#` (`remaining`), which is what messages are supposed to be (`InPlace`).
-/

namespace Crashinfo

open Lines

/-! ### Reading -/

/-- The buffer of `parse_file`, and of `proc_dump`. -/
def lineSize : Nat := 4096

/-- What `fgets` puts into the buffer: a line with its newline, or as much of it
as there is room for. -/
def fgetsLen (s : List Byte) : Nat :=
  min ((s.takeWhile (· ≠ ch '\n')).length + 1) (lineSize - 1)

/-- The strings that `fgets` reads out of `s` one after the other, if there are
at most `n` of them. -/
def fgetsAll : Nat → List Byte → List Str
  | 0, _ => []
  | n + 1, s =>
    if s = [] then [] else cstr (s.take (fgetsLen s)) :: fgetsAll n (s.drop (fgetsLen s))

theorem length_cstr_le (l : List Byte) : (cstr l).length ≤ l.length :=
  (List.takeWhile_prefix _).length_le

theorem length_cstr_lt {l : List Byte} (h : 0 ∈ l) : (cstr l).length < l.length := by
  refine Nat.lt_of_le_of_ne (length_cstr_le l) fun heq => ?_
  have hall := (List.takeWhile_prefix fun b : Byte => decide (b ≠ 0)).eq_of_length heq
  have hzero := List.takeWhile_eq_self_iff.mp hall 0 h
  exact absurd rfl (of_decide_eq_true hzero)

theorem cstr_of_notMem {l : List Byte} (h : 0 ∉ l) : cstr l = l := by
  refine List.takeWhile_eq_self_iff.mpr fun c hc => decide_eq_true ?_
  rintro rfl
  exact h hc

section Fgets

variable {n : Nat} {s : List Byte}

theorem fgetsAll_eq (n : Nat) (s : List Byte) :
    fgetsAll n s = (pieces (ch '\n') (lineSize - 1) n s).map cstr := by
  induction n generalizing s with
  | zero => rfl
  | succ n ih =>
    rw [fgetsAll, pieces]
    split
    · rfl
    · rw [ih, List.map_cons]
      rfl

/-- **A line that has room in the buffer is read as a whole.** -/
theorem fgetsAll_line (hs : s ≠ []) (n : Nat)
    (hroom : (s.take (lineLen (ch '\n') s)).length ≤ lineSize - 1) :
    fgetsAll (n + 1) s = cstr (s.take (lineLen (ch '\n') s)) ::
      fgetsAll n (s.drop (lineLen (ch '\n') s)) := by
  rw [fgetsAll_eq, pieces_line hs n hroom, List.map_cons, fgetsAll_eq]

/-- Of a longer line the buffer gets the first characters. -/
theorem fgetsAll_long (hs : s ≠ []) (n : Nat)
    (hlong : lineSize ≤ (s.take (lineLen (ch '\n') s)).length) :
    fgetsAll (n + 1) s = cstr ((s.take (lineLen (ch '\n') s)).take (lineSize - 1)) ::
      fgetsAll n (s.drop (lineSize - 1)) := by
  rw [fgetsAll_eq, pieces_long hs n (Nat.lt_of_lt_of_le (by decide) hlong), List.map_cons,
    fgetsAll_eq]

/-- **Where every line has room, `fgets` reads the lines.** -/
theorem fgetsAll_eq_lines (hn : s.length ≤ n)
    (hroom : ∀ l ∈ lines (ch '\n') s, l.length < lineSize) :
    fgetsAll n s = (lines (ch '\n') s).map cstr := by
  rw [fgetsAll_eq, pieces_eq_lines hn fun l hl => Nat.le_sub_one_of_lt (hroom l hl)]

/-- **A line that has no room makes more strings than lines.** -/
theorem length_lines_lt_fgetsAll (hn : s.length ≤ n) {l : List Byte}
    (hl : l ∈ lines (ch '\n') s) (hlong : lineSize ≤ l.length) :
    (lines (ch '\n') s).length < (fgetsAll n s).length := by
  rw [fgetsAll_eq, List.length_map]
  exact length_lines_lt (by decide) hn hl (Nat.lt_of_lt_of_le (by decide) hlong)

end Fgets

/-! ### Writing -/

inductive Event where
  /-- a text is written -/
  | put (s : Str)
  /-- `logmsg` is called -/
  | log (m : Message)
  deriving DecidableEq, Repr

def puts (l : List Str) : List Event := l.map .put

/-- An event, as it happens to all that `logmsg` writes to. -/
def Event.happen (c : ConfLog) : Event → Logs → Logs
  | .put s, l => { l with info := l.info ++ s }
  | .log m, l => l.logmsg c true m

def happenAll (c : ConfLog) (l : List Event) (logs : Logs) : Logs :=
  l.foldl (fun logs e => e.happen c logs) logs

/-- What an event adds to the stream, if the threshold is `info`. -/
def Event.text (info : Int) : Event → Str
  | .put s => s
  | .log m => if info ≥ m.1.level then m.comment else []

def stream (info : Int) (l : List Event) : Str := l.flatMap (Event.text info)

@[simp] theorem stream_nil (info : Int) : stream info [] = [] := rfl

@[simp] theorem stream_cons (info : Int) (e : Event) (l : List Event) :
    stream info (e :: l) = e.text info ++ stream info l := rfl

@[simp] theorem stream_append (info : Int) (l l' : List Event) :
    stream info (l ++ l') = stream info l ++ stream info l' := List.flatMap_append

@[simp] theorem stream_puts (info : Int) (l : List Str) : stream info (puts l) = l.flatten := by
  induction l with
  | nil => rfl
  | cons s l ih => exact congrArg (s ++ ·) ih

theorem info_happenAll (c : ConfLog) (l : List Event) (logs : Logs) :
    (happenAll c l logs).info = logs.info ++ stream c.info l := by
  induction l generalizing logs with
  | nil => exact (List.append_nil _).symm
  | cons e l ih =>
    rw [happenAll, List.foldl_cons, ← happenAll, ih, stream_cons, ← List.append_assoc]
    cases e with
    | put s => rfl
    | log m =>
      simp only [Event.happen, Event.text, Logs.logmsg, and_true]
      split
      · rfl
      · rw [List.append_nil]

end Crashinfo
