import Crashinfo.Conf.Parse
import Crashinfo.Unw.Dump

/-!
# The document

`info_dump` from the first line to the last.  What it finds is given (`Findings`):
the files of the directory of the process, the core, and the clock.  What it does
to its stream is a list of events; there is none if there is no path of the
executable to print.
-/

namespace Crashinfo

/-- The files of a directory, as `openat` and `fdopen` find them. -/
abbrev Dir := Str → Except SysError (List Byte)

/-! ### Files of `/proc` -/

def blockLine (indent : Int) (buf : Str) : Str :=
  spaces (indent + 4) ++ chompSpace buf ++ lit "\n"

def blockLines (indent : Int) (content : List Byte) : List Str :=
  (fgetsAll content.length content).map (blockLine indent)

def dumpFile (dir : Dir) (indent : Int) (name : Str) : List Event :=
  puts [spaces (indent + 2), fputy name] ++
  match dir name with
  | .error e =>
    [.log (.err, lit "Can't open proc file '" ++ name ++ lit "': " ++ e.text),
      .put (lit ": ~ # Can't open: " ++ e.text ++ lit "\n")]
  | .ok content => puts (lit ": |\n" :: blockLines indent content)

def procDump (conf : Conf) (dir : Dir) (files : List Str) (indent : Int) : List Event :=
  .put (spaces indent) ::
  if files = [] then [.put (lit "proc_dump: ~\n")]
  else if conf.proc.ignore then [.put (lit "proc_dump: ~ # proc_ignore = 1\n")]
  else .put (lit "proc_dump:\n") :: files.flatMap (dumpFile dir indent)

/-- `snprintf(path, sizeof path, "task/%d", tid)` -/
def taskPath (tid : Int) : Str := lit "task/" ++ fmtD tid

def taskMessage (conf : Conf) (tid : Int) (e : SysError) : Message :=
  (.err, lit "Can't open '" ++ pathText conf ++ lit "/" ++ taskPath tid ++ lit "': " ++ e.text)

/-- `task_dumper`; `task` are the directories of the tasks. -/
def taskDumper (conf : Conf) (task : Int → Except SysError Dir) (tid : Int) : List Event :=
  .put (lit "  - tid: " ++ fmtD tid ++
    lit " # --------------------------------------------------\n") ::
  match task tid with
  | .ok dir => procDump conf dir conf.procDump.task 4
  | .error e => [.log (taskMessage conf tid e)]

/-! ### The head of the document -/

/-- `struct tm`, with `tm_year + 1900` and `tm_mon + 1` -/
structure Tm where
  year : Int
  mon : Int
  mday : Int
  hour : Int
  min : Int
  sec : Int
  deriving DecidableEq, Repr

/-- `strftime` for `datetime`, if the text is not too long for it; otherwise it
leaves `rest` there. -/
def datetime (tm : Tm) (rest : Str) : Str :=
  let s := fmtD tm.year ++ lit "-" ++ fmt0D 2 tm.mon ++ lit "-" ++ fmt0D 2 tm.mday ++ lit "T" ++
    fmt0D 2 tm.hour ++ lit ":" ++ fmt0D 2 tm.min ++ lit ":" ++ fmt0D 2 tm.sec ++ lit "Z\n"
  if s.length < 24 then s else rest

/-- The loop over `cmdline`: what it prints for the characters that it still
reads.  A NUL is looked behind, and a NUL at the end is nothing.  Like `fputy` this is
the text of the escapes; the loop that needs room for them is `cmdlineLoop`. -/
def cmdlineText : List Byte → Str
  | [] => []
  | c :: s =>
    if c ≠ 0 then yamlEsc c ++ cmdlineText s
    else if s = [] then []
    else lit "\", \"" ++ cmdlineText s

def cmdline (content : Option (List Byte)) : Str :=
  match content with
  | none | some [] => []
  | some (c :: s) => lit "\"" ++ cmdlineText (c :: s) ++ lit "\""

def mappingText (m : Nat × Str) : Str :=
  lit "  0x" ++ (Numeral.padded 16 16 m.1).map digitChar ++ lit ": " ++ fputy m.2 ++ lit "\n"

def mappings (maps : List (Nat × Str)) : List Str :=
  if maps = [] then [lit "executable_mappings: ~\n"]
  else lit "executable_mappings:\n" :: maps.map mappingText

/-! ### The end of the document -/

structure Timespec where
  sec : Int
  nsec : Int
  deriving DecidableEq, Repr

def processingTime (start stop : Timespec) : Str :=
  let sec := stop.sec - start.sec
  let (sec, nsec) :=
    if stop.nsec < start.nsec then (sec - 1, stop.nsec + 1000000000) else (sec, stop.nsec)
  lit "processing_time: " ++ fmtD (toInt sec) ++ lit "." ++
    fmt0D 6 ((nsec - start.nsec).tdiv 1000) ++ lit "\n"

def EPIPE : Int := 32
def EROFS : Int := 30
def EINVAL : Int := 22

def flushMessage (e : SysError) : Message :=
  if e.errno = EPIPE then (.warn, lit "Info stream truncated")
  else (.err, lit "Failed flushing the info stream: " ++ e.text)

def syncMessages (e : SysError) : List Message :=
  if e.errno ≠ EROFS ∧ e.errno ≠ EINVAL then
    [(.err, lit "Failed synchronizing the info stream: " ++ e.text)] else []

/-! ### All of it -/

inductive Unwinder where
  | libunwind (core : Core)
  /-- a build without libunwind, and the entries of the directory `task` -/
  | none (task : Except SysError (List Str))

structure Findings where
  /-- `run.start_tm` -/
  startTm : Tm
  /-- what is in the array `datetime` before -/
  rest : Str := []
  /-- `run.start_tp` -/
  startTp : Timespec
  /-- `end_tp` -/
  endTp : Timespec
  /-- what is in `cmdline`, if it can be opened -/
  cmdline : Option (List Byte)
  /-- `run.proc_fd` -/
  root : Dir
  /-- the directories of the tasks -/
  task : Int → Except SysError Dir
  pidmap : List PidPair := []
  unwinder : Unwinder
  /-- how `fflush` or the stream has failed -/
  flush : Option SysError := none
  /-- how `fsync` has failed -/
  sync : Option SysError := none

def headTexts (conf : Conf) (f : Findings) (exe : Str) : List Str :=
  [lit "---\ndatetime: ", datetime f.startTm f.rest, lit "exe: ", fputy exe, lit "\n",
    lit "cmdline: [ ", cmdline f.cmdline, lit " ]\n"] ++ mappings conf.proc.maps

def dumpThreads (conf : Conf) (f : Findings) : List Event :=
  match f.unwinder with
  | .libunwind core => unwDump conf core f.pidmap (taskDumper conf f.task)
  | .none task => unwDumpTasks conf task (taskDumper conf f.task)

/-- `info_dump`, if there is a path of the executable. -/
def dumpEvents (conf : Conf) (f : Findings) (exe : Str) : List Event :=
  puts (headTexts conf f exe) ++ procDump conf f.root conf.procDump.root 0 ++ dumpThreads conf f ++
    .put (processingTime f.startTp f.endTp) ::
    ((f.flush.toList.map flushMessage).map .log ++ (f.sync.toList.flatMap syncMessages).map .log)

def infoDump (conf : Conf) (f : Findings) : Except Fault (List Event) :=
  match conf.proc.exe with
  | none => .error .nullDeref
  | some exe => .ok (dumpEvents conf f exe)

def infoStream (conf : Conf) (f : Findings) : Except Fault Str :=
  (infoDump conf f).map fun l => (happenAll conf.log l {}).info

end Crashinfo
