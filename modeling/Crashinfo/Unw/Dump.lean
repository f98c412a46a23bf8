import Crashinfo.Conf.Dump
import Crashinfo.Info.Yaml
import Crashinfo.Proc.Info
import Crashinfo.Stdio

/-!
# The threads

`unw_dump`, with libunwind and without it.  What libunwind makes of the core is
given (`Core`): the threads, and for each of them the registers and the frames
it comes to, or the error it fails with.
-/

namespace Crashinfo

/-- What a call has failed with, and what `strerror` says about that. -/
structure SysError where
  errno : Int
  text : Str
  deriving DecidableEq, Repr

def pathText (conf : Conf) : Str := conf.proc.path.getD (lit "(null)")

/-! ### With libunwind -/

structure Frame where
  /-- the register `UNW_REG_IP` -/
  ip : Option UInt64
  /-- `start_ip` and `end_ip`, and whether there is a `handler` -/
  proc : Option (UInt64 × UInt64 × Bool)
  /-- what `unw_is_signal_frame` returns -/
  signal : Int
  /-- the name of the procedure, and how far the frame is into it -/
  name : Option (Str × UInt64)
  /-- the backing file -/
  file : Option Str
  deriving DecidableEq, Repr

structure Timeval where
  sec : Int
  usec : Int
  deriving DecidableEq, Repr

structure CoreThread where
  pid : Int
  /-- why the cursor cannot be initialized -/
  init : Option Str := none
  utime : Timeval
  stime : Timeval
  /-- the registers in front of the first one that cannot be read -/
  regs : List UInt64
  frame : Frame
  /-- the frames `unw_step` goes to -/
  callers : List Frame
  deriving DecidableEq, Repr

structure Core where
  /-- `core.ok` -/
  ok : Bool
  /-- why the cursor cannot be initialized -/
  init : Option Str
  threads : List CoreThread
  deriving DecidableEq, Repr

def fmt016x (n : UInt64) : Str := (Numeral.padded 16 16 n.toNat).map digitChar

def fmtHash5 (n : UInt64) : Str :=
  let s := fmtHash n.toNat
  List.replicate (5 - s.length) (ch ' ') ++ s

def fmtTime (t : Timeval) : Str := fmtD t.sec ++ lit "." ++ fmt0D 6 t.usec

/-- What the loop over the registers prints for register `i`. -/
def regText (i : Nat) (reg : UInt64) : Str :=
  (if i ≠ 0 then lit "," else []) ++ (if i % 4 = 0 then lit "\n     " else []) ++
    lit " 0x" ++ fmt016x reg

def ptrText (f : Frame) : Str :=
  match f.ip with
  | some ip => fmt016x ip
  | none => lit "UNKNOWN"

def Frame.length (f : Frame) : UInt64 :=
  match f.proc with
  | some (start, stop, _) => stop - start
  | none => 0

def Frame.exception (f : Frame) : Int :=
  match f.proc with
  | some (_, _, handler) => if handler then 1 else 0
  | none => -1

def Frame.sig (f : Frame) : Int := if f.signal > 0 then 1 else if f.signal = 0 then 0 else -1

def nameText (f : Frame) : Str :=
  match f.name with
  | some (fname, off) =>
    lit ", s: " ++ fname ++ lit "," ++ spaces (20 - fname.length) ++ lit " o: " ++ fmtHash5 off ++
      lit ", l: " ++ fmtHash5 f.length
  | none => []

def fileText (f : Frame) : Str :=
  match f.file with
  | some file => lit ", f: " ++ fputy file
  | none => []

/-- What the loop over the frames prints for the frame at `depth`. -/
def frameText (depth : Nat) (f : Frame) : Str :=
  (if depth > 0 then lit "," else []) ++ lit "\n      \x7b a: " ++ ptrText f ++ nameText f ++
    lit ", e: " ++ fmtD f.exception ++ lit ", S: " ++ fmtD f.sig ++ fileText f ++ lit " \x7d"

/-- What is printed for a thread behind what `task_dumper` prints. -/
def threadText (conf : Conf) (t : CoreThread) : List Str :=
  [lit "    user_time: ", fmtTime t.utime, lit "\n",
    lit "    system_time: ", fmtTime t.stime, lit "\n",
    lit "    registers: [", ((t.regs.take 256).mapIdx regText).flatten, lit " ]\n",
    lit "    backtrace: [",
    (((t.frame :: t.callers).take conf.backtraceMaxDepth.toNat).mapIdx frameText).flatten,
    lit " ]\n"]

def cursorMessage (text : Str) : Message :=
  (.err, lit "Failed to initialize the unwind cursor: " ++ text)

def dumpThread (conf : Conf) (pidmap : List PidPair) (taskDumper : Int → List Event)
    (t : CoreThread) : List Event :=
  match t.init with
  | some text => [.log (cursorMessage text)]
  | none =>
    (procPidMap pidmap t.pid).2.map .log ++ taskDumper (procPidMap pidmap t.pid).1 ++
      puts (threadText conf t)

def unwDump (conf : Conf) (core : Core) (pidmap : List PidPair)
    (taskDumper : Int → List Event) : List Event :=
  if core.ok then
    (if conf.proc.maps = [] then
      [.log (.warn, lit "Mapping information are not available\n")] else []) ++
    match core.init with
    | some text => [.log (cursorMessage text)]
    | none =>
      .put (lit "threads:\n") :: core.threads.flatMap (dumpThread conf pidmap taskDumper)
  else []

/-! ### Without libunwind -/

def isdigit (c : Byte) : Bool := decide (48 ≤ c.toNat ∧ c.toNat ≤ 57)

def atoi (s : Str) : Int := toInt (strtol 10 s).1

def taskDirMessage (conf : Conf) (e : SysError) : Message :=
  (.err, lit "Can't open '" ++ pathText conf ++ lit "/task': " ++ e.text)

/-- The tasks among the entries of the directory `task`. -/
def taskTids (names : List Str) : List Int :=
  (names.filter fun name => name.head?.any isdigit).map atoi

/-- `unw_dump` of a build without libunwind; `task` are the entries of the
directory. -/
def unwDumpTasks (conf : Conf) (task : Except SysError (List Str))
    (taskDumper : Int → List Event) : List Event :=
  if conf.proc.ignore then
    [.put (lit "threads: ~ # Unwinder is disabled and proc_ignore = 1\n")]
  else
    match task with
    | .error e => [.log (taskDirMessage conf e)]
    | .ok names => .put (lit "threads:\n") :: (taskTids names).flatMap taskDumper

end Crashinfo
