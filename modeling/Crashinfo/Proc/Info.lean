import Crashinfo.Conf.Number
import Crashinfo.Log
import Crashinfo.Output.Open

/-!
# Reading the directory of the process

`read_proc_info` reads the link `exe`, the file `maps` and the status of every
task, and gives up where one of them cannot be read.  What the lines say is of
no concern here: a directory (`ProcDir`) says which of them the program does not
accept.
-/

namespace Crashinfo

open Script Script.Run

structure Task where
  name : Str
  /-- the line of its status that is malformed -/
  malformed : Option Str := none
  deriving DecidableEq, Repr

structure ProcDir where
  /-- what the link `exe` points to -/
  exe : Str
  /-- the lines of `maps` about a file, as `parse_line` gets them -/
  maps : List Str := []
  tasks : List Task := []
  deriving DecidableEq, Repr

def openProc : HostRun (Except Errno Nat) := do
  match ← syscall .openProc (alloc ⟨.proc, false⟩) with
  | .error e => return .error e
  | .ok fd =>
    match ← fdopen fd with
    | .error e =>
      close fd
      return .error e
    | .ok _ => return .ok fd

/-- `conf.proc.exe`, if it was configured or can be read. -/
def readExe (env : Env) (dir : ProcDir) : Option Str → HostRun (Option Str)
  | some exe => return some exe
  | none => do
    match ← syscall .readlink (pure ()) with
    | .error e =>
      logmsg .crit (lit "Can't get executable path: " ++ env.strerror e)
      return none
    | .ok _ =>
      match ← syscall .strndup (pure ()) with
      | .error e =>
        logmsg .crit (lit "Can't get executable path: " ++ env.strerror e)
        return none
      | .ok _ => return some (cstr dir.exe)

def parseMaps : List Str → HostRun Bool
  | [] => return true
  | l :: ls => do
    match ← syscall .parseLine (pure ()) with
    | .error _ =>
      -- `parse_line` has put a NUL in place of the `=`
      logmsg .err (lit "Failed to parse '" ++ l.takeWhile (· ≠ ch '=') ++ lit "'")
      return false
    | .ok _ => parseMaps ls

def readMaps (env : Env) (dir : ProcDir) (conf : Conf) : HostRun Bool := do
  if conf.proc.maps.isEmpty then
    match ← openProc with
    | .error e =>
      logmsg .crit (lit "Can't open mappings: " ++ env.strerror e)
      return false
    | .ok fd =>
      let ok ← parseMaps dir.maps
      close fd
      return ok
  else return true

def readTasks (env : Env) : List Task → HostRun Bool
  | [] => return true
  | t :: ts => do
    let name := lit "task/" ++ t.name ++ lit "/status"
    match ← syscall .openProc (alloc ⟨.proc, false⟩) with
    | .error e =>
      logmsg .err (lit "Can't open '" ++ name ++ lit "': " ++ env.strerror e)
      return false
    | .ok fd =>
      match ← fdopen fd with
      | .error e =>
        logmsg .err (lit "Can't open '" ++ name ++ lit "': " ++ env.strerror e)
        close fd
        return false
      | .ok _ =>
        match t.malformed with
        | some line =>
          logmsg .notice (lit "Malformed line '" ++ line ++ lit "'")
          close fd
          return false
        | none =>
          close fd
          readTasks env ts

def readTaskDir (env : Env) (dir : ProcDir) (path : Str) : HostRun Bool := do
  match ← syscall .openProc (alloc ⟨.proc, true⟩) with
  | .error e =>
    logmsg .err (lit "Can't open '" ++ path ++ lit "/task': " ++ env.strerror e)
    return false
  | .ok fd =>
    match ← fdopen fd with
    | .error e =>
      logmsg .err (lit "Can't open '" ++ path ++ lit "/task': " ++ env.strerror e)
      close fd
      return false
    | .ok _ =>
      let ok ← readTasks env dir.tasks
      close fd
      return ok

/-- What follows the link `exe`. -/
def readRest (env : Env) (dir : ProcDir) (conf : Conf) (path : Str) : HostRun Bool := do
  if ← readMaps env dir conf then readTaskDir env dir path else return false

/-- `read_proc_info`, `true` if it returns 0, with `conf.proc.exe` afterwards. -/
def readProcInfo (env : Env) (dir : ProcDir) (conf : Conf) (path : Str) :
    HostRun (Bool × Option Str) := do
  match ← readExe env dir conf.proc.exe with
  | none => return (false, none)
  | some exe => return (← readRest env dir conf path, some exe)

/-! ### The map of the PIDs -/

structure PidPair where
  pid : Int
  nspid : Int
  deriving DecidableEq, Repr

def procPidMap (pidmap : List PidPair) (nspid : Int) : Int × List Message :=
  match pidmap.find? fun p => p.nspid = nspid with
  | some p => (toInt p.pid, [])
  | none => (nspid, [(.warn, lit "Failed to map NS pid " ++ fmtD nspid)])

end Crashinfo
