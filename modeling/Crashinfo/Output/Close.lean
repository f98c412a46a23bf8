import Crashinfo.Output.Argv
import Crashinfo.Output.Open

/-!
# Closing an output

`close_output` closes the descriptor of a stream, waits for its filters, and
starts the programs that are to be told about the file.  Their arguments are what
becomes of the names in `spawn_proc` (`Kid.argv`).
-/

namespace Crashinfo

open Script Script.Run

/-- `argv` of a child when it calls `execvp`. -/
def Kid.argv (k : Kid) : Except Fault (List (Option Str)) := spawnArgv k.cmd k.arg1 k.arg2

def sigpipe : Nat := 13

/-- `waitpid` for a filter, and what is said about its end. -/
def waitFilter (env : Env) (f : RunFilter) : HostRun Unit := do
  waitpid f.pid
  match ← ask with
  | .err e =>
    logmsg .crit (lit "Waiting for filter '" ++ f.filter ++ lit "' failed: " ++ env.strerror e)
  | .status true n =>
    if n = sigpipe then
      logmsg .warn (lit "Filter '" ++ f.filter ++
        lit "' was terminated by SIGPIPE. Stream may be truncated.")
    else logmsg .err (lit "Filter '" ++ f.filter ++ lit "' was terminated by signal " ++ fmtD n)
  | .status false (n + 1) =>
    logmsg .err (lit "Filter '" ++ f.filter ++ lit "' failed with return code " ++ fmtD (n + 1))
  | _ => pure ()

def waitFilters (env : Env) : List RunFilter → HostRun Unit
  | [] => pure ()
  | f :: fs => do
    waitFilter env f
    freeNode (some f.pid)
    waitFilters env fs

/-- The programs of `c->notify`, for the file `name`; their `nullfd` is never closed. -/
def notifyAll (env : Env) (name : Str) : List Str → HostRun Unit
  | [] => pure ()
  | cmd :: cmds => do
    let fd := fdOf (← openNull true)
    let _ ← spawnProc env cmd fd fd (some name) none
    notifyAll env name cmds

/-- `close_output`; `fclose` closes the descriptor like `close`. -/
def closeOutput (env : Env) (c : ConfOutput) (r : RunOutput) : HostRun RunOutput := do
  if r.outputFd < 0 then return r
  else
    close r.outputFd
    waitFilters env r.filter
    match r.outputFilename with
    | some name => notifyAll env name c.notify
    | none => pure ()
    return { r with output := false, outputFd := -1 }

/-- The programs of `conf.info_core_notify`, for the files `name1` and `name2`. -/
def notifyBoth (env : Env) (name1 name2 : Str) : List Str → HostRun Unit
  | [] => pure ()
  | cmd :: cmds => do
    let fd ← openDevnull
    let _ ← spawnProc env cmd fd fd (some name1) (some name2)
    close fd
    notifyBoth env name1 name2 cmds

/-- What `main` does in the end: the programs are started if both outputs have a name. -/
def notifyInfoCore (env : Env) (info core : RunOutput) (cmds : List Str) : HostRun Unit :=
  match info.outputFilename, core.outputFilename with
  | some name1, some name2 => notifyBoth env name1 name2 cmds
  | _, _ => pure ()

end Crashinfo
