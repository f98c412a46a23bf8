import Crashinfo.Log
import Crashinfo.Main.Tee
import Crashinfo.Output.Close
import Crashinfo.Proc.Info

/-!
# `main`

The whole program, from `openlog` to the end.  What the options come to is given:
the configuration behind them, and the configuration files that are opened on
the way.  The state is put together from the two that the parts of the program
work on, the descriptors (`Host`) and the bytes (`Tee`).

The thread `info_dump_thread` does nothing of interest before `main` unlocks
`dump_lock`.  From there on what it does to the descriptors may happen wherever
`main` asks for it (`threadActs`), and `main` waits for its end.
-/

namespace Crashinfo

open Script Script.Run

structure World where
  host : Host
  tee : Tee
  conf : Conf
  /-- `run.proc_fd` -/
  procFd : Int := 0
  /-- `info_pipe` -/
  infoPipe : Option (Nat × Nat) := none
  /-- the files the other thread has open, while it runs -/
  thread : Option (List Nat) := none
  deriving DecidableEq, Repr

abbrev MainRun := Run Answer Fault World

def onHost {α : Type} (m : HostRun α) : MainRun α :=
  zoom World.host (fun h w => { w with host := h }) m

def inputOf : Option Desc → Input
  | some ⟨.inherited _, _⟩ | some ⟨.core, _⟩ => .core
  | some ⟨.pipeR _, _⟩ => .pipe
  -- a socket of which only `syslog` knows
  | some ⟨.syslog, _⟩ => .idle
  | some ⟨.null, _⟩ => .nothing
  | _ => .refused

/-- The bytes, with what descriptor 0 refers to now. -/
def World.copying (w : World) : Tee := { w.tee with input := inputOf (w.host.fds.get 0) }

def onTee {α : Type} (m : TeeRun α) : MainRun α :=
  zoom World.copying (fun t w => { w with tee := t }) m

def openlog : HostRun Unit := do
  let _ ← syscall .syslog (alloc ⟨.syslog, true⟩)

/-- A configuration file, and the line of it that is not accepted. -/
structure ConfFile where
  path : Str
  bad : Option Nat := none
  deriving DecidableEq, Repr

/-- `parse_file` for every `-c`, `true` if `main` goes on. -/
def parseFiles (env : Env) : List ConfFile → HostRun Bool
  | [] => return true
  | f :: fs => do
    match ← syscall .openConf (alloc ⟨.conf, false⟩) with
    | .error e =>
      logmsg .crit (lit "Can't open configuration file '" ++ f.path ++ lit "': " ++ env.strerror e)
      return false
    | .ok fd =>
      match f.bad with
      | some n =>
        logmsg .crit (lit "Fatal error while parsing " ++ f.path ++ lit ":" ++ fmtD n)
        close fd
        return false
      | none =>
        close fd
        parseFiles env fs

def openCore (env : Env) : Option Str → HostRun Unit
  | none => pure ()
  | some path => do
    close 0
    match ← syscall .openCore (alloc ⟨.core, false⟩) with
    | .error e =>
      logmsg .crit (lit "Failed to open core '" ++ path ++ lit "': " ++ env.strerror e)
    | .ok fd =>
      -- `errno` is left over from an earlier call
      if fd ≠ 0 then
        logmsg .crit (lit "Failed to open core '" ++ path ++ lit "': " ++ env.strerror .other)

/-- The info pipe, the thread that reads it, and the first data for it. -/
def startDumping (env : Env) : MainRun InfoPipe := do
  match ← onHost pipe2 with
  | .error e =>
    onHost (logmsg .crit (lit "Can't create info pipe: " ++ env.strerror e))
    return .absent
  | .ok p =>
    modify fun w => { w with infoPipe := some p }
    match ← onHost (syscall .fcntl (pure ())) with
    | .error e =>
      onHost (logmsg .crit (lit "Can't create info pipe: " ++ env.strerror e))
      onTee (modify InfoPipe.blocking.leave)
      return .blocking
    | .ok _ =>
      match ← onHost (syscall .thread (pure ())) with
      | .error e =>
        onHost (logmsg .crit (lit "Failed to create dumping thread: " ++ env.strerror e))
        onTee (modify InfoPipe.noThread.leave)
        return .noThread
      | .ok _ =>
        modify fun w => { w with thread := some [] }
        if ← onTee feed then return .thread
        else
          onHost (logmsg .crit (lit "Can't read the core: Success"))
          return .thread

def procPath (pid : Int) : Str := (lit "/proc/" ++ fmtD pid ++ lit "/").take 15

/-- `conf.proc.path`, from `run.pid` if it was not configured. -/
def findProc : Option Str → MainRun (Option Str)
  | some path => return some path
  | none => do
    let pid ← onTee readPid
    if pid > 0 then return some (procPath pid) else return none

/-- The configuration with what was found out of the process. -/
def Conf.withProc (conf : Conf) (path : Str) (exe : Option Str) : Conf :=
  { conf with proc := { conf.proc with path := some path, exe := exe } }

def readDir (env : Env) (dir : ProcDir) (conf : Conf) (path : Str) : MainRun Unit := do
  modify fun w => { w with conf := conf.withProc path conf.proc.exe }
  match ← onHost (syscall .openDir (alloc ⟨.procDir, true⟩)) with
  | .error e =>
    modify fun w => { w with procFd := -1 }
    onHost (logmsg .err (lit "Can't open proc directory '" ++ path ++ lit "': " ++ env.strerror e))
  | .ok fd =>
    modify fun w => { w with procFd := fd }
    let r ← onHost (readProcInfo env dir conf path)
    modify fun w => { w with conf := conf.withProc path r.2 }
    if r.1 then pure () else onHost (logmsg .err (lit "Failed to read /proc info"))

def readProc (env : Env) (dir : ProcDir) : MainRun Unit := do
  let conf := (← get).conf
  if conf.proc.ignore then pure ()
  else
    match ← findProc conf.proc.path with
    | none => onHost (logmsg .err (lit "Can't determine /proc path"))
    | some path => readDir env dir conf path

/-- Where the outputs are opened; `env'` is `env` as the core finds it. -/
def openStreams (env env' : Env) : MainRun (Except (Option RunOutput) (RunOutput × RunOutput)) := do
  let pid ← onTee readPid
  let pid' ← onTee readPid
  let conf := (← get).conf
  -- there is no `run.info.output` before the info output is open
  onHost (openOutputs (env.of pid conf.proc.exe (conf.log.prints false .notice))
    (env'.of pid' conf.proc.exe (conf.log.prints true .notice)) conf)

/-- `dump_lock` is unlocked, and `info_dump` begins.  Nothing `main` does from
here on matters to the line `exe:`, so it is written at once. -/
def startInfo : MainRun Unit := do
  let w ← get
  if w.thread.isSome then
    match w.conf.proc.exe with
    | none => fault .nullDeref
    | some _ => pure ()

def threadAct : ThreadAct → MainRun Unit
  | .openProc cloexec => do
    match (← get).thread with
    | none => pure ()
    | some fds =>
      let fd ← onHost (alloc ⟨.proc, cloexec⟩)
      modify fun w => { w with thread := some (fd :: fds) }
  | .closeProc => do
    match (← get).thread with
    | some (fd :: fds) =>
      onHost (close fd)
      modify fun w => { w with thread := some fds }
    | _ => pure ()
  | .closePipe => do
    let w ← get
    match w.thread, w.infoPipe with
    | some [], some p =>
      onHost (close p.1)
      modify fun w => { w with thread := none }
    | _, _ => pure ()

/-- What the other thread does before `main` goes on. -/
def threadActs : MainRun Unit :=
  forever (fun _ => do
    match ← ask with
    | .thread a =>
      threadAct a
      return .inl ()
    | _ => return .inr ()) ()

def World.infoFd (w : World) : Int :=
  match w.infoPipe with
  | some p => p.2
  | none => -1

/-- The copying of the core, up to the end of the info pipe. -/
def copyCore (libunwind : Bool) : MainRun Unit := do
  let fd := (← get).infoFd
  threadActs
  onTee (catchUp libunwind (decide (fd ≥ 0)))
  if fd ≥ 0 ∧ libunwind = false then onHost (close fd)
  forever (fun _ => do
    threadActs
    onTee (copyTurn (decide (fd ≥ 0)))) ()
  threadActs
  onHost (close fd)

/-- `pthread_join`; without a thread to join it may well return. -/
def joinThread (env : Env) (pipe : InfoPipe) : MainRun Unit := do
  if pipe = .thread then
    forever (fun _ => do
      if (← get).thread.isSome then
        threadActs
        return .inl ()
      else return .inr ()) ()
  else
    match ← ask with
    | .err e => onHost (logmsg .err (lit "Failed to join dumping thread: " ++ env.strerror e))
    | _ => fault .badThread

/-- `main` up to the info pipe and its thread; nothing, if an option is not
accepted. -/
def start (env : Env) (files : List ConfFile) : MainRun (Option InfoPipe) := do
  onHost openlog
  if ← onHost (parseFiles env files) then
    let conf := (← get).conf
    onHost (openCore env conf.corePath)
    return some (← startDumping env)
  else return none

/-- `main` from the opening of the outputs on. -/
def save (env env' : Env) (libunwind : Bool) (pipe : InfoPipe) : MainRun Unit := do
  let streams ← openStreams env env'
  let conf := (← get).conf
  match streams with
  | .error none => pure ()
  | .error (some info) =>
    let _ ← onHost (closeOutput env conf.info info)
  | .ok (info, core) =>
    startInfo
    copyCore libunwind
    joinThread env pipe
    let _ ← onHost (closeOutput env conf.core core)
    let _ ← onHost (closeOutput env conf.info info)
    onHost (notifyInfoCore env info core conf.infoCoreNotify)

/-- `main`; `files` are the configuration files. -/
def main (env env' : Env) (libunwind : Bool) (files : List ConfFile) (dir : ProcDir) :
    MainRun Unit := do
  match ← start env files with
  | none => pure ()
  | some pipe =>
    readProc env dir
    save env env' libunwind pipe

/-- In front of `openlog`: the descriptors the process was started with, and
what the options come to. -/
def World.start (fds : Table Desc) (files : List Str) (stdin : List Byte) (conf : Conf) (pid : Int) :
    World where
  host := { fds, files }
  tee := .start stdin pid
  conf := conf

end Crashinfo
