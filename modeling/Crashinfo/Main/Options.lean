import Crashinfo.Conf.Parse
import Crashinfo.Main.Program
import Crashinfo.Stdio

/-!
# The options, and the exit status

`main` from its first line on.  What `getopt` returns in turn is a list of `Opt`;
a configuration file comes with what is in it, and `fgets` cuts that into lines.
`program` is `main` of `Crashinfo.Main.Program` with what comes before it, and
with what it returns (`main_eq_body`).
-/

namespace Crashinfo

open Script Script.Run

/-! ### Configuration files -/

def runLine (s : ConfState) (line : Str) : HostRun (Int × ConfState) := do
  let w ← ask
  match parseLine (match w with | .err _ => false | _ => true) s line with
  | .error f => fault f
  | .ok r =>
    modify fun h => { h with log := h.log ++ r.log }
    return (r.ret, r.state)

/-- The loop of `parse_file`, and the number of the line it stops at. -/
def fileLoop (s : ConfState) (linenum : Nat) : List Str → HostRun (Except Nat ConfState)
  | [] => return .ok s
  | line :: lines => do
    if line.length = lineSize - 1 then
      logmsg .crit (lit "Line too long: " ++ line ++ lit "...")
      return .error linenum
    else
      let (ret, s) ← runLine s line
      if ret ≠ 0 then return .error linenum
      else if (linenum : Int) ≥ intMax then fault .overflow
      else fileLoop s (linenum + 1) lines

/-- `parse_file`; `content` is what is in the file. -/
def parseFile (env : Env) (path : Str) (content : List Byte) (s : ConfState) :
    HostRun (Option ConfState) := do
  match ← syscall .openConf (alloc ⟨.conf, false⟩) with
  | .error e =>
    logmsg .crit (lit "Can't open configuration file '" ++ path ++ lit "': " ++ env.strerror e)
    return none
  | .ok fd =>
    match ← fileLoop s 1 (fgetsAll content.length content) with
    | .error linenum =>
      logmsg .crit (lit "Fatal error while parsing " ++ path ++ lit ":" ++ fmtD linenum)
      close fd
      return none
    | .ok s =>
      close fd
      return some s

/-! ### The command line -/

inductive Opt where
  | c (path : Str) (content : List Byte)
  | o (line : Str)
  | P (pid : Str)
  | h
  /-- `'?'` -/
  | unknown
  deriving DecidableEq, Repr

structure Settings where
  state : ConfState
  /-- `run.pid` -/
  pid : Int := -1

def returnExitcode : HostRun Nat := do
  return exitcode (← get).log

/-- The option `-P`; nothing if that is no PID. -/
def optPid (arg : Str) (pid : Int) : HostRun (Option Int) := do
  if pid ≠ -1 then logmsg .info (lit "PID specified multiple times")
  let r := strtol 10 arg
  if r.2 ≠ [] ∨ toInt r.1 ≤ 0 then
    logmsg .crit (lit "Invalid PID specified on the command line: " ++ arg)
    return none
  else return some (toInt r.1)

/-- The loop over the options: what they have set, or the exit status. -/
def getopt (env : Env) (s : Settings) : List Opt → HostRun (Except Nat Settings)
  | [] => return .ok s
  | .c path content :: opts => do
    match ← parseFile env path content s.state with
    | none => return .error (← returnExitcode)
    | some state => getopt env { s with state := state } opts
  | .o line :: opts => do
    let (ret, state) ← runLine s.state line
    if ret ≠ 0 then return .error (← returnExitcode)
    else getopt env { s with state := state } opts
  | .P arg :: opts => do
    match ← optPid arg s.pid with
    | none => return .error (← returnExitcode)
    | some pid => getopt env { s with pid := pid } opts
  | .h :: _ => return .error 0
  | .unknown :: _ => return .error 0x1f

/-! ### From the first line on -/

def coreSignals : List Nat := [3, 4, 6, 8, 11, 7, 31, 5, 24, 25]

def sigactions (env : Env) : List Nat → HostRun Unit
  | [] => pure ()
  | sig :: sigs => do
    match ← ask with
    | .err e => logmsg .warn (lit "Can't change action of the signal " ++ fmtD sig ++ lit ": " ++
        env.strerror e)
    | _ => pure ()
    sigactions env sigs

def disableCoreGeneration (env : Env) : HostRun Unit := do
  match ← ask with
  | .err e => logmsg .warn (lit "Can't configure alternative stack: " ++ env.strerror e)
  | _ => pure ()
  sigactions env coreSignals

def saveOr (env env' : Env) (libunwind : Bool) (pipe : InfoPipe) : MainRun Bool := do
  let streams ← openStreams env env'
  let conf := (← get).conf
  match streams with
  | .error none => return false
  | .error (some info) =>
    let _ ← onHost (closeOutput env conf.info info)
    return false
  | .ok (info, core) =>
    startInfo
    copyCore libunwind
    joinThread env pipe
    let _ ← onHost (closeOutput env conf.core core)
    let _ ← onHost (closeOutput env conf.info info)
    onHost (notifyInfoCore env info core conf.infoCoreNotify)
    return true

/-- `main` behind the options. -/
def body (env env' : Env) (libunwind : Bool) (dir : ProcDir) : MainRun Bool := do
  let conf := (← get).conf
  onHost (openCore env conf.corePath)
  let pipe ← startDumping env
  readProc env dir
  saveOr env env' libunwind pipe

structure Outcome where
  /-- the copying was come to -/
  copied : Bool
  status : Nat
  deriving DecidableEq, Repr

/-- What the options have set is what `main` goes on with. -/
def World.set (s : Settings) (w : World) : World :=
  { w with conf := s.state.conf, tee := { w.tee with pid := s.pid } }

/-- `main`, with what it returns. -/
def program (env env' : Env) (libunwind : Bool) (opts : List Opt) (dir : ProcDir) :
    MainRun Outcome := do
  onHost (disableCoreGeneration env)
  onHost openlog
  let conf := (← get).conf
  match ← onHost (getopt env { state := { conf := conf, seen := fun _ => 0 } } opts) with
  | .error status => return { copied := false, status := status }
  | .ok s =>
    modify (World.set s)
    let copied ← body env env' libunwind dir
    let status ← onHost returnExitcode
    return { copied := copied, status := status }

/-! ### The same program -/

theorem save_eq (env env' : Env) (libunwind : Bool) (pipe : InfoPipe) :
    save env env' libunwind pipe = (saveOr env env' libunwind pipe >>= fun _ => pure ()) := by
  rw [save, saveOr]
  simp only [bind_assoc]
  refine bind_congr fun streams => bind_congr fun w => ?_
  cases streams with
  | error info =>
    cases info with
    | none => rfl
    | some info => simp only [bind_assoc, pure_bind]
  | ok p =>
    simp only [bind_assoc]
    refine bind_congr fun _ => bind_congr fun _ => bind_congr fun _ => bind_congr fun _ =>
      bind_congr fun _ => bind_pure_unit.symm

/-- **Behind the options `program` does what `main` does.** -/
theorem main_eq_body (env env' : Env) (libunwind : Bool) (files : List ConfFile) (dir : ProcDir) :
    main env env' libunwind files dir = (onHost openlog >>= fun _ =>
      onHost (parseFiles env files) >>= fun b =>
        if b then body env env' libunwind dir >>= fun _ => pure () else pure ()) := by
  rw [main, start]
  simp only [bind_assoc]
  refine bind_congr fun _ => bind_congr fun b => ?_
  cases b with
  | false => rfl
  | true =>
    rw [if_pos rfl, if_pos rfl, body]
    simp only [bind_assoc, pure_bind, save_eq]

end Crashinfo
