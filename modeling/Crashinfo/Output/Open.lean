import Crashinfo.Host
import Crashinfo.Output.Expand

/-!
# Opening an output

`open_output` expands the template of a stream, opens the file of that name, and
starts the filters in front of it.  The two labels it jumps back to are the loop
`openTurn`: a turn expands the template again if it comes from `restart`, and
calls `open` once.  `spawnFilters` is the loop over the filters, with what
`next_infd`, `next_outfd` and `r->filter` hold in front of each one.
-/

namespace Crashinfo

open Script Script.Run

/-- What `open_output` reads besides the configuration of the stream, and the
part of the C library it relies on. -/
structure Env where
  /-- `run.pid` -/
  pid : Int
  /-- `conf.proc.exe` -/
  exe : Option Str
  /-- `strftime` with `run.start_tm` -/
  strftime : Str → Str
  strerror : Errno → Str
  /-- one of the sinks of `logmsg` takes notices -/
  notices : Bool
  /-- the array `path` before anything was written to it -/
  junk : List Byte
  exe_nul : ∀ e, exe = some e → 0 ∉ e
  strftime_nul : ∀ t, 0 ∉ strftime t
  /-- text that is not a conversion is copied -/
  strftime_slash : ∀ t, t.head? = some (ch '/') → (strftime t).head? = some (ch '/')
  junk_length : junk.length = pathMax

/-- The environment with what `main` has found out of the process. -/
def Env.of (env : Env) (pid : Int) (exe : Option Str) (notices : Bool) : Env where
  pid := pid
  exe := exe.map cstr
  strftime := env.strftime
  strerror := env.strerror
  notices := notices
  junk := env.junk
  exe_nul := fun e he => by
    obtain ⟨s, -, rfl⟩ := Option.map_eq_some_iff.mp he
    exact nul_notMem_cstr s
  strftime_nul := env.strftime_nul
  strftime_slash := env.strftime_slash
  junk_length := env.junk_length

/-- An environment in which templates hold no conversions, and notices go nowhere. -/
def Env.plain (pid : Int) (exe : Option Str) : Env where
  pid := pid
  exe := exe.map cstr
  strftime := cstr
  strerror := fun _ => []
  notices := false
  junk := List.replicate pathMax 0
  exe_nul := fun e he => by
    obtain ⟨s, -, rfl⟩ := Option.map_eq_some_iff.mp he
    exact nul_notMem_cstr s
  strftime_nul := nul_notMem_cstr
  strftime_slash := fun t ht => by
    cases t with
    | nil => cases ht
    | cons b t =>
      rw [List.head?_cons, Option.some.injEq] at ht
      rw [ht]
      rfl
  junk_length := List.length_replicate

structure OpenVars where
  path : List Byte
  counter : Nat := 0
  mkdir : Bool
  /-- where the expansion has ended, if the loop goes on at `reopen` -/
  cursor : Option Cursor := none
  deriving DecidableEq, Repr

def seqLen (c : ConfOutput) (counter : Nat) : Nat :=
  if c.existsSeq > 0 then intlen (c.existsSeq - 1).toNat else intlen counter

/-- What the expansion reads in a round of `restart`. -/
def roundAt (env : Env) (c : ConfOutput) (template : Str) (counter : Nat) : Round where
  output := template
  exist := c.exist
  pid := env.pid
  exe := env.exe
  counter := counter
  seqLen := seqLen c counter

def logNotes : List Str → HostRun Unit
  | [] => pure ()
  | n :: ns => do
    logmsg .notice n
    logNotes ns

/-- From `restart` to `reopen`; `none` is the way through `too_long`. -/
def expandPath (env : Env) (c : ConfOutput) (template : Str) (v : OpenVars) :
    HostRun (Option Cursor) := do
  let s := env.strftime template
  -- with no room for the result the array is left indeterminate
  if s.length + 1 > pathMax then fault .indeterminate
  else
    match expandCells (roundAt env c template v.counter) (s ++ 0 :: v.path.drop (s.length + 1)) with
    | .error (.fault f) => fault f
    | .error (.tooLong cur) =>
      logNotes cur.notes
      logmsg .crit (lit "Expanded output filename '" ++ template ++ lit "' is too long")
      return none
    | .ok cur =>
      logNotes cur.notes
      if c.exist = .default then fault .assertion
      else return some cur

def ConfExists.excl : ConfExists → Bool
  | .keep => true
  | .sequence => true
  | _ => false

/-- The directories `make_path` creates, in order: what stands before a `/` that
is not the first character. -/
def dirsOf (path : Str) : List Str :=
  ((List.range path.length).filter fun k => 0 < k ∧ path[k]? = some (ch '/')).map (path.take ·)

def makePath (env : Env) : List Str → HostRun Bool
  | [] => return true
  | d :: ds => do
    match ← mkdir d with
    | .ok _ => makePath env ds
    | .error e =>
      if e = .eexist then makePath env ds
      else
        logmsg .crit (lit "Can't create directory '" ++ d ++ lit "': " ++ env.strerror e)
        return false

/-- What a turn comes to: another turn, or the descriptor and the name of the
file, or nothing at `err0`. -/
abbrev OpenRes := OpenVars ⊕ Option (Nat × Str)

/-- `log_notice` for a file that is kept, whose `%s` has no argument.  A message that no
sink takes is not put together. -/
def keepNotice (env : Env) : HostRun Unit := do
  if env.notices then fault .noArgument

theorem keepNotice_of_quiet {env : Env} (hquiet : env.notices = false) :
    keepNotice env = pure () :=
  if_neg (by rw [hquiet]; decide)

theorem meets_keepNotice {P : Answer → Prop} {env : Env} {h : Host} {Q : Unit → Host → Prop}
    {K : Stop Fault → Host → Prop} (hfault : K (.fault .noArgument) h) (hQ : Q () h) :
    Meets P (keepNotice env) h Q K := by
  rw [keepNotice]
  split
  · exact meets_fault hfault
  · exact meets_pure hQ

def keepFile (env : Env) (cur : Cursor) : HostRun OpenRes := do
  keepNotice env
  match ← openNull true with
  | .ok fd => return .inr (some (fd, cur.result))
  | .error e =>
    logmsg .crit (lit "Can't open /dev/null: " ++ env.strerror e)
    return .inr none

def nextName (c : ConfOutput) (v : OpenVars) (cur : Cursor) : HostRun OpenRes := do
  if (v.counter : Int) ≥ intMax then fault .overflow
  else if (v.counter : Int) + 1 < c.existsSeq ∨ c.existsSeq ≤ 0 then
    return .inl { v with path := cur.path.cells, counter := v.counter + 1, cursor := none }
  else
    logmsg .crit (lit "Filename sequence limit reached")
    return .inr none

def missingDir (env : Env) (v : OpenVars) (cur : Cursor) : HostRun OpenRes := do
  if ← makePath env (dirsOf cur.result) then
    return .inl { v with mkdir := false, cursor := some cur }
  else return .inr none

def openFailed (env : Env) (c : ConfOutput) (v : OpenVars) (cur : Cursor) (e : Errno) :
    HostRun OpenRes := do
  if e = .eexist ∧ c.exist = .keep then keepFile env cur
  else if e = .eexist ∧ c.exist = .sequence then nextName c v cur
  else if e = .enoent ∧ v.mkdir then missingDir env v cur
  else
    logmsg .crit (lit "Can't open '" ++ cstr cur.path.cells ++ lit "': " ++ env.strerror e)
    return .inr none

/-- From `reopen` on. -/
def attempt (env : Env) (c : ConfOutput) (v : OpenVars) (cur : Cursor) : HostRun OpenRes := do
  match ← openFile cur.result c.exist.excl with
  | .ok fd => return .inr (some (fd, cur.result))
  | .error e => openFailed env c v cur e

/-- A turn of the loop of `restart` and `reopen`. -/
def openTurn (env : Env) (c : ConfOutput) (template : Str) (v : OpenVars) : HostRun OpenRes := do
  match v.cursor with
  | some cur => attempt env c v cur
  | none =>
    match ← expandPath env c template v with
    | some cur => attempt env c v cur
    | none => return .inr none

def OpenVars.start (env : Env) (c : ConfOutput) : OpenVars where
  path := env.junk
  mkdir := c.mkdir

def strdup (s : Str) : HostRun (Option Str) := do
  match ← syscall .strdup (pure ()) with
  | .ok _ => return some s
  | .error _ => return none

/-- Up to `opened`: the descriptor the stream ends in, and what has become of
`r`. -/
def openSink (env : Env) (c : ConfOutput) (r : RunOutput) : HostRun (Option (Int × RunOutput)) := do
  match c.output with
  | none =>
    let fd ← openDevnull
    if fd < 0 then
      logmsg .crit (lit "Can't open /dev/null")
      return none
    else return some (fd, r)
  | some template =>
    if template.head? = some (ch '/') then
      match ← forever (openTurn env c template) (OpenVars.start env c) with
      | none => return none
      | some (fd, name) =>
        let filename ← strdup name
        return some (fd, { r with outputFilename := filename })
    else
      logmsg .crit (lit "Output filename '" ++ template ++ lit "' is not a full path")
      return none

/-- What `open_output` returns, with what has become of `r`. -/
abbrev OpenOutput := Int × RunOutput

def err0 (r : RunOutput) : HostRun OpenOutput := do
  let fd ← openDevnull
  return (-1, { r with output := false, outputFd := fd })

def killFilters : List RunFilter → HostRun Unit
  | [] => pure ()
  | f :: fs => do
    kill f.pid
    waitpid f.pid
    freeNode (some f.pid)
    killFilters fs

def err1 (r : RunOutput) (nextIn nextOut : Int) : HostRun OpenOutput := do
  killFilters r.filter
  close r.outputFd
  close nextIn
  close nextOut
  err0 { r with filter := [] }

/-- `infd`, `outfd` and the next `next_infd` of a filter; `more` says whether
another one follows. -/
def filterEnds (env : Env) (nextIn nextOut : Int) (more : Bool) :
    HostRun (Option (Int × Int × Int)) := do
  if more then
    match ← pipe2 with
    | .error e =>
      logmsg .err (lit "Can't create filter pipe: " ++ env.strerror e)
      return none
    | .ok (rd, wr) => return some (nextIn, wr, rd)
  else return some (nextIn, nextOut, nextIn)

def spawnProc (env : Env) (cmd : Str) (infd outfd : Int) (arg1 arg2 : Option Str) :
    HostRun (Option Nat) := do
  match ← fork cmd infd outfd arg1 arg2 with
  | .error e =>
    logmsg .crit (lit "Forking process '" ++ cmd ++ lit "' failed: " ++ env.strerror e)
    return none
  | .ok pid => return some pid

def spawnFilter (env : Env) (cmd : Str) (infd outfd : Int) : HostRun (Option Nat) := do
  match ← syscall .malloc newNode with
  | .error e =>
    logmsg .err (lit "Can't allocate memory for the filter: " ++ env.strerror e)
    return none
  | .ok _ =>
    match ← spawnProc env cmd infd outfd none none with
    | none =>
      freeNode none
      return none
    | some pid =>
      putPid pid
      return some pid

/-- The loop over the filters: all of them, or those that were started when it
is left for `err1`, with `next_infd` there. -/
def spawnFilters (env : Env) (nextOut : Int) :
    List Str → Int → List RunFilter → HostRun (Except (List RunFilter × Int) (List RunFilter))
  | [], _, done => return .ok done
  | f :: fs, nextIn, done => do
    match ← filterEnds env nextIn nextOut (!fs.isEmpty) with
    | none => return .error (done, nextIn)
    | some (infd, outfd, nextIn) =>
      match ← spawnFilter env f infd outfd with
      | none => return .error (done, nextIn)
      | some pid =>
        close infd
        close outfd
        spawnFilters env nextOut fs nextIn (done ++ [⟨f, pid⟩])

def setupFilters (env : Env) (c : ConfOutput) (fd : Int) (r : RunOutput) : HostRun OpenOutput := do
  if c.filter.isEmpty then return (0, r)
  else
    match ← pipe2 with
    | .error e =>
      logmsg .err (lit "Can't create filter pipe: " ++ env.strerror e)
      close fd
      return (-1, r)
    | .ok (rd, wr) =>
      match ← spawnFilters env fd c.filter rd [] with
      | .ok fs => return (0, { r with outputFd := wr, filter := fs })
      | .error (fs, nextIn) => err1 { r with outputFd := wr, filter := fs } nextIn fd

def openOutput (env : Env) (c : ConfOutput) (r : RunOutput) : HostRun OpenOutput := do
  match ← openSink env c r with
  | none => err0 r
  | some (fd, r) => setupFilters env c fd { r with filter := [], outputFd := fd, output := false }

/-- What `main` does with both outputs; without an error it goes on to copy the
core.  With one it goes to `err0`, or to `err1` with the info output. -/
def openOutputs (env env' : Env) (conf : Conf) :
    HostRun (Except (Option RunOutput) (RunOutput × RunOutput)) := do
  let info ← openOutput env conf.info {}
  if info.2.outputFd < 0 then return .error none
  else
    match ← fdopen info.2.outputFd with
    | .error e =>
      logmsg .crit (lit "Failed to open output: " ++ env.strerror e)
      return .error (some info.2)
    | .ok _ =>
      let core ← openOutput env' conf.core {}
      let run := { info.2 with output := true }
      if core.2.outputFd < 0 then return .error (some run)
      else return .ok (run, core.2)

end Crashinfo
