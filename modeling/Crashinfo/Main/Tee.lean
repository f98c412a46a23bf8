import Crashinfo.Sys

/-!
# How `main` copies the core

`main` reads the core from descriptor 0 and writes it to the core output and to
the info pipe, in three phases.  `feed` is the first one: it fills `buf` and
feeds it into the pipe, which does not block yet, until the PID is known.  The
outputs are opened then; that is no business of this module.  `transfer` is the
rest: it catches up on what the sinks have not got yet, and copies what follows.

`Tee` is the part of the program state that this works on, with the files at the
other ends, and `io` is the record of all calls of `read` and `write`.

What descriptor 0 refers to is an `Input`.  It is the core, unless `main` could
not open the one it was told to read: then descriptor 0 is whatever was opened
next, and that may be the info pipe itself.
-/

namespace Crashinfo

open Script Script.Run

def bufSize : Nat := 32 * 1024

/-- A number passed where a `size_t` is expected. -/
def sizeT (i : Int) : Nat := (i % 2 ^ 64).toNat

def ssizeT : Except Errno Nat → Int
  | .ok n => n
  | .error _ => -1

inductive Chan where
  | stdin
  | core
  | info
  deriving DecidableEq, Repr

/-- A call of `read` or `write` on `buf + off`, and what it returned. -/
structure Io where
  chan : Chan
  off : Nat
  count : Nat
  res : Except Errno Nat
  deriving DecidableEq, Repr

inductive Input where
  | core
  /-- the info pipe, which nobody has written to -/
  | pipe
  /-- nothing comes, and it does not end -/
  | idle
  /-- it is at its end -/
  | nothing
  /-- it is not open, or not for reading -/
  | refused
  deriving DecidableEq, Repr

structure Tee where
  /-- what has not been read of the core yet -/
  stdin : List Byte
  input : Input := .core
  /-- what `run.core.output_fd` has got -/
  core : List Byte := []
  /-- what has entered the info pipe -/
  info : List Byte := []
  /-- `buf`, up to its last byte that is not zero -/
  buf : List Byte := []
  bufRead : Int := 0
  bufWrite : Int := 0
  /-- `run.pid` -/
  pid : Int
  /-- the info pipe is in non-blocking mode -/
  nonblock : Bool := true
  /-- `info_pipe[1]` is open -/
  infoOpen : Bool := true
  /-- the other end of the info pipe is closed -/
  broken : Bool := false
  /-- the other end is open, but nobody reads it -/
  unread : Bool := false
  /-- how much the info pipe holds -/
  room : Nat := 64 * 1024
  io : List Io := []
  deriving DecidableEq, Repr

def Tee.record (t : Tee) (e : Io) : Tee := { t with io := t.io ++ [e] }

/-- `n` bytes of an array from `off` on; the array is zero at first. -/
def slice (b : List Byte) (off n : Nat) : List Byte := (b.drop off).takeD n 0

def overwrite (b : List Byte) (off : Nat) (data : List Byte) : List Byte :=
  b.takeD off 0 ++ data ++ b.drop (off + data.length)

abbrev TeeRun := Run Answer Fault Tee

/-- How `read` of `count` bytes goes; `none` if it waits for ever. -/
def Tee.readRes (t : Tee) (w : Answer) (count : Nat) : Option (Except Errno Nat) :=
  match w with
  | .err e => some (.error e)
  | w =>
    match t.input with
    | .core => some (.ok (w.atMost (min count t.stdin.length)))
    -- `main` itself has the other end
    | .pipe => if t.infoOpen then none else some (.ok 0)
    | .idle => none
    | .nothing => some (.ok 0)
    | .refused => some (.error .ebadf)

def read (off count : Nat) : TeeRun (Except Errno Nat) := do
  let w ← ask
  let t ← get
  match t.readRes w count with
  | none => stuck
  | some (.error e) =>
    modify fun t => t.record ⟨.stdin, off, count, .error e⟩
    return .error e
  | some (.ok n) =>
    modify fun t =>
      { t with stdin := t.stdin.drop n, buf := overwrite t.buf off (t.stdin.take n) }.record
        ⟨.stdin, off, count, .ok n⟩
    return .ok n

/-- How the info pipe takes `n` bytes; one that nobody reads is full some time, and
then it stays so. -/
def Tee.fill (t : Tee) (n : Nat) : Option (Except Errno Nat) :=
  let free := t.room - t.info.length
  if !t.unread ∨ n ≤ free then some (.ok n)
  else if t.nonblock then if free = 0 then some (.error .eagain) else some (.ok free)
  else none

/-- How `write` of `count` bytes to the info pipe goes; `none` if it waits for ever. -/
def Tee.infoRes (t : Tee) (w : Answer) (count : Nat) : Option (Except Errno Nat) :=
  if !t.infoOpen then some (.error .ebadf)
  else if count = 0 then some (.ok 0)
  else if t.broken then some (.error .epipe)
  else
    match w with
    | .err .eagain => if t.nonblock then some (.error .eagain) else t.fill count
    | .err .epipe => if t.unread then t.fill count else some (.error .epipe)
    | .err e => some (.error e)
    | w => t.fill (w.atMost count)

/-- How `write` of `count` bytes to the core output goes.  A size that is no
`ssize_t` reaches beyond all memory: then the answer is `EFAULT`. -/
def coreRes (w : Answer) (count : Nat) : Except Errno Nat :=
  if count ≥ 2 ^ 63 then .error .other
  else
    match w with
    | .err e => if count = 0 then .ok 0 else .error e
    | w => .ok (w.atMost count)

def writeCore (off count : Nat) : TeeRun (Except Errno Nat) := do
  let w ← ask
  let r := coreRes w count
  modify fun t => t.record ⟨.core, off, count, r⟩
  match r with
  | .error e => return .error e
  | .ok n =>
    if off + count > bufSize then fault .outOfBounds
    else
      modify fun t => { t with core := t.core ++ slice t.buf off n }
      return .ok n

def writeInfo (off count : Nat) : TeeRun (Except Errno Nat) := do
  let w ← ask
  let t ← get
  match t.infoRes w count with
  | none => stuck
  | some r =>
    modify fun t => t.record ⟨.info, off, count, r⟩
    match r with
    | .error e =>
      -- nobody will ever read from the pipe again
      modify fun t => { t with broken := t.broken || decide (e = .epipe) }
      return .error e
    | .ok n =>
      if off + count > bufSize then fault .outOfBounds
      else
        modify fun t => { t with info := t.info ++ slice t.buf off n }
        return .ok n

/-- How `safe_read` and `safe_write` go on after a call that was made with
`size` of `count` bytes moved: they repeat it, or they return. -/
def repeatOr (count size : Nat) (rtn : Except Errno Nat) : Nat ⊕ Except Errno Nat :=
  match rtn with
  | .ok n =>
    if n > 0 ∧ size + n < count then .inl (size + n) else .inr (.ok (size + n))
  | .error e =>
    if e = .eintr then .inl size
    else if size = 0 then .inr (.error e)
    else .inr (.ok size)

/-- The loop of both.  `io size n` is the call for the `n` bytes behind the first
`size` ones. -/
def safeIo {σ : Type} (io : Nat → Nat → Run Answer Fault σ (Except Errno Nat)) (count : Nat) :
    Run Answer Fault σ (Except Errno Nat) :=
  forever (fun size => do return repeatOr count size (← io size (count - size))) 0

def safeRead (count : Nat) : TeeRun (Except Errno Nat) := safeIo read count

def safeWriteCore (off count : Nat) : TeeRun (Except Errno Nat) :=
  safeIo (fun size n => writeCore (off + size) n) count

def safeWriteInfo (off count : Nat) : TeeRun (Except Errno Nat) :=
  safeIo (fun size n => writeInfo (off + size) n) count

/-- `ACCESS_ONCE(run.pid)`, which `info_dump_thread` may have set. -/
def readPid : TeeRun Int := do
  let w ← ask
  match w with
  | .prepared p =>
    modify fun t => if t.pid = -1 then { t with pid := if p < 0 then -2 else p } else t
  | _ => pure ()
  return (← get).pid

/-- A turn of the loop that feeds the info pipe, with the number of tries. -/
def feedTurn (tries : Nat) : TeeRun (Nat ⊕ Unit) := do
  if tries < 50 then
    let t ← get
    let rtn ← safeWriteInfo t.bufWrite.toNat (sizeT (t.bufRead - t.bufWrite))
    let n := rtn.toOption.getD 0
    modify fun t => { t with bufWrite := t.bufWrite + n }
    let tries := if n > 0 then 0 else tries
    if (← readPid) ≠ -1 then return .inr ()
    else
      match rtn with
      | .error .eagain => return .inl (tries + 1)
      | .error _ => return .inr ()
      | .ok _ => return .inl tries
  else return .inr ()

/-- From the first `safe_read` to the end of the feeding loop; `false` if there
was nothing to read. -/
def feed : TeeRun Bool := do
  let rtn ← safeRead bufSize
  modify fun t => { t with bufRead := ssizeT rtn, bufWrite := 0 }
  if (← get).bufRead ≤ 0 then return false
  else
    forever feedTurn 0
    return true

def blockfd : TeeRun Unit := do
  match ← ask with
  | .err _ => pure ()
  | _ => modify fun t => { t with nonblock := false }

def copyTurn (infoFd : Bool) : TeeRun (Unit ⊕ Unit) := do
  match ← safeRead bufSize with
  | .error _ => return .inr ()
  | .ok rtn =>
    if rtn > 0 then
      let _ ← safeWriteCore 0 rtn
      if infoFd then
        let _ ← safeWriteInfo 0 rtn
      return .inl ()
    else return .inr ()

/-- What the two sinks have not got yet of what is in `buf`; `infoFd` is
`info_pipe[1] >= 0`.  The other branch of the `#ifdef` just closes the pipe. -/
def catchUp (libunwind infoFd : Bool) : TeeRun Unit := do
  if infoFd then
    if libunwind then
      blockfd
      let t ← get
      let _ ← safeWriteCore 0 (sizeT t.bufRead)
      if t.bufRead > t.bufWrite then
        let _ ← safeWriteInfo t.bufWrite.toNat (sizeT (t.bufRead - t.bufWrite))
    else
      modify fun t => { t with infoOpen := false }

/-- From behind the opening of the outputs to the end of the copy loop. -/
def transfer (libunwind infoFd : Bool) : TeeRun Unit := do
  catchUp libunwind infoFd
  forever (fun _ => copyTurn infoFd) ()

/-- What has become of the info pipe when the outputs are opened. -/
inductive InfoPipe where
  /-- it could not be created -/
  | absent
  /-- it could not be put into non-blocking mode, so there is no thread either -/
  | blocking
  /-- the thread that reads it could not be created -/
  | noThread
  | thread
  deriving DecidableEq, Repr

def InfoPipe.leave (pipe : InfoPipe) (t : Tee) : Tee :=
  { t with unread := true, nonblock := t.nonblock && decide (pipe ≠ .blocking) }

/-- The copying of `main` as a whole. -/
def tee (libunwind : Bool) (pipe : InfoPipe) : TeeRun Unit := do
  if pipe = .thread then
    let _ ← feed
  else modify pipe.leave
  transfer libunwind (pipe ≠ .absent)

def Tee.start (stdin : List Byte) (pid : Int) : Tee := { stdin, pid }

end Crashinfo
