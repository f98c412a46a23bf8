import Crashinfo.Conf
import Crashinfo.Lib.Table
import Crashinfo.Sys

/-!
# The process and the calls it makes

`Host` is what the system knows of the process: its descriptor table, the files
it may meet, the processes it has forked.  A descriptor says what it refers to
and whether `exec` closes it; the objects are named by where they come from, and
pipes are numbered, so two descriptors of one pipe can be told from those of
another.

Everything that happens is also written down: every descriptor that was opened
or closed, every table there was, every call that failed, every message.
-/

namespace Crashinfo

open Script Script.Run

/-- What a descriptor refers to. -/
inductive Obj where
  /-- what the process was started with as descriptor `k` -/
  | inherited (k : Nat)
  /-- the connection of `openlog` -/
  | syslog
  /-- a configuration file -/
  | conf
  /-- `conf.core_path` -/
  | core
  /-- `/dev/null` -/
  | null
  /-- an output file -/
  | file (name : Str)
  /-- `run.proc_fd` -/
  | procDir
  /-- a file or a directory below it -/
  | proc
  | pipeR (p : Nat)
  | pipeW (p : Nat)
  deriving DecidableEq, Repr

structure Desc where
  obj : Obj
  cloexec : Bool
  deriving DecidableEq, Repr

/-- A process that was forked, with its descriptors after `exec`; `arg1` and `arg2` are
what `spawn_proc` got for `@1` and `@2`. -/
structure Kid where
  cmd : Str
  arg1 : Option Str
  arg2 : Option Str
  pid : Nat
  fds : Table Desc
  deriving DecidableEq, Repr

inductive Prio where
  | crit
  | err
  | warn
  | notice
  | info
  | dbg
  deriving DecidableEq, Repr

inductive Call where
  | openFile
  | openNull
  | openDir
  | openCore
  | openConf
  | readlink
  | mkdir
  | dup
  | pipe2
  | fcntl
  | thread
  | fork
  | malloc
  | strdup
  | fdopen
  | syslog
  | openProc
  | strndup
  | parseLine
  deriving DecidableEq, Repr

/-- A call that failed, with the number of pipes and of processes there were. -/
structure Failure where
  call : Call
  pipes : Nat
  kids : Nat
  deriving DecidableEq, Repr

/-- A call of `waitpid`: whether the process was killed before, and the descriptors
there are. -/
structure Reap where
  pid : Nat
  killed : Bool
  fds : Table Desc
  deriving DecidableEq, Repr

structure Host where
  fds : Table Desc
  /-- the tables there were before -/
  past : List (Table Desc) := []
  opened : List (Nat × Desc) := []
  closed : List (Nat × Desc) := []
  /-- the numbers `close` was called with that were not open -/
  badClose : List Int := []
  /-- the names that exist -/
  files : List Str
  /-- the output files that were opened, and whether they were created -/
  outputs : List (Str × Bool) := []
  pipes : Nat := 0
  kids : List Kid := []
  killed : List Nat := []
  waited : List Nat := []
  reaps : List Reap := []
  /-- how many nodes there were for filters -/
  nodes : Nat := 0
  /-- the PIDs that were put into nodes -/
  filters : List Nat := []
  /-- the nodes that were freed, with their PIDs -/
  freed : List (Option Nat) := []
  /-- the static `fd` of `open_devnull` -/
  null : Int := -1
  log : List (Prio × Str) := []
  failed : List Failure := []
  deriving DecidableEq, Repr

def Host.std (files : List Str) : Host where
  fds := ⟨[some ⟨.inherited 0, false⟩, some ⟨.inherited 1, false⟩, some ⟨.inherited 2, false⟩]⟩
  files := files

abbrev HostRun := Run Answer Fault Host

def Host.at (h : Host) (fd : Int) : Option Desc := if 0 ≤ fd then h.fds.get fd.toNat else none

def StdOpen (h : Host) : Prop := ∀ fd < 3, h.fds.get fd ≠ none

/-- A descriptor of the process itself or of the process it forked as number
`j`. -/
def Host.desc (h : Host) : Option Nat → Nat → Option Desc
  | none, fd => h.fds.get fd
  | some j, fd => (h.kids[j]?).bind fun k => k.fds.get fd

def Host.alloc (h : Host) (d : Desc) : Host :=
  { h with
    fds := h.fds.put h.fds.free d
    past := h.past ++ [h.fds]
    opened := h.opened ++ [(h.fds.free, d)] }

def Host.close (h : Host) (fd : Int) : Host :=
  match h.at fd with
  | some d =>
    { h with
      fds := h.fds.remove fd.toNat
      past := h.past ++ [h.fds]
      closed := h.closed ++ [(fd.toNat, d)] }
  | none => { h with badClose := h.badClose ++ [fd] }

def Host.fail (h : Host) (c : Call) : Host :=
  { h with failed := h.failed ++ [⟨c, h.pipes, h.kids.length⟩] }

def Host.pipe (h : Host) : Host :=
  ({ h with pipes := h.pipes + 1 }.alloc ⟨.pipeR h.pipes, true⟩).alloc ⟨.pipeW h.pipes, true⟩

def dup2 (t : Table Desc) (old : Int) (new : Nat) : Table Desc :=
  if old = new then t
  else
    match if 0 ≤ old then t.get old.toNat else none with
    | some d => t.put new { d with cloexec := false }
    | none => t

/-- What is left of the child's descriptors behind `exec`. -/
def childFds (t : Table Desc) (infd outfd : Int) : Table Desc :=
  (dup2 (dup2 t infd 0) outfd 1).keep fun d => !d.cloexec

/-- The process with one more child: its `infd` becomes descriptor 0 and its
`outfd` descriptor 1. -/
def Host.spawn (h : Host) (cmd : Str) (infd outfd : Int) (arg1 arg2 : Option Str) : Host :=
  { h with kids := h.kids ++ [⟨cmd, arg1, arg2, h.kids.length + 1, childFds h.fds infd outfd⟩] }

def Host.filter (h : Host) (cmd : Str) (infd outfd : Int) : Host :=
  { h.spawn cmd infd outfd none none with
    nodes := h.nodes + 1
    filters := h.filters ++ [h.kids.length + 1] }

/-- The descriptor that was opened last has the number `h.fds.free`. -/
def alloc (d : Desc) : HostRun Nat := do
  let h ← get
  modify fun h => h.alloc d
  return h.fds.free

def close (fd : Int) : HostRun Unit := modify fun h => h.close fd

def failing {α : Type} (c : Call) (e : Errno) : HostRun (Except Errno α) := do
  modify fun h => h.fail c
  return .error e

def syscall {α : Type} (c : Call) (act : HostRun α) : HostRun (Except Errno α) := do
  match ← ask with
  | .err e => failing c e
  | _ => return .ok (← act)

def logmsg (prio : Prio) (text : Str) : HostRun Unit :=
  modify fun h => { h with log := h.log ++ [(prio, text)] }

def pipe2 : HostRun (Except Errno (Nat × Nat)) :=
  syscall .pipe2 do
    let p := (← get).pipes
    modify fun h => { h with pipes := p + 1 }
    let r ← alloc ⟨.pipeR p, true⟩
    let w ← alloc ⟨.pipeW p, true⟩
    return (r, w)

def dup (fd : Int) : HostRun (Except Errno Nat) := do
  match (← get).at fd with
  | none => return .error .ebadf
  | some d => syscall .dup (alloc { d with cloexec := false })

def fdopen (fd : Int) : HostRun (Except Errno Unit) := do
  match (← get).at fd with
  | none => return .error .ebadf
  | some _ => syscall .fdopen (pure ())

/-- `fork()` and what the child does up to `execvp`. -/
def fork (cmd : Str) (infd outfd : Int) (arg1 arg2 : Option Str) : HostRun (Except Errno Nat) :=
  syscall .fork do
    let pid := (← get).kids.length + 1
    modify fun h => h.spawn cmd infd outfd arg1 arg2
    return pid

def kill (pid : Nat) : HostRun Unit := modify fun h => { h with killed := h.killed ++ [pid] }

def waitpid (pid : Nat) : HostRun Unit := modify fun h =>
  { h with
    waited := h.waited ++ [pid]
    reaps := h.reaps ++ [⟨pid, decide (pid ∈ h.killed), h.fds⟩] }

def newNode : HostRun Unit := modify fun h => { h with nodes := h.nodes + 1 }

def putPid (pid : Nat) : HostRun Unit := modify fun h => { h with filters := h.filters ++ [pid] }

def freeNode (pid : Option Nat) : HostRun Unit :=
  modify fun h => { h with freed := h.freed ++ [pid] }

def openNull (cloexec : Bool) : HostRun (Except Errno Nat) :=
  syscall .openNull (alloc ⟨.null, cloexec⟩)

/-- The first half of `open_devnull`: the descriptor is opened once. -/
def cacheNull : HostRun Unit := do
  if (← get).null < 0 then
    match ← openNull false with
    | .error _ => pure ()
    | .ok fd => modify fun h => { h with null := fd }

def fdOf : Except Errno Nat → Int
  | .ok fd => fd
  | .error _ => -1

def openDevnull : HostRun Int := do
  cacheNull
  return fdOf (← dup (← get).null)

/-- A call that creates `name` and does `act`; if `excl` is set the name must be
new.  A name is one of a file just if it is in the table: two names of one file, and
files that somebody else creates meanwhile, are not modelled, and `EEXIST` for a name
that is not in the table counts as success. -/
def creating {α : Type} (c : Call) (name : Str) (excl : Bool) (act : HostRun α) :
    HostRun (Except Errno α) := do
  let w ← ask
  let h ← get
  match w.create (excl && decide (name ∈ h.files)) with
  | some e => failing c e
  | none =>
    modify fun h => { h with files := if name ∈ h.files then h.files else name :: h.files }
    return .ok (← act)

/-- `open(name, flags, 0600)` for an output; `excl` is `O_EXCL`. -/
def openFile (name : Str) (excl : Bool) : HostRun (Except Errno Nat) := do
  let new := decide (name ∉ (← get).files)
  creating .openFile name excl do
    modify fun h => { h with outputs := h.outputs ++ [(name, new)] }
    alloc ⟨.file name, true⟩

def mkdir (path : Str) : HostRun (Except Errno Unit) := creating .mkdir path true (pure ())

/-! ### The descriptors -/

theorem Host.at_natCast (h : Host) (fd : Nat) : h.at fd = h.fds.get fd := by
  rw [Host.at, if_pos (Int.natCast_nonneg fd), Int.toNat_natCast]

theorem Host.close_of_get {h : Host} {fd : Nat} {d : Desc} (hd : h.fds.get fd = some d) :
    h.close fd = { h with
      fds := h.fds.remove fd, past := h.past ++ [h.fds], closed := h.closed ++ [(fd, d)] } := by
  rw [Host.close, Host.at_natCast, hd, Int.toNat_natCast]

theorem Host.close_failed (h : Host) (fd : Int) : (h.close fd).failed = h.failed := by
  rw [Host.close]
  split
  · rfl
  · rfl

theorem dup2_get {t : Table Desc} {old new : Nat} {d : Desc} (hne : old ≠ new)
    (hold : t.get old = some d) (k : Nat) :
    (dup2 t old new).get k = if k = new then some { d with cloexec := false } else t.get k := by
  rw [dup2, if_neg (by omega), if_pos (Int.natCast_nonneg old), Int.toNat_natCast, hold]
  exact Table.get_put _ _ _ _

/-- What a child is given as its input and output stays open, and all that is
not closed by `exec`. -/
theorem childFds_get {t : Table Desc} {infd outfd : Nat} {di dout : Desc} (hin : 1 < infd)
    (hout : 1 < outfd) (hdi : t.get infd = some di) (hdo : t.get outfd = some dout) (k : Nat) :
    (childFds t infd outfd).get k =
      if k = 0 then some { di with cloexec := false }
      else if k = 1 then some { dout with cloexec := false }
      else (t.get k).filter fun d => !d.cloexec := by
  have hdo' : (dup2 t infd 0).get outfd = some dout := by
    rw [dup2_get (by omega) hdi, if_neg (by omega), hdo]
  rw [childFds, Table.get_keep, dup2_get (by omega) hdo', dup2_get (by omega) hdi]
  by_cases h1 : k = 1
  · rw [if_pos h1, if_neg (by omega), if_pos h1]
    rfl
  · rw [if_neg h1, if_neg h1]
    by_cases h0 : k = 0
    · rw [if_pos h0, if_pos h0]
      rfl
    · rw [if_neg h0, if_neg h0]

theorem of_syscall_done {α : Type} {c : Call} {act : HostRun α} {h h' : Host} {o o' : List Answer}
    {r : Except Errno α} (hrun : syscall c act h o = .done r h' o') :
    ∃ w o₁, o = w :: o₁ ∧ ((∃ e, w = .err e ∧ r = .error e ∧ h' = h.fail c ∧ o' = o₁) ∨
      NoErr w ∧ ∃ a, r = .ok a ∧ act h o₁ = .done a h' o') := by
  obtain ⟨w, h₁, o₁, hask, hrest⟩ := of_bind_done hrun
  cases o with
  | nil => cases hask
  | cons w o =>
    cases hask
    refine ⟨w, _, rfl, ?_⟩
    cases w with
    | err e =>
      cases hrest
      exact Or.inl ⟨e, rfl, rfl, rfl, rfl⟩
    | ok | amount k | prepared p | thread a | status b n =>
      obtain ⟨a, h₁, o₁, hact, hdone⟩ := of_bind_done hrest
      cases hdone
      exact Or.inr ⟨nofun, a, rfl, hact⟩

/-! ### What the calls come to -/

section Specs

variable {P : Answer → Prop} {h : Host} {K : Stop Fault → Host → Prop}

theorem meets_alloc {d : Desc} {Q : Nat → Host → Prop} (hQ : Q h.fds.free (h.alloc d)) :
    Meets P (alloc d) h Q K :=
  meets_bind (meets_get (meets_bind (meets_modify (meets_pure hQ))))

theorem ends_alloc {d : Desc} {n : Nat} {Q : Nat → Host → Prop} (hQ : Q h.fds.free (h.alloc d)) :
    Ends P n (alloc d) h Q :=
  ends_step (ends_get (ends_step (ends_modify (ends_pure hQ))))

theorem ends_failing {α : Type} {c : Call} {e : Errno} {n : Nat} {Q : Except Errno α → Host → Prop}
    (hQ : Q (.error e) (h.fail c)) : Ends P n (failing c e) h Q :=
  ends_step (ends_modify (ends_pure hQ))

theorem meets_syscall {α : Type} {c : Call} {act : HostRun α} {Q : Except Errno α → Host → Prop}
    (herr : ∀ e, P (.err e) → Q (.error e) (h.fail c))
    (hok : Meets P act h (fun a h' => Q (.ok a) h') K) (hcut : K .cut h) :
    Meets P (syscall c act) h Q K := by
  refine meets_bind (meets_ask (fun w hw => ?_) hcut)
  cases w with
  | err e => exact (ends_failing (n := 0) (herr e hw)).meets fun h => absurd h (Nat.lt_irrefl 0)
  | ok | amount k | prepared p | thread a | status b n => exact hok.andThen fun _ _ hq => meets_pure hq

theorem leads_syscall {α : Type} {c : Call} {act : HostRun α} {Q : Except Errno α → Host → Prop}
    (herr : ∀ e, Q (.error e) (h.fail c)) (hok : Leads act h (fun a h' => Q (.ok a) h')) :
    Leads (syscall c act) h Q :=
  meets_syscall (fun e _ => herr e) hok trivial

theorem meets_creating {α : Type} {c : Call} {name : Str} {excl : Bool} {act : HostRun α}
    {Q : Except Errno α → Host → Prop} (herr : ∀ e, Q (.error e) (h.fail c))
    (hok : ∀ files, Leads act { h with files := files } (fun a h' => Q (.ok a) h')) :
    Leads (creating c name excl act) h Q := by
  refine meets_bind (meets_ask (fun w _ => meets_bind (meets_get ?_)) trivial)
  cases w.create (excl && decide (name ∈ h.files)) with
  | some e => exact (ends_failing (n := 0) (herr e)).meets fun h => absurd h (Nat.lt_irrefl 0)
  | none => exact meets_bind (meets_modify ((hok _).andThen fun _ _ hq => meets_pure hq))

theorem ends_syscall {α : Type} {c : Call} {act : HostRun α} {Q : Except Errno α → Host → Prop}
    {n : Nat} (herr : ∀ e, P (.err e) → Q (.error e) (h.fail c))
    (hok : Ends P n act h (fun a h' => Q (.ok a) h')) : Ends P (1 + n) (syscall c act) h Q := by
  have hdone : Ends P n (do return .ok (← act)) h Q :=
    ends_bind (n := 0) (hok.mono (Nat.le_refl n) fun _ _ hq => ends_pure hq)
  refine ends_bind (ends_ask fun w hw => ?_)
  cases w with
  | err e => exact ends_failing (herr e hw)
  | ok => exact hdone
  | amount k => exact hdone
  | prepared p => exact hdone
  | thread a => exact hdone
  | status b n => exact hdone

theorem ends_pipe2 {Q : Except Errno (Nat × Nat) → Host → Prop}
    (herr : ∀ e, P (.err e) → Q (.error e) (h.fail .pipe2))
    (hok : Q (.ok (h.fds.free, (h.fds.put h.fds.free ⟨.pipeR h.pipes, true⟩).free)) h.pipe) :
    Ends P 1 pipe2 h Q := by
  refine ends_syscall (n := 0) herr (ends_step (ends_get (ends_step (ends_modify ?_))))
  exact ends_step (ends_alloc (ends_step (ends_alloc (ends_pure hok))))

theorem ends_fork {cmd : Str} {infd outfd : Int} {arg1 arg2 : Option Str}
    {Q : Except Errno Nat → Host → Prop}
    (herr : ∀ e, P (.err e) → Q (.error e) (h.fail .fork))
    (hok : Q (.ok (h.kids.length + 1)) (h.spawn cmd infd outfd arg1 arg2)) :
    Ends P 1 (fork cmd infd outfd arg1 arg2) h Q :=
  ends_syscall (n := 0) herr (ends_step (ends_get (ends_step (ends_modify (ends_pure hok)))))

theorem ends_creating {α : Type} {c : Call} {name : Str} {excl : Bool} {act : HostRun α}
    {Q : Except Errno α → Host → Prop} {n : Nat}
    (hexist : excl ∧ name ∈ h.files → Q (.error .eexist) (h.fail c))
    (herr : ∀ e, e ≠ .eexist → P (.err e) → Q (.error e) (h.fail c))
    (hok : ¬(excl ∧ name ∈ h.files) →
      Ends P n act { h with files := if name ∈ h.files then h.files else name :: h.files }
        (fun a h' => Q (.ok a) h')) : Ends P (1 + n) (creating c name excl act) h Q := by
  refine ends_bind (ends_ask fun w hw => ?_)
  refine ends_step (ends_get ?_)
  cases hw' : w.create (excl && decide (name ∈ h.files)) with
  | some e =>
    rcases Answer.create_eq_some hw' with ⟨rfl, ht⟩ | ⟨he, rfl⟩
    · rw [Bool.and_eq_true, decide_eq_true_eq] at ht
      exact ends_failing (hexist ht)
    · exact ends_failing (herr e he hw)
  | none =>
    have ht := Answer.create_eq_none hw'
    rw [← Bool.not_eq_true, Bool.and_eq_true, decide_eq_true_eq] at ht
    refine ends_step (ends_modify (ends_bind (n := 0) ?_))
    exact (hok ht).mono (Nat.le_refl n) fun _ _ hq => ends_pure hq

end Specs

end Crashinfo
