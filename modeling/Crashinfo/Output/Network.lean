import Crashinfo.Lib.Flow
import Crashinfo.Output.Close
import Crashinfo.Output.Readers

/-!
# The filters at work

The filters run beside the program, each at its own speed.  What they can do is up
to their descriptors: a filter reads from the pipe that is its descriptor 0, and
sees its end when the pipe is empty and no process that is left can write to it;
what it writes to a pipe that no process that is left can read kills it.  The
program itself ignores `SIGPIPE`.

What `main` does to the outputs once they are open is a list of acts: it writes to
them, in whatever order, and then it runs `close_output` (`closeActs`), first for
the core and then for the information.  It waits where `close_output` calls
`waitpid`, and goes on with what became of the filter as the answer.

The filters themselves are given (`prog`).  The programs of `notify` are started,
and whatever they inherit counts, but they take no part.
-/

namespace Crashinfo

open Script Script.Run Flow

inductive Act where
  | send (fd : Int) (b : Byte)
  | close (fd : Int)
  | wait (f : RunFilter)
  | notify (name cmd : Str)
  deriving DecidableEq

def Act.isSend : Act → Bool
  | .send _ _ => true
  | _ => false

/-- The calls an act consists of, if it is not a write. -/
def Act.code (env : Env) : Act → HostRun Unit
  | .send _ _ => pure ()
  | .close fd => Crashinfo.close fd
  | .wait f => do
    waitFilter env f
    freeNode (some f.pid)
  | .notify name cmd => notifyAll env name [cmd]

def notifyActs (cmds : List Str) : Option Str → List Act
  | some name => cmds.map (.notify name)
  | none => []

theorem exists_notify_of_mem {cmds : List Str} {name : Option Str} {a : Act}
    (h : a ∈ notifyActs cmds name) : ∃ name cmd, a = .notify name cmd := by
  cases name with
  | none => exact absurd h List.not_mem_nil
  | some name =>
    obtain ⟨cmd, -, rfl⟩ := List.mem_map.mp h
    exact ⟨name, cmd, rfl⟩

def closeActs (c : ConfOutput) (r : RunOutput) : List Act :=
  .close r.outputFd :: (r.filter.map .wait ++ notifyActs c.notify r.outputFilename)

def runActs (env : Env) : List Act → HostRun Unit
  | [] => pure ()
  | a :: acts => do
    a.code env
    runActs env acts

theorem runActs_append (env : Env) (acts acts' : List Act) :
    runActs env (acts ++ acts') = (do runActs env acts; runActs env acts') := by
  induction acts with
  | nil => rfl
  | cons a acts ih => simp [runActs, ih]

theorem runActs_calls (env : Env) (acts : List Act) :
    runActs env (acts.filter fun a => !a.isSend) = runActs env acts := by
  induction acts with
  | nil => rfl
  | cons a acts ih =>
    cases a with
    | send fd b => exact ih
    | close fd => exact congrArg (Act.code env (.close fd) >>= fun _ => ·) ih
    | wait f => exact congrArg (Act.code env (.wait f) >>= fun _ => ·) ih
    | notify name cmd => exact congrArg (Act.code env (.notify name cmd) >>= fun _ => ·) ih

theorem runActs_wait (env : Env) (fs : List RunFilter) :
    runActs env (fs.map .wait) = waitFilters env fs := by
  induction fs with
  | nil => rfl
  | cons f fs ih => simp [runActs, waitFilters, Act.code, ih]

theorem runActs_notify (env : Env) (name : Str) (cmds : List Str) :
    runActs env (cmds.map (.notify name)) = notifyAll env name cmds := by
  induction cmds with
  | nil => rfl
  | cons cmd cmds ih => simp [runActs, notifyAll, Act.code, ih]

/-- **`close_output` is its acts**, one after the other. -/
theorem closeOutput_eq (env : Env) (c : ConfOutput) {r : RunOutput} (hr : ¬r.outputFd < 0) :
    closeOutput env c r =
      (do runActs env (closeActs c r); return { r with output := false, outputFd := -1 }) := by
  rw [closeOutput, if_neg hr, closeActs, runActs, runActs_append, runActs_wait]
  cases r.outputFilename with
  | some name =>
    rw [notifyActs, runActs_notify]
    simp [Act.code]
  | none => simp [Act.code, notifyActs, runActs]

/-! ### Processes and pipes -/

/-- The program with the processes it has started; those have no pipe in common
with others. -/
structure Net where
  host : Host
  /-- how far the process that was forked as number `j` has come -/
  stage : Nat → Stage Byte := fun _ => {}
  pipe : Nat → List Byte := fun _ => []
  /-- what was written to an output file since it was opened -/
  file : Str → List Byte := fun _ => []
  /-- what `main` has still to do -/
  acts : List Act

namespace Net

/-- The object is open in the program, or in a process that is left. -/
def Holds (s : Net) (o : Obj) : Prop :=
  ∃ who fd, s.host.obj who fd = some o ∧ ∀ j, who = some j → (s.stage j).phase.alive = true

def Takes (cap : Nat) (s : Net) : Obj → Prop
  | .pipeW q => s.Holds (.pipeR q) ∧ (s.pipe q).length < cap
  | _ => True

/-- Nobody will ever read what is written to the object. -/
def Refuses (s : Net) : Obj → Prop
  | .pipeW q => ¬s.Holds (.pipeR q)
  | _ => False

def setStage (s : Net) (j : Nat) (t : Stage Byte) : Net :=
  { s with stage := Function.update s.stage j t }

def setPipe (s : Net) (q : Nat) (bs : List Byte) : Net :=
  { s with pipe := Function.update s.pipe q bs }

def setFile (s : Net) (name : Str) (bs : List Byte) : Net :=
  { s with file := Function.update s.file name bs }

def setActs (s : Net) (acts : List Act) : Net := { s with acts }

def write (s : Net) (o : Obj) (b : Byte) : Net :=
  match o with
  | .pipeW q => s.setPipe q (s.pipe q ++ [b])
  | .file name => s.setFile name (s.file name ++ [b])
  | _ => s

/-- What the calls of an act are answered: `waitpid` says how the filter has left. -/
def Told (s : Net) : Act → List Answer → Prop
  | .wait f, o => ∃ w, o = [w] ∧
      match (s.stage (f.pid - 1)).phase with
      | .exited => ∃ n, w = .status false n
      | .killed => w = .status true sigpipe
      | _ => False
  | _, _ => True

end Net

/-- A step of the filter that was forked as number `j`. -/
inductive FilterStep (w : Worker Byte) (cap : Nat) (s : Net) (j : Nat) : Net → Prop
  | take {p : Nat} {b : Byte} {bs : List Byte} (hin : s.host.obj (some j) 0 = some (.pipeR p))
      (hpipe : s.pipe p = b :: bs) (hwants : (s.stage j).Wants w) :
      FilterStep w cap s j ((s.setStage j ((s.stage j).take b)).setPipe p bs)
  | finish {p : Nat} (hin : s.host.obj (some j) 0 = some (.pipeR p)) (hpipe : s.pipe p = [])
      (hheld : ¬s.Holds (.pipeW p)) (hwants : (s.stage j).Wants w) :
      FilterStep w cap s j (s.setStage j ((s.stage j).turn .ended))
  | put {o : Obj} {b : Byte} (hout : s.host.obj (some j) 1 = some o)
      (hwrites : (s.stage j).Writes w b) (htakes : s.Takes cap o) :
      FilterStep w cap s j ((s.setStage j ((s.stage j).put b)).write o b)
  | kill {o : Obj} {b : Byte} (hout : s.host.obj (some j) 1 = some o)
      (hwrites : (s.stage j).Writes w b) (hrefuses : s.Refuses o) :
      FilterStep w cap s j (s.setStage j ((s.stage j).turn .killed))
  | leave (hdone : (s.stage j).Done w) :
      FilterStep w cap s j (s.setStage j ((s.stage j).turn .exited))

section

variable (prog : Str → Worker Byte) (cap k : Nat) (env : Env)

/-- A step of one of the `k` filters, or of the program. -/
inductive NetStep (s : Net) : Net → Prop
  | filter {j : Nat} {kid : Kid} {s' : Net} (hj : j < k) (hkid : s.host.kids[j]? = some kid)
      (hstep : FilterStep (prog kid.cmd) cap s j s') : NetStep s s'
  | send {fd : Int} {b : Byte} {acts : List Act} {o : Obj} (hacts : s.acts = .send fd b :: acts)
      (hout : (s.host.at fd).map Desc.obj = some o) (htakes : s.Takes cap o) :
      NetStep s ((s.write o b).setActs acts)
  /-- `EPIPE` -/
  | lose {fd : Int} {b : Byte} {acts : List Act} {o : Obj} (hacts : s.acts = .send fd b :: acts)
      (hout : (s.host.at fd).map Desc.obj = some o) (hrefuses : s.Refuses o) :
      NetStep s (s.setActs acts)
  | act {a : Act} {acts : List Act} {o : List Answer} {h : Host} (hacts : s.acts = a :: acts)
      (hcall : a.isSend = false) (htold : s.Told a o)
      (hrun : ∀ rest, a.code env s.host (o ++ rest) = .done () h rest) :
      NetStep s { s.setActs acts with host := h }

/-- The states the program and the filters come to after `m` steps, in whatever
order they make them. -/
inductive NetRun (s₀ : Net) : Nat → Net → Prop
  | start : NetRun s₀ 0 s₀
  | step {m : Nat} {s s' : Net} (hrun : NetRun s₀ m s) (hstep : NetStep prog cap k env s s') :
      NetRun s₀ (m + 1) s'

end

def sends (fd : Int) : List Act → List Byte
  | [] => []
  | .send fd' b :: acts => if fd' = fd then b :: sends fd acts else sends fd acts
  | _ :: acts => sends fd acts

/-- What `main` may do with the outputs: nothing is written to an output that is
closed, and but for that writing goes on while `close_output` waits. -/
structure MainActs (conf : Conf) (info core : RunOutput) (acts : List Act) : Prop where
  calls : acts.filter (fun a => !a.isSend) = closeActs conf.core core ++ closeActs conf.info info
  only : ∀ fd b, .send fd b ∈ acts → fd = core.outputFd ∨ fd = info.outputFd
  before : ∀ fd, acts.Pairwise fun a a' => a = .close fd → ∀ b, a' ≠ .send fd b

/-! ### What the acts do to the descriptors -/

/-- `exec` closes all ends of the pipes from `base` on. -/
def Sealed (base : Nat) (h : Host) : Prop :=
  ∀ fd d q, base ≤ q → h.fds.get fd = some d → d.obj = .pipeR q ∨ d.obj = .pipeW q →
    d.cloexec = true

/-- From `h` to `h'` nobody has come by an end of a pipe from `base` on. -/
structure Unshared (base : Nat) (h h' : Host) : Prop where
  kids : h.kids <+: h'.kids
  pipes : ∀ who fd o q, base ≤ q → o = .pipeR q ∨ o = .pipeW q → h'.obj who fd = some o →
    h.obj who fd = some o

section Acts

variable {base : Nat} {h h' h'' : Host} {env : Env}

theorem Unshared.of_eq (hfds : h'.fds = h.fds) (hkids : h'.kids = h.kids) :
    Unshared base h h' where
  kids := hkids ▸ List.prefix_rfl
  pipes := by
    intro who fd o q _ _ ho
    cases who with
    | none => rwa [Host.obj, Host.desc, hfds] at ho
    | some j => rwa [obj_kid_congr hkids] at ho

theorem Unshared.trans (h01 : Unshared base h h') (h12 : Unshared base h' h'') :
    Unshared base h h'' where
  kids := h01.kids.trans h12.kids
  pipes := fun who fd o q hb hq ho => h01.pipes who fd o q hb hq (h12.pipes who fd o q hb hq ho)

theorem Sealed.of_eq (hs : Sealed base h) (hfds : h'.fds = h.fds) : Sealed base h' := by
  rw [Sealed, hfds]
  exact hs

theorem get_of_close {fd : Int} {k : Nat} {d : Desc} (hget : (h.close fd).fds.get k = some d) :
    h.fds.get k = some d := by
  rw [Host.close] at hget
  split at hget
  · rw [Table.get_remove] at hget
    split at hget
    · cases hget
    · exact hget
  · exact hget

theorem get_close_of_ne {fd : Int} {k : Nat} {d : Desc} (hne : fd ≠ k)
    (hget : h.fds.get k = some d) : (h.close fd).fds.get k = some d := by
  rw [Host.close]
  split
  · rename_i e he
    dsimp only
    rw [Table.get_remove, if_neg ?_]
    · exact hget
    · intro heq
      rw [Host.at] at he
      split at he
      · omega
      · cases he
  · exact hget

theorem Sealed.close (hs : Sealed base h) (fd : Int) : Sealed base (h.close fd) :=
  fun k d q hb hget hq => hs k d q hb (get_of_close hget) hq

theorem unshared_close (fd : Int) : Unshared base h (h.close fd) where
  kids := (close_sameProcs h fd).kids ▸ List.prefix_rfl
  pipes := by
    intro who k o q _ _ ho
    cases who with
    | none =>
      obtain ⟨d, hget, rfl⟩ := obj_parent ho
      exact Option.map_eq_some_iff.mpr ⟨d, get_of_close hget, rfl⟩
    | some j => rwa [obj_kid_congr (close_sameProcs h fd).kids] at ho

theorem get_dup2 {t : Table Desc} {old : Int} {new k : Nat} {d : Desc}
    (hget : (dup2 t old new).get k = some d) :
    (∃ e, 0 ≤ old ∧ t.get old.toNat = some e ∧ e.obj = d.obj) ∨ t.get k = some d := by
  rw [dup2] at hget
  split at hget
  · exact Or.inr hget
  split at hget
  · rename_i e he
    rw [Table.get_put] at hget
    split at hget
    · cases hget
      split at he
      · rename_i hpos
        exact Or.inl ⟨e, hpos, he, rfl⟩
      · cases he
    · exact Or.inr hget
  · exact Or.inr hget

/-- What a child has is what it was given, or what `exec` does not close. -/
theorem get_childFds {t : Table Desc} {fd : Int} {k : Nat} {d : Desc}
    (hget : (childFds t fd fd).get k = some d) :
    (∃ e, 0 ≤ fd ∧ t.get fd.toNat = some e ∧ e.obj = d.obj) ∨
      t.get k = some d ∧ d.cloexec = false := by
  rw [childFds, Table.get_keep] at hget
  obtain ⟨hget, hopen⟩ := Option.filter_eq_some_iff.mp hget
  rw [Bool.not_eq_true'] at hopen
  rcases get_dup2 hget with ⟨e, hpos, he, hobj⟩ | hget
  · refine Or.inl ?_
    rcases get_dup2 he with ⟨e', -, he', hobj'⟩ | he
    · exact ⟨e', hpos, he', hobj'.trans hobj⟩
    · exact ⟨e, hpos, he, hobj⟩
  · rcases get_dup2 hget with hgiven | hget
    · exact Or.inl hgiven
    · exact Or.inr ⟨hget, hopen⟩

/-- The descriptor of a program that is told about a file. -/
def NullFd (h : Host) (fd : Int) : Prop := fd < 0 ∨ ∃ d, h.fds.get fd.toNat = some d ∧ d.obj = .null

theorem unshared_spawn (hs : Sealed base h) {fd : Int} (hfd : NullFd h fd) (cmd : Str)
    (arg1 arg2 : Option Str) : Unshared base h (h.spawn cmd fd fd arg1 arg2) where
  kids := List.prefix_append _ _
  pipes := by
    intro who k o q hb hq ho
    cases who with
    | none => exact ho
    | some j =>
      rcases Nat.lt_trichotomy j h.kids.length with hlt | rfl | hgt
      · rwa [obj_spawn_of_lt hlt] at ho
      · rw [obj_spawn_self] at ho
        obtain ⟨d, hget, hd⟩ := Option.map_eq_some_iff.mp ho
        rcases get_childFds hget with ⟨e, hpos, he, hobj⟩ | ⟨hget, hopen⟩
        · rcases hfd with hneg | ⟨e', he', hnull⟩
          · omega
          · rw [he', Option.some.injEq] at he
            rw [← hd, ← hobj, ← he, hnull] at hq
            rcases hq with hq | hq <;> cases hq
        · rw [← hd] at hq
          rw [hs k d q hb hget hq] at hopen
          cases hopen
      · rw [Host.obj, Host.desc, Host.spawn, List.getElem?_eq_none (by
          rw [List.length_append, List.length_singleton]; omega)] at ho
        cases ho

/-- What an act comes to, if it is not a write: it may close a descriptor and
start other programs, but those have no part in the streams. -/
structure Acted (base : Nat) (a : Act) (h h' : Host) : Prop where
  isSealed : Sealed base h'
  unshared : Unshared base h h'
  fds : ∀ k d, a ≠ .close (k : Nat) → h.fds.get k = some d → h'.fds.get k = some d
  close : ∀ fd, a = .close fd → h' = h.close fd

theorem leads_spawnProc_null (hs : Sealed base h) {fd : Int} (hfd : NullFd h fd) (cmd : Str)
    (arg1 arg2 : Option Str) :
    Leads (spawnProc env cmd fd fd arg1 arg2) h fun _ h' =>
      Unshared base h h' ∧ h'.fds = h.fds := by
  refine meets_bind (leads_syscall (fun e => ?_) ?_)
  · exact meets_bind (meets_modify (meets_pure ⟨.of_eq rfl rfl, rfl⟩))
  · exact meets_bind (meets_get (meets_bind (meets_modify (meets_pure (meets_pure
      ⟨unshared_spawn hs hfd cmd arg1 arg2, rfl⟩)))))

theorem Unshared.alloc_null (hu : Unshared base h h') : Unshared base h (h'.alloc ⟨.null, true⟩) where
  kids := hu.kids
  pipes := by
    intro who fd o q hb hq ho
    refine hu.pipes who fd o q hb hq ?_
    cases who with
    | some j => exact ho
    | none =>
      obtain ⟨d, hget, rfl⟩ := obj_parent ho
      rw [Host.alloc, Table.get_put] at hget
      split at hget
      · cases hget
        rcases hq with hq | hq <;> cases hq
      · exact Option.map_eq_some_iff.mpr ⟨d, hget, rfl⟩

theorem leads_notify (hs : Sealed base h) (name cmd : Str) :
    Leads (notifyAll env name [cmd]) h fun _ h' => Sealed base h' ∧ Unshared base h h' ∧
      ∀ k d, h.fds.get k = some d → h'.fds.get k = some d := by
  refine meets_bind (leads_syscall (fun e => ?_) (meets_alloc ?_))
  · have hfail : Sealed base (h.fail .openNull) := hs.of_eq rfl
    have hsame : Unshared base h (h.fail .openNull) := .of_eq rfl rfl
    have hfd : NullFd (h.fail .openNull) (-1) := Or.inl (by decide)
    refine (leads_spawnProc_null hfail hfd cmd _ _).andThen fun _ h' hr => ?_
    refine meets_pure ⟨hfail.of_eq hr.2, hsame.trans hr.1, fun k d hget => ?_⟩
    rw [hr.2]
    exact hget
  · have hnew : ∀ k d, h.fds.get k = some d → (h.alloc ⟨.null, true⟩).fds.get k = some d := by
      intro k d hget
      rw [Host.alloc, Table.get_put_ne]
      · exact hget
      · intro heq
        rw [heq, Table.get_free] at hget
        cases hget
    have halloc : Sealed base (h.alloc ⟨.null, true⟩) := by
      intro k d q hb hget hq
      rw [Host.alloc, Table.get_put] at hget
      split at hget
      · cases hget
        rfl
      · exact hs k d q hb hget hq
    have hfd : NullFd (h.alloc ⟨.null, true⟩) h.fds.free := by
      refine Or.inr ⟨⟨.null, true⟩, ?_, rfl⟩
      rw [Host.alloc, Int.toNat_natCast, Table.get_put, if_pos rfl]
    refine (leads_spawnProc_null halloc hfd cmd _ _).andThen fun _ h' hr => ?_
    refine meets_pure ⟨halloc.of_eq hr.2, ?_, fun k d hget => ?_⟩
    · exact ((Unshared.of_eq rfl rfl).alloc_null).trans hr.1
    · rw [hr.2]
      exact hnew k d hget

theorem leads_wait (f : RunFilter) :
    Leads (Act.code env (.wait f)) h fun _ h' => h'.fds = h.fds ∧ h'.kids = h.kids := by
  refine meets_bind (meets_bind (meets_modify (meets_bind (meets_ask (fun w _ => ?_) trivial))))
  split
  · exact meets_modify (meets_modify ⟨rfl, rfl⟩)
  · split
    · exact meets_modify (meets_modify ⟨rfl, rfl⟩)
    · exact meets_modify (meets_modify ⟨rfl, rfl⟩)
  · exact meets_modify (meets_modify ⟨rfl, rfl⟩)
  · exact meets_pure (meets_modify ⟨rfl, rfl⟩)

theorem Act.leads (hs : Sealed base h) (a : Act) :
    Leads (a.code env) h fun _ h' => Acted base a h h' := by
  cases a with
  | send fd b => exact meets_pure ⟨hs, .of_eq rfl rfl, fun _ _ _ hget => hget, nofun⟩
  | close fd =>
    refine meets_modify ⟨hs.close fd, unshared_close fd, fun k d hne hget => ?_, ?_⟩
    · exact get_close_of_ne (fun heq => hne (by rw [heq])) hget
    · intro fd' heq
      cases heq
      rfl
  | wait f =>
    refine (leads_wait f).imp fun _ h' hr => ?_
    refine ⟨hs.of_eq hr.1, .of_eq hr.1 hr.2, fun k d _ hget => ?_, nofun⟩
    rw [hr.1]
    exact hget
  | notify name cmd =>
    exact (leads_notify hs name cmd).imp fun _ h' hr =>
      ⟨hr.1, hr.2.1, fun k d _ hget => hr.2.2 k d hget, nofun⟩

/-- An act can always be done, but that `waitpid` waits for the filter to leave. -/
theorem Act.runs {s : Net} {a : Act}
    (hleft : ∀ f, a = .wait f → (s.stage (f.pid - 1)).phase.alive = false) :
    ∃ o h', s.Told a o ∧ ∀ rest, a.code env h (o ++ rest) = .done () h' rest := by
  cases a with
  | send fd b => exact ⟨[], h, trivial, fun _ => rfl⟩
  | close fd => exact ⟨[], h.close fd, trivial, fun _ => rfl⟩
  | notify cmd => exact ⟨[.ok, .ok], _, trivial, fun _ => rfl⟩
  | wait f =>
    have hdead := hleft f rfl
    cases hphase : (s.stage (f.pid - 1)).phase with
    | running =>
      rw [hphase] at hdead
      cases hdead
    | ended =>
      rw [hphase] at hdead
      cases hdead
    | exited => exact ⟨[.status false 0], _, ⟨_, rfl, by rw [hphase]; exact ⟨0, rfl⟩⟩, fun _ => rfl⟩
    | killed => exact ⟨[.status true sigpipe], _, ⟨_, rfl, by rw [hphase]⟩, fun _ => rfl⟩

end Acts

/-! ### The two lines -/

/-- A stream as the filters see it: their commands, the file behind them, and the
numbers of their first pipe and process and of the descriptor in front. -/
structure Line where
  cmds : List Str
  name : Str
  pipe : Nat
  kid : Nat
  fd : Nat

/-- The filters of a line are connected with each other, and with nobody else. -/
structure Laid (l : Line) (h : Host) : Prop where
  cmd : ∀ i (hi : i < l.cmds.length), (h.kids[l.kid + i]?).map Kid.cmd = some l.cmds[i]
  stdin : ∀ i < l.cmds.length, h.obj (some (l.kid + i)) 0 = some (.pipeR (l.pipe + i))
  stdout : ∀ i < l.cmds.length,
    h.obj (some (l.kid + i)) 1 = some (stdoutObj l.cmds (.file l.name) l.pipe i)
  reader : ∀ i < l.cmds.length, ∀ who fd, h.obj who fd = some (.pipeR (l.pipe + i)) →
    (who, fd) = (some (l.kid + i), 0)
  writer : ∀ i < l.cmds.length, ∀ who fd, h.obj who fd = some (.pipeW (l.pipe + i)) →
    (who, fd) = if i = 0 then (none, l.fd) else (some (l.kid + i - 1), 1)

def Line.output (l : Line) : Obj := if l.cmds = [] then .file l.name else .pipeW l.pipe

section Lines

variable {l : Line} {base : Nat} {h₀ h h' : Host} {info core : ConfOutput} {name name' : Str}
  {r r' : RunOutput}

theorem Laid.unshared (hl : Laid l h) (hb : base ≤ l.pipe) (hu : Unshared base h h') :
    Laid l h' := by
  obtain ⟨ks, hks⟩ := hu.kids
  have hold : ∀ (j : Nat) (k : Kid), h.kids[j]? = some k → h'.kids[j]? = some k := by
    intro j k hj
    rw [← hks, List.getElem?_append_left (List.getElem?_eq_some_iff.mp hj).1, hj]
  have hobj : ∀ (j fd : Nat) (o : Obj), h.obj (some j) fd = some o → h'.obj (some j) fd = some o := by
    intro j fd o ho
    obtain ⟨d, hd, rfl⟩ := Option.map_eq_some_iff.mp ho
    obtain ⟨k, hk, hkd⟩ := Option.bind_eq_some_iff.mp hd
    rw [Host.obj, Host.desc, hold j k hk]
    exact congrArg (Option.map Desc.obj) hkd
  refine ⟨fun i hi => ?_, fun i hi => ?_, fun i hi => ?_, fun i hi who fd ho => ?_,
    fun i hi who fd ho => ?_⟩
  · obtain ⟨k, hk, hkc⟩ := Option.map_eq_some_iff.mp (hl.cmd i hi)
    rw [hold _ _ hk, ← hkc]
    rfl
  · exact hobj _ _ _ (hl.stdin i hi)
  · exact hobj _ _ _ (hl.stdout i hi)
  · exact hl.reader i hi who fd (hu.pipes who fd _ _ (by omega) (Or.inl rfl) ho)
  · exact hl.writer i hi who fd (hu.pipes who fd _ _ (by omega) (Or.inr rfl) ho)

end Lines

end Crashinfo
