import Crashinfo.Lib.Invariant
import Crashinfo.Main.Program

/-!
# What every call keeps

An invariant of the descriptors (`HostInv`) is something that a new descriptor
keeps, and the closing of one whose number is in `N`; every new number is.  All
the parts of the program keep it, whatever the answers are, for they only close
what they were given or have opened themselves.  Nothing faults with a NULL
pointer here, but for the expansion of a path without the executable.

Most of the parts leave other processes alone (`Aside`).  For those that fork the
invariant has to allow for that (`ForkInv`), for those that start filters also
for new nodes (`NodeInv`), and for those that wait for them for anything to do
with processes (`ProcInv`).
-/

namespace Crashinfo

open Script Script.Run

structure Procs where
  kids : List Kid
  killed : List Nat
  waited : List Nat
  reaps : List Reap
  nodes : Nat
  filters : List Nat
  freed : List (Option Nat)

def Host.procs (h : Host) : Procs :=
  ⟨h.kids, h.killed, h.waited, h.reaps, h.nodes, h.filters, h.freed⟩

/-- Nothing has happened to the descriptors, and nothing is forgotten. -/
structure Later (h h' : Host) : Prop where
  fds : h'.fds = h.fds
  past : h'.past = h.past
  failed : ∀ f ∈ h.failed, f ∈ h'.failed
  log : h.log <+: h'.log

/-- Besides, nothing has happened to other processes. -/
structure Aside (h h' : Host) : Prop extends Later h h' where
  procs : h'.procs = h.procs

theorem later_of {h h' : Host} (hfds : h'.fds = h.fds) (hpast : h'.past = h.past)
    (hfailed : h'.failed = h.failed) (hlog : h'.log = h.log) : Later h h' :=
  ⟨hfds, hpast, fun _ hf => hfailed ▸ hf, hlog ▸ List.prefix_rfl⟩

theorem aside_of {h h' : Host} (hfds : h'.fds = h.fds) (hpast : h'.past = h.past)
    (hfailed : h'.failed = h.failed) (hlog : h'.log = h.log) (hprocs : h'.procs = h.procs) :
    Aside h h' :=
  ⟨later_of hfds hpast hfailed hlog, hprocs⟩

theorem aside_log (h : Host) (l : List (Prio × Str)) : Aside h { h with log := h.log ++ l } :=
  ⟨⟨rfl, rfl, fun _ hf => hf, List.prefix_append _ _⟩, rfl⟩

theorem aside_fail (h : Host) (c : Call) : Aside h (h.fail c) :=
  ⟨⟨rfl, rfl, fun _ hf => List.mem_append_left _ hf, List.prefix_rfl⟩, rfl⟩

/-- `I` is kept by all that happens to the descriptors, if only those with a
number in `N` are closed. -/
structure HostInv (I : Host → Prop) (N : Int → Prop) : Prop where
  aside : ∀ h h' : Host, I h → Aside h h' → I h'
  alloc : ∀ h d, I h → I (h.alloc d) ∧ N h.fds.free
  close : ∀ h fd, I h → N fd → I (h.close fd)
  neg : ∀ fd : Int, fd < 0 → N fd

structure ForkInv (I : Host → Prop) (N : Int → Prop) : Prop extends HostInv I N where
  spawn : ∀ h cmd infd outfd arg1 arg2, I h → I (h.spawn cmd infd outfd arg1 arg2)

/-- Besides, `I` does not depend on the nodes of the filters. -/
structure NodeInv (I : Host → Prop) (N : Int → Prop) : Prop extends ForkInv I N where
  node : ∀ (h : Host) nodes filters freed, I h → I { h with nodes, filters, freed }

structure ProcInv (I : Host → Prop) (N : Int → Prop) : Prop extends HostInv I N where
  later : ∀ h h' : Host, I h → Later h h' → I h'

theorem ProcInv.node {I : Host → Prop} {N : Int → Prop} (hI : ProcInv I N) : NodeInv I N where
  toHostInv := hI.toHostInv
  spawn := fun h _ _ _ _ _ hs => hI.later h _ hs (later_of rfl rfl rfl rfl)
  node := fun h _ _ _ hs => hI.later h _ hs (later_of rfl rfl rfl rfl)

/-- The ways to stop that all parts of the program have. -/
structure Stops (K : Stop Fault → Prop) : Prop where
  cut : K .cut
  stuck : K .stuck
  fault : ∀ f, f ≠ .nullDeref → K (.fault f)

/-- What holds of the value of a call that does not fail. -/
def OnOk {α : Type} (R : α → Prop) (r : Except Errno α) : Prop := ∀ a, r = .ok a → R a

section Calls

variable {K : Stop Fault → Prop} {I : Host → Prop} {N : Int → Prop} {α : Type} {R : α → Prop}

theorem always_logmsg (hI : HostInv I N) (prio : Prio) (t : Str) :
    Always K I (logmsg prio t) fun _ => True :=
  always_modify fun h hs => hI.aside h _ hs (aside_log h _)

theorem always_act (hI : ProcInv I N) {act : Host → Host} (hact : ∀ h, Later h (act h)) :
    Always K I (modify act : HostRun Unit) fun _ => True :=
  always_modify fun h hs => hI.later h _ hs (hact h)

theorem always_alloc (hI : HostInv I N) (d : Desc) : Always K I (alloc d) fun n => N n :=
  fun h hs => meets_alloc (hI.alloc h d hs)

theorem always_close (hI : HostInv I N) {fd : Int} (hfd : N fd) :
    Always K I (close fd) fun _ => True :=
  always_modify fun h hs => hI.close h fd hs hfd

theorem always_failing (hI : HostInv I N) (c : Call) (e : Errno) :
    Always K I (failing c e : HostRun (Except Errno α)) (OnOk R) :=
  always_bind (always_modify fun h hs => hI.aside h _ hs (aside_fail h c)) fun _ _ =>
    always_pure nofun

theorem always_ok {act : HostRun α} (hact : Always K I act R) :
    Always K I (do return .ok (← act)) (OnOk R) :=
  always_bind hact fun _ ha => always_pure fun _ h => Except.ok.inj h ▸ ha

theorem always_syscall (hI : HostInv I N) (hcut : K .cut) (c : Call) {act : HostRun α}
    (hact : Always K I act R) : Always K I (syscall c act) (OnOk R) := by
  refine always_bind (always_ask hcut) fun w _ => ?_
  cases w with
  | err e => exact always_failing hI c e
  | ok | amount k | prepared p | thread a | status b n => exact always_ok hact

theorem always_creating (hI : HostInv I N) (hcut : K .cut) (c : Call) (name : Str) (excl : Bool)
    {act : HostRun α} (hact : Always K I act R) : Always K I (creating c name excl act) (OnOk R) := by
  refine always_bind (always_ask hcut) fun w _ => always_get_bind fun h _ => ?_
  cases w.create (excl && decide (name ∈ h.files)) with
  | some e => exact always_failing hI c e
  | none =>
    refine always_bind (always_modify fun h hs => ?_) fun _ _ => always_ok hact
    exact hI.aside h _ hs (aside_of rfl rfl rfl rfl rfl)

theorem always_call (hI : HostInv I N) (hcut : K .cut) (c : Call) :
    Always K I (syscall c (pure ())) fun _ => True :=
  (always_syscall hI hcut c (always_pure (R := fun _ => True) trivial)).mono fun _ _ => trivial

theorem always_open (hI : HostInv I N) (hcut : K .cut) (c : Call) (d : Desc) :
    Always K I (syscall c (alloc d)) (OnOk fun n => N n) :=
  always_syscall hI hcut c (always_alloc hI d)

theorem always_pipe2 (hI : HostInv I N) (hcut : K .cut) :
    Always K I pipe2 (OnOk fun p => N p.1 ∧ N p.2) := by
  refine always_syscall hI hcut _ (always_get_bind fun h _ => ?_)
  refine always_bind (always_modify fun h hs => hI.aside h _ hs (aside_of rfl rfl rfl rfl rfl))
    fun _ _ => ?_
  refine always_bind (always_alloc hI _) fun r hr => always_bind (always_alloc hI _) fun w hw => ?_
  exact always_pure ⟨hr, hw⟩

theorem always_dup (hI : HostInv I N) (hcut : K .cut) (fd : Int) :
    Always K I (dup fd) (OnOk fun n => N n) := by
  refine always_get_bind fun h _ => ?_
  cases h.at fd with
  | none => exact always_pure nofun
  | some d => exact always_open hI hcut _ _

theorem always_fdopen (hI : HostInv I N) (hcut : K .cut) (fd : Int) :
    Always K I (fdopen fd) fun _ => True := by
  refine always_get_bind fun h _ => ?_
  cases h.at fd with
  | none => exact always_pure trivial
  | some d => exact always_call hI hcut _

theorem always_fork (hI : ForkInv I N) (hcut : K .cut) (cmd : Str) (infd outfd : Int)
    (arg1 arg2 : Option Str) : Always K I (fork cmd infd outfd arg1 arg2) fun _ => True := by
  refine (always_syscall hI.toHostInv hcut _ (R := fun _ => True) (always_get_bind fun h _ => ?_)).mono
    fun _ _ => trivial
  exact always_bind (always_modify fun h hs => hI.spawn h _ _ _ _ _ hs) fun _ _ => always_pure trivial

theorem HostInv.fdOf (hI : HostInv I N) {r : Except Errno Nat} (hr : OnOk (fun n : Nat => N n) r) :
    N (fdOf r) := by
  cases r with
  | ok fd => exact hr fd rfl
  | error e => exact hI.neg (-1) (by decide)

theorem always_openDevnull (hI : HostInv I N) (hcut : K .cut) : Always K I openDevnull N := by
  have hcache : Always K I cacheNull fun _ => True := by
    refine always_get_bind fun h _ => ?_
    by_cases hneg : h.null < 0
    · rw [if_pos hneg]
      refine always_bind (always_open hI hcut _ _) fun r _ => ?_
      cases r with
      | error e => exact always_pure trivial
      | ok fd => exact always_modify fun h hs => hI.aside h _ hs (aside_of rfl rfl rfl rfl rfl)
    · rw [if_neg hneg]
      exact always_pure trivial
  refine always_bind hcache fun _ _ => always_get_bind fun h _ => ?_
  exact always_bind (always_dup hI hcut _) fun r hr => always_pure (hI.fdOf hr)

end Calls

/-! ### `open_output` -/

section Open

variable {K : Stop Fault → Prop} {I : Host → Prop} {N : Int → Prop} {env : Env} {c : ConfOutput}
  {template : Str}

theorem always_logNotes (hI : HostInv I N) (ns : List Str) :
    Always K I (logNotes ns) fun _ => True := by
  induction ns with
  | nil => exact always_pure trivial
  | cons n ns ih => exact always_bind (always_logmsg hI _ _) fun _ _ => ih

theorem exeLoop_ne_fault {f : Fault} (l : List Byte) :
    ∀ cur : Cursor, exeLoop cur l ≠ .error (.fault f) := by
  induction l with
  | nil => exact fun _ => nofun
  | cons b l ih =>
    intro cur
    rw [exeLoop]
    split
    · exact nofun
    split
    · split
      · exact nofun
      · exact ih _
    · exact ih _

theorem fault_expandWild {r : Round} {cur : Cursor} {f : Fault}
    (h : expandWild r cur = .error (.fault f)) : r.exe = none := by
  cases hx : r.exe with
  | none => rfl
  | some exe =>
    simp only [expandWild, hx] at h
    split at h
    · cases h
    split at h
    · split at h <;> cases h
    split at h
    · split at h
      · cases h
      · split at h <;> cases h
    split at h
    · split at h
      · rename_i hloop
        cases h
        exact absurd hloop (exeLoop_ne_fault _ _)
      · cases h
    · cases h

theorem fault_expandLoop {r : Round} {f : Fault} (n : Nat) :
    ∀ cur : Cursor, expandLoop r n cur = .error (.fault f) → r.exe = none := by
  induction n with
  | zero => exact fun _ => nofun
  | succ n ih =>
    intro cur h
    rw [expandLoop] at h
    split at h
    · split at h
      · rename_i hbody
        cases h
        rw [expandBody] at hbody
        split at hbody
        split at hbody
        · exact fault_expandWild hbody
        · cases hbody
      · exact ih _ h
    · cases h

/-- The expansion only uses a pointer that is NULL if the executable is not known. -/
theorem fault_expandCells {r : Round} {cells : List Byte} {f : Fault}
    (h : expandCells r cells = .error (.fault f)) : r.exe = none := by
  rw [expandCells] at h
  split at h
  · rename_i hloop
    cases h
    exact fault_expandLoop _ _ hloop
  · cases h

theorem always_expandPath (hI : HostInv I N) (hK : Stops K)
    (hexe : env.exe = none → K (.fault .nullDeref)) (v : OpenVars) :
    Always K I (expandPath env c template v) fun _ => True := by
  rw [expandPath]
  split
  · exact always_fault (hK.fault _ (by decide))
  split
  · rename_i f hf
    by_cases hnull : f = .nullDeref
    · rw [hnull]
      exact always_fault (hexe (fault_expandCells hf))
    · exact always_fault (hK.fault f hnull)
  · refine always_bind (always_logNotes hI _) fun _ _ => ?_
    exact always_bind (always_logmsg hI _ _) fun _ _ => always_pure trivial
  · refine always_bind (always_logNotes hI _) fun _ _ => ?_
    split
    · exact always_fault (hK.fault _ (by decide))
    · exact always_pure trivial

theorem always_makePath (hI : HostInv I N) (hcut : K .cut) (ds : List Str) :
    Always K I (makePath env ds) fun _ => True := by
  induction ds with
  | nil => exact always_pure trivial
  | cons d ds ih =>
    refine always_bind (always_creating hI hcut _ _ _ (always_pure (R := fun _ => True) trivial)) ?_
    intro r _
    cases r with
    | ok u => exact ih
    | error e =>
      dsimp only
      split
      · exact ih
      · exact always_bind (always_logmsg hI _ _) fun _ _ => always_pure trivial

/-- What a turn of the loop comes to is no descriptor that was there before. -/
def TurnOk (N : Int → Prop) : OpenRes → Prop :=
  Sum.elim (fun _ => True) fun o => ∀ f ∈ o, N f.1

theorem always_keepNotice (hK : Stops K) : Always K I (keepNotice env) fun _ => True := by
  rw [keepNotice]
  split
  · exact always_fault (hK.fault _ (by decide))
  · exact always_pure trivial

theorem always_openFailed (hI : HostInv I N) (hK : Stops K) (v : OpenVars) (cur : Cursor)
    (e : Errno) : Always K I (openFailed env c v cur e) (TurnOk N) := by
  rw [openFailed]
  split
  · refine always_bind (always_keepNotice hK) fun _ _ => ?_
    refine always_bind (always_open hI hK.cut _ _) fun r hr => ?_
    cases r with
    | ok fd => exact always_pure fun f hf => Option.some.inj hf ▸ hr fd rfl
    | error e => exact always_bind (always_logmsg hI _ _) fun _ _ => always_pure nofun
  split
  · rw [nextName]
    split
    · exact always_fault (hK.fault _ (by decide))
    split
    · exact always_pure trivial
    · exact always_bind (always_logmsg hI _ _) fun _ _ => always_pure nofun
  split
  · refine always_bind (always_makePath hI hK.cut _) fun b _ => ?_
    cases b with
    | true => exact always_pure trivial
    | false => exact always_pure nofun
  · exact always_bind (always_logmsg hI _ _) fun _ _ => always_pure nofun

theorem always_attempt (hI : HostInv I N) (hK : Stops K) (v : OpenVars) (cur : Cursor) :
    Always K I (attempt env c v cur) (TurnOk N) := by
  refine always_bind (R := OnOk fun n : Nat => N n) (always_get_bind fun h _ => ?_) fun r hr => ?_
  · refine always_creating hI hK.cut _ _ _ (always_bind (always_modify fun h hs => ?_) fun _ _ => ?_)
    · exact hI.aside h _ hs (aside_of rfl rfl rfl rfl rfl)
    · exact always_alloc hI _
  · cases r with
    | ok fd => exact always_pure fun f hf => Option.some.inj hf ▸ hr fd rfl
    | error e => exact always_openFailed hI hK v cur e

theorem always_openSink (hI : HostInv I N) (hK : Stops K)
    (hexe : env.exe = none → K (.fault .nullDeref)) (r : RunOutput) :
    Always K I (openSink env c r) fun o => ∀ s ∈ o, N s.1 := by
  rw [openSink]
  split
  · refine always_bind (always_openDevnull hI hK.cut) fun fd hfd => ?_
    split
    · exact always_bind (always_logmsg hI _ _) fun _ _ => always_pure nofun
    · exact always_pure fun s hs => Option.some.inj hs ▸ hfd
  split
  · refine always_bind (always_forever (fun _ => True) (Q := fun o => ∀ f ∈ o, N f.1) hK.cut
      (fun v _ => ?_) trivial) fun o ho => ?_
    · rw [openTurn]
      split
      · exact always_attempt hI hK v _
      · refine always_bind (always_expandPath hI hK hexe v) fun o _ => ?_
        cases o with
        | none => exact always_pure nofun
        | some cur => exact always_attempt hI hK v cur
    · cases o with
      | none => exact always_pure nofun
      | some f =>
        refine always_bind (R := fun _ => True) (always_bind (always_call hI hK.cut _) ?_) ?_
        · intro r _
          cases r with
          | ok u => exact always_pure trivial
          | error e => exact always_pure trivial
        · exact fun _ _ => always_pure fun s hs => Option.some.inj hs ▸ ho f rfl
  · exact always_bind (always_logmsg hI _ _) fun _ _ => always_pure nofun

theorem always_spawnProc (hI : ForkInv I N) (hcut : K .cut) (cmd : Str) (infd outfd : Int)
    (arg1 arg2 : Option Str) :
    Always K I (spawnProc env cmd infd outfd arg1 arg2) fun _ => True := by
  refine always_bind (always_fork hI hcut _ _ _ _ _) fun r _ => ?_
  cases r with
  | ok pid => exact always_pure trivial
  | error e => exact always_bind (always_logmsg hI.toHostInv _ _) fun _ _ => always_pure trivial

theorem always_err0 (hI : HostInv I N) (hcut : K .cut) (r : RunOutput) :
    Always K I (err0 r) fun a => N a.2.outputFd :=
  always_bind (always_openDevnull hI hcut) fun _ hfd => always_pure hfd

theorem always_killFilters (hI : ProcInv I N) (fs : List RunFilter) :
    Always K I (killFilters fs) fun _ => True := by
  induction fs with
  | nil => exact always_pure trivial
  | cons f fs ih =>
    refine always_bind (always_act hI fun h => later_of rfl rfl rfl rfl) fun _ _ => ?_
    refine always_bind (always_act hI fun h => later_of rfl rfl rfl rfl) fun _ _ => ?_
    exact always_bind (always_act hI fun h => later_of rfl rfl rfl rfl) fun _ _ => ih

theorem always_err1 (hI : ProcInv I N) (hcut : K .cut) {r : RunOutput} {nextIn nextOut : Int}
    (hr : N r.outputFd) (hin : N nextIn) (hout : N nextOut) :
    Always K I (err1 r nextIn nextOut) fun a => N a.2.outputFd := by
  refine always_bind (always_killFilters hI _) fun _ _ => ?_
  refine always_bind (always_close hI.toHostInv hr) fun _ _ => ?_
  refine always_bind (always_close hI.toHostInv hin) fun _ _ => ?_
  exact always_bind (always_close hI.toHostInv hout) fun _ _ => always_err0 hI.toHostInv hcut _

theorem always_filterEnds (hI : HostInv I N) (hcut : K .cut) {nextIn nextOut : Int} (more : Bool)
    (hin : N nextIn) (hout : N nextOut) : Always K I (filterEnds env nextIn nextOut more)
      fun o => ∀ x ∈ o, N x.1 ∧ N x.2.1 ∧ N x.2.2 := by
  cases more with
  | false => exact always_pure fun x hx => Option.some.inj hx ▸ ⟨hin, hout, hin⟩
  | true =>
    refine always_bind (always_pipe2 hI hcut) fun r hr => ?_
    cases r with
    | error e => exact always_bind (always_logmsg hI _ _) fun _ _ => always_pure nofun
    | ok p =>
      obtain ⟨hrd, hwr⟩ := hr p rfl
      exact always_pure fun x hx => Option.some.inj hx ▸ ⟨hin, hwr, hrd⟩

theorem always_spawnFilter (hI : NodeInv I N) (hcut : K .cut) (cmd : Str) (infd outfd : Int) :
    Always K I (spawnFilter env cmd infd outfd) fun _ => True := by
  have hnode : Always K I newNode fun _ => True :=
    always_modify fun h hs => hI.node h (h.nodes + 1) h.filters h.freed hs
  refine always_bind (always_syscall hI.toHostInv hcut _ hnode) fun r _ => ?_
  cases r with
  | error e =>
    exact always_bind (always_logmsg hI.toHostInv _ _) fun _ _ => always_pure trivial
  | ok u =>
    refine always_bind (always_spawnProc hI.toForkInv hcut _ _ _ _ _) fun pid _ => ?_
    cases pid with
    | none =>
      refine always_bind (always_modify fun h hs => ?_) fun _ _ => always_pure trivial
      exact hI.node h h.nodes h.filters (h.freed ++ [none]) hs
    | some pid =>
      refine always_bind (always_modify fun h hs => ?_) fun _ _ => always_pure trivial
      exact hI.node h h.nodes (h.filters ++ [pid]) h.freed hs

theorem always_spawnFilters (hI : NodeInv I N) (hcut : K .cut) {nextOut : Int} (hout : N nextOut)
    (fs : List Str) : ∀ (nextIn : Int) (done : List RunFilter), N nextIn →
      Always K I (spawnFilters env nextOut fs nextIn done) fun r => ∀ x, r = .error x → N x.2 := by
  induction fs with
  | nil => exact fun _ _ _ => always_pure nofun
  | cons f fs ih =>
    intro nextIn done hin
    refine always_bind (always_filterEnds hI.toHostInv hcut _ hin hout) fun o ho => ?_
    cases o with
    | none => exact always_pure fun x hx => Except.error.inj hx ▸ hin
    | some x =>
      obtain ⟨hinfd, houtfd, hnext⟩ := ho x rfl
      refine always_bind (always_spawnFilter hI hcut _ _ _) fun pid _ => ?_
      cases pid with
      | none => exact always_pure fun y hy => Except.error.inj hy ▸ hnext
      | some pid =>
        refine always_bind (always_close hI.toHostInv hinfd) fun _ _ => ?_
        exact always_bind (always_close hI.toHostInv houtfd) fun _ _ => ih _ _ hnext

theorem always_setupFilters (hI : ProcInv I N) (hcut : K .cut) {fd : Int} {r : RunOutput}
    (hfd : N fd) (hr : N r.outputFd) :
    Always K I (setupFilters env c fd r) fun a => N a.2.outputFd := by
  rw [setupFilters]
  split
  · exact always_pure hr
  refine always_bind (always_pipe2 hI.toHostInv hcut) fun p hp => ?_
  cases p with
  | error e =>
    refine always_bind (always_logmsg hI.toHostInv _ _) fun _ _ => ?_
    exact always_bind (always_close hI.toHostInv hfd) fun _ _ => always_pure hr
  | ok p =>
    obtain ⟨hrd, hwr⟩ := hp p rfl
    refine always_bind (always_spawnFilters hI.node hcut hfd _ _ _ hrd) fun q hq => ?_
    cases q with
    | ok fs => exact always_pure hwr
    | error x => exact always_err1 hI hcut hwr (hq x rfl) hfd

theorem always_openOutput (hI : ProcInv I N) (hK : Stops K)
    (hexe : env.exe = none → K (.fault .nullDeref)) (r : RunOutput) :
    Always K I (openOutput env c r) fun a => N a.2.outputFd := by
  refine always_bind (always_openSink hI.toHostInv hK hexe r) fun o ho => ?_
  cases o with
  | none => exact always_err0 hI.toHostInv hK.cut r
  | some s => exact always_setupFilters hI hK.cut (ho s rfl) (ho s rfl)

def StreamsOk (N : Int → Prop) : Except (Option RunOutput) (RunOutput × RunOutput) → Prop
  | .error o => ∀ r ∈ o, N r.outputFd
  | .ok p => N p.1.outputFd ∧ N p.2.outputFd

theorem always_openOutputs {env env' : Env} (hI : ProcInv I N) (hK : Stops K)
    (hexe : env.exe = none → K (.fault .nullDeref))
    (hexe' : env'.exe = none → K (.fault .nullDeref)) (conf : Conf) :
    Always K I (openOutputs env env' conf) (StreamsOk N) := by
  refine always_bind (always_openOutput hI hK hexe _) fun info hinfo => ?_
  split
  · exact always_pure nofun
  refine always_bind (always_fdopen hI.toHostInv hK.cut _) fun r _ => ?_
  cases r with
  | error e =>
    refine always_bind (always_logmsg hI.toHostInv _ _) fun _ _ => always_pure fun r hr => ?_
    exact Option.some.inj hr ▸ hinfo
  | ok u =>
    refine always_bind (always_openOutput hI hK hexe' _) fun core hcore => ?_
    dsimp only
    split
    · exact always_pure fun r hr => Option.some.inj hr ▸ hinfo
    · exact always_pure ⟨hinfo, hcore⟩

end Open

/-! ### `close_output` -/

section Close

variable {K : Stop Fault → Prop} {I : Host → Prop} {N : Int → Prop} {env : Env}

theorem always_waitFilters (hI : ProcInv I N) (hcut : K .cut) (fs : List RunFilter) :
    Always K I (waitFilters env fs) fun _ => True := by
  induction fs with
  | nil => exact always_pure trivial
  | cons f fs ih =>
    have hlog : ∀ prio t, Always K I (logmsg prio t) fun _ => True := always_logmsg hI.toHostInv
    refine always_bind (R := fun _ => True) ?_ fun _ _ => ?_
    · refine always_bind (always_act hI fun h => later_of rfl rfl rfl rfl) fun _ _ => ?_
      refine always_bind (always_ask hcut) fun w _ => ?_
      split
      · exact hlog _ _
      · split
        · exact hlog _ _
        · exact hlog _ _
      · exact hlog _ _
      · exact always_pure trivial
    · exact always_bind (always_act hI fun h => later_of rfl rfl rfl rfl) fun _ _ => ih

theorem always_notifyAll (hI : ForkInv I N) (hcut : K .cut) (name : Str) (cmds : List Str) :
    Always K I (notifyAll env name cmds) fun _ => True := by
  induction cmds with
  | nil => exact always_pure trivial
  | cons cmd cmds ih =>
    refine always_bind (always_open hI.toHostInv hcut _ _) fun _ _ => ?_
    exact always_bind (always_spawnProc hI hcut _ _ _ _ _) fun _ _ => ih

theorem always_closeOutput (hI : ProcInv I N) (hcut : K .cut) (c : ConfOutput) {r : RunOutput}
    (hr : N r.outputFd) : Always K I (closeOutput env c r) fun _ => True := by
  rw [closeOutput]
  split
  · exact always_pure trivial
  refine always_bind (always_close hI.toHostInv hr) fun _ _ => ?_
  refine always_bind (always_waitFilters hI hcut _) fun _ _ => ?_
  split
  · exact always_bind (always_notifyAll hI.node.toForkInv hcut _ _) fun _ _ => always_pure trivial
  · exact always_pure trivial

theorem always_notifyBoth (hI : ForkInv I N) (hcut : K .cut) (name1 name2 : Str)
    (cmds : List Str) : Always K I (notifyBoth env name1 name2 cmds) fun _ => True := by
  induction cmds with
  | nil => exact always_pure trivial
  | cons cmd cmds ih =>
    refine always_bind (always_openDevnull hI.toHostInv hcut) fun fd hfd => ?_
    refine always_bind (always_spawnProc hI hcut _ _ _ _ _) fun _ _ => ?_
    exact always_bind (always_close hI.toHostInv hfd) fun _ _ => ih

theorem always_notifyInfoCore (hI : ForkInv I N) (hcut : K .cut) (info core : RunOutput)
    (cmds : List Str) : Always K I (notifyInfoCore env info core cmds) fun _ => True := by
  rw [notifyInfoCore]
  split
  · exact always_notifyBoth hI hcut _ _ _
  · exact always_pure trivial

end Close

/-! ### `/proc` and the options -/

section Proc

variable {K : Stop Fault → Prop} {I : Host → Prop} {N : Int → Prop} {env : Env} {dir : ProcDir}

theorem always_openProc (hI : HostInv I N) (hcut : K .cut) :
    Always K I openProc (OnOk fun n => N n) := by
  refine always_bind (always_open hI hcut _ _) fun r hr => ?_
  cases r with
  | error e => exact always_pure nofun
  | ok fd =>
    refine always_bind (always_fdopen hI hcut _) fun u _ => ?_
    cases u with
    | ok u => exact always_pure hr
    | error e => exact always_bind (always_close hI (hr fd rfl)) fun _ _ => always_pure nofun

theorem always_readExe (hI : HostInv I N) (hcut : K .cut) (exe : Option Str) :
    Always K I (readExe env dir exe) fun _ => True := by
  cases exe with
  | some exe => exact always_pure trivial
  | none =>
    refine always_bind (always_call hI hcut _) fun r _ => ?_
    cases r with
    | error e => exact always_bind (always_logmsg hI _ _) fun _ _ => always_pure trivial
    | ok u =>
      refine always_bind (always_call hI hcut _) fun r _ => ?_
      cases r with
      | error e => exact always_bind (always_logmsg hI _ _) fun _ _ => always_pure trivial
      | ok u => exact always_pure trivial

theorem always_parseMaps (hI : HostInv I N) (hcut : K .cut) (ls : List Str) :
    Always K I (parseMaps ls) fun _ => True := by
  induction ls with
  | nil => exact always_pure trivial
  | cons l ls ih =>
    refine always_bind (always_call hI hcut _) fun r _ => ?_
    cases r with
    | ok u => exact ih
    | error e => exact always_bind (always_logmsg hI _ _) fun _ _ => always_pure trivial

theorem always_readMaps (hI : HostInv I N) (hcut : K .cut) (conf : Conf) :
    Always K I (readMaps env dir conf) fun _ => True := by
  rw [readMaps]
  split
  · refine always_bind (always_openProc hI hcut) fun r hr => ?_
    cases r with
    | error e => exact always_bind (always_logmsg hI _ _) fun _ _ => always_pure trivial
    | ok fd =>
      refine always_bind (always_parseMaps hI hcut _) fun ok _ => ?_
      exact always_bind (always_close hI (hr fd rfl)) fun _ _ => always_pure trivial
  · exact always_pure trivial

theorem always_readTasks (hI : HostInv I N) (hcut : K .cut) (ts : List Task) :
    Always K I (readTasks env ts) fun _ => True := by
  induction ts with
  | nil => exact always_pure trivial
  | cons t ts ih =>
    refine always_bind (always_open hI hcut _ _) fun r hr => ?_
    cases r with
    | error e => exact always_bind (always_logmsg hI _ _) fun _ _ => always_pure trivial
    | ok fd =>
      have hclose : Always K I (close fd) fun _ => True := always_close hI (hr fd rfl)
      refine always_bind (always_fdopen hI hcut _) fun u _ => ?_
      cases u with
      | error e =>
        refine always_bind (always_logmsg hI _ _) fun _ _ => ?_
        exact always_bind hclose fun _ _ => always_pure trivial
      | ok u =>
        dsimp only
        split
        · refine always_bind (always_logmsg hI _ _) fun _ _ => ?_
          exact always_bind hclose fun _ _ => always_pure trivial
        · exact always_bind hclose fun _ _ => ih

theorem always_readTaskDir (hI : HostInv I N) (hcut : K .cut) (path : Str) :
    Always K I (readTaskDir env dir path) fun _ => True := by
  refine always_bind (always_open hI hcut _ _) fun r hr => ?_
  cases r with
  | error e => exact always_bind (always_logmsg hI _ _) fun _ _ => always_pure trivial
  | ok fd =>
    have hclose : Always K I (close fd) fun _ => True := always_close hI (hr fd rfl)
    refine always_bind (always_fdopen hI hcut _) fun u _ => ?_
    cases u with
    | error e =>
      refine always_bind (always_logmsg hI _ _) fun _ _ => ?_
      exact always_bind hclose fun _ _ => always_pure trivial
    | ok u =>
      refine always_bind (always_readTasks hI hcut _) fun ok _ => ?_
      exact always_bind hclose fun _ _ => always_pure trivial

theorem always_parseFiles (hI : HostInv I N) (hcut : K .cut) (fs : List ConfFile) :
    Always K I (parseFiles env fs) fun _ => True := by
  induction fs with
  | nil => exact always_pure trivial
  | cons f fs ih =>
    refine always_bind (always_open hI hcut _ _) fun r hr => ?_
    cases r with
    | error e => exact always_bind (always_logmsg hI _ _) fun _ _ => always_pure trivial
    | ok fd =>
      dsimp only
      split
      · refine always_bind (always_logmsg hI _ _) fun _ _ => ?_
        exact always_bind (always_close hI (hr fd rfl)) fun _ _ => always_pure trivial
      · exact always_bind (always_close hI (hr fd rfl)) fun _ _ => ih

/-- The core may be opened in the place of descriptor 0 if that may be closed. -/
theorem always_openCore (hI : HostInv I N) (hcut : K .cut) (hzero : N 0) (path : Option Str) :
    Always K I (openCore env path) fun _ => True := by
  cases path with
  | none => exact always_pure trivial
  | some path =>
    refine always_bind (always_close hI hzero) fun _ _ => ?_
    refine always_bind (always_open hI hcut _ _) fun r _ => ?_
    cases r with
    | error e => exact always_logmsg hI _ _
    | ok fd =>
      dsimp only
      split
      · exact always_logmsg hI _ _
      · exact always_pure trivial

end Proc

end Crashinfo
