import Crashinfo.Main.Kept

/-!
# What the whole program keeps

The same as in `Crashinfo.Main.Kept`, for the phases of `main`.  Besides the
descriptors, the numbers of the info pipe and of the files the other thread has
open are followed (`WorldInv`), for these are what is closed later on; and the
configuration has a property `X` from which the executable is known where it is
needed.
-/

namespace Crashinfo

open Script Script.Run

structure WorldInv (I : Host → Prop) (N : Int → Prop) (X : Conf → Prop) (w : World) : Prop where
  host : I w.host
  pipe : ∀ p ∈ w.infoPipe, N p.1 ∧ N p.2
  thread : ∀ fds ∈ w.thread, ∀ fd ∈ fds, N (fd : Nat)
  conf : X w.conf

/-! ### The copying -/

section Tee

variable {K : Stop Fault → Prop} {J : Tee → Prop} {α : Type}

/-- `J` is about `run.pid` and the counters of the copying, and holds of what is found
for the first. -/
structure VarsOnly (J : Tee → Prop) : Prop where
  same : ∀ t t', J t → t'.pid = t.pid → t'.bufRead = t.bufRead → t'.bufWrite = t.bufWrite → J t'
  found : ∀ t p, J t → t.pid = -1 → J { t with pid := p }

structure PidOnly (J : Tee → Prop) : Prop extends VarsOnly J where
  counted : ∀ t r w, J t → J { t with bufRead := r, bufWrite := w }

theorem pidOnly_true : PidOnly fun _ => True where
  same := fun _ _ _ _ _ _ => trivial
  found := fun _ _ _ _ => trivial
  counted := fun _ _ _ _ => trivial

theorem pidOnly_known {n : Int} (hn : n ≠ -1) : PidOnly fun t => t.pid = n where
  same := fun _ _ ht heq _ _ => heq.trans ht
  found := fun _ _ ht hno => absurd (ht.symm.trans hno) hn
  counted := fun _ _ _ ht => ht

/-- Nothing faults with a NULL pointer, and `J` stays. -/
abbrev Minding (K : Stop Fault → Prop) (J : Tee → Prop) (m : TeeRun α) : Prop :=
  Always K J m fun _ => True

abbrev Calmly (K : Stop Fault → Prop) (m : TeeRun α) : Prop :=
  Always K (fun _ => True) m fun _ => True

theorem minding_modify (hJ : VarsOnly J) {f : Tee → Tee}
    (hf : ∀ t, (f t).pid = t.pid ∧ (f t).bufRead = t.bufRead ∧ (f t).bufWrite = t.bufWrite) :
    Minding K J (modify f) :=
  always_modify fun t ht => hJ.same t _ ht (hf t).1 (hf t).2.1 (hf t).2.2

theorem minding_read (hK : Stops K) (hJ : VarsOnly J) (off count : Nat) :
    Minding K J (read off count) := by
  refine always_bind (always_ask hK.cut) fun w _ => always_get_bind fun t _ => ?_
  cases t.readRes w count with
  | none => exact always_stuck hK.stuck
  | some r =>
    cases r with
    | error e =>
      exact always_bind (minding_modify hJ fun _ => ⟨rfl, rfl, rfl⟩) fun _ _ => always_pure trivial
    | ok n =>
      exact always_bind (minding_modify hJ fun _ => ⟨rfl, rfl, rfl⟩) fun _ _ => always_pure trivial

theorem minding_writeCore (hK : Stops K) (hJ : VarsOnly J) (off count : Nat) :
    Minding K J (writeCore off count) := by
  refine always_bind (always_ask hK.cut) fun w _ =>
    always_bind (minding_modify hJ fun _ => ⟨rfl, rfl, rfl⟩) fun _ _ => ?_
  cases coreRes w count with
  | error e => exact always_pure trivial
  | ok n =>
    dsimp only
    split
    · exact always_fault (hK.fault _ (by decide))
    · exact always_bind (minding_modify hJ fun _ => ⟨rfl, rfl, rfl⟩) fun _ _ => always_pure trivial

theorem minding_writeInfo (hK : Stops K) (hJ : VarsOnly J) (off count : Nat) :
    Minding K J (writeInfo off count) := by
  refine always_bind (always_ask hK.cut) fun w _ => always_get_bind fun t _ => ?_
  cases t.infoRes w count with
  | none => exact always_stuck hK.stuck
  | some r =>
    refine always_bind (minding_modify hJ fun _ => ⟨rfl, rfl, rfl⟩) fun _ _ => ?_
    cases r with
    | error e =>
      exact always_bind (minding_modify hJ fun _ => ⟨rfl, rfl, rfl⟩) fun _ _ => always_pure trivial
    | ok n =>
      dsimp only
      split
      · exact always_fault (hK.fault _ (by decide))
      · exact always_bind (minding_modify hJ fun _ => ⟨rfl, rfl, rfl⟩) fun _ _ =>
          always_pure trivial

theorem minding_safeIo (hcut : K .cut) {io : Nat → Nat → TeeRun (Except Errno Nat)}
    (hio : ∀ size n, Minding K J (io size n)) (count : Nat) : Minding K J (safeIo io count) := by
  refine always_forever (fun _ => True) hcut (fun size _ => ?_) trivial
  refine always_bind (hio _ _) fun r _ => always_pure ?_
  cases repeatOr count size r <;> trivial

/-- All that `read_pid` may change is the PID, as long as it is not known. -/
theorem always_readPid (hcut : K .cut)
    (hfound : ∀ t p, J t → t.pid = -1 → J { t with pid := p }) : Minding K J readPid := by
  refine always_bind (always_ask hcut) fun w _ => ?_
  cases w with
  | prepared p =>
    refine always_bind (always_modify fun t ht => ?_) fun _ _ =>
      always_get_bind fun _ _ => always_pure trivial
    split
    · rename_i hno
      exact hfound t _ ht hno
    · exact ht
  | ok | err e | amount k | thread a | status b n =>
    exact always_get_bind fun _ _ => always_pure trivial

theorem minding_readPid (hK : Stops K) (hJ : VarsOnly J) : Minding K J readPid :=
  always_readPid hK.cut hJ.found

abbrev feedRest (rtn : Except Errno Nat) : TeeRun Bool := do
  modify fun t => { t with bufRead := ssizeT rtn, bufWrite := 0 }
  if (← get).bufRead ≤ 0 then return false
  else
    forever feedTurn 0
    return true

/-- The thread is fed by counting, by writing to the pipe and by looking for the PID. -/
theorem always_feedRest (hcut : K .cut)
    (hcounted : ∀ t r w, J t → J { t with bufRead := r, bufWrite := w })
    (hinfo : ∀ off n, Minding K J (safeWriteInfo off n)) (hpid : Minding K J readPid)
    (rtn : Except Errno Nat) : Minding K J (feedRest rtn) := by
  refine always_bind (always_modify fun t ht => hcounted t _ _ ht) fun _ _ =>
    always_get_bind fun t _ => ?_
  split
  · exact always_pure trivial
  refine always_bind (always_forever (fun _ => True) (Q := fun _ => True) hcut (fun tries _ => ?_)
    trivial) fun _ _ => always_pure trivial
  rw [feedTurn]
  split
  · refine always_get_bind fun t _ => ?_
    refine always_bind (hinfo _ _) fun r _ => ?_
    refine always_bind (always_modify fun t ht => hcounted t _ _ ht) fun _ _ => ?_
    refine always_bind hpid fun pid _ => ?_
    split
    · exact always_pure trivial
    · split <;> exact always_pure trivial
  · exact always_pure trivial

theorem minding_feed (hK : Stops K) (hJ : PidOnly J) : Minding K J feed :=
  always_bind (minding_safeIo hK.cut (minding_read hK hJ.toVarsOnly) _) fun r _ =>
    always_feedRest hK.cut hJ.counted
      (fun _ _ => minding_safeIo hK.cut (fun _ _ => minding_writeInfo hK hJ.toVarsOnly _ _) _)
      (minding_readPid hK hJ.toVarsOnly) r

theorem always_blockfd (hcut : K .cut) (hblock : ∀ t, J t → J { t with nonblock := false }) :
    Minding K J blockfd := by
  refine always_bind (always_ask hcut) fun w _ => ?_
  cases w with
  | err e => exact always_pure trivial
  | ok | amount k | prepared p | thread a | status b n => exact always_modify hblock

/-- The sinks catch up by two writes, or the pipe is closed. -/
theorem always_catchUp (hblock : Minding K J blockfd)
    (hclose : ∀ t, J t → J { t with infoOpen := false })
    (hcore : ∀ n, Minding K J (safeWriteCore 0 n))
    (hinfo : ∀ off n, Minding K J (safeWriteInfo off n)) (libunwind infoFd : Bool) :
    Minding K J (catchUp libunwind infoFd) := by
  rw [catchUp]
  split
  · split
    · refine always_bind hblock fun _ _ => always_get_bind fun t _ => ?_
      refine always_bind (hcore _) fun _ _ => ?_
      split
      · exact always_bind (hinfo _ _) fun _ _ => always_pure trivial
      · exact always_pure trivial
    · exact always_modify hclose
  · exact always_pure trivial

theorem minding_catchUp (hK : Stops K) (hJ : VarsOnly J) (libunwind infoFd : Bool) :
    Minding K J (catchUp libunwind infoFd) :=
  always_catchUp (always_blockfd hK.cut fun t ht => hJ.same t _ ht rfl rfl rfl)
    (fun t ht => hJ.same t _ ht rfl rfl rfl)
    (minding_safeIo hK.cut fun _ _ => minding_writeCore hK hJ _ _)
    (fun _ => minding_safeIo hK.cut fun _ _ => minding_writeInfo hK hJ _ _) libunwind infoFd

/-- A turn of the copy loop reads, and writes to one sink or both. -/
theorem always_copyTurn (hread : Minding K J (safeRead bufSize))
    (hcore : ∀ n, Minding K J (safeWriteCore 0 n)) {infoFd : Bool}
    (hinfo : infoFd = true → ∀ n, Minding K J (safeWriteInfo 0 n)) :
    Minding K J (copyTurn infoFd) := by
  refine always_bind hread fun r _ => ?_
  cases r with
  | error e => exact always_pure trivial
  | ok rtn =>
    dsimp only
    split
    · refine always_bind (hcore _) fun _ _ => ?_
      split
      · next hfd => exact always_bind (hinfo hfd _) fun _ _ => always_pure trivial
      · exact always_pure trivial
    · exact always_pure trivial

theorem minding_copyTurn (hK : Stops K) (hJ : VarsOnly J) (infoFd : Bool) :
    Minding K J (copyTurn infoFd) :=
  always_copyTurn (minding_safeIo hK.cut (minding_read hK hJ) _)
    (minding_safeIo hK.cut fun _ _ => minding_writeCore hK hJ _ _)
    fun _ => minding_safeIo hK.cut fun _ _ => minding_writeInfo hK hJ _ _

theorem calmly_readPid (hK : Stops K) : Calmly K readPid := minding_readPid hK pidOnly_true.toVarsOnly

theorem calmly_feed (hK : Stops K) : Calmly K feed := minding_feed hK pidOnly_true

theorem calmly_catchUp (hK : Stops K) (libunwind infoFd : Bool) :
    Calmly K (catchUp libunwind infoFd) :=
  minding_catchUp hK pidOnly_true.toVarsOnly libunwind infoFd

theorem calmly_copyTurn (hK : Stops K) (infoFd : Bool) : Calmly K (copyTurn infoFd) :=
  minding_copyTurn hK pidOnly_true.toVarsOnly infoFd

end Tee

/-! ### The phases -/

section World

variable {K : Stop Fault → Prop} {I : Host → Prop} {N : Int → Prop} {X : Conf → Prop} {α : Type}
  {R : α → Prop} {env env' : Env}

theorem leads_onHost {m : HostRun α} {Q : α → Host → Prop} {w : World} (hm : Leads m w.host Q) :
    Leads (onHost m) w fun a w' => Q a w'.host :=
  meets_zoom hm

theorem always_onHost {m : HostRun α} (h : Always K I m R) :
    Always K (WorldInv I N X) (onHost m) R := by
  refine always_zoom (fun _ hw => hw) fun w hw s hs => ?_
  have hworld : ∀ s', I s' → WorldInv I N X { w with host := s' } :=
    fun s' hs' => ⟨hs', hw.pipe, hw.thread, hw.conf⟩
  exact (h s hs.host).mono (fun _ s' hr => ⟨hworld s' hr.1, hr.2⟩)
    fun _ s' hk => ⟨hk.1, hworld s' hk.2⟩

theorem always_onTee {m : TeeRun α} (h : Always K (fun _ => True) m R) :
    Always K (WorldInv I N X) (onTee m) R := by
  have hset : ∀ (w : World) (t : Tee), WorldInv I N X w → WorldInv I N X { w with tee := t } :=
    fun _ _ hw => ⟨hw.host, hw.pipe, hw.thread, hw.conf⟩
  refine always_zoom (fun w hw => hset w _ hw) fun w hw s _ => ?_
  have hworld : ∀ t, WorldInv I N X { w with tee := t } := fun t => hset w t hw
  exact (h s trivial).mono (fun _ t hr => ⟨hworld t, hr.2⟩) fun _ t hk => ⟨hk.1, hworld t⟩

theorem always_log (hI : HostInv I N) (prio : Prio) (t : Str) :
    Always K (WorldInv I N X) (onHost (logmsg prio t)) fun _ => True :=
  always_onHost (always_logmsg hI prio t)

theorem always_startDumping (hI : HostInv I N) (hK : Stops K) :
    Always K (WorldInv I N X) (startDumping env) fun _ => True := by
  refine always_bind (always_onHost (always_pipe2 hI hK.cut)) fun r hr => ?_
  cases r with
  | error e => exact always_bind (always_log hI _ _) fun _ _ => always_pure trivial
  | ok p =>
    refine always_bind (always_modify fun w hw => ?_) fun _ _ => ?_
    · exact ⟨hw.host, fun q hq => Option.some.inj hq ▸ hr p rfl, hw.thread, hw.conf⟩
    refine always_bind (always_onHost (always_call hI hK.cut _)) fun r _ => ?_
    have hleave : ∀ pipe : InfoPipe, Always K (WorldInv I N X) (do
        onTee (modify pipe.leave)
        return pipe) fun _ => True := fun pipe =>
      always_bind (always_onTee (always_modify fun _ h => h)) fun _ _ => always_pure trivial
    cases r with
    | error e => exact always_bind (always_log hI _ _) fun _ _ => hleave _
    | ok u =>
      refine always_bind (always_onHost (always_call hI hK.cut _)) fun r _ => ?_
      cases r with
      | error e => exact always_bind (always_log hI _ _) fun _ _ => hleave _
      | ok u =>
        refine always_bind (always_modify fun w hw => ?_) fun _ _ => ?_
        · refine ⟨hw.host, hw.pipe, fun fds hfds fd hfd => ?_, hw.conf⟩
          rw [← Option.some.inj hfds] at hfd
          cases hfd
        refine always_bind (always_onTee (calmly_feed hK)) fun b _ => ?_
        cases b with
        | true => exact always_pure trivial
        | false => exact always_bind (always_log hI _ _) fun _ _ => always_pure trivial

theorem always_start (hI : HostInv I N) (hK : Stops K) (hzero : N 0) (files : List ConfFile) :
    Always K (WorldInv I N X) (start env files) fun _ => True := by
  refine always_bind (always_onHost (R := fun _ => True) ?_) fun _ _ => ?_
  · exact always_bind (always_open hI hK.cut _ _) fun _ _ => always_pure trivial
  refine always_bind (always_onHost (always_parseFiles hI hK.cut files)) fun b _ => ?_
  cases b with
  | false => exact always_pure trivial
  | true =>
    refine always_get_bind fun w _ => ?_
    refine always_bind (always_onHost (always_openCore hI hK.cut hzero _)) fun _ _ => ?_
    exact always_bind (always_startDumping hI hK) fun _ _ => always_pure trivial

theorem always_findProc (hK : Stops K) (path : Option Str) :
    Always K (WorldInv I N X) (findProc path) fun _ => True := by
  cases path with
  | some path => exact always_pure trivial
  | none =>
    refine always_bind (always_onTee (calmly_readPid hK)) fun pid _ => ?_
    split <;> exact always_pure trivial

theorem always_readRest {dir : ProcDir} (hI : HostInv I N) (hcut : K .cut) (conf : Conf)
    (path : Str) : Always K I (readRest env dir conf path) fun _ => True := by
  refine always_bind (always_readMaps hI hcut _) fun ok _ => ?_
  cases ok with
  | true => exact always_readTaskDir hI hcut _
  | false => exact always_pure trivial

theorem always_readProcInfo {dir : ProcDir} (hI : HostInv I N) (hcut : K .cut) (conf : Conf)
    (path : Str) : Always K I (readProcInfo env dir conf path) fun _ => True := by
  refine always_bind (always_readExe hI hcut _) fun exe _ => ?_
  cases exe with
  | none => exact always_pure trivial
  | some exe => exact always_bind (always_readRest hI hcut _ _) fun _ _ => always_pure trivial

/-- Nothing is asked of the configuration that `/proc` could change. -/
theorem always_readProc {dir : ProcDir} (hI : HostInv I N) (hK : Stops K) (hX : ∀ conf, X conf) :
    Always K (WorldInv I N X) (readProc env dir) fun _ => True := by
  refine always_get_bind fun w _ => ?_
  dsimp only
  split
  · exact always_pure trivial
  refine always_bind (always_findProc hK _) fun path _ => ?_
  cases path with
  | none => exact always_log hI _ _
  | some path =>
    have hset : ∀ f : World → World,
        (∀ w, (f w).host = w.host ∧ (f w).infoPipe = w.infoPipe ∧ (f w).thread = w.thread) →
        Always K (WorldInv I N X) (modify f : MainRun Unit) fun _ => True := by
      refine fun f hf => always_modify fun w hw => ?_
      obtain ⟨hhost, hpipe, hthread⟩ := hf w
      exact ⟨hhost ▸ hw.host, hpipe ▸ hw.pipe, hthread ▸ hw.thread, hX _⟩
    refine always_bind (hset _ fun _ => ⟨rfl, rfl, rfl⟩) fun _ _ => ?_
    refine always_bind (always_onHost (always_open hI hK.cut _ _)) fun r _ => ?_
    cases r with
    | error e =>
      refine always_bind (hset _ fun _ => ⟨rfl, rfl, rfl⟩) fun _ _ => ?_
      exact always_log hI _ _
    | ok fd =>
      refine always_bind (hset _ fun _ => ⟨rfl, rfl, rfl⟩) fun _ _ => ?_
      refine always_bind (always_onHost (always_readProcInfo hI hK.cut _ _)) fun r _ => ?_
      refine always_bind (hset _ fun _ => ⟨rfl, rfl, rfl⟩) fun _ _ => ?_
      split
      · exact always_pure trivial
      · exact always_log hI _ _

/-- The executable is known, or a NULL pointer does no harm. -/
def Knows (K : Stop Fault → Prop) (X : Conf → Prop) : Prop :=
  ∀ conf, X conf → conf.proc.exe = none → K (.fault .nullDeref)

theorem always_openStreams (hI : ProcInv I N) (hK : Stops K) (hX : Knows K X) :
    Always K (WorldInv I N X) (openStreams env env') (StreamsOk N) := by
  refine always_bind (always_onTee (calmly_readPid hK)) fun pid _ => ?_
  refine always_bind (always_onTee (calmly_readPid hK)) fun pid' _ => always_get_bind fun w hw => ?_
  refine always_onHost (always_openOutputs hI hK (fun hx => ?_) (fun hx => ?_) _)
  · exact hX _ hw.conf (Option.map_eq_none_iff.mp hx)
  · exact hX _ hw.conf (Option.map_eq_none_iff.mp hx)

theorem always_startInfo (hX : Knows K X) :
    Always K (WorldInv I N X) startInfo fun _ => True := by
  refine always_get_bind fun w hw => ?_
  split
  · cases hexe : w.conf.proc.exe with
    | none => exact always_fault (hX _ hw.conf hexe)
    | some exe => exact always_pure trivial
  · exact always_pure trivial

theorem always_threadAct (hI : HostInv I N) (a : ThreadAct) :
    Always K (WorldInv I N X) (threadAct a) fun _ => True := by
  cases a with
  | openProc cloexec =>
    refine always_get_bind fun w hw => ?_
    cases hfds : w.thread with
    | none => exact always_pure trivial
    | some fds =>
      refine always_bind (always_onHost (always_alloc hI _)) fun fd hfd => always_modify fun v hv => ?_
      refine ⟨hv.host, hv.pipe, fun fds' hfds' => ?_, hv.conf⟩
      rw [← Option.some.inj hfds']
      exact List.forall_mem_cons.mpr ⟨hfd, hw.thread fds hfds⟩
  | closeProc =>
    refine always_get_bind fun w hw => ?_
    split
    · rename_i fd fds hfds
      obtain ⟨hfd, hrest⟩ := List.forall_mem_cons.mp (hw.thread _ hfds)
      refine always_bind (always_onHost (always_close hI hfd)) fun _ _ => always_modify fun v hv => ?_
      exact ⟨hv.host, hv.pipe, fun fds' hfds' => Option.some.inj hfds' ▸ hrest, hv.conf⟩
    · exact always_pure trivial
  | closePipe =>
    refine always_get_bind fun w hw => ?_
    split
    · rename_i p _ hp
      refine always_bind (always_onHost (always_close hI (hw.pipe p hp).1)) fun _ _ => ?_
      exact always_modify fun v hv => ⟨hv.host, hv.pipe, nofun, hv.conf⟩
    · exact always_pure trivial

theorem always_threadActs (hI : HostInv I N) (hK : Stops K) :
    Always K (WorldInv I N X) threadActs fun _ => True := by
  refine always_forever (fun _ => True) hK.cut (fun _ _ => ?_) trivial
  refine always_bind (always_ask hK.cut) fun w _ => ?_
  split
  · exact always_bind (always_threadAct hI _) fun _ _ => always_pure trivial
  · exact always_pure trivial

theorem always_copyCore (hI : HostInv I N) (hK : Stops K) (libunwind : Bool) :
    Always K (WorldInv I N X) (copyCore libunwind) fun _ => True := by
  refine always_get_bind fun w hw => ?_
  have hfd : N w.infoFd := by
    rw [World.infoFd]
    split
    · rename_i p hp
      exact (hw.pipe p hp).2
    · exact hI.neg _ (by decide)
  have hacts := always_threadActs (X := X) hI hK
  have hclose : Always K (WorldInv I N X) (onHost (close w.infoFd)) fun _ => True :=
    always_onHost (always_close hI hfd)
  have hrest : Always K (WorldInv I N X) (do
      forever (fun _ => do
        threadActs
        onTee (copyTurn (decide (w.infoFd ≥ 0)))) ()
      threadActs
      onHost (close w.infoFd)) fun _ => True := by
    refine always_bind (always_forever (fun _ => True) (Q := fun _ => True) hK.cut (fun _ _ => ?_)
      trivial) fun _ _ => always_bind hacts fun _ _ => hclose
    refine always_bind hacts fun _ _ => (always_onTee (calmly_copyTurn hK _)).mono fun r _ => ?_
    cases r <;> trivial
  refine always_bind hacts fun _ _ => always_bind (always_onTee (calmly_catchUp hK _ _)) fun _ _ => ?_
  split
  · exact always_bind hclose fun _ _ => hrest
  · exact hrest

theorem always_joinThread (hI : HostInv I N) (hK : Stops K) (pipe : InfoPipe) :
    Always K (WorldInv I N X) (joinThread env pipe) fun _ => True := by
  rw [joinThread]
  split
  · refine always_forever (fun _ => True) hK.cut (fun _ _ => always_get_bind fun w _ => ?_) trivial
    split
    · exact always_bind (always_threadActs hI hK) fun _ _ => always_pure trivial
    · exact always_pure trivial
  · refine always_bind (always_ask hK.cut) fun w _ => ?_
    split
    · exact always_log hI _ _
    · exact always_fault (hK.fault _ (by decide))

theorem always_save (hI : ProcInv I N) (hK : Stops K) (hX : Knows K X) (libunwind : Bool)
    (pipe : InfoPipe) :
    Always K (WorldInv I N X) (save env env' libunwind pipe) fun _ => True := by
  refine always_bind (always_openStreams hI hK hX) fun r hr => always_get_bind fun w _ => ?_
  have hclose : ∀ (c : ConfOutput) (r : RunOutput), N r.outputFd →
      Always K (WorldInv I N X) (onHost (closeOutput env c r)) fun _ => True :=
    fun c r hfd => always_onHost (always_closeOutput hI hK.cut c hfd)
  match r, hr with
  | .error none, _ => exact always_pure trivial
  | .error (some info), hr =>
    exact always_bind (hclose _ _ (hr info rfl)) fun _ _ => always_pure trivial
  | .ok (info, core), ⟨hinfo, hcore⟩ =>
    refine always_bind (always_startInfo hX) fun _ _ => ?_
    refine always_bind (always_copyCore hI.toHostInv hK _) fun _ _ => ?_
    refine always_bind (always_joinThread hI.toHostInv hK _) fun _ _ => ?_
    refine always_bind (hclose _ _ hcore) fun _ _ => always_bind (hclose _ _ hinfo) fun _ _ => ?_
    exact always_onHost (always_notifyInfoCore hI.node.toForkInv hK.cut _ _ _)

end World

end Crashinfo
