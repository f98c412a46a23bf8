import Crashinfo.Main.Standard
import Mathlib.Data.List.ReduceOption

/-!
# Who waits for the filters

A filter is started by `open_output`, and either killed there or handed over in
`r->filter` to `close_output`.  In between `main` may give up.  `Owns l` says
that just the filters `l` are left to wait for, and their nodes to free: every
part of the program is followed from one such list to the next, and in the end
there is none left (`main_reaps`).
-/

namespace Crashinfo

open Script Script.Run

/-- The filters with the PIDs `l` are not waited for yet, and all the others are. -/
structure Owns (l : List Nat) (p : Procs) : Prop where
  filters : p.filters.Perm (p.waited ++ l)
  nodup : p.filters.Nodup
  fresh : ∀ pid ∈ p.filters, pid ≤ p.kids.length
  freed : p.freed.reduceOption = p.waited
  nodes : p.nodes = p.freed.length + l.length

/-- Every filter was waited for once, and nothing else was; every node was freed
once. -/
structure ReapedOnce (h : Host) : Prop where
  waited : ∀ pid, h.waited.count pid = if pid ∈ h.filters then 1 else 0
  freed : ∀ pid, h.freed.count (some pid) = if pid ∈ h.filters then 1 else 0
  nodes : h.freed.length = h.nodes

def Adds (Q : Reap → Prop) (h h' : Host) : Prop := ∃ l, h'.reaps = h.reaps ++ l ∧ ∀ x ∈ l, Q x

def pids (fs : List RunFilter) : List Nat := fs.map RunFilter.pid

/-! ### The lists -/

section Owns

variable {l l' : List Nat} {p : Procs} {h h' : Host} {pid : Nat}

theorem Owns.perm (ho : Owns l p) (hl : l.Perm l') : Owns l' p where
  filters := ho.filters.trans (hl.append_left _)
  nodup := ho.nodup
  fresh := ho.fresh
  freed := ho.freed
  nodes := by rw [ho.nodes, hl.length_eq]

/-- The node was freed behind `waitpid`. -/
theorem Owns.reap (ho : Owns (pid :: l) p) (killed : List Nat) (reaps : List Reap) :
    Owns l { p with
      killed, reaps, waited := p.waited ++ [pid], freed := p.freed ++ [some pid] } where
  filters := by
    rw [List.append_assoc]
    exact ho.filters
  nodup := ho.nodup
  fresh := ho.fresh
  freed := by
    show (p.freed ++ [some pid]).reduceOption = p.waited ++ [pid]
    rw [List.reduceOption_append, ho.freed]
    rfl
  nodes := by
    show p.nodes = (p.freed ++ [some pid]).length + l.length
    rw [ho.nodes, List.length_append, List.length_cons, List.length_singleton]
    omega

theorem Owns.noFilter (ho : Owns l p) :
    Owns l { p with nodes := p.nodes + 1, freed := p.freed ++ [none] } where
  filters := ho.filters
  nodup := ho.nodup
  fresh := ho.fresh
  freed := by
    show (p.freed ++ [none]).reduceOption = p.waited
    rw [List.reduceOption_append, ho.freed]
    exact List.append_nil _
  nodes := by
    show p.nodes + 1 = (p.freed ++ [none]).length + l.length
    rw [ho.nodes, List.length_append, List.length_singleton]
    omega

theorem Owns.filter (ho : Owns l p) (kid : Kid) :
    Owns (l ++ [p.kids.length + 1]) { p with
      kids := p.kids ++ [kid]
      nodes := p.nodes + 1
      filters := p.filters ++ [p.kids.length + 1] } where
  filters := by
    rw [← List.append_assoc]
    exact ho.filters.append_right _
  nodup := by
    show (p.filters ++ [p.kids.length + 1]).Nodup
    rw [List.nodup_append]
    refine ⟨ho.nodup, List.nodup_singleton _, fun pid hpid pid' hpid' => ?_⟩
    have hle := ho.fresh pid hpid
    have heq := List.mem_singleton.mp hpid'
    omega
  fresh := by
    intro pid hpid
    show pid ≤ (p.kids ++ [kid]).length
    rw [List.length_append, List.length_singleton]
    rcases List.mem_append.mp hpid with hpid | hpid
    · exact Nat.le_succ_of_le (ho.fresh pid hpid)
    · exact Nat.le_of_eq (List.mem_singleton.mp hpid)
  freed := ho.freed
  nodes := by
    show p.nodes + 1 = p.freed.length + (l ++ [p.kids.length + 1]).length
    rw [ho.nodes, List.length_append, List.length_singleton]
    omega

theorem Owns.none (ho : Owns l p) : Owns (l ++ pids []) p :=
  ho.perm (List.Perm.of_eq (List.append_nil l).symm)

theorem count_reduceOption (l : List (Option Nat)) (pid : Nat) :
    l.reduceOption.count pid = l.count (some pid) := by
  induction l with
  | nil => rfl
  | cons a l ih =>
    cases a with
    | none =>
      rw [List.reduceOption_cons_of_none, ih]
      exact (List.count_cons_of_ne (Option.some_ne_none pid).symm).symm
    | some a =>
      rw [List.reduceOption_cons_of_some, List.count_cons, List.count_cons, ih]
      simp

/-- **In the end nothing is left.** -/
theorem Owns.reapedOnce (ho : Owns [] h.procs) : ReapedOnce h := by
  have hwaited : ∀ pid, h.waited.count pid = if pid ∈ h.filters then 1 else 0 := by
    intro pid
    have hperm : h.filters.Perm h.waited := by
      have hnil := ho.filters
      rwa [List.append_nil] at hnil
    rw [← hperm.count_eq]
    exact ho.nodup.count
  refine ⟨hwaited, fun pid => ?_, ho.nodes.symm⟩
  rw [← count_reduceOption, show h.freed.reduceOption = h.waited from ho.freed]
  exact hwaited pid

theorem Adds.refl (Q : Reap → Prop) (h : Host) : Adds Q h h :=
  ⟨[], (List.append_nil _).symm, nofun⟩

theorem adds_of_eq {Q : Reap → Prop} (hr : h'.reaps = h.reaps) : Adds Q h h' :=
  ⟨[], hr.trans (List.append_nil _).symm, nofun⟩

theorem Adds.trans {Q : Reap → Prop} {h₁ : Host} (h1 : Adds Q h h₁) (h2 : Adds Q h₁ h') :
    Adds Q h h' := by
  obtain ⟨l, heq, hl⟩ := h1
  obtain ⟨l', heq', hl'⟩ := h2
  refine ⟨l ++ l', by rw [heq', heq, List.append_assoc], fun x hx => ?_⟩
  rcases List.mem_append.mp hx with hx | hx
  · exact hl x hx
  · exact hl' x hx

end Owns

/-! ### What leaves the filters alone -/

theorem procs_close (h : Host) (fd : Int) : (h.close fd).procs = h.procs := by
  rw [Host.close]
  split
  · rfl
  · rfl

theorem hostInv_procs (p : Procs) : HostInv (fun h => h.procs = p) fun _ => True where
  aside := fun _ _ hp haside => haside.procs.trans hp
  alloc := fun _ _ hp => ⟨hp, trivial⟩
  close := fun h fd hp _ => (procs_close h fd).trans hp
  neg := fun _ _ => trivial

theorem forkInv_owns (l : List Nat) : ForkInv (fun h => Owns l h.procs) fun _ => True where
  aside := fun _ _ ho haside => haside.procs ▸ ho
  alloc := fun _ _ ho => ⟨ho, trivial⟩
  close := fun h fd ho _ => (procs_close h fd).symm ▸ ho
  neg := fun _ _ => trivial
  spawn := fun h cmd infd outfd arg1 arg2 ho => by
    refine ⟨ho.filters, ho.nodup, fun pid hpid => ?_, ho.freed, ho.nodes⟩
    show pid ≤ (h.kids ++ [_]).length
    rw [List.length_append]
    exact Nat.le_add_right_of_le (ho.fresh pid hpid)

theorem nodeInv_reaps (l : List Reap) : NodeInv (fun h => h.reaps = l) fun _ => True where
  aside := fun h h' hl haside => by
    have hreaps := congrArg Procs.reaps haside.procs
    exact hreaps.trans hl
  alloc := fun _ _ hl => ⟨hl, trivial⟩
  close := fun h fd hl _ => (congrArg Procs.reaps (procs_close h fd)).trans hl
  neg := fun _ _ => trivial
  spawn := fun _ _ _ _ _ _ hl => hl
  node := fun _ _ _ _ hl => hl

/-! ### The calls -/

section Calls

variable {l : List Nat} {env : Env} {h : Host} {r : RunOutput}

/-- The process that was forked, if any, is the last one. -/
theorem leads_spawnProc (env : Env) (cmd : Str) (infd outfd : Int) (arg1 arg2 : Option Str)
    (h : Host) :
    Leads (spawnProc env cmd infd outfd arg1 arg2) h fun pid h' =>
      match pid with
      | none => Aside h h'
      | some pid => pid = h.kids.length + 1 ∧ h' = h.spawn cmd infd outfd arg1 arg2 := by
  refine meets_bind (leads_syscall (fun e => ?_) ?_)
  · refine meets_bind (meets_modify (meets_pure ?_))
    have hlater := (aside_fail h .fork).toLater
    exact ⟨⟨rfl, rfl, hlater.failed, List.prefix_append _ _⟩, rfl⟩
  · exact meets_bind (meets_get (meets_bind (meets_modify (meets_pure (meets_pure ⟨rfl, rfl⟩)))))

theorem leads_spawnFilter (cmd : Str) (infd outfd : Int) (ho : Owns l h.procs) :
    Leads (spawnFilter env cmd infd outfd) h fun pid h' => Owns (l ++ pid.toList) h'.procs := by
  refine meets_bind (leads_syscall (fun e => ?_) (meets_modify ?_))
  · refine meets_bind (meets_modify (meets_pure ?_))
    rw [Option.toList_none, List.append_nil]
    exact ho
  refine (leads_spawnProc env cmd infd outfd none none _).andThen fun pid h₁ hfork => ?_
  cases pid with
  | none =>
    refine meets_bind (meets_modify (meets_pure ?_))
    have hprocs : h₁.procs = { h.procs with nodes := h.nodes + 1 } := hfork.procs
    have hno := ho.noFilter
    rw [Option.toList_none, List.append_nil]
    show Owns l { h₁.procs with freed := h₁.procs.freed ++ [none] }
    rw [hprocs]
    exact hno
  | some pid =>
    obtain ⟨rfl, rfl⟩ := hfork
    exact meets_bind (meets_modify (meets_pure (ho.filter _)))

theorem leads_killFilters_owns (fs : List RunFilter) (ho : Owns (pids fs ++ l) h.procs) :
    Leads (killFilters fs) h fun _ h' => Owns l h'.procs := by
  induction fs generalizing h with
  | nil => exact meets_pure ho
  | cons f fs ih =>
    refine meets_bind (meets_modify (meets_bind (meets_modify (meets_bind (meets_modify (ih ?_))))))
    exact ho.reap _ _

theorem leads_killFilters_reaps (fs : List RunFilter) :
    Leads (killFilters fs) h fun _ h' => Adds (fun x => x.killed = true) h h' := by
  induction fs generalizing h with
  | nil => exact meets_pure (Adds.refl _ h)
  | cons f fs ih =>
    refine meets_bind (meets_modify (meets_bind (meets_modify (meets_bind (meets_modify ?_)))))
    refine ih.imp fun _ h' hr => Adds.trans ?_ hr
    refine ⟨_, rfl, fun x hx => ?_⟩
    rw [List.mem_singleton.mp hx]
    exact decide_eq_true (List.mem_append_right _ (List.mem_singleton_self _))

theorem leads_waitFilter (env : Env) (f : RunFilter) (h : Host) :
    Leads (waitFilter env f) h fun _ h' => h'.fds = h.fds ∧
      h'.procs = { h.procs with
        waited := h.waited ++ [f.pid]
        reaps := h.reaps ++ [⟨f.pid, decide (f.pid ∈ h.killed), h.fds⟩] } := by
  refine meets_bind (meets_modify (meets_bind (meets_ask (fun w _ => ?_) trivial)))
  split
  · exact meets_modify ⟨rfl, rfl⟩
  · split
    · exact meets_modify ⟨rfl, rfl⟩
    · exact meets_modify ⟨rfl, rfl⟩
  · exact meets_modify ⟨rfl, rfl⟩
  · exact meets_pure ⟨rfl, rfl⟩

theorem leads_waitFilters_owns (fs : List RunFilter) (ho : Owns (pids fs ++ l) h.procs) :
    Leads (waitFilters env fs) h fun _ h' => Owns l h'.procs := by
  induction fs generalizing h with
  | nil => exact meets_pure ho
  | cons f fs ih =>
    refine (leads_waitFilter env f h).andThen fun _ h₁ hwait => meets_bind (meets_modify (ih ?_))
    have hprocs := hwait.2
    show Owns _ { h₁.procs with freed := h₁.procs.freed ++ [some f.pid] }
    rw [hprocs]
    exact ho.reap _ _

/-- All filters are waited for with the same descriptors. -/
theorem leads_waitFilters_reaps (fs : List RunFilter) :
    Leads (waitFilters env fs) h fun _ h' => Adds (fun x => x.fds = h.fds) h h' := by
  induction fs generalizing h with
  | nil => exact meets_pure (Adds.refl _ h)
  | cons f fs ih =>
    refine (leads_waitFilter env f h).andThen fun _ h₁ hwait => meets_bind (meets_modify ?_)
    refine ih.imp fun _ h' hr => Adds.trans ?_ (hwait.1 ▸ hr)
    refine ⟨_, congrArg Procs.reaps hwait.2, fun x hx => ?_⟩
    rw [List.mem_singleton.mp hx]

/-! ### `open_output` -/

def startedBy : Except (List RunFilter × Int) (List RunFilter) → List RunFilter
  | .ok fs => fs
  | .error x => x.1

theorem leads_filterEnds (nextIn nextOut : Int) (more : Bool) :
    Leads (filterEnds env nextIn nextOut more) h fun _ h' => h'.procs = h.procs := by
  have hends : Always (fun _ => True) (fun h' => h'.procs = h.procs)
      (filterEnds env nextIn nextOut more) _ :=
    always_filterEnds (hostInv_procs h.procs) trivial more trivial trivial
  exact hends.keeps rfl

theorem leads_spawnFilters (nextOut : Int) (fs : List Str) (nextIn : Int) (done : List RunFilter)
    (ho : Owns (l ++ pids done) h.procs) :
    Leads (spawnFilters env nextOut fs nextIn done) h fun a h' =>
      Owns (l ++ pids (startedBy a)) h'.procs := by
  induction fs generalizing nextIn done h with
  | nil => exact meets_pure ho
  | cons f fs ih =>
    refine (leads_filterEnds nextIn nextOut _).andThen fun a h₁ hprocs => ?_
    rw [← hprocs] at ho
    cases a with
    | none => exact meets_pure ho
    | some ends =>
      refine (leads_spawnFilter f _ _ ho).andThen fun pid h₂ ho₂ => ?_
      cases pid with
      | none =>
        rw [Option.toList_none, List.append_nil] at ho₂
        exact meets_pure ho₂
      | some pid =>
        refine meets_bind (meets_modify (meets_bind (meets_modify (ih _ _ ?_))))
        have hdone : l ++ pids (done ++ [⟨f, pid⟩]) = l ++ pids done ++ [pid] := by
          rw [pids, pids, List.map_append, List.append_assoc]
          rfl
        rw [procs_close, procs_close, hdone]
        exact ho₂

/-- Nobody is left to wait for if there is no descriptor. -/
def Handed (l : List Nat) (r : RunOutput) (h : Host) : Prop :=
  Owns (l ++ pids r.filter) h.procs ∧ (r.outputFd < 0 → r.filter = [])

theorem leads_err0 (hr : r.filter = []) (ho : Owns l h.procs) :
    Leads (err0 r) h fun a h' => Handed l a.2 h' := by
  have hnull : Always (fun _ => True) (fun h' => h'.procs = h.procs) openDevnull _ :=
    always_openDevnull (hostInv_procs h.procs) trivial
  refine (hnull.leads rfl).andThen fun fd h₁ hfd => meets_pure ⟨?_, fun _ => hr⟩
  rw [hr, hfd.1]
  exact ho.none

theorem leads_err1 (nextIn nextOut : Int) (ho : Owns (l ++ pids r.filter) h.procs) :
    Leads (err1 r nextIn nextOut) h fun a h' => Handed l a.2 h' := by
  have hkill := leads_killFilters_owns r.filter (ho.perm List.perm_append_comm)
  refine hkill.andThen fun _ h₁ ho₁ => ?_
  refine meets_bind (meets_modify (meets_bind (meets_modify (meets_bind (meets_modify ?_)))))
  refine leads_err0 rfl ?_
  rw [procs_close, procs_close, procs_close]
  exact ho₁

theorem leads_setupFilters (c : ConfOutput) (fd : Int) (hr : r.filter = [])
    (ho : Owns l h.procs) : Leads (setupFilters env c fd r) h fun a h' => Handed l a.2 h' := by
  have hnone : Owns (l ++ pids r.filter) h.procs := by
    rw [hr]
    exact ho.none
  rw [setupFilters]
  split
  · exact meets_pure ⟨hnone, fun _ => hr⟩
  have hpipe : Always (fun _ => True) (fun h' => h'.procs = h.procs) pipe2 _ :=
    always_pipe2 (hostInv_procs h.procs) trivial
  refine (hpipe.leads rfl).andThen fun p h₁ hp => ?_
  cases p with
  | error e =>
    refine meets_bind (meets_modify (meets_bind (meets_modify (meets_pure ⟨?_, fun _ => hr⟩))))
    rw [procs_close]
    show Owns _ h₁.procs
    rw [hp.1]
    exact hnone
  | ok p =>
    refine (leads_spawnFilters (l := l) fd c.filter p.1 [] ?_).andThen fun q h₂ hq => ?_
    · rw [hp.1]
      exact ho.none
    cases q with
    | ok fs => exact meets_pure ⟨hq, fun hneg => absurd hneg (Int.not_lt.mpr p.2.cast_nonneg)⟩
    | error x => exact leads_err1 _ _ hq

theorem leads_openOutput (c : ConfOutput) (hr : r.filter = []) (ho : Owns l h.procs) :
    Leads (openOutput env c r) h fun a h' => Handed l a.2 h' := by
  have hsink : Always (fun _ => True) (fun h' => h'.procs = h.procs) (openSink env c r) _ :=
    always_openSink (hostInv_procs h.procs) stops_any (fun _ => trivial) r
  refine (hsink.leads rfl).andThen fun s h₁ hs => ?_
  rw [← hs.1] at ho
  cases s with
  | none => exact leads_err0 hr ho
  | some s => exact leads_setupFilters c s.1 rfl ho

theorem leads_sameReaps {α : Type} {m : HostRun α} {R : α → Prop} {l : List Reap}
    (hm : Always (fun _ => True) (fun h' => h'.reaps = l) m R) (hl : h.reaps = l) :
    Leads m h fun _ h' => h'.reaps = l :=
  hm.keeps hl

theorem leads_err1_reaps (r : RunOutput) (nextIn nextOut : Int) :
    Leads (err1 r nextIn nextOut) h fun _ h' => Adds (fun x => x.killed = true) h h' := by
  refine (leads_killFilters_reaps r.filter).andThen fun _ h₁ hkill => ?_
  refine meets_bind (meets_modify (meets_bind (meets_modify (meets_bind (meets_modify ?_)))))
  have hclose : (((h₁.close r.outputFd).close nextIn).close nextOut).procs = h₁.procs := by
    rw [procs_close, procs_close, procs_close]
  have hI := (nodeInv_reaps h₁.reaps).toHostInv
  have hnull := leads_sameReaps (always_err0 hI trivial { r with filter := [] })
    (congrArg Procs.reaps hclose)
  exact hnull.imp fun _ _ hr => hkill.trans (adds_of_eq hr)

/-- **Whom `open_output` waits for it has killed.** -/
theorem leads_openOutput_reaps (env : Env) (c : ConfOutput) (r : RunOutput) (h : Host) :
    Leads (openOutput env c r) h fun _ h' => Adds (fun x => x.killed = true) h h' := by
  have hI := nodeInv_reaps h.reaps
  have hsink : Always (fun _ => True) (fun h' => h'.reaps = h.reaps) (openSink env c r) _ :=
    always_openSink hI.toHostInv stops_any (fun _ => trivial) r
  refine (leads_sameReaps hsink rfl).andThen fun s h₁ h1 => ?_
  cases s with
  | none =>
    have hnull := leads_sameReaps (always_err0 hI.toHostInv trivial r) h1
    exact hnull.imp fun _ _ => adds_of_eq
  | some s =>
    dsimp only
    rw [setupFilters]
    split
    · exact meets_pure (adds_of_eq h1)
    refine (leads_sameReaps (always_pipe2 hI.toHostInv trivial) h1).andThen fun p h₂ h2 => ?_
    cases p with
    | error e =>
      refine meets_bind (meets_modify (meets_bind (meets_modify (meets_pure (adds_of_eq ?_)))))
      exact (congrArg Procs.reaps (procs_close _ s.1)).trans h2
    | ok p =>
      have hspawn : Always (fun _ => True) (fun h' => h'.reaps = h.reaps)
          (spawnFilters env s.1 c.filter p.1 []) _ :=
        always_spawnFilters hI trivial trivial c.filter p.1 [] trivial
      refine (leads_sameReaps hspawn h2).andThen fun q h₃ h3 => ?_
      cases q with
      | ok fs => exact meets_pure (adds_of_eq h3)
      | error x =>
        exact (leads_err1_reaps _ x.2 s.1).imp fun _ _ hr => (adds_of_eq h3).trans hr

/-- What `main` has to wait for when both outputs were opened, or one was not. -/
def HandedBoth (a : Except (Option RunOutput) (RunOutput × RunOutput)) (h : Host) : Prop :=
  match a with
  | .error none => Owns [] h.procs
  | .error (some info) => Handed [] info h
  | .ok (info, core) =>
    Handed (pids info.filter) core h ∧ (info.outputFd < 0 → info.filter = [])

theorem leads_openOutputs {env' : Env} (conf : Conf) (ho : Owns [] h.procs) :
    Leads (openOutputs env env' conf) h HandedBoth := by
  refine (leads_openOutput conf.info rfl ho).andThen fun info h₁ hhanded => ?_
  split
  · rename_i hneg
    have hnil : Owns ([] ++ pids info.2.filter) h₁.procs := hhanded.1
    rw [hhanded.2 hneg] at hnil
    exact meets_pure hnil
  have hopen : Always (fun _ => True) (fun h' => h'.procs = h₁.procs) (fdopen info.2.outputFd) _ :=
    always_fdopen (hostInv_procs h₁.procs) trivial _
  refine (hopen.leads rfl).andThen fun u h₂ hu => ?_
  have hprocs := hu.1
  cases u with
  | error e =>
    refine meets_bind (meets_modify (meets_pure ⟨?_, hhanded.2⟩))
    show Owns _ h₂.procs
    rw [hprocs]
    exact hhanded.1
  | ok u =>
    have ho₂ : Owns (pids info.2.filter) h₂.procs := by
      rw [hprocs]
      exact hhanded.1
    refine (leads_openOutput conf.core rfl ho₂).andThen fun core h₃ hcore => ?_
    dsimp only
    split
    · rename_i hneg
      have hnil := hcore.1
      rw [hcore.2 hneg, pids, pids, List.map_nil, List.append_nil] at hnil
      exact meets_pure ⟨hnil, hhanded.2⟩
    · exact meets_pure ⟨hcore, hhanded.2⟩

/-! ### `close_output` -/

theorem leads_notifyAll {Q : Host → Prop} (hI : ForkInv Q fun _ => True) (name : Str)
    (cmds : List Str) (hq : Q h) : Leads (notifyAll env name cmds) h fun _ h' => Q h' := by
  have hall : Always (fun _ => True) Q (notifyAll env name cmds) _ :=
    always_notifyAll hI trivial name cmds
  exact hall.keeps hq

theorem leads_closeOutput_owns (c : ConfOutput) (hr : Handed l r h) :
    Leads (closeOutput env c r) h fun _ h' => Owns l h'.procs := by
  rw [closeOutput]
  split
  · rename_i hneg
    have hnil := hr.1
    rw [hr.2 hneg, pids, List.map_nil, List.append_nil] at hnil
    exact meets_pure hnil
  refine meets_bind (meets_modify ?_)
  refine (leads_waitFilters_owns (l := l) r.filter ?_).andThen fun _ h₁ ho => ?_
  · rw [procs_close]
    exact hr.1.perm List.perm_append_comm
  split
  · exact (leads_notifyAll (forkInv_owns l) _ c.notify ho).andThen fun _ _ hn => meets_pure hn
  · exact meets_pure ho

theorem get_close (h : Host) {fd : Int} (hfd : 0 ≤ fd) : (h.close fd).fds.get fd.toNat = none := by
  rw [Host.close]
  split
  · show (h.fds.remove fd.toNat).get fd.toNat = none
    rw [Table.get_remove, if_pos rfl]
  · rename_i hat
    rw [Host.at, if_pos hfd] at hat
    exact hat

/-- **The descriptor of the stream is closed before anyone waits for its filters**,
and it is not closed again. -/
theorem leads_closeOutput (env : Env) (c : ConfOutput) (r : RunOutput) (h : Host) :
    Leads (closeOutput env c r) h fun r' h' =>
      Adds (fun x => x.fds.get r.outputFd.toNat = none) h h' ∧ r'.outputFd < 0 := by
  rw [closeOutput]
  split
  · rename_i hneg
    exact meets_pure ⟨Adds.refl _ h, hneg⟩
  rename_i hneg
  have hclosed := get_close h (Int.not_lt.mp hneg)
  refine meets_bind (meets_modify ((leads_waitFilters_reaps r.filter).andThen fun _ h₁ hadds => ?_))
  have hwait : Adds (fun x => x.fds.get r.outputFd.toNat = none) h h₁ := by
    obtain ⟨l, heq, hl⟩ := hadds
    have hreaps : (h.close r.outputFd).reaps = h.reaps := congrArg Procs.reaps (procs_close h _)
    refine ⟨l, hreaps ▸ heq, fun x hx => ?_⟩
    have hfds : x.fds = (h.close r.outputFd).fds := hl x hx
    show x.fds.get _ = none
    rw [hfds, hclosed]
  split
  · have hI := (nodeInv_reaps h₁.reaps).toForkInv
    refine (leads_notifyAll hI _ c.notify rfl).andThen fun _ h₂ hn => ?_
    exact meets_pure ⟨hwait.trans (adds_of_eq hn), Int.negSucc_lt_zero 0⟩
  · exact meets_pure ⟨hwait, Int.negSucc_lt_zero 0⟩

end Calls

/-! ### `main` -/

section Main

variable {env env' : Env} {w : World} {l : List Nat}

/-- What leaves all other processes alone leads to where nothing has happened to
them. -/
theorem leads_aside {α : Type} {m : MainRun α} {p : Procs} {R : α → Prop}
    (hm : Always (fun _ => True) (WorldInv (fun h => h.procs = p) (fun _ => True) fun _ => True) m R)
    (hp : w.host.procs = p) : Leads m w fun _ w' => w'.host.procs = p := by
  have hw : WorldInv (fun h => h.procs = p) (fun _ => True) (fun _ => True) w :=
    ⟨hp, fun _ _ => ⟨trivial, trivial⟩, fun _ _ _ _ => trivial, trivial⟩
  exact (hm.keeps hw).imp fun _ _ hr => hr.host

theorem leads_readPid : Leads (onTee readPid) w fun _ w' => w'.host = w.host :=
  meets_zoom ((calmly_readPid stops_any w.copying trivial).mono (fun _ _ _ => rfl) fun _ _ _ => trivial)

theorem leads_openStreams (ho : Owns [] w.host.procs) :
    Leads (openStreams env env') w fun a w' => HandedBoth a w'.host := by
  refine leads_readPid.andThen fun pid w₁ h1 => leads_readPid.andThen fun pid' w₂ h2 => ?_
  rw [← h1, ← h2] at ho
  exact meets_bind (meets_get (meets_zoom (leads_openOutputs _ ho)))

theorem leads_save (libunwind : Bool) (pipe : InfoPipe) (ho : Owns [] w.host.procs) :
    Leads (save env env' libunwind pipe) w fun _ w' => Owns [] w'.host.procs := by
  refine (leads_openStreams ho).andThen fun a w₁ ha => meets_bind (meets_get ?_)
  match a, ha with
  | .error none, ha => exact meets_pure ha
  | .error (some info), ha =>
    exact (leads_onHost (leads_closeOutput_owns _ ha)).andThen fun _ _ h => meets_pure h
  | .ok (info, core), ⟨hcore, hinfo⟩ =>
    have hp := hostInv_procs w₁.host.procs
    refine (leads_aside (always_startInfo fun _ _ _ => trivial) rfl).andThen fun _ w₂ h2 => ?_
    refine (leads_aside (always_copyCore hp stops_any _) h2).andThen fun _ w₃ h3 => ?_
    refine (leads_aside (always_joinThread hp stops_any _) h3).andThen fun _ w₄ h4 => ?_
    have hcore₄ : Handed (pids info.filter) core w₄.host := ⟨h4 ▸ hcore.1, hcore.2⟩
    refine (leads_onHost (leads_closeOutput_owns _ hcore₄)).andThen fun _ w₅ h5 => ?_
    have hinfo₅ : Handed [] info w₅.host := ⟨h5, hinfo⟩
    refine (leads_onHost (leads_closeOutput_owns _ hinfo₅)).andThen fun _ w₆ h6 => ?_
    have hall : Always (fun _ => True) (fun h => Owns [] h.procs)
        (notifyInfoCore env info core w₁.conf.infoCoreNotify) _ :=
      always_notifyInfoCore (forkInv_owns []) trivial info core _
    exact leads_onHost (hall.keeps h6)

theorem leads_main (libunwind : Bool) (files : List ConfFile) (dir : ProcDir)
    (ho : Owns [] w.host.procs) :
    Leads (main env env' libunwind files dir) w fun _ w' => Owns [] w'.host.procs := by
  have hp := hostInv_procs w.host.procs
  refine (leads_aside (always_start hp stops_any trivial files) rfl).andThen fun found w₁ h1 => ?_
  cases found with
  | none =>
    refine meets_pure ?_
    rw [h1]
    exact ho
  | some pipe =>
    refine (leads_aside (always_readProc hp stops_any fun _ => trivial) h1).andThen fun _ w₂ h2 => ?_
    rw [← h2] at ho
    exact leads_save libunwind pipe ho

/-- **Every filter is reaped once**: in any run of `main` that ends, every filter
was waited for just once, and nothing else was, and every node was freed just
once.  `open_output` only waits for filters that it has killed, and
`close_output` only when the descriptor of the stream is closed; to close a stream
once more does nothing. -/
theorem main_reaps :
    (∀ (env env' : Env) (libunwind : Bool) (files : List ConfFile) (dir : ProcDir)
      (fds : Table Desc) (names : List Str) (stdin : List Byte) (conf : Conf) (pid : Int),
      Leads (main env env' libunwind files dir) (World.start fds names stdin conf pid)
        fun _ w => ReapedOnce w.host) ∧
    (∀ (env : Env) (c : ConfOutput) (h : Host),
      Leads (openOutput env c {}) h fun _ h' => Adds (fun x => x.killed = true) h h') ∧
    ∀ (env : Env) (c : ConfOutput) (r : RunOutput) (h : Host),
      Leads (closeOutput env c r) h fun r' h' =>
        Adds (fun x => x.fds.get r.outputFd.toNat = none) h h' ∧
          ∀ (env' : Env) (c' : ConfOutput), closeOutput env' c' r' = pure r' := by
  refine ⟨?_, ?_, ?_⟩
  · intro env env' libunwind files dir fds names stdin conf pid
    have hnone : Owns [] (World.start fds names stdin conf pid).host.procs :=
      ⟨List.Perm.refl _, List.nodup_nil, nofun, rfl, rfl⟩
    exact (leads_main libunwind files dir hnone).imp fun _ _ ho => ho.reapedOnce
  · exact fun env c h => leads_openOutput_reaps env c {} h
  · intro env c r h
    refine (leads_closeOutput env c r h).imp fun r' h' hr => ⟨hr.1, fun env' c' => ?_⟩
    rw [closeOutput, if_pos hr.2]

theorem main_reaps_two :
    let env := Env.plain 42 (some (lit "/x"))
    let out : ConfOutput := { exist := .append, filter := [lit "cat"] }
    let conf : Conf := { info := out, core := out, proc := { ignore := true, exe := some (lit "/x") } }
    let o := (List.replicate 10 [Answer.ok, .ok, .thread .closePipe]).flatten
    ∃ w' o', main env env true [] { exe := [] } (World.start (Host.std []).fds [] [7] conf 42) o =
      .done () w' o' ∧ w'.host.filters = [1, 2] ∧ ReapedOnce w'.host := by
  intro env out conf o
  have hafter : (main env env true [] { exe := [] }
      (World.start (Host.std []).fds [] [7] conf 42) o).After
        fun _ w' => w'.host.filters = [1, 2] := by
    decide +kernel
  obtain ⟨u, w', o', hrun, hfilters⟩ := hafter.exists
  have hreaped := main_reaps.1 env env true [] { exe := [] } (Host.std []).fds [] [7] conf 42
  exact ⟨w', o', hrun, hfilters, hreaped.of_done (fun _ _ => trivial) hrun⟩

end Main

end Crashinfo
