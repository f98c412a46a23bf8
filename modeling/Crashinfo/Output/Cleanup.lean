import Crashinfo.Output.Sink

/-!
# What `open_output` leaves behind when the filters fail

Setting up `n` filters takes `3 * n` calls: a `pipe2`, then `pipe2`, `malloc` and
`fork` for every filter but the last, and `malloc` and `fork` for that one.  The
run in which the call with a given number fails is followed to its end
(`spawnFilters_run_err`).  Where the failed call is the first one, the file is
closed but `r->output_fd` still names it; where it is `malloc` or `fork` of a
filter another one follows, `err1` closes the pipe that was to be read next and
not the two descriptors of the filter that failed.  In front of the other calls
these are the same (`openOutput_clean_iff`).
-/

namespace Crashinfo

open Script Script.Run

section Runs

variable (env : Env) {h : Host} {w w' : Answer} {e : Errno} {o : List Answer}

theorem pipe2_run (hw : NoErr w) : pipe2 h (w :: o) =
    .done (.ok (h.fds.free, (h.fds.put h.fds.free ⟨.pipeR h.pipes, true⟩).free)) h.pipe o := by
  cases w with
  | err e => exact absurd rfl (hw e)
  | _ => rfl

theorem filterEnds_run (hw : NoErr w) (nextIn nextOut : Int) :
    filterEnds env nextIn nextOut true h (w :: o) = .done (some (nextIn,
      ((h.fds.put h.fds.free ⟨.pipeR h.pipes, true⟩).free : Int), (h.fds.free : Int))) h.pipe o := by
  cases w with
  | err e => exact absurd rfl (hw e)
  | _ => rfl

theorem spawnFilter_run (hw : NoErr w) (hw' : NoErr w') (cmd : Str) (infd outfd : Int) :
    spawnFilter env cmd infd outfd h (w :: w' :: o) =
      .done (some (h.kids.length + 1)) (h.filter cmd infd outfd) o := by
  cases w with
  | err e => exact absurd rfl (hw e)
  | _ =>
    cases w' with
    | err e => exact absurd rfl (hw' e)
    | _ => rfl

theorem spawnFilter_run_err {pre : List Answer} (hpre : ∀ w ∈ pre, NoErr w) (hlen : pre.length < 2)
    (cmd : Str) (infd outfd : Int) :
    ∃ h', spawnFilter env cmd infd outfd h (pre ++ .err e :: o) = .done none h' o ∧ Idle h h' := by
  match pre, hlen with
  | [], _ => exact ⟨_, rfl, ((Idle.refl h).fail .malloc).log _⟩
  | [w], _ =>
    cases w with
    | err e => exact absurd rfl (hpre _ List.mem_cons_self e)
    | _ => exact ⟨_, rfl, ((((Idle.refl h).node _ h.freed).fail .fork).log _).node _ _⟩

theorem setupFilters_run_first {c : ConfOutput} (hne : ¬c.filter.isEmpty = true) (fd : Int)
    (r : RunOutput) : ∃ h', setupFilters env c fd r h (.err e :: o) = .done (-1, r) (h'.close fd) o ∧
      Idle h h' := by
  rw [setupFilters, if_neg hne]
  exact ⟨_, rfl, ((Idle.refl h).fail .pipe2).log _⟩

end Runs

/-! ### The loop over the filters -/

/-- In the loop: `done` were started, and besides `l` the program holds the sink
`fd`, the pipe `out` and the input of the next filter. -/
structure Underway (h₀ : Host) (null : Int) (l : List (Nat × Desc)) (fd out nextIn : Nat)
    (done : List RunFilter) (h : Host) : Prop where
  owes : ∃ p d d', Owes h₀ ((nextIn, ⟨.pipeR p, true⟩) :: (fd, d) :: (out, d') :: l) h
  kids : ∃ ks, h.kids = h₀.kids ++ ks ∧ ks.map Kid.pid = done.map RunFilter.pid
  killed : h.killed = h₀.killed
  waited : h.waited = h₀.waited
  null : h.null = null

/-- What is never closed again if the call `k` of the loop over `n` filters fails. -/
def Leaks (n k : Nat) (leak : List (Nat × Desc)) : Prop :=
  if k % 3 = 0 ∨ 3 * n ≤ k + 3 then leak = []
  else ∃ i p l, leak = (i, ⟨.pipeW p, true⟩) :: l

section Loop

variable {env : Env} {h₀ h h' : Host} {m : Int} {l : List (Nat × Desc)} {fd out nextIn : Nat}
  {done : List RunFilter}

theorem Underway.idle (hu : Underway h₀ m l fd out nextIn done h) (hi : Idle h h') :
    Underway h₀ m l fd out nextIn done h' := by
  obtain ⟨p, d, d', ho⟩ := hu.owes
  refine ⟨⟨p, d, d', ho.same hi.toSameFds⟩, ?_, ?_, ?_, hi.null.trans hu.null⟩
  · rw [hi.kids]
    exact hu.kids
  · exact hi.killed.trans hu.killed
  · exact hi.waited.trans hu.waited

/-- A pipe was opened, and the filter it is for was not started. -/
theorem Underway.leak (hu : Underway h₀ m l fd out nextIn done h) : ∃ i p e,
    Underway h₀ m ((i, ⟨.pipeW p, true⟩) :: e :: l) fd out h.fds.free done h.pipe := by
  obtain ⟨p, d, d', ho⟩ := hu.owes
  have hswap : ∀ a b c e : Nat × Desc, (a :: b :: c :: e :: l).Perm (c :: e :: a :: b :: l) :=
    fun a b c e =>
      (List.perm_append_comm : ([a, b] ++ [c, e]).Perm ([c, e] ++ [a, b])).append_right l
  have hpipe := ho.pipe.perm ((List.Perm.swap _ _ _).trans ((hswap _ _ _ _).cons _))
  exact ⟨_, h.pipes, _, ⟨h.pipes, d, d', hpipe⟩, hu.kids, hu.killed, hu.waited, hu.null⟩

/-- A pipe was opened, and the filter it is for was started. -/
theorem Underway.next (hu : Underway h₀ m l fd out nextIn done h) (cmd : Str) :
    Underway h₀ m l fd out h.fds.free (done ++ [⟨cmd, h.kids.length + 1⟩])
      (((h.pipe.filter cmd nextIn (h.fds.put h.fds.free ⟨.pipeR h.pipes, true⟩).free).close
        nextIn).close (h.fds.put h.fds.free ⟨.pipeR h.pipes, true⟩).free) := by
  obtain ⟨p, d, d', ho⟩ := hu.owes
  have hpipe := ho.pipe
  generalize (h.fds.put h.fds.free ⟨.pipeR h.pipes, true⟩).free = wr at hpipe ⊢
  have hspawn : SameFds h.pipe (h.pipe.filter cmd nextIn wr) := ⟨rfl, rfl, rfl, rfl⟩
  have hperm := hpipe.perm
    (((List.Perm.swap _ _ _).cons _).trans (List.Perm.swap _ _ _))
  have hclose := close_sameProcs ((h.pipe.filter cmd nextIn wr).close nextIn) wr
  have hclose' := (close_sameProcs (h.pipe.filter cmd nextIn wr) nextIn).trans hclose
  refine ⟨⟨h.pipes, d, d', ((hperm.same hspawn).close).close⟩, ?_, ?_, ?_, ?_⟩
  · obtain ⟨ks, hks, hpids⟩ := hu.kids
    refine ⟨ks ++ [⟨cmd, none, none, h.kids.length + 1, childFds h.pipe.fds nextIn wr⟩], ?_, ?_⟩
    · rw [hclose'.kids, ← List.append_assoc, ← hks]
      rfl
    · rw [List.map_append, List.map_append, hpids]
      rfl
  · exact hclose'.killed.trans hu.killed
  · exact hclose'.waited.trans hu.waited
  · rw [close_null, close_null]
    exact hu.null

theorem spawnFilters_run_err (env : Env) {e : Errno} {o : List Answer} (fs : List Str) :
    ∀ (pre : List Answer) (nextIn : Nat) (done : List RunFilter) (h : Host),
      (∀ w ∈ pre, NoErr w) → pre.length + 1 < 3 * fs.length →
      Underway h₀ m l fd out nextIn done h →
      ∃ (done' : List RunFilter) (nextIn' : Nat) (leak : List (Nat × Desc)) (h' : Host),
        spawnFilters env fd fs nextIn done h (pre ++ .err e :: o)
          = .done (.error (done', (nextIn' : Int))) h' o ∧
        Underway h₀ m (leak ++ l) fd out nextIn' done' h' ∧ Leaks fs.length pre.length leak := by
  induction fs with
  | nil => exact fun pre _ _ _ _ hlen => absurd hlen (by simp)
  | cons f fs ih =>
    intro pre nextIn done h hpre hlen hu
    cases fs with
    | nil =>
      -- the last filter is left with what there was
      have hshort : pre.length < 2 := by
        rw [List.length_singleton] at hlen
        omega
      obtain ⟨h', hrun, hi⟩ := spawnFilter_run_err env (h := h) (e := e) (o := o) hpre
        hshort f nextIn fd
      refine ⟨done, nextIn, [], h', ?_, hu.idle hi, ?_⟩
      · rw [spawnFilters, bind_of_done (show filterEnds env nextIn fd _ h _ = .done _ h _ from rfl)]
        exact bind_of_done hrun
      · exact (if_pos (Or.inr (by rw [List.length_singleton]; omega))).mpr rfl
    | cons g fs =>
      match pre, hpre, hlen with
      | [], _, _ =>
        -- no pipe for the next filter
        refine ⟨done, nextIn, [], _, rfl, hu.idle (((Idle.refl h).fail .pipe2).log _), ?_⟩
        exact (if_pos (Or.inl rfl)).mpr rfl
      | w :: pre, hpre, hlen =>
        have hw := hpre w List.mem_cons_self
        have hpre' := fun v hv => hpre v (List.mem_cons_of_mem w hv)
        by_cases hshort : pre.length < 2
        · -- this filter is left without its ends being closed
          obtain ⟨i, p, x, hleak⟩ := hu.leak
          obtain ⟨h', hrun, hi⟩ := spawnFilter_run_err env (h := h.pipe) (e := e) (o := o)
            hpre' hshort f nextIn (h.fds.put h.fds.free ⟨.pipeR h.pipes, true⟩).free
          refine ⟨done, h.fds.free, [(i, ⟨.pipeW p, true⟩), x], h', ?_, hleak.idle hi, ?_⟩
          · exact (bind_of_done (filterEnds_run env hw nextIn fd)).trans (bind_of_done hrun)
          · refine (if_neg ?_).mpr ⟨i, p, [x], rfl⟩
            simp only [List.length_cons]
            omega
        · obtain ⟨w', w'', pre, rfl⟩ : ∃ w' w'' pre', pre = w' :: w'' :: pre' := by
            match pre, hshort with
            | w' :: w'' :: pre', _ => exact ⟨w', w'', pre', rfl⟩
            | [], hbad => exact absurd Nat.two_pos hbad
            | [w'], hbad => exact absurd Nat.one_lt_two hbad
          have hpre'' := fun v hv => hpre' v (List.mem_cons_of_mem w' (List.mem_cons_of_mem w'' hv))
          obtain ⟨done', nextIn', leak, h', hrun, hu', hleak⟩ := ih pre h.fds.free _ _ hpre''
            (by simp only [List.length_cons] at hlen ⊢; omega) (hu.next f)
          refine ⟨done', nextIn', leak, h', ?_, hu', ?_⟩
          · have hspawn := spawnFilter_run env (h := h.pipe) (o := pre ++ .err e :: o)
              (hpre' w' List.mem_cons_self)
              (hpre' w'' (List.mem_cons_of_mem _ List.mem_cons_self)) f nextIn
              (h.fds.put h.fds.free ⟨.pipeR h.pipes, true⟩).free
            exact (bind_of_done (filterEnds_run env hw nextIn fd)).trans
              ((bind_of_done hspawn).trans hrun)
          · have hiff : ((w :: w' :: w'' :: pre).length % 3 = 0 ∨
                3 * (f :: g :: fs).length ≤ (w :: w' :: w'' :: pre).length + 3) ↔
                (pre.length % 3 = 0 ∨ 3 * (g :: fs).length ≤ pre.length + 3) := by
              simp only [List.length_cons]
              omega
            rw [Leaks, if_congr hiff rfl rfl]
            exact hleak

theorem spawnFilters_run (env : Env) {o : List Answer} (fd : Int) (fs : List Str) :
    ∀ (pre : List Answer) (nextIn : Int) (done : List RunFilter) (h : Host),
      (∀ w ∈ pre, NoErr w) → pre.length + 1 = 3 * fs.length →
      ∃ done' h', spawnFilters env fd fs nextIn done h (pre ++ o) = .done (.ok done') h' o := by
  induction fs with
  | nil => exact fun pre _ _ _ _ hlen => absurd hlen (Nat.succ_ne_zero _)
  | cons f fs ih =>
    intro pre nextIn done h hpre hlen
    rw [List.length_cons] at hlen
    cases fs with
    | nil =>
      obtain ⟨w, w', rfl⟩ := List.length_eq_two.mp (show pre.length = 2 by simpa using hlen)
      have hspawn := spawnFilter_run env (h := h) (o := o) (hpre w List.mem_cons_self)
        (hpre w' (List.mem_cons_of_mem _ List.mem_cons_self)) f nextIn fd
      refine ⟨done ++ [⟨f, h.kids.length + 1⟩],
        ((h.filter f nextIn fd).close nextIn).close fd, ?_⟩
      rw [spawnFilters, bind_of_done (show filterEnds env nextIn fd _ h _ = .done _ h _ from rfl)]
      exact bind_of_done hspawn
    | cons g fs =>
      obtain ⟨w, w', w'', pre, rfl⟩ : ∃ w w' w'' pre', pre = w :: w' :: w'' :: pre' := by
        match pre, hlen with
        | w :: w' :: w'' :: pre', _ => exact ⟨w, w', w'', pre', rfl⟩
        | [], hlen | [_], hlen | [_, _], hlen =>
          simp only [List.length_cons, List.length_nil] at hlen
          omega
      simp only [List.mem_cons, forall_eq_or_imp] at hpre
      obtain ⟨hw, hw', hw'', hpre⟩ := hpre
      obtain ⟨done', h', hrun⟩ := ih pre h.fds.free (done ++ [⟨f, h.pipe.kids.length + 1⟩])
        (((h.pipe.filter f nextIn (h.fds.put h.fds.free ⟨.pipeR h.pipes, true⟩).free).close
          nextIn).close (h.fds.put h.fds.free ⟨.pipeR h.pipes, true⟩).free) hpre
        (by simp only [List.length_cons] at hlen ⊢; omega)
      have hspawn := spawnFilter_run env (h := h.pipe) (o := pre ++ o) hw' hw'' f nextIn
        (h.fds.put h.fds.free ⟨.pipeR h.pipes, true⟩).free
      exact ⟨done', h', (bind_of_done (filterEnds_run env hw nextIn fd)).trans
        ((bind_of_done hspawn).trans hrun)⟩

end Loop

/-! ### At `err1` -/

/-- **A clean failure**: the filters that were started are killed and reaped, and
every descriptor of the call is closed again but the new one of `/dev/null` and
the one `open_devnull` may have begun to keep. -/
structure Clean (h : Host) (a : OpenOutput) (h' : Host) : Prop where
  ret : a.1 = -1
  filter : a.2.filter = []
  output : a.2.output = false
  kids : ∃ ks, h'.kids = h.kids ++ ks ∧ h'.killed = h.killed ++ ks.map Kid.pid ∧
    h'.waited = h.waited ++ ks.map Kid.pid
  fds : ∃ (n : Nat) (cache : List (Nat × Desc)), a.2.outputFd = n ∧ Cached h h' cache ∧
    Owes h ((n, ⟨.null, false⟩) :: cache) h'

theorem Cached.trans {h h₁ h₂ : Host} {l l' : List (Nat × Desc)} (hc : Cached h h₁ l)
    (hc' : Cached h₁ h₂ l') : Cached h h₂ (l' ++ l) := by
  cases hc' with
  | same hn => exact hc.congr hn
  | new n hneg hn =>
    cases hc with
    | same hs => exact .new n (hs ▸ hneg) hn
    | new k _ hs => omega

section Err1

variable {env : Env} {c : ConfOutput} {h₀ h₁ h : Host} {fd out nextIn : Nat}
  {l leak : List (Nat × Desc)} {done : List RunFilter}

theorem ends_killFilters_all {P : Answer → Prop} (fs : List RunFilter) :
    Ends P 0 (killFilters fs) h (fun _ h' => ∃ rs ns, h' = { h with
      killed := h.killed ++ fs.map RunFilter.pid, waited := h.waited ++ fs.map RunFilter.pid,
      reaps := rs, freed := ns }) := by
  induction fs generalizing h with
  | nil =>
    refine ends_pure ⟨h.reaps, h.freed, ?_⟩
    rw [List.map_nil, List.append_nil, List.append_nil]
  | cons f fs ih =>
    refine ends_step (ends_modify (ends_step (ends_modify (ends_step (ends_modify ?_)))))
    refine ih.mono (Nat.le_refl 0) fun _ h' hh' => ?_
    obtain ⟨rs, ns, rfl⟩ := hh'
    refine ⟨rs, ns, ?_⟩
    rw [List.map_cons]
    simp only [List.append_assoc, List.singleton_append]

def Err1Res (h₀ h₁ : Host) (l leak : List (Nat × Desc)) (a : OpenOutput) (h' : Host) : Prop :=
  (a.1 = -1 ∧ a.2.filter = [] ∧ a.2.output = false) ∧
    (∃ ks, h'.kids = h₀.kids ++ ks ∧ h'.killed = h₀.killed ++ ks.map Kid.pid ∧
      h'.waited = h₀.waited ++ ks.map Kid.pid) ∧
    ∃ (n : Nat) (cache : List (Nat × Desc)), a.2.outputFd = n ∧ Cached h₁ h' cache ∧
      Owes h₀ ((n, ⟨.null, false⟩) :: cache ++ (leak ++ l)) h'

theorem ends_err1_owes (hnull : NullOk h₀) (hc : Cached h₀ h₁ l) {r : RunOutput}
    (hout : r.outputFd = out) (hdone : r.filter = done)
    (hu : Underway h₀ h₁.null (leak ++ l) fd out nextIn done h) :
    Ends NoErr 2 (err1 r nextIn fd) h (Err1Res h₀ h₁ l leak) := by
  obtain ⟨ks, hks, hpids⟩ := hu.kids
  obtain ⟨p, d, d', ho⟩ := hu.owes
  have hkill : ∀ k w rs ns,
      Owes h₀ ((out, d') :: (nextIn, ⟨.pipeR p, true⟩) :: (fd, d) :: (leak ++ l))
        { h with killed := k, waited := w, reaps := rs, freed := ns } := fun k w rs ns =>
    (ho.perm (((List.Perm.swap _ _ _).cons _).trans (List.Perm.swap _ _ _))).same
      ⟨rfl, rfl, rfl, rfl⟩
  refine ends_step ((ends_killFilters_all r.filter).mono (Nat.le_refl 0) ?_)
  intro _ h₂ hh₂
  obtain ⟨rs, ns, hh₂⟩ := hh₂
  rw [hout]
  refine ends_step (ends_modify (ends_step (ends_modify (ends_step (ends_modify ?_)))))
  have hs := (close_sameProcs h₂ out).trans ((close_sameProcs _ (nextIn : Int)).trans
    (close_sameProcs _ (fd : Int)))
  have hn : (((h₂.close out).close nextIn).close fd).null = h₁.null := by
    rw [close_null, close_null, close_null, hh₂]
    exact hu.null
  have ho₃ : Owes h₀ (leak ++ l) (((h₂.close out).close nextIn).close fd) := by
    rw [hh₂]
    exact (((hkill _ _ rs ns).close).close).close
  have hnull₃ := hnull.owes (hc.congr hn) ho₃ fun e he => List.mem_append_right leak he
  refine ends_bind (n := 0) ((ends_openDevnull_owes hnull₃ ho₃).mono (Nat.le_refl 2) ?_)
  intro fd' h₄ hres
  obtain ⟨hs', ⟨-, e, he⟩ | ⟨n, cache, rfl, hc', ho'⟩⟩ := hres
  · exact absurd rfl (he e)
  · refine ends_pure ⟨⟨rfl, rfl, rfl⟩, ⟨ks, ?_, ?_, ?_⟩, n, cache, rfl, ?_, ho'⟩
    · rw [hs'.kids, hs.kids, hh₂]
      exact hks
    · rw [hs'.killed, hs.killed, hh₂, hpids, ← hdone, ← hu.killed]
    · rw [hs'.waited, hs.waited, hh₂, hpids, ← hdone, ← hu.waited]
    · cases hc' with
      | same hm => exact .same (hm.trans hn)
      | new k hneg hm => exact .new k (hn ▸ hneg) hm

end Err1

/-! ### Where a call fails -/

/-- Of the calls that set up `n` filters, those that may fail: the first call of a
round, and those of the last filter. -/
def FailsClean (n k : Nat) : Prop := k ≠ 0 ∧ (k % 3 = 1 ∨ 3 * n ≤ k + 2)

section Setup

variable {env : Env} {c : ConfOutput} {h h₁ h' : Host} {r r₁ : RunOutput} {fd : Int}
  {l : List (Nat × Desc)} {a : OpenOutput} {o pre post : List Answer} {e : Errno}

theorem Clean.obj_of_new (hclean : Clean h a h') {k : Nat} {d : Desc} (hget : h'.fds.get k = some d)
    (hnew : h.fds.get k = none) : d.obj = .null := by
  obtain ⟨n, cache, -, hc, ho⟩ := hclean.fds
  rcases (ho.fds.get_iff k d).mp hget with hmem | hold
  · rcases List.mem_cons.mp hmem with heq | hmem
    · exact congrArg (fun x => x.2.obj) heq
    · cases hc with
      | same => cases hmem
      | new _ _ _ => exact congrArg (fun x => x.2.obj) (List.mem_singleton.mp hmem)
  · rw [hnew] at hold
    cases hold

theorem Clean.get_output (hclean : Clean h a h') {k : Nat} (hk : a.2.outputFd = k) :
    h'.fds.get k = some ⟨.null, false⟩ := by
  obtain ⟨n, cache, hn, -, ho⟩ := hclean.fds
  obtain rfl : n = k := Int.ofNat_inj.mp (hn.symm.trans hk)
  exact ho.get

theorem underway_start {n : Nat} {d : Desc} (hs : SameProcs h h₁) (ho : Owes h ((n, d) :: l) h₁) :
    Underway h h₁.null l n (h₁.fds.put h₁.fds.free ⟨.pipeR h₁.pipes, true⟩).free h₁.fds.free []
      h₁.pipe := by
  have hpipe := ho.pipe.perm ((List.Perm.swap _ _ _).trans ((List.Perm.swap _ _ _).cons _))
  refine ⟨⟨h₁.pipes, d, _, hpipe⟩, ⟨[], ?_, rfl⟩, hs.killed, hs.waited, rfl⟩
  rw [List.append_nil]
  exact hs.kids

theorem setupFilters_run (env : Env) (fd : Int) (hpre : ∀ w ∈ pre, NoErr w)
    (hlen : pre.length = 3 * c.filter.length) :
    ∃ a h', setupFilters env c fd r h (pre ++ o) = .done a h' o ∧ a.1 = 0 := by
  rw [setupFilters]
  match pre, hpre, hlen with
  | [], _, hlen =>
    rw [if_pos (List.isEmpty_iff.mpr (List.length_eq_zero_iff.mp (by simpa using hlen.symm)))]
    exact ⟨_, _, rfl, rfl⟩
  | w :: pre, hpre, hlen =>
    rw [List.length_cons] at hlen
    have hne : ¬c.filter.isEmpty = true := by
      intro hnil
      rw [List.isEmpty_iff.mp hnil] at hlen
      cases hlen
    obtain ⟨done, h', hrun⟩ := spawnFilters_run env (o := o) fd c.filter pre h.fds.free []
      h.pipe (fun v hv => hpre v (List.mem_cons_of_mem w hv)) hlen
    rw [if_neg hne, List.cons_append, bind_of_done (pipe2_run (hpre w List.mem_cons_self))]
    exact ⟨_, h', bind_of_done hrun, rfl⟩

theorem setupFilters_run_err (env : Env) {n : Nat} {d : Desc} {w : Answer} (hnull : NullOk h)
    (hs : SameProcs h h₁) (hc : Cached h h₁ l) (ho : Owes h ((n, d) :: l) h₁)
    (hpre : ∀ v ∈ w :: pre, NoErr v) (hk : pre.length + 1 < 3 * c.filter.length)
    (hpost : ∀ w ∈ post, NoErr w) (hlen : 2 ≤ post.length) :
    (setupFilters env c n r h₁ (w :: pre ++ .err e :: post)).After (fun a h' =>
      ∃ leak, Leaks c.filter.length pre.length leak ∧ Err1Res h h₁ l leak a h') := by
  have hne : ¬c.filter.isEmpty = true := by
    intro hnil
    rw [List.isEmpty_iff.mp hnil] at hk
    exact absurd hk (Nat.not_lt_zero _)
  obtain ⟨done, nextIn, leak, h', hloop, hu, hleak⟩ := spawnFilters_run_err env (e := e)
    (o := post) c.filter pre _ _ _ (fun v hv => hpre v (List.mem_cons_of_mem w hv)) hk
    (underway_start hs ho)
  have hend := (ends_err1_owes (r := { r with
    outputFd := (h₁.fds.put h₁.fds.free ⟨.pipeR h₁.pipes, true⟩).free, filter := done })
    hnull hc rfl rfl hu).after hpost hlen
  rw [setupFilters, if_neg hne, List.cons_append,
    bind_of_done (pipe2_run (hpre w List.mem_cons_self))]
  refine Eq.subst (motive := fun res => Res.After _ res) (bind_of_done hloop).symm ?_
  exact hend.mono fun a h'' _ _ hres => ⟨leak, hleak, hres⟩

theorem clean_iff_of_fails {n : Nat} {d : Desc} (hnull : NullOk h) (hs : SameProcs h h₁)
    (hc : Cached h h₁ l) (ho : Owes h ((n, d) :: l) h₁) (hr : r.outputFd = n)
    (hpre : ∀ w ∈ pre, NoErr w) (hpost : ∀ w ∈ post, NoErr w) (hlen : 2 ≤ post.length)
    (hk : pre.length < 3 * c.filter.length) :
    (setupFilters env c n r h₁ (pre ++ .err e :: post)).After (Clean h) ↔
      FailsClean c.filter.length pre.length := by
  cases pre with
  | nil =>
    -- the first pipe: `r->output_fd` is closed
    have hne : ¬c.filter.isEmpty = true := by
      intro hnil
      rw [List.isEmpty_iff.mp hnil] at hk
      exact absurd hk (Nat.not_lt_zero _)
    obtain ⟨h', hfirst, hi⟩ := setupFilters_run_first env (h := h₁) (e := e) (o := post) hne n r
    refine iff_of_false (fun hafter => ?_) fun hf => hf.1 rfl
    rw [List.nil_append, hfirst] at hafter
    have hget := (Res.after_done.mp hafter).get_output hr
    rw [Host.close_of_get (ho.same hi.toSameFds).get] at hget
    dsimp only at hget
    rw [Table.get_remove, if_pos rfl] at hget
    cases hget
  | cons w pre =>
    rw [List.length_cons] at hk
    have hafter := setupFilters_run_err env (e := e) (r := r) hnull hs hc ho hpre hk hpost hlen
    obtain ⟨a, h', rest, hres, leak, hleak, ⟨hret, hfilter, houtput⟩, hkids, m, cache, hout, hc',
      ho'⟩ := hafter.exists
    have hiff : FailsClean c.filter.length (w :: pre).length ↔
        (pre.length % 3 = 0 ∨ 3 * c.filter.length ≤ pre.length + 3) := by
      rw [FailsClean, List.length_cons]
      omega
    rw [hres, Res.after_done, hiff]
    by_cases hgood : pre.length % 3 = 0 ∨ 3 * c.filter.length ≤ pre.length + 3
    · rw [Leaks, if_pos hgood] at hleak
      rw [hleak] at ho'
      exact iff_of_true ⟨hret, hfilter, houtput, hkids, m, cache ++ l, hout, hc.trans hc', ho'⟩ hgood
    · rw [Leaks, if_neg hgood] at hleak
      obtain ⟨i, p, x, rfl⟩ := hleak
      have hmem : (i, (⟨.pipeW p, true⟩ : Desc)) ∈
          (m, ⟨.null, false⟩) :: cache ++ ((i, ⟨.pipeW p, true⟩) :: x ++ l) :=
        List.mem_append_right _ (List.mem_append_left _ List.mem_cons_self)
      refine iff_of_false (fun hclean => ?_) hgood
      cases hclean.obj_of_new (ho'.fds.get_of_mem hmem) (ho'.fds.fresh _ hmem)

/-- **Where the failure of a call is clean.**  The first calls that set up the
filters succeed, and the next one fails; `/dev/null` can be opened. -/
theorem openOutput_clean_iff (hnull : NullOk h)
    (hsink : openSink env c r h o = .done (some (fd, r₁)) h₁ (pre ++ .err e :: post))
    (hpre : ∀ w ∈ pre, NoErr w) (hpost : ∀ w ∈ post, NoErr w) (hlen : 2 ≤ post.length) :
    (3 * c.filter.length ≤ pre.length → (openOutput env c r h o).After fun a _ => a.1 = 0) ∧
    (pre.length < 3 * c.filter.length →
      ((openOutput env c r h o).After (Clean h) ↔ FailsClean c.filter.length pre.length)) := by
  obtain ⟨hs, n, d, cache, rfl, hc, ho⟩ :=
    (leads_openSink hnull r).of_done (fun _ _ => trivial) hsink
  have hrun : openOutput env c r h o = setupFilters env c n
      { r₁ with filter := [], outputFd := n, output := false } h₁ (pre ++ .err e :: post) :=
    bind_of_done hsink
  rw [hrun]
  refine ⟨fun hk => ?_, clean_iff_of_fails hnull hs hc ho rfl hpre hpost hlen⟩
  obtain ⟨a, h', hok, hret⟩ := setupFilters_run env n (h := h₁)
    (r := { r₁ with filter := [], outputFd := n, output := false })
    (o := pre.drop (3 * c.filter.length) ++ .err e :: post)
    (fun w hw => hpre w (List.mem_of_mem_take hw)) (List.length_take_of_le hk)
  rw [← List.append_assoc, List.take_append_drop] at hok
  rw [hok]
  exact .done hret

end Setup

/-- The first of two filters cannot be forked, for a stream without a file. -/
theorem openOutput_clean_iff_fork :
    let c : ConfOutput := { exist := .append, filter := [lit "a", lit "b"] }
    (openOutput (Env.plain 1 none) c {} (Host.std [])
      ([.ok, .ok] ++ ([.ok, .ok, .ok] ++ .err .eagain :: [.ok, .ok]))).After (Clean (Host.std [])) ↔
      FailsClean 2 3 := by
  intro c
  have hiff := @openOutput_clean_iff (Env.plain 1 none) c (Host.std []) _ {} _ _
    ([.ok, .ok] ++ ([.ok, .ok, .ok] ++ .err .eagain :: [.ok, .ok])) [.ok, .ok, .ok] [.ok, .ok] .eagain
    (Or.inl (by decide)) rfl (by simp [NoErr]) (by simp [NoErr]) (Nat.le_refl 2)
  exact hiff.2 (by decide)

/-- A filter without a pipe, and the first of two filters without a process. -/
theorem not_clean_failures :
    let env := Env.plain 1 none
    let c (cmds : List Str) : ConfOutput :=
      { output := some (lit "/x"), exist := .append, filter := cmds }
    ¬(openOutput env (c [lit "a"]) {} (Host.std [])
      [.ok, .ok, .err .other, .ok, .ok]).After (Clean (Host.std [])) ∧
    ¬(openOutput env (c [lit "a", lit "b"]) {} (Host.std [])
      [.ok, .ok, .ok, .ok, .ok, .err .eagain, .ok, .ok]).After (Clean (Host.std [])) := by
  intro env c
  constructor
  · have hrun : (openOutput env (c [lit "a"]) {} (Host.std [])
        [.ok, .ok, .err .other, .ok, .ok]).After
        (fun a h' => a.2.outputFd = ((3 : Nat) : Int) ∧ h'.fds.get 3 = none) := by
      decide +kernel
    obtain ⟨a, h', rest, hres, hfd, hget⟩ := hrun.exists
    rw [hres, Res.after_done]
    intro hclean
    rw [hclean.get_output hfd] at hget
    cases hget
  · have hrun : (openOutput env (c [lit "a", lit "b"]) {} (Host.std [])
        [.ok, .ok, .ok, .ok, .ok, .err .eagain, .ok, .ok]).After
        (fun _ h' => h'.fds.get 7 = some ⟨.pipeW 1, true⟩) := by
      decide +kernel
    obtain ⟨a, h', rest, hres, hget⟩ := hrun.exists
    rw [hres, Res.after_done]
    intro hclean
    cases hclean.obj_of_new hget rfl

end Crashinfo
