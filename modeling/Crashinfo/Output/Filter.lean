import Crashinfo.Output.Loop
import Crashinfo.Output.Sink

/-!
# How the filters are wired

Every filter reads from a pipe that only the filter in front of it writes to,
and the first one reads what the program writes (`Wired`).  The filters hold
what `fork` has left them, and that never changes again (`Fitted`); the program
itself holds what it owes (`Owes`).  Both lists are followed through the loop of
`spawnFilters`, which opens a pipe ahead of the filter that will read from it.
What was wired for one output stays so when the other one is opened
(`Wired.extends`).
-/

namespace Crashinfo

open Script Script.Run

def Host.obj (h : Host) (who : Option Nat) (fd : Nat) : Option Obj := (h.desc who fd).map Desc.obj

def Host.Numbered (h : Host) : Prop := ∀ who fd q, h.obj who fd = some (.pipeW q) → q < h.pipes

/-- From the pipe `base` on, only `fork` hands on what is to be written to. -/
structure PipesOk (base : Nat) (h : Host) : Prop where
  le : base ≤ h.pipes
  numbered : h.Numbered
  cloexec : ∀ fd d q, base ≤ q → h.fds.get fd = some d → d.obj = .pipeW q → d.cloexec = true

def stdoutObj (cmds : List Str) (sink : Obj) (pipe i : Nat) : Obj :=
  if i + 1 < cmds.length then .pipeW (pipe + i + 1) else sink

/-- The filters `cmds` stand between the output `r` and `sink`; their pipes are
numbered from `pipe` on and their processes from `kid` on. -/
structure Wired (cmds : List Str) (sink : Obj) (pipe kid : Nat) (r : RunOutput) (h : Host) :
    Prop where
  filter : r.filter = cmds.mapIdx fun i cmd => ⟨cmd, kid + i + 1⟩
  started : ∀ i (hi : i < cmds.length), (h.kids[kid + i]?).map (fun k => (k.cmd, k.pid))
    = some (cmds[i], kid + i + 1)
  stdin : ∀ i < cmds.length, h.obj (some (kid + i)) 0 = some (.pipeR (pipe + i))
  stdout : ∀ i < cmds.length, h.obj (some (kid + i)) 1 = some (stdoutObj cmds sink pipe i)
  output : (h.at r.outputFd).map Desc.obj = some (if cmds = [] then sink else .pipeW pipe)
  writer : ∀ i < cmds.length, ∀ who fd, h.obj who fd = some (.pipeW (pipe + i)) →
    (who, fd) = if i = 0 then (none, r.outputFd.toNat) else (some (kid + i - 1), 1)

/-! ### What the filters hold -/

structure Fitted (base : Nat) (h₀ : Host) (cmds : List Str) (sink : Obj) (i : Nat) (h : Host) : Prop where
  kids : ∃ ks, h.kids = h₀.kids ++ ks ∧ ks.length = i
  started : ∀ j (hj : j < cmds.length), j < i →
    (h.kids[h₀.kids.length + j]?).map (fun k => (k.cmd, k.pid))
      = some (cmds[j], h₀.kids.length + j + 1)
  stdin : ∀ j < i, h.obj (some (h₀.kids.length + j)) 0 = some (.pipeR (h₀.pipes + j))
  stdout : ∀ j < i, h.obj (some (h₀.kids.length + j)) 1
    = some (stdoutObj cmds sink h₀.pipes j)
  writer : ∀ j fd q, base ≤ q → h.obj (some j) fd = some (.pipeW q) →
    h₀.obj (some j) fd = some (.pipeW q) ∨
    ∃ n < i, n + 1 < cmds.length ∧ j = h₀.kids.length + n ∧ fd = 1 ∧ q = h₀.pipes + n + 1

variable {base : Nat} {h₀ h h' : Host} {cmds : List Str} {sink : Obj} {i : Nat}

theorem pipesOk_start (hnum : h.Numbered) : PipesOk h.pipes h where
  le := Nat.le_refl _
  numbered := hnum
  cloexec := fun fd d q hq hd hdq => by
    have := hnum none fd q (Option.map_eq_some_iff.mpr ⟨d, hd, hdq⟩)
    omega

theorem obj_kid_congr (hk : h'.kids = h.kids) (j fd : Nat) :
    h'.obj (some j) fd = h.obj (some j) fd := by
  rw [Host.obj, Host.obj, Host.desc, Host.desc, hk]

theorem Fitted.congr (hf : Fitted base h₀ cmds sink i h) (hk : h'.kids = h.kids) :
    Fitted base h₀ cmds sink i h' where
  kids := hk ▸ hf.kids
  started := hk ▸ hf.started
  stdin := fun j hj => (obj_kid_congr hk _ _).trans (hf.stdin j hj)
  stdout := fun j hj => (obj_kid_congr hk _ _).trans (hf.stdout j hj)
  writer := fun j fd q hb hq => hf.writer j fd q hb ((obj_kid_congr hk _ _).symm.trans hq)

theorem fitted_start (hk : h.kids = h₀.kids) : Fitted base h₀ cmds sink 0 h where
  kids := ⟨[], by rw [hk, List.append_nil], rfl⟩
  started := fun j _ hj => absurd hj (Nat.not_lt_zero j)
  stdin := fun j hj => absurd hj (Nat.not_lt_zero j)
  stdout := fun j hj => absurd hj (Nat.not_lt_zero j)
  writer := fun j fd q _ hq => Or.inl ((obj_kid_congr hk _ _).symm.trans hq)

/-- Another child changes nothing for those there are. -/
theorem obj_spawn_of_lt {cmd : Str} {infd outfd : Int} {arg1 arg2 : Option Str} {j : Nat}
    (hj : j < h.kids.length) (fd : Nat) :
    (h.spawn cmd infd outfd arg1 arg2).obj (some j) fd = h.obj (some j) fd := by
  rw [Host.obj, Host.obj, Host.desc, Host.desc, Host.spawn, List.getElem?_append_left hj]

theorem obj_spawn_self {cmd : Str} {infd outfd : Int} {arg1 arg2 : Option Str} (fd : Nat) :
    (h.spawn cmd infd outfd arg1 arg2).obj (some h.kids.length) fd
      = ((childFds h.fds infd outfd).get fd).map Desc.obj := by
  rw [Host.obj, Host.desc, Host.spawn, List.getElem?_concat_length]
  rfl

theorem Fitted.spawn (hf : Fitted base h₀ cmds sink i h) (hsink : ∀ q, sink ≠ .pipeW q)
    (hclo : ∀ fd d q, base ≤ q → h.fds.get fd = some d → d.obj = .pipeW q → d.cloexec = true)
    (hi : i < cmds.length) {infd outfd : Nat} {dout : Desc} (hin : 1 < infd) (hout : 1 < outfd)
    (hdin : h.fds.get infd = some ⟨.pipeR (h₀.pipes + i), true⟩)
    (hdout : h.fds.get outfd = some dout) (hobj : dout.obj = stdoutObj cmds sink h₀.pipes i) :
    Fitted base h₀ cmds sink (i + 1) (h.spawn cmds[i] infd outfd none none) := by
  obtain ⟨ks, hks, hlen⟩ := hf.kids
  have hnum : h.kids.length = h₀.kids.length + i := by rw [hks, List.length_append, hlen]
  have hnew : ∀ fd, (h.spawn cmds[i] infd outfd none none).obj (some (h₀.kids.length + i)) fd =
      if fd = 0 then some (.pipeR (h₀.pipes + i))
      else if fd = 1 then some (stdoutObj cmds sink h₀.pipes i)
      else ((h.fds.get fd).filter fun d => !d.cloexec).map Desc.obj := by
    intro fd
    rw [← hnum, obj_spawn_self, childFds_get hin hout hdin hdout]
    split
    · rfl
    split
    · rw [← hobj]
      rfl
    · rfl
  refine ⟨?_, ?_, ?_, ?_, ?_⟩
  · refine ⟨ks ++ [⟨cmds[i], none, none, h.kids.length + 1, childFds h.fds infd outfd⟩], ?_, ?_⟩
    · rw [← List.append_assoc, ← hks]
      rfl
    · rw [List.length_append, hlen]
      rfl
  · intro j hj hlt
    rcases Nat.lt_or_eq_of_le (Nat.le_of_lt_succ hlt) with hlt | rfl
    · rw [Host.spawn, List.getElem?_append_left (by omega)]
      exact hf.started j hj hlt
    · rw [Host.spawn, ← hnum, List.getElem?_concat_length]
      rfl
  · intro j hj
    rcases Nat.lt_or_eq_of_le (Nat.le_of_lt_succ hj) with hlt | rfl
    · rw [obj_spawn_of_lt (by omega)]
      exact hf.stdin j hlt
    · exact hnew 0
  · intro j hj
    rcases Nat.lt_or_eq_of_le (Nat.le_of_lt_succ hj) with hlt | rfl
    · rw [obj_spawn_of_lt (by omega)]
      exact hf.stdout j hlt
    · exact hnew 1
  · intro j fd q hb hq
    rcases Nat.lt_trichotomy j h.kids.length with hlt | he | hgt
    · rw [obj_spawn_of_lt hlt] at hq
      rcases hf.writer j fd q hb hq with hold | ⟨n, hn, hrest⟩
      · exact Or.inl hold
      · exact Or.inr ⟨n, by omega, hrest⟩
    · -- the new child writes to nothing but its output
      rw [hnum] at he
      rw [he, hnew] at hq
      by_cases h0 : fd = 0
      · rw [if_pos h0] at hq
        cases hq
      rw [if_neg h0] at hq
      by_cases h1 : fd = 1
      · rw [if_pos h1, stdoutObj] at hq
        by_cases hmore : i + 1 < cmds.length
        · rw [if_pos hmore] at hq
          cases hq
          exact Or.inr ⟨i, Nat.lt_succ_self i, hmore, he, h1, rfl⟩
        · rw [if_neg hmore] at hq
          exact absurd (Option.some.inj hq) (hsink q)
      · rw [if_neg h1] at hq
        obtain ⟨d, hd, hdq⟩ := Option.map_eq_some_iff.mp hq
        obtain ⟨hd, hopen⟩ := Option.filter_eq_some_iff.mp hd
        rw [hclo fd d q hb hd hdq] at hopen
        cases hopen
    · have hnone : (h.spawn cmds[i] infd outfd none none).kids[j]? = none := by
        rw [Host.spawn]
        exact List.getElem?_eq_none (by rw [List.length_append, List.length_singleton]; omega)
      rw [Host.obj, Host.desc, hnone] at hq
      cases hq

/-! ### The loop over the filters -/

/-- What was opened meanwhile is no standard descriptor. -/
theorem Owes.three_le {l : List (Nat × Desc)} (ho : Owes h₀ l h) (hstd : StdOpen h₀)
    {e : Nat × Desc} (he : e ∈ l) : 3 ≤ e.1 := by
  by_contra hlt
  exact hstd e.1 (by omega) (ho.fds.fresh e he)

/-- What is owed is closed by `exec`, and so are the pipes there were. -/
theorem Owes.cloexec {l : List (Nat × Desc)} (ho : Owes h₀ l h) (hok : PipesOk base h₀)
    (hl : ∀ e ∈ l, e.2.cloexec = true) (fd : Nat) (d : Desc) (q : Nat) (hb : base ≤ q)
    (hd : h.fds.get fd = some d) (hq : d.obj = .pipeW q) : d.cloexec = true := by
  rcases (ho.fds.get_iff fd d).mp hd with hmem | hold
  · exact hl (fd, d) hmem
  · exact hok.cloexec fd d q hb hold hq

theorem ends_spawnFilter_noErr {env : Env} {cmd : Str} {infd outfd : Int}
    {Q : Option Nat → Host → Prop}
    (hQ : Q (some (h.kids.length + 1)) (h.filter cmd infd outfd)) :
    Ends NoErr 2 (spawnFilter env cmd infd outfd) h Q := by
  refine ends_bind (k := 1 + 0) (n := 1 + 0) (ends_syscall (n := 0) (fun e he => ?_) (ends_modify ?_))
  · exact absurd rfl (he e)
  · refine ends_bind (n := 0) (ends_bind (n := 0) (ends_fork (fun e he => ?_) (ends_pure ?_)))
    · exact absurd rfl (he e)
    · exact ends_step (ends_modify (ends_pure hQ))

theorem ends_filterEnds_last {P : Answer → Prop} {env : Env} {nextIn nextOut : Int} {n : Nat}
    {Q : Option (Int × Int × Int) → Host → Prop} (hQ : Q (some (nextIn, nextOut, nextIn)) h) :
    Ends P n (filterEnds env nextIn nextOut false) h Q :=
  ends_pure hQ

theorem ends_filterEnds_more {env : Env} {nextIn nextOut : Int}
    {Q : Option (Int × Int × Int) → Host → Prop}
    (hQ : Q (some (nextIn, (h.fds.put h.fds.free ⟨.pipeR h.pipes, true⟩).free, h.fds.free)) h.pipe) :
    Ends NoErr 1 (filterEnds env nextIn nextOut true) h Q :=
  ends_bind (n := 0) (ends_pipe2 (fun e he => absurd rfl (he e)) (ends_pure hQ))

theorem filter_sameFds (h : Host) (cmd : Str) (infd outfd : Int) :
    SameFds h (h.filter cmd infd outfd) :=
  ⟨rfl, rfl, rfl, rfl⟩

/-- In front of a round: the filter with the number `i` will read from `nextIn`. -/
structure Ahead (base : Nat) (h₀ : Host) (cmds : List Str) (name : Str) (fd out nextIn i : Nat)
    (h : Host) : Prop where
  owes : Owes h₀ [(nextIn, ⟨.pipeR (h₀.pipes + i), true⟩), (fd, ⟨.file name, true⟩),
    (out, ⟨.pipeW h₀.pipes, true⟩)] h
  pipes : h.pipes = h₀.pipes + i + 1
  fitted : Fitted base h₀ cmds (.file name) i h

/-- Behind the last round: `out` is all the program has kept. -/
structure Piped (base : Nat) (h₀ : Host) (cmds : List Str) (name : Str) (out : Nat) (h : Host) :
    Prop where
  owes : Owes h₀ [(out, ⟨if cmds = [] then .file name else .pipeW h₀.pipes, true⟩)] h
  pipes : h.pipes = h₀.pipes + cmds.length
  fitted : Fitted base h₀ cmds (.file name) cmds.length h

theorem Ahead.kids_length {name : Str} {fd out nextIn : Nat}
    (hr : Ahead base h₀ cmds name fd out nextIn i h) : h.kids.length = h₀.kids.length + i := by
  obtain ⟨ks, hks, hlen⟩ := hr.fitted.kids
  rw [hks, List.length_append, hlen]

/-- **The last filter** writes to the sink. -/
theorem Ahead.last {name : Str} {fd out nextIn : Nat} (hok : PipesOk base h₀) (hstd : StdOpen h₀)
    (hr : Ahead base h₀ cmds name fd out nextIn i h) (hi : i < cmds.length)
    (hlast : ¬i + 1 < cmds.length) :
    Piped base h₀ cmds name out (((h.filter cmds[i] nextIn fd).close nextIn).close fd) := by
  have hsink : ∀ q, Obj.file name ≠ .pipeW q := fun q => nofun
  have hlen : i + 1 = cmds.length := by omega
  have hne : cmds ≠ [] := List.ne_nil_of_length_pos (by omega)
  have hin := hr.owes.three_le hstd List.mem_cons_self
  have hout := hr.owes.three_le hstd (List.mem_cons_of_mem _ List.mem_cons_self)
  have hfd : h.fds.get fd = some ⟨.file name, true⟩ :=
    hr.owes.fds.get_of_mem (List.mem_cons_of_mem _ List.mem_cons_self)
  have hfit := hr.fitted.spawn hsink
    (hr.owes.cloexec hok (by simp)) hi (by omega) (by omega) hr.owes.get hfd
    (by rw [stdoutObj, if_neg hlast])
  have howes := ((hr.owes.same (filter_sameFds h cmds[i] nextIn fd)).close).close
  refine ⟨by rw [if_neg hne]; exact howes, ?_, ?_⟩
  · rw [(close_sameProcs _ _).pipes, (close_sameProcs _ _).pipes]
    show h.pipes = _
    rw [hr.pipes]
    omega
  · rw [← hlen]
    refine hfit.congr ?_
    rw [(close_sameProcs _ _).kids, (close_sameProcs _ _).kids]
    rfl

/-- **Another filter**: the next one will read what it writes. -/
theorem Ahead.more {name : Str} {fd out nextIn : Nat} (hok : PipesOk base h₀) (hstd : StdOpen h₀)
    (hr : Ahead base h₀ cmds name fd out nextIn i h) (hi : i < cmds.length)
    (hmore : i + 1 < cmds.length) {w : Nat}
    (hw : (h.fds.put h.fds.free ⟨.pipeR h.pipes, true⟩).free = w) :
    Ahead base h₀ cmds name fd out h.fds.free (i + 1)
      (((h.pipe.filter cmds[i] nextIn w).close nextIn).close w) := by
  have hsink : ∀ q, Obj.file name ≠ .pipeW q := fun q => nofun
  have hin := hr.owes.three_le hstd List.mem_cons_self
  have hpipe := hr.owes.pipe
  rw [hw] at hpipe
  generalize h.fds.free = r at hpipe ⊢
  rw [hr.pipes] at hpipe
  have howes := hpipe.perm ((List.Perm.swap _ _ _).cons _ |>.trans (List.Perm.swap _ _ _))
  have hwout := howes.three_le hstd (List.mem_cons_of_mem _ List.mem_cons_self)
  have hwd := howes.fds.get_of_mem (List.mem_cons_of_mem _ List.mem_cons_self)
  have hfit₀ : Fitted base h₀ cmds (.file name) i h.pipe := hr.fitted.congr rfl
  have hfit := hfit₀.spawn hsink (howes.cloexec hok (by simp)) hi (by omega) (by omega) howes.get
    hwd (by rw [stdoutObj, if_pos hmore])
  have hclosed := ((howes.same (filter_sameFds h.pipe cmds[i] nextIn w)).close).close
  refine ⟨hclosed, ?_, ?_⟩
  · rw [(close_sameProcs _ _).pipes, (close_sameProcs _ _).pipes]
    show h.pipes + 1 = _
    rw [hr.pipes]
    omega
  · refine hfit.congr ?_
    rw [(close_sameProcs _ _).kids, (close_sameProcs _ _).kids]
    rfl

theorem ends_spawnFilters_wired {env : Env} {name : Str} {fd out : Nat} (hok : PipesOk base h₀)
    (hstd : StdOpen h₀) : ∀ (fs : List Str) (i nextIn : Nat) (h : Host),
    cmds.drop i = fs → fs ≠ [] → Ahead base h₀ cmds name fd out nextIn i h →
    Ends NoErr (3 * fs.length)
      (spawnFilters env fd fs nextIn
        ((cmds.take i).mapIdx fun j cmd => ⟨cmd, h₀.kids.length + j + 1⟩)) h
      (fun r h' => r = .ok (cmds.mapIdx fun j cmd => ⟨cmd, h₀.kids.length + j + 1⟩) ∧
        Piped base h₀ cmds name out h') := by
  intro fs
  induction fs with
  | nil => exact fun _ _ _ _ hne _ => absurd rfl hne
  | cons f fs ih =>
    intro i nextIn h hdrop _ hr
    have hi : i < cmds.length := by
      by_contra hge
      rw [List.drop_eq_nil_of_le (by omega)] at hdrop
      cases hdrop
    obtain ⟨rfl, hfs⟩ : cmds[i] = f ∧ cmds.drop (i + 1) = fs := by
      rw [List.drop_eq_getElem_cons hi] at hdrop
      exact List.cons.inj hdrop
    have hdone : (cmds.take i).mapIdx (fun j cmd => (⟨cmd, h₀.kids.length + j + 1⟩ : RunFilter)) ++
        [⟨cmds[i], h.kids.length + 1⟩] =
        (cmds.take (i + 1)).mapIdx (fun j cmd => ⟨cmd, h₀.kids.length + j + 1⟩) := by
      rw [List.take_succ_eq_append_getElem hi, List.mapIdx_concat, List.length_take,
        Nat.min_eq_left (Nat.le_of_lt hi), hr.kids_length]
    rw [spawnFilters]
    refine Ends.mono (k := 1 + (2 + 3 * fs.length)) ?_ (by rw [List.length_cons]; omega)
      fun _ _ hq => hq
    cases fs with
    | nil =>
      have hlen : cmds.length ≤ i + 1 := List.drop_eq_nil_iff.mp hfs
      refine ends_bind (ends_filterEnds_last (ends_bind (ends_spawnFilter_noErr ?_)))
      refine ends_step (ends_modify (ends_step (ends_modify (ends_pure ⟨?_, ?_⟩))))
      · rw [hdone, List.take_of_length_le hlen]
      · exact hr.last hok hstd hi (by omega)
    | cons g fs =>
      have hmore : i + 1 < cmds.length := by
        by_contra hge
        rw [List.drop_eq_nil_of_le (by omega)] at hfs
        cases hfs
      refine ends_bind (ends_filterEnds_more ?_)
      have hnext := hr.more hok hstd hi hmore rfl
      refine ends_bind (ends_spawnFilter_noErr ?_)
      refine ends_step (ends_modify (ends_step (ends_modify ?_)))
      show Ends NoErr _ (spawnFilters env fd (g :: fs) h.fds.free
        (_ ++ [⟨cmds[i], h.kids.length + 1⟩])) _ _
      rw [hdone]
      exact ih (i + 1) _ _ hfs (List.cons_ne_nil g fs) hnext

/-! ### What is wired stays wired -/

/-- From `h` to `h'` nothing was taken away, and no pipe from `base` on got another
writer. -/
structure Keeps (base : Nat) (h h' : Host) : Prop where
  kids : h.kids <+: h'.kids
  fds : ∀ fd d, h.fds.get fd = some d → h'.fds.get fd = some d
  writer : ∀ who fd q, base ≤ q → q < h.pipes → h'.obj who fd = some (.pipeW q) →
    h.obj who fd = some (.pipeW q)

theorem obj_parent {fd : Nat} {o : Obj} (ho : h.obj none fd = some o) :
    ∃ d, h.fds.get fd = some d ∧ d.obj = o :=
  Option.map_eq_some_iff.mp ho

theorem Wired.keeps {pipe kid : Nat} {r : RunOutput} (hw : Wired cmds sink pipe kid r h)
    (hbase : base ≤ pipe)
    (hpipe : pipe + cmds.length ≤ h.pipes) (hk : Keeps base h h') : Wired cmds sink pipe kid r h' := by
  obtain ⟨ks, hks⟩ := hk.kids
  have hold : ∀ (j : Nat) (k : Kid), h.kids[j]? = some k → h'.kids[j]? = some k := by
    intro j k hj
    rw [← hks, List.getElem?_append_left (List.getElem?_eq_some_iff.mp hj).1, hj]
  have hobj : ∀ (j fd : Nat) (o : Obj), h.obj (some j) fd = some o → h'.obj (some j) fd = some o := by
    intro j fd o ho
    obtain ⟨d, hd, rfl⟩ := Option.map_eq_some_iff.mp ho
    obtain ⟨k, hk, hkd⟩ := Option.bind_eq_some_iff.mp hd
    rw [Host.obj, Host.desc, hold j k hk]
    exact congrArg (Option.map Desc.obj) hkd
  refine ⟨hw.filter, fun i hi => ?_, fun i hi => ?_, fun i hi => ?_, ?_, fun i hi who fd ho => ?_⟩
  · obtain ⟨k, hk, hkv⟩ := Option.map_eq_some_iff.mp (hw.started i hi)
    rw [hold _ _ hk, ← hkv]
    rfl
  · exact hobj _ _ _ (hw.stdin i hi)
  · exact hobj _ _ _ (hw.stdout i hi)
  · obtain ⟨d, hd, hdo⟩ := Option.map_eq_some_iff.mp hw.output
    rw [← hdo]
    rw [Host.at] at hd ⊢
    split at hd
    · rename_i hpos
      rw [if_pos hpos, hk.fds _ _ hd]
      rfl
    · cases hd
  · exact hw.writer i hi who fd (hk.writer who fd _ (by omega) (by omega) ho)

section Piped

variable {name : Str} {out : Nat}

/-- A new pipe is written to by the program or by a filter, and each has one. -/
theorem Piped.writer (hp : Piped base h₀ cmds name out h) {who : Option Nat} {fd q : Nat}
    (hb : base ≤ q) (ho : h.obj who fd = some (.pipeW q)) : h₀.obj who fd = some (.pipeW q) ∨
      cmds ≠ [] ∧ who = none ∧ fd = out ∧ q = h₀.pipes ∨
      ∃ n, n + 1 < cmds.length ∧ who = some (h₀.kids.length + n) ∧ fd = 1 ∧ q = h₀.pipes + n + 1 := by
  cases who with
  | none =>
    obtain ⟨d, hd, hdo⟩ := obj_parent ho
    rcases (hp.owes.fds.get_iff fd d).mp hd with hmem | hold
    · obtain ⟨rfl, rfl⟩ := Prod.mk.inj (List.mem_singleton.mp hmem)
      by_cases hne : cmds = []
      · rw [if_pos hne] at hdo
        cases hdo
      · rw [if_neg hne] at hdo
        exact Or.inr (Or.inl ⟨hne, rfl, rfl, (Obj.pipeW.inj hdo).symm⟩)
    · exact Or.inl (Option.map_eq_some_iff.mpr ⟨d, hold, hdo⟩)
  | some j =>
    rcases hp.fitted.writer j fd q hb ho with hold | ⟨n, -, hn, rfl, hrest⟩
    · exact Or.inl hold
    · exact Or.inr (Or.inr ⟨n, hn, rfl, hrest⟩)

theorem Piped.keeps (hp : Piped base h₀ cmds name out h) : Keeps base h₀ h where
  kids := by
    obtain ⟨ks, hks, -⟩ := hp.fitted.kids
    exact ⟨ks, hks.symm⟩
  fds := fun fd d hd => (hp.owes.fds.get_iff fd d).mpr (Or.inr hd)
  writer := fun who fd q hb hq ho => by
    rcases hp.writer hb ho with hold | ⟨-, -, -, rfl⟩ | ⟨n, -, -, -, rfl⟩
    · exact hold
    · omega
    · omega

theorem Piped.pipesOk (hp : Piped base h₀ cmds name out h) (hok : PipesOk base h₀) :
    PipesOk base h where
  le := by
    have := hok.le
    rw [hp.pipes]
    omega
  numbered := fun who fd q ho => by
    have hle := hok.le
    rw [hp.pipes]
    by_cases hb : q < base
    · omega
    rcases hp.writer (Nat.le_of_not_lt hb) ho with hold | ⟨hne, -, -, rfl⟩ | ⟨n, hn, -, -, rfl⟩
    · have := hok.numbered who fd q hold
      omega
    · have := List.length_pos_iff.mpr hne
      omega
    · omega
  cloexec := hp.owes.cloexec hok (by simp)

theorem Piped.wired (hp : Piped base h₀ cmds name out h) (hok : PipesOk base h₀) {r : RunOutput}
    (hout : r.outputFd = out)
    (hfilter : r.filter = cmds.mapIdx fun i cmd => ⟨cmd, h₀.kids.length + i + 1⟩) :
    Wired cmds (.file name) h₀.pipes h₀.kids.length r h where
  filter := hfilter
  started := fun i hi => hp.fitted.started i hi hi
  stdin := hp.fitted.stdin
  stdout := hp.fitted.stdout
  output := by
    rw [hout, Host.at_natCast, hp.owes.get]
    rfl
  writer := fun i hi who fd ho => by
    rw [hout, Int.toNat_natCast]
    have hle := hok.le
    rcases hp.writer (by omega) ho with hold | ⟨-, rfl, rfl, hq⟩ | ⟨n, -, rfl, rfl, hq⟩
    · have := hok.numbered who fd _ hold
      omega
    · rw [if_pos (by omega)]
    · rw [if_neg (by omega), show h₀.kids.length + i - 1 = h₀.kids.length + n by omega]

end Piped

/-! ### Opening an output -/

structure Openable (env : Env) (c : ConfOutput) (template : Str) (files : List Str) : Prop where
  output : c.output = some template
  slash : template.head? = some (ch '/')
  exist : c.exist ≠ .default
  expands : Expands env c template
  new : ¬(c.exist.excl ∧ candidate env c template 0 ∈ files)

section Open

variable {env : Env} {c : ConfOutput} {template : Str}

theorem not_noErr : ¬∃ e, NoErr (.err e) := fun ⟨e, he⟩ => he e rfl

theorem ends_openLoop_new (ho : Openable env c template h₀.files) :
    Ends NoErr ((0 + 1) * (1 + pathMax)) (forever (openTurn env c template) (OpenVars.start env c))
      h₀ (fun f h => ∃ fd : Nat, f = some (fd, candidate env c template 0) ∧ SameProcs h₀ h ∧
        Owes h₀ [(fd, ⟨.file (candidate env c template 0), true⟩)] h ∧
        Opened env c template 0 h₀ h) := by
  have hready : (OpenVars.start env c).Ready env c template :=
    ready_start (by rw [ho.expands.outcome]; exact fun hbad => nomatch hbad)
  have hloop : Ends NoErr ((0 + 1) * (1 + pathMax))
      (forever (openTurn env c template) (OpenVars.start env c)) h₀
      (fun f h => ∃ fd, f = some (fd, candidate env c template 0) ∧
        Opened env c template 0 h₀ h) := by
    refine ends_forever (fun _ v h => v = OpenVars.start env c ∧ h = h₀) (by omega) ?_ ⟨rfl, rfl⟩
    rintro m _ _ ⟨rfl, rfl⟩
    have hzero : ((0 : Nat) : Int) < intMax := by decide
    refine (ends_openTurn ho.slash ho.exist ho.expands.text hready (fun _ _ _ => hzero) ?_).mono
      (Nat.le_refl _) ?_
    · exact fun hx _ hmem => absurd ⟨by rw [hx]; rfl, hmem⟩ ho.new
    intro r h hr
    match r, hr with
    | .inl _, hr =>
      rcases hr with ⟨_, _, _, hx, _, hmem, _⟩ | ⟨_, _, _, _, herr, _⟩
      · exact absurd ⟨by rw [hx]; rfl, hmem⟩ ho.new
      · exact absurd herr not_noErr
    | .inr none, hr =>
      rcases hr with ⟨-, hbad⟩ | ⟨-, hx, hmem, -⟩ | herr
      · cases ho.expands.outcome.symm.trans hbad
      · exact absurd ⟨by rw [hx]; rfl, hmem⟩ ho.new
      · exact absurd herr not_noErr
    | .inr (some (fd, name)), ⟨_, hname, hopen⟩ =>
      rcases hopen with hopened | ⟨hx, hmem, -⟩
      · exact ⟨fd, by rw [hname]; rfl, hopened⟩
      · rw [hname] at hmem
        exact absurd ⟨by rw [hx]; rfl, hmem⟩ ho.new
  refine (hloop.and (leads_openLoop (OpenVars.start env c))).mono (Nat.le_refl _) ?_
  rintro _ h ⟨⟨fd, rfl, hopened⟩, hprocs, -, ⟨howes, -⟩ | ⟨-, hout⟩⟩
  · exact ⟨fd, rfl, hprocs, howes, hopened⟩
  · -- the outputs there are say that it is not `/dev/null`
    have := congrArg List.length (hopened.2.2.symm.trans hout)
    rw [List.length_append, List.length_singleton] at this
    omega

/-- The sink is the file with the first name, and the program holds nothing else. -/
theorem ends_openSink_new (ho : Openable env c template h₀.files) (r : RunOutput) :
    Ends NoErr (1 + pathMax + 1) (openSink env c r) h₀ (fun s h => ∃ (fd : Nat) (r' : RunOutput),
      s = some ((fd : Int), r') ∧ SameProcs h₀ h ∧
      Owes h₀ [(fd, ⟨.file (candidate env c template 0), true⟩)] h ∧
      ∀ x ∈ h.files, x ∈ h₀.files ∨ x = candidate env c template 0) := by
  rw [openSink, ho.output]
  dsimp only
  rw [if_pos ho.slash]
  refine ends_bind ((ends_openLoop_new ho).mono (by omega) ?_)
  rintro _ h ⟨fd, rfl, hprocs, howes, -, hfiles, -⟩
  refine ends_bind (k := 1) (n := 0) (ends_bind (k := 1 + 0) (n := 0) (ends_syscall (n := 0) ?_
    (ends_pure (ends_pure (ends_pure ⟨fd, _, rfl, hprocs, howes, fun x hx => ?_⟩)))))
  · exact fun e he => absurd rfl (he e)
  · rw [hfiles] at hx
    split at hx
    · exact Or.inl hx
    · exact (List.mem_cons.mp hx).symm

theorem ends_setupFilters_piped (env : Env) {name : Str} {fd : Nat} {r : RunOutput}
    (hok : PipesOk base h₀)
    (hstd : StdOpen h₀) (hprocs : SameProcs h₀ h) (howes : Owes h₀ [(fd, ⟨.file name, true⟩)] h)
    (hfd : r.outputFd = fd) (hfilter : r.filter = []) :
    Ends NoErr (1 + 3 * c.filter.length) (setupFilters env c fd r) h (fun a h' => a.1 = 0 ∧
      (a.2.filter = c.filter.mapIdx fun i cmd => ⟨cmd, h₀.kids.length + i + 1⟩) ∧
      ∃ out : Nat, a.2.outputFd = out ∧ Piped base h₀ c.filter name out h') := by
  rw [setupFilters]
  by_cases hnil : c.filter = []
  · rw [if_pos (List.isEmpty_iff.mpr hnil)]
    refine ends_pure ⟨rfl, by rw [hfilter, hnil]; rfl, fd, hfd, ?_, ?_, ?_⟩
    · rw [if_pos hnil]
      exact howes
    · rw [hprocs.pipes, hnil]
      rfl
    · rw [hnil]
      exact fitted_start hprocs.kids
  · rw [if_neg fun h => hnil (List.isEmpty_iff.mp h)]
    refine ends_bind (ends_pipe2 (fun e he => absurd rfl (he e)) ?_)
    have hpipe := howes.pipe
    generalize (h.fds.put h.fds.free ⟨.pipeR h.pipes, true⟩).free = wr at hpipe ⊢
    generalize h.fds.free = rd at hpipe ⊢
    rw [hprocs.pipes] at hpipe
    -- in front of the first filter
    have hahead : Ahead base h₀ c.filter name fd wr rd 0 h.pipe := by
      refine ⟨hpipe.perm ?_, ?_, fitted_start hprocs.kids⟩
      · exact (List.Perm.swap _ _ _).trans ((List.Perm.swap _ _ _).cons _)
      · show h.pipes + 1 = _
        rw [hprocs.pipes]
    refine ends_bind (n := 0) ((ends_spawnFilters_wired hok hstd c.filter 0 rd h.pipe
      List.drop_zero hnil hahead).mono (Nat.le_refl _) ?_)
    rintro _ h' ⟨rfl, hpiped⟩
    exact ends_pure ⟨rfl, rfl, wr, rfl, hpiped⟩

theorem ends_openOutput_piped (hok : PipesOk base h₀) (hstd : StdOpen h₀)
    (ho : Openable env c template h₀.files) (r : RunOutput) :
    Ends NoErr (pathMax + 3 + 3 * c.filter.length) (openOutput env c r) h₀ (fun a h =>
      ((a.1 = 0 ∧ a.2.filter = c.filter.mapIdx fun i cmd => ⟨cmd, h₀.kids.length + i + 1⟩) ∧
        ∃ out : Nat, a.2.outputFd = out ∧
          Piped base h₀ c.filter (candidate env c template 0) out h) ∧
      ∀ x ∈ h.files, x ∈ h₀.files ∨ x = candidate env c template 0) := by
  refine Ends.mono (k := (1 + pathMax + 1) + (1 + 3 * c.filter.length)) ?_ (by omega)
    fun _ _ hq => hq
  refine ends_bind ((ends_openSink_new ho r).mono (Nat.le_refl _) ?_)
  rintro _ h ⟨fd, r', rfl, hprocs, howes, hfiles⟩
  have hset := ends_setupFilters_piped env (c := c)
    (r := { r' with filter := [], outputFd := fd, output := false }) hok hstd hprocs howes rfl rfl
  have hsame : Leads (setupFilters env c fd
      { r' with filter := [], outputFd := fd, output := false }) h (fun _ h' => SameFiles h h') :=
    ((ends_setupFilters _ _).meets (K := fun _ _ => True) fun _ _ => trivial).imp
      fun _ _ hq => hq.1
  refine (hset.and hsame).mono (Nat.le_refl _) fun a h' hq => ?_
  obtain ⟨⟨hret, hfilter, hpiped⟩, hs⟩ := hq
  exact ⟨⟨⟨hret, hfilter⟩, hpiped⟩, fun x hx => hfiles x (hs.1 ▸ hx)⟩

end Open

/-! ### One stream and both -/

/-- A stream with its filters, whose next pipe nobody else writes to. -/
structure Stream (cmds : List Str) (name : Str) (pipe kid : Nat) (r : RunOutput) (h : Host) :
    Prop extends Wired cmds (.file name) pipe kid r h where
  closed : cmds ≠ [] → ∀ who fd, (h.close r.outputFd).obj who fd ≠ some (.pipeW pipe)

def RunOutput.kept (r : RunOutput) (cmds : List Str) (name : Str) (pipe : Nat) : Nat × Desc :=
  (r.outputFd.toNat, ⟨if cmds = [] then .file name else .pipeW pipe, true⟩)

theorem obj_of_close {fd : Int} {d : Desc} (hd : h.at fd = some d) {who : Option Nat} {k : Nat}
    {o : Obj} (ho : (h.close fd).obj who k = some o) :
    h.obj who k = some o ∧ (who, k) ≠ (none, fd.toNat) := by
  cases who with
  | some j =>
    rw [obj_kid_congr (close_sameProcs h fd).kids] at ho
    exact ⟨ho, nofun⟩
  | none =>
    obtain ⟨e, he, rfl⟩ := obj_parent ho
    rw [Host.close, hd] at he
    dsimp only at he
    rw [Table.get_remove] at he
    split at he
    · cases he
    · rename_i hne
      exact ⟨Option.map_eq_some_iff.mpr ⟨e, he, rfl⟩, fun h => hne (congrArg Prod.snd h)⟩

theorem Wired.stream {pipe kid : Nat} {name : Str} {r : RunOutput}
    (hw : Wired cmds (.file name) pipe kid r h) : Stream cmds name pipe kid r h where
  toWired := hw
  closed := fun hne who fd ho => by
    obtain ⟨d, hd, -⟩ := Option.map_eq_some_iff.mp hw.output
    obtain ⟨hobj, hself⟩ := obj_of_close hd ho
    exact hself (hw.writer 0 (List.length_pos_iff.mpr hne) who fd hobj)

theorem StdOpen.mono {l : List (Nat × Desc)} (hstd : StdOpen h) (ha : h.fds.Adds l h'.fds) :
    StdOpen h' := by
  intro fd hfd hnone
  obtain ⟨d, hd⟩ := Option.ne_none_iff_exists'.mp (hstd fd hfd)
  rw [(ha.get_iff fd d).mpr (Or.inr hd)] at hnone
  cases hnone

theorem Openable.mono {env : Env} {c : ConfOutput} {template : Str} {files files' : List Str}
    (ho : Openable env c template files) (hsub : ∀ x ∈ files', x ∈ files) :
    Openable env c template files' :=
  ⟨ho.output, ho.slash, ho.exist, ho.expands, fun hx => ho.new ⟨hx.1, hsub _ hx.2⟩⟩

structure Streams (h₀ : Host) (info core : ConfOutput) (name name' : Str) (r r' : RunOutput)
    (h : Host) : Prop where
  first : Stream info.filter name h₀.pipes h₀.kids.length r h
  second : Stream core.filter name' (h₀.pipes + info.filter.length)
    (h₀.kids.length + info.filter.length) r' h
  gained : h₀.fds.Adds [r'.kept core.filter name' (h₀.pipes + info.filter.length),
    r.kept info.filter name h₀.pipes] h.fds

theorem ends_openOutputs_piped (hnum : h₀.Numbered) (hstd : StdOpen h₀) {env env' : Env}
    {conf : Conf} {template template' : Str} (ho : Openable env conf.info template h₀.files)
    (ho' : Openable env' conf.core template' (candidate env conf.info template 0 :: h₀.files)) :
    Ends NoErr ((pathMax + 3 + 3 * conf.info.filter.length) +
        (1 + (pathMax + 3 + 3 * conf.core.filter.length))) (openOutputs env env' conf) h₀
      (fun res h => ∃ r r', res = .ok (r, r') ∧
        Streams h₀ conf.info conf.core (candidate env conf.info template 0)
          (candidate env' conf.core template' 0) r r' h) := by
  have hok := pipesOk_start hnum
  refine ends_bind ((ends_openOutput_piped hok hstd ho {}).mono (Nat.le_refl _) ?_)
  rintro ⟨ret, r⟩ h₁ ⟨⟨⟨hret, hfilter⟩, out, hout, hpiped⟩, hfiles⟩
  dsimp only at hout hfilter ⊢
  rw [if_neg (show ¬r.outputFd < 0 by omega)]
  have hat := hpiped.owes.get
  rw [← Host.at_natCast, ← hout] at hat
  refine ends_bind (k := 1 + 0) (ends_step (ends_get ?_))
  rw [hat]
  refine ends_syscall (n := 0) (fun e he => absurd rfl (he e)) (ends_pure ?_)
  -- the core is opened with the info output there
  have hok₁ := hpiped.pipesOk hok
  have ho₁ : Openable env' conf.core template' h₁.files := ho'.mono fun x hx =>
    (hfiles x hx).elim (List.mem_cons_of_mem _) fun h => h ▸ List.mem_cons_self
  refine ends_bind (n := 0) ((ends_openOutput_piped hok₁ (hstd.mono hpiped.owes.fds) ho₁ {}).mono
    (Nat.le_refl _) ?_)
  rintro ⟨ret', r'⟩ h₂ ⟨⟨⟨hret', hfilter'⟩, out', hout', hpiped'⟩, -⟩
  dsimp only at hout' hfilter' ⊢
  rw [if_neg (show ¬r'.outputFd < 0 by omega)]
  have hkids : h₁.kids.length = h₀.kids.length + conf.info.filter.length := by
    obtain ⟨ks, hks, hlen⟩ := hpiped.fitted.kids
    rw [hks, List.length_append, hlen]
  have hw := (hpiped.wired hok hout hfilter).keeps (Nat.le_refl _) (by rw [hpiped.pipes])
    hpiped'.keeps
  have hw' := hpiped'.wired hok₁ hout' hfilter'
  have hgained := hpiped.owes.fds.trans hpiped'.owes.fds
  rw [hpiped.pipes] at hw' hgained
  rw [hkids] at hw'
  refine ends_pure ⟨_, r', rfl, ?_, hw'.stream, ?_⟩
  · exact Wired.stream ⟨hw.filter, hw.started, hw.stdin, hw.stdout, hw.output, hw.writer⟩
  · rw [RunOutput.kept, RunOutput.kept, hout', hout]
    exact hgained

/-- **The wiring of the filters.**  With pipes numbered as they are opened and
the standard descriptors open, and as long as no call fails: `open_output` wires
all filters of a stream and keeps one descriptor, and with both streams opened
one after the other each is wired as if there was no other. -/
theorem openOutput_wires (hnum : h₀.Numbered) (hstd : StdOpen h₀) :
    (∀ (env : Env) (c : ConfOutput) (template : Str) (r : RunOutput),
      Openable env c template h₀.files →
      ∃ n, Ends NoErr n (openOutput env c r) h₀ (fun a h => a.1 = 0 ∧
        Stream c.filter (candidate env c template 0) h₀.pipes h₀.kids.length a.2 h ∧
        h₀.fds.Adds [a.2.kept c.filter (candidate env c template 0) h₀.pipes] h.fds)) ∧
    ∀ (env env' : Env) (conf : Conf) (template template' : Str),
      Openable env conf.info template h₀.files →
      Openable env' conf.core template' (candidate env conf.info template 0 :: h₀.files) →
      ∃ n, Ends NoErr n (openOutputs env env' conf) h₀ (fun res h => ∃ r r',
        res = .ok (r, r') ∧ Streams h₀ conf.info conf.core (candidate env conf.info template 0)
          (candidate env' conf.core template' 0) r r' h) := by
  have hok := pipesOk_start hnum
  refine ⟨fun env c template r ho => ⟨pathMax + 3 + 3 * c.filter.length, ?_⟩,
    fun env env' conf template template' ho ho' =>
      ⟨_, ends_openOutputs_piped hnum hstd ho ho'⟩⟩
  refine (ends_openOutput_piped hok hstd ho r).mono (Nat.le_refl _) ?_
  rintro a h ⟨⟨⟨hret, hfilter⟩, out, hout, hpiped⟩, -⟩
  refine ⟨hret, (hpiped.wired hok hout hfilter).stream, ?_⟩
  rw [RunOutput.kept, hout, Int.toNat_natCast]
  exact hpiped.owes.fds

theorem std_numbered (files : List Str) : (Host.std files).Numbered := by
  intro who fd q ho
  cases who with
  | some j => cases ho
  | none =>
    obtain ⟨d, hd, hdq⟩ := obj_parent ho
    match fd, hd with
    | 0, hd => cases hd; cases hdq
    | 1, hd => cases hd; cases hdq
    | 2, hd => cases hd; cases hdq
    | _ + 3, hd => cases hd

theorem std_open (files : List Str) : StdOpen (Host.std files) := by
  intro fd hfd
  match fd, hfd with
  | 0, _ => exact nofun
  | 1, _ => exact nofun
  | 2, _ => exact nofun

/-- One filter for the information, and three for the core. -/
theorem openOutput_wires_three :
    let env := Env.plain 1 none
    let conf : Conf := {
      info := { output := some (lit "/i"), exist := .append, filter := [lit "a"] }
      core := { output := some (lit "/c"), exist := .keep, filter := [lit "b", lit "c", lit "d"] } }
    ∃ n, Ends NoErr n (openOutputs env env conf) (Host.std []) (fun res h => ∃ r r',
      res = .ok (r, r') ∧ Streams (Host.std []) conf.info conf.core (lit "/i") (lit "/c") r r' h) :=
  (openOutput_wires (std_numbered []) (std_open [])).2 _ _ _ (lit "/i") (lit "/c")
    ⟨rfl, by decide, by decide, ⟨by decide, by decide⟩, by decide⟩
    ⟨rfl, by decide, by decide, ⟨by decide, by decide⟩, by decide⟩

end Crashinfo
