import Crashinfo.Lib.Race
import Crashinfo.Output.Termination

/-!
# Several instances at once

Processes that crash at the same time have an instance of the program each, and all
that the instances have in common is the file system.  So `open_output` is cut here
where it calls the system (`Pause`), and the instances take turns in any order, a
call at a time (`Goes`).

An instance that opens its output with `O_EXCL` is a runner of a race for names
(`Mirrors`), which its directories are noise in.
-/

namespace Crashinfo

open Script Script.Run

/-- Where the loop of `open_output` is between two calls of the system. -/
inductive Pause where
  /-- in front of `open` -/
  | opening (v : OpenVars)
  /-- in `make_path`, with the directories that it has still to create -/
  | making (v : OpenVars) (cur : Cursor) (ds : List Str)
  /-- in front of the `open` of `/dev/null` -/
  | keeping (cur : Cursor)
  /-- behind the loop -/
  | through (f : Option (Nat × Str))
  deriving DecidableEq

def Pause.of : OpenRes → Pause
  | .inl v => .opening v
  | .inr f => .through f

def keepNull (env : Env) (cur : Cursor) : HostRun OpenRes := do
  match ← openNull true with
  | .ok fd => return .inr (some (fd, cur.result))
  | .error e =>
    logmsg .crit (lit "Can't open /dev/null: " ++ env.strerror e)
    return .inr none

def pauseFailed (env : Env) (c : ConfOutput) (v : OpenVars) (cur : Cursor) (e : Errno) :
    HostRun Pause := do
  if e = .eexist ∧ c.exist = .keep then
    keepNotice env
    return .keeping cur
  else if e = .eexist ∧ c.exist = .sequence then return .of (← nextName c v cur)
  else if e = .enoent ∧ v.mkdir then return .making v cur (dirsOf cur.result)
  else
    logmsg .crit (lit "Can't open '" ++ cstr cur.path.cells ++ lit "': " ++ env.strerror e)
    return .through none

def pauseOpen (env : Env) (c : ConfOutput) (v : OpenVars) (cur : Cursor) : HostRun Pause := do
  match ← openFile cur.result c.exist.excl with
  | .ok fd => return .through (some (fd, cur.result))
  | .error e => pauseFailed env c v cur e

/-- Up to the next pause; there is one call of the system on the way. -/
def Pause.go (env : Env) (c : ConfOutput) (template : Str) : Pause → HostRun Pause
  | .opening v => do
    match v.cursor with
    | some cur => pauseOpen env c v cur
    | none =>
      match ← expandPath env c template v with
      | some cur => pauseOpen env c v cur
      | none => return .through none
  | .making v cur [] => return .opening { v with mkdir := false, cursor := some cur }
  | .making v cur (d :: ds) => do
    match ← mkdir d with
    | .ok _ => return .making v cur ds
    | .error e =>
      if e = .eexist then return .making v cur ds
      else
        logmsg .crit (lit "Can't create directory '" ++ d ++ lit "': " ++ env.strerror e)
        return .through none
  | .keeping cur => return .of (← keepNull env cur)
  | .through f => return .through f

def Pause.rest (env : Env) : Pause → HostRun OpenRes
  | .opening v => return .inl v
  | .making v cur ds => do
    if ← makePath env ds then return .inl { v with mkdir := false, cursor := some cur }
    else return .inr none
  | .keeping cur => keepNull env cur
  | .through f => return .inr f

section Cut

variable {env : Env} {c : ConfOutput} {template : Str} {v : OpenVars} {cur : Cursor}

theorem rest_of (r : OpenRes) : (Pause.of r).rest env = pure r := by
  cases r <;> rfl

theorem attempt_eq : attempt env c v cur = (do (← pauseOpen env c v cur).rest env) := by
  rw [attempt, pauseOpen, bind_assoc]
  refine bind_congr fun r => ?_
  cases r with
  | ok fd => rfl
  | error e =>
    show openFailed env c v cur e = (do (← pauseFailed env c v cur e).rest env)
    rw [openFailed, pauseFailed]
    split
    · rw [bind_assoc]
      rfl
    split
    · simp only [bind_assoc, pure_bind, rest_of, bind_pure]
    split
    · rfl
    · rw [bind_assoc]
      rfl

/-- **A turn of the loop is what happens between its pauses**, one after the other. -/
theorem openTurn_eq : openTurn env c template v =
    (do (← Pause.go env c template (.opening v)).rest env) := by
  rw [openTurn, Pause.go]
  cases v.cursor with
  | some cur => exact attempt_eq
  | none =>
    rw [bind_assoc]
    refine bind_congr fun r => ?_
    cases r with
    | some cur => exact attempt_eq
    | none => rfl

theorem rest_eq {p : Pause} (hp : ∀ v, p ≠ .opening v) :
    p.rest env = (do (← p.go env c template).rest env) := by
  cases p with
  | opening v => exact absurd rfl (hp v)
  | making v cur ds =>
    cases ds with
    | nil => rfl
    | cons d ds =>
      rw [Pause.rest, Pause.go, makePath, bind_assoc, bind_assoc]
      refine bind_congr fun r => ?_
      cases r with
      | ok u => rfl
      | error e =>
        dsimp only
        split
        · rfl
        · rw [bind_assoc, bind_assoc]
          rfl
  | keeping cur =>
    show keepNull env cur = _
    rw [Pause.go, bind_assoc]
    simp only [pure_bind, rest_of, bind_pure]
  | through f => rfl

end Cut

/-! ### An instance -/

/-- An instance that opens an output with `O_EXCL`, and knows what it needs for the
name. -/
structure Party where
  env : Env
  c : ConfOutput
  template : Str
  slash : template.head? = some (ch '/')
  excl : c.exist.excl = true
  int : c.existsSeq ≤ intMax
  text : (env.strftime template).length < pathMax
  known : outcome env c template 0 ≠ .error .unknownExe

namespace Party

variable (p : Party)

def name (k : Nat) : Str := candidate p.env p.c p.template k

def go (q : Pause) : HostRun Pause := q.go p.env p.c p.template

abbrev Ready (v : OpenVars) : Prop := v.Ready p.env p.c p.template

def limit : Nat :=
  if p.c.exist = .keep then 1
  else if 0 < p.c.existsSeq then p.c.existsSeq.toNat else intMax.toNat + 1

def Excuse (P : Answer → Prop) : Prop :=
  (∃ k < p.limit, outcome p.env p.c p.template k = .error .tooLong) ∨ ∃ e, P (.err e)

def Next (P : Answer → Prop) (v : OpenVars) (h : Host) : Pause → Host → Prop
  | .opening v', h' => p.Ready v' ∧ v'.counter = v.counter + 1 ∧ v'.mkdir = v.mkdir ∧
      SameFiles h h' ∧ p.name v.counter ∈ h.files ∧ v.counter + 1 < p.limit
  | .making v' cur ds, h' => v' = v ∧ v.mkdir = true ∧ Expanded p.env p.c p.template v.counter cur ∧
      ds = dirsOf cur.result ∧ SameFiles h h'
  | .keeping cur, h' => p.c.exist = .keep ∧ cur.result = p.name v.counter ∧
      p.name v.counter ∈ h.files ∧ SameFiles h h'
  | .through none, h' => SameFiles h h' ∧
      (p.c.exist = .sequence ∧ p.name v.counter ∈ h.files ∧ p.limit ≤ v.counter + 1 ∨ p.Excuse P)
  | .through (some (_, name)), h' => name = p.name v.counter ∧ name ∉ h.files ∧
      h'.files = name :: h.files ∧ h'.outputs = h.outputs ++ [(name, true)]

end Party

section Go

variable {P : Answer → Prop} {p : Party} {v : OpenVars} {cur : Cursor} {h h₀ : Host}

theorem Party.exist_eq (p : Party) : p.c.exist = .keep ∨ p.c.exist = .sequence := by
  have hexcl := p.excl
  cases hexist : p.c.exist with
  | keep => exact Or.inl rfl
  | sequence => exact Or.inr rfl
  | default | append | overwrite =>
    rw [hexist] at hexcl
    cases hexcl

theorem Party.exist_ne (p : Party) : p.c.exist ≠ .default := by
  rcases p.exist_eq with hexist | hexist <;> rw [hexist] <;> decide

theorem Party.leads_nextName (hv : p.Ready v)
    (hcur : Expanded p.env p.c p.template v.counter cur) (hexist : p.c.exist = .sequence)
    (hmem : cur.result ∈ h.files) (hsame : SameFiles h₀ h) :
    Meets P (nextName p.c v cur) h (fun r h' => p.Next P v h₀ (.of r) h') fun _ _ => True := by
  rw [hcur.result, hsame.1] at hmem
  have hint := p.int
  have hlimit : p.limit = if 0 < p.c.existsSeq then p.c.existsSeq.toNat else intMax.toNat + 1 := by
    rw [Party.limit, if_neg (by rw [hexist]; decide)]
  rw [nextName]
  by_cases hover : (v.counter : Int) ≥ intMax
  · rw [if_pos hover]
    exact meets_fault trivial
  rw [if_neg hover]
  by_cases hgo : (v.counter : Int) + 1 < p.c.existsSeq ∨ p.c.existsSeq ≤ 0
  · rw [if_pos hgo]
    have hfits : intlen (v.counter + 1) ≤ seqLen p.c (v.counter + 1) := intlen_le_seqLen (by omega)
    refine meets_pure ⟨⟨hcur.length, hfits, ?_, by simp⟩, rfl, rfl, hsame, hmem, ?_⟩
    · exact known_of_ok p.slash p.text hv.fits hfits hcur.outcome
    · show v.counter + 1 < p.limit
      rw [hlimit]
      split <;> omega
  · rw [if_neg hgo]
    refine meets_bind (meets_modify (meets_pure ⟨hsame, Or.inl ⟨hexist, hmem, ?_⟩⟩))
    rw [hlimit]
    split <;> omega

theorem Party.leads_pauseFailed (hv : p.Ready v)
    (hcur : Expanded p.env p.c p.template v.counter cur) {e : Errno}
    (hwhy : e = .eexist ∧ cur.result ∈ h.files ∨ e ≠ .eexist ∧ P (.err e))
    (hsame : SameFiles h₀ h) :
    Meets P (pauseFailed p.env p.c v cur e) h (p.Next P v h₀) fun _ _ => True := by
  rw [pauseFailed]
  by_cases hkeep : e = .eexist ∧ p.c.exist = .keep
  · rw [if_pos hkeep]
    have hmem := (hwhy.resolve_right fun hno => hno.1 hkeep.1).2
    rw [hcur.result, hsame.1] at hmem
    refine meets_bind (meets_keepNotice trivial (meets_pure ?_))
    exact ⟨hkeep.2, hcur.result, hmem, hsame⟩
  rw [if_neg hkeep]
  by_cases hseq : e = .eexist ∧ p.c.exist = .sequence
  · rw [if_pos hseq]
    have hmem := (hwhy.resolve_right fun hno => hno.1 hseq.1).2
    exact (p.leads_nextName hv hcur hseq.2 hmem hsame).andThen fun r h' hr => meets_pure hr
  rw [if_neg hseq]
  have herr : e ≠ .eexist ∧ P (.err e) := by
    refine hwhy.resolve_left fun hno => ?_
    rcases p.exist_eq with hexist | hexist
    · exact hkeep ⟨hno.1, hexist⟩
    · exact hseq ⟨hno.1, hexist⟩
  by_cases hdir : e = .enoent ∧ v.mkdir
  · rw [if_pos hdir]
    exact meets_pure ⟨rfl, hdir.2, hcur, rfl, hsame⟩
  · rw [if_neg hdir]
    exact meets_bind (meets_modify (meets_pure ⟨hsame, Or.inr (Or.inr ⟨e, herr.2⟩)⟩))

theorem Party.leads_pauseOpen (hv : p.Ready v)
    (hcur : Expanded p.env p.c p.template v.counter cur) (hsame : SameFiles h₀ h) :
    Meets P (pauseOpen p.env p.c v cur) h (p.Next P v h₀) fun _ _ => True := by
  refine ((ends_openFile cur.result p.c.exist.excl).meets fun _ _ => trivial).andThen ?_
  intro r h₁ hr
  cases r with
  | ok fd =>
    obtain ⟨hnew, hfiles, hout⟩ := hr
    have hfree : cur.result ∉ h.files := fun hmem => hnew ⟨p.excl, hmem⟩
    rw [if_neg hfree] at hfiles
    rw [decide_eq_true hfree] at hout
    rw [hcur.result, hsame.1] at hfree hfiles
    rw [hcur.result, hsame.2] at hout
    refine meets_pure ?_
    rw [hcur.result]
    exact ⟨rfl, hfree, hfiles, hout⟩
  | error e =>
    obtain ⟨hs, hwhy⟩ := hr
    refine p.leads_pauseFailed hv hcur ?_ (hsame.trans hs)
    rw [hs.1]
    exact hwhy.imp_left fun hex => ⟨hex.1, hex.2.2⟩

/-- **What an instance comes to** when it is in front of `open`. -/
theorem Party.leads_opening (hv : p.Ready v) (hlt : v.counter < p.limit) :
    Meets P (p.go (.opening v)) h (p.Next P v h) fun _ _ => True := by
  rw [Party.go, Pause.go]
  cases hc : v.cursor with
  | some cur => exact p.leads_pauseOpen hv (hv.cursor cur hc) (SameFiles.refl h)
  | none =>
    refine ((ends_expandPath p.slash p.exist_ne hv.fits hv.length p.text hv.known).meets
      fun _ _ => trivial).andThen ?_
    intro r h₁ hr
    cases r with
    | none => exact meets_pure ⟨hr.2.sameFiles, Or.inr (Or.inl ⟨_, hlt, hr.1⟩)⟩
    | some cur => exact p.leads_pauseOpen hv hr.1 hr.2.sameFiles

/-- The directory is new, or it is there, or it cannot be created. -/
theorem Party.ends_making {d : Str} {ds : List Str} : Ends P 1 (p.go (.making v cur (d :: ds))) h
    fun q h' => h'.outputs = h.outputs ∧ (q = .making v cur ds ∧ h'.files = d :: h.files ∨
      h'.files = h.files ∧ (q = .making v cur ds ∨ q = .through none ∧ p.Excuse P)) := by
  refine ends_bind (k := 1 + 0) (n := 0) (ends_creating (n := 0) (fun _ => ?_) (fun e he hw => ?_)
    fun hnew => ?_)
  · exact ends_pure ⟨rfl, Or.inr ⟨rfl, Or.inl rfl⟩⟩
  · dsimp only
    rw [if_neg he]
    exact ends_step (ends_modify (ends_pure ⟨rfl, Or.inr ⟨rfl, Or.inr ⟨rfl, Or.inr ⟨e, hw⟩⟩⟩⟩))
  · have hnot : d ∉ h.files := fun hmem => hnew ⟨rfl, hmem⟩
    exact ends_pure (ends_pure ⟨rfl, Or.inl ⟨rfl, if_neg hnot⟩⟩)

theorem Party.ends_keeping : Ends P 1 (p.go (.keeping cur)) h fun q h' =>
    h'.outputs = h.outputs ∧ h'.files = h.files ∧
      (q = .through none ∨ ∃ fd, q = .through (some (fd, cur.result))) := by
  refine ends_bind (k := 1 + 0) (n := 0) (ends_bind (k := 1 + 0) (n := 0)
    (ends_syscall (n := 0) (fun e he => ?_) (ends_alloc ?_)))
  · exact ends_step (ends_modify (ends_pure (ends_pure ⟨rfl, rfl, Or.inl rfl⟩)))
  · exact ends_pure (ends_pure ⟨rfl, rfl, Or.inr ⟨_, rfl⟩⟩)

end Go

/-! ### All of them -/

structure Instances (ι : Type) where
  files : List Str
  pause : ι → Pause
  /-- what each instance has of its own; its `files` are not up to date -/
  host : ι → Host

section

variable {ι : Type} [DecidableEq ι] (P : Answer → Prop) (party : ι → Party)

def Instances.move (s : Instances ι) (i : ι) (q : Pause) (h : Host) : Instances ι where
  files := h.files
  pause := Function.update s.pause i q
  host := Function.update s.host i h

inductive Goes (s : Instances ι) (i : ι) : Instances ι → Prop
  | go {o rest : List Answer} {q : Pause} {h : Host} (ho : ∀ w ∈ o, P w)
      (hbusy : ∀ f, s.pause i ≠ .through f)
      (hrun : (party i).go (s.pause i) { s.host i with files := s.files } o = .done q h rest) :
      Goes s i (s.move i q h)

/-- What the instances come to in `m` steps, in any order. -/
inductive InstRun (s₀ : Instances ι) : Nat → Instances ι → Prop
  | start : InstRun s₀ 0 s₀
  | step {m : Nat} {s s' : Instances ι} {i : ι} (hrun : InstRun s₀ m s)
      (hgo : Goes P party s i s') : InstRun s₀ (m + 1) s'

/-- All instances are in front of their first `open`. -/
structure AtStart (s : Instances ι) : Prop where
  pause : ∀ i, s.pause i = .opening (OpenVars.start (party i).env (party i).c)
  outputs : ∀ i, (s.host i).outputs = []

def Mirror (p : Party) (outputs : List (Str × Bool)) (pos : Nat) (fate : Race.Fate) : Pause → Prop
  | .opening v => p.Ready v ∧ v.counter = pos ∧ fate = .running ∧ outputs = []
  | .making v cur ds => p.Ready v ∧ Expanded p.env p.c p.template pos cur ∧
      ds ⊆ dirsOf (p.name pos) ∧ v.counter = pos ∧ fate = .running ∧ outputs = []
  | .keeping cur => cur.result = p.name pos ∧ p.c.exist = .keep ∧ fate = .lost ∧ outputs = []
  | .through none => (fate = .lost ∨ fate = .quit ∧ p.Excuse P) ∧ outputs = []
  | .through (some (_, name)) => name = p.name pos ∧ (fate = .won ∧ outputs = [(name, true)] ∨
      fate = .lost ∧ p.c.exist = .keep ∧ outputs = [])

structure Mirrors (s : Instances ι) (t : Race.State ι Str) : Prop where
  taken : ∀ x, x ∈ t.taken ↔ x ∈ s.files
  each : ∀ i, Mirror P (party i) (s.host i).outputs (t.pos i) (t.fate i) (s.pause i)

/-- The directories above the names are created by the way. -/
def Noise (x : Str) : Prop := ∃ i k, x ∈ dirsOf ((party i).name k)

abbrev RaceStep : Race.State ι Str → Race.State ι Str → Prop :=
  Race.Step (fun i => (party i).name) (fun i => (party i).limit) (Noise party)

end

section Race

variable {ι : Type} [DecidableEq ι] {P : Answer → Prop} {party : ι → Party} {s s' : Instances ι}
  {t t' : Race.State ι Str} {i : ι} {q : Pause} {h : Host}

theorem Mirrors.move (hm : Mirrors P party s t) (htaken : ∀ x, x ∈ t'.taken ↔ x ∈ h.files)
    (hother : ∀ j, j ≠ i → t'.pos j = t.pos j ∧ t'.fate j = t.fate j)
    (hself : Mirror P (party i) h.outputs (t'.pos i) (t'.fate i) q) :
    Mirrors P party (s.move i q h) t' := by
  refine ⟨htaken, fun j => ?_⟩
  by_cases hj : j = i
  · subst hj
    simpa [Instances.move] using hself
  · obtain ⟨hpos, hfate⟩ := hother j hj
    rw [hpos, hfate]
    simpa [Instances.move, hj] using hm.each j

theorem Mirrors.stay (hm : Mirrors P party s t) (hfiles : h.files = s.files)
    (hself : Mirror P (party i) h.outputs (t.pos i) (t.fate i) q) :
    Mirrors P party (s.move i q h) t :=
  hm.move (fun x => by rw [hm.taken, hfiles]) (fun _ _ => ⟨rfl, rfl⟩) hself

/-- A runner ends, and no name is taken. -/
theorem Mirrors.end (hm : Mirrors P party s t) (hfiles : h.files = s.files) {f : Race.Fate}
    (hself : Mirror P (party i) h.outputs (t.pos i) f q) :
    Mirrors P party (s.move i q h) (t.end i f) := by
  refine hm.move (fun x => ?_) (fun j hj => ⟨rfl, Race.end_fate_ne hj⟩) ?_
  · rw [Race.end_taken, hm.taken, hfiles]
  · rwa [Race.end_pos, Race.end_fate_self]

theorem Mirrors.opening (hm : Mirrors P party s t) {v : OpenVars} (hpause : s.pause i = .opening v)
    (hnext : (party i).Next P v { s.host i with files := s.files } q h) :
    Mirrors P party (s.move i q h) t ∨
      ∃ t', RaceStep party t t' ∧ Mirrors P party (s.move i q h) t' := by
  have hself := hm.each i
  rw [hpause] at hself
  obtain ⟨hready, hpos, hrun, hout⟩ := hself
  cases q with
  | opening v' =>
    obtain ⟨hready', hcounter, -, hsame, hmem, hmore⟩ := hnext
    rw [hpos] at hcounter hmem hmore
    refine Or.inr ⟨t.next i, .skip hrun ((hm.taken _).mpr hmem) hmore, ?_⟩
    refine hm.move (fun x => ?_) (fun j hj => ⟨Race.next_pos_ne hj, rfl⟩) ?_
    · rw [Race.next_taken, hm.taken, hsame.1]
    · rw [Race.next_pos_self, Race.next_fate]
      exact ⟨hready', hcounter, hrun, hsame.2.trans hout⟩
  | making v' cur ds =>
    obtain ⟨rfl, -, hcur, rfl, hsame⟩ := hnext
    rw [hpos] at hcur
    refine Or.inl (hm.stay hsame.1 ⟨hready, hcur, ?_, hpos, hrun, hsame.2.trans hout⟩)
    rw [hcur.result]
    exact List.Subset.refl _
  | keeping cur =>
    obtain ⟨hkeep, hresult, hmem, hsame⟩ := hnext
    rw [hpos] at hresult hmem
    have hlast : (party i).limit ≤ t.pos i + 1 := by
      rw [Party.limit, if_pos hkeep]
      exact Nat.succ_le_succ (Nat.zero_le _)
    exact Or.inr ⟨_, .lose hrun ((hm.taken _).mpr hmem) hlast,
      hm.end hsame.1 ⟨hresult, hkeep, rfl, hsame.2.trans hout⟩⟩
  | through f =>
    cases f with
    | none =>
      obtain ⟨hsame, ⟨-, hmem, hlast⟩ | hexcuse⟩ := hnext
      · rw [hpos] at hmem hlast
        exact Or.inr ⟨_, .lose hrun ((hm.taken _).mpr hmem) hlast,
          hm.end hsame.1 ⟨Or.inl rfl, hsame.2.trans hout⟩⟩
      · exact Or.inr ⟨_, .quit hrun,
          hm.end hsame.1 ⟨Or.inr ⟨rfl, hexcuse⟩, hsame.2.trans hout⟩⟩
    | some f =>
      obtain ⟨hname, hfree, hfiles, hnew⟩ := hnext
      rw [hpos] at hname
      rw [hname] at hfree hfiles hnew
      refine Or.inr ⟨_, .win hrun fun hmem => hfree ((hm.taken _).mp hmem), ?_⟩
      refine hm.move (fun x => ?_) (fun j hj => ⟨rfl, Race.end_fate_ne hj⟩) ?_
      · rw [Race.end_taken, Race.mem_take, hm.taken, hfiles, List.mem_cons]
      · rw [Race.end_fate_self]
        refine ⟨hname, Or.inl ⟨rfl, ?_⟩⟩
        rw [hnew, hname]
        exact congrArg (· ++ _) hout

theorem Mirrors.making (hm : Mirrors P party s t) {v : OpenVars} {cur : Cursor} {ds : List Str}
    (hpause : s.pause i = .making v cur ds) {o rest : List Answer} (ho : ∀ w ∈ o, P w)
    (hrun : (party i).go (.making v cur ds) { s.host i with files := s.files } o = .done q h rest) :
    Mirrors P party (s.move i q h) t ∨
      ∃ t', RaceStep party t t' ∧ Mirrors P party (s.move i q h) t' := by
  have hself := hm.each i
  rw [hpause] at hself
  obtain ⟨hready, hcur, hds, hpos, hfate, hout⟩ := hself
  cases ds with
  | nil =>
    cases hrun
    refine Or.inl (hm.stay rfl ⟨⟨hready.length, hready.fits, hready.known, ?_⟩, hpos, hfate, hout⟩)
    intro cur' hc
    rw [← Option.some.inj hc]
    exact hpos ▸ hcur
  | cons d ds =>
    have hdir : d ∈ dirsOf ((party i).name (t.pos i)) := hds List.mem_cons_self
    have hds' : ds ⊆ dirsOf ((party i).name (t.pos i)) := fun x hx => hds (List.mem_cons_of_mem d hx)
    have hmaking : Mirror P (party i) (s.host i).outputs (t.pos i) (t.fate i) (.making v cur ds) :=
      ⟨hready, hcur, hds', hpos, hfate, hout⟩
    obtain ⟨hout', ⟨rfl, hfiles⟩ | ⟨hfiles, rfl | ⟨rfl, hexcuse⟩⟩⟩ := (party i).ends_making.of_done ho hrun
    · refine Or.inr ⟨t.take d, .fill ⟨i, _, hdir⟩, ?_⟩
      refine hm.move (fun x => ?_) (fun j _ => ⟨rfl, rfl⟩) ?_
      · rw [Race.mem_take, hm.taken, hfiles, List.mem_cons]
      · rw [hout']
        exact hmaking
    · refine Or.inl (hm.stay hfiles ?_)
      rw [hout']
      exact hmaking
    · exact Or.inr ⟨_, .quit hfate, hm.end hfiles ⟨Or.inr ⟨rfl, hexcuse⟩, hout'.trans hout⟩⟩

theorem Mirrors.keeping (hm : Mirrors P party s t) {cur : Cursor}
    (hpause : s.pause i = .keeping cur) {o rest : List Answer} (ho : ∀ w ∈ o, P w)
    (hrun : (party i).go (.keeping cur) { s.host i with files := s.files } o = .done q h rest) :
    Mirrors P party (s.move i q h) t := by
  have hself := hm.each i
  rw [hpause] at hself
  obtain ⟨hresult, hkeep, hfate, hout⟩ := hself
  obtain ⟨hout', hfiles, hover⟩ := (party i).ends_keeping.of_done ho hrun
  refine hm.stay hfiles ?_
  rw [hout']
  rcases hover with rfl | ⟨fd, rfl⟩
  · exact ⟨Or.inl hfate, hout⟩
  · exact ⟨hresult, Or.inr ⟨hfate, hkeep, hout⟩⟩

/-- **The instances run a race**: what one of them does is a step of the race, or
nothing. -/
theorem Mirrors.step (hm : Mirrors P party s t) (hlt : ∀ i, t.pos i < (party i).limit)
    (hgo : Goes P party s i s') :
    Mirrors P party s' t ∨ ∃ t', RaceStep party t t' ∧ Mirrors P party s' t' := by
  obtain ⟨ho, hbusy, hrun⟩ := hgo
  cases hpause : s.pause i with
  | opening v =>
    have hself := hm.each i
    rw [hpause] at hrun hself
    obtain ⟨hready, hpos, -⟩ := hself
    have hlimit : v.counter < (party i).limit := hpos ▸ hlt i
    exact hm.opening hpause (((party i).leads_opening hready hlimit).of_done ho hrun)
  | making v cur ds =>
    rw [hpause] at hrun
    exact hm.making hpause ho hrun
  | keeping cur =>
    rw [hpause] at hrun
    exact Or.inl (hm.keeping hpause ho hrun)
  | through f => exact absurd hpause (hbusy f)

end Race

end Crashinfo
