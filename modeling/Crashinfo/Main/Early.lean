import Crashinfo.Main.Options
import Crashinfo.Main.Standard

/-!
# Giving up early

`main` may return before it has copied anything: an option is not accepted, or an
output cannot be opened.  The exit status only tells what was logged, so each way
to such a `return` has to pass a warning or worse (`Marked`).  Once there is one
the exit status is not zero, whatever else happens.
-/

namespace Crashinfo

open Script Script.Run

def Marked (h : Host) : Prop := ∃ m ∈ h.log, Message.Bad m

theorem exitcode_ne_zero {h : Host} (hm : Marked h) : exitcode h.log ≠ 0 := by
  intro hzero
  obtain ⟨m, hmem, hbad⟩ := hm
  exact (exitcode_eq_zero h.log).mp hzero m hmem hbad

theorem Marked.later {h h' : Host} (hm : Marked h) (hlater : Later h h') : Marked h' := by
  obtain ⟨m, hmem, hbad⟩ := hm
  exact ⟨m, hlater.log.subset hmem, hbad⟩

theorem procInv_marked : ProcInv Marked fun _ => True where
  aside := fun _ _ hm haside => hm.later haside.toLater
  alloc := fun _ _ hm => ⟨hm, trivial⟩
  close := fun h fd hm _ => by
    rw [Host.close]
    split
    · exact hm
    · exact hm
  neg := fun _ _ => trivial
  later := fun _ _ hm hlater => hm.later hlater

theorem marked_log {h : Host} {prio : Prio} (text : Str) (hprio : prio.code ≠ 0) :
    Marked { h with log := h.log ++ [(prio, text)] } :=
  ⟨(prio, text), List.mem_append_right _ (List.mem_singleton_self _), hprio⟩

theorem code_crit : Prio.crit.code ≠ 0 := by decide

theorem code_err : Prio.err.code ≠ 0 := by decide

section Calls

variable {env : Env} {c : ConfOutput} {h : Host}

theorem leads_marked {α : Type} {m : HostRun α} {R : α → Prop}
    (hm : Always (fun _ => True) Marked m R) (h' : Marked h) : Leads m h fun _ h' => Marked h' :=
  hm.keeps h'

/-! ### The options -/

theorem leads_runLine (s : ConfState) (line : Str) :
    Leads (runLine s line) h fun r h' => r.1 ≠ 0 → Marked h' := by
  refine meets_bind (meets_ask (fun w _ => ?_) trivial)
  split
  · exact meets_fault trivial
  · rename_i r hr
    refine meets_bind (meets_modify (meets_pure fun hret => ?_))
    obtain ⟨m, hm, hbad⟩ := parseLine_tells hr hret
    exact ⟨m, List.mem_append_right _ hm, hbad⟩

theorem leads_parseFile (path : Str) (content : List Byte) (s : ConfState) :
    Leads (parseFile env path content s) h fun r h' => r = none → Marked h' := by
  refine meets_bind (leads_syscall (fun e => ?_) (meets_alloc ?_))
  · exact meets_bind (meets_modify (meets_pure fun _ => marked_log _ code_crit))
  refine (leads_any (fileLoop s 1 _) _).andThen fun r h₁ _ => ?_
  cases r with
  | error linenum =>
    refine meets_bind (meets_modify (meets_bind (meets_modify (meets_pure fun _ => ?_))))
    exact procInv_marked.close _ _ (marked_log _ code_crit) trivial
  | ok s => exact meets_bind (meets_modify (meets_pure nofun))

theorem leads_optPid (arg : Str) (pid : Int) :
    Leads (optPid arg pid) h fun r h' => r = none → Marked h' := by
  have hrest : ∀ h : Host, Leads (do
      let r := strtol 10 arg
      if r.2 ≠ [] ∨ toInt r.1 ≤ 0 then
        logmsg .crit (lit "Invalid PID specified on the command line: " ++ arg)
        return none
      else return some (toInt r.1)) h fun r h' => r = none → Marked h' := by
    intro h
    dsimp only
    split
    · exact meets_bind (meets_modify (meets_pure fun _ => marked_log _ code_crit))
    · exact meets_pure nofun
  rw [optPid]
  split
  · exact meets_bind (meets_modify (hrest _))
  · exact hrest h

/-- An exit status, that of an unknown option or the one of the messages. -/
def IsStatus (status : Nat) (h : Host) : Prop := status = 0x1f ∨ status = exitcode h.log

theorem leads_returnExitcode :
    Leads returnExitcode h fun status h' => h' = h ∧ status = exitcode h.log :=
  meets_bind (meets_get (meets_pure ⟨rfl, rfl⟩))

/-- **Every option that is not accepted has its exit status.** -/
theorem leads_getopt {opts : List Opt} (hopts : Opt.h ∉ opts) (s : Settings) :
    Leads (getopt env s opts) h fun r h' =>
      ∀ status, r = .error status → status ≠ 0 ∧ IsStatus status h' := by
  have hreturn : ∀ {h : Host}, Marked h →
      Leads (do return .error (← returnExitcode)) h fun (r : Except Nat Settings) h' =>
        ∀ status, r = .error status → status ≠ 0 ∧ IsStatus status h' := by
    intro h hm
    refine leads_returnExitcode.andThen fun code h' hcode => meets_pure fun status heq => ?_
    obtain ⟨rfl, rfl⟩ := hcode
    rw [← Except.error.inj heq]
    exact ⟨exitcode_ne_zero hm, Or.inr rfl⟩
  induction opts generalizing s h with
  | nil => exact meets_pure nofun
  | cons opt opts ih =>
    rw [List.mem_cons, not_or] at hopts
    cases opt with
    | c path content =>
      refine (leads_parseFile path content s.state).andThen fun r h₁ hr => ?_
      cases r with
      | none => exact hreturn (hr rfl)
      | some state => exact ih hopts.2 _
    | o line =>
      refine (leads_runLine s.state line).andThen fun r h₁ hr => ?_
      dsimp only
      split
      · rename_i hret
        exact hreturn (hr hret)
      · exact ih hopts.2 _
    | P arg =>
      refine (leads_optPid arg s.pid).andThen fun r h₁ hr => ?_
      cases r with
      | none => exact hreturn (hr rfl)
      | some pid => exact ih hopts.2 _
    | h => exact absurd rfl hopts.1
    | unknown =>
      refine meets_pure fun status heq => ?_
      rw [← Except.error.inj heq]
      exact ⟨by decide, Or.inl rfl⟩

/-! ### Opening an output -/

theorem leads_logFails {α : Type} {a : α} {Q : α → Host → Prop} {prio : Prio} (text : Str)
    (hprio : prio.code ≠ 0) (hQ : ∀ h', Marked h' → Q a h') :
    Leads (do logmsg prio text; return a) h Q :=
  meets_bind (meets_modify (meets_pure (hQ _ (marked_log text hprio))))

theorem leads_makePath_marked (ds : List Str) :
    Leads (makePath env ds) h fun b h' => b = false → Marked h' := by
  induction ds generalizing h with
  | nil => exact meets_pure nofun
  | cons d ds ih =>
    refine (leads_any (mkdir d) h).andThen fun r h₁ _ => ?_
    cases r with
    | ok u => exact ih
    | error e =>
      dsimp only
      split
      · exact ih
      · exact leads_logFails _ code_crit fun _ hm _ => hm

/-- What a turn of the loop comes to, if that is nothing. -/
def TurnTells (r : OpenRes) (h : Host) : Prop := Sum.elim (fun _ => True) (fun o => o = none → Marked h) r

theorem leads_openFailed_tells (v : OpenVars) (cur : Cursor) (e : Errno) :
    Leads (openFailed env c v cur e) h TurnTells := by
  rw [openFailed]
  split
  · refine (leads_any (keepNotice env) h).andThen fun _ h₁ _ => ?_
    refine (leads_any (openNull true) h₁).andThen fun r h₂ _ => ?_
    cases r with
    | ok fd => exact meets_pure fun hn => absurd hn (Option.some_ne_none _)
    | error e => exact leads_logFails _ code_crit fun _ hm _ => hm
  split
  · rw [nextName]
    split
    · exact meets_fault trivial
    split
    · exact meets_pure trivial
    · exact leads_logFails _ code_crit fun _ hm _ => hm
  split
  · refine (leads_makePath_marked (dirsOf cur.result)).andThen fun b h₁ hb => ?_
    cases b with
    | true => exact meets_pure trivial
    | false => exact meets_pure fun _ => hb rfl
  · exact leads_logFails _ code_crit fun _ hm _ => hm

theorem leads_attempt_tells (v : OpenVars) (cur : Cursor) :
    Leads (attempt env c v cur) h TurnTells := by
  refine (leads_any (openFile _ _) h).andThen fun r h₁ _ => ?_
  cases r with
  | ok fd => exact meets_pure nofun
  | error e => exact leads_openFailed_tells v cur e

theorem leads_expandPath_tells {template : Str} (v : OpenVars) :
    Leads (expandPath env c template v) h fun o h' => o = none → Marked h' := by
  rw [expandPath]
  split
  · exact meets_fault trivial
  split
  · exact meets_fault trivial
  · refine (leads_any (logNotes _) h).andThen fun _ h₁ _ => ?_
    exact leads_logFails _ code_crit fun _ hm _ => hm
  · refine (leads_any (logNotes _) h).andThen fun _ h₁ _ => ?_
    split
    · exact meets_fault trivial
    · exact meets_pure fun hn => absurd hn (Option.some_ne_none _)

theorem leads_openTurn_tells {template : Str} (v : OpenVars) :
    Leads (openTurn env c template v) h TurnTells := by
  rw [openTurn]
  split
  · exact leads_attempt_tells v _
  · refine (leads_expandPath_tells v).andThen fun o h₁ ho => ?_
    cases o with
    | some cur => exact leads_attempt_tells v cur
    | none => exact meets_pure fun _ => ho rfl

/-- Up to `opened` there is a descriptor, or something was said. -/
theorem leads_openSink_tells (r : RunOutput) :
    Leads (openSink env c r) h fun s h' =>
      (s = none → Marked h') ∧ ∀ x, s = some x → 0 ≤ x.1 := by
  have hnone : ∀ x : Int × RunOutput, none = some x → 0 ≤ x.1 :=
    fun x hx => absurd hx.symm (Option.some_ne_none x)
  have hsome : ∀ (x : Int × RunOutput) {p : Prop}, some x = none → p :=
    fun x _ hx => absurd hx (Option.some_ne_none x)
  rw [openSink]
  split
  · refine (leads_any openDevnull h).andThen fun fd h₁ _ => ?_
    split
    · exact leads_logFails _ code_crit fun _ hm => ⟨fun _ => hm, hnone⟩
    · rename_i hfd
      exact meets_pure ⟨hsome _, fun x hx => Option.some.inj hx ▸ Int.not_lt.mp hfd⟩
  split
  · rename_i template _ _
    have hloop : Leads (forever (openTurn env c template) (OpenVars.start env c)) h
        fun o h' => o = none → Marked h' := by
      refine meets_forever (fun _ _ => True) (fun _ _ _ => trivial) (fun v h₁ _ => ?_) trivial
      refine (leads_openTurn_tells v).imp fun r h' hr => ?_
      cases r with
      | inl v' => trivial
      | inr o => exact hr
    refine hloop.andThen fun o h₁ ho => ?_
    cases o with
    | none => exact meets_pure ⟨fun _ => ho rfl, hnone⟩
    | some f =>
      refine (leads_any (strdup f.2) h₁).andThen fun name h₂ _ => ?_
      exact meets_pure ⟨hsome _, fun x hx => Option.some.inj hx ▸ Int.natCast_nonneg f.1⟩
  · exact leads_logFails _ code_crit fun _ hm => ⟨fun _ => hm, hnone⟩

theorem leads_spawnFilter_tells (cmd : Str) (infd outfd : Int) :
    Leads (spawnFilter env cmd infd outfd) h fun pid h' => pid = none → Marked h' := by
  refine (leads_any (syscall .malloc newNode) h).andThen fun r h₁ _ => ?_
  cases r with
  | error e => exact leads_logFails _ code_err fun _ hm _ => hm
  | ok u =>
    have hspawn : Leads (spawnProc env cmd infd outfd none none) h₁
        fun pid h' => pid = none → Marked h' := by
      refine (leads_any (fork cmd infd outfd none none) h₁).andThen fun r h₂ _ => ?_
      cases r with
      | error e => exact leads_logFails _ code_crit fun _ hm _ => hm
      | ok pid => exact meets_pure nofun
    refine hspawn.andThen fun pid h₂ hpid => ?_
    cases pid with
    | none => exact meets_bind (meets_modify (meets_pure fun _ => hpid rfl))
    | some pid => exact meets_bind (meets_modify (meets_pure nofun))

theorem leads_spawnFilters_tells (nextOut : Int) (fs : List Str) (nextIn : Int)
    (done : List RunFilter) :
    Leads (spawnFilters env nextOut fs nextIn done) h fun r h' => ∀ x, r = .error x → Marked h' := by
  induction fs generalizing nextIn done h with
  | nil => exact meets_pure nofun
  | cons f fs ih =>
    have hends : ∀ more, Leads (filterEnds env nextIn nextOut more) h
        fun o h' => o = none → Marked h' := by
      intro more
      cases more with
      | false => exact meets_pure nofun
      | true =>
        refine (leads_any pipe2 h).andThen fun p h₁ _ => ?_
        cases p with
        | error e => exact leads_logFails _ code_err fun _ hm _ => hm
        | ok p => exact meets_pure nofun
    refine (hends _).andThen fun o h₁ ho => ?_
    cases o with
    | none => exact meets_pure fun _ _ => ho rfl
    | some ends =>
      refine (leads_spawnFilter_tells f _ _).andThen fun pid h₂ hpid => ?_
      cases pid with
      | none => exact meets_pure fun _ _ => hpid rfl
      | some pid => exact meets_bind (meets_modify (meets_bind (meets_modify (ih _ _))))

theorem leads_err1_marked {r : RunOutput} {nextIn nextOut : Int} (hm : Marked h) :
    Leads (err1 r nextIn nextOut) h fun _ h' => Marked h' :=
  leads_marked (always_err1 procInv_marked trivial trivial trivial trivial) hm

/-- **An output without a descriptor was told of.** -/
theorem leads_openOutput_tells (r : RunOutput) :
    Leads (openOutput env c r) h fun a h' => a.2.outputFd < 0 → Marked h' := by
  refine (leads_openSink_tells r).andThen fun s h₁ hs => ?_
  cases s with
  | none =>
    have herr := leads_marked (always_err0 procInv_marked.toHostInv trivial r) (hs.1 rfl)
    exact herr.imp fun _ _ hm _ => hm
  | some s =>
    have hfd : 0 ≤ s.1 := hs.2 s rfl
    dsimp only
    rw [setupFilters]
    split
    · exact meets_pure fun hneg => absurd hneg (Int.not_lt.mpr hfd)
    refine (leads_any pipe2 h₁).andThen fun p h₂ _ => ?_
    cases p with
    | error e =>
      refine meets_bind (meets_modify (meets_bind (meets_modify (meets_pure fun _ => ?_))))
      exact procInv_marked.close _ _ (marked_log _ code_err) trivial
    | ok p =>
      refine (leads_spawnFilters_tells s.1 c.filter p.1 []).andThen fun q h₃ hq => ?_
      cases q with
      | ok fs => exact meets_pure fun hneg => absurd hneg (Int.not_lt.mpr p.2.cast_nonneg)
      | error x =>
        exact (leads_err1_marked (hq x rfl)).imp fun _ _ hm _ => hm

theorem leads_openOutputs_tells {env' : Env} (conf : Conf) :
    Leads (openOutputs env env' conf) h fun a h' => ∀ o, a = .error o → Marked h' := by
  refine (leads_openOutput_tells {}).andThen fun info h₁ hinfo => ?_
  split
  · rename_i hneg
    exact meets_pure fun _ _ => hinfo hneg
  refine (leads_any (fdopen _) h₁).andThen fun u h₂ _ => ?_
  cases u with
  | error e => exact leads_logFails _ code_crit fun _ hm _ _ => hm
  | ok u =>
    refine (leads_openOutput_tells {}).andThen fun core h₃ hcore => ?_
    dsimp only
    split
    · rename_i hneg
      exact meets_pure fun _ _ => hcore hneg
    · exact meets_pure nofun

end Calls

/-! ### The whole run -/

section Main

variable {env env' : Env} {w : World} {dir : ProcDir}

theorem leads_closeOutput_marked (env : Env) (c : ConfOutput) (r : RunOutput) {h : Host}
    (hm : Marked h) :
    Leads (closeOutput env c r) h fun _ h' => Marked h' :=
  leads_marked (always_closeOutput procInv_marked trivial c trivial) hm

theorem leads_saveOr_tells (libunwind : Bool) (pipe : InfoPipe) :
    Leads (saveOr env env' libunwind pipe) w fun b w' => b = false → Marked w'.host := by
  have hopen : Leads (openStreams env env') w fun a w' => ∀ o, a = .error o → Marked w'.host := by
    refine (leads_any (onTee readPid) w).andThen fun pid w₁ _ => ?_
    refine (leads_any (onTee readPid) w₁).andThen fun pid' w₂ _ => ?_
    exact meets_bind (meets_get (leads_onHost (leads_openOutputs_tells _)))
  refine hopen.andThen fun a w₁ ha => meets_bind (meets_get ?_)
  match a, ha with
  | .error none, ha => exact meets_pure fun _ => ha none rfl
  | .error (some info), ha =>
    have hclose := leads_closeOutput_marked env w₁.conf.info info (ha _ rfl)
    refine (leads_onHost hclose).andThen fun _ w₂ hm => meets_pure fun _ => hm
  | .ok (info, core), _ =>
    refine (leads_any startInfo w₁).andThen fun _ w₂ _ => ?_
    refine (leads_any (copyCore libunwind) w₂).andThen fun _ w₃ _ => ?_
    refine (leads_any (joinThread env pipe) w₃).andThen fun _ w₄ _ => ?_
    refine (leads_any (onHost _) w₄).andThen fun _ w₅ _ => ?_
    refine (leads_any (onHost _) w₅).andThen fun _ w₆ _ => ?_
    exact (leads_any (onHost _) w₆).andThen fun _ w₇ _ => meets_pure nofun

theorem leads_body_tells (libunwind : Bool) :
    Leads (body env env' libunwind dir) w fun b w' => b = false → Marked w'.host := by
  refine meets_bind (meets_get ?_)
  refine (leads_any (onHost (openCore env w.conf.corePath)) w).andThen fun _ w₁ _ => ?_
  refine (leads_any (startDumping env) w₁).andThen fun pipe w₂ _ => ?_
  refine (leads_any (readProc env dir) w₂).andThen fun _ w₃ _ => ?_
  exact leads_saveOr_tells libunwind pipe

theorem leads_program (libunwind : Bool) {opts : List Opt} (hopts : Opt.h ∉ opts) :
    Leads (program env env' libunwind opts dir) w fun r w' =>
      (r.copied = false → r.status ≠ 0) ∧ IsStatus r.status w'.host := by
  refine (leads_any (onHost (disableCoreGeneration env)) w).andThen fun _ w₁ _ => ?_
  refine (leads_any (onHost openlog) w₁).andThen fun _ w₂ _ => meets_bind (meets_get ?_)
  refine (leads_onHost (leads_getopt hopts _)).andThen fun r w₃ hr => ?_
  cases r with
  | error status => exact meets_pure ⟨fun _ => (hr status rfl).1, (hr status rfl).2⟩
  | ok s =>
    refine meets_bind (meets_modify ((leads_body_tells libunwind).andThen fun copied w₄ hcopied => ?_))
    refine (leads_onHost leads_returnExitcode).andThen fun status w₅ hstatus => meets_pure ?_
    obtain ⟨hhost, rfl⟩ := hstatus
    rw [← hhost] at hcopied ⊢
    exact ⟨fun hearly => exitcode_ne_zero (hcopied hearly), Or.inr rfl⟩

/-- **A run that gives up early does not report success**, unless it was asked for
help.  What it reports is what `logmsg` makes of the messages, whatever the
thresholds were at each of them, or that an option is unknown. -/
theorem program_early {libunwind : Bool} {opts : List Opt} {o o' : List Answer} {r : Outcome}
    {w' : World} (hopts : Opt.h ∉ opts)
    (hrun : program env env' libunwind opts dir w o = .done r w' o') (hearly : r.copied = false) :
    r.status ≠ 0 ∧ (r.status = 0x1f ∨ ∀ l : List ((ConfLog × Bool) × Message),
      l.map Prod.snd = w'.host.log → r.status = (logAll l).exitcode) := by
  obtain ⟨hstatus, hcode⟩ := (leads_program libunwind hopts).of_done (fun _ _ => trivial) hrun
  refine ⟨hstatus hearly, hcode.imp_right fun hcode l hl => ?_⟩
  rw [exitcode_logAll, hl, hcode]

theorem program_early_pid :
    let env := Env.plain 42 none
    let w := World.start (Host.std []).fds [] [7] {} (-1)
    let o := List.replicate 12 Answer.ok
    ∃ r w' o', program env env true [.P (lit "x")] { exe := [] } w o = .done r w' o' ∧
      r.copied = false ∧ r.status ≠ 0 ∧ (r.status = 0x1f ∨
        ∀ l : List ((ConfLog × Bool) × Message), l.map Prod.snd = w'.host.log →
          r.status = (logAll l).exitcode) := by
  intro env w o
  have hafter : (program env env true [.P (lit "x")] { exe := [] } w o).After
      fun r _ => r.copied = false := by
    decide
  obtain ⟨r, w', o', hrun, hearly⟩ := hafter.exists
  exact ⟨r, w', o', hrun, hearly, program_early (by decide) hrun hearly⟩

end Main

end Crashinfo
