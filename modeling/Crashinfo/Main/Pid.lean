import Crashinfo.Conf.Literal
import Crashinfo.Main.Options
import Crashinfo.Main.Standard
import Crashinfo.Main.Exe
import Crashinfo.Unw.Prepare

/-!
# The process that `-P` names

The text goes through `strtol`, is stored in an `int` and printed into a buffer of
16 bytes, in front of a slash.  The first of these steps stops at the ends of `long`,
the second keeps the low 32 bits, and the third leaves room for nine digits; what is
lost on the way is not missed (`ownProcess_iff`).
-/

namespace Crashinfo

open Script Script.Run

def DirOf (n : Int) (path : Option Str) : Prop :=
  path = some (lit "/proc/" ++ fmtD n) ∨ path = some (lit "/proc/" ++ fmtD n ++ lit "/")

instance (n : Int) (path : Option Str) : Decidable (DirOf n path) :=
  inferInstanceAs (Decidable (_ ∨ _))

/-- The directory is not opened yet, or it is that one. -/
def NoOther (n : Int) (w : World) : Prop := w.conf.proc.path = none ∨ DirOf n w.conf.proc.path

/-- **What `-P` is for**: the text `t` is accepted just if it names a PID; where it is the
last of its kind, this is the PID; and if the options come to `conf` and leave it to the
PID which directory is read, then it is the one of that process, in every run behind the
options. -/
structure OwnProcess (t : Str) (conf : Conf) : Prop where
  literal : ∀ {pid p : Int} {h h' : Host} {o o' : List Answer},
    optPid t pid h o = .done (some p) h' o' → ∃ n, Decimal t n ∧ IsPid n ∧ p = n
  accepted : ∀ {n : Int}, Decimal t n → IsPid n → ∀ (pid : Int) (h : Host) (o : List Answer),
    ∃ h', optPid t pid h o = .done (some n) h' o
  directory : ∀ {env : Env} {front back : List Opt} {s s' : Settings} {h h' : Host}
    {o o' : List Answer}, (∀ u, Opt.P u ∉ back) →
    getopt env s (front ++ .P t :: back) h o = .done (.ok s') h' o' → s'.state.conf = conf →
    ∃ n, Decimal t n ∧ s'.pid = n ∧ (conf.proc.path = none → conf.proc.ignore = false →
      ∀ (env env' : Env) (libunwind : Bool) (dir : ProcDir) (w : World),
        Meets (fun _ => True) (body env env' libunwind dir) (w.set s')
          (fun _ w' => DirOf n w'.conf.proc.path) fun _ w' => NoOther n w')

/-- Nothing of the number `n` is lost that is missed: the number of another process is not
made of it, and if the directory is found out of it, then it has at most nine digits. -/
def PidKept (conf : Conf) (n : Int) : Prop :=
  (¬IsPid n → n < -2 ^ 63 ∨ 2 ^ 63 ≤ n ∨ n % 2 ^ 32 = 0 ∨ 2 ^ 31 ≤ n % 2 ^ 32) ∧
    (IsPid n → conf.proc.path = none → conf.proc.ignore = false → n < 10 ^ 9)

/-! ### The option -/

section Option

variable {t : Str} {n : Int}

theorem toInt_toLong_pos_iff :
    0 < toInt (toLong n) ↔ -2 ^ 63 ≤ n ∧ n < 2 ^ 63 ∧ 0 < n % 2 ^ 32 ∧ n % 2 ^ 32 < 2 ^ 31 := by
  rw [toInt, toLong, Int.bmod_def]
  split
  · omega
  · omega

theorem toInt_toLong_of_isPid (h : IsPid n) : toInt (toLong n) = n := by
  have hint : IsInt n := by
    have hmax : intMax = 2147483647 := rfl
    obtain ⟨h1, h2⟩ := h
    constructor
    · omega
    · omega
  rw [toLong_of_isInt hint, toInt_of_isInt hint]

theorem lost_iff :
    ¬0 < toInt (toLong n) ↔
      n < -2 ^ 63 ∨ 2 ^ 63 ≤ n ∨ n % 2 ^ 32 = 0 ∨ 2 ^ 31 ≤ n % 2 ^ 32 := by
  rw [toInt_toLong_pos_iff]
  omega

/-- What `-P` comes to does not depend on anything but its text. -/
theorem optPid_run (t : Str) (pid : Int) (h : Host) (o : List Answer) :
    ∃ h', optPid t pid h o =
      .done (if (strtol 10 t).2 ≠ [] ∨ toInt (strtol 10 t).1 ≤ 0 then none
        else some (toInt (strtol 10 t).1)) h' o := by
  rw [optPid]
  dsimp only
  by_cases hbad : (strtol 10 t).2 ≠ [] ∨ toInt (strtol 10 t).1 ≤ 0
  · simp only [if_pos hbad]
    split
    · exact ⟨_, rfl⟩
    · exact ⟨_, rfl⟩
  · simp only [if_neg hbad]
    split
    · exact ⟨_, rfl⟩
    · exact ⟨_, rfl⟩

theorem optPid_decimal (ht : Decimal t n) (hpos : 0 < toInt (toLong n)) (pid : Int) (h : Host)
    (o : List Answer) : ∃ h', optPid t pid h o = .done (some (toInt (toLong n))) h' o := by
  have hrun := optPid_run t pid h o
  have hok : ¬(([] : Str) ≠ [] ∨ toInt (toLong n) ≤ 0) := by
    rintro (hne | hle)
    · exact hne rfl
    · omega
  rw [strtol_decimal ht, if_neg hok] at hrun
  exact hrun

theorem of_optPid_done {pid p : Int} {h h' : Host} {o o' : List Answer}
    (hrun : optPid t pid h o = .done (some p) h' o') :
    ∃ n, Decimal t n ∧ 0 < toInt (toLong n) ∧ p = toInt (toLong n) := by
  obtain ⟨h₁, heq⟩ := optPid_run t pid h o
  rw [hrun] at heq
  split at heq
  · cases heq
  · rename_i hok
    rw [not_or, not_ne_iff, not_le] at hok
    have hne : t ≠ [] := by
      rintro rfl
      exact absurd hok.2 (by decide)
    obtain ⟨n, hn⟩ := decimal_of_strtol hne hok.1
    rw [strtol_decimal hn] at heq hok
    cases heq
    exact ⟨n, hn, hok.2, rfl⟩

end Option

/-! ### The options -/

section Options

variable {env : Env} {s s' : Settings} {h h' : Host} {o o' : List Answer}

theorem getopt_pid {opts : List Opt} (hopts : ∀ u, Opt.P u ∉ opts)
    (hrun : getopt env s opts h o = .done (.ok s') h' o') : s'.pid = s.pid := by
  induction opts generalizing s h o with
  | nil =>
    cases hrun
    rfl
  | cons opt opts ih =>
    have htail : ∀ u, Opt.P u ∉ opts := fun u hu => hopts u (List.mem_cons_of_mem _ hu)
    cases opt with
    | c path content =>
      obtain ⟨r, h₁, o₁, -, hrest⟩ := of_bind_done hrun
      cases r with
      | none => cases hrest
      | some state =>
        have hpid := ih htail hrest
        exact hpid
    | o line =>
      obtain ⟨r, h₁, o₁, -, hrest⟩ := of_bind_done hrun
      dsimp only at hrest
      split at hrest
      · cases hrest
      · have hpid := ih htail hrest
        exact hpid
    | P u => exact absurd List.mem_cons_self (hopts u)
    | h => cases hrun
    | unknown => cases hrun

theorem getopt_last {t : Str} {front back : List Opt} (hback : ∀ u, Opt.P u ∉ back)
    (hrun : getopt env s (front ++ .P t :: back) h o = .done (.ok s') h' o') :
    ∃ n, Decimal t n ∧ 0 < toInt (toLong n) ∧ s'.pid = toInt (toLong n) := by
  induction front generalizing s h o with
  | nil =>
    obtain ⟨r, h₁, o₁, hopt, hrest⟩ := of_bind_done hrun
    cases r with
    | none => cases hrest
    | some p =>
      obtain ⟨n, hn, hpos, rfl⟩ := of_optPid_done hopt
      exact ⟨n, hn, hpos, getopt_pid hback hrest⟩
  | cons opt front ih =>
    cases opt with
    | c path content =>
      obtain ⟨r, h₁, o₁, -, hrest⟩ := of_bind_done hrun
      cases r with
      | none => cases hrest
      | some state => exact ih hrest
    | o line =>
      obtain ⟨r, h₁, o₁, -, hrest⟩ := of_bind_done hrun
      dsimp only at hrest
      split at hrest
      · cases hrest
      · exact ih hrest
    | P u =>
      obtain ⟨r, h₁, o₁, -, hrest⟩ := of_bind_done hrun
      cases r with
      | none => cases hrest
      | some p => exact ih hrest
    | h => cases hrun
    | unknown => cases hrun

end Options

/-! ### The directory -/

section Directory

variable {env env' : Env} {dir : ProcDir} {n : Int} {conf : Conf} {w : World} {α : Type}

abbrev Fixed (path : Option Str) (m : MainRun α) : Prop :=
  Always (fun _ => True) (fun w => w.conf.proc.path = path) m fun _ => True

/-- The configuration is still what the options came to, and so is the PID. -/
def Known (n : Int) (conf : Conf) (w : World) : Prop := w.tee.pid = n ∧ w.conf = conf

theorem always_onHost_aside {J : World → Prop} (hJ : ∀ w h, J w → J { w with host := h })
    (m : HostRun α) : Always (fun _ => True) J (onHost m) fun _ => True :=
  fun w hw => meets_zoom ((leads_any m w.host).mono (fun _ h' _ => ⟨hJ w h' hw, trivial⟩)
    fun _ h' _ => ⟨trivial, hJ w h' hw⟩)

theorem always_onHost_known (m : HostRun α) :
    Always (fun _ => True) (Known n conf) (onHost m) fun _ => True :=
  always_onHost_aside (fun _ _ hw => hw) m

theorem fixed_onHost {path : Option Str} (m : HostRun α) : Fixed path (onHost m) :=
  always_onHost_aside (fun _ _ hw => hw) m

theorem always_onTee_known {m : TeeRun α}
    (hm : Always (fun _ => True) (fun t => t.pid = n) m fun _ => True) :
    Always (fun _ => True) (Known n conf) (onTee m) fun _ => True := by
  refine always_zoom (fun _ hw => hw) fun w hw t ht => ?_
  exact (hm t ht.1).mono (fun _ _ hr => ⟨⟨hr.1, hw.2⟩, trivial⟩) fun _ _ hk => ⟨trivial, hk.2, hw.2⟩

/-- What comes in front of the reading of `/proc` changes neither. -/
theorem always_startDumping_known (hn : n ≠ -1) :
    Always (fun _ => True) (Known n conf) (startDumping env) fun _ => True := by
  have hset : ∀ f : World → World, (∀ w, (f w).tee = w.tee ∧ (f w).conf = w.conf) →
      Always (fun _ => True) (Known n conf) (modify f : MainRun Unit) fun _ => True := by
    refine fun f hf => always_modify fun w hw => ?_
    obtain ⟨htee, hconf⟩ := hf w
    exact ⟨htee ▸ hw.1, hconf.trans hw.2⟩
  have hlog : ∀ (t : Str) (p : InfoPipe), Always (fun _ => True) (Known n conf)
      (do onHost (logmsg .crit t); return p) fun _ => True := fun _ _ =>
    always_bind (always_onHost_known _) fun _ _ => always_pure trivial
  have hleave : ∀ (t : Str) (p : InfoPipe), Always (fun _ => True) (Known n conf)
      (do onHost (logmsg .crit t); onTee (modify p.leave); return p) fun _ => True := fun _ _ =>
    always_bind (always_onHost_known _) fun _ _ =>
      always_bind (always_onTee_known (always_modify fun _ ht => ht)) fun _ _ => always_pure trivial
  refine always_bind (always_onHost_known _) fun r _ => ?_
  cases r with
  | error e => exact hlog _ _
  | ok p =>
    refine always_bind (hset _ fun _ => ⟨rfl, rfl⟩) fun _ _ => ?_
    refine always_bind (always_onHost_known _) fun r _ => ?_
    cases r with
    | error e => exact hleave _ _
    | ok u =>
      refine always_bind (always_onHost_known _) fun r _ => ?_
      cases r with
      | error e => exact hleave _ _
      | ok u =>
        refine always_bind (hset _ fun _ => ⟨rfl, rfl⟩) fun _ _ => ?_
        refine always_bind (always_onTee_known (minding_feed stops_any (pidOnly_known hn)))
          fun b _ => ?_
        cases b with
        | true => exact always_pure trivial
        | false => exact hlog _ _

/-- **The directory is the one that is read.** -/
theorem meets_readDir (path : Str) :
    Meets (fun _ => True) (readDir env dir conf path) w
      (fun _ w' => w'.conf.proc.path = some path) fun _ w' => w'.conf.proc.path = some path := by
  have hset : ∀ f : World → World, (∀ w, (f w).conf = w.conf) →
      Fixed (some path) (modify f : MainRun Unit) :=
    fun f hf => always_modify fun w hw => (hf w).symm ▸ hw
  have hrest : ∀ {m : MainRun Unit} {w : World}, Fixed (some path) m →
      w.conf.proc.path = some path → Meets (fun _ => True) m w
        (fun _ w' => w'.conf.proc.path = some path) fun _ w' => w'.conf.proc.path = some path :=
    fun hm hw => (hm _ hw).mono (fun _ _ hr => hr.1) fun _ _ hk => hk.2
  refine meets_bind (meets_modify (hrest ?_ rfl))
  refine always_bind (fixed_onHost _) fun r _ => ?_
  cases r with
  | error e => exact always_bind (hset _ fun _ => rfl) fun _ _ => fixed_onHost _
  | ok fd =>
    refine always_bind (hset _ fun _ => rfl) fun _ _ => ?_
    refine always_bind (fixed_onHost _) fun r _ => ?_
    refine always_bind (always_modify fun _ _ => rfl) fun _ _ => ?_
    split
    · exact always_pure trivial
    · exact fixed_onHost _

theorem meets_readProc (hpos : 0 < n) (hw : Known n conf w) (hpath : conf.proc.path = none)
    (hignore : conf.proc.ignore = false) :
    Meets (fun _ => True) (readProc env dir) w
      (fun _ w' => w'.conf.proc.path = some (procPath n))
      fun _ w' => w'.conf.proc.path = none ∨ w'.conf.proc.path = some (procPath n) := by
  obtain ⟨hpid, hconf⟩ := hw
  have hfind : Meets (fun _ => True) (findProc none) w (fun path _ => path = some (procPath n))
      fun _ w' => w'.conf.proc.path = none := by
    have hkeep := (minding_readPid stops_any (pidOnly_known (n := n) (by omega)).toVarsOnly)
      w.copying hpid
    have hread : Leads readPid w.copying fun pid t' => pid = t'.pid := by
      refine meets_bind (meets_ask (fun a _ => ?_) trivial)
      cases a with
      | prepared p => exact meets_bind (meets_modify (meets_bind (meets_get (meets_pure rfl))))
      | ok | err e | amount k | thread a | status b n =>
        exact meets_bind (meets_get (meets_pure rfl))
    have hzoom : Meets (fun _ => True) (onTee readPid) w (fun pid _ => pid = n)
        fun _ w' => w'.conf.proc.path = none := by
      refine meets_zoom ?_
      have hboth := (hkeep.mono (fun _ _ hr => hr.1) fun _ _ _ => trivial).and hread
      refine hboth.mono (fun pid t' hr => hr.2.trans hr.1) fun _ _ _ => ?_
      exact hconf ▸ hpath
    refine hzoom.andThen fun pid w' heq => ?_
    rw [heq, if_pos hpos]
    exact meets_pure rfl
  refine meets_bind (meets_get ?_)
  dsimp only
  rw [hconf, if_neg (by rw [hignore]; exact Bool.false_ne_true), hpath]
  refine (hfind.mono (fun _ _ hr => hr) fun _ _ hk => Or.inl hk).andThen fun path w' heq => ?_
  rw [heq]
  exact (meets_readDir (procPath n)).mono (fun _ _ hr => hr) fun _ _ hk => Or.inr hk

theorem fixed_saveOr (path : Option Str) (libunwind : Bool) (pipe : InfoPipe) :
    Fixed path (saveOr env env' libunwind pipe) := by
  intro w hw
  have hall : Always (fun _ => True)
      (WorldInv (fun _ => True) (fun _ => True) fun conf => conf.proc.path = path)
      (save env env' libunwind pipe) fun _ => True :=
    always_save procInv_true stops_any (fun _ _ _ => trivial) libunwind pipe
  have hsave := (hall w (worldInv_true hw)).mono (fun _ _ hr => hr.1.conf) fun _ _ hk => hk.2.conf
  rw [save_eq] at hsave
  exact hsave.of_bind_pure.mono (fun _ _ hr => ⟨hr, trivial⟩) fun _ _ hk => ⟨trivial, hk⟩

/-- **The directory of the run** is the one made of the PID. -/
theorem meets_body {libunwind : Bool} (hpos : 0 < n) (hw : Known n conf w)
    (hpath : conf.proc.path = none) (hignore : conf.proc.ignore = false) :
    Meets (fun _ => True) (body env env' libunwind dir) w
      (fun _ w' => w'.conf.proc.path = some (procPath n))
      fun _ w' => w'.conf.proc.path = none ∨ w'.conf.proc.path = some (procPath n) := by
  have hfront : ∀ {β : Type} {m : MainRun β}, Always (fun _ => True) (Known n conf) m (fun _ => True) →
      ∀ {w}, Known n conf w → Meets (fun _ => True) m w (fun _ w' => Known n conf w')
        fun _ w' => w'.conf.proc.path = none ∨ w'.conf.proc.path = some (procPath n) :=
    fun hm w hw => (hm w hw).mono (fun _ _ hr => hr.1) fun _ _ hk => Or.inl (hk.2.2 ▸ hpath)
  refine meets_bind (meets_get ?_)
  refine (hfront (always_onHost_known _) hw).andThen fun _ w₁ h1 => ?_
  refine (hfront (always_startDumping_known (by omega)) h1).andThen fun pipe w₂ h2 => ?_
  refine (meets_readProc hpos h2 hpath hignore).andThen fun _ w₃ h3 => ?_
  exact (fixed_saveOr _ libunwind pipe w₃ h3).mono (fun _ _ hr => hr.1) fun _ _ hk => Or.inr hk.2

/-- With an answer for the PID only, it is come to the opening of the directory. -/
theorem readProc_cut (hpos : 0 < w.tee.pid) (hpath : w.conf.proc.path = none)
    (hignore : w.conf.proc.ignore = false) :
    readProc env dir w [.ok] = .stop .cut { w with
      tee := w.copying, conf := w.conf.withProc (procPath w.tee.pid) w.conf.proc.exe } := by
  have hget : (get : MainRun World) w [.ok] = .done w w [.ok] := rfl
  have hfind : findProc none w [.ok] =
      .done (some (procPath w.tee.pid)) { w with tee := w.copying } [] := by
    have hread : onTee readPid w [.ok] = .done w.tee.pid { w with tee := w.copying } [] := rfl
    rw [findProc, bind_of_done hread, if_pos hpos]
    rfl
  rw [readProc, bind_of_done hget, if_neg (by rw [hignore]; exact Bool.false_ne_true), hpath,
    bind_of_done hfind]
  rfl

/-- Some run comes to the directory. -/
theorem exists_body (libunwind : Bool) (hpos : 0 < w.tee.pid) (hpath : w.conf.proc.path = none)
    (hignore : w.conf.proc.ignore = false) :
    ∃ o, (body env env' libunwind dir w o).state.conf.proc.path = some (procPath w.tee.pid) := by
  have hcore : ∃ o, ∃ h, ∀ o', onHost (openCore env w.conf.corePath) w (o ++ o') =
      .done () { w with host := h } o' := by
    cases w.conf.corePath with
    | none => exact ⟨[], w.host, fun _ => rfl⟩
    | some path => exact ⟨[.err .other], _, fun _ => rfl⟩
  obtain ⟨o, h, hopen⟩ := hcore
  have hstart : ∀ (w : World) (o : List Answer), ∃ h, startDumping env w (.err .other :: o) =
      .done .absent { w with host := h } o := fun _ _ => ⟨_, rfl⟩
  obtain ⟨h', hstart⟩ := hstart { w with host := h } [.ok]
  have hread : readProc env dir { w with host := h' } [.ok] = .stop .cut _ :=
    readProc_cut hpos hpath hignore
  have hget : (get : MainRun World) w (o ++ [.err .other, .ok]) = .done w w _ := rfl
  refine ⟨o ++ [.err .other, .ok], ?_⟩
  rw [body, bind_of_done hget, bind_of_done (hopen _), bind_of_done hstart, bind_of_stop hread]
  rfl

end Directory

theorem dirOf_procPath_iff {n : Int} (h : IsPid n) : DirOf n (some (procPath n)) ↔ n < 10 ^ 9 := by
  have hfmt : (fmtD n).length ≤ 9 ↔ n < 10 ^ 9 := by
    obtain ⟨hpos, -⟩ := h
    rw [fmtD, if_neg (by omega), dec, List.length_map,
      Numeral.length_digits_le_iff (by decide) (by decide)]
    omega
  have hproc : (lit "/proc/").length = 6 := rfl
  have hslash : (lit "/").length = 1 := rfl
  have hfront : (lit "/proc/" ++ fmtD n).length = 6 + (fmtD n).length := by
    rw [List.length_append, hproc]
  rw [← hfmt]
  constructor
  · rintro (heq | heq)
    · have hlen := congrArg List.length (Option.some.inj heq)
      rw [procPath, List.length_take, List.length_append, hfront, hslash] at hlen
      omega
    · have hlen := congrArg List.length (Option.some.inj heq)
      rw [procPath, List.length_take, List.length_append, hfront, hslash] at hlen
      omega
  · intro hle
    by_cases hnine : (fmtD n).length = 9
    · refine Or.inl (congrArg some ?_)
      rw [procPath]
      exact List.take_left' (by rw [hfront, hnine])
    · refine Or.inr (congrArg some ?_)
      rw [procPath]
      apply List.take_of_length_le
      rw [List.length_append, hfront, hslash]
      omega

/-! ### When it is the process that is named -/

section Own

variable {t : Str} {conf : Conf} {n : Int}

theorem OwnProcess.not_pos (h : OwnProcess t conf) (hn : Decimal t n) (hno : ¬IsPid n) :
    ¬0 < toInt (toLong n) := by
  intro hpos
  obtain ⟨h', hrun⟩ := optPid_decimal hn hpos (-1) (Host.std []) []
  obtain ⟨m, hm, hpid, -⟩ := h.literal hrun
  exact hno (hm.unique hn ▸ hpid)

theorem OwnProcess.short (h : OwnProcess t conf) (hn : Decimal t n) (hpid : IsPid n)
    (hpath : conf.proc.path = none) (hignore : conf.proc.ignore = false) : n < 10 ^ 9 := by
  let s : Settings := { state := { conf := conf, seen := fun _ => 0 } }
  let s' : Settings := { s with pid := toInt (toLong n) }
  let w := World.start (Host.std []).fds [] [] conf 0
  have hpos : 0 < toInt (toLong n) := (toInt_toLong_of_isPid hpid).symm ▸ hpid.1
  obtain ⟨h', hopt⟩ := optPid_decimal hn hpos s.pid (Host.std []) []
  have hrun : getopt (Env.plain 0 none) s ([] ++ .P t :: []) (Host.std []) [] =
      .done (.ok s') h' [] := by
    rw [List.nil_append, getopt, bind_of_done hopt]
    rfl
  obtain ⟨m, hm, -, hdir⟩ := h.directory (fun _ hu => absurd hu List.not_mem_nil) hrun rfl
  obtain rfl := hm.unique hn
  have hall := hdir hpath hignore (Env.plain 0 none) (Env.plain 0 none) true { exe := [] } w
  obtain ⟨o, ho⟩ : ∃ o, (body (Env.plain 0 none) (Env.plain 0 none) true { exe := [] }
      (w.set s') o).state.conf.proc.path = some (procPath (toInt (toLong m))) :=
    exists_body true hpos hpath hignore
  have hown : NoOther m _ := Meets.state (hall.imp fun _ _ hr => Or.inr hr) o
  rw [NoOther, ho, toInt_toLong_of_isPid hpid] at hown
  exact (dirOf_procPath_iff hpid).mp (hown.resolve_left nofun)

end Own

/-- **`-P` is for the process it names just if nothing of the number is lost.** -/
theorem ownProcess_iff (t : Str) (conf : Conf) :
    OwnProcess t conf ↔ ∀ n, Decimal t n → PidKept conf n := by
  constructor
  · intro h n hn
    exact ⟨fun hno => lost_iff.mp (h.not_pos hn hno), h.short hn⟩
  · intro h
    have hown : ∀ n, Decimal t n → 0 < toInt (toLong n) → IsPid n := by
      intro n hn hpos
      by_contra hno
      exact lost_iff.mpr ((h n hn).1 hno) hpos
    constructor
    · intro pid p h₁ h₂ o o' hrun
      obtain ⟨n, hn, hpos, rfl⟩ := of_optPid_done hrun
      have hpid := hown n hn hpos
      exact ⟨n, hn, hpid, toInt_toLong_of_isPid hpid⟩
    · intro n hn hpid pid h₁ o
      have heq := toInt_toLong_of_isPid hpid
      have hrun := optPid_decimal hn (heq.symm ▸ hpid.1) pid h₁ o
      rwa [heq] at hrun
    · intro env front back s s' h₁ h₂ o o' hback hrun hconf
      obtain ⟨n, hn, hpos, hset⟩ := getopt_last hback hrun
      have hpid := hown n hn hpos
      rw [toInt_toLong_of_isPid hpid] at hset
      refine ⟨n, hn, hset, fun hpath hignore env env' libunwind dir w => ?_⟩
      have hdir := (dirOf_procPath_iff hpid).mpr ((h n hn).2 hpid hpath hignore)
      have hknown : Known n conf (w.set s') := ⟨hset, hconf⟩
      exact (meets_body hpid.1 hknown hpath hignore).mono (fun _ _ hr => hr.symm ▸ hdir)
        fun _ _ hk => Or.imp_right (fun heq => by rw [heq]; exact hdir) hk

/-- What is above the low 32 bits is lost, and so is the tenth digit. -/
theorem not_ownProcess :
    ¬OwnProcess (lit "4294967297") {} ∧ ¬OwnProcess (lit "1000000000") {} := by
  have hwide : Decimal (lit "4294967297") 4294967297 :=
    @Decimal.plain [] _ (fun _ hc => absurd hc List.not_mem_nil) (by decide)
      (List.all_eq_true.mp (by decide))
  have hlong : Decimal (lit "1000000000") 1000000000 :=
    @Decimal.plain [] _ (fun _ hc => absurd hc List.not_mem_nil) (by decide)
      (List.all_eq_true.mp (by decide))
  constructor
  · exact fun h => h.not_pos hwide (by decide) (by decide)
  · exact fun h => absurd (h.short hlong (by decide) rfl rfl) (by decide)

end Crashinfo
