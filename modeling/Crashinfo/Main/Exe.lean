import Crashinfo.Main.Whole

/-!
# The path of the executable

The outputs with an active `@e` or `@E` and the line `exe:` use `conf.proc.exe`.
It is configured, or read from `/proc`; but `main` goes on whatever becomes of
that.  `ExeKnown` says, in front of the reading of `/proc`, when it will be
known: then nothing behind uses a NULL pointer (`main_exe`).
-/

namespace Crashinfo

open Script Script.Run

/-- What `run.pid` is found to be if the answer is `a`. -/
def Tee.pidAt (t : Tee) : Answer → Int
  | .prepared p => if t.pid = -1 then if p < 0 then -2 else p else t.pid
  | _ => t.pid

/-- The directory is opened, and the link `exe` is read and copied. -/
def Reads (o : List Answer) : Prop :=
  ∃ a b c o', o = a :: b :: c :: o' ∧ NoErr a ∧ NoErr b ∧ NoErr c

/-- The executable is configured, or `/proc` is read, its directory is found and
the link can be read. -/
def ExeKnown (w : World) (o : List Answer) : Prop :=
  w.conf.proc.exe ≠ none ∨ w.conf.proc.ignore = false ∧
    match w.conf.proc.path with
    | some _ => Reads o
    | none => ∃ a o', o = a :: o' ∧ 0 < w.tee.pidAt a ∧ Reads o'

/-! ### Reading `/proc` -/

section Read

variable {env : Env} {dir : ProcDir} {h h' : Host} {w w' : World} {o o' : List Answer}

theorem of_readPid_done {t t' : Tee} {pid : Int} (hrun : readPid t o = .done pid t' o') :
    ∃ a, o = a :: o' ∧ pid = t.pidAt a := by
  cases o with
  | nil => cases hrun
  | cons a o =>
    refine ⟨a, ?_⟩
    cases a with
    | prepared p =>
      cases hrun
      refine ⟨rfl, ?_⟩
      show (if t.pid = -1 then _ else t).pid = _
      rw [Tee.pidAt]
      split
      · rfl
      · rfl
    | ok | err e | amount k | thread a | status b n =>
      cases hrun
      exact ⟨rfl, rfl⟩

theorem of_readExe_done {exe : Option Str} (hrun : readExe env dir none h o = .done exe h' o') :
    exe ≠ none ↔ ∃ b c o'', o = b :: c :: o'' ∧ NoErr b ∧ NoErr c := by
  obtain ⟨r, h₁, o₁, hlink, hrest⟩ := of_bind_done hrun
  obtain ⟨b, o₂, rfl, ⟨e, rfl, rfl, -, rfl⟩ | ⟨hb, u, rfl, hact⟩⟩ := of_syscall_done hlink
  · cases hrest
    constructor
    · exact fun hne => absurd rfl hne
    · rintro ⟨b, c, o'', heq, hb, -⟩
      exact absurd (List.cons.inj heq).1.symm (hb e)
  cases hact
  obtain ⟨r, h₂, o₃, hdup, hlast⟩ := of_bind_done hrest
  obtain ⟨c, o₄, rfl, ⟨e, rfl, rfl, -, rfl⟩ | ⟨hc, u, rfl, hact⟩⟩ := of_syscall_done hdup
  · cases hlast
    constructor
    · exact fun hne => absurd rfl hne
    · rintro ⟨b, c, o'', heq, -, hc⟩
      exact absurd (List.cons.inj (List.cons.inj heq).2).1.symm (hc e)
  · cases hact
    cases hlast
    exact ⟨fun _ => ⟨b, c, _, rfl, hb, hc⟩, fun _ => nofun⟩

theorem of_readProcInfo_done {conf : Conf} {path : Str} {r : Bool × Option Str}
    (hrun : readProcInfo env dir conf path h o = .done r h' o') :
    r.2 ≠ none ↔
      conf.proc.exe ≠ none ∨ ∃ b c o'', o = b :: c :: o'' ∧ NoErr b ∧ NoErr c := by
  obtain ⟨exe, h₁, o₁, hexe, hrest⟩ := of_bind_done hrun
  have hr : r.2 = exe := by
    cases exe with
    | none =>
      cases hrest
      rfl
    | some exe =>
      obtain ⟨b, h₂, o₂, -, hdone⟩ := of_bind_done hrest
      cases hdone
      rfl
  rw [hr]
  cases hconf : conf.proc.exe with
  | some x =>
    rw [hconf] at hexe
    cases hexe
    exact ⟨fun _ => Or.inl nofun, fun _ => nofun⟩
  | none =>
    rw [hconf] at hexe
    rw [of_readExe_done hexe]
    exact ⟨Or.inr, fun h => h.resolve_left fun hne => hne rfl⟩

theorem of_onHost_done {α : Type} {m : HostRun α} {a : α}
    (hrun : onHost m w o = .done a w' o') :
    ∃ h', m w.host o = .done a h' o' ∧ w' = { w with host := h' } :=
  of_zoom_done hrun

theorem of_readDir_done {conf : Conf} {path : Str}
    (hrun : readDir env dir conf path w o = .done () w' o') :
    w'.conf.proc.exe ≠ none ↔ conf.proc.exe ≠ none ∨ Reads o := by
  obtain ⟨u, w₁, o₁, hset, hrest⟩ := of_bind_done hrun
  cases hset
  obtain ⟨r, w₂, o₂, hopen, htail⟩ := of_bind_done hrest
  obtain ⟨h₂, hcall, rfl⟩ := of_onHost_done hopen
  obtain ⟨a, o₃, rfl, ⟨e, rfl, rfl, -, rfl⟩ | ⟨ha, fd, rfl, hact⟩⟩ := of_syscall_done hcall
  · cases htail
    constructor
    · exact Or.inl
    · rintro (hne | ⟨a, b, c, o'', heq, ha, -⟩)
      · exact hne
      · exact absurd (List.cons.inj heq).1.symm (ha e)
  cases hact
  obtain ⟨u, w₃, o₃, hfd, hread⟩ := of_bind_done htail
  cases hfd
  obtain ⟨r, w₄, o₄, hinfo, hlast⟩ := of_bind_done hread
  obtain ⟨h₄, hcall, rfl⟩ := of_onHost_done hinfo
  have hexe : w'.conf.proc.exe = r.2 := by
    obtain ⟨u, w₅, o₅, hset, hlog⟩ := of_bind_done hlast
    cases hset
    split at hlog
    · cases hlog
      rfl
    · cases hlog
      rfl
  rw [hexe, of_readProcInfo_done hcall]
  refine or_congr_right ⟨?_, ?_⟩
  · rintro ⟨b, c, o'', rfl, hb, hc⟩
    exact ⟨a, b, c, o'', rfl, ha, hb, hc⟩
  · rintro ⟨a', b, c, o'', heq, -, hb, hc⟩
    exact ⟨b, c, o'', (List.cons.inj heq).2, hb, hc⟩

/-- **The executable is known behind the reading of `/proc` just if it is
`ExeKnown` in front of it.** -/
theorem exe_iff_exeKnown (hrun : readProc env dir w o = .done () w' o') :
    w'.conf.proc.exe ≠ none ↔ ExeKnown w o := by
  obtain ⟨v, w₁, o₁, hget, hrest⟩ := of_bind_done hrun
  cases hget
  rw [ExeKnown]
  dsimp only at hrest
  split at hrest
  · rename_i hignore
    cases hrest
    exact ⟨Or.inl, fun h => h.resolve_right fun hno => absurd hignore (by rw [hno.1]; nofun)⟩
  rename_i hignore
  rw [Bool.not_eq_true] at hignore
  obtain ⟨found, w₂, o₂, hfind, hread⟩ := of_bind_done hrest
  cases hpath : w.conf.proc.path with
  | some path =>
    rw [hpath] at hfind
    cases hfind
    rw [of_readDir_done hread]
    exact or_congr_right ⟨fun h => ⟨hignore, h⟩, fun h => h.2⟩
  | none =>
    rw [hpath] at hfind
    obtain ⟨pid, w₃, o₃, hpid, hret⟩ := of_bind_done hfind
    obtain ⟨t, hask, rfl⟩ := of_zoom_done hpid
    obtain ⟨a, rfl, rfl⟩ := of_readPid_done hask
    split at hret
    · rename_i hpos
      cases hret
      rw [of_readDir_done hread]
      refine or_congr_right ⟨fun h => ⟨hignore, a, _, rfl, hpos, h⟩, ?_⟩
      rintro ⟨-, a', o'', heq, -, h⟩
      rw [(List.cons.inj heq).2]
      exact h
    · rename_i hpos
      cases hret
      cases hread
      refine ⟨Or.inl, fun h => h.resolve_right ?_⟩
      rintro ⟨-, a', o'', heq, hpos', -⟩
      rw [(List.cons.inj heq).1] at hpos
      exact hpos hpos'

end Read

/-! ### The whole run -/

def NotNull (why : Stop Fault) : Prop := why ≠ .fault .nullDeref

theorem stops_notNull : Stops NotNull := ⟨nofun, nofun, fun _ hf heq => hf (Stop.fault.inj heq)⟩

theorem procInv_true : ProcInv (fun _ => True) fun _ => True where
  aside := fun _ _ _ _ => trivial
  alloc := fun _ _ _ => ⟨trivial, trivial⟩
  close := fun _ _ _ _ => trivial
  neg := fun _ _ => trivial
  later := fun _ _ _ _ => trivial

/-- A world whose configuration is as `X` says, and nothing else. -/
theorem worldInv_true {X : Conf → Prop} {w : World} (hw : X w.conf) :
    WorldInv (fun _ => True) (fun _ => True) X w :=
  ⟨trivial, fun _ _ => ⟨trivial, trivial⟩, fun _ _ _ _ => trivial, hw⟩

/-- **No NULL pointer is used in place of the executable**: not in any run in
which it is `ExeKnown` in front of the reading of `/proc`. -/
theorem main_exe {env env' : Env} {libunwind : Bool} {files : List ConfFile} {dir : ProcDir}
    {w : World} {o : List Answer}
    (hknown : ∀ pipe w₁ o₁, start env files w o = .done (some pipe) w₁ o₁ → ExeKnown w₁ o₁) :
    ¬(main env env' libunwind files dir w o).Faults .nullDeref := by
  have hnull : ¬NotNull (.fault .nullDeref) := fun h => h rfl
  cases hstart : start env files w o with
  | stop why w₁ =>
    have hall : Always NotNull (WorldInv (fun _ => True) (fun _ => True) fun _ => True)
        (start env files) fun _ => True :=
      always_start procInv_true.toHostInv stops_notNull trivial files
    rw [main, faults_bind_of_stop hstart]
    exact hall.not_faults hnull (worldInv_true trivial) o
  | done found w₁ o₁ =>
    rw [main, bind_of_done hstart]
    cases found with
    | none => exact id
    | some pipe =>
      dsimp only
      cases hread : readProc env dir w₁ o₁ with
      | stop why w₂ =>
        have hall : Always NotNull (WorldInv (fun _ => True) (fun _ => True) fun _ => True)
            (readProc env dir) fun _ => True :=
          always_readProc procInv_true.toHostInv stops_notNull fun _ => trivial
        rw [faults_bind_of_stop hread]
        exact hall.not_faults hnull (worldInv_true trivial) o₁
      | done u w₂ o₂ =>
        have hexe := (exe_iff_exeKnown hread).mpr (hknown pipe w₁ o₁ hstart)
        have hall : Always NotNull (WorldInv (fun _ => True) (fun _ => True)
            fun conf => conf.proc.exe ≠ none) (save env env' libunwind pipe) fun _ => True :=
          always_save procInv_true stops_notNull (fun _ hne hnone => absurd hnone hne) libunwind pipe
        rw [bind_of_done hread]
        exact hall.not_faults hnull (worldInv_true hexe) o₂

theorem main_exe_configured :
    let env := Env.plain 42 none
    let conf : Conf := { proc := { ignore := true, exe := some (lit "/x") } }
    let w := World.start (Host.std []).fds [] [7] conf 42
    ¬(main env env true [] { exe := [] } w (List.replicate 30 .ok)).Faults .nullDeref := by
  intro env conf w
  have hstart : (start env [] w (List.replicate 30 .ok)).After
      fun _ w₁ => w₁.conf.proc.exe ≠ none := by
    decide
  refine main_exe fun pipe w₁ o₁ hrun => Or.inl ?_
  rw [hrun, Res.after_done] at hstart
  exact hstart

/-- With `proc_ignore` and no `proc_exe`, the line `exe:` is written without a
path. -/
theorem not_main_exe :
    let env := Env.plain 42 none
    let conf : Conf := { proc := { ignore := true } }
    let w := World.start (Host.std []).fds [] [7] conf 42
    (main env env true [] { exe := [] } w (List.replicate 30 .ok)).Faults .nullDeref := by
  decide

end Crashinfo
