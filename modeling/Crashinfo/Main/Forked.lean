import Crashinfo.Main.Kept
import Crashinfo.Output.Named

/-!
# What is started

`open_output` starts filters and nothing else, from the first one of the output on
until one cannot be started, and `close_output` the programs that are told about the
file, in their order.
-/

namespace Crashinfo

open Script Script.Run

/-- From `h` to `h'` the programs `l` were started. -/
def Forked (h : Host) (l : List Str) (h' : Host) : Prop :=
  h'.kids.map Kid.cmd = h.kids.map Kid.cmd ++ l

section Forked

variable {env : Env} {c : ConfOutput} {h h₁ h₂ : Host} {l l' : List Str}

theorem forked_of_kids (hk : h₁.kids = h.kids) : Forked h [] h₁ := by
  rw [Forked, hk, List.append_nil]

theorem Forked.trans (h01 : Forked h l h₁) (h12 : Forked h₁ l' h₂) : Forked h (l ++ l') h₂ := by
  rw [Forked, h12, h01, List.append_assoc]

/-- The parts of the program that start nothing. -/
theorem hostInv_kids (kids : List Kid) : HostInv (fun h => h.kids = kids) fun _ => True where
  aside _ _ hk ha := (congrArg Procs.kids ha.procs).trans hk
  alloc _ _ hk := ⟨hk, trivial⟩
  close h fd hk _ := (close_sameProcs h fd).kids.trans hk
  neg _ _ := trivial

theorem leads_keeps {α : Type} {m : HostRun α} {R : α → Prop}
    (hm : Always (fun _ => True) (fun h' => h'.kids = h.kids) m R) :
    Leads m h fun _ h' => Forked h [] h' :=
  (hm.keeps rfl).imp fun _ _ hk => forked_of_kids hk

theorem leads_spawnProc_forks (cmd : Str) (infd outfd : Int) (arg1 arg2 : Option Str) :
    Leads (spawnProc env cmd infd outfd arg1 arg2) h fun r h' =>
      Forked h [] h' ∧ r = none ∨ Forked h [cmd] h' := by
  refine meets_bind (leads_syscall (fun e => ?_) ?_)
  · exact meets_bind (meets_modify (meets_pure (Or.inl ⟨forked_of_kids rfl, rfl⟩)))
  · refine meets_bind (meets_get (meets_bind (meets_modify (meets_pure (meets_pure (Or.inr ?_))))))
    simp [Forked, Host.spawn]

/-- The programs that are to be told are started in order. -/
theorem leads_notifyAll_forks (name : Str) (cmds : List Str) :
    Leads (notifyAll env name cmds) h fun _ h' => ∃ l, l.Sublist cmds ∧ Forked h l h' := by
  induction cmds generalizing h with
  | nil => exact meets_pure ⟨[], .slnil, forked_of_kids rfl⟩
  | cons cmd cmds ih =>
    rw [notifyAll]
    refine (leads_keeps (always_open (hostInv_kids _) trivial _ _)).andThen fun fd h₁ h01 => ?_
    refine (leads_spawnProc_forks cmd _ _ _ _).andThen fun r h₂ h12 => ?_
    refine ih.imp ?_
    rintro _ h₃ ⟨l, hl, h23⟩
    rcases h12 with ⟨h12, -⟩ | h12
    · exact ⟨l, hl.cons cmd, (h01.trans h12).trans h23⟩
    · exact ⟨cmd :: l, hl.cons_cons cmd, (h01.trans h12).trans h23⟩

/-- **`close_output` starts the programs of `c->notify`.** -/
theorem leads_closeOutput_forks (r : RunOutput) :
    Leads (closeOutput env c r) h fun _ h' => ∃ l, l.Sublist c.notify ∧ Forked h l h' := by
  have hnone : ∀ h' : Host, h'.kids = h.kids → ∃ l, l.Sublist c.notify ∧ Forked h l h' :=
    fun h' hk => ⟨[], List.nil_sublist _, forked_of_kids hk⟩
  rw [closeOutput]
  split
  · exact meets_pure (hnone h rfl)
  refine meets_bind (meets_modify ?_)
  have hwait : Always (fun _ => True) (fun h' => h'.kids = h.kids) (waitFilters env r.filter) _ :=
    always_waitFilters_kids (fun _ _ hk hs => hk.trans hs) r.filter
  refine (hwait.keeps (close_sameProcs h r.outputFd).kids).andThen fun _ h₁ hk => ?_
  split
  · refine (leads_notifyAll_forks _ c.notify).andThen ?_
    rintro _ h₂ ⟨l, hl, h12⟩
    exact meets_pure ⟨l, hl, (forked_of_kids hk).trans h12⟩
  · exact meets_pure (hnone h₁ hk)

theorem leads_spawnFilter_forks (cmd : Str) (infd outfd : Int) :
    Leads (spawnFilter env cmd infd outfd) h fun r h' =>
      Forked h [] h' ∧ r = none ∨ Forked h [cmd] h' := by
  refine meets_bind (leads_syscall (fun e => ?_) (meets_modify ?_))
  · exact meets_bind (meets_modify (meets_pure (Or.inl ⟨forked_of_kids rfl, rfl⟩)))
  · refine (leads_spawnProc_forks cmd infd outfd none none).andThen fun r h₁ h01 => ?_
    cases r with
    | none => exact meets_bind (meets_modify (meets_pure (h01.imp_left fun h => ⟨h.1, rfl⟩)))
    | some pid =>
      refine meets_bind (meets_modify (meets_pure (Or.inr ?_)))
      exact h01.resolve_left fun h => absurd h.2 (by simp)

theorem leads_spawnFilters_forks (nextOut : Int) (fs : List Str) :
    ∀ (nextIn : Int) (done : List RunFilter) (h : Host),
      Leads (spawnFilters env nextOut fs nextIn done) h fun _ h' => ∃ l, l <+: fs ∧ Forked h l h' := by
  induction fs with
  | nil => exact fun _ _ h => meets_pure ⟨[], List.prefix_rfl, forked_of_kids rfl⟩
  | cons f fs ih =>
    intro nextIn done h
    rw [spawnFilters]
    refine (leads_keeps (always_filterEnds (hostInv_kids _) trivial _ trivial trivial)).andThen ?_
    intro o h₁ h01
    cases o with
    | none => exact meets_pure ⟨[], List.nil_prefix, h01⟩
    | some x =>
      refine (leads_spawnFilter_forks f x.1 x.2.1).andThen fun pid h₂ h12 => ?_
      cases pid with
      | none =>
        rcases h12 with ⟨h12, -⟩ | h12
        · exact meets_pure ⟨[], List.nil_prefix, h01.trans h12⟩
        · exact meets_pure ⟨[f], ⟨fs, rfl⟩, h01.trans h12⟩
      | some pid =>
        have h12 : Forked h₁ [f] h₂ := h12.resolve_left fun h => absurd h.2 (by simp)
        refine meets_bind (meets_modify (meets_bind (meets_modify ?_)))
        refine (ih _ _ _).imp ?_
        rintro _ h₃ ⟨l, hl, h23⟩
        have hclose : Forked h₂ [] ((h₂.close x.1).close x.2.1) := forked_of_kids
          ((close_sameProcs _ _).kids.trans (close_sameProcs _ _).kids)
        exact ⟨f :: l, List.cons_prefix_cons.mpr ⟨rfl, hl⟩, ((h01.trans h12).trans hclose).trans h23⟩

theorem leads_killFilters_forks (fs : List RunFilter) :
    Leads (killFilters fs) h fun _ h' => Forked h [] h' := by
  induction fs generalizing h with
  | nil => exact meets_pure (forked_of_kids rfl)
  | cons f fs ih =>
    exact meets_bind (meets_modify (meets_bind (meets_modify (meets_bind (meets_modify ih)))))

theorem leads_close_forks (fd : Int) : Leads (close fd) h fun _ h' => Forked h [] h' :=
  leads_keeps (always_close (hostInv_kids _) trivial)

theorem leads_err0_forks (r : RunOutput) : Leads (err0 r) h fun _ h' => Forked h [] h' :=
  leads_keeps (always_err0 (hostInv_kids _) trivial r)

theorem leads_err1_forks (r : RunOutput) (nextIn nextOut : Int) :
    Leads (err1 r nextIn nextOut) h fun _ h' => Forked h [] h' := by
  refine (leads_killFilters_forks r.filter).andThen fun _ h₁ h01 => ?_
  refine (leads_close_forks _).andThen fun _ h₂ h12 => ?_
  refine (leads_close_forks _).andThen fun _ h₃ h23 => ?_
  refine (leads_close_forks _).andThen fun _ h₄ h34 => ?_
  refine (leads_err0_forks _).imp fun _ h₅ h45 => ?_
  exact h01.trans (h12.trans (h23.trans (h34.trans h45)))

theorem leads_setupFilters_forks (fd : Int) (r : RunOutput) :
    Leads (setupFilters env c fd r) h fun _ h' => ∃ l, l <+: c.filter ∧ Forked h l h' := by
  rw [setupFilters]
  split
  · exact meets_pure ⟨[], List.nil_prefix, forked_of_kids rfl⟩
  refine (leads_keeps (always_pipe2 (hostInv_kids _) trivial)).andThen fun p h₁ h01 => ?_
  cases p with
  | error e =>
    refine meets_bind (meets_modify ((leads_close_forks fd).andThen fun _ h₂ h12 => ?_))
    exact meets_pure ⟨[], List.nil_prefix, h01.trans h12⟩
  | ok p =>
    refine (leads_spawnFilters_forks fd c.filter _ _ h₁).andThen ?_
    rintro q h₂ ⟨l, hl, h12⟩
    cases q with
    | ok fs => exact meets_pure ⟨l, hl, h01.trans h12⟩
    | error x =>
      refine (leads_err1_forks _ _ _).imp fun _ h₃ h23 => ⟨l, hl, ?_⟩
      have h03 := (h01.trans h12).trans h23
      rwa [List.nil_append, List.append_nil] at h03

/-- **`open_output` starts the filters of the output.** -/
theorem leads_openOutput_forks (r : RunOutput) :
    Leads (openOutput env c r) h fun _ h' => ∃ l, l <+: c.filter ∧ Forked h l h' := by
  have hstops : Stops fun _ => True := ⟨trivial, trivial, fun _ _ => trivial⟩
  refine (leads_keeps (always_openSink (hostInv_kids _) hstops (fun _ => trivial) r)).andThen ?_
  intro o h₁ h01
  cases o with
  | none => exact (leads_err0_forks r).imp fun _ h₂ h12 => ⟨[], List.nil_prefix, h01.trans h12⟩
  | some x =>
    refine (leads_setupFilters_forks _ _).imp ?_
    rintro _ h₂ ⟨l, hl, h12⟩
    exact ⟨l, hl, h01.trans h12⟩

end Forked

end Crashinfo
