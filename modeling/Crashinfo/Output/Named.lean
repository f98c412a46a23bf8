import Crashinfo.Main.Kept
import Crashinfo.Output.Loop
import Crashinfo.Output.Sink

/-!
# The name that is told to others

`r->output_filename` is what the programs that are to be told about a stream get
for its file.  It should be the name of the file the call has opened, and nothing
if there is none or the filters could not be set up.  But it is set as soon as
there is a descriptor, be it one of `/dev/null` in place of a file that is kept,
and not taken back when the filters fail; and `strdup` may fail.  So all is well
just if `strdup` fails where there is nothing to tell (`NamedWell`), and that only
depends on which calls fail.

`Marks` follows these calls from one part of `open_output` to the next.
-/

namespace Crashinfo

open Script Script.Run

def Wrote (h h' : Host) (name : Str) : Prop := ∃ new, h'.outputs = h.outputs ++ [(name, new)]

def Call.IsSetup (c : Call) : Prop := c = .pipe2 ∨ c = .malloc ∨ c = .fork

instance (c : Call) : Decidable c.IsSetup := inferInstanceAs (Decidable (_ ∨ _))

/-- One of the calls `C` has failed since `h`. -/
def Failed (C : Call → Prop) (h h' : Host) : Prop :=
  ∃ f ∈ h'.failed.drop h.failed.length, C f.call

/-- `/dev/null` was opened in place of a file since `h`: `open_devnull` does not set
`O_CLOEXEC`. -/
def StoodIn (h h' : Host) : Prop := ∃ x ∈ h'.opened.drop h.opened.length, x.2 = ⟨.null, true⟩

/-- **`strdup` fails just if there is nothing to tell**: if there is only `/dev/null`
in place of the file, or a call for the filters fails. -/
def NamedWell (c : ConfOutput) (h h' : Host) : Prop :=
  c.output ≠ none → (Failed (· = .strdup) h h' ↔ StoodIn h h' ∨ Failed Call.IsSetup h h')

/-- The programs that were started since `h` were told names as in `P` for `@1`, and as
in `P'` for `@2`. -/
def Told (P P' : Str → Prop) (h h' : Host) : Prop :=
  ∃ l, h'.kids = h.kids ++ l ∧ ∀ k ∈ l, (∀ x ∈ k.arg1, P x) ∧ ∀ x ∈ k.arg2, P' x

/-- Whatever `close_output` and `main` start later on is told nothing about a stream with
the name `f` but names as in `P`, however far it comes. -/
def TellsOnly (f : Option Str) (P : Str → Prop) : Prop :=
  ∀ (env : Env) (c : ConfOutput) (r other : RunOutput) (cmds : List Str) (h : Host)
    (o : List Answer), r.outputFilename = f →
      Told P (fun _ => False) h (closeOutput env c r h o).state ∧
      Told P (fun _ => True) h (notifyInfoCore env r other cmds h o).state ∧
      Told (fun _ => True) P h (notifyInfoCore env other r cmds h o).state

/-! ### What was written down -/

/-- From `h` to `h'`: whether `strdup` has failed, and a call for the filters, and whether
a file is stood in for. -/
structure Marks (dup setup stood : Prop) (h h' : Host) : Prop where
  failed : ∃ l, h'.failed = h.failed ++ l ∧ ((∃ f ∈ l, f.call = .strdup) ↔ dup) ∧
    ((∃ f ∈ l, f.call.IsSetup) ↔ setup)
  opened : ∃ l, h'.opened = h.opened ++ l ∧
    ((∃ x ∈ l, x.2 = (⟨.null, true⟩ : Desc)) ↔ stood)

abbrev Unmarked (h h' : Host) : Prop := Marks False False False h h'

section Marks

variable {h h₁ h₂ : Host} {dup dup' setup setup' stood stood' : Prop}

theorem Marks.trans (h01 : Marks dup setup stood h h₁) (h12 : Marks dup' setup' stood' h₁ h₂) :
    Marks (dup ∨ dup') (setup ∨ setup') (stood ∨ stood') h h₂ := by
  obtain ⟨⟨l, hl, hdup, hsetup⟩, l', hl', hstood⟩ := h01
  obtain ⟨⟨m, hm, hdup', hsetup'⟩, m', hm', hstood'⟩ := h12
  refine ⟨⟨l ++ m, by rw [hm, hl, List.append_assoc], ?_, ?_⟩,
    l' ++ m', by rw [hm', hl', List.append_assoc], ?_⟩
  · simp only [List.mem_append, or_and_right, exists_or, hdup, hdup']
  · simp only [List.mem_append, or_and_right, exists_or, hsetup, hsetup']
  · simp only [List.mem_append, or_and_right, exists_or, hstood, hstood']

theorem Marks.congr (hm : Marks dup setup stood h h₁) (hdup : dup ↔ dup')
    (hsetup : setup ↔ setup') (hstood : stood ↔ stood') : Marks dup' setup' stood' h h₁ :=
  propext hdup ▸ propext hsetup ▸ propext hstood ▸ hm

theorem Marks.after (hm : Marks dup setup stood h₁ h₂) (hno : Unmarked h h₁) :
    Marks dup setup stood h h₂ :=
  (hno.trans hm).congr (or_iff_right id) (or_iff_right id) (or_iff_right id)

theorem Marks.before (hm : Marks dup setup stood h h₁) (hno : Unmarked h₁ h₂) :
    Marks dup setup stood h h₂ :=
  (hm.trans hno).congr (or_iff_left id) (or_iff_left id) (or_iff_left id)

theorem unmarked_of_eq (hfailed : h₁.failed = h.failed) (hopened : h₁.opened = h.opened) :
    Unmarked h h₁ :=
  ⟨⟨[], by rw [hfailed, List.append_nil], by simp⟩, [], by rw [hopened, List.append_nil], by simp⟩

theorem marks_fail (h : Host) (c : Call) : Marks (c = .strdup) c.IsSetup False h (h.fail c) :=
  ⟨⟨_, rfl, by simp⟩, [], (List.append_nil _).symm, by simp⟩

theorem unmarked_fail {c : Call} (hc : c ≠ .strdup ∧ ¬c.IsSetup) : Unmarked h (h.fail c) :=
  (marks_fail h c).congr (iff_false_intro hc.1) (iff_false_intro hc.2) Iff.rfl

theorem marks_alloc (h : Host) (d : Desc) : Marks False False (d = ⟨.null, true⟩) h (h.alloc d) :=
  ⟨⟨[], (List.append_nil _).symm, by simp⟩, _, rfl, by simp⟩

theorem unmarked_alloc {d : Desc} (hd : d ≠ ⟨.null, true⟩) : Unmarked h (h.alloc d) :=
  (marks_alloc h d).congr Iff.rfl Iff.rfl (iff_false_intro hd)

theorem unmarked_close (h : Host) (fd : Int) : Unmarked h (h.close fd) := by
  rw [Host.close]
  split
  · exact unmarked_of_eq rfl rfl
  · exact unmarked_of_eq rfl rfl

theorem Marks.dup_iff (hm : Marks dup setup stood h h₁) : Failed (· = .strdup) h h₁ ↔ dup := by
  obtain ⟨l, hl, hdup, -⟩ := hm.failed
  rw [Failed, hl, List.drop_left, hdup]

theorem Marks.setup_iff (hm : Marks dup setup stood h h₁) : Failed Call.IsSetup h h₁ ↔ setup := by
  obtain ⟨l, hl, -, hsetup⟩ := hm.failed
  rw [Failed, hl, List.drop_left, hsetup]

theorem Marks.stood_iff (hm : Marks dup setup stood h h₁) : StoodIn h h₁ ↔ stood := by
  obtain ⟨l, hl, hstood⟩ := hm.opened
  rw [StoodIn, hl, List.drop_left, hstood]

end Marks

/-! ### The filters -/

/-- No output is opened, and `ok` says that no call for the filters has failed. -/
structure SetUp (ok : Bool) (h h' : Host) : Prop where
  marks : Marks False (ok = false) False h h'
  outputs : h'.outputs = h.outputs

section SetUp

variable {h h₁ h₂ : Host} {ok ok' : Bool} {env : Env}

theorem SetUp.trans (h01 : SetUp ok h h₁) (h12 : SetUp ok' h₁ h₂) : SetUp (ok && ok') h h₂ where
  marks := (h01.marks.trans h12.marks).congr or_self_iff Bool.and_eq_false_iff.symm or_self_iff
  outputs := h12.outputs.trans h01.outputs

theorem SetUp.after (h12 : SetUp ok h₁ h₂) (h01 : SetUp true h h₁) : SetUp ok h h₂ := h01.trans h12

theorem SetUp.unmarked (hs : SetUp true h h₁) : Unmarked h h₁ :=
  hs.marks.congr Iff.rfl (iff_false_intro Bool.noConfusion) Iff.rfl

theorem setUp_of_unmarked (hm : Unmarked h h₁) (hout : h₁.outputs = h.outputs) :
    SetUp true h h₁ where
  marks := hm.congr Iff.rfl (by simp) Iff.rfl
  outputs := hout

theorem setUp_of_eq (hfailed : h₁.failed = h.failed) (hopened : h₁.opened = h.opened)
    (hout : h₁.outputs = h.outputs) : SetUp true h h₁ :=
  setUp_of_unmarked (unmarked_of_eq hfailed hopened) hout

theorem setUp_fail {c : Call} (hc : c.IsSetup) : SetUp false h (h.fail c) where
  marks := (marks_fail h c).congr (iff_false_intro (by rintro rfl; simp [Call.IsSetup] at hc))
    (by simpa using hc) Iff.rfl
  outputs := rfl

theorem setUp_fail_other {c : Call} (hc : c ≠ .strdup ∧ ¬c.IsSetup) : SetUp true h (h.fail c) :=
  setUp_of_unmarked (unmarked_fail hc) rfl

theorem setUp_alloc {d : Desc} (hd : d ≠ ⟨.null, true⟩) : SetUp true h (h.alloc d) :=
  setUp_of_unmarked (unmarked_alloc hd) rfl

theorem setUp_log (h : Host) (l : List (Prio × Str)) : SetUp true h { h with log := l } :=
  setUp_of_eq rfl rfl rfl

theorem setUp_close (h : Host) (fd : Int) : SetUp true h (h.close fd) :=
  setUp_of_unmarked (unmarked_close h fd) (close_sameFiles h fd).2

theorem leads_pipe2_setUp : Leads pipe2 h fun r h' => SetUp r.isOk h h' := by
  refine leads_syscall (fun e => setUp_fail (Or.inl rfl)) ?_
  refine meets_bind (meets_get (meets_bind (meets_modify ?_)))
  refine meets_bind (meets_alloc (meets_bind (meets_alloc (meets_pure ?_))))
  have hpipes : SetUp true h { h with pipes := h.pipes + 1 } := setUp_of_eq rfl rfl rfl
  exact (hpipes.trans (setUp_alloc (by simp))).trans (setUp_alloc (by simp))

theorem leads_spawnProc_setUp (cmd : Str) (infd outfd : Int) (arg1 arg2 : Option Str) :
    Leads (spawnProc env cmd infd outfd arg1 arg2) h fun r h' => SetUp r.isSome h h' := by
  refine meets_bind (leads_syscall (fun e => ?_) ?_)
  · have hfork : SetUp false h (h.fail .fork) := setUp_fail (Or.inr (Or.inr rfl))
    exact meets_bind (meets_modify (meets_pure (hfork.trans (setUp_of_eq rfl rfl rfl))))
  · exact meets_bind (meets_get (meets_bind (meets_modify
      (meets_pure (meets_pure (setUp_of_eq rfl rfl rfl))))))

theorem leads_spawnFilter_setUp (cmd : Str) (infd outfd : Int) :
    Leads (spawnFilter env cmd infd outfd) h fun r h' => SetUp r.isSome h h' := by
  refine meets_bind (leads_syscall (fun e => ?_) (meets_modify ?_))
  · have hmalloc : SetUp false h (h.fail .malloc) := setUp_fail (Or.inr (Or.inl rfl))
    exact meets_bind (meets_modify (meets_pure (hmalloc.trans (setUp_of_eq rfl rfl rfl))))
  have hnode : SetUp true h { h with nodes := h.nodes + 1 } := setUp_of_eq rfl rfl rfl
  refine (leads_spawnProc_setUp cmd infd outfd none none).andThen fun r h₁ hr => ?_
  have hfork := hnode.trans hr
  cases r with
  | none => exact meets_bind (meets_modify (meets_pure (hfork.trans (setUp_of_eq rfl rfl rfl))))
  | some pid => exact meets_bind (meets_modify (meets_pure (hfork.trans (setUp_of_eq rfl rfl rfl))))

theorem leads_filterEnds_setUp (nextIn nextOut : Int) (more : Bool) :
    Leads (filterEnds env nextIn nextOut more) h fun r h' => SetUp r.isSome h h' := by
  cases more with
  | false => exact meets_pure (setUp_of_eq rfl rfl rfl)
  | true =>
    refine leads_pipe2_setUp.andThen fun p h₁ hp => ?_
    cases p with
    | error e => exact meets_bind (meets_modify (meets_pure (hp.trans (setUp_of_eq rfl rfl rfl))))
    | ok p => exact meets_pure hp

theorem leads_spawnFilters_setUp (nextOut : Int) (fs : List Str) (nextIn : Int)
    (done : List RunFilter) :
    Leads (spawnFilters env nextOut fs nextIn done) h fun r h' => SetUp r.isOk h h' := by
  induction fs generalizing nextIn done h with
  | nil => exact meets_pure (setUp_of_eq rfl rfl rfl)
  | cons f fs ih =>
    refine (leads_filterEnds_setUp nextIn nextOut _).andThen fun ends h₁ hends => ?_
    cases ends with
    | none => exact meets_pure hends
    | some x =>
      refine (leads_spawnFilter_setUp f x.1 x.2.1).andThen fun pid h₂ hpid => ?_
      cases pid with
      | none => exact meets_pure (hends.trans hpid)
      | some pid =>
        refine meets_bind (meets_modify (meets_bind (meets_modify (ih _ _ |>.imp ?_))))
        intro r h₃ hr
        have hclose := (setUp_close h₂ x.1).trans (setUp_close (h₂.close x.1) x.2.1)
        exact ((hends.trans hpid).trans hclose).trans hr

theorem leads_killFilters_setUp (fs : List RunFilter) :
    Leads (killFilters fs) h fun _ h' => SetUp true h h' := by
  induction fs generalizing h with
  | nil => exact meets_pure (setUp_of_eq rfl rfl rfl)
  | cons f fs ih =>
    refine meets_bind (meets_modify (meets_bind (meets_modify (meets_bind (meets_modify ?_)))))
    exact ih.imp fun _ h' hr => hr.after (setUp_of_eq rfl rfl rfl)

theorem leads_cacheNull_setUp : Leads cacheNull h fun _ h' => SetUp true h h' := by
  refine meets_bind (meets_get ?_)
  split
  · refine meets_bind (leads_syscall (fun e => ?_) (meets_alloc ?_))
    · exact meets_pure (setUp_fail_other (by decide))
    · exact meets_modify ((setUp_alloc (by simp)).trans (setUp_of_eq rfl rfl rfl))
  · exact meets_pure (setUp_of_eq rfl rfl rfl)

theorem leads_openDevnull_setUp : Leads openDevnull h fun _ h' => SetUp true h h' := by
  refine leads_cacheNull_setUp.andThen fun _ h₁ h01 => meets_bind (meets_get ?_)
  have hdup : Leads (dup h₁.null) h₁ fun _ h' => SetUp true h₁ h' := by
    refine meets_bind (meets_get ?_)
    split
    · exact meets_pure (setUp_of_eq rfl rfl rfl)
    · refine leads_syscall (fun e => ?_) (meets_alloc (setUp_alloc (by simp)))
      exact setUp_fail_other (by decide)
  exact hdup.andThen fun r h₂ h12 => meets_pure (h01.trans h12)

theorem leads_err1_setUp (r : RunOutput) (nextIn nextOut : Int) :
    Leads (err1 r nextIn nextOut) h fun a h' => SetUp true h h' ∧ a.1 = -1 ∧
      a.2.outputFilename = r.outputFilename := by
  refine (leads_killFilters_setUp r.filter).andThen fun _ h₁ h01 => ?_
  refine meets_bind (meets_modify (meets_bind (meets_modify (meets_bind (meets_modify ?_)))))
  have hclose := ((setUp_close h₁ r.outputFd).trans (setUp_close _ nextIn)).trans
    (setUp_close _ nextOut)
  refine leads_openDevnull_setUp.andThen fun fd h₂ h12 => meets_pure ⟨?_, rfl, rfl⟩
  exact (h01.trans hclose).trans h12

/-- From `opened` on: 0 is returned just if no call for the filters fails, and the name
stays in any case. -/
theorem leads_setupFilters_setUp (c : ConfOutput) (fd : Int) (r : RunOutput) :
    Leads (setupFilters env c fd r) h fun a h' => SetUp (decide (a.1 = 0)) h h' ∧
      a.2.outputFilename = r.outputFilename := by
  rw [setupFilters]
  split
  · exact meets_pure ⟨setUp_of_eq rfl rfl rfl, rfl⟩
  refine leads_pipe2_setUp.andThen fun p h₁ hp => ?_
  cases p with
  | error e =>
    refine meets_bind (meets_modify (meets_bind (meets_modify (meets_pure ⟨?_, rfl⟩))))
    exact (hp.trans (setUp_log h₁ _)).trans (setUp_close _ fd)
  | ok p =>
    refine (leads_spawnFilters_setUp fd c.filter p.1 []).andThen fun q h₂ hq => ?_
    have hboth := hp.trans hq
    cases q with
    | ok fs => exact meets_pure ⟨hboth, rfl⟩
    | error x =>
      refine (leads_err1_setUp _ x.2 fd).imp ?_
      rintro a h₃ ⟨h23, hret, hname⟩
      rw [hret]
      exact ⟨hboth.trans h23, hname⟩

end SetUp

/-! ### The loop -/

def IsKept (c : ConfOutput) (h : Host) (name : Str) : Prop := c.exist = .keep ∧ name ∈ h.files

instance (c : ConfOutput) (h : Host) (name : Str) : Decidable (IsKept c h name) :=
  inferInstanceAs (Decidable (_ ∧ _))

structure Unnamed (c : ConfOutput) (h₀ : Host) (v : OpenVars) (h : Host) : Prop where
  marks : Unmarked h₀ h
  outputs : h.outputs = h₀.outputs
  first : c.exist = .keep → v.cursor = none → h.files = h₀.files
  again : c.exist = .keep → ∀ cur, v.cursor = some cur →
    (cur.result ∈ h.files ↔ cur.result ∈ h₀.files)

/-- What the loop comes to: it has opened the file, unless that is kept. -/
def NamedRes (c : ConfOutput) (h₀ : Host) : Option (Nat × Str) → Host → Prop
  | none, h => Unmarked h₀ h
  | some (_, name), h => Marks False False (IsKept c h₀ name) h₀ h ∧
      if IsKept c h₀ name then h.outputs = h₀.outputs else Wrote h₀ h name

theorem notMem_dirsOf (name : Str) : name ∉ dirsOf name := by
  intro hmem
  obtain ⟨k, hk, htake⟩ := List.mem_map.mp hmem
  have hlt := List.mem_range.mp (List.mem_filter.mp hk).1
  have hlen := congrArg List.length htake
  rw [List.length_take] at hlen
  omega

section Loop

variable {env : Env} {c : ConfOutput} {template : Str} {h₀ h : Host}

theorem leads_openFile_marks (name : Str) (excl : Bool) :
    Leads (openFile name excl) h fun _ h' => Unmarked h h' := by
  refine meets_bind (meets_get (meets_creating (fun e => ?_) fun files => ?_))
  · exact unmarked_fail (by decide)
  · refine meets_bind (meets_modify (meets_alloc ?_))
    exact (unmarked_alloc (by simp)).after (unmarked_of_eq rfl rfl)

theorem leads_makePath_marks (ds : List Str) :
    Leads (makePath env ds) h fun _ h' => Unmarked h h' := by
  induction ds generalizing h with
  | nil => exact meets_pure (unmarked_of_eq rfl rfl)
  | cons d ds ih =>
    have hfail : Unmarked h (h.fail .mkdir) := unmarked_fail (by decide)
    refine meets_bind (meets_creating (fun e => ?_) fun files => meets_pure ?_)
    · dsimp only
      split
      · exact ih.imp fun _ h' hr => hr.after hfail
      · exact meets_bind (meets_modify (meets_pure (hfail.before (unmarked_of_eq rfl rfl))))
    · exact ih.imp fun _ h' hr => hr.after (unmarked_of_eq rfl rfl)

theorem leads_openFailed_named {cur : Cursor} {e : Errno} (v : OpenVars) (hm : Unmarked h₀ h)
    (hout : h.outputs = h₀.outputs)
    (hfiles : c.exist = .keep → (cur.result ∈ h.files ↔ cur.result ∈ h₀.files))
    (hwhy : e = .eexist → cur.result ∈ h.files) :
    Leads (openFailed env c v cur e) h
      (fun r h' => Sum.elim (Unnamed c h₀ · h') (NamedRes c h₀ · h') r) := by
  have hlog : ∀ l, Unmarked h₀ { h with log := l } := fun l => hm.before (unmarked_of_eq rfl rfl)
  rw [openFailed]
  split
  · rename_i hkeep
    have hkept : IsKept c h₀ cur.result := ⟨hkeep.2, (hfiles hkeep.2).mp (hwhy hkeep.1)⟩
    refine meets_bind (meets_keepNotice trivial ?_)
    refine meets_bind (leads_syscall (fun e => ?_) (meets_alloc ?_))
    · have hfail : Unmarked h (h.fail .openNull) := unmarked_fail (by decide)
      refine meets_bind (meets_modify (meets_pure ?_))
      exact (hm.before hfail).before (unmarked_of_eq rfl rfl)
    · refine meets_pure ⟨?_, ?_⟩
      · exact ((marks_alloc h _).after hm).congr Iff.rfl Iff.rfl (iff_of_true rfl hkept)
      · rw [if_pos hkept]
        exact hout
  split
  · rename_i hseq
    have hno : c.exist ≠ .keep := by
      rw [hseq.2]
      decide
    rw [nextName]
    split
    · exact meets_fault trivial
    split
    · exact meets_pure ⟨hm, hout, fun hx _ => absurd hx hno, fun hx => absurd hx hno⟩
    · exact meets_bind (meets_modify (meets_pure (hlog _)))
  split
  · have hpath := (ends_makePath (P := fun _ => True) (h := h) env (dirsOf cur.result)).meets
      (K := fun _ _ => True) fun _ _ => trivial
    refine (hpath.and (leads_makePath_marks _)).andThen ?_
    rintro b h₁ ⟨⟨-, hout₁, hdirs⟩, hm₁⟩
    cases b with
    | false => exact meets_pure (hm₁.after hm)
    | true =>
      refine meets_pure ⟨hm₁.after hm, hout₁.trans hout,
        fun _ hc => absurd hc (Option.some_ne_none _), fun hx cur' hc => ?_⟩
      rw [← Option.some.inj hc, hdirs _ (notMem_dirsOf _)]
      exact hfiles hx
  · exact meets_bind (meets_modify (meets_pure (hlog _)))

theorem leads_attempt_named {cur : Cursor} (v : OpenVars) (hm : Unmarked h₀ h)
    (hout : h.outputs = h₀.outputs)
    (hfiles : c.exist = .keep → (cur.result ∈ h.files ↔ cur.result ∈ h₀.files)) :
    Leads (attempt env c v cur) h
      (fun r h' => Sum.elim (Unnamed c h₀ · h') (NamedRes c h₀ · h') r) := by
  have hopen := (ends_openFile (P := fun _ => True) (h := h) cur.result c.exist.excl).meets
    (K := fun _ _ => True) fun _ _ => trivial
  refine (hopen.and (leads_openFile_marks _ _)).andThen ?_
  rintro r h₁ ⟨hr, hm₁⟩
  have hm₁ := hm₁.after hm
  cases r with
  | ok fd =>
    obtain ⟨hx, -, hnew⟩ := hr
    have hno : ¬IsKept c h₀ cur.result := by
      intro hkept
      refine hx ⟨?_, (hfiles hkept.1).mpr hkept.2⟩
      rw [hkept.1]
      rfl
    refine meets_pure ⟨hm₁.congr Iff.rfl Iff.rfl (iff_of_false id hno), ?_⟩
    rw [if_neg hno]
    exact ⟨_, hnew.trans (by rw [hout])⟩
  | error e =>
    obtain ⟨hsame, hwhy⟩ := hr
    refine leads_openFailed_named v hm₁ (hsame.2.trans hout) (hsame.1 ▸ hfiles) fun he => ?_
    rw [hsame.1]
    rcases hwhy with ⟨-, -, hmem⟩ | ⟨hne, -⟩
    · exact hmem
    · exact absurd he hne

theorem leads_openLoop_named :
    Leads (forever (openTurn env c template) (OpenVars.start env c)) h₀ (NamedRes c h₀) := by
  refine meets_forever (Unnamed c h₀) (fun _ _ _ => trivial) ?_
    ⟨unmarked_of_eq rfl rfl, rfl, fun _ _ => rfl, fun _ cur hc => by cases hc⟩
  intro v h hu
  rw [openTurn]
  cases hc : v.cursor with
  | some cur => exact leads_attempt_named v hu.marks hu.outputs fun hx => hu.again hx cur hc
  | none =>
    refine (leads_expandPath v).andThen fun o h₁ hl => ?_
    obtain ⟨l, rfl⟩ := hl
    have hm : Unmarked h₀ { h with log := l } := hu.marks.before (unmarked_of_eq rfl rfl)
    cases o with
    | none => exact meets_pure hm
    | some cur =>
      refine leads_attempt_named v hm hu.outputs fun hx => ?_
      show _ ∈ h.files ↔ _
      rw [hu.first hx hc]

end Loop

/-! ### The name -/

theorem Wrote.inj {h h' : Host} {name name' : Str} (hw : Wrote h h' name) (hw' : Wrote h h' name') :
    name = name' := by
  obtain ⟨new, hout⟩ := hw
  obtain ⟨new', hout'⟩ := hw'
  have hnames := List.append_cancel_left (hout.symm.trans hout')
  exact (Prod.mk.inj (List.cons.inj hnames).1).1

theorem not_wrote {h h' : Host} {name : Str} (hout : h'.outputs = h.outputs) :
    ¬Wrote h h' name := by
  intro hw
  obtain ⟨new, hnew⟩ := hw
  exact List.cons_ne_nil _ _ (List.append_cancel_left
    ((hnew.symm.trans hout).trans (List.append_nil _).symm))

/-- What the loop has come to says which file was opened. -/
theorem NamedRes.wrote_iff {c : ConfOutput} {h h₁ h' : Host} {fd : Nat} {name : Str}
    (hres : NamedRes c h (some (fd, name)) h₁) (hout : h'.outputs = h₁.outputs) (x : Str) :
    Wrote h h' x ↔ ¬IsKept c h name ∧ name = x := by
  have hres' := hres.2
  by_cases hkept : IsKept c h name
  · rw [if_pos hkept] at hres'
    exact iff_of_false (not_wrote (hout.trans hres')) fun hx => hx.1 hkept
  · rw [if_neg hkept] at hres'
    obtain ⟨new, hnew⟩ := hres'
    have hw : Wrote h h' name := ⟨new, hout.trans hnew⟩
    rw [and_iff_right hkept]
    exact ⟨fun hx => hw.inj hx, fun hx => hx ▸ hw⟩

/-- What `open_output` comes to: a stream without a file of its own, or the file `name`
as it was found or opened, and what has become of the filters. -/
inductive NamedEnd (c : ConfOutput) (r : RunOutput) (h : Host) (a : OpenOutput) (h' : Host) : Prop
  | nothing {setup : Prop} (hname : a.2.outputFilename = r.outputFilename)
      (hnot : a.1 ≠ 0 ∨ h'.outputs = h.outputs) (hmarks : Marks False setup False h h')
      (hsetup : setup → c.output = none)
  | sink (name : Str) (hname : a.2.outputFilename = none ∨ a.2.outputFilename = some name)
      (hwrote : ∀ x, Wrote h h' x ↔ ¬IsKept c h name ∧ name = x)
      (hmarks : Marks (a.2.outputFilename = none) (a.1 ≠ 0) (IsKept c h name) h h')
      (houtput : c.output ≠ none)

section Named

variable {env : Env} {c : ConfOutput} {r : RunOutput} {h h' : Host} {a : OpenOutput}

theorem leads_strdup_marks (name : Str) : Leads (strdup name) h fun f h' =>
    (f = none ∨ f = some name) ∧ Marks (f = none) False False h h' ∧ h'.outputs = h.outputs := by
  refine meets_bind (leads_syscall (fun e => meets_pure ?_) (meets_pure (meets_pure ?_)))
  · refine ⟨Or.inl rfl, (marks_fail h _).congr (iff_of_true rfl rfl) ?_ Iff.rfl, rfl⟩
    simp [Call.IsSetup]
  · refine ⟨Or.inr rfl, (unmarked_of_eq rfl rfl).congr ?_ Iff.rfl Iff.rfl, rfl⟩
    simp

theorem leads_err0_named (hm : Unmarked h h') :
    Leads (err0 r) h' fun a h₁ => NamedEnd c r h a h₁ := by
  refine leads_openDevnull_setUp.andThen fun fd h₁ h1 => meets_pure ?_
  exact .nothing rfl (Or.inl (Int.negSucc_ne_zero 0)) (h1.unmarked.after hm) False.elim

theorem leads_openOutput_named (env : Env) (c : ConfOutput) (r : RunOutput) (h : Host) :
    Leads (openOutput env c r) h fun a h' => NamedEnd c r h a h' := by
  have hstart : Unmarked h h := unmarked_of_eq rfl rfl
  rw [openOutput, openSink]
  cases hout : c.output with
  | none =>
    refine meets_bind (leads_openDevnull_setUp.andThen fun fd h₁ h1 => ?_)
    split
    · refine meets_bind (meets_modify (meets_pure (leads_err0_named ?_)))
      exact h1.unmarked.before (unmarked_of_eq rfl rfl)
    · refine meets_pure ((leads_setupFilters_setUp c fd _).imp ?_)
      rintro a h₂ ⟨h2, hname⟩
      have hboth := h1.trans h2
      exact .nothing hname (Or.inr hboth.outputs) hboth.marks fun _ => hout
  | some template =>
    dsimp only
    split
    · refine meets_bind (leads_openLoop_named.andThen fun l h₁ hl => ?_)
      cases l with
      | none => exact meets_pure (leads_err0_named hl)
      | some f =>
        refine (leads_strdup_marks f.2).andThen ?_
        rintro g h₂ ⟨hg, hdup, hout₂⟩
        refine meets_pure ((leads_setupFilters_setUp c f.1 _).imp ?_)
        rintro a h₃ ⟨h3, hname⟩
        have hname : a.2.outputFilename = g := hname
        refine .sink f.2 ?_ (hl.wrote_iff (h3.outputs.trans hout₂)) ?_ ?_
        · rwa [hname]
        · refine ((hl.1.trans hdup).trans h3.marks).congr ?_ ?_ ?_
          · simp [hname]
          · simp
          · simp
        · rw [hout]
          exact Option.some_ne_none _
    · refine meets_bind (meets_bind (meets_modify (meets_pure ?_)))
      exact leads_err0_named (unmarked_of_eq rfl rfl)

/-- The file that is stood in for was there before, and is kept. -/
theorem leads_openOutput_stoodIn (env : Env) (c : ConfOutput) (r : RunOutput) (h : Host) :
    Leads (openOutput env c r) h fun a h' => StoodIn h h' → c.exist = .keep ∧
      ∃ name ∈ h.files, a.2.outputFilename = none ∨ a.2.outputFilename = some name := by
  refine (leads_openOutput_named env c r h).imp fun a h' hend hstood => ?_
  cases hend with
  | nothing hname hnot hmarks hsetup => exact absurd (hmarks.stood_iff.mp hstood) id
  | sink name hname hwrote hmarks houtput =>
    obtain ⟨hkeep, hmem⟩ := hmarks.stood_iff.mp hstood
    exact ⟨hkeep, name, hmem, hname⟩

theorem NamedEnd.named_iff (hend : NamedEnd c r h a h') (hr : r.outputFilename = none) :
    (∀ name, a.2.outputFilename = some name ↔ a.1 = 0 ∧ Wrote h h' name) ↔ NamedWell c h h' := by
  cases hend with
  | nothing hname hnot hmarks hsetup =>
    refine iff_of_true (fun name => ?_) fun hout => ?_
    · rw [hname, hr]
      refine iff_of_false (Option.some_ne_none name).symm fun hw => ?_
      rcases hnot with hne | hsame
      · exact hne hw.1
      · exact not_wrote hsame hw.2
    · rw [hmarks.dup_iff, hmarks.stood_iff, hmarks.setup_iff]
      exact iff_of_false id fun hno => hno.elim id fun hs => hout (hsetup hs)
  | sink name hname hwrote hmarks houtput =>
    rw [NamedWell, forall_prop_of_true houtput, hmarks.dup_iff, hmarks.stood_iff, hmarks.setup_iff]
    -- all is well with no name to tell, or with a sink to tell about
    have hsink : (IsKept c h name ∨ a.1 ≠ 0) ↔ ¬(a.1 = 0 ∧ ¬IsKept c h name) := by
      rw [not_and_or, not_not, or_comm]
    rw [hsink]
    rcases hname with hf | hf
    · rw [hf]
      refine ⟨fun hall => iff_of_true rfl fun hs => ?_, fun hwell x => ?_⟩
      · have hthis := (hall name).mpr ⟨hs.1, (hwrote name).mpr ⟨hs.2, rfl⟩⟩
        cases hthis
      · refine iff_of_false (Option.some_ne_none x).symm fun hx => hwell.mp rfl ⟨hx.1, ?_⟩
        exact ((hwrote x).mp hx.2).1
    · rw [hf]
      refine ⟨fun hall => iff_of_false (Option.some_ne_none name) (not_not.mpr ?_), fun hwell x => ?_⟩
      · have hthis := (hall name).mp rfl
        exact ⟨hthis.1, ((hwrote name).mp hthis.2).1⟩
      · have hs : a.1 = 0 ∧ ¬IsKept c h name :=
          not_not.mp fun hno => Option.some_ne_none name (hwell.mpr hno)
        rw [hwrote, Option.some.injEq, and_iff_right hs.2, and_iff_right hs.1]

end Named

/-! ### Who is told -/

section Told

variable {P P' : Str → Prop} {h₀ h h' : Host} {env : Env}

theorem Told.refl (P P' : Str → Prop) (h : Host) : Told P P' h h :=
  ⟨[], (List.append_nil _).symm, by simp⟩

theorem Told.of_kids (ht : Told P P' h₀ h) (hk : h'.kids = h.kids) : Told P P' h₀ h' := by
  obtain ⟨l, hl, hall⟩ := ht
  exact ⟨l, hk.trans hl, hall⟩

theorem Told.spawn (ht : Told P P' h₀ h) {arg1 arg2 : Option Str} (h1 : ∀ x ∈ arg1, P x)
    (h2 : ∀ x ∈ arg2, P' x) (cmd : Str) (infd outfd : Int) :
    Told P P' h₀ (h.spawn cmd infd outfd arg1 arg2) := by
  obtain ⟨l, hl, hall⟩ := ht
  refine ⟨l ++ [⟨cmd, arg1, arg2, h.kids.length + 1, childFds h.fds infd outfd⟩], ?_,
    fun k hk => ?_⟩
  · rw [← List.append_assoc, ← hl]
    rfl
  · rcases List.mem_append.mp hk with hk | hk
    · exact hall k hk
    · rw [List.mem_singleton.mp hk]
      exact ⟨h1, h2⟩

theorem hostInv_told (P P' : Str → Prop) (h₀ : Host) :
    HostInv (Told P P' h₀) fun _ => True where
  aside _ _ ht ha := ht.of_kids (congrArg Procs.kids ha.procs)
  alloc _ _ ht := ⟨ht.of_kids rfl, trivial⟩
  close h fd ht _ := ht.of_kids (close_sameProcs h fd).kids
  neg _ _ := trivial

theorem always_spawnProc_told {arg1 arg2 : Option Str} (h1 : ∀ x ∈ arg1, P x)
    (h2 : ∀ x ∈ arg2, P' x) (cmd : Str) (infd outfd : Int) :
    Always (fun _ => True) (Told P P' h₀) (spawnProc env cmd infd outfd arg1 arg2)
      fun _ => True := by
  have hI := hostInv_told P P' h₀
  refine always_bind (always_syscall hI trivial .fork (R := fun _ => True) ?_) fun r _ => ?_
  · refine always_get_bind fun h _ => always_bind (always_modify fun h ht => ?_) fun _ _ =>
      always_pure trivial
    exact ht.spawn h1 h2 cmd infd outfd
  cases r with
  | error e => exact always_bind (always_logmsg hI _ _) fun _ _ => always_pure trivial
  | ok pid => exact always_pure trivial

theorem always_notifyAll_told {name : Str} (hname : P name) (cmds : List Str) :
    Always (fun _ => True) (Told P P' h₀) (notifyAll env name cmds) fun _ => True := by
  have h1 : ∀ x ∈ some name, P x := fun x hx => Option.some.inj hx ▸ hname
  induction cmds with
  | nil => exact always_pure trivial
  | cons cmd cmds ih =>
    refine always_bind (always_open (hostInv_told P P' h₀) trivial _ _) fun fd _ => ?_
    exact always_bind (always_spawnProc_told h1 (by simp) _ _ _) fun _ _ => ih

theorem always_notifyBoth_told {name1 name2 : Str} (h1 : P name1) (h2 : P' name2)
    (cmds : List Str) :
    Always (fun _ => True) (Told P P' h₀) (notifyBoth env name1 name2 cmds) fun _ => True := by
  have hI := hostInv_told P P' h₀
  have h1 : ∀ x ∈ some name1, P x := fun x hx => Option.some.inj hx ▸ h1
  have h2 : ∀ x ∈ some name2, P' x := fun x hx => Option.some.inj hx ▸ h2
  induction cmds with
  | nil => exact always_pure trivial
  | cons cmd cmds ih =>
    refine always_bind (always_openDevnull hI trivial) fun fd _ => ?_
    refine always_bind (always_spawnProc_told h1 h2 _ _ _) fun _ _ => ?_
    exact always_bind (always_close hI trivial) fun _ _ => ih

section Waiting

variable {I : Host → Prop} (hI : ∀ h h' : Host, h'.kids = h.kids → I h → I h')
include hI

theorem always_waitFilter_kids (f : RunFilter) :
    Always (fun _ => True) I (waitFilter env f) fun _ => True := by
  have hlog : ∀ prio text, Always (fun _ => True) I (logmsg prio text) fun _ => True :=
    fun _ _ => always_modify fun h hs => hI h _ rfl hs
  have hwait : Always (fun _ => True) I (waitpid f.pid) fun _ => True :=
    always_modify fun h hs => hI h _ rfl hs
  refine always_bind hwait fun _ _ => always_bind (always_ask trivial) fun w _ => ?_
  split
  · exact hlog _ _
  · split
    · exact hlog _ _
    · exact hlog _ _
  · exact hlog _ _
  · exact always_pure trivial

/-- Nobody is started while the filters are waited for. -/
theorem always_waitFilters_kids (fs : List RunFilter) :
    Always (fun _ => True) I (waitFilters env fs) fun _ => True := by
  induction fs with
  | nil => exact always_pure trivial
  | cons f fs ih =>
    refine always_bind (always_waitFilter_kids hI f) fun _ _ => ?_
    exact always_bind (always_modify fun h hs => hI h _ rfl hs) fun _ _ => ih

end Waiting

theorem always_closeOutput_told {c : ConfOutput} {r : RunOutput}
    (hname : ∀ x, r.outputFilename = some x → P x) :
    Always (fun _ => True) (Told P P' h₀) (closeOutput env c r) fun _ => True := by
  rw [closeOutput]
  split
  · exact always_pure trivial
  refine always_bind (always_close (hostInv_told P P' h₀) trivial) fun _ _ => ?_
  refine always_bind (always_waitFilters_kids (fun h h' hk ht => ht.of_kids hk) _) fun _ _ => ?_
  split
  · rename_i name hf
    exact always_bind (always_notifyAll_told (hname name hf) _) fun _ _ => always_pure trivial
  · exact always_pure trivial

theorem always_notifyInfoCore_told {info core : RunOutput} {cmds : List Str}
    (h1 : ∀ x, info.outputFilename = some x → P x) (h2 : ∀ x, core.outputFilename = some x → P' x) :
    Always (fun _ => True) (Told P P' h₀) (notifyInfoCore env info core cmds) fun _ => True := by
  rw [notifyInfoCore]
  split
  · rename_i name1 name2 hf1 hf2
    exact always_notifyBoth_told (h1 name1 hf1) (h2 name2 hf2) cmds
  · exact always_pure trivial

theorem told_state {α : Type} {m : HostRun α} {R : α → Prop}
    (hm : Always (fun _ => True) (Told P P' h) m R) (o : List Answer) : Told P P' h (m h o).state :=
  Meets.state ((hm h (Told.refl P P' h)).mono (fun _ _ ha => ha.1) fun _ _ hk => hk.2) o

theorem tellsOnly_of {f : Option Str} (hf : ∀ x, f = some x → P x) : TellsOnly f P := by
  rintro env c r other cmds h o rfl
  refine ⟨?_, ?_, ?_⟩
  · exact told_state (always_closeOutput_told hf) o
  · exact told_state (always_notifyInfoCore_told hf fun _ _ => trivial) o
  · exact told_state (always_notifyInfoCore_told (fun _ _ => trivial) hf) o

end Told

/-- **The name of the file that was opened**, and of nothing else, is told to the
others exactly if all is well at `strdup`. -/
theorem openOutput_named_iff {env : Env} {c : ConfOutput} {r : RunOutput} {h h' : Host}
    {o o' : List Answer} {a : OpenOutput} (hr : r.outputFilename = none)
    (hrun : openOutput env c r h o = .done a h' o') :
    ((∀ name, a.2.outputFilename = some name ↔ a.1 = 0 ∧ Wrote h h' name) ∧
      TellsOnly a.2.outputFilename fun name => a.1 = 0 ∧ Wrote h h' name) ↔
      NamedWell c h h' := by
  have hend := (leads_openOutput_named env c r h).of_done (fun _ _ => trivial) hrun
  rw [← hend.named_iff hr]
  exact ⟨And.left, fun hall => ⟨hall, tellsOnly_of fun name => (hall name).mp⟩⟩

/-- A file that was there is kept, and its name told. -/
theorem openOutput_named_iff_keep :
    let c : ConfOutput := { output := some (lit "/a"), exist := .keep }
    let env := Env.plain 1 none
    let h := Host.std [lit "/a"]
    ∃ a h' o', openOutput env c {} h [.ok, .ok, .ok] = .done a h' o' ∧
      (((∀ name, a.2.outputFilename = some name ↔ a.1 = 0 ∧ Wrote h h' name) ∧
        TellsOnly a.2.outputFilename fun name => a.1 = 0 ∧ Wrote h h' name) ↔
        NamedWell c h h') := by
  intro c env h
  have hafter : (openOutput env c {} h [.ok, .ok, .ok]).After fun _ _ => True := by
    decide +kernel
  obtain ⟨a, h', o', hrun, -⟩ := hafter.exists
  exact ⟨a, h', o', hrun, openOutput_named_iff rfl hrun⟩

/-- The name of a file that is kept is told, and so is that of a file whose filter
could not be started. -/
theorem not_openOutput_named :
    let env := Env.plain 1 none
    let keep : ConfOutput := { output := some (lit "/a"), exist := .keep, notify := [lit "n @1"] }
    let fails : ConfOutput := { output := some (lit "/a"), exist := .overwrite, filter := [lit "f"] }
    (∃ a h' o', openOutput env keep {} (Host.std [lit "/a"]) [.ok, .ok, .ok] = .done a h' o' ∧
      a.2.outputFilename = some (lit "/a") ∧ ¬Wrote (Host.std [lit "/a"]) h' (lit "/a") ∧
      (closeOutput env keep a.2 h' [.ok, .ok]).After fun _ h₁ =>
        h₁.kids.map Kid.arg1 = [some (lit "/a")]) ∧
    ∃ a h' o', openOutput env fails {} (Host.std []) [.ok, .ok, .err .other] = .done a h' o' ∧
      a.2.outputFilename = some (lit "/a") ∧ a.1 ≠ 0 := by
  intro env keep fails
  have hkeep : (openOutput env keep {} (Host.std [lit "/a"]) [.ok, .ok, .ok]).After
      fun a h' => a.2.outputFilename = some (lit "/a") ∧ h'.outputs = [] ∧
        (closeOutput env keep a.2 h' [.ok, .ok]).After fun _ h₁ =>
          h₁.kids.map Kid.arg1 = [some (lit "/a")] := by
    decide +kernel
  have hfails : (openOutput env fails {} (Host.std []) [.ok, .ok, .err .other]).After
      fun a _ => a.2.outputFilename = some (lit "/a") ∧ a.1 ≠ 0 := by
    decide +kernel
  constructor
  · obtain ⟨a, h', o', hrun, hname, hout, hkids⟩ := hkeep.exists
    exact ⟨a, h', o', hrun, hname, not_wrote hout, hkids⟩
  · exact hfails.exists

end Crashinfo
