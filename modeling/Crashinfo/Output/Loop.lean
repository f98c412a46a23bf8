import Crashinfo.Output.Names

/-!
# The loop of `restart` and `reopen`

What one turn of the loop comes to, for all answers of the system at once:
`OpenTurnRes` is the list of the cases, with the reason of each.  The lemmas before
it say the same of the pieces a turn is made of.
-/

namespace Crashinfo

open Script Script.Run

def Quietly (h h' : Host) : Prop := ∃ l, h' = { h with log := l }

def SameFiles (h h' : Host) : Prop := h'.files = h.files ∧ h'.outputs = h.outputs

theorem SameFiles.refl (h : Host) : SameFiles h h := ⟨rfl, rfl⟩

theorem SameFiles.trans {h h₁ h₂ : Host} (h01 : SameFiles h h₁) (h12 : SameFiles h₁ h₂) :
    SameFiles h h₂ :=
  ⟨h12.1.trans h01.1, h12.2.trans h01.2⟩

theorem Quietly.sameFiles {h h' : Host} (hq : Quietly h h') : SameFiles h h' := by
  obtain ⟨l, rfl⟩ := hq
  exact ⟨rfl, rfl⟩

section Pieces

variable {P : Answer → Prop} {h : Host} {n : Nat}

theorem ends_logmsg {prio : Prio} {t : Str} {Q : Unit → Host → Prop}
    (hQ : ∀ h', Quietly h h' → Q () h') : Ends P n (logmsg prio t) h Q :=
  ends_modify (hQ _ ⟨_, rfl⟩)

theorem ends_logNotes (ns : List Str) : Ends P 0 (logNotes ns) h (fun _ h' => Quietly h h') := by
  induction ns generalizing h with
  | nil => exact ends_pure ⟨h.log, rfl⟩
  | cons t ns ih =>
    rw [logNotes]
    refine ends_step (ends_modify (ih.mono (Nat.le_refl 0) ?_))
    rintro _ h' ⟨l, rfl⟩
    exact ⟨l, rfl⟩

def OpenFileRes (P : Answer → Prop) (h : Host) (name : Str) (excl : Bool) :
    Except Errno Nat → Host → Prop
  | .ok _, h' => ¬(excl ∧ name ∈ h.files) ∧
      h'.files = (if name ∈ h.files then h.files else name :: h.files) ∧
      h'.outputs = h.outputs ++ [(name, decide (name ∉ h.files))]
  | .error e, h' => SameFiles h h' ∧
      (e = .eexist ∧ excl ∧ name ∈ h.files ∨ e ≠ .eexist ∧ P (.err e))

theorem ends_openFile (name : Str) (excl : Bool) :
    Ends P 1 (openFile name excl) h (OpenFileRes P h name excl) := by
  refine ends_step (ends_get ?_)
  refine ends_creating (n := 0) (fun hx => ?_) (fun e he hw => ?_) fun hx => ?_
  · exact ⟨⟨rfl, rfl⟩, Or.inl ⟨rfl, hx⟩⟩
  · exact ⟨⟨rfl, rfl⟩, Or.inr ⟨he, hw⟩⟩
  · refine ends_step (ends_modify (ends_alloc ?_))
    exact ⟨hx, rfl, rfl⟩

/-- `make_path` creates nothing but the directories it is to create. -/
theorem ends_makePath (env : Env) (ds : List Str) : Ends P ds.length (makePath env ds) h
    (fun b h' => (b = false → ∃ e, P (.err e)) ∧ h'.outputs = h.outputs ∧
      ∀ x, x ∉ ds → (x ∈ h'.files ↔ x ∈ h.files)) := by
  induction ds generalizing h with
  | nil => exact ends_pure ⟨(nomatch ·), rfl, fun x _ => Iff.rfl⟩
  | cons d ds ih =>
    have hrest : ∀ h' : Host, h'.outputs = h.outputs → (∀ x, x ≠ d → (x ∈ h'.files ↔ x ∈ h.files)) →
        Ends P ds.length (makePath env ds) h' (fun b h'' => (b = false → ∃ e, P (.err e)) ∧
          h''.outputs = h.outputs ∧ ∀ x, x ∉ d :: ds → (x ∈ h''.files ↔ x ∈ h.files)) := by
      intro h' hout hfiles
      refine ih.mono (Nat.le_refl _) ?_
      rintro b h'' ⟨hb, hout', hfiles'⟩
      refine ⟨hb, hout'.trans hout, fun x hx => ?_⟩
      rw [List.mem_cons, not_or] at hx
      rw [hfiles' x hx.2, hfiles x hx.1]
    rw [makePath, List.length_cons, Nat.add_comm]
    refine ends_bind (k := 1 + 0) (ends_creating (n := 0) (fun _ => ?_) (fun e he hw => ?_) ?_)
    · exact hrest _ rfl fun x _ => Iff.rfl
    · dsimp only
      rw [if_neg he]
      refine ends_step (ends_logmsg ?_)
      rintro h' ⟨l, rfl⟩
      exact ends_pure ⟨fun _ => ⟨e, hw⟩, rfl, fun x _ => Iff.rfl⟩
    · intro _
      refine ends_pure (hrest _ rfl fun x hx => ?_)
      split
      · rfl
      · rw [List.mem_cons, or_iff_right hx]

end Pieces

section Turn

variable {P : Answer → Prop} {env : Env} {c : ConfOutput} {template : Str} {v : OpenVars} {h : Host}

structure Expanded (env : Env) (c : ConfOutput) (template : Str) (k : Nat) (cur : Cursor) :
    Prop where
  outcome : outcome env c template k = .ok ()
  result : cur.result = candidate env c template k
  length : cur.path.cells.length = pathMax

def ExpandRes (env : Env) (c : ConfOutput) (template : Str) (k : Nat) (h : Host) :
    Option Cursor → Host → Prop
  | some cur, h' => Expanded env c template k cur ∧ Quietly h h'
  | none, h' => outcome env c template k = .error .tooLong ∧ Quietly h h'

theorem ends_expandPath (hslash : template.head? = some (ch '/')) (hexist : c.exist ≠ .default)
    (hfits : intlen v.counter ≤ seqLen c v.counter) (hlen : v.path.length = pathMax)
    (htext : (env.strftime template).length < pathMax)
    (hknown : outcome env c template v.counter ≠ .error .unknownExe) :
    Ends P 0 (expandPath env c template v) h (ExpandRes env c template v.counter h) := by
  have hspec := cellsRes_roundAt hslash htext hfits hlen
  rw [expandPath, if_neg (by omega)]
  generalize expandCells _ _ = res at hspec ⊢
  match res, hspec with
  | .error (.fault f), hres => exact absurd hres.1 hknown
  | .error (.tooLong cur), hres =>
    refine ends_step ((ends_logNotes cur.notes).mono (Nat.le_refl 0) ?_)
    rintro _ h₁ ⟨l₁, rfl⟩
    refine ends_step (ends_logmsg ?_)
    rintro h₂ ⟨l₂, rfl⟩
    exact ends_pure ⟨hres.1, l₂, rfl⟩
  | .ok cur, ⟨hout, _, _, hlen', hdrop, _⟩ =>
    refine ends_step ((ends_logNotes cur.notes).mono (Nat.le_refl 0) ?_)
    intro _ h₁ hq
    rw [if_neg hexist]
    refine ends_pure ⟨⟨hout, ?_, hlen'⟩, hq⟩
    rw [Cursor.result, hdrop]
    exact cstr_append_nul (nul_notMem_candidate v.counter)

def Opened (env : Env) (c : ConfOutput) (template : Str) (k : Nat) (h h' : Host) : Prop :=
  let name := candidate env c template k
  ¬(c.exist.excl ∧ name ∈ h.files) ∧
    h'.files = (if name ∈ h.files then h.files else name :: h.files) ∧
    h'.outputs = h.outputs ++ [(name, decide (name ∉ h.files))]

/-- What a turn comes to that starts with the variables `v`: the next name of a
sequence, a second attempt, no file, or a file. -/
def OpenTurnRes (P : Answer → Prop) (env : Env) (c : ConfOutput) (template : Str) (v : OpenVars)
    (h : Host) : OpenRes → Host → Prop
  | .inl v', h' =>
    v' = { v with path := v'.path, counter := v.counter + 1, cursor := none } ∧
      v'.path.length = pathMax ∧ SameFiles h h' ∧ c.exist = .sequence ∧
      outcome env c template v.counter = .ok () ∧ candidate env c template v.counter ∈ h.files ∧
      ((v.counter : Int) + 1 < c.existsSeq ∨ c.existsSeq ≤ 0) ∨
    ∃ cur, v' = { v with mkdir := false, cursor := some cur } ∧ v.mkdir = true ∧
      Expanded env c template v.counter cur ∧ (∃ e, P (.err e)) ∧ h'.outputs = h.outputs ∧
      ∀ k, candidate env c template k ∈ h'.files ↔ candidate env c template k ∈ h.files
  | .inr none, h' =>
    SameFiles h h' ∧ outcome env c template v.counter = .error .tooLong ∨
    SameFiles h h' ∧ c.exist = .sequence ∧ candidate env c template v.counter ∈ h.files ∧
      0 < c.existsSeq ∧ c.existsSeq ≤ v.counter + 1 ∨
    ∃ e, P (.err e)
  | .inr (some (_, name)), h' => outcome env c template v.counter = .ok () ∧
      name = candidate env c template v.counter ∧
      (Opened env c template v.counter h h' ∨
        c.exist = .keep ∧ name ∈ h.files ∧ SameFiles h h')

theorem ends_keepFile {cur : Cursor} (hcur : Expanded env c template v.counter cur)
    (hexist : c.exist = .keep) (hquiet : env.notices = false) (hmem : cur.result ∈ h.files)
    {h₀ : Host} (hsame : SameFiles h₀ h) :
    Ends P 1 (keepFile env cur) h (OpenTurnRes P env c template v h₀) := by
  rw [keepFile, keepNotice_of_quiet hquiet, pure_bind]
  refine ends_bind (k := 1 + 0) (n := 0) (ends_syscall (n := 0) (fun e he => ?_) (ends_alloc ?_))
  · refine ends_step (ends_logmsg ?_)
    rintro h₂ ⟨l₂, rfl⟩
    exact ends_pure (Or.inr (Or.inr ⟨e, he⟩))
  · refine ends_pure ⟨hcur.outcome, hcur.result, Or.inr ⟨hexist, ?_, hsame⟩⟩
    rw [← hsame.1]
    exact hmem

theorem ends_nextName {cur : Cursor} (hcur : Expanded env c template v.counter cur)
    (hexist : c.exist = .sequence) (hmem : cur.result ∈ h.files)
    (hover : (v.counter : Int) < intMax) {h₀ : Host} (hsame : SameFiles h₀ h) :
    Ends P 0 (nextName c v cur) h (OpenTurnRes P env c template v h₀) := by
  rw [hcur.result, hsame.1] at hmem
  rw [nextName, if_neg (by omega)]
  by_cases hgo : (v.counter : Int) + 1 < c.existsSeq ∨ c.existsSeq ≤ 0
  · rw [if_pos hgo]
    exact ends_pure (Or.inl ⟨rfl, hcur.length, hsame, hexist, hcur.outcome, hmem, hgo⟩)
  · rw [if_neg hgo]
    refine ends_step (ends_logmsg ?_)
    rintro h₁ ⟨l₁, rfl⟩
    exact ends_pure (Or.inr (Or.inl ⟨hsame, hexist, hmem, by omega, by omega⟩))

theorem ends_missingDir {cur : Cursor} (hcur : Expanded env c template v.counter cur)
    (hmkdir : v.mkdir = true) (herr : ∃ e, P (.err e)) {h₀ : Host} (hsame : SameFiles h₀ h) :
    Ends P pathMax (missingDir env v cur) h (OpenTurnRes P env c template v h₀) := by
  have hlen : (dirsOf cur.result).length ≤ pathMax := by
    have h1 : (dirsOf cur.result).length ≤ cur.result.length := by
      rw [dirsOf, List.length_map]
      exact (List.length_filter_le _ _).trans_eq List.length_range
    have h2 : cur.result.length ≤ cur.path.cells.length := by
      have := (List.takeWhile_prefix (l := cur.path.cells.drop cur.j.toNat) (· ≠ 0)).length_le
      rw [List.length_drop] at this
      exact this.trans (Nat.sub_le _ _)
    rw [hcur.length] at h2
    exact h1.trans h2
  refine ends_bind (n := 0) ((ends_makePath env (dirsOf cur.result)).mono hlen ?_)
  rintro b h₁ ⟨-, hout, hfiles⟩
  cases b with
  | false => exact ends_pure (Or.inr (Or.inr herr))
  | true =>
    refine ends_pure (Or.inr ⟨cur, rfl, hmkdir, hcur, herr, hout.trans hsame.2, fun k => ?_⟩)
    rw [hfiles, hsame.1]
    intro hmem
    rw [hcur.result] at hmem
    exact dirsOf_candidate hmem rfl

theorem ends_attempt {cur : Cursor} (hcur : Expanded env c template v.counter cur)
    (hover : c.exist = .sequence → candidate env c template v.counter ∈ h.files →
      (v.counter : Int) < intMax)
    (hquiet : c.exist = .keep → candidate env c template v.counter ∈ h.files → env.notices = false)
    {h₀ : Host} (hsame : SameFiles h₀ h) :
    Ends P (1 + pathMax) (attempt env c v cur) h (OpenTurnRes P env c template v h₀) := by
  refine ends_bind ((ends_openFile cur.result c.exist.excl).mono (Nat.le_refl 1) ?_)
  intro r h₁ hr
  cases r with
  | ok fd =>
    obtain ⟨hx, hfiles, hout⟩ := hr
    rw [hcur.result, hsame.1] at hx hfiles hout
    refine ends_pure ⟨hcur.outcome, hcur.result, Or.inl ⟨hx, hfiles, ?_⟩⟩
    rw [hout, hsame.2]
  | error e =>
    obtain ⟨⟨hfiles, hout⟩, hwhy⟩ := hr
    have hsame₁ : SameFiles h₀ h₁ := ⟨hfiles.trans hsame.1, hout.trans hsame.2⟩
    show Ends P pathMax (openFailed env c v cur e) h₁ _
    rw [openFailed]
    by_cases hkeep : e = .eexist ∧ c.exist = .keep
    · rw [if_pos hkeep]
      rcases hwhy with ⟨-, -, hmem⟩ | ⟨hne, -⟩
      · have hno := hquiet hkeep.2 (hcur.result ▸ hmem)
        rw [← hfiles] at hmem
        exact (ends_keepFile hcur hkeep.2 hno hmem hsame₁).mono (by decide) fun _ _ hq => hq
      · exact absurd hkeep.1 hne
    rw [if_neg hkeep]
    by_cases hseq : e = .eexist ∧ c.exist = .sequence
    · rw [if_pos hseq]
      rcases hwhy with ⟨-, -, hmem⟩ | ⟨hne, -⟩
      · refine (ends_nextName hcur hseq.2 (hfiles ▸ hmem) (hover hseq.2 ?_) hsame₁).mono
          (Nat.zero_le _) fun _ _ hq => hq
        rw [← hcur.result]
        exact hmem
      · exact absurd hseq.1 hne
    rw [if_neg hseq]
    have herr : ∃ e, P (.err e) := by
      rcases hwhy with ⟨he, hexcl, -⟩ | ⟨-, he⟩
      · rw [not_and] at hkeep hseq
        have h1 := hkeep he
        have h2 := hseq he
        cases hx : c.exist with
        | keep => exact absurd hx h1
        | sequence => exact absurd hx h2
        | _ => rw [hx] at hexcl; exact absurd hexcl Bool.false_ne_true
      · exact ⟨e, he⟩
    by_cases hdir : e = .enoent ∧ v.mkdir
    · rw [if_pos hdir]
      exact ends_missingDir hcur hdir.2 herr hsame₁
    · rw [if_neg hdir]
      refine ends_step (ends_logmsg ?_)
      rintro h₂ ⟨l₂, rfl⟩
      exact ends_pure (Or.inr (Or.inr herr))

/-- The variables in front of a turn that comes to no fault. -/
structure OpenVars.Ready (env : Env) (c : ConfOutput) (template : Str) (v : OpenVars) : Prop where
  length : v.path.length = pathMax
  fits : intlen v.counter ≤ seqLen c v.counter
  known : outcome env c template v.counter ≠ .error .unknownExe
  cursor : ∀ cur, v.cursor = some cur → Expanded env c template v.counter cur

theorem ready_start (hknown : outcome env c template 0 ≠ .error .unknownExe) :
    (OpenVars.start env c).Ready env c template where
  length := env.junk_length
  fits := intlen_le_seqLen (Or.inl rfl)
  known := hknown
  cursor := fun _ h => nomatch h

/-- **A turn of the loop.** -/
theorem ends_openTurn (hslash : template.head? = some (ch '/')) (hexist : c.exist ≠ .default)
    (htext : (env.strftime template).length < pathMax) (hv : v.Ready env c template)
    (hover : c.exist = .sequence → outcome env c template v.counter = .ok () →
      candidate env c template v.counter ∈ h.files → (v.counter : Int) < intMax)
    (hquiet : c.exist = .keep → outcome env c template v.counter = .ok () →
      candidate env c template v.counter ∈ h.files → env.notices = false) :
    Ends P (1 + pathMax) (openTurn env c template v) h (OpenTurnRes P env c template v h) := by
  rw [openTurn]
  cases hc : v.cursor with
  | some cur =>
    have hcur := hv.cursor cur hc
    exact ends_attempt hcur (fun hx => hover hx hcur.outcome) (fun hx => hquiet hx hcur.outcome)
      ⟨rfl, rfl⟩
  | none =>
    refine ends_step ((ends_expandPath hslash hexist hv.fits hv.length htext hv.known).mono
      (Nat.le_refl 0) ?_)
    intro r h₁ hr
    cases r with
    | none => exact ends_pure (Or.inl ⟨hr.2.sameFiles, hr.1⟩)
    | some cur =>
      obtain ⟨hcur, hq⟩ := hr
      rw [← hq.sameFiles.1] at hover hquiet
      exact ends_attempt hcur (fun hx => hover hx hcur.outcome) (fun hx => hquiet hx hcur.outcome)
        hq.sameFiles

end Turn

/-! ### Behind the loop -/

section Rest

variable {P : Answer → Prop} {env : Env} {c : ConfOutput} {template : Str} {h : Host}

theorem close_sameFiles (h : Host) (fd : Int) : SameFiles h (h.close fd) := by
  rw [Host.close]
  split
  · exact ⟨rfl, rfl⟩
  · exact ⟨rfl, rfl⟩

theorem ends_close {n : Nat} {fd : Int} {Q : Unit → Host → Prop}
    (hQ : ∀ h', SameFiles h h' → Q () h') : Ends P n (close fd) h Q :=
  ends_modify (hQ _ (close_sameFiles h fd))

theorem ends_syscall_files {α : Type} {call : Call} {act : HostRun α} {n : Nat}
    (hact : Ends P n act h (fun _ h' => SameFiles h h')) :
    Ends P (1 + n) (syscall call act) h
      (fun r h' => SameFiles h h' ∧ ∀ e, r = .error e → P (.err e)) := by
  refine ends_syscall (fun e he => ?_) (hact.mono (Nat.le_refl n) fun a h' hs => ?_)
  · exact ⟨⟨rfl, rfl⟩, fun e' he' => Except.error.inj he' ▸ he⟩
  · exact ⟨hs, fun e' he' => nomatch he'⟩

theorem ends_pipe2_files :
    Ends P 1 pipe2 h (fun r h' => SameFiles h h' ∧ ∀ e, r = .error e → P (.err e)) := by
  refine ends_syscall_files (n := 0) (ends_step (ends_get (ends_step (ends_modify ?_))))
  exact ends_step (ends_alloc (ends_step (ends_alloc (ends_pure ⟨rfl, rfl⟩))))

theorem ends_openDevnull : Ends P 2 openDevnull h (fun _ h' => SameFiles h h') := by
  have hcache : Ends P 1 cacheNull h (fun _ h' => SameFiles h h') := by
    refine ends_step (ends_get ?_)
    by_cases hn : h.null < 0
    · rw [if_pos hn]
      refine ends_bind (k := 1 + 0) (n := 0) ((ends_syscall_files (n := 0) (ends_alloc ?_)).mono
        (Nat.le_refl _) ?_)
      · exact ⟨rfl, rfl⟩
      · rintro r h₁ ⟨hs, -⟩
        cases r with
        | error e => exact ends_pure hs
        | ok fd => exact ends_modify hs
    · rw [if_neg hn]
      exact ends_pure (SameFiles.refl h)
  have hdup : ∀ (fd : Int) (h₁ : Host), SameFiles h h₁ →
      Ends P 1 (dup fd) h₁ (fun _ h' => SameFiles h h') := by
    intro fd h₁ hs
    refine ends_step (ends_get ?_)
    cases h₁.at fd with
    | none => exact ends_pure hs
    | some d =>
      refine (ends_syscall_files (n := 0) (ends_alloc ⟨rfl, rfl⟩)).mono (Nat.le_refl _) ?_
      rintro r h₂ ⟨hs', -⟩
      exact hs.trans hs'
  refine ends_bind (k := 1) (n := 1) (hcache.mono (Nat.le_refl 1) fun _ h₁ hs => ?_)
  refine ends_step (ends_get ?_)
  exact ends_bind (n := 0) ((hdup _ h₁ hs).mono (Nat.le_refl 1) fun _ _ hs => ends_pure hs)

theorem ends_err0 (r : RunOutput) :
    Ends P 2 (err0 r) h (fun a h' => SameFiles h h' ∧ a.1 = -1) :=
  ends_bind (n := 0) (ends_openDevnull.mono (Nat.le_refl 2) fun _ _ hs => ends_pure ⟨hs, rfl⟩)

theorem ends_killFilters (fs : List RunFilter) :
    Ends P 0 (killFilters fs) h (fun _ h' => SameFiles h h') := by
  induction fs generalizing h with
  | nil => exact ends_pure (SameFiles.refl h)
  | cons f fs ih =>
    refine ends_step (ends_modify (ends_step (ends_modify ?_)))
    refine ih.mono (Nat.le_refl 0) fun _ h' hs => ?_
    have hkill : SameFiles h
        { h with killed := h.killed ++ [f.pid], waited := h.waited ++ [f.pid] } := ⟨rfl, rfl⟩
    exact hkill.trans hs

theorem ends_err1 (r : RunOutput) (nextIn nextOut : Int) :
    Ends P 2 (err1 r nextIn nextOut) h (fun a h' => SameFiles h h' ∧ a.1 = -1) := by
  refine ends_step ((ends_killFilters r.filter).mono (Nat.le_refl 0) fun _ h₁ h01 => ?_)
  refine ends_step (ends_close fun h₂ h12 => ends_step (ends_close fun h₃ h23 => ?_))
  refine ends_step (ends_close fun h₄ h34 => ?_)
  refine (ends_err0 _).mono (Nat.le_refl 2) fun a h₅ hr => ?_
  exact ⟨h01.trans (h12.trans (h23.trans (h34.trans hr.1))), hr.2⟩

theorem ends_filterEnds (nextIn nextOut : Int) (more : Bool) :
    Ends P 1 (filterEnds env nextIn nextOut more) h
      (fun r h' => SameFiles h h' ∧ (r = none → ∃ e, P (.err e))) := by
  cases more with
  | false => exact ends_pure ⟨SameFiles.refl h, (nomatch ·)⟩
  | true =>
    refine ends_bind (k := 1) (n := 0) (ends_pipe2_files.mono (Nat.le_refl 1) ?_)
    rintro r h₁ ⟨hs, hr⟩
    cases r with
    | ok p => exact ends_pure ⟨hs, (nomatch ·)⟩
    | error e =>
      refine ends_step (ends_logmsg fun h₂ hq => ?_)
      exact ends_pure ⟨hs.trans hq.sameFiles, fun _ => ⟨e, hr e rfl⟩⟩

theorem ends_logFails {h₁ : Host} (prio : Prio) (t : Str) {e : Errno} (hs : SameFiles h h₁)
    (he : P (.err e)) : Ends P 0 (do logmsg prio t; return none) h₁
      (fun (r : Option Nat) h' => SameFiles h h' ∧ (r = none → ∃ e, P (.err e))) := by
  refine ends_step (ends_logmsg fun h₂ hq => ?_)
  exact ends_pure ⟨hs.trans hq.sameFiles, fun _ => ⟨e, he⟩⟩

theorem ends_spawnProc (cmd : Str) (infd outfd : Int) (arg1 arg2 : Option Str) :
    Ends P 1 (spawnProc env cmd infd outfd arg1 arg2) h
      (fun r h' => SameFiles h h' ∧ (r = none → ∃ e, P (.err e))) := by
  refine ends_bind (k := 1 + 0) (n := 0) ((ends_syscall_files (n := 0) ?_).mono (Nat.le_refl _) ?_)
  · exact ends_step (ends_get (ends_step (ends_modify (ends_pure ⟨rfl, rfl⟩))))
  · intro r h₁ hres
    obtain ⟨hs, hr⟩ := hres
    cases r with
    | error e => exact ends_logFails _ _ hs (hr e rfl)
    | ok pid => exact ends_pure ⟨hs, (nomatch ·)⟩

theorem ends_spawnFilter (cmd : Str) (infd outfd : Int) :
    Ends P 2 (spawnFilter env cmd infd outfd) h
      (fun r h' => SameFiles h h' ∧ (r = none → ∃ e, P (.err e))) := by
  refine ends_bind (k := 1 + 0) (n := 1)
    ((ends_syscall_files (n := 0) (ends_modify ⟨rfl, rfl⟩)).mono (Nat.le_refl _) ?_)
  intro r h₁ hres
  obtain ⟨hs, hr⟩ := hres
  cases r with
  | error e => exact (ends_logFails _ _ hs (hr e rfl)).mono (Nat.zero_le _) fun _ _ hq => hq
  | ok u =>
    refine ends_bind (n := 0) ((ends_spawnProc cmd infd outfd none none).mono (Nat.le_refl 1) ?_)
    intro r h₂ hres
    obtain ⟨hs', hr'⟩ := hres
    have hnode : ∀ (ps : List Nat) (ns : List (Option Nat)),
        SameFiles h { h₂ with filters := ps, freed := ns } := fun _ _ => hs.trans hs'
    cases r with
    | none => exact ends_step (ends_modify (ends_pure ⟨hnode _ _, fun _ => hr' rfl⟩))
    | some pid => exact ends_step (ends_modify (ends_pure ⟨hnode _ _, (nomatch ·)⟩))

theorem ends_spawnFilters (nextOut : Int) (fs : List Str) (nextIn : Int) (done : List RunFilter) :
    Ends P (3 * fs.length) (spawnFilters env nextOut fs nextIn done) h
      (fun r h' => SameFiles h h' ∧ ∀ x, r = .error x → ∃ e, P (.err e)) := by
  induction fs generalizing h nextIn done with
  | nil => exact ends_pure ⟨SameFiles.refl h, fun x hx => nomatch hx⟩
  | cons f fs ih =>
    rw [spawnFilters]
    refine Ends.mono (k := 1 + (2 + 3 * fs.length)) ?_ (by rw [List.length_cons]; omega)
      fun _ _ hq => hq
    refine ends_bind ((ends_filterEnds nextIn nextOut _).mono (Nat.le_refl 1) ?_)
    rintro r h₁ ⟨h01, hr⟩
    cases r with
    | none => exact ends_pure ⟨h01, fun _ _ => hr rfl⟩
    | some ends =>
      refine ends_bind ((ends_spawnFilter f ends.1 ends.2.1).mono (Nat.le_refl 2) ?_)
      rintro r h₂ ⟨h12, hr⟩
      cases r with
      | none => exact ends_pure ⟨h01.trans h12, fun _ _ => hr rfl⟩
      | some pid =>
        refine ends_step (ends_close fun h₃ h23 => ends_step (ends_close fun h₄ h34 => ?_))
        refine (ih ends.2.2 (done ++ [⟨f, pid⟩])).mono (Nat.le_refl _) fun r h₅ hr => ?_
        exact ⟨h01.trans (h12.trans (h23.trans (h34.trans hr.1))), hr.2⟩

theorem ends_setupFilters (fd : Int) (r : RunOutput) :
    Ends P (3 + 3 * c.filter.length) (setupFilters env c fd r) h
      (fun a h' => SameFiles h h' ∧ (a.1 = 0 ∨ ∃ e, P (.err e))) := by
  rw [setupFilters]
  by_cases hnil : c.filter.isEmpty
  · rw [if_pos hnil]
    exact ends_pure ⟨SameFiles.refl h, Or.inl rfl⟩
  · rw [if_neg hnil]
    refine Ends.mono (k := 1 + (3 * c.filter.length + 2)) ?_ (by omega) fun _ _ hq => hq
    refine ends_bind (ends_pipe2_files.mono (Nat.le_refl 1) ?_)
    rintro p h₁ ⟨h01, hp⟩
    cases p with
    | error e =>
      refine ends_step (ends_logmsg fun h₂ hq => ends_step (ends_close fun h₃ h23 => ?_))
      exact ends_pure ⟨h01.trans (hq.sameFiles.trans h23), Or.inr ⟨e, hp e rfl⟩⟩
    | ok p =>
      refine ends_bind ((ends_spawnFilters fd c.filter p.1 []).mono (Nat.le_refl _) ?_)
      rintro q h₂ ⟨h12, hq⟩
      cases q with
      | ok fs => exact ends_pure ⟨h01.trans h12, Or.inl rfl⟩
      | error x =>
        refine (ends_err1 _ _ _).mono (Nat.le_refl 2) fun a h₃ ha => ?_
        exact ⟨h01.trans (h12.trans ha.1), Or.inr (hq x rfl)⟩

theorem ends_openOutput {n : Nat} {r : RunOutput} {Q : Option (Nat × Str) → Host → Prop}
    (houtput : c.output = some template) (hslash : template.head? = some (ch '/'))
    (hloop : Ends P n (forever (openTurn env c template) (OpenVars.start env c)) h Q) :
    Ends P (n + (4 + 3 * c.filter.length)) (openOutput env c r) h (fun a h' =>
      (∃ h₁, Q none h₁ ∧ SameFiles h₁ h' ∧ a.1 = -1) ∨
      ∃ h₁ f, Q (some f) h₁ ∧ SameFiles h₁ h' ∧ (a.1 = 0 ∨ ∃ e, P (.err e))) := by
  have hsink : Ends P (n + 1) (openSink env c r) h (fun o h' =>
      match o with
      | none => ∃ h₁, Q none h₁ ∧ SameFiles h₁ h'
      | some _ => ∃ h₁ f, Q (some f) h₁ ∧ SameFiles h₁ h') := by
    rw [openSink, houtput]
    dsimp only
    rw [if_pos hslash]
    refine ends_bind (hloop.mono (Nat.le_refl n) fun o h₁ hQ => ?_)
    cases o with
    | none => exact ends_pure ⟨h₁, hQ, SameFiles.refl h₁⟩
    | some f =>
      have hdup : Ends P 1 (strdup f.2) h₁ (fun _ h' => SameFiles h₁ h') := by
        refine ends_bind (k := 1 + 0) (n := 0)
          ((ends_syscall_files (n := 0) (ends_pure (SameFiles.refl h₁))).mono (Nat.le_refl _) ?_)
        rintro r h₂ ⟨hs, -⟩
        cases r with
        | ok u => exact ends_pure hs
        | error e => exact ends_pure hs
      exact ends_bind (n := 0) (hdup.mono (Nat.le_refl 1) fun _ h₂ hs => ends_pure ⟨h₁, f, hQ, hs⟩)
  refine Ends.mono (k := (n + 1) + (3 + 3 * c.filter.length)) ?_ (by omega) fun _ _ hq => hq
  refine ends_bind (hsink.mono (Nat.le_refl _) fun o h₂ ho => ?_)
  cases o with
  | none =>
    obtain ⟨h₁, hQ, hs⟩ := ho
    refine (ends_err0 r).mono (by omega) fun a h₃ ha => ?_
    exact Or.inl ⟨h₁, hQ, hs.trans ha.1, ha.2⟩
  | some x =>
    obtain ⟨h₁, f, hQ, hs⟩ := ho
    refine (ends_setupFilters x.1 _).mono (Nat.le_refl _) fun a h₃ ha => ?_
    exact Or.inr ⟨h₁, f, hQ, hs.trans ha.1, ha.2⟩

end Rest

end Crashinfo
