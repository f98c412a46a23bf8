import Crashinfo.Output.Loop

/-!
# Does `open_output` return?

The loop of `open_output` goes on as long as the names of a sequence exist.
With a limit it ends there; without one it ends at a name that does not exist or
cannot be expanded, if there is one (`Endless` says there is none).  A file that is
kept ends it, but not if it is told of (`Noticed`).  The second
attempt after `make_path` happens once, and the directories that were created
are not names of the sequence, so twice the distance to that counter bounds the
turns that are left (`LoopInv`).
-/

namespace Crashinfo

open Script Script.Run

/-- Whatever the system answers, `open_output` returns. -/
def Returns (env : Env) (c : ConfOutput) (r : RunOutput) (h : Host) : Prop :=
  ∃ n, ∀ o : List Answer, n ≤ o.length → (openOutput env c r h o).After fun _ _ => True

/-- There is no limit, and all names of the sequence exist. -/
def Endless (env : Env) (c : ConfOutput) (template : Str) (files : List Str) : Prop :=
  c.exist = .sequence ∧ c.existsSeq ≤ 0 ∧ ∀ k : Nat, (k : Int) ≤ intMax →
    outcome env c template k = .ok () ∧ candidate env c template k ∈ files

/-- The file is kept, and what is to be told of it cannot be printed. -/
def Noticed (env : Env) (c : ConfOutput) (template : Str) (files : List Str) : Prop :=
  c.exist = .keep ∧ env.notices = true ∧ outcome env c template 0 = .ok () ∧
    candidate env c template 0 ∈ files

section

variable {env : Env} {c : ConfOutput} {template : Str}

theorem outcome_spec (hslash : template.head? = some (ch '/'))
    (htext : (env.strftime template).length < pathMax) {k : Nat} (hk : intlen k ≤ seqLen c k) :
    ∃ res, CellsRes (roundAt env c template k) (env.strftime template) pathMax res :=
  ⟨_, cellsRes_roundAt hslash htext hk (List.length_replicate (n := pathMax) (a := 0))⟩

/-- A template that was expanded once never needs the path of an executable
that is not known. -/
theorem known_of_ok (hslash : template.head? = some (ch '/'))
    (htext : (env.strftime template).length < pathMax) {k l : Nat} (hk : intlen k ≤ seqLen c k)
    (hl : intlen l ≤ seqLen c l) (hok : outcome env c template k = .ok ()) :
    outcome env c template l ≠ .error .unknownExe := by
  obtain ⟨res, hres⟩ := outcome_spec hslash htext hk
  obtain ⟨res', hres'⟩ := outcome_spec hslash htext hl
  intro hbad
  match res, hres with
  | .error (.tooLong _), h => cases hok.symm.trans h.1
  | .error (.fault _), h => cases hok.symm.trans h.1
  | .ok _, ⟨_, _, _, _, _, hknown, _⟩ =>
    match res', hres' with
    | .error (.tooLong _), h => cases hbad.symm.trans h.1
    | .error (.fault _), ⟨_, _, hexe, hreads⟩ => exact hknown hexe hreads
    | .ok _, h => cases hbad.symm.trans h.1

/-! ### The loop ends -/

structure Limit (env : Env) (c : ConfOutput) (template : Str) (files : List Str) (limit : Nat) :
    Prop where
  int : (limit : Int) ≤ intMax
  width : (limit : Int) < c.existsSeq ∨ c.existsSeq ≤ 0
  last : c.exist = .sequence → outcome env c template limit = .ok () →
    candidate env c template limit ∈ files → (limit : Int) < intMax ∧ 0 < c.existsSeq ∧
      c.existsSeq ≤ limit + 1

theorem exists_limit {files : List Str} (hint : c.existsSeq ≤ intMax)
    (hend : ¬Endless env c template files) : ∃ limit, Limit env c template files limit := by
  by_cases hpos : 0 < c.existsSeq
  · refine ⟨(c.existsSeq - 1).toNat, by omega, Or.inl (by omega), fun _ _ _ => ?_⟩
    omega
  by_cases hexist : c.exist = .sequence
  · by_contra hno
    refine hend ⟨hexist, by omega, fun k hk => ?_⟩
    by_contra hfree
    exact hno ⟨k, hk, Or.inr (by omega), fun _ h1 h2 => absurd ⟨h1, h2⟩ hfree⟩
  · exact ⟨0, by decide, Or.inr (by omega), fun h => absurd h hexist⟩

/-- In front of a turn, if at most `m` more follow it. -/
structure LoopInv (env : Env) (c : ConfOutput) (template : Str) (files : List Str) (limit m : Nat)
    (v : OpenVars) (h : Host) : Prop where
  ready : v.Ready env c template
  counter : v.counter ≤ limit
  first : c.exist ≠ .sequence → v.counter = 0
  names : ∀ k, candidate env c template k ∈ h.files ↔ candidate env c template k ∈ files
  turns : 2 * (limit - v.counter) + v.mkdir.toNat ≤ m

theorem loopInv_turn {P : Answer → Prop} (hslash : template.head? = some (ch '/'))
    (hexist : c.exist ≠ .default) (htext : (env.strftime template).length < pathMax)
    {files : List Str} {limit m : Nat} (hlimit : Limit env c template files limit)
    (hquiet : ¬Noticed env c template files) {v : OpenVars} {h : Host}
    (hI : LoopInv env c template files limit m v h) :
    Ends P (1 + pathMax) (openTurn env c template v) h (fun r h' =>
      Sum.elim (fun v' => ∃ m' < m, LoopInv env c template files limit m' v' h')
        (fun _ => True) r) := by
  have hlast : v.counter = limit ∨ v.counter < limit := by have := hI.counter; omega
  have hint := hlimit.int
  refine (ends_openTurn hslash hexist htext hI.ready ?_ ?_).mono (Nat.le_refl _) ?_
  · intro hx hok hmem
    rw [hI.names] at hmem
    rcases hlast with he | hlt
    · rw [he] at hok hmem ⊢
      exact (hlimit.last hx hok hmem).1
    · omega
  · intro hx hok hmem
    rw [hI.names] at hmem
    rw [hI.first (by rw [hx]; decide)] at hok hmem
    by_contra hno
    exact hquiet ⟨hx, Bool.not_eq_false _ ▸ hno, hok, hmem⟩
  intro r h' hr
  cases r with
  | inr f => trivial
  | inl v' =>
    rcases hr with ⟨hv', hlen, hs, hx, hok, hmem, hgo⟩ | ⟨cur, hv', hmk, hcur, -, -, hnames⟩
    · -- the next name: the counter was not the last one
      have hlt : v.counter < limit := by
        rcases hlast with he | hlt
        · rw [hI.names] at hmem
          rw [he] at hok hmem hgo
          have := hlimit.last hx hok hmem
          omega
        · exact hlt
      have hwidth := hlimit.width
      have hfits : intlen (v.counter + 1) ≤ seqLen c (v.counter + 1) :=
        intlen_le_seqLen (by omega)
      have hturns := hI.turns
      refine ⟨2 * (limit - (v.counter + 1)) + v.mkdir.toNat, by omega, ⟨?_, ?_, ?_, ?_, ?_⟩⟩
      · rw [hv']
        exact ⟨hlen, hfits, known_of_ok hslash htext hI.ready.fits hfits hok,
          fun _ hc => nomatch hc⟩
      · rw [hv']
        exact hlt
      · exact fun hne => absurd hx hne
      · intro k
        rw [hs.1]
        exact hI.names k
      · rw [hv']
    · -- the second attempt
      have hturns := hI.turns
      rw [hmk, Bool.toNat_true] at hturns
      refine ⟨2 * (limit - v.counter), by omega, ⟨?_, ?_, ?_, ?_, ?_⟩⟩
      · rw [hv']
        exact ⟨hI.ready.length, hI.ready.fits, hI.ready.known,
          fun cur' hc => Option.some.inj hc ▸ hcur⟩
      · rw [hv']
        exact hI.counter
      · rw [hv']
        exact hI.first
      · intro k
        rw [hnames]
        exact hI.names k
      · rw [hv', Bool.toNat_false]
        exact Nat.le_refl _

theorem returns_of_limit (houtput : c.output = some template)
    (hslash : template.head? = some (ch '/')) (hexist : c.exist ≠ .default) (r : RunOutput)
    {h : Host} (htext : (env.strftime template).length < pathMax)
    (hknown : outcome env c template 0 ≠ .error .unknownExe) {limit : Nat}
    (hlimit : Limit env c template h.files limit) (hquiet : ¬Noticed env c template h.files) :
    Returns env c r h := by
  have hstart : LoopInv env c template h.files limit (2 * limit + c.mkdir.toNat)
      (OpenVars.start env c) h :=
    ⟨ready_start hknown, Nat.zero_le _, fun _ => rfl, fun _ => Iff.rfl, Nat.le_refl _⟩
  have hloop := ends_forever (P := fun _ => True) (Q := fun _ _ => True)
    (LoopInv env c template h.files limit) (by omega)
    (fun m v h' hI => loopInv_turn hslash hexist htext hlimit hquiet hI) hstart
  exact ⟨_, fun o hlen => ((ends_openOutput houtput hslash hloop).after (fun _ _ => trivial)
    hlen).mono fun _ _ _ _ _ => trivial⟩

/-! ### The loop does not end -/

variable {P : Answer → Prop} {h : Host}

theorem meets_openOutput_of_loop {r : RunOutput} (houtput : c.output = some template)
    (hslash : template.head? = some (ch '/'))
    (hloop : Meets P (forever (openTurn env c template) (OpenVars.start env c)) h
      (fun _ _ => False) (fun _ _ => True)) :
    Meets P (openOutput env c r) h (fun _ _ => False) (fun _ _ => True) := by
  refine Meets.andThen (R := fun _ _ => False) ?_ fun _ _ hf => hf.elim
  rw [openSink, houtput]
  dsimp only
  rw [if_pos hslash]
  exact hloop.andThen fun _ _ hf => hf.elim

theorem not_returns {r : RunOutput}
    (hmeets : Meets (· = .ok) (openOutput env c r) h (fun _ _ => False) (fun _ _ => True)) :
    ¬Returns env c r h := by
  rintro ⟨n, hn⟩
  have hrun := hmeets (List.replicate n .ok) fun w hw => List.eq_of_mem_replicate hw
  obtain ⟨a, h', rest, heq, -⟩ := (hn (List.replicate n .ok) (by rw [List.length_replicate])).exists
  rw [heq] at hrun
  exact hrun.2

/-- The array is left indeterminate, or a NULL pointer is used. -/
theorem meets_loop_fault (hslash : template.head? = some (ch '/'))
    (hbad : pathMax ≤ (env.strftime template).length ∨
      outcome env c template 0 = .error .unknownExe) :
    Meets P (forever (openTurn env c template) (OpenVars.start env c)) h
      (fun _ _ => False) (fun _ _ => True) := by
  refine meets_forever (fun v _ => v = OpenVars.start env c) (fun _ _ _ => trivial) ?_ rfl
  rintro _ h' rfl
  refine Meets.andThen (R := fun _ _ => False) ?_ fun _ _ hf => hf.elim
  rw [expandPath]
  by_cases htext : (env.strftime template).length + 1 > pathMax
  · rw [if_pos htext]
    exact meets_fault trivial
  · rw [if_neg htext]
    have hout : outcome env c template 0 = .error .unknownExe := hbad.resolve_left (by omega)
    have htext : (env.strftime template).length < pathMax := by omega
    have hlen : (OpenVars.start env c).path.length = pathMax := env.junk_length
    have hfits : intlen (OpenVars.start env c).counter ≤ seqLen c (OpenVars.start env c).counter :=
      intlen_le_seqLen (Or.inl rfl)
    have hspec := cellsRes_roundAt hslash htext hfits hlen
    generalize expandCells _ _ = res at hspec ⊢
    cases res with
    | ok _ => cases hout.symm.trans hspec.1
    | error e =>
      cases e with
      | fault _ => exact meets_fault trivial
      | tooLong _ => cases hout.symm.trans hspec.1

/-- A turn whose name is taken comes to `EEXIST` if no call fails. -/
theorem meets_turn_exists {v : OpenVars} {Q : OpenRes → Host → Prop}
    (hslash : template.head? = some (ch '/')) (htext : (env.strftime template).length < pathMax)
    (hexcl : c.exist.excl = true) (hv : v.Ready env c template) (hcur : v.cursor = none)
    (hok : outcome env c template v.counter = .ok ())
    (hmem : candidate env c template v.counter ∈ h.files)
    (hnext : ∀ cur h', Expanded env c template v.counter cur → SameFiles h h' →
      Meets (· = .ok) (openFailed env c v cur .eexist) h' Q fun _ _ => True) :
    Meets (· = .ok) (openTurn env c template v) h Q fun _ _ => True := by
  have hexist : c.exist ≠ .default := by
    intro hx
    rw [hx] at hexcl
    cases hexcl
  rw [openTurn, hcur]
  refine Meets.andThen ((ends_expandPath hslash hexist hv.fits hv.length htext
    hv.known).meets fun h0 => absurd h0 (Nat.lt_irrefl 0)) ?_
  intro o h₁ ho
  cases o with
  | none => cases hok.symm.trans ho.1
  | some cur =>
    obtain ⟨hcur', hq⟩ := ho
    refine Meets.andThen ((ends_openFile cur.result c.exist.excl).meets fun _ _ => trivial) ?_
    have hmem₁ : cur.result ∈ h₁.files := by
      rw [hcur'.result, hq.sameFiles.1]
      exact hmem
    rintro r h₂ hr
    cases r with
    | ok fd => exact absurd ⟨hexcl, hmem₁⟩ hr.1
    | error e =>
      obtain ⟨hs, ⟨rfl, -⟩ | ⟨-, he⟩⟩ := hr
      · exact hnext cur h₂ hcur' (hq.sameFiles.trans hs)
      · cases he

theorem meets_loop_endless (hslash : template.head? = some (ch '/'))
    (htext : (env.strftime template).length < pathMax)
    (hend : Endless env c template h.files) :
    Meets (· = .ok) (forever (openTurn env c template) (OpenVars.start env c)) h
      (fun _ _ => False) (fun _ _ => True) := by
  obtain ⟨hexist, hlimit, hall⟩ := hend
  refine meets_forever (fun v h' => v.Ready env c template ∧ v.cursor = none ∧
    (v.counter : Int) ≤ intMax ∧ h'.files = h.files) (fun _ _ _ => trivial) ?_ ?_
  · rintro v h' ⟨hv, hcur, hint, hfiles⟩
    obtain ⟨hok, hmem⟩ := hall v.counter hint
    refine meets_turn_exists hslash htext (by rw [hexist]; rfl) hv hcur hok (hfiles ▸ hmem) ?_
    intro cur h₂ hcur' hs
    have hnext : openFailed env c v cur .eexist = nextName c v cur := by
      rw [openFailed, if_neg (by rw [hexist]; decide), if_pos ⟨rfl, hexist⟩]
    rw [hnext, nextName]
    by_cases hover : (v.counter : Int) ≥ intMax
    · rw [if_pos hover]
      exact meets_fault trivial
    · rw [if_neg hover, if_pos (Or.inr hlimit)]
      have hfits : intlen (v.counter + 1) ≤ seqLen c (v.counter + 1) :=
        intlen_le_seqLen (Or.inr (Or.inr hlimit))
      refine meets_pure ⟨⟨hcur'.length, hfits, known_of_ok hslash htext hv.fits hfits hok,
        fun _ hc => absurd hc.symm (Option.some_ne_none _)⟩, rfl, ?_, ?_⟩
      · show ((v.counter + 1 : Nat) : Int) ≤ intMax
        omega
      · rw [hs.1, hfiles]
  · refine ⟨ready_start ?_, rfl, Int.le_of_lt (by decide : (0 : Int) < intMax), rfl⟩
    rw [(hall 0 (Int.le_of_lt (by decide : (0 : Int) < intMax))).1]
    intro hbad
    cases hbad

/-- The name is taken, and `log_notice` is to tell of it. -/
theorem meets_loop_noticed (hslash : template.head? = some (ch '/'))
    (htext : (env.strftime template).length < pathMax)
    (hnoticed : Noticed env c template h.files) :
    Meets (· = .ok) (forever (openTurn env c template) (OpenVars.start env c)) h
      (fun _ _ => False) (fun _ _ => True) := by
  obtain ⟨hexist, hnotices, hok, hmem⟩ := hnoticed
  have hknown : outcome env c template 0 ≠ .error .unknownExe := by
    rw [hok]
    intro hbad
    cases hbad
  refine meets_forever (fun v h' => v = OpenVars.start env c ∧ h' = h) (fun _ _ _ => trivial) ?_
    ⟨rfl, rfl⟩
  rintro _ _ ⟨rfl, rfl⟩
  refine meets_turn_exists hslash htext (by rw [hexist]; rfl) (ready_start hknown) rfl hok hmem ?_
  intro cur h₂ _ _
  rw [openFailed, if_pos ⟨rfl, hexist⟩, keepFile, keepNotice, if_pos hnotices]
  exact meets_bind (meets_fault trivial)

theorem not_returns_of_fault {r : RunOutput} (houtput : c.output = some template)
    (hslash : template.head? = some (ch '/'))
    (hbad : pathMax ≤ (env.strftime template).length ∨
      outcome env c template 0 = .error .unknownExe) : ¬Returns env c r h :=
  not_returns (meets_openOutput_of_loop houtput hslash (meets_loop_fault hslash hbad))

theorem not_returns_of_endless {r : RunOutput} (houtput : c.output = some template)
    (hslash : template.head? = some (ch '/')) (htext : (env.strftime template).length < pathMax)
    (hend : Endless env c template h.files) : ¬Returns env c r h :=
  not_returns (meets_openOutput_of_loop houtput hslash (meets_loop_endless hslash htext hend))

theorem not_returns_of_noticed {r : RunOutput} (houtput : c.output = some template)
    (hslash : template.head? = some (ch '/')) (htext : (env.strftime template).length < pathMax)
    (hnoticed : Noticed env c template h.files) : ¬Returns env c r h :=
  not_returns (meets_openOutput_of_loop houtput hslash (meets_loop_noticed hslash htext hnoticed))

/-- **When `open_output` returns**: the text fits into `path`, the executable is
known if its path is needed, the sequence has a limit or a name to give, and no file
is kept that is to be told of. -/
theorem openOutput_returns_iff {r : RunOutput} (houtput : c.output = some template)
    (hslash : template.head? = some (ch '/')) (hexist : c.exist ≠ .default)
    (hint : c.existsSeq ≤ intMax) :
    Returns env c r h ↔ (env.strftime template).length < pathMax ∧
      outcome env c template 0 ≠ .error .unknownExe ∧ ¬Endless env c template h.files ∧
        ¬Noticed env c template h.files := by
  constructor
  · intro hret
    have htext : (env.strftime template).length < pathMax := by
      by_contra hno
      exact not_returns_of_fault houtput hslash (Or.inl (Nat.le_of_not_lt hno)) hret
    refine ⟨htext, fun hbad => ?_, fun hend => ?_, fun hnoticed => ?_⟩
    · exact not_returns_of_fault houtput hslash (Or.inr hbad) hret
    · exact not_returns_of_endless houtput hslash htext hend hret
    · exact not_returns_of_noticed houtput hslash htext hnoticed hret
  · rintro ⟨htext, hknown, hend, hquiet⟩
    obtain ⟨limit, hlimit⟩ := exists_limit hint hend
    exact returns_of_limit houtput hslash hexist r htext hknown hlimit hquiet

/-- With an active `@Q` there are more names than files. -/
theorem not_endless_of_active {files : List Str} (hQ : Active (ch 'Q') (env.strftime template))
    (hfiles : (files.length : Int) ≤ intMax) : ¬Endless env c template files := by
  rintro ⟨-, hno, hall⟩
  have hnodup : ((List.range (files.length + 1)).map (candidate env c template)).Nodup :=
    List.nodup_range.map (candidate_injective hno hQ)
  have hsub : (List.range (files.length + 1)).map (candidate env c template) ⊆ files := by
    intro x hx
    obtain ⟨k, hk, rfl⟩ := List.mem_map.mp hx
    rw [List.mem_range] at hk
    exact (hall k (by omega)).2
  have hlen := (hnodup.subperm hsub).length_le
  rw [List.length_map, List.length_range] at hlen
  omega

end

theorem openOutput_returns_new :
    let env := Env.plain 1 none
    let c : ConfOutput := { output := some (lit "/x"), exist := .append }
    let h : Host := { fds := ⟨[]⟩, files := [] }
    c.exist ≠ .default ∧ (Returns env c {} h ↔ (env.strftime (lit "/x")).length < pathMax ∧
      outcome env c (lit "/x") 0 ≠ .error .unknownExe ∧ ¬Endless env c (lit "/x") h.files ∧
        ¬Noticed env c (lit "/x") h.files) :=
  ⟨by decide, openOutput_returns_iff rfl rfl (by decide) (by decide)⟩

/-- A name without `@Q` that exists is tried again and again. -/
theorem not_returns_existing :
    ¬Returns (Env.plain 1 none) { output := some (lit "/x"), exist := .sequence } {}
      { fds := ⟨[]⟩, files := [lit "/x"] } := by
  have hesc : ESC ∉ lit "/x" := by decide
  refine not_returns_of_endless rfl rfl (by decide) ⟨rfl, Int.le_refl 0, fun k _ => ?_⟩
  exact ⟨verdict_of_notMem _ hesc _, List.mem_singleton.mpr (expansion_of_notMem _ hesc)⟩

end Crashinfo
