import Crashinfo.Output.Termination

/-!
# Numbering outputs

In mode `sequence` the names are tried from `0` on, and the first one that does
not exist is created (`Allocated`).  So runs that find what the runs before them
have left get one number after the other (`History`).  All of this rests on the
expansion (`Expands`): the loop that expands the template needs room for more
than the name, so it can give up on names that would fit.
-/

namespace Crashinfo

open Script Script.Run

section

variable (env : Env) (c : ConfOutput) (template : Str)

structure LeastFree (files : List Str) (k : Nat) : Prop where
  below : (k : Int) < c.existsSeq
  free : candidate env c template k ∉ files
  least : ∀ l < k, candidate env c template l ∈ files

def AllTaken (files : List Str) : Prop :=
  ∀ k : Nat, (k : Int) < c.existsSeq → candidate env c template k ∈ files

structure Allocated (h : Host) (ret : Int) (h' : Host) : Prop where
  free : ∀ k, LeastFree env c template h.files k → ret = 0 ∧
    h'.files = candidate env c template k :: h.files ∧
    h'.outputs = h.outputs ++ [(candidate env c template k, true)]
  fails : ret = -1 ↔ AllTaken env c template h.files
  same : ret = -1 → SameFiles h h'

/-- Runs of `open_output` on a file system in which all names are free at first,
with what each one returned and the files it opened. -/
inductive History : List (Int × List (Str × Bool)) → List Str → Prop
  | nil {files : List Str}
      (hfree : ∀ k : Nat, (k : Int) < c.existsSeq → candidate env c template k ∉ files) :
      History [] files
  | snoc {past : List (Int × List (Str × Bool))} {h h' : Host} {r : RunOutput} {o rest : List Answer}
      {a : OpenOutput} {new : List (Str × Bool)} (hpast : History past h.files)
      (ho : ∀ w ∈ o, w = .ok) (hrun : openOutput env c r h o = .done a h' rest)
      (hnew : h'.outputs = h.outputs ++ new) : History (past ++ [(a.1, new)]) h'.files

def numbered (k : Nat) : Int × List (Str × Bool) :=
  if (k : Int) < c.existsSeq then (0, [(candidate env c template k, true)]) else (-1, [])

/-- A run on `h` gets the least number that is free, the names are different and
of one length, and one run after the other gets the next number. -/
structure Allocates (r : RunOutput) (h : Host) : Prop where
  run : ∃ n, Ends (· = .ok) n (openOutput env c r) h
    fun a h' => Allocated env c template h a.1 h'
  length : ∀ k l : Nat, (k : Int) < c.existsSeq → (l : Int) < c.existsSeq →
    (candidate env c template k).length = (candidate env c template l).length
  ne : ∀ k l : Nat, (k : Int) < c.existsSeq → (l : Int) < c.existsSeq → k ≠ l →
    candidate env c template k ≠ candidate env c template l
  history : ∀ past files, History env c template past files →
    (∀ k (hk : k < past.length), past[k] = numbered env c template k) ∧
    ∀ r h, h.files = files → ∃ n, Ends (· = .ok) n (openOutput env c r) h fun _ _ => True

end

section

variable {env : Env} {c : ConfOutput} {template : Str} {h : Host}

theorem noErr : ¬∃ e, (Answer.err e) = .ok := fun ⟨_, he⟩ => nomatch he

/-! ### One run -/

/-- In front of a turn, if at most `m` more follow it. -/
structure SearchInv (env : Env) (c : ConfOutput) (template : Str) (h : Host) (m : Nat)
    (v : OpenVars) (h' : Host) : Prop where
  ready : v.Ready env c template
  same : SameFiles h h'
  taken : ∀ l < v.counter, candidate env c template l ∈ h.files
  below : (v.counter : Int) < c.existsSeq
  turns : c.existsSeq ≤ v.counter + 1 + m

def Found (env : Env) (c : ConfOutput) (template : Str) (h : Host) :
    Option (Nat × Str) → Host → Prop
  | none, h' => AllTaken env c template h.files ∧ SameFiles h h'
  | some _, h' => ∃ k, LeastFree env c template h.files k ∧
      h'.files = candidate env c template k :: h.files ∧
      h'.outputs = h.outputs ++ [(candidate env c template k, true)]

theorem searchInv_turn (hslash : template.head? = some (ch '/')) (hexist : c.exist = .sequence)
    (hint : c.existsSeq ≤ intMax) (hexp : Expands env c template) {m : Nat} {v : OpenVars}
    {h' : Host} (hI : SearchInv env c template h m v h') :
    Ends (· = .ok) (1 + pathMax) (openTurn env c template v) h' (fun r h'' =>
      Sum.elim (fun v' => ∃ m' < m, SearchInv env c template h m' v' h'')
        (Found env c template h · h'') r) := by
  have hbelow := hI.below
  have hok : outcome env c template v.counter = .ok () := by
    rw [outcome_eq hbelow (l := 0) (by omega)]
    exact hexp.outcome
  refine (ends_openTurn hslash (by rw [hexist]; decide) hexp.text hI.ready ?_ ?_).mono
    (Nat.le_refl _) ?_
  · intro _ _ _
    omega
  · intro hkeep
    rw [hexist] at hkeep
    cases hkeep
  intro r h'' hr
  match r, hr with
  | .inl v', hr =>
    rcases hr with ⟨hv', hlen, hs, -, -, hmem, hgo⟩ | ⟨_, _, _, _, herr, _⟩
    · have hlt : (v.counter : Int) + 1 < c.existsSeq := by omega
      have hfits : intlen (v.counter + 1) ≤ seqLen c (v.counter + 1) :=
        intlen_le_seqLen (Or.inr (Or.inl hlt))
      have hturns := hI.turns
      rw [hI.same.1] at hmem
      refine ⟨m - 1, by omega, ⟨?_, hI.same.trans hs, ?_, ?_, ?_⟩⟩
      · rw [hv']
        exact ⟨hlen, hfits, known_of_ok hslash hexp.text hI.ready.fits hfits hok,
          fun _ hc => nomatch hc⟩
      · rw [hv']
        intro l hl
        rcases Nat.lt_or_eq_of_le (Nat.le_of_lt_succ hl) with hl | rfl
        · exact hI.taken l hl
        · exact hmem
      · rw [hv']
        exact hlt
      · rw [hv']
        show c.existsSeq ≤ ((v.counter + 1 : Nat) : Int) + 1 + ((m - 1 : Nat) : Int)
        omega
    · exact absurd herr noErr
  | .inr none, hr =>
    rcases hr with ⟨-, hbad⟩ | ⟨hs, -, hmem, -, hlim⟩ | herr
    · cases hok.symm.trans hbad
    · rw [hI.same.1] at hmem
      refine ⟨fun k hk => ?_, hI.same.trans hs⟩
      rcases Nat.lt_or_eq_of_le (show k ≤ v.counter by omega) with hl | rfl
      · exact hI.taken k hl
      · exact hmem
    · exact absurd herr noErr
  | .inr (some (fd, name)), ⟨_, hname, hopen⟩ =>
    rcases hopen with ⟨hnew, hfiles, hout⟩ | ⟨hkeep, -⟩
    · rw [hexist] at hnew
      have hfree : candidate env c template v.counter ∉ h'.files := fun hmem => hnew ⟨rfl, hmem⟩
      rw [if_neg hfree] at hfiles
      rw [decide_eq_true hfree] at hout
      refine ⟨v.counter, ⟨hbelow, ?_, hI.taken⟩, ?_, ?_⟩
      · rw [← hI.same.1]
        exact hfree
      · rw [hfiles, hI.same.1]
      · rw [hout, hI.same.2]
    · cases hexist.symm.trans hkeep

/-- **A run gets the least number that is free.** -/
theorem ends_openOutput_sequence (houtput : c.output = some template)
    (hslash : template.head? = some (ch '/')) (hexist : c.exist = .sequence)
    (hint : c.existsSeq ≤ intMax) (hpos : 0 < c.existsSeq) (hexp : Expands env c template)
    (r : RunOutput) (h : Host) :
    ∃ n, Ends (· = .ok) n (openOutput env c r) h
      fun a h' => Allocated env c template h a.1 h' := by
  have hstart : SearchInv env c template h (c.existsSeq - 1).toNat (OpenVars.start env c) h := by
    refine ⟨ready_start ?_, SameFiles.refl h, fun l hl => absurd hl (Nat.not_lt_zero l), hpos, ?_⟩
    · rw [hexp.outcome]
      exact fun hbad => nomatch hbad
    · show c.existsSeq ≤ ((0 : Nat) : Int) + 1 + ((c.existsSeq - 1).toNat : Int)
      omega
  have hloop := ends_forever (SearchInv env c template h) (by omega)
    (fun m v h' hI => searchInv_turn hslash hexist hint hexp hI) hstart
  refine ⟨_, (ends_openOutput houtput hslash hloop).mono (Nat.le_refl _) fun a h' ha => ?_⟩
  rcases ha with ⟨h₁, ⟨hall, hs₁⟩, hs, hret⟩ | ⟨h₁, f, ⟨k, hk, hfiles, hout⟩, hs, hret⟩
  · refine ⟨fun k hk => absurd (hall k hk.below) hk.free, ⟨fun _ => hall, fun _ => hret⟩, ?_⟩
    exact fun _ => hs₁.trans hs
  · have hzero : a.1 = 0 := hret.resolve_right noErr
    refine ⟨fun l hl => ?_, ⟨fun hbad => ?_, fun hall => ?_⟩, fun hbad => ?_⟩
    · have heq : l = k := by
        rcases Nat.lt_trichotomy l k with hlt | he | hlt
        · exact absurd (hk.least l hlt) hl.free
        · exact he
        · exact absurd (hl.least k hlt) hk.free
      rw [heq, hs.1, hs.2]
      exact ⟨hzero, hfiles, hout⟩
    · rw [hzero] at hbad
      cases hbad
    · exact absurd (hall k hk.below) hk.free
    · rw [hzero] at hbad
      cases hbad

/-! ### One run after the other -/

theorem history_inv (houtput : c.output = some template) (hslash : template.head? = some (ch '/'))
    (hexist : c.exist = .sequence) (hint : c.existsSeq ≤ intMax) (hpos : 0 < c.existsSeq)
    (hQ : Active (ch 'Q') (env.strftime template)) (hexp : Expands env c template)
    {past : List (Int × List (Str × Bool))} {files : List Str}
    (hH : History env c template past files) :
    (∀ k (hk : k < past.length), past[k] = numbered env c template k) ∧
      ∀ k : Nat, (k : Int) < c.existsSeq →
        (candidate env c template k ∈ files ↔ k < past.length) := by
  induction hH with
  | nil hfree =>
    refine ⟨fun k hk => absurd hk (Nat.not_lt_zero k), fun k hk => ?_⟩
    exact ⟨fun hmem => absurd hmem (hfree k hk), fun hlt => absurd hlt (Nat.not_lt_zero k)⟩
  | @snoc past h h' r o rest a new hpast ho hrun hnew ih =>
    obtain ⟨hvals, hnames⟩ := ih
    obtain ⟨n, hends⟩ := ends_openOutput_sequence houtput hslash hexist hint hpos hexp r h
    have hrun := hends.of_done ho hrun
    -- the run with the number `past.length`, and the files it leaves
    have hlast : (a.1, new) = numbered env c template past.length ∧
        ∀ k : Nat, (k : Int) < c.existsSeq →
          (candidate env c template k ∈ h'.files ↔ k < past.length + 1) := by
      rw [numbered]
      by_cases hlt : (past.length : Int) < c.existsSeq
      · have hfree : LeastFree env c template h.files past.length := by
          refine ⟨hlt, fun hmem => ?_, fun l hl => ?_⟩
          · exact Nat.lt_irrefl _ ((hnames _ hlt).mp hmem)
          · exact (hnames l (by omega)).mpr hl
        obtain ⟨hret, hfiles, hout⟩ := hrun.free _ hfree
        rw [hout] at hnew
        rw [if_pos hlt, hret, List.append_cancel_left hnew]
        refine ⟨rfl, fun k hk => ?_⟩
        rw [hfiles, List.mem_cons, hnames k hk, Nat.lt_succ_iff, Nat.le_iff_lt_or_eq, or_comm]
        refine or_congr_right ⟨fun heq => ?_, fun heq => by rw [heq]⟩
        by_contra hne
        exact candidate_ne hQ hk hlt hne heq
      · have hall : AllTaken env c template h.files := fun k hk => (hnames k hk).mpr (by omega)
        have hret := hrun.fails.mpr hall
        obtain ⟨hfiles, hout⟩ := hrun.same hret
        rw [hout] at hnew
        rw [if_neg hlt, hret, List.self_eq_append_right.mp hnew]
        refine ⟨rfl, fun k hk => ?_⟩
        rw [hfiles, hnames k hk]
        omega
    refine ⟨fun k hk => ?_, ?_⟩
    · rw [List.length_append, List.length_singleton] at hk
      rcases Nat.lt_or_eq_of_le (Nat.le_of_lt_succ hk) with hk | rfl
      · rw [List.getElem_append_left hk]
        exact hvals k hk
      · rw [List.getElem_concat_length rfl]
        exact hlast.1
    · rw [List.length_append, List.length_singleton]
      exact hlast.2

/-! ### When the expansion ends early -/

theorem not_ends {α : Type} {m : HostRun α} {n : Nat} {Q : α → Host → Prop}
    (hmeets : Meets (· = .ok) m h (fun _ _ => False) (fun _ _ => True)) :
    ¬Ends (· = .ok) n m h Q := by
  intro hends
  have ho : ∀ w ∈ List.replicate n Answer.ok, w = .ok := fun w hw => List.eq_of_mem_replicate hw
  have hrun := hmeets _ ho
  obtain ⟨a, h', rest, heq, -⟩ := (hends.after ho (by rw [List.length_replicate])).exists
  rw [heq] at hrun
  exact hrun.2

theorem ends_openOutput_tooLong (houtput : c.output = some template)
    (hslash : template.head? = some (ch '/')) (hexist : c.exist = .sequence)
    (htext : (env.strftime template).length < pathMax)
    (hlong : outcome env c template 0 = .error .tooLong) (r : RunOutput) (h : Host) :
    ∃ n, Ends (· = .ok) n (openOutput env c r) h fun a h' => a.1 = -1 ∧ SameFiles h h' := by
  have hready : (OpenVars.start env c).Ready env c template :=
    ready_start (by rw [hlong]; exact fun hbad => nomatch hbad)
  have hloop : Ends (· = .ok) ((0 + 1) * (1 + pathMax))
      (forever (openTurn env c template) (OpenVars.start env c)) h
      (fun f h' => f = none ∧ SameFiles h h') := by
    refine ends_forever (fun _ v h' => v = OpenVars.start env c ∧ h' = h) (by omega) ?_ ⟨rfl, rfl⟩
    rintro m _ _ ⟨rfl, rfl⟩
    refine (ends_openTurn hslash (by rw [hexist]; decide) htext hready ?_ ?_).mono (Nat.le_refl _) ?_
    · exact fun _ hok => nomatch hlong.symm.trans hok
    · exact fun _ hok => nomatch hlong.symm.trans hok
    intro r h'' hr
    match r, hr with
    | .inl _, hr =>
      rcases hr with ⟨_, _, _, _, hok, _⟩ | ⟨_, _, _, _, herr, _⟩
      · cases hlong.symm.trans hok
      · exact absurd herr noErr
    | .inr none, hr =>
      rcases hr with ⟨hs, -⟩ | ⟨hs, -⟩ | herr
      · exact ⟨rfl, hs⟩
      · exact ⟨rfl, hs⟩
      · exact absurd herr noErr
    | .inr (some _), hr => cases hlong.symm.trans hr.1
  refine ⟨_, (ends_openOutput houtput hslash hloop).mono (Nat.le_refl _) fun a h' ha => ?_⟩
  rcases ha with ⟨h₁, ⟨-, hs₁⟩, hs, hret⟩ | ⟨h₁, f, ⟨hf, -⟩, -⟩
  · exact ⟨hret, hs₁.trans hs⟩
  · cases hf

theorem expands_of_allocates (houtput : c.output = some template)
    (hslash : template.head? = some (ch '/')) (hexist : c.exist = .sequence)
    (hpos : 0 < c.existsSeq) {r : RunOutput} (hall : Allocates env c template r h) :
    Expands env c template := by
  have hfault : ¬(pathMax ≤ (env.strftime template).length ∨
      outcome env c template 0 = .error .unknownExe) := by
    intro hbad
    obtain ⟨n, hends⟩ := hall.run
    exact not_ends (meets_openOutput_of_loop houtput hslash (meets_loop_fault hslash hbad)) hends
  rw [not_or, Nat.not_le] at hfault
  refine ⟨hfault.1, ?_⟩
  cases hout : outcome env c template 0 with
  | ok u => rfl
  | error e =>
    cases e with
    | unknownExe => exact absurd hout hfault.2
    | tooLong =>
      -- the first run in an empty directory fails
      obtain ⟨n, hends⟩ := ends_openOutput_tooLong houtput hslash hexist hfault.1 hout r
        { fds := ⟨[]⟩, files := [] }
      have ho : ∀ w ∈ List.replicate n Answer.ok, w = .ok :=
        fun w hw => List.eq_of_mem_replicate hw
      obtain ⟨a, h', rest, hrun, hret, hs⟩ :=
        (hends.after ho (by rw [List.length_replicate])).exists
      have hempty : History env c template [] [] := .nil fun _ _ => List.not_mem_nil
      have hone : History env c template [(a.1, [])] h'.files :=
        hempty.snoc ho hrun (by rw [hs.2, List.append_nil])
      have hfirst := (hall.history _ _ hone).1 0 Nat.one_pos
      rw [numbered, if_pos (show ((0 : Nat) : Int) < c.existsSeq from hpos)] at hfirst
      have hzero : a.1 = 0 := congrArg Prod.fst hfirst
      rw [hret] at hzero
      cases hzero

/-- **When outputs are numbered as they should be**: the text fits into `path`,
and the expansion does not end early. -/
theorem allocates_iff (houtput : c.output = some template)
    (hslash : template.head? = some (ch '/')) (hexist : c.exist = .sequence)
    (hint : c.existsSeq ≤ intMax) (hpos : 0 < c.existsSeq)
    (hQ : Active (ch 'Q') (env.strftime template)) (r : RunOutput) (h : Host) :
    Allocates env c template r h ↔ Expands env c template := by
  constructor
  · exact expands_of_allocates houtput hslash hexist hpos
  · intro hexp
    refine ⟨?_, ?_, ?_, ?_⟩
    · exact ends_openOutput_sequence houtput hslash hexist hint hpos hexp r h
    · exact fun k l hk hl => length_candidate_eq hk hl
    · exact fun k l hk hl hne => candidate_ne hQ hk hl hne
    · intro past files hH
      refine ⟨(history_inv houtput hslash hexist hint hpos hQ hexp hH).1, fun r h _ => ?_⟩
      obtain ⟨n, hn⟩ := ends_openOutput_sequence houtput hslash hexist hint hpos hexp r h
      exact ⟨n, hn.mono (Nat.le_refl n) fun _ _ _ => trivial⟩

end

/-- The test of the repository: eleven outputs with two digits each. -/
theorem allocates_iff_test :
    let env := Env.plain 1 none
    let c : ConfOutput := { output := some (lit "/_@Q-a"), exist := .sequence, existsSeq := 11 }
    0 < c.existsSeq ∧ (Allocates env c (lit "/_@Q-a") {} { fds := ⟨[]⟩, files := [] } ↔
      Expands env c (lit "/_@Q-a")) :=
  ⟨by decide, allocates_iff rfl rfl rfl (by decide) (by decide) (by decide) _ _⟩

theorem not_allocates_long :
    let env := Env.plain 1 (some (lit "/x"))
    let template := List.replicate 4090 (ch '/') ++ lit "@Q@e"
    let c : ConfOutput := { output := some template, exist := .sequence, existsSeq := 1 }
    Active (ch 'Q') (env.strftime template) ∧
      (∀ k : Nat, (k : Int) < c.existsSeq → (candidate env c template k).length < pathMax) ∧
      ∀ r h, ¬Allocates env c template r h := by
  refine ⟨by decide +kernel, fun k hk => ?_, fun r h hall => ?_⟩
  · obtain rfl : k = 0 := by
      have : (k : Int) < 1 := hk
      omega
    decide +kernel
  · have hexp := expands_of_allocates rfl (by decide +kernel) rfl (by decide) hall
    have hlong : outcome (Env.plain 1 (some (lit "/x")))
        { output := some (List.replicate 4090 (ch '/') ++ lit "@Q@e"), exist := .sequence,
          existsSeq := 1 } (List.replicate 4090 (ch '/') ++ lit "@Q@e") 0 = .error .tooLong := by
      decide +kernel
    cases hlong.symm.trans hexp.outcome

end Crashinfo
