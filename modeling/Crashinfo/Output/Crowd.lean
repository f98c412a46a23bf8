import Crashinfo.Output.Instances
import Crashinfo.Output.Sequence
import Mathlib.Algebra.Order.BigOperators.Group.Finset

/-!
# What a crowd of instances comes to

Whatever instances run at the same time, and whichever goes on next: a file that one
of them has created is new and no other one opens it (`instances_apart`), and in mode
`sequence` each one gets what it would get if it ran alone, at the moment it gets it
(`instance_least`).  They come to an end (`instances_end`), and if all number their
outputs in the same way, then there are as many outputs as instances, or as many as
numbers (`instances_share`).
-/

namespace Crashinfo

open Script Script.Run

section

variable {ι : Type} {P : Answer → Prop} {party : ι → Party} {s₀ s s' : Instances ι}
  {t : Race.State ι Str} {i : ι} {m : Nat}

theorem Party.limit_pos (p : Party) : 0 < p.limit := by
  rw [Party.limit]
  split
  · exact Nat.one_pos
  split
  · omega
  · exact Nat.succ_pos _

theorem Mirror.outputs {p : Party} {outputs : List (Str × Bool)} {pos : Nat} {fate : Race.Fate}
    {q : Pause} (hm : Mirror P p outputs pos fate q) :
    outputs = [] ∨ fate = .won ∧ outputs = [(p.name pos, true)] := by
  cases q with
  | opening v => exact Or.inl hm.2.2.2
  | making v cur ds => exact Or.inl hm.2.2.2.2.2
  | keeping cur => exact Or.inl hm.2.2.2
  | through f =>
    cases f with
    | none => exact Or.inl hm.2
    | some f =>
      obtain ⟨hname, ⟨hwon, hout⟩ | ⟨-, -, hout⟩⟩ := hm
      · exact Or.inr ⟨hwon, by rw [hout, hname]⟩
      · exact Or.inl hout

structure Raced (P : Answer → Prop) (party : ι → Party) (files : List Str) (s : Instances ι)
    (t : Race.State ι Str) : Prop extends Mirrors P party s t where
  inv : Race.Inv (fun i => (party i).name) (fun i => (party i).limit) {x | x ∈ files} t

theorem raced_start (hstart : AtStart party s) :
    Raced P party s.files s (Race.start {x | x ∈ s.files}) where
  taken := fun _ => Iff.rfl
  each := fun i => by
    rw [hstart.pause i]
    exact ⟨ready_start (party i).known, rfl, rfl, hstart.outputs i⟩
  inv := Race.inv_start fun i => (party i).limit_pos

/-- All instances number their outputs as `p` does, and nothing else can go wrong. -/
structure Alike (p : Party) (party : ι → Party) : Prop where
  name : ∀ i, (party i).name = p.name
  conf : ∀ i, (party i).c = p.c
  expands : ∀ i, Expands (party i).env (party i).c (party i).template

theorem Party.limit_sequence {p : Party} (hexist : p.c.exist = .sequence)
    (hpos : 0 < p.c.existsSeq) : p.limit = p.c.existsSeq.toNat := by
  rw [Party.limit, if_neg (by rw [hexist]; decide), if_pos hpos]

theorem Alike.limit {p : Party} (ha : Alike p party) (i : ι) : (party i).limit = p.limit := by
  rw [Party.limit, Party.limit, ha.conf i]

theorem Alike.not_excuse {p : Party} (ha : Alike p party) (hexist : p.c.exist = .sequence)
    (hpos : 0 < p.c.existsSeq) (i : ι) : ¬(party i).Excuse NoErr := by
  rintro (⟨k, hk, hlong⟩ | ⟨e, he⟩)
  · rw [ha.limit, Party.limit_sequence hexist hpos] at hk
    have hbelow : (k : Int) < (party i).c.existsSeq := by
      rw [ha.conf]
      omega
    have hzero : ((0 : Nat) : Int) < (party i).c.existsSeq := by
      rw [ha.conf]
      omega
    rw [outcome_eq hbelow hzero, (ha.expands i).outcome] at hlong
    cases hlong
  · exact he e rfl

theorem Alike.names {p : Party} (ha : Alike p party) (hexist : p.c.exist = .sequence)
    (hpos : 0 < p.c.existsSeq) (hQ : Active (ch 'Q') (p.env.strftime p.template)) :
    Race.Names (fun i => (party i).name) (fun i => (party i).limit) p.name
      p.c.existsSeq.toNat where
  name := fun i k => congrFun (ha.name i) k
  limit := fun i => (ha.limit i).trans (Party.limit_sequence hexist hpos)
  injective := by
    intro k hk l hl heq
    by_contra hne
    exact candidate_ne hQ (show (k : Int) < p.c.existsSeq by omega) (by omega) hne heq

theorem Alike.noise {p : Party} (ha : Alike p party) {x : Str} (hx : Noise party x) (k : Nat) :
    x ≠ p.name k := by
  obtain ⟨i, l, hmem⟩ := hx
  rw [← ha.name i]
  exact dirsOf_candidate hmem

variable [DecidableEq ι]

theorem Raced.step {files : List Str} (hr : Raced P party files s t) (hgo : Goes P party s i s') :
    Raced P party files s' t ∨ ∃ t', RaceStep party t t' ∧ Raced P party files s' t' := by
  rcases hr.toMirrors.step hr.inv.below hgo with hstay | ⟨t', hstep, hm⟩
  · exact Or.inl ⟨hstay, hr.inv⟩
  · exact Or.inr ⟨t', hstep, hm, hr.inv.step hstep⟩

/-- **The run lemma**: what a race keeps holds of the race of the instances. -/
theorem Raced.run_inv {J : Race.State ι Str → Prop} (hstart : AtStart party s₀)
    (hJ : J (Race.start {x | x ∈ s₀.files}))
    (hstep : ∀ t t', Race.Inv (fun i => (party i).name) (fun i => (party i).limit)
      {x | x ∈ s₀.files} t → RaceStep party t t' → J t → J t')
    (hrun : InstRun P party s₀ m s) : ∃ t, Raced P party s₀.files s t ∧ J t := by
  induction hrun with
  | start => exact ⟨_, raced_start hstart, hJ⟩
  | step hrun hgo ih =>
    obtain ⟨t, hr, ht⟩ := ih
    rcases hr.step hgo with hstay | ⟨t', hrace, hr'⟩
    · exact ⟨t, hstay, ht⟩
    · exact ⟨t', hr', hstep t t' hr.inv hrace ht⟩

theorem Raced.run (hstart : AtStart party s₀) (hrun : InstRun P party s₀ m s) :
    ∃ t, Raced P party s₀.files s t := by
  obtain ⟨t, hr, -⟩ := Raced.run_inv (J := fun _ => True) hstart trivial (fun _ _ _ _ _ => trivial) hrun
  exact ⟨t, hr⟩

/-- **Outputs of different instances are different files.**  What an instance creates was
not there at first, and no other instance ever opens it; and an instance that ends with
a file has created it, or keeps what is there. -/
theorem instances_apart (hstart : AtStart party s₀) (hrun : InstRun P party s₀ m s) :
    (∀ i, (s.host i).outputs = [] ∨ ∃ name, (s.host i).outputs = [(name, true)] ∧
      name ∉ s₀.files ∧ name ∈ s.files ∧ ∀ j, j ≠ i → ∀ b, (name, b) ∉ (s.host j).outputs) ∧
    ∀ i fd name, s.pause i = .through (some (fd, name)) → (s.host i).outputs = [(name, true)] ∨
      (party i).c.exist = .keep ∧ (s.host i).outputs = [] ∧ name ∈ s.files := by
  obtain ⟨t, hr⟩ := Raced.run hstart hrun
  refine ⟨fun i => ?_, fun i fd name hover => ?_⟩
  · rcases (hr.each i).outputs with hnone | ⟨hwon, hout⟩
    · exact Or.inl hnone
    · obtain ⟨htaken, hnew⟩ := hr.inv.won i hwon
      refine Or.inr ⟨_, hout, hnew, (hr.taken _).mp htaken, fun j hj b hmem => ?_⟩
      rcases (hr.each j).outputs with hnone | ⟨hwon', hout'⟩
      · rw [hnone] at hmem
        cases hmem
      · rw [hout', List.mem_singleton, Prod.mk.injEq] at hmem
        exact hr.inv.apart i j hj.symm hwon hwon' hmem.1
  · have hself := hr.each i
    rw [hover] at hself
    obtain ⟨hname, ⟨hwon, hout⟩ | ⟨hlost, hkeep, hout⟩⟩ := hself
    · exact Or.inl hout
    · refine Or.inr ⟨hkeep, hout, ?_⟩
      rw [hname, ← hr.taken]
      exact hr.inv.lost i hlost _ (hr.inv.below i)

/-- **An instance gets what it would get alone**, at the moment it gets it: the first of its
names that does not exist then; or all of them exist, if there is no other reason to
give up. -/
theorem instance_least (hstart : AtStart party s₀) (hrun : InstRun P party s₀ m s)
    (hseq : (party i).c.exist = .sequence) (hgo : Goes P party s i s') :
    (∀ fd name, s'.pause i = .through (some (fd, name)) → ∃ k < (party i).limit,
      name = (party i).name k ∧ name ∉ s.files ∧ (∀ l < k, (party i).name l ∈ s.files) ∧
      s'.files = name :: s.files ∧ (s'.host i).outputs = [(name, true)]) ∧
    (s'.pause i = .through none → (∀ k < (party i).limit, (party i).name k ∈ s.files) ∧
      s'.files = s.files ∨ (party i).Excuse P) := by
  obtain ⟨t, hr⟩ := Raced.run hstart hrun
  obtain ⟨ho, hbusy, hrun⟩ := hgo
  rename_i o rest q h
  have hpause : (s.move i q h).pause i = q := by simp [Instances.move]
  have hhost : (s.move i q h).host i = h := by simp [Instances.move]
  rw [hpause, hhost]
  have hself := hr.each i
  cases hat : s.pause i with
  | opening v =>
    rw [hat] at hrun hself
    obtain ⟨hready, hpos, -, hout⟩ := hself
    have hlimit : v.counter < (party i).limit := hpos ▸ hr.inv.below i
    have hnext := ((party i).leads_opening hready hlimit).of_done ho hrun
    refine ⟨fun fd name hover => ?_, fun hover => ?_⟩
    · rw [hover] at hnext
      obtain ⟨hname, hnew, hfiles, hopened⟩ := hnext
      refine ⟨v.counter, hlimit, hname, hnew, fun l hl => ?_, hfiles, ?_⟩
      · rw [← hr.taken]
        exact hr.inv.tried i l (hpos ▸ hl)
      · rw [hopened]
        exact congrArg (· ++ _) hout
    · rw [hover] at hnext
      refine hnext.2.imp_left fun hall => ⟨fun k hk => ?_, hnext.1.1⟩
      rw [hpos] at hall
      rw [← hr.taken]
      exact hr.inv.all_tried ((hr.taken _).mpr hall.2.1) hall.2.2 k hk
  | making v cur ds =>
    rw [hat] at hrun
    cases ds with
    | nil =>
      cases hrun
      exact ⟨by simp, by simp⟩
    | cons d ds =>
      obtain ⟨-, ⟨rfl, -⟩ | ⟨-, rfl | ⟨rfl, hexcuse⟩⟩⟩ := (party i).ends_making.of_done ho hrun
      · exact ⟨by simp, by simp⟩
      · exact ⟨by simp, by simp⟩
      · exact ⟨by simp, fun _ => Or.inr hexcuse⟩
  | keeping cur =>
    rw [hat] at hself
    rw [hself.2.1] at hseq
    cases hseq
  | through f => exact absurd hat (hbusy f)

/-! ### They come to an end -/

def Pause.left (p : Party) : Pause → Nat
  | .opening v => 2 * (p.limit - v.counter) + if v.mkdir then pathMax + 2 else 0
  | .making v _ ds => 2 * (p.limit - v.counter) + (ds.length + 1)
  | .keeping _ => 1
  | .through _ => 0

theorem length_dirsOf_le {p : Party} {k : Nat} {cur : Cursor}
    (hcur : Expanded p.env p.c p.template k cur) : (dirsOf cur.result).length ≤ pathMax := by
  have hdirs : (dirsOf cur.result).length ≤ cur.result.length := by
    rw [dirsOf, List.length_map]
    exact (List.length_filter_le _ _).trans_eq List.length_range
  have hresult : cur.result.length ≤ cur.path.cells.length := by
    have := (List.takeWhile_prefix (l := cur.path.cells.drop cur.j.toNat) (· ≠ 0)).length_le
    rw [List.length_drop] at this
    exact this.trans (Nat.sub_le _ _)
  rw [hcur.length] at hresult
  exact hdirs.trans hresult

theorem Party.Next.left_lt {p : Party} {v : OpenVars} {h h' : Host} {q : Pause}
    (hlt : v.counter < p.limit) (hnext : p.Next P v h q h') :
    q.left p < (Pause.opening v).left p := by
  rw [Pause.left.eq_1]
  cases q with
  | opening v' =>
    obtain ⟨-, hcounter, hmkdir, -, -, hmore⟩ := hnext
    rw [Pause.left, hcounter, hmkdir]
    omega
  | making v' cur ds =>
    obtain ⟨rfl, hmkdir, hcur, rfl, -⟩ := hnext
    have := length_dirsOf_le hcur
    rw [Pause.left, if_pos hmkdir]
    omega
  | keeping cur =>
    rw [Pause.left]
    omega
  | through f =>
    rw [Pause.left]
    omega

theorem Raced.left_lt {files : List Str} (hr : Raced P party files s t)
    (hgo : Goes P party s i s') :
    (s'.pause i).left (party i) < (s.pause i).left (party i) ∧
      ∀ j, j ≠ i → s'.pause j = s.pause j := by
  obtain ⟨ho, hbusy, hrun⟩ := hgo
  rename_i o rest q h
  have hpause : (s.move i q h).pause i = q := by simp [Instances.move]
  rw [hpause]
  refine ⟨?_, fun j hj => by simp [Instances.move, hj]⟩
  have hself := hr.each i
  cases hat : s.pause i with
  | opening v =>
    rw [hat] at hrun hself
    have hlimit : v.counter < (party i).limit := hself.2.1 ▸ hr.inv.below i
    exact (((party i).leads_opening hself.1 hlimit).of_done ho hrun).left_lt hlimit
  | making v cur ds =>
    rw [hat] at hrun
    cases ds with
    | nil =>
      cases hrun
      simp [Pause.left]
    | cons d ds =>
      obtain ⟨-, ⟨rfl, -⟩ | ⟨-, rfl | ⟨rfl, -⟩⟩⟩ := (party i).ends_making.of_done ho hrun <;>
        simp [Pause.left]
  | keeping cur =>
    rw [hat] at hrun
    obtain ⟨-, -, rfl | ⟨fd, rfl⟩⟩ := (party i).ends_keeping.of_done ho hrun <;> simp [Pause.left]
  | through f => exact absurd hat (hbusy f)

theorem exists_bound [Fintype ι] (hstart : AtStart party s₀) :
    ∃ bound, ∀ m s, InstRun P party s₀ m s → m ≤ bound := by
  have hle : ∀ m s, InstRun P party s₀ m s →
      (∑ i, (s.pause i).left (party i)) + m ≤ ∑ i, (s₀.pause i).left (party i) := by
    intro m s hrun
    induction hrun with
    | start => exact Nat.le_refl _
    | @step m s s' i hrun hgo ih =>
      obtain ⟨t, hr⟩ := Raced.run hstart hrun
      obtain ⟨hself, hother⟩ := hr.left_lt hgo
      have hsum : (∑ j, (s'.pause j).left (party j)) < ∑ j, (s.pause j).left (party j) := by
        refine Finset.sum_lt_sum (fun j _ => ?_) ⟨i, Finset.mem_univ i, hself⟩
        by_cases hj : j = i
        · rw [hj]
          exact Nat.le_of_lt hself
        · rw [hother j hj]
      omega
  exact ⟨_, fun m s hrun => Nat.le_trans (Nat.le_add_left m _) (hle m s hrun)⟩

def Stuck (P : Answer → Prop) (party : ι → Party) (s : Instances ι) : Prop :=
  ∀ i s', ¬Goes P party s i s'

theorem exists_stuck [Fintype ι] (hstart : AtStart party s₀) :
    ∃ m s, InstRun P party s₀ m s ∧ Stuck P party s := by
  obtain ⟨bound, hbound⟩ := exists_bound (P := P) hstart
  by_contra hno
  have hgo : ∀ m, ∃ s, InstRun P party s₀ m s := by
    intro m
    induction m with
    | zero => exact ⟨s₀, .start⟩
    | succ m ih =>
      obtain ⟨s, hrun⟩ := ih
      by_contra hlast
      refine hno ⟨m, s, hrun, fun i s' hgo => hlast ⟨s', .step hrun hgo⟩⟩
  obtain ⟨s, hrun⟩ := hgo (bound + 1)
  have := hbound _ s hrun
  omega

/-! ### One list of names -/

/-- An instance with a limit does not stop on its way. -/
theorem Party.ends_go (p : Party) (hpos : p.c.exist = .sequence → 0 < p.c.existsSeq)
    (hquiet : p.c.exist = .keep → p.env.notices = false) {q : Pause} {h : Host}
    (hq : ∀ v, q = .opening v → p.Ready v ∧ v.counter < p.limit) :
    Ends P 1 (p.go q) h fun _ _ => True := by
  cases q with
  | making v cur ds =>
    cases ds with
    | nil => exact ends_pure trivial
    | cons d ds => exact p.ends_making.mono (Nat.le_refl 1) fun _ _ _ => trivial
  | keeping cur => exact p.ends_keeping.mono (Nat.le_refl 1) fun _ _ _ => trivial
  | through f => exact ends_pure trivial
  | opening v =>
    obtain ⟨hready, hlt⟩ := hq v rfl
    have hover : p.c.exist = .sequence → ¬(v.counter : Int) ≥ intMax := by
      intro hexist
      have := hpos hexist
      have := p.int
      rw [Party.limit, if_neg (by rw [hexist]; decide), if_pos (hpos hexist)] at hlt
      omega
    have hopen : ∀ cur h, Ends P 1 (pauseOpen p.env p.c v cur) h fun _ _ => True := by
      intro cur h
      refine ends_bind (k := 1) (n := 0) ((ends_openFile _ _).mono (Nat.le_refl 1) fun r h₁ _ => ?_)
      cases r with
      | ok fd => exact ends_pure trivial
      | error e =>
        show Ends P 0 (pauseFailed p.env p.c v cur e) h₁ _
        rw [pauseFailed]
        split
        · rename_i hkeep
          rw [keepNotice_of_quiet (hquiet hkeep.2)]
          exact ends_pure trivial
        split
        · rename_i hseq
          refine ends_step ?_
          rw [nextName, if_neg (hover hseq.2)]
          split
          · exact ends_pure (ends_pure trivial)
          · exact ends_step (ends_modify (ends_pure (ends_pure trivial)))
        split
        · exact ends_pure trivial
        · exact ends_step (ends_modify (ends_pure trivial))
    rw [Party.go, Pause.go]
    cases hc : v.cursor with
    | some cur => exact hopen cur h
    | none =>
      refine ends_step ((ends_expandPath p.slash p.exist_ne hready.fits hready.length p.text
        hready.known).mono (Nat.le_refl 0) fun r h₁ _ => ?_)
      cases r with
      | none => exact ends_pure trivial
      | some cur => exact hopen cur h₁

theorem Raced.exists_goes {files : List Str} (hr : Raced NoErr party files s t)
    (hpos : (party i).c.exist = .sequence → 0 < (party i).c.existsSeq)
    (hquiet : (party i).c.exist = .keep → (party i).env.notices = false)
    (hbusy : ∀ f, s.pause i ≠ .through f) : ∃ s', Goes NoErr party s i s' := by
  have hready : ∀ v, s.pause i = .opening v →
      (party i).Ready v ∧ v.counter < (party i).limit := by
    intro v hv
    have hself := hr.each i
    rw [hv] at hself
    exact ⟨hself.1, hself.2.1 ▸ hr.inv.below i⟩
  have hends : Ends NoErr 1 ((party i).go (s.pause i)) { s.host i with files := s.files }
      fun _ _ => True := (party i).ends_go hpos hquiet hready
  have ho : ∀ w ∈ [Answer.ok], NoErr w := by simp [NoErr]
  obtain ⟨q, h, rest, hrun, -⟩ := (hends.after ho (Nat.le_refl 1)).exists
  exact ⟨_, .go ho hbusy hrun⟩

theorem Raced.through {files : List Str} (hr : Raced NoErr party files s t)
    (hpos : (party i).c.exist = .sequence → 0 < (party i).c.existsSeq)
    (hquiet : (party i).c.exist = .keep → (party i).env.notices = false)
    (hno : ∀ s', ¬Goes NoErr party s i s') : ∃ f, s.pause i = .through f := by
  by_contra hbusy
  rw [not_exists] at hbusy
  obtain ⟨s', hgo⟩ := hr.exists_goes hpos hquiet hbusy
  exact hno s' hgo

/-- **The instances come to an end**, whatever calls fail, if sequences have a limit and
nobody says that a file is kept; and if no call fails, they do not stop before they are
through. -/
theorem instances_end [Fintype ι] (hstart : AtStart party s₀)
    (hpos : ∀ i, (party i).c.exist = .sequence → 0 < (party i).c.existsSeq)
    (hquiet : ∀ i, (party i).c.exist = .keep → (party i).env.notices = false) :
    (∃ bound, ∀ m s, InstRun P party s₀ m s → m ≤ bound) ∧
    ∀ m s, InstRun NoErr party s₀ m s → Stuck NoErr party s →
      ∀ i, ∃ f, s.pause i = .through f := by
  refine ⟨exists_bound hstart, fun m s hrun hno i => ?_⟩
  obtain ⟨t, hr⟩ := Raced.run hstart hrun
  exact hr.through (hpos i) (hquiet i) (hno i)

/-- **A crowd shares the names.**  If no call fails and all instances number their outputs in
the same way, with the numbers below `existsSeq`, none of which is taken at first: there
are runs to the end, and at the end of any of them all are through, as many have an
output as there are instances, or as there are numbers, and it is the first numbers that
are taken. -/
theorem instances_share [Fintype ι] {p : Party} (ha : Alike p party)
    (hexist : p.c.exist = .sequence) (hpos : 0 < p.c.existsSeq)
    (hQ : Active (ch 'Q') (p.env.strftime p.template)) (hstart : AtStart party s₀)
    (hfree : ∀ k : Nat, (k : Int) < p.c.existsSeq → p.name k ∉ s₀.files) :
    (∃ m s, InstRun NoErr party s₀ m s ∧ Stuck NoErr party s) ∧
    ∀ m s, InstRun NoErr party s₀ m s → Stuck NoErr party s →
      (∀ i, ∃ f, s.pause i = .through f) ∧
      (Finset.univ.filter fun i => (s.host i).outputs ≠ []).card =
        min p.c.existsSeq.toNat (Fintype.card ι) ∧
      ∀ k : Nat, (k : Int) < p.c.existsSeq →
        (p.name k ∈ s.files ↔ k < min p.c.existsSeq.toNat (Fintype.card ι)) := by
  refine ⟨exists_stuck hstart, fun m s hrun hno => ?_⟩
  have hnames := ha.names hexist hpos hQ
  have hshared : Race.Shared p.name p.c.existsSeq.toNat
      (Race.start {x | x ∈ s₀.files} : Race.State ι Str) :=
    Race.shared_start fun k hk => hfree k (by omega)
  obtain ⟨t, hr, ht⟩ := Raced.run_inv hstart hshared
    (fun t t' hinv hstep ht => ht.step hnames hinv (fun x hx k => ha.noise hx k) hstep) hrun
  have hover : ∀ i, ∃ f, s.pause i = .through f :=
    fun i => hr.through (fun _ => by rw [ha.conf]; exact hpos)
      (fun hkeep => by rw [ha.conf, hexist] at hkeep; cases hkeep) (hno i)
  have hfate : ∀ i, t.fate i ≠ .running ∧ t.fate i ≠ .quit ∧
      (t.fate i = .won ↔ (s.host i).outputs ≠ []) := by
    intro i
    obtain ⟨f, hf⟩ := hover i
    have hself := hr.each i
    rw [hf] at hself
    cases f with
    | none =>
      obtain ⟨hlost | ⟨-, hexcuse⟩, hout⟩ := hself
      · rw [hlost, hout]
        simp
      · exact absurd hexcuse (ha.not_excuse hexist hpos i)
    | some f =>
      obtain ⟨-, ⟨hwon, hout⟩ | ⟨hlost, -, hout⟩⟩ := hself
      · rw [hwon, hout]
        simp
      · rw [hlost, hout]
        simp
  have hquit : t.count .quit = 0 := by
    rw [Race.State.count, Finset.card_eq_zero, Finset.filter_eq_empty_iff]
    exact fun i _ => (hfate i).2.1
  have hwon := ht.card_won hnames hr.inv fun i => (hfate i).1
  rw [hquit, Nat.sub_zero] at hwon
  refine ⟨hover, ?_, fun k hk => ?_⟩
  · rw [← hwon, Race.State.count]
    congr 1
    ext i
    simp [(hfate i).2.2]
  · rw [← hwon, ← hr.taken, ht.taken k (by omega)]

end

/-! ### Three instances, and two numbers -/

def partyTwo : Party where
  env := Env.plain 1 none
  c := { output := some (lit "/_@Q-a"), exist := .sequence, existsSeq := 2 }
  template := lit "/_@Q-a"
  slash := rfl
  excl := rfl
  int := by decide
  text := by decide
  known := by decide +kernel

def crowdThree : Instances (Fin 3) where
  files := []
  pause := fun _ => .opening (OpenVars.start partyTwo.env partyTwo.c)
  host := fun _ => Host.std []

theorem atStart_three : AtStart (fun _ => partyTwo) crowdThree := ⟨fun _ => rfl, fun _ => rfl⟩

theorem alike_three : Alike partyTwo fun _ : Fin 3 => partyTwo :=
  ⟨fun _ => rfl, fun _ => rfl, fun _ => ⟨by decide, by decide +kernel⟩⟩

theorem instances_apart_three :
    ∃ m s, InstRun NoErr (fun _ => partyTwo) crowdThree m s ∧ Stuck NoErr (fun _ => partyTwo) s ∧
      ∀ i, (s.host i).outputs = [] ∨ ∃ name, (s.host i).outputs = [(name, true)] ∧
        name ∉ crowdThree.files ∧ name ∈ s.files ∧
        ∀ j, j ≠ i → ∀ b, (name, b) ∉ (s.host j).outputs := by
  obtain ⟨m, s, hrun, hno⟩ := exists_stuck (P := NoErr) atStart_three
  exact ⟨m, s, hrun, hno, (instances_apart atStart_three hrun).1⟩

theorem instance_least_three :
    ∃ s', Goes NoErr (fun _ => partyTwo) crowdThree 0 s' ∧
      (∀ fd name, s'.pause 0 = .through (some (fd, name)) → ∃ k < partyTwo.limit,
        name = partyTwo.name k ∧ name ∉ crowdThree.files ∧
        (∀ l < k, partyTwo.name l ∈ crowdThree.files) ∧
        s'.files = name :: crowdThree.files ∧ (s'.host 0).outputs = [(name, true)]) := by
  obtain ⟨s', hgo⟩ := (raced_start (P := NoErr) atStart_three).exists_goes (i := 0)
    (fun _ => by decide) (fun _ => rfl) nofun
  exact ⟨s', hgo, (instance_least atStart_three .start rfl hgo).1⟩

theorem instances_end_three :
    (∃ bound, ∀ m s, InstRun NoErr (fun _ => partyTwo) crowdThree m s → m ≤ bound) ∧
      ∀ m s, InstRun NoErr (fun _ => partyTwo) crowdThree m s →
        Stuck NoErr (fun _ => partyTwo) s → ∀ i, ∃ f, s.pause i = .through f :=
  instances_end atStart_three (fun _ _ => by decide) fun _ _ => rfl

theorem instances_share_three :
    (∃ m s, InstRun NoErr (fun _ => partyTwo) crowdThree m s ∧ Stuck NoErr (fun _ => partyTwo) s) ∧
    ∀ m s, InstRun NoErr (fun _ => partyTwo) crowdThree m s → Stuck NoErr (fun _ => partyTwo) s →
      (Finset.univ.filter fun i => (s.host i).outputs ≠ []).card = 2 := by
  have hshare := instances_share alike_three rfl (by decide) (by decide) atStart_three
    fun k _ => List.not_mem_nil
  exact ⟨hshare.1, fun m s hrun hno => (hshare.2 m s hrun hno).2.1⟩

end Crashinfo
