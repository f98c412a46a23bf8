import Mathlib.Algebra.BigOperators.Ring.Finset
import Mathlib.Data.Fintype.Card
import Mathlib.Data.Set.Insert

/-!
# A race for names

Each runner wants one name.  It has a list of names it would like, as long as its
limit, and tries them one after the other: a name that is free it takes at once, so
that nobody else can, and has won; if all are taken it has lost.  It may also quit
for a reason of its own, and names may be taken by others (`noise`).

Whoever moves next, no two runners win with one name (`Inv.apart`), and a winner has
the first name of its list that was free (`Inv.tried`).  If all have the same list
of names, and it is free at first, then as many win as there are names, or all who
have not quit (`Shared.card_won`).
-/

namespace Race

variable {ι ν : Type}

inductive Fate where
  | running
  | won
  | lost
  | quit
  deriving DecidableEq

structure State (ι ν : Type) where
  taken : Set ν
  /-- which of its names a runner tries, or has tried last -/
  pos : ι → Nat
  fate : ι → Fate

def State.take (s : State ι ν) (x : ν) : State ι ν := { s with taken := insert x s.taken }

section

variable [DecidableEq ι] (name : ι → Nat → ν) (limit : ι → Nat) (noise : ν → Prop)

def State.end (s : State ι ν) (i : ι) (f : Fate) : State ι ν :=
  { s with fate := Function.update s.fate i f }

def State.next (s : State ι ν) (i : ι) : State ι ν :=
  { s with pos := Function.update s.pos i (s.pos i + 1) }

inductive Step (s : State ι ν) : State ι ν → Prop
  | win {i : ι} (hrun : s.fate i = .running) (hfree : name i (s.pos i) ∉ s.taken) :
      Step s ((s.take (name i (s.pos i))).end i .won)
  | skip {i : ι} (hrun : s.fate i = .running) (htaken : name i (s.pos i) ∈ s.taken)
      (hmore : s.pos i + 1 < limit i) : Step s (s.next i)
  | lose {i : ι} (hrun : s.fate i = .running) (htaken : name i (s.pos i) ∈ s.taken)
      (hlast : limit i ≤ s.pos i + 1) : Step s (s.end i .lost)
  | quit {i : ι} (hrun : s.fate i = .running) : Step s (s.end i .quit)
  | fill {x : ν} (hx : noise x) : Step s (s.take x)

/-- What holds from the start on, if the names of `base` were taken then. -/
structure Inv (base : Set ν) (s : State ι ν) : Prop where
  grows : base ⊆ s.taken
  below : ∀ i, s.pos i < limit i
  tried : ∀ i, ∀ k < s.pos i, name i k ∈ s.taken
  won : ∀ i, s.fate i = .won → name i (s.pos i) ∈ s.taken ∧ name i (s.pos i) ∉ base
  lost : ∀ i, s.fate i = .lost → ∀ k < limit i, name i k ∈ s.taken
  apart : ∀ i j, i ≠ j → s.fate i = .won → s.fate j = .won → name i (s.pos i) ≠ name j (s.pos j)

def start (base : Set ν) : State ι ν where
  taken := base
  pos := fun _ => 0
  fate := fun _ => .running

end

@[simp] theorem take_pos (s : State ι ν) (x : ν) : (s.take x).pos = s.pos := rfl

@[simp] theorem take_fate (s : State ι ν) (x : ν) : (s.take x).fate = s.fate := rfl

@[simp] theorem mem_take {s : State ι ν} {x y : ν} : y ∈ (s.take x).taken ↔ y = x ∨ y ∈ s.taken :=
  Iff.rfl

section

variable {name : ι → Nat → ν} {limit : ι → Nat} {noise : ν → Prop} {base : Set ν}
  {s s' : State ι ν} {i j : ι} {x : ν} {f : Fate}

theorem inv_start (hlimit : ∀ i, 0 < limit i) : Inv name limit base (start base) where
  grows := Set.Subset.rfl
  below := hlimit
  tried := fun _ k hk => absurd hk (Nat.not_lt_zero k)
  won := nofun
  lost := nofun
  apart := nofun

theorem Inv.take (h : Inv name limit base s) (x : ν) : Inv name limit base (s.take x) where
  grows := fun _ hy => Or.inr (h.grows hy)
  below := h.below
  tried := fun i k hk => Or.inr (h.tried i k hk)
  won := fun i hi => (h.won i hi).imp_left Or.inr
  lost := fun i hi k hk => Or.inr (h.lost i hi k hk)
  apart := h.apart

theorem Inv.all_tried (h : Inv name limit base s) (htaken : name i (s.pos i) ∈ s.taken)
    (hlast : limit i ≤ s.pos i + 1) : ∀ k < limit i, name i k ∈ s.taken := by
  intro k hk
  rcases Nat.lt_or_eq_of_le (Nat.le_of_lt_succ (Nat.lt_of_lt_of_le hk hlast)) with hlt | rfl
  · exact h.tried i k hlt
  · exact htaken

variable [DecidableEq ι]

@[simp] theorem end_taken : (s.end i f).taken = s.taken := rfl

@[simp] theorem end_pos : (s.end i f).pos = s.pos := rfl

@[simp] theorem end_fate_self : (s.end i f).fate i = f := by
  simp [State.end]

theorem end_fate_ne (h : j ≠ i) : (s.end i f).fate j = s.fate j := by
  simp [State.end, h]

@[simp] theorem next_taken : (s.next i).taken = s.taken := rfl

@[simp] theorem next_fate : (s.next i).fate = s.fate := rfl

@[simp] theorem next_pos_self : (s.next i).pos i = s.pos i + 1 := by
  simp [State.next]

theorem next_pos_ne (h : j ≠ i) : (s.next i).pos j = s.pos j := by
  simp [State.next, h]

/-- A runner ends, but it does not win. -/
theorem Inv.end (h : Inv name limit base s) (hwon : f ≠ .won)
    (hlost : f = .lost → ∀ k < limit i, name i k ∈ s.taken) :
    Inv name limit base (s.end i f) := by
  have hback : ∀ j, (s.end i f).fate j = .won → s.fate j = .won := by
    intro j hj
    by_cases hji : j = i
    · rw [hji, end_fate_self] at hj
      exact absurd hj hwon
    · rwa [end_fate_ne hji] at hj
  refine ⟨h.grows, h.below, h.tried, fun j hj => h.won j (hback j hj), fun j hj => ?_,
    fun j k hjk hj hk => h.apart j k hjk (hback j hj) (hback k hk)⟩
  by_cases hji : j = i
  · rw [hji, end_fate_self] at hj
    rw [hji]
    exact hlost hj
  · rw [end_fate_ne hji] at hj
    exact h.lost j hj

theorem Inv.win (h : Inv name limit base s) (hfree : name i (s.pos i) ∉ s.taken) :
    Inv name limit base ((s.take (name i (s.pos i))).end i .won) := by
  have hnew : ∀ j, j ≠ i → s.fate j = .won → name j (s.pos j) ≠ name i (s.pos i) := by
    intro j _ hj heq
    exact hfree (heq ▸ (h.won j hj).1)
  refine ⟨(h.take _).grows, h.below, (h.take _).tried, fun j hj => ?_, fun j hj => ?_,
    fun j k hjk hj hk => ?_⟩
  · by_cases hji : j = i
    · rw [hji]
      exact ⟨Or.inl rfl, fun hmem => hfree (h.grows hmem)⟩
    · rw [end_fate_ne hji] at hj
      exact (h.take _).won j hj
  · by_cases hji : j = i
    · rw [hji, end_fate_self] at hj
      cases hj
    · rw [end_fate_ne hji] at hj
      exact (h.take _).lost j hj
  · by_cases hji : j = i
    · by_cases hki : k = i
      · exact absurd (hji.trans hki.symm) hjk
      · rw [end_fate_ne hki] at hk
        rw [hji]
        exact (hnew k hki hk).symm
    · rw [end_fate_ne hji] at hj
      by_cases hki : k = i
      · rw [hki]
        exact hnew j hji hj
      · rw [end_fate_ne hki] at hk
        exact h.apart j k hjk hj hk

theorem Inv.next (h : Inv name limit base s) (hrun : s.fate i = .running)
    (htaken : name i (s.pos i) ∈ s.taken) (hmore : s.pos i + 1 < limit i) :
    Inv name limit base (s.next i) := by
  have hne : ∀ j, s.fate j = .won → j ≠ i := by
    rintro j hj rfl
    rw [hrun] at hj
    cases hj
  refine ⟨h.grows, fun j => ?_, fun j k hk => ?_, fun j hj => ?_, h.lost, fun j k hjk hj hk => ?_⟩
  · by_cases hji : j = i
    · rw [hji, next_pos_self]
      exact hmore
    · rw [next_pos_ne hji]
      exact h.below j
  · by_cases hji : j = i
    · rw [hji, next_pos_self] at hk
      rw [hji]
      rcases Nat.lt_or_eq_of_le (Nat.le_of_lt_succ hk) with hlt | rfl
      · exact h.tried i k hlt
      · exact htaken
    · rw [next_pos_ne hji] at hk
      exact h.tried j k hk
  · rw [next_pos_ne (hne j hj)]
    exact h.won j hj
  · rw [next_pos_ne (hne j hj), next_pos_ne (hne k hk)]
    exact h.apart j k hjk hj hk

theorem Inv.step (h : Inv name limit base s) (hstep : Step name limit noise s s') :
    Inv name limit base s' := by
  cases hstep with
  | win hrun hfree => exact h.win hfree
  | skip hrun htaken hmore => exact h.next hrun htaken hmore
  | lose hrun htaken hlast => exact h.end nofun fun _ => h.all_tried htaken hlast
  | quit hrun => exact h.end nofun nofun
  | fill hx => exact h.take _

end

/-! ### One list of names for all -/

section

variable [Fintype ι] {name : ι → Nat → ν} {limit : ι → Nat} {noise : ν → Prop}
  {base : Set ν} {s s' : State ι ν} {i : ι} {f : Fate}

def State.count (s : State ι ν) (f : Fate) : Nat := (Finset.univ.filter fun i => s.fate i = f).card

theorem count_add (s : State ι ν) :
    s.count .running + s.count .won + s.count .lost + s.count .quit = Fintype.card ι := by
  have hsum : ∀ i : ι, ((if s.fate i = .running then 1 else 0) + (if s.fate i = .won then 1 else 0) +
      (if s.fate i = .lost then 1 else 0) + (if s.fate i = .quit then 1 else 0) : Nat) = 1 := by
    intro i
    cases s.fate i <;> rfl
  simp only [State.count, Finset.card_filter, ← Finset.sum_add_distrib, hsum]
  simp

theorem exists_of_count {g : Fate} (h : 0 < s.count g) : ∃ i, s.fate i = g := by
  obtain ⟨i, hi⟩ := Finset.card_pos.mp h
  exact ⟨i, (Finset.mem_filter.mp hi).2⟩

/-- All have the names `names`, of which there are `n`; those that are taken are the
first ones, one for each who has won. -/
structure Shared (names : Nat → ν) (n : Nat) (s : State ι ν) : Prop where
  taken : ∀ k < n, names k ∈ s.taken ↔ k < s.count .won
  le : s.count .won ≤ n

/-- The names are different, and all runners have them. -/
structure Names (name : ι → Nat → ν) (limit : ι → Nat) (names : Nat → ν) (n : Nat) : Prop where
  name : ∀ i k, name i k = names k
  limit : ∀ i, limit i = n
  injective : ∀ k < n, ∀ l < n, names k = names l → k = l

variable {names : Nat → ν} {n : Nat}

theorem shared_start (hfree : ∀ k < n, names k ∉ base) :
    Shared names n (start base : State ι ν) := by
  have hzero : (start base : State ι ν).count .won = 0 := by simp [State.count, start]
  refine ⟨fun k hk => ?_, by rw [hzero]; exact Nat.zero_le n⟩
  rw [hzero]
  exact ⟨fun hmem => absurd hmem (hfree k hk), fun hlt => absurd hlt (Nat.not_lt_zero k)⟩

theorem Shared.pos_eq (hs : Shared names n s) (hn : Names name limit names n)
    (hinv : Inv name limit base s) (hfree : name i (s.pos i) ∉ s.taken) :
    s.pos i = s.count .won := by
  have hlt : s.pos i < n := hn.limit i ▸ hinv.below i
  rw [hn.name, hs.taken _ hlt, Nat.not_lt] at hfree
  refine Nat.le_antisymm (Nat.not_lt.mp fun hgt => ?_) hfree
  have htried := hinv.tried i _ hgt
  rw [hn.name, hs.taken _ (Nat.lt_trans hgt hlt)] at htried
  exact Nat.lt_irrefl _ htried

/-- **How many win**, when nobody runs any more. -/
theorem Shared.card_won (hs : Shared names n s) (hn : Names name limit names n)
    (hinv : Inv name limit base s) (hover : ∀ i, s.fate i ≠ .running) :
    s.count .won = min n (Fintype.card ι - s.count .quit) := by
  have hadd := count_add s
  have hrun : s.count .running = 0 := by
    rw [State.count, Finset.card_eq_zero, Finset.filter_eq_empty_iff]
    exact fun i _ => hover i
  have hle := hs.le
  rcases Nat.eq_zero_or_pos (s.count .lost) with hnone | hsome
  · omega
  · -- who has lost has found all names taken
    obtain ⟨i, hi⟩ := exists_of_count hsome
    have hall : n ≤ s.count .won := by
      by_contra hlt
      rw [Nat.not_le] at hlt
      have hmem := hinv.lost i hi _ (hn.limit i ▸ hlt)
      rw [hn.name, hs.taken _ hlt] at hmem
      exact Nat.lt_irrefl _ hmem
    omega

variable [DecidableEq ι]

theorem count_end_self (hne : s.fate i ≠ f) : (s.end i f).count f = s.count f + 1 := by
  have hset : (Finset.univ.filter fun j => (s.end i f).fate j = f) =
      insert i (Finset.univ.filter fun j => s.fate j = f) := by
    ext j
    by_cases hj : j = i
    · simp [hj]
    · simp [end_fate_ne hj, hj]
  rw [State.count, State.count, hset, Finset.card_insert_of_notMem (by simp [hne])]

theorem count_end_of_ne {g : Fate} (hg : g ≠ f) (hne : s.fate i ≠ g) :
    (s.end i f).count g = s.count g := by
  rw [State.count, State.count]
  congr 1
  ext j
  by_cases hj : j = i
  · simp [hj, hne, hg.symm]
  · simp [end_fate_ne hj]

theorem Shared.step (hs : Shared names n s) (hn : Names name limit names n)
    (hinv : Inv name limit base s) (hnoise : ∀ x, noise x → ∀ k, x ≠ names k)
    (hstep : Step name limit noise s s') : Shared names n s' := by
  have hend : ∀ {i f}, f ≠ .won → s.fate i = .running → Shared names n (s.end i f) := by
    intro i f hf hrun
    have hcount : (s.end i f).count .won = s.count .won :=
      count_end_of_ne hf.symm (by rw [hrun]; decide)
    refine ⟨fun k hk => ?_, ?_⟩
    · rw [hcount]
      exact hs.taken k hk
    · rw [hcount]
      exact hs.le
  cases hstep with
  | @win i hrun hfree =>
    have hpos := hs.pos_eq hn hinv hfree
    have hlt : s.pos i < n := hn.limit i ▸ hinv.below i
    have hcount : ((s.take (name i (s.pos i))).end i .won).count .won = s.count .won + 1 :=
      count_end_self (s := s.take _) (by rw [take_fate, hrun]; decide)
    rw [hpos] at hlt
    refine ⟨fun k hk => ?_, by rw [hcount]; exact hlt⟩
    rw [hcount, end_taken, mem_take, hs.taken k hk, hn.name, hpos, Nat.lt_succ_iff,
      Nat.le_iff_lt_or_eq, or_comm]
    exact or_congr_right ⟨hn.injective k hk _ hlt, fun heq => by rw [heq]⟩
  | skip hrun htaken hmore => exact ⟨hs.taken, hs.le⟩
  | lose hrun htaken hlast => exact hend nofun hrun
  | quit hrun => exact hend nofun hrun
  | @fill x hx =>
    refine ⟨fun k hk => ?_, hs.le⟩
    rw [mem_take, or_iff_right (hnoise x hx k).symm]
    exact hs.taken k hk

end

end Race
