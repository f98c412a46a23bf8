import Mathlib.Data.List.Basic

/-!
# Directories, and what `mkdir` makes of them

`Dirs` says what there is at every place; a place is the list of the names
that lead to it from the root.  The parent of what there is is a directory, so
directories without holes are the only ones that can be built.

A path is a list of moves.  It is followed move by move, and every move needs a
directory to start from, or a link to one (`Dirs.locate`).  `Dirs.mkdir` adds a directory where
the path leads to and nothing is.  `Made` says what a walk of such calls has
come to that passes over what is there already: everything that was there is
still there, every path of the walk now leads somewhere, and what is new was
made for one of the paths that led nowhere.
-/

namespace FileTree

variable {α : Type}

inductive Kind (α : Type) where
  | dir
  /-- a link, with the place it leads to in the end -/
  | link (place : List α)
  | other
  deriving DecidableEq, Repr

inductive Move (α : Type) where
  | stay
  | up
  | down (a : α)
  deriving DecidableEq, Repr

def Move.apply (p : List α) : Move α → List α
  | .stay => p
  | .up => p.dropLast
  | .down a => p ++ [a]

inductive Refusal where
  | missing
  | notDir
  | taken
  deriving DecidableEq, Repr

structure Dirs (α : Type) where
  kind : List α → Option (Kind α)
  root : kind [] = some .dir
  parent : ∀ p, p ≠ [] → kind p ≠ none → kind p.dropLast = some .dir

def Dirs.follow (t : Dirs α) (p : List α) : Except Refusal (List α) :=
  match t.kind p with
  | none => .error .missing
  | some .dir => .ok p
  | some .other => .error .notDir
  | some (.link q) =>
    match t.kind q with
    | none => .error .missing
    | some .dir => .ok q
    | some _ => .error .notDir

/-- The place a path leads to from `p`; there may be nothing yet. -/
def Dirs.locate (t : Dirs α) (p : List α) : List (Move α) → Except Refusal (List α)
  | [] => .ok p
  | m :: ms =>
    match t.follow p with
    | .error e => .error e
    | .ok q => t.locate (m.apply q) ms

def Dirs.Present (t : Dirs α) (ms : List (Move α)) : Prop :=
  ∃ p, t.locate [] ms = .ok p ∧ t.kind p ≠ none

def Dirs.add [DecidableEq α] (t : Dirs α) (p : List α) (hnew : t.kind p = none)
    (hup : t.kind p.dropLast = some .dir) : Dirs α where
  kind q := if q = p then some .dir else t.kind q
  root := by
    rw [if_neg, t.root]
    rintro rfl
    rw [t.root] at hnew
    cases hnew
  parent q hq hex := by
    by_cases hqp : q = p
    · subst hqp
      rw [hup, ite_self]
    · rw [if_neg hqp] at hex
      rw [t.parent q hq hex, ite_self]

theorem Dirs.kind_of_follow {t : Dirs α} {p q : List α} (h : t.follow p = .ok q) :
    t.kind q = some .dir := by
  rw [Dirs.follow] at h
  split at h
  · cases h
  · cases h
    assumption
  · cases h
  · split at h
    · cases h
    · cases h
      assumption
    · cases h

/-- A move leads to something, or to a place below the directory it starts from. -/
theorem Dirs.kind_apply {t : Dirs α} {p : List α} (hdir : t.kind p = some .dir) (m : Move α) :
    t.kind (m.apply p) ≠ none ∨ t.kind (m.apply p).dropLast = some .dir := by
  cases m with
  | stay => exact Or.inl (by simp [Move.apply, hdir])
  | up =>
    refine Or.inl ?_
    by_cases hnil : p = []
    · simp [Move.apply, hnil, t.root]
    · simp [Move.apply, t.parent p hnil (by simp [hdir])]
  | down a => exact Or.inr (by simpa [Move.apply] using hdir)

/-- Where nothing is yet, there is a directory above it. -/
theorem Dirs.dropLast_of_locate {t : Dirs α} {ms : List (Move α)} : ∀ {p q : List α},
    t.kind p ≠ none ∨ t.kind p.dropLast = some .dir → t.locate p ms = .ok q → t.kind q = none →
    t.kind q.dropLast = some .dir := by
  induction ms with
  | nil =>
    intro p q hp hq hnew
    cases hq
    exact hp.resolve_left (not_not.mpr hnew)
  | cons m ms ih =>
    intro p q hp hq hnew
    rw [Dirs.locate] at hq
    split at hq
    · cases hq
    · rename_i hdir
      exact ih (t.kind_apply (kind_of_follow hdir) m) hq hnew

def Dirs.mkdir [DecidableEq α] (t : Dirs α) (ms : List (Move α)) : Except Refusal (Dirs α) :=
  match hp : t.locate [] ms with
  | .error e => .error e
  | .ok p =>
    if hnew : t.kind p = none then
      .ok (t.add p hnew (dropLast_of_locate (Or.inl (by simp [t.root])) hp hnew))
    else .error .taken

/-! ### Trees that grow -/

/-- What there is in `t` there is in `t'`. -/
instance : LE (Dirs α) where
  le t t' := ∀ p k, t.kind p = some k → t'.kind p = some k

theorem Dirs.le_refl (t : Dirs α) : t ≤ t := fun _ _ h => h

theorem Dirs.le_trans {t t' t'' : Dirs α} (h : t ≤ t') (h' : t' ≤ t'') : t ≤ t'' :=
  fun p k hk => h' p k (h p k hk)

theorem Dirs.le_add [DecidableEq α] (t : Dirs α) {p : List α} (hnew : t.kind p = none)
    (hup : t.kind p.dropLast = some .dir) : t ≤ t.add p hnew hup := by
  intro q k hk
  have hne : q ≠ p := by
    rintro rfl
    simp [hnew] at hk
  simp [Dirs.add, hne, hk]

theorem Dirs.follow_mono {t t' : Dirs α} (h : t ≤ t') {p q : List α} (hq : t.follow p = .ok q) :
    t'.follow p = .ok q := by
  rw [Dirs.follow] at hq ⊢
  split at hq
  · cases hq
  · rename_i hdir
    simp only [h _ _ hdir]
    exact hq
  · cases hq
  · rename_i hlink
    simp only [h _ _ hlink]
    split at hq
    · cases hq
    · rename_i hdir
      simp only [h _ _ hdir]
      exact hq
    · cases hq

/-- A path leads to the same place where there is more. -/
theorem Dirs.locate_mono {t t' : Dirs α} (h : t ≤ t') {ms : List (Move α)} : ∀ {p q : List α},
    t.locate p ms = .ok q → t'.locate p ms = .ok q := by
  induction ms with
  | nil => exact fun hq => hq
  | cons m ms ih =>
    intro p q hq
    rw [Dirs.locate] at hq ⊢
    split at hq
    · cases hq
    · rename_i hdir
      rw [follow_mono h hdir]
      exact ih hq

theorem Dirs.Present.mono {t t' : Dirs α} (h : t ≤ t') {ms : List (Move α)} (hms : t.Present ms) :
    t'.Present ms := by
  obtain ⟨p, hp, hk⟩ := hms
  obtain ⟨k, hk⟩ := Option.ne_none_iff_exists'.mp hk
  exact ⟨p, locate_mono h hp, by simp [h p k hk]⟩

theorem Dirs.locate_ne_taken (t : Dirs α) (ms : List (Move α)) :
    ∀ p, t.locate p ms ≠ .error .taken := by
  have hfollow : ∀ p, t.follow p ≠ .error .taken := by
    intro p
    rw [Dirs.follow]
    split
    · simp
    · simp
    · simp
    · split <;> simp
  induction ms with
  | nil => simp [Dirs.locate]
  | cons m ms ih =>
    intro p
    rw [Dirs.locate]
    split
    · rename_i e he
      rintro ⟨⟩
      exact hfollow p he
    · exact ih _

/-- **What `mkdir` comes to.** -/
theorem Dirs.mkdir_cases [DecidableEq α] (t : Dirs α) (ms : List (Move α)) :
    (∃ p hnew hup, t.locate [] ms = .ok p ∧ t.mkdir ms = .ok (t.add p hnew hup)) ∨
    (t.Present ms ∧ t.mkdir ms = .error .taken) ∨
    ∃ e, e ≠ .taken ∧ t.locate [] ms = .error e ∧ t.mkdir ms = .error e := by
  rw [Dirs.mkdir]
  split
  · rename_i e hp
    refine Or.inr (Or.inr ⟨e, ?_, hp, rfl⟩)
    rintro rfl
    exact t.locate_ne_taken ms [] hp
  · rename_i p hp
    split
    · rename_i hnew
      have hup := dropLast_of_locate (Or.inl (by simp [t.root])) hp hnew
      exact Or.inl ⟨p, hnew, hup, hp, rfl⟩
    · rename_i hk
      exact Or.inr (Or.inl ⟨⟨p, hp, hk⟩, rfl⟩)

/-! ### What a walk has made -/

/-- From `t` to `t'` the paths `ds` were passed in order, and directories were
made for `made` among them. -/
structure Made (t : Dirs α) (ds made : List (List (Move α))) (t' : Dirs α) : Prop where
  keeps : t ≤ t'
  inOrder : made.Sublist ds
  /-- what was made was missing -/
  missing : ∀ x ∈ made, ¬t.Present x
  created : ∀ p, t.kind p = none → t'.kind p = none ∨
    t'.kind p = some .dir ∧ ∃ x ∈ made, t'.locate [] x = .ok p
  present : ∀ x ∈ ds, t'.Present x

theorem made_nil (t : Dirs α) : Made t [] [] t where
  keeps := t.le_refl
  inOrder := .slnil
  missing _ hx := absurd hx List.not_mem_nil
  created _ hp := Or.inl hp
  present _ hx := absurd hx List.not_mem_nil

theorem Made.pass {t t' : Dirs α} {ds made : List (List (Move α))} {x : List (Move α)}
    (h : Made t ds made t') (hx : t'.Present x) : Made t (ds ++ [x]) made t' where
  keeps := h.keeps
  inOrder := h.inOrder.trans (List.sublist_append_left ds [x])
  missing := h.missing
  created := h.created
  present y hy := by
    rcases List.mem_append.mp hy with hy | hy
    · exact h.present y hy
    · rwa [List.mem_singleton.mp hy]

theorem Made.make [DecidableEq α] {t t' : Dirs α} {ds made : List (List (Move α))}
    {x : List (Move α)} {p : List α} (h : Made t ds made t') (hx : t'.locate [] x = .ok p)
    (hnew : t'.kind p = none) (hup : t'.kind p.dropLast = some .dir) :
    Made t (ds ++ [x]) (made ++ [x]) (t'.add p hnew hup) where
  keeps := Dirs.le_trans h.keeps (t'.le_add hnew hup)
  inOrder := h.inOrder.append_right [x]
  missing y hy := by
    rcases List.mem_append.mp hy with hy | hy
    · exact h.missing y hy
    · rw [List.mem_singleton.mp hy]
      intro hpres
      obtain ⟨q, hq, hk⟩ := hpres.mono h.keeps
      rw [hx, Except.ok.injEq] at hq
      exact hk (hq ▸ hnew)
  created q hq := by
    have hmono : ∀ {y q}, t'.locate [] y = .ok q → (t'.add p hnew hup).locate [] y = .ok q :=
      fun hy => Dirs.locate_mono (t'.le_add hnew hup) hy
    by_cases hqp : q = p
    · subst hqp
      exact Or.inr ⟨if_pos rfl, x, by simp, hmono hx⟩
    · have hkind : (t'.add p hnew hup).kind q = t'.kind q := if_neg hqp
      rw [hkind]
      refine (h.created q hq).imp_right fun ⟨hdir, y, hy, hloc⟩ => ?_
      exact ⟨hdir, y, List.mem_append_left _ hy, hmono hloc⟩
  present y hy := by
    rcases List.mem_append.mp hy with hy | hy
    · exact (h.present y hy).mono (t'.le_add hnew hup)
    · rw [List.mem_singleton.mp hy]
      exact ⟨p, Dirs.locate_mono (t'.le_add hnew hup) hx, by simp [Dirs.add]⟩

end FileTree
