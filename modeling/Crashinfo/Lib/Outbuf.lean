import Mathlib.Data.List.Basic

/-!
# Buffers that are copied

What is put into a stream is kept in a buffer of `cap` cells, and written when
there is no room for it.  When that happens and how much is written then is up to
the library (`Policy`); what fits is not written.

A process that is forked has a copy of the buffer.  If it puts more into it than
there is room for, or flushes it at its end, what was in the buffer is written by
it, and it will be written by the other process once more (`File.fork`).  Nothing is lost
or written twice just if the copy is empty, or thrown away with what fits into it
(`Harmless`).
-/

namespace Outbuf

variable {α : Type} {cap : Nat}

/-- How many cells are written if `n` are put to the `p` that are in the buffer. -/
structure Policy (cap : Nat) where
  out : Nat → Nat → Nat
  out_le : ∀ p n, out p n ≤ p + n
  out_of_fits : ∀ p n, p + n ≤ cap → out p n = 0
  room : ∀ p n, p + n - out p n ≤ cap

/-- What does not fit is written together with all that is in the buffer. -/
def Policy.whole (cap : Nat) : Policy cap where
  out p n := if p + n ≤ cap then 0 else p + n
  out_le p n := by split <;> omega
  out_of_fits p n h := if_pos h
  room p n := by split <;> omega

structure File (cap : Nat) (α : Type) where
  pending : List α := []
  written : List α := []
  room : pending.length ≤ cap

def File.empty : File cap α where
  room := by simp

def File.put (pol : Policy cap) (f : File cap α) (s : List α) : File cap α where
  pending := (f.pending ++ s).drop (pol.out f.pending.length s.length)
  written := f.written ++ (f.pending ++ s).take (pol.out f.pending.length s.length)
  room := by
    rw [List.length_drop, List.length_append]
    exact pol.room _ _

def File.putAll (pol : Policy cap) (f : File cap α) (ss : List (List α)) : File cap α :=
  ss.foldl (File.put pol) f

def File.flush (f : File cap α) : File cap α where
  pending := []
  written := f.written ++ f.pending
  room := Nat.zero_le cap

/-- A process is forked, which puts `ss` into its copy of the buffer.  Then it throws
the copy away, or it puts more into it and ends. -/
def File.fork (pol : Policy cap) (f : File cap α) (ss : List (List α))
    (last : Option (List (List α))) : File cap α where
  pending := f.pending
  written :=
    match last with
    | none => (f.putAll pol ss).written
    | some ss' => ((f.putAll pol ss).putAll pol ss').flush.written
  room := f.room

def File.Harmless (f : File cap α) (ss : List (List α)) (last : Option (List (List α))) : Prop :=
  f.pending = [] ∨ last = none ∧ f.pending.length + ss.flatten.length ≤ cap

/-! ### What is put, and what is written -/

section Put

variable (pol : Policy cap) (f : File cap α) (ss : List (List α))

theorem written_put (s : List α) :
    ∃ e, (f.put pol s).written = f.written ++ e ∧ e ++ (f.put pol s).pending = f.pending ++ s :=
  ⟨_, rfl, List.take_append_drop _ _⟩

theorem written_putAll : ∃ e, (f.putAll pol ss).written = f.written ++ e ∧
    e ++ (f.putAll pol ss).pending = f.pending ++ ss.flatten := by
  induction ss generalizing f with
  | nil => exact ⟨[], by simp [File.putAll]⟩
  | cons s ss ih =>
    obtain ⟨e, he, hp⟩ := written_put pol f s
    obtain ⟨e', he', hp'⟩ := ih (f.put pol s)
    refine ⟨e ++ e', ?_, ?_⟩
    · rw [File.putAll, List.foldl_cons, ← File.putAll, he', he, List.append_assoc]
    · rw [File.putAll, List.foldl_cons, ← File.putAll, List.append_assoc, hp', ← List.append_assoc,
        hp, List.flatten_cons, List.append_assoc]

/-- **What fits is not written**, and what does not fit is. -/
theorem written_putAll_eq_iff :
    (f.putAll pol ss).written = f.written ↔ f.pending.length + ss.flatten.length ≤ cap := by
  constructor
  · intro heq
    obtain ⟨e, he, hp⟩ := written_putAll pol f ss
    rw [heq, List.self_eq_append_right] at he
    rw [he, List.nil_append] at hp
    rw [← List.length_append, ← hp]
    exact (f.putAll pol ss).room
  · intro hfits
    induction ss generalizing f with
    | nil => rfl
    | cons s ss ih =>
      rw [List.flatten_cons, List.length_append] at hfits
      have hout : pol.out f.pending.length s.length = 0 := pol.out_of_fits _ _ (by omega)
      have hput : (f.put pol s).written = f.written ∧ (f.put pol s).pending = f.pending ++ s := by
        simp [File.put, hout]
      refine Eq.trans (ih (f.put pol s) ?_) hput.1
      rw [hput.2, List.length_append]
      omega

/-- **What the process that is forked writes** begins with what is in the buffer, unless it
writes nothing. -/
theorem written_fork (last : Option (List (List α))) :
    ∃ e, (f.fork pol ss last).written = f.written ++ e ∧
      e <+: f.pending ++ ss.flatten ++ (last.getD []).flatten ∧
      (e = [] → f.Harmless ss last) := by
  obtain ⟨e, he, hp⟩ := written_putAll pol f ss
  cases last with
  | none =>
    refine ⟨e, he, ⟨(f.putAll pol ss).pending, by simpa using hp⟩, ?_⟩
    rintro rfl
    rw [List.append_nil] at he
    exact Or.inr ⟨rfl, (written_putAll_eq_iff pol f ss).mp he⟩
  | some ss' =>
    obtain ⟨e', he', hp'⟩ := written_putAll pol (f.putAll pol ss) ss'
    have hall : e ++ (e' ++ ((f.putAll pol ss).putAll pol ss').pending)
        = f.pending ++ ss.flatten ++ ss'.flatten := by
      rw [hp', ← List.append_assoc, hp]
    refine ⟨_, ?_, ⟨[], (List.append_nil _).trans hall⟩, ?_⟩
    · show ((f.putAll pol ss).putAll pol ss').written ++ _ = _
      rw [he', he, List.append_assoc, List.append_assoc]
    · intro hnil
      rw [hall, List.append_assoc] at hnil
      exact Or.inl (List.append_eq_nil_iff.mp hnil).1

end Put

/-! ### How often something is written -/

section Count

variable [DecidableEq α] {pol : Policy cap} {f : File cap α} {ss : List (List α)}
  {last : Option (List (List α))} {x : α}

/-- How often `x` is written by the time the buffer is. -/
def File.count (x : α) (f : File cap α) : Nat := (f.written ++ f.pending).count x

theorem count_put (s : List α) : (f.put pol s).count x = f.count x + s.count x := by
  obtain ⟨e, he, hp⟩ := written_put pol f s
  rw [File.count, he, List.append_assoc, hp, File.count]
  simp [Nat.add_assoc]

theorem count_flush : f.flush.count x = f.count x := by
  simp [File.count, File.flush]

/-- What the process that is forked writes is written besides. -/
theorem count_fork {e : List α} (he : (f.fork pol ss last).written = f.written ++ e) :
    (f.fork pol ss last).count x = f.count x + e.count x := by
  rw [File.count, File.count, he]
  simp only [List.count_append]
  show _ + _ + f.pending.count x = _
  omega

theorem count_le_fork : f.count x ≤ (f.fork pol ss last).count x := by
  obtain ⟨e, he, -⟩ := written_fork pol f ss last
  rw [count_fork he]
  exact Nat.le_add_right _ _

/-- A copy that is empty or thrown away changes nothing for what the process itself does
not put. -/
theorem count_fork_of_harmless (h : f.Harmless ss last) (hss : x ∉ ss.flatten)
    (hlast : x ∉ (last.getD []).flatten) : (f.fork pol ss last).count x = f.count x := by
  obtain ⟨e, he, hpre, -⟩ := written_fork pol f ss last
  rw [count_fork he]
  rcases h with hnil | ⟨rfl, hfits⟩
  · have hx : x ∉ e := by
      intro hmem
      have hmem' := hpre.subset hmem
      rw [hnil, List.nil_append, List.mem_append] at hmem'
      exact hmem'.elim hss hlast
    rw [List.count_eq_zero.mpr hx, Nat.add_zero]
  · have hsame : (f.fork pol ss none).written = f.written :=
      (written_putAll_eq_iff pol f ss).mpr hfits
    rw [hsame, List.self_eq_append_right] at he
    rw [he, List.count_nil, Nat.add_zero]

/-- **Otherwise something is written twice**: what is first in the buffer. -/
theorem lt_count_fork (pol : Policy cap) (h : ¬f.Harmless ss last) :
    ∃ x ∈ f.pending, f.count x < (f.fork pol ss last).count x := by
  obtain ⟨e, he, hpre, hnil⟩ := written_fork pol f ss last
  cases hp : f.pending with
  | nil => exact absurd (Or.inl hp) h
  | cons x rest =>
    refine ⟨x, List.mem_cons_self, ?_⟩
    cases e with
    | nil => exact absurd (hnil rfl) h
    | cons y e =>
      rw [hp, List.append_assoc, List.cons_append, List.cons_prefix_cons] at hpre
      obtain ⟨rfl, -⟩ := hpre
      rw [count_fork he, List.count_cons_self]
      omega

end Count

end Outbuf
