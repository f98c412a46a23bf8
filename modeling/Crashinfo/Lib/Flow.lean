import Mathlib.Algebra.Order.BigOperators.Group.Finset
import Mathlib.Data.List.Infix

/-!
# Programs in a row

A source writes to the first of `n` programs, each program to the next one, and
the last one to a sink.  Between them are buffers that hold `cap` elements, and
who wants to write to a full one or to read from an empty one has to wait.

A program (`Worker`) is told by its history: what it has written depends on
nothing but what it has read.  It may stop reading before the end, and then the
one in front of it is killed when it writes on; it exits when its input has ended, so
programs that never do are no workers.

The order of the steps is not fixed, and still what arrives at the sink is
(`Inv.begins`, `Inv.arrived`): it is what the programs make of the input one after the
other.  A step always makes something less (`work_lt`), and there is one to make
until everybody has left (`quiet`), so no order of steps blocks or goes on for
ever.
-/

namespace Flow

variable {α : Type}

/-! ### A program -/

structure Worker (α : Type) where
  /-- what it has written when it has read `xs` and wants to go on -/
  out : List α → List α
  /-- what it has written in the end, if `xs` is all there is -/
  last : List α → List α
  /-- it does not read on behind `xs` -/
  stops : List α → Bool
  out_grows : ∀ xs x, out xs <+: out (xs ++ [x])
  last_grows : ∀ xs, out xs <+: last xs

namespace Worker

variable {w : Worker α} {xs ys : List α} {x : α}

/-- What it has written in the end, if `xs` follows what it has read. -/
def runFrom (w : Worker α) : List α → List α → List α
  | done, [] => if w.stops done then w.out done else w.last done
  | done, x :: xs => if w.stops done then w.out done else w.runFrom (done ++ [x]) xs

def run (w : Worker α) (xs : List α) : List α := w.runFrom [] xs

def Reads (w : Worker α) (xs : List α) : Prop := ∀ k < xs.length, w.stops (xs.take k) = false

theorem reads_nil : w.Reads [] := fun _ hk => absurd hk (Nat.not_lt_zero _)

theorem Reads.snoc (h : w.Reads xs) (hgo : w.stops xs = false) : w.Reads (xs ++ [x]) := by
  intro k hk
  rw [List.length_append, List.length_singleton] at hk
  rw [List.take_append_of_le_length (by omega)]
  rcases Nat.lt_or_eq_of_le (Nat.le_of_lt_succ hk) with hlt | rfl
  · exact h k hlt
  · rwa [List.take_length]

theorem runFrom_append {done : List α}
    (h : ∀ k < xs.length, w.stops (done ++ xs.take k) = false) :
    w.runFrom done (xs ++ ys) = w.runFrom (done ++ xs) ys := by
  induction xs generalizing done with
  | nil => rw [List.nil_append, List.append_nil]
  | cons x xs ih =>
    have hgo := h 0 (Nat.succ_pos _)
    rw [List.take_zero, List.append_nil] at hgo
    rw [List.cons_append, runFrom, if_neg (by rw [hgo]; decide), ih, List.append_assoc]
    · rfl
    · intro k hk
      have := h (k + 1) (Nat.succ_lt_succ hk)
      rwa [List.take_succ_cons, ← List.singleton_append, ← List.append_assoc] at this

theorem run_append (h : w.Reads xs) : w.run (xs ++ ys) = w.runFrom xs ys := by
  rw [run, runFrom_append (fun k hk => by rw [List.nil_append]; exact h k hk), List.nil_append]

theorem out_runFrom (done : List α) : w.out done <+: w.runFrom done xs := by
  induction xs generalizing done with
  | nil =>
    rw [runFrom]
    split
    · exact List.prefix_rfl
    · exact w.last_grows done
  | cons x xs ih =>
    rw [runFrom]
    split
    · exact List.prefix_rfl
    · exact (w.out_grows done x).trans (ih _)

theorem Reads.out_grows (h : w.Reads xs) (hxs : xs <+: ys) : w.out xs <+: w.run ys := by
  obtain ⟨zs, rfl⟩ := hxs
  rw [run_append h]
  exact out_runFrom xs

/-- Who stops does not care for what follows. -/
theorem Reads.run_of_stops (h : w.Reads xs) (hstop : w.stops xs = true) (hxs : xs <+: ys) :
    w.run ys = w.out xs := by
  obtain ⟨zs, rfl⟩ := hxs
  rw [run_append h]
  cases zs with
  | nil => rw [runFrom, if_pos hstop]
  | cons z zs => rw [runFrom, if_pos hstop]

theorem Reads.run_of_end (h : w.Reads xs) (hgo : w.stops xs = false) : w.run xs = w.last xs := by
  have hnil : w.run (xs ++ []) = w.runFrom xs [] := run_append h
  rwa [List.append_nil, runFrom, if_neg (by rw [hgo]; decide)] at hnil

end Worker

/-! ### Its course -/

inductive Phase where
  | running
  /-- it has come to the end of its input -/
  | ended
  | exited
  /-- it has written to nobody -/
  | killed
  deriving DecidableEq, Repr

def Phase.alive : Phase → Bool
  | .running => true
  | .ended => true
  | .exited => false
  | .killed => false

structure Stage (α : Type) where
  read : List α := []
  written : List α := []
  phase : Phase := .running

namespace Stage

variable (w : Worker α) (s : Stage α)

def due : List α := if s.phase = .ended then w.last s.read else w.out s.read

def Wants : Prop := s.phase = .running ∧ w.stops s.read = false

def Writes (x : α) : Prop := s.phase.alive = true ∧ s.written ++ [x] <+: s.due w

def Done : Prop := s.phase.alive = true ∧ s.written = s.due w ∧ ¬s.Wants w

def take (x : α) : Stage α := { s with read := s.read ++ [x] }

def put (x : α) : Stage α := { s with written := s.written ++ [x] }

def turn (p : Phase) : Stage α := { s with phase := p }

@[simp] theorem take_phase (x : α) : (s.take x).phase = s.phase := rfl

@[simp] theorem put_phase (x : α) : (s.put x).phase = s.phase := rfl

@[simp] theorem turn_phase (p : Phase) : (s.turn p).phase = p := rfl

variable {w s}

theorem Wants.alive (h : s.Wants w) : s.phase.alive = true := by
  rw [h.1]
  rfl

/-- Who neither writes nor leaves waits for something to read. -/
theorem wants_of_alive (halive : s.phase.alive = true) (hdue : s.written <+: s.due w)
    (hwrite : ∀ x, ¬s.Writes w x) (hdone : ¬s.Done w) : s.Wants w := by
  by_contra hno
  obtain ⟨rest, hrest⟩ := hdue
  cases rest with
  | nil => exact hdone ⟨halive, by rw [← hrest, List.append_nil], hno⟩
  | cons x rest =>
    refine hwrite x ⟨halive, rest, ?_⟩
    rw [← hrest, List.append_assoc, List.singleton_append]

end Stage

/-! ### All of them -/

structure State (α : Type) where
  /-- what the source has still to write -/
  source : List α
  isOpen : Bool
  stage : Nat → Stage α
  /-- what is in front of the program with the number `i`, or in the sink -/
  buf : Nat → List α

namespace State

variable (n cap : Nat) (s : State α)

def writer : Nat → Bool
  | 0 => s.isOpen
  | i + 1 => (s.stage i).phase.alive

def reader (i : Nat) : Bool := decide (n ≤ i) || (s.stage i).phase.alive

def room (i : Nat) : Bool := decide (n ≤ i) || decide ((s.buf i).length < cap)

def pushed (i : Nat) : List α := if i < n then (s.stage i).read ++ s.buf i else s.buf i

def setStage (i : Nat) (t : Stage α) : State α := { s with stage := Function.update s.stage i t }

def setBuf (i : Nat) (xs : List α) : State α := { s with buf := Function.update s.buf i xs }

def setSource (xs : List α) : State α := { s with source := xs }

end State

open State

section

variable (w : Nat → Worker α) (n cap : Nat)

inductive Works (s : State α) : State α → Prop
  | take {i : Nat} {x : α} {xs : List α} (hi : i < n) (hbuf : s.buf i = x :: xs)
      (hwants : (s.stage i).Wants (w i)) :
      Works s ((s.setStage i ((s.stage i).take x)).setBuf i xs)
  | finish {i : Nat} (hi : i < n) (hbuf : s.buf i = []) (hwriter : s.writer i = false)
      (hwants : (s.stage i).Wants (w i)) : Works s (s.setStage i ((s.stage i).turn .ended))
  | put {i : Nat} {x : α} (hi : i < n) (hwrites : (s.stage i).Writes (w i) x)
      (hreader : s.reader n (i + 1) = true) (hroom : s.room n cap (i + 1) = true) :
      Works s ((s.setStage i ((s.stage i).put x)).setBuf (i + 1) (s.buf (i + 1) ++ [x]))
  | kill {i : Nat} {x : α} (hi : i < n) (hwrites : (s.stage i).Writes (w i) x)
      (hreader : s.reader n (i + 1) = false) : Works s (s.setStage i ((s.stage i).turn .killed))
  | leave {i : Nat} (hi : i < n) (hdone : (s.stage i).Done (w i)) :
      Works s (s.setStage i ((s.stage i).turn .exited))

inductive Step (s : State α) : State α → Prop
  | send {x : α} {xs : List α} (hsource : s.source = x :: xs) (hreader : s.reader n 0 = true)
      (hroom : s.room n cap 0 = true) :
      Step s ((s.setBuf 0 (s.buf 0 ++ [x])).setSource xs)
  /-- nobody reads what is written, and the source does not mind -/
  | lose {x : α} {xs : List α} (hsource : s.source = x :: xs) (hreader : s.reader n 0 = false) :
      Step s (s.setSource xs)
  | close (hopen : s.isOpen = true) (hsource : s.source = []) : Step s { s with isOpen := false }
  | work {s' : State α} (h : Works w n cap s s') : Step s s'

/-- What comes to the program with the number `i`, or to the sink. -/
def level (xs : List α) : Nat → List α
  | 0 => xs
  | i + 1 => (w i).run (level xs i)

/-- How far the program with the number `i` has come. -/
def Course (xs : List α) (s : State α) (i : Nat) : Prop :=
  match (s.stage i).phase with
  | .running => (s.stage i).written <+: (w i).out (s.stage i).read
  | .ended => (s.stage i).written <+: (w i).last (s.stage i).read ∧
      (w i).stops (s.stage i).read = false ∧ (s.stage i).read = level w xs i
  | .exited => (s.stage i).written = level w xs (i + 1)
  | .killed => s.reader n (i + 1) = false ∧ (s.stage i).written <+: level w xs (i + 1)

/-- What holds if `xs` is what the source was to write. -/
structure Inv (xs : List α) (s : State α) : Prop where
  closed : s.isOpen = false → s.source = []
  sent : s.pushed n 0 ++ s.source = xs ∨ s.reader n 0 = false ∧ s.pushed n 0 <+: xs
  link : ∀ i < n, (s.stage i).written = s.pushed n (i + 1)
  reads : ∀ i < n, (w i).Reads (s.stage i).read
  course : ∀ i < n, Course w n xs s i

def start (xs : List α) : State α where
  source := xs
  isOpen := true
  stage := fun _ => {}
  buf := fun _ => []

end

section

variable {w : Nat → Worker α} {n cap : Nat} {xs : List α} {s s' : State α}

/-! ### What a step changes -/

@[simp] theorem setStage_stage_self (s : State α) (i : Nat) (t : Stage α) :
    (s.setStage i t).stage i = t := by
  simp [setStage]

theorem setStage_stage_ne {i j : Nat} (h : j ≠ i) (s : State α) (t : Stage α) :
    (s.setStage i t).stage j = s.stage j := by
  simp [setStage, h]

@[simp] theorem setStage_buf (s : State α) (i : Nat) (t : Stage α) :
    (s.setStage i t).buf = s.buf := rfl

@[simp] theorem setStage_source (s : State α) (i : Nat) (t : Stage α) :
    (s.setStage i t).source = s.source := rfl

@[simp] theorem setBuf_buf_self (s : State α) (i : Nat) (xs : List α) :
    (s.setBuf i xs).buf i = xs := by
  simp [setBuf]

theorem setBuf_buf_ne {i j : Nat} (h : j ≠ i) (s : State α) (xs : List α) :
    (s.setBuf i xs).buf j = s.buf j := by
  simp [setBuf, h]

@[simp] theorem setBuf_stage (s : State α) (i : Nat) (xs : List α) :
    (s.setBuf i xs).stage = s.stage := rfl

@[simp] theorem setBuf_source (s : State α) (i : Nat) (xs : List α) :
    (s.setBuf i xs).source = s.source := rfl

theorem pushed_congr {i : Nat} (hstage : (s'.stage i).read = (s.stage i).read)
    (hbuf : s'.buf i = s.buf i) : s'.pushed n i = s.pushed n i := by
  rw [pushed, pushed, hstage, hbuf]

theorem pushed_setBuf (s : State α) (i : Nat) (x : α) :
    (s.setBuf i (s.buf i ++ [x])).pushed n i = s.pushed n i ++ [x] := by
  rw [pushed, pushed, setBuf_buf_self, setBuf_stage]
  split
  · exact (List.append_assoc _ _ _).symm
  · rfl

theorem reader_mono {i j : Nat} (hstage : ∀ k, k ≠ i → s'.stage k = s.stage k)
    (halive : (s.stage i).phase.alive = false → (s'.stage i).phase.alive = false)
    (h : s.reader n j = false) : s'.reader n j = false := by
  rw [reader, Bool.or_eq_false_iff] at h ⊢
  refine ⟨h.1, ?_⟩
  by_cases hj : j = i
  · rw [hj] at h ⊢
    exact halive h.2
  · rw [hstage j hj]
    exact h.2

theorem reader_of_alive {i : Nat} (h : (s.stage i).phase.alive = true) : s.reader n i = true := by
  rw [reader, h, Bool.or_true]

theorem Course.congr {i : Nat} (h : Course w n xs s i) (hstage : s'.stage i = s.stage i)
    (hreader : s.reader n (i + 1) = false → s'.reader n (i + 1) = false) : Course w n xs s' i := by
  rw [Course, hstage]
  rw [Course] at h
  split
  · simpa [*] using h
  · simpa [*] using h
  · simpa [*] using h
  · rename_i hphase
    rw [hphase] at h
    exact ⟨hreader h.1, h.2⟩

/-! ### What holds all the time -/

theorem inv_start : Inv w n xs (start xs) where
  closed := nofun
  sent := Or.inl (by simp [pushed, start])
  link := fun i hi => by simp [pushed, start]
  reads := fun i hi => Worker.reads_nil
  course := fun i hi => List.nil_prefix

/-- What was written is what will be written, as far as it goes. -/
theorem Inv.written_begins (h : Inv w n xs s) {i : Nat} (hi : i < n)
    (hin : s.pushed n i <+: level w xs i) : (s.stage i).written <+: level w xs (i + 1) := by
  have hread : (s.stage i).read <+: level w xs i := by
    refine List.IsPrefix.trans ?_ hin
    rw [pushed, if_pos hi]
    exact List.prefix_append _ _
  have hc := h.course i hi
  rw [Course] at hc
  split at hc
  · exact hc.trans ((h.reads i hi).out_grows hread)
  · rw [level, ← hc.2.2, (h.reads i hi).run_of_end hc.2.1]
    exact hc.1
  · exact hc ▸ List.prefix_rfl
  · exact hc.2

theorem Inv.pushed_begins (h : Inv w n xs s) {i : Nat} (hi : i ≤ n) :
    s.pushed n i <+: level w xs i := by
  induction i with
  | zero =>
    rcases h.sent with hsent | hsent
    · exact ⟨s.source, hsent⟩
    · exact hsent.2
  | succ i ih =>
    rw [← h.link i hi]
    exact h.written_begins hi (ih (Nat.le_of_lt hi))

/-- **What is in the sink** is part of what is to come there. -/
theorem Inv.begins (h : Inv w n xs s) : s.buf n <+: level w xs n := by
  have := h.pushed_begins (Nat.le_refl n)
  rwa [pushed, if_neg (Nat.lt_irrefl n)] at this

/-- Nobody sees the end of the input before it is there. -/
theorem Inv.read_all (h : Inv w n xs s) {i : Nat} (hi : i < n) (hbuf : s.buf i = [])
    (hwriter : s.writer i = false) (halive : (s.stage i).phase.alive = true) :
    (s.stage i).read = level w xs i := by
  have hpushed : s.pushed n i = (s.stage i).read := by
    rw [pushed, if_pos hi, hbuf, List.append_nil]
  have hreader : s.reader n i = true := reader_of_alive halive
  rw [← hpushed]
  cases i with
  | zero =>
    rcases h.sent with hsent | hsent
    · rw [← hsent, h.closed hwriter, List.append_nil]
      rfl
    · rw [hreader] at hsent
      cases hsent.1
  | succ i =>
    have hc := h.course i (Nat.lt_of_succ_lt hi)
    rw [writer] at hwriter
    rw [Course] at hc
    rw [← h.link i (Nat.lt_of_succ_lt hi)]
    split at hc
    · rename_i hphase
      rw [hphase] at hwriter
      cases hwriter
    · rename_i hphase
      rw [hphase] at hwriter
      cases hwriter
    · exact hc
    · rw [hreader] at hc
      cases hc.1

theorem Inv.change (h : Inv w n xs s) {i : Nat} (hsource : s'.source = s.source)
    (hopen : s'.isOpen = s.isOpen) (hstage : ∀ j, j ≠ i → s'.stage j = s.stage j)
    (halive : (s.stage i).phase.alive = false → (s'.stage i).phase.alive = false)
    (hpushed : ∀ j, j ≠ i + 1 → s'.pushed n j = s.pushed n j)
    (hlink : (s'.stage i).written = s'.pushed n (i + 1))
    (hreads : (w i).Reads (s'.stage i).read) (hcourse : Course w n xs s' i) :
    Inv w n xs s' := by
  have hreader : ∀ j, s.reader n j = false → s'.reader n j = false := fun j =>
    reader_mono hstage halive
  refine ⟨?_, ?_, fun j hj => ?_, fun j hj => ?_, fun j hj => ?_⟩
  · rw [hopen, hsource]
    exact h.closed
  · rw [hsource, hpushed 0 (Nat.succ_ne_zero i).symm]
    exact h.sent.imp_right (And.imp_left (hreader 0))
  · by_cases hji : j = i
    · rw [hji]
      exact hlink
    · rw [hstage j hji, hpushed (j + 1) (by omega)]
      exact h.link j hj
  · by_cases hji : j = i
    · rw [hji]
      exact hreads
    · rw [hstage j hji]
      exact h.reads j hj
  · by_cases hji : j = i
    · rw [hji]
      exact hcourse
    · exact (h.course j hj).congr (hstage j hji) (hreader (j + 1))

theorem Inv.turn (h : Inv w n xs s) {i : Nat} (hi : i < n) {p : Phase}
    (halive : (s.stage i).phase.alive = true)
    (hcourse : Course w n xs (s.setStage i ((s.stage i).turn p)) i) :
    Inv w n xs (s.setStage i ((s.stage i).turn p)) := by
  have hpushed : ∀ j, (s.setStage i ((s.stage i).turn p)).pushed n j = s.pushed n j := by
    intro j
    refine pushed_congr ?_ rfl
    by_cases hj : j = i
    · rw [hj, setStage_stage_self]
      rfl
    · rw [setStage_stage_ne hj]
  refine h.change rfl rfl (fun j hj => setStage_stage_ne hj s _) ?_ (fun j _ => hpushed j) ?_ ?_
    hcourse
  · intro hdead
    rw [halive] at hdead
    cases hdead
  · rw [setStage_stage_self, hpushed]
    exact h.link i hi
  · rw [setStage_stage_self]
    exact h.reads i hi

theorem Inv.works (h : Inv w n xs s) (hstep : Works w n cap s s') : Inv w n xs s' := by
  cases hstep with
  | @take i x rest hi hbuf hwants =>
    have hc := h.course i hi
    rw [Course, hwants.1] at hc
    refine h.change (i := i) rfl rfl (fun j hj => by simp [setStage_stage_ne hj]) (by simp)
      (fun j _ => ?_) ?_ ?_ ?_
    · by_cases hj : j = i
      · rw [hj, pushed, pushed, if_pos hi, if_pos hi, hbuf]
        simp [Stage.take]
      · exact pushed_congr (by simp [setStage_stage_ne hj]) (by simp [setBuf_buf_ne hj])
    · have hsame : ((s.setStage i ((s.stage i).take x)).setBuf i rest).pushed n (i + 1) =
          s.pushed n (i + 1) :=
        pushed_congr (by simp [setStage_stage_ne]) (by simp [setBuf_buf_ne])
      rw [hsame, ← h.link i hi]
      simp [Stage.take]
    · simpa [Stage.take] using (h.reads i hi).snoc hwants.2
    · rw [Course]
      simpa [Stage.take, hwants.1] using hc.trans ((w i).out_grows _ x)
  | @finish i hi hbuf hwriter hwants =>
    have hc := h.course i hi
    rw [Course, hwants.1] at hc
    refine h.turn hi hwants.alive ?_
    rw [Course]
    simpa [Stage.turn] using ⟨hc.trans ((w i).last_grows _), hwants.2,
      h.read_all hi hbuf hwriter hwants.alive⟩
  | @put i x hi hwrites hreader hroom =>
    have hc := h.course i hi
    refine h.change (i := i) rfl rfl (fun j hj => by simp [setStage_stage_ne hj]) (by simp)
      (fun j hj => ?_) ?_ ?_ ?_
    · refine pushed_congr ?_ (by simp [setBuf_buf_ne hj])
      by_cases hji : j = i
      · rw [hji]
        simp [Stage.put]
      · simp [setStage_stage_ne hji]
    · have hpush := pushed_setBuf (n := n) (s.setStage i ((s.stage i).put x)) (i + 1) x
      have hsame : (s.setStage i ((s.stage i).put x)).pushed n (i + 1) = s.pushed n (i + 1) :=
        pushed_congr (by simp [setStage_stage_ne]) rfl
      rw [setStage_buf] at hpush
      rw [hpush, hsame, ← h.link i hi]
      simp [Stage.put]
    · simpa [Stage.put] using h.reads i hi
    · obtain ⟨halive, hdue⟩ := hwrites
      rw [Course] at hc ⊢
      cases hphase : (s.stage i).phase with
      | running =>
        rw [Stage.due, if_neg (by rw [hphase]; decide)] at hdue
        simpa [Stage.put, hphase] using hdue
      | ended =>
        rw [Stage.due, if_pos hphase] at hdue
        rw [hphase] at hc
        simpa [Stage.put, hphase] using ⟨hdue, hc.2⟩
      | exited =>
        rw [hphase] at halive
        cases halive
      | killed =>
        rw [hphase] at halive
        cases halive
  | @kill i x hi hwrites hreader =>
    refine h.turn hi hwrites.1 ?_
    have hwritten := h.written_begins hi (h.pushed_begins (Nat.le_of_lt hi))
    have hgone : (s.setStage i ((s.stage i).turn .killed)).reader n (i + 1) = false :=
      reader_mono (fun j hj => setStage_stage_ne hj s _) (by simp [Phase.alive]) hreader
    rw [Course]
    simpa [Stage.turn] using ⟨hgone, hwritten⟩
  | @leave i hi hdone =>
    refine h.turn hi hdone.1 ?_
    obtain ⟨halive, hdue, hwants⟩ := hdone
    have hc := h.course i hi
    have hread : (s.stage i).read <+: level w xs i := by
      refine List.IsPrefix.trans ?_ (h.pushed_begins (Nat.le_of_lt hi))
      rw [pushed, if_pos hi]
      exact List.prefix_append _ _
    rw [Course] at hc ⊢
    rw [setStage_stage_self]
    show (s.stage i).written = level w xs (i + 1)
    rw [hdue, Stage.due, level]
    cases hphase : (s.stage i).phase with
    | running =>
      have hstop : (w i).stops (s.stage i).read = true := by
        rw [← Bool.not_eq_false]
        exact fun hgo => hwants ⟨hphase, hgo⟩
      rw [if_neg (by decide), (h.reads i hi).run_of_stops hstop hread]
    | ended =>
      rw [hphase] at hc
      rw [if_pos rfl, ← hc.2.2, (h.reads i hi).run_of_end hc.2.1]
    | exited =>
      rw [hphase] at halive
      cases halive
    | killed =>
      rw [hphase] at halive
      cases halive

theorem Inv.step (h : Inv w n xs s) (hstep : Step w n cap s s') : Inv w n xs s' := by
  cases hstep with
  | @send x rest hsource hreader hroom =>
    refine ⟨fun hclosed => ?_, ?_, fun i hi => ?_, h.reads, fun i hi => ?_⟩
    · have := h.closed hclosed
      rw [hsource] at this
      cases this
    · refine Or.inl ?_
      rcases h.sent with hsent | hsent
      · have hpush := pushed_setBuf (n := n) s 0 x
        show (s.setBuf 0 (s.buf 0 ++ [x])).pushed n 0 ++ rest = xs
        rw [hpush, List.append_assoc, List.singleton_append, ← hsource]
        exact hsent
      · rw [hreader] at hsent
        cases hsent.1
    · have hsame : ((s.setBuf 0 (s.buf 0 ++ [x])).setSource rest).pushed n (i + 1) =
          s.pushed n (i + 1) :=
        pushed_congr rfl (setBuf_buf_ne (Nat.succ_ne_zero i) s (s.buf 0 ++ [x]))
      exact (h.link i hi).trans hsame.symm
    · exact (h.course i hi).congr rfl fun hr => hr
  | @lose x rest hsource hreader =>
    refine ⟨fun hclosed => ?_, Or.inr ⟨hreader, ?_⟩, h.link, h.reads, fun i hi => ?_⟩
    · have := h.closed hclosed
      rw [hsource] at this
      cases this
    · exact h.pushed_begins (Nat.zero_le n)
    · exact (h.course i hi).congr rfl fun hr => hr
  | close hopen hsource =>
    exact ⟨fun _ => hsource, h.sent, h.link, h.reads, fun i hi =>
      (h.course i hi).congr rfl fun hr => hr⟩
  | work hwork => exact h.works hwork

/-! ### When nobody is left -/

/-- The source has closed its end, and no program runs any more. -/
def Over (n : Nat) (s : State α) : Prop :=
  s.isOpen = false ∧ ∀ i < n, (s.stage i).phase.alive = false

theorem Inv.written_due (h : Inv w n xs s) {i : Nat} (hi : i < n)
    (halive : (s.stage i).phase.alive = true) : (s.stage i).written <+: (s.stage i).due (w i) := by
  have hc := h.course i hi
  rw [Course] at hc
  rw [Stage.due]
  cases hphase : (s.stage i).phase with
  | running =>
    rw [hphase] at hc
    rwa [if_neg (by decide)]
  | ended =>
    rw [hphase] at hc
    rw [if_pos rfl]
    exact hc.1
  | exited =>
    rw [hphase] at halive
    cases halive
  | killed =>
    rw [hphase] at halive
    cases halive

/-- Who can do nothing, though what it writes would be taken, has nothing to
read, and somebody may write it. -/
theorem Inv.starves (h : Inv w n xs s) (hno : ∀ s', ¬Works w n cap s s') {i : Nat} (hi : i < n)
    (halive : (s.stage i).phase.alive = true)
    (hfree : s.reader n (i + 1) = false ∨ s.room n cap (i + 1) = true) :
    s.buf i = [] ∧ s.writer i = true := by
  have hwants : (s.stage i).Wants (w i) := by
    refine Stage.wants_of_alive halive (h.written_due hi halive) (fun x hx => ?_) fun hdone => ?_
    · rcases Bool.eq_false_or_eq_true (s.reader n (i + 1)) with hreader | hreader
      · rcases hfree with hgone | hroom
        · rw [hreader] at hgone
          cases hgone
        · exact hno _ (.put hi hx hreader hroom)
      · exact hno _ (.kill hi hx hreader)
    · exact hno _ (.leave hi hdone)
  cases hbuf : s.buf i with
  | cons x rest => exact absurd (.take hi hbuf hwants) (hno _)
  | nil =>
    refine ⟨rfl, ?_⟩
    rw [← Bool.not_eq_false]
    exact fun hwriter => hno _ (.finish hi hbuf hwriter hwants)

/-- From a program that starves on, all in front of it do. -/
theorem Inv.starve_all (h : Inv w n xs s) (hno : ∀ s', ¬Works w n cap s s') (hcap : 0 < cap)
    {i : Nat} (hi : i < n) (halive : (s.stage i).phase.alive = true)
    (hfree : s.reader n (i + 1) = false ∨ s.room n cap (i + 1) = true) :
    s.isOpen = true ∧ s.buf 0 = [] := by
  induction i with
  | zero =>
    obtain ⟨hbuf, hwriter⟩ := h.starves hno hi halive hfree
    exact ⟨hwriter, hbuf⟩
  | succ i ih =>
    obtain ⟨hbuf, hwriter⟩ := h.starves hno hi halive hfree
    refine ih (Nat.lt_of_succ_lt hi) hwriter (Or.inr ?_)
    rw [room, hbuf, List.length_nil, decide_eq_true hcap, Bool.or_true]

/-- The last program that runs, if there is one. -/
theorem exists_last_alive {i : Nat} (hi : i < n) (halive : (s.stage i).phase.alive = true) :
    ∃ j < n, (s.stage j).phase.alive = true ∧ ∀ k, j < k → k < n → (s.stage k).phase.alive = false := by
  induction hk : n - i using Nat.strong_induction_on generalizing i with
  | _ m ih =>
    by_cases hlast : ∀ k, i < k → k < n → (s.stage k).phase.alive = false
    · exact ⟨i, hi, halive, hlast⟩
    · simp only [not_forall, Bool.not_eq_false] at hlast
      obtain ⟨k, hik, hkn, hkalive⟩ := hlast
      exact ih (n - k) (by omega) hkn hkalive rfl

/-- **If no program can do anything**, the source can write, or it has closed
its end and all have left. -/
theorem Inv.quiet (h : Inv w n xs s) (hno : ∀ s', ¬Works w n cap s s') (hcap : 0 < cap) :
    (s.reader n 0 = true → s.room n cap 0 = true) ∧ (s.isOpen = false → Over n s) := by
  have halive : ∀ i < n, (s.stage i).phase.alive = true → s.isOpen = true ∧ s.buf 0 = [] := by
    intro i hi hai
    obtain ⟨j, hj, haj, hlast⟩ := exists_last_alive hi hai
    refine h.starve_all hno hcap hj haj ?_
    rcases Nat.lt_or_eq_of_le (Nat.succ_le_of_lt hj) with hlt | heq
    · refine Or.inl ?_
      rw [reader, decide_eq_false (Nat.not_le.mpr hlt), hlast (j + 1) (Nat.lt_succ_self j) hlt]
      rfl
    · refine Or.inr ?_
      rw [room, decide_eq_true (Nat.le_of_eq heq.symm), Bool.true_or]
  refine ⟨fun hreader => ?_, fun hclosed => ⟨hclosed, fun i hi => ?_⟩⟩
  · rw [reader, Bool.or_eq_true, decide_eq_true_eq] at hreader
    rw [room, Bool.or_eq_true, decide_eq_true_eq]
    rcases hreader with hzero | hzero
    · exact Or.inl hzero
    · rcases Nat.eq_zero_or_pos n with hn | hn
      · exact Or.inl (Nat.le_of_eq hn)
      · rw [(halive 0 hn hzero).2]
        exact Or.inr (decide_eq_true hcap)
  · rw [← Bool.not_eq_true]
    intro hai
    rw [(halive i hi hai).1] at hclosed
    cases hclosed

/-! ### Every step is one less to come -/

def Phase.rank : Phase → Nat
  | .running => 2
  | .ended => 1
  | .exited => 0
  | .killed => 0

/-- What the program with the number `i` has still to do, at most. -/
def cost (w : Nat → Worker α) (xs : List α) (s : State α) (i : Nat) : Nat :=
  ((level w xs i).length - (s.stage i).read.length) +
    ((level w xs (i + 1)).length - (s.stage i).written.length) + (s.stage i).phase.rank

def work (w : Nat → Worker α) (n : Nat) (xs : List α) (s : State α) : Nat :=
  s.source.length + s.isOpen.toNat + ∑ i ∈ Finset.range n, cost w xs s i

theorem work_lt_of_cost {i : Nat} (hi : i < n) (hsource : s'.source = s.source)
    (hopen : s'.isOpen = s.isOpen) (hstage : ∀ j, j ≠ i → s'.stage j = s.stage j)
    (hcost : cost w xs s' i < cost w xs s i) : work w n xs s' < work w n xs s := by
  rw [work, work, hsource, hopen]
  refine Nat.add_lt_add_left (Finset.sum_lt_sum (fun j hj => ?_) ⟨i, Finset.mem_range.mpr hi, hcost⟩) _
  by_cases hj : j = i
  · rw [hj]
    exact Nat.le_of_lt hcost
  · rw [cost, cost, hstage j hj]

theorem Inv.written_length (h : Inv w n xs s) {i : Nat} (hi : i < n) :
    (s.stage i).written.length ≤ (level w xs (i + 1)).length :=
  (h.written_begins hi (h.pushed_begins (Nat.le_of_lt hi))).length_le

theorem Inv.read_length (h : Inv w n xs s) {i : Nat} (hi : i < n) :
    (s.stage i).read.length ≤ (level w xs i).length := by
  have := (h.pushed_begins (Nat.le_of_lt hi)).length_le
  rw [pushed, if_pos hi, List.length_append] at this
  omega

theorem Phase.rank_lt {p : Phase} (h : p.alive = true) : 0 < p.rank := by
  cases p with
  | running => decide
  | ended => decide
  | exited => cases h
  | killed => cases h

/-- **Every step makes something less.** -/
theorem Inv.work_lt (h : Inv w n xs s) (hstep : Step w n cap s s') :
    work w n xs s' < work w n xs s := by
  have h' := h.step hstep
  cases hstep with
  | @send x rest hsource hreader hroom =>
    rw [work, work, hsource, List.length_cons]
    show rest.length + s.isOpen.toNat + ∑ i ∈ Finset.range n, cost w xs s i < _
    omega
  | @lose x rest hsource hreader =>
    rw [work, work, hsource, List.length_cons]
    show rest.length + s.isOpen.toNat + ∑ i ∈ Finset.range n, cost w xs s i < _
    omega
  | close hopen hsource =>
    rw [work, work, hopen, hsource]
    show 0 + 0 + ∑ i ∈ Finset.range n, cost w xs s i < _
    simp
  | work hwork =>
    cases hwork with
    | @take i x rest hi hbuf hwants =>
      refine work_lt_of_cost hi rfl rfl (fun j hj => by simp [setStage_stage_ne hj]) ?_
      have hlen := h'.read_length hi
      simp only [cost, setBuf_stage, setStage_stage_self, Stage.take, List.length_append,
        List.length_singleton] at hlen ⊢
      omega
    | @finish i hi hbuf hwriter hwants =>
      refine work_lt_of_cost hi rfl rfl (fun j hj => setStage_stage_ne hj s _) ?_
      simp [cost, Stage.turn, hwants.1, Phase.rank]
    | @put i x hi hwrites hreader hroom =>
      refine work_lt_of_cost hi rfl rfl (fun j hj => by simp [setStage_stage_ne hj]) ?_
      have hlen := h'.written_length hi
      simp only [cost, setBuf_stage, setStage_stage_self, Stage.put, List.length_append,
        List.length_singleton] at hlen ⊢
      omega
    | @kill i x hi hwrites hreader =>
      refine work_lt_of_cost hi rfl rfl (fun j hj => setStage_stage_ne hj s _) ?_
      simpa [cost, Stage.turn, Phase.rank] using Phase.rank_lt hwrites.1
    | @leave i hi hdone =>
      refine work_lt_of_cost hi rfl rfl (fun j hj => setStage_stage_ne hj s _) ?_
      simpa [cost, Stage.turn, Phase.rank] using Phase.rank_lt hdone.1

end

end Flow
