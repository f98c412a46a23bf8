import Crashinfo.Lib.Descent
import Crashinfo.Main.Progress
import Mathlib.Data.Prod.Lex
import Mathlib.Order.RelClasses

/-!
# How the two threads come to an end

A step that is not idle takes the thread further in what it does, which has an end
(`Dumper.Next`), or it costs `main` something (`Threads.rank`).  So a run without an
end comes to where `main` does nothing but to make calls that are interrupted, or to
ask for the PID again and again (`threads_settle`).
-/

namespace Crashinfo

open Script Script.Run Reading

inductive Dumper.Next : Dumper → Dumper → Prop
  | read {a : Dumper} {n : Nat} {next : List Byte → Dumper} (hread : a.reading = some (n, next))
      (bs : List Byte) : Dumper.Next a (next bs)
  | prepared (pid : Int) (dump : Reader Byte Unit) :
      Dumper.Next (.preparing (.ret (pid, dump))) (.locking dump)
  | lock (dump : Reader Byte Unit) : Dumper.Next (.locking dump) (.dumping dump)
  | leave : Dumper.Next (.dumping (.ret ())) .ended

def Threads.rank (d : Threads) : Dumper × Nat := (d.dumper, d.cost)

def Further : Dumper × Nat → Dumper × Nat → Prop := Prod.Lex (fun b a => a.Next b) (· < ·)

section Ending

variable {cap m : Nat} {libunwind : Bool} {d d' : Threads} {S : List Byte} {pid : Int}
  {u : Reader Byte (Int × Reader Byte Unit)}

theorem acc_ended : Acc (fun b a : Dumper => a.Next b) .ended := by
  refine ⟨_, fun b h => ?_⟩
  cases h with
  | read hread bs => cases hread

theorem acc_dumping (dump : Reader Byte Unit) :
    Acc (fun b a : Dumper => a.Next b) (.dumping dump) := by
  induction dump with
  | ret a =>
    refine ⟨_, fun b h => ?_⟩
    cases h with
    | read hread bs => cases hread
    | leave => exact acc_ended
  | read n next ih =>
    refine ⟨_, fun b h => ?_⟩
    cases h with
    | read hread bs =>
      cases hread
      exact ih bs

theorem acc_locking (dump : Reader Byte Unit) :
    Acc (fun b a : Dumper => a.Next b) (.locking dump) := by
  refine ⟨_, fun b h => ?_⟩
  cases h with
  | read hread bs => cases hread
  | lock => exact acc_dumping dump

theorem acc_preparing (u : Reader Byte (Int × Reader Byte Unit)) :
    Acc (fun b a : Dumper => a.Next b) (.preparing u) := by
  induction u with
  | ret a =>
    refine ⟨_, fun b h => ?_⟩
    cases h with
    | read hread bs => cases hread
    | prepared pid dump => exact acc_locking dump
  | read n next ih =>
    refine ⟨_, fun b h => ?_⟩
    cases h with
    | read hread bs =>
      cases hread
      exact ih bs

theorem wellFounded_dumper : WellFounded fun b a : Dumper => a.Next b := by
  refine ⟨fun a => ?_⟩
  cases a with
  | preparing u => exact acc_preparing u
  | locking dump => exact acc_locking dump
  | dumping dump => exact acc_dumping dump
  | ended => exact acc_ended

theorem wellFounded_further : WellFounded Further :=
  WellFounded.prod_lex wellFounded_dumper Nat.lt_wfRel.wf

theorem DumperStep.next (h : DumperStep d d') : d.dumper.Next d'.dumper := by
  cases h with
  | take hread hpipe hne hn => exact .read hread _
  | finish hread hn hpipe hclosed => exact .read hread []
  | nothing hread => exact .read hread []
  | prepared hat =>
    rw [hat]
    exact .prepared _ _
  | lock hat hfree =>
    rw [hat]
    exact .lock _
  | leave hat =>
    rw [hat]
    exact .leave

theorem MainStep.dumper_eq (h : MainStep cap libunwind d d') : d'.dumper = d.dumper := by
  cases h with
  | call | unlock | quit | close | join => rfl

/-- **Every step that is not idle leads further.** -/
theorem BusyStep.further (h : d.Inv cap) (hmoves : BusyStep cap libunwind d d') :
    Further d'.rank d.rank := by
  cases hmoves with
  | main hstep hbusy =>
    rw [Threads.rank, hstep.dumper_eq]
    exact .right _ ((hstep.cost h).resolve_left hbusy)
  | dumper halive hstep => exact .left _ _ hstep.next

/-- A step is idle, and nothing has changed, or it leads further. -/
theorem ThreadsStep.idle_or_further (h : d.Inv cap) (hstep : ThreadsStep cap libunwind d d') :
    (MainStep cap libunwind d d' ∧ IdleStep d d') ∧ d'.rank = d.rank ∨ Further d'.rank d.rank := by
  cases hstep with
  | main hmain =>
    by_cases hidle : IdleStep d d'
    · refine Or.inl ⟨⟨hmain, hidle⟩, ?_⟩
      rw [Threads.rank, hmain.dumper_eq, hidle.cost_eq hmain.told_eq]
      rfl
    · exact Or.inr (BusyStep.further h (.main hmain hidle))
  | dumper halive hdumper => exact Or.inr (.left _ _ hdumper.next)

/-- **Nobody waits for somebody who waits, and `main` has only so much to do.**  Of all
the steps that `main` makes in a run, those that are not idle are bounded by the length
of the core.  And wherever the two have come, one of them can make a step that is not
idle, unless `main` is through, or the thread waits for more of the core than `main`
will ever feed it. -/
theorem threads_progress (hcap : 0 < cap) (hrun : BusyRun cap libunwind (.start S pid u) m d) :
    m ≤ 117 * S.length + 120 ∧
      (d.Finished ∨ d.Starved ∨ ∃ d', BusyStep cap libunwind d d') := by
  constructor
  · have hcost : (Threads.start S pid u).cost = 117 * S.length + 107 * 0 + 120 := rfl
    have := hrun.cost_le inv_start_threads
    omega
  · exact (inv_start_threads.run hrun.run).progress hcap |>.imp_right
      (Or.imp_right fun ⟨d', hmoves, _⟩ => ⟨d', hmoves⟩)

theorem threads_progress_one : ∃ d, BusyRun 1 true (.start [7] 5 (.ret (42, .ret ()))) 1 d ∧
    1 ≤ 117 * 1 + 120 ∧ (d.Finished ∨ d.Starved ∨ ∃ d', BusyStep 1 true d d') := by
  have hidle : BusyRun 1 true (.start [7] 5 (.ret (42, .ret ()))) 0 _ :=
    .idle .start (.call (w := .err .eintr) Chan.noConfusion rfl) ⟨rfl, Or.inl rfl⟩
  have hrun := hidle.busy (.call (w := .ok) Chan.noConfusion rfl) (by
    rintro ⟨-, hspot | ⟨-, hdrained, -⟩⟩
    · exact absurd hspot (by decide)
    · exact hdrained)
  exact ⟨_, hrun, threads_progress Nat.one_pos hrun⟩

/-- **A run without an end comes to rest**: from some step on the thread does nothing,
and `main` does nothing but to repeat a call that a signal has interrupted, or to ask for
a PID that nobody knows when all of `buf` is in the pipe. -/
theorem threads_settle {f : Nat → Threads} (hstart : f 0 = .start S pid u)
    (hstep : ∀ i, ThreadsStep cap libunwind (f i) (f (i + 1))) :
    ∃ n, ∀ i, n ≤ i → MainStep cap libunwind (f i) (f (i + 1)) ∧ IdleStep (f i) (f (i + 1)) := by
  have hinv : ∀ i, (f i).Inv cap := by
    intro i
    induction i with
    | zero =>
      rw [hstart]
      exact inv_start_threads
    | succ i ih => exact ih.step (hstep i)
  exact Descent.settles wellFounded_further fun i => (hstep i).idle_or_further (hinv i)

theorem threads_settle_one : ∃ f : Nat → Threads, f 0 = .start [7] 5 (.ret (42, .ret ())) ∧
    ∃ n, ∀ i, n ≤ i → MainStep 1 true (f i) (f (i + 1)) ∧ IdleStep (f i) (f (i + 1)) := by
  refine ⟨fun i => { Threads.start [7] 5 (.ret (42, .ret ())) with
    tee := { Tee.start [7] 5 with
      io := List.replicate i ⟨.stdin, 0, bufSize, .error .eintr⟩ } }, rfl, ?_⟩
  refine threads_settle rfl fun i => .main ?_
  rw [List.replicate_succ']
  exact .call (w := .err .eintr) Chan.noConfusion rfl

end Ending

end Crashinfo
