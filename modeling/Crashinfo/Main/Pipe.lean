import Crashinfo.Main.Threads

/-!
# What comes through the info pipe

`Threads.Inv` holds between any two steps of the two threads, and so in every state
that they come to (`Threads.Inv.run`).  What `main` does on the way is what `tee` does
as a whole (`Walked`), so what holds of `tee` holds of it whatever the other thread
does meanwhile.
-/

namespace Crashinfo

open Script Script.Run Reading

def Dumper.started : Dumper → Bool
  | .preparing _ | .locking _ => false
  | .dumping _ | .ended => true

structure Threads.Inv (cap : Nat) (d : Threads) : Prop where
  /-- nothing is lost or added in the pipe, and the order is kept -/
  link : d.got ++ d.pipe = d.tee.info
  room : d.pipe.length ≤ cap
  fits : d.spot.Fits d.tee
  served : d.tee.Served
  /-- until `dump_lock` is unlocked the pipe is open and does not block -/
  early : d.spot.unlocked = false → d.tee.infoOpen = true ∧ d.tee.nonblock = true
  lock : d.dumper.started = true → d.spot.unlocked = true
  told : d.told = none ↔ ∃ u, d.dumper = .preparing u
  broken : d.tee.broken = true → d.dumper = .ended
  eof : d.eof = true → d.pipe = [] ∧ d.writable = false ∧ d.tee.broken = false
  joined : d.spot = .through → d.dumper = .ended

section Inv

variable {cap : Nat} {libunwind : Bool} {d d' : Threads} {S : List Byte} {pid : Int}
  {u : Reader Byte (Int × Reader Byte Unit)}

theorem inv_start_threads : (Threads.start S pid u).Inv cap where
  link := rfl
  room := Nat.zero_le _
  fits := ⟨Nat.zero_le _, rfl, rfl, rfl, rfl⟩
  served := ⟨rfl, rfl⟩
  early := fun _ => ⟨rfl, rfl⟩
  lock := by simp [Threads.start, Dumper.started]
  told := ⟨fun _ => ⟨u, rfl⟩, fun _ => rfl⟩
  broken := by simp [Threads.start, Tee.start]
  eof := by simp [Threads.start]
  joined := by simp [Threads.start, Spot.first]

theorem Threads.Tells.takes {w : Answer} (h : d.Tells cap w) {site : Site} {off count size : Nat}
    (hspot : d.spot = .io site off count size) (hc : site.chan = .info) :
    d.Takes cap (d.tee.res w (count - size) .info) := by
  rw [Threads.Tells, hspot] at h
  exact h hc

theorem pipe_called {w : Answer} {p : Spot} {t : Tee} (htells : d.Tells cap w)
    (hgo : d.spot.go libunwind d.tee [w] = .done p t []) :
    ∃ bs, t.info = d.tee.info ++ bs ∧ (d.called p t).pipe = d.pipe ++ bs ∧
      (bs = [] ∨ d.dumper ≠ .ended ∧ d.pipe.length + bs.length ≤ cap ∧ d.writable = true) := by
  rcases info_go hgo with h | ⟨site, off, count, size, n, hspot, hc, hr, h⟩
  · refine ⟨[], by rw [h, List.append_nil], ?_, Or.inl rfl⟩
    rw [Threads.called, h, List.drop_length]
  · refine ⟨_, h, ?_, ?_⟩
    · rw [Threads.called, h, List.drop_left]
    · have htakes := htells.takes hspot hc
      rw [hr] at htakes
      rcases htakes with rfl | ⟨halive, hroom⟩
      · exact Or.inl rfl
      by_cases hn : n = 0
      · subst hn
        exact Or.inl rfl
      refine Or.inr ⟨halive, by rwa [length_slice], ?_⟩
      have hopen : d.tee.infoOpen = true := by
        by_contra hclosed
        rw [res_closed (Bool.not_eq_true _ ▸ hclosed)] at hr
        cases hr
      rw [Threads.writable, hopen, hspot]
      rfl

theorem Threads.Inv.call (h : d.Inv cap) {w : Answer} {p : Spot} {t : Tee}
    (htells : d.Tells cap w) (hgo : d.spot.go libunwind d.tee [w] = .done p t []) :
    (d.called p t).Inv cap := by
  obtain ⟨bs, hinfo, hpipe, hbs⟩ := pipe_called htells hgo
  obtain ⟨hunl, hwrite, hwas, hopen, hblock⟩ := modes_go hgo
  refine ⟨?_, ?_, ?_, served_go h.served hgo, ?_, ?_, h.told, ?_, ?_, ?_⟩
  · show d.got ++ (d.called p t).pipe = t.info
    rw [hpipe, hinfo, ← h.link, List.append_assoc]
  · rw [hpipe, List.length_append]
    rcases hbs with rfl | ⟨-, hroom, -⟩
    · exact h.room
    · exact hroom
  · exact fits_go h.fits (fun hl => (h.early hl).1) h.served hgo
  · intro hl
    have hl' : d.spot.unlocked = false := hunl.symm.trans hl
    refine ⟨hopen.trans (h.early hl').1, (hblock ?_).trans (h.early hl').2⟩
    intro hspot
    rw [hspot] at hl'
    cases hl'
  · exact fun hs => hunl.trans (h.lock hs)
  · intro hb
    rcases broken_go hgo with heq | ⟨site, off, count, size, hspot, hc, hr⟩
    · exact h.broken (heq.symm.trans hb)
    · have htakes := htells.takes hspot hc
      rw [hr] at htakes
      exact htakes
  · intro he
    obtain ⟨hnil, hclosed, hnb⟩ := h.eof he
    have hdead : d.tee.infoOpen = false := by
      rw [Threads.writable, hwas, Bool.and_true] at hclosed
      exact hclosed
    refine ⟨?_, ?_, ?_⟩
    · rw [hpipe, hnil]
      rcases hbs with rfl | ⟨-, -, hw⟩
      · rfl
      · rw [hclosed] at hw
        cases hw
    · show (t.infoOpen && p.writing) = false
      rw [hopen, hdead, Bool.false_and]
    · rcases broken_go hgo with heq | ⟨site, off, count, size, hspot, hc, hr⟩
      · exact heq.trans hnb
      · rw [res_closed hdead] at hr
        cases hr
  · intro hp
    rw [show p = .through from hp] at hwrite
    cases hwrite

theorem Threads.Inv.main (h : d.Inv cap) (hstep : MainStep cap libunwind d d') : d'.Inv cap := by
  cases hstep with
  | call htells hgo => exact h.call htells hgo
  | @unlock p t hspot hgo =>
    have hgo' := hgo
    rw [hspot] at hgo
    obtain ⟨hunl, hwrite, rfl⟩ := unlock_go hgo
    have hearly := h.early (by rw [hspot]; rfl)
    have hwritable : d.writable = true := by
      rw [Threads.writable, hspot, hearly.1]
      rfl
    have hfits := fits_go h.fits (fun _ => hearly.1) h.served hgo'
    refine ⟨?_, h.room, hfits, served_go h.served hgo', ?_, fun _ => hunl, h.told, ?_, ?_, ?_⟩
    · show d.got ++ d.pipe = Tee.info (if libunwind then _ else _)
      rw [h.link]
      split
      · rfl
      · rfl
    · intro hl
      rw [hunl] at hl
      cases hl
    · intro hb
      refine h.broken ?_
      rw [← hb]
      show d.tee.broken = Tee.broken (if libunwind then _ else _)
      split
      · rfl
      · rfl
    · intro he
      rw [(h.eof he).2.1] at hwritable
      cases hwritable
    · intro hp
      rw [show p = .through from hp] at hwrite
      cases hwrite
  | quit hspot =>
    have hearly := h.early (by rw [hspot]; rfl)
    refine ⟨h.link, h.room, trivial, h.served, fun _ => hearly, fun hs => ?_, h.told, h.broken,
      ?_, by simp⟩
    · have hl := h.lock hs
      rw [hspot] at hl
      cases hl
    · exact fun he => ⟨(h.eof he).1, Bool.and_false _, (h.eof he).2.2⟩
  | close hspot =>
    refine ⟨h.link, h.room, trivial, h.served, fun hl => ?_, fun _ => rfl, h.told, h.broken,
      ?_, by simp⟩
    · cases hl
    · exact fun he => ⟨(h.eof he).1, Bool.and_false _, (h.eof he).2.2⟩
  | join hspot hended =>
    refine ⟨h.link, h.room, trivial, h.served, fun hl => ?_, fun _ => rfl, h.told, h.broken, ?_,
      fun _ => hended⟩
    · cases hl
    · exact fun he => ⟨(h.eof he).1, Bool.and_false _, (h.eof he).2.2⟩

/-- A `read` leaves the thread where it was, but for what it has read. -/
theorem reading_next {n : Nat} {next : List Byte → Dumper} {a : Dumper}
    (h : a.reading = some (n, next)) (bs : List Byte) :
    (next bs).started = a.started ∧ a ≠ .ended ∧
      ((∃ u, a = .preparing u) ↔ ∃ u, next bs = .preparing u) := by
  unfold Dumper.reading at h
  split at h
  · cases h
    exact ⟨rfl, by simp, fun _ => ⟨_, rfl⟩, fun _ => ⟨_, rfl⟩⟩
  · cases h
    exact ⟨rfl, by simp, by simp⟩
  · cases h

/-- The thread goes on to `a`, and nobody else is concerned. -/
theorem Threads.Inv.move (h : d.Inv cap) {a : Dumper} (halive : d.dumper ≠ .ended)
    (hstarted : a.started = true → d.spot.unlocked = true) {pipe got : List Byte} {eof : Bool}
    {told : Option Int} (htold : told = none ↔ ∃ u, a = .preparing u)
    (hlink : got ++ pipe = d.got ++ d.pipe) (hroom : pipe.length ≤ d.pipe.length)
    (heof : eof = true → pipe = [] ∧ d.writable = false) :
    Threads.Inv cap { d with
      dumper := a, told := told, pipe := pipe, got := got, eof := eof } where
  link := hlink.trans h.link
  room := Nat.le_trans hroom h.room
  fits := h.fits
  served := h.served
  early := h.early
  lock := hstarted
  told := htold
  broken := fun hb => absurd (h.broken hb) halive
  eof := fun he => ⟨(heof he).1, (heof he).2, by
    by_contra hb
    exact halive (h.broken (Bool.eq_true_of_not_eq_false hb))⟩
  joined := fun hp => absurd (h.joined hp) halive

theorem Threads.Inv.dumper_step (h : d.Inv cap) (hstep : DumperStep d d') : d'.Inv cap := by
  cases hstep with
  | take hread hpipe hne hn =>
    obtain ⟨hstarted, halive, hprep⟩ := reading_next hread _
    refine h.move halive (fun hs => h.lock (hstarted.symm.trans hs)) (h.told.trans hprep) ?_ ?_ ?_
    · rw [hpipe, List.append_assoc]
    · rw [hpipe, List.length_append]
      omega
    · intro he
      have hnil := (h.eof he).1
      rw [hpipe] at hnil
      exact ⟨(List.append_eq_nil_iff.mp hnil).2, (h.eof he).2.1⟩
  | finish hread hn hpipe hclosed =>
    obtain ⟨hstarted, halive, hprep⟩ := reading_next hread []
    exact h.move halive (fun hs => h.lock (hstarted.symm.trans hs)) (h.told.trans hprep) rfl
      (Nat.le_refl _) fun _ => ⟨hpipe, hclosed⟩
  | nothing hread =>
    obtain ⟨hstarted, halive, hprep⟩ := reading_next hread []
    exact h.move halive (fun hs => h.lock (hstarted.symm.trans hs)) (h.told.trans hprep) rfl
      (Nat.le_refl _) fun he => ⟨(h.eof he).1, (h.eof he).2.1⟩
  | prepared hat =>
    exact h.move (by rw [hat]; simp) (fun hs => by cases hs) (by simp) rfl (Nat.le_refl _)
      fun he => ⟨(h.eof he).1, (h.eof he).2.1⟩
  | lock hat hfree =>
    refine h.move (by rw [hat]; simp) (fun _ => hfree) (h.told.trans ?_) rfl (Nat.le_refl _)
      fun he => ⟨(h.eof he).1, (h.eof he).2.1⟩
    rw [hat]
    simp
  | leave hat =>
    refine h.move (by rw [hat]; simp) (fun _ => h.lock (by rw [hat]; rfl)) (h.told.trans ?_) rfl
      (Nat.le_refl _) fun he => ⟨(h.eof he).1, (h.eof he).2.1⟩
    rw [hat]
    simp

theorem Threads.Inv.step (h : d.Inv cap) (hstep : ThreadsStep cap libunwind d d') :
    d'.Inv cap := by
  cases hstep with
  | main h' => exact h.main h'
  | dumper _ h' => exact h.dumper_step h'

theorem Threads.Inv.run (h : d.Inv cap) (hrun : ThreadsRun cap libunwind d d') : d'.Inv cap := by
  induction hrun with
  | refl => exact h
  | tail _ hstep ih => exact ih.step hstep

/-! ### What `main` does is `tee` -/

/-- `main` has come to where it is as `tee` would have come there. -/
def Threads.Walked (libunwind : Bool) (t₀ : Tee) (d : Threads) : Prop :=
  ∃ o p, Walks (Spot.go libunwind) .first t₀ o p d.tee ∧
    (d.spot = p ∧ p.writing = true ∨ p = .closing ∧ (d.spot = .joining ∨ d.spot = .through) ∨
      d.spot = .gone)

theorem walked_start : (Threads.start S pid u).Walked libunwind (.start S pid) :=
  ⟨[], .first, .refl, Or.inl ⟨rfl, rfl⟩⟩

theorem Threads.Walked.main {t₀ : Tee} (h : d.Walked libunwind t₀)
    (hstep : MainStep cap libunwind d d') : d'.Walked libunwind t₀ := by
  obtain ⟨o, p, hwalk, hp⟩ := h
  have hat : d.spot.writing = true → p = d.spot := by
    intro hw
    rcases hp with ⟨h, -⟩ | ⟨-, h | h⟩ | h
    · exact h.symm
    · rw [h] at hw
      cases hw
    · rw [h] at hw
      cases hw
    · rw [h] at hw
      cases hw
  cases hstep with
  | call htells hgo =>
    obtain ⟨-, hwriting, hwas, -⟩ := modes_go hgo
    rw [← hat hwas] at hgo
    exact ⟨_, _, hwalk.step hgo, Or.inl ⟨rfl, hwriting⟩⟩
  | unlock hspot hgo =>
    have hwriting := (unlock_go (hspot ▸ hgo)).2.1
    rw [← hat (by rw [hspot]; rfl)] at hgo
    exact ⟨_, _, hwalk.step hgo, Or.inl ⟨rfl, hwriting⟩⟩
  | quit hspot => exact ⟨o, p, hwalk, Or.inr (Or.inr rfl)⟩
  | close hspot =>
    rw [hat (by rw [hspot]; rfl), hspot] at hwalk
    exact ⟨o, _, hwalk, Or.inr (Or.inl ⟨rfl, Or.inl rfl⟩)⟩
  | join hspot hended =>
    rcases hp with ⟨h, hw⟩ | ⟨hclosing, -⟩ | h
    · rw [← h, hspot] at hw
      cases hw
    · exact ⟨o, p, hwalk, Or.inr (Or.inl ⟨hclosing, Or.inr rfl⟩)⟩
    · rw [hspot] at h
      cases h

theorem Threads.Walked.dumper_step {t₀ : Tee} (h : d.Walked libunwind t₀)
    (hstep : DumperStep d d') : d'.Walked libunwind t₀ := by
  cases hstep with
  | take | finish | nothing | prepared | lock | leave => exact h

theorem Threads.Walked.run {t₀ : Tee} (h : d.Walked libunwind t₀)
    (hrun : ThreadsRun cap libunwind d d') : d'.Walked libunwind t₀ := by
  induction hrun with
  | refl => exact h
  | tail _ hstep ih =>
    cases hstep with
    | main h' => exact ih.main h'
    | dumper _ h' => exact ih.dumper_step h'

/-- Behind `pthread_join`, `tee` has been done as a whole. -/
theorem Threads.Walked.done {t₀ : Tee} (h : d.Walked libunwind t₀) (hspot : d.spot = .through) :
    ∃ o, Crashinfo.tee libunwind .thread t₀ o = .done () d.tee [] := by
  obtain ⟨o, p, hwalk, hp⟩ := h
  rcases hp with ⟨h, hw⟩ | ⟨rfl, -⟩ | h
  · rw [← h, hspot] at hw
    cases hw
  · exact ⟨o ++ [], tee_of_walks hwalk []⟩
  · rw [hspot] at h
    cases h

theorem leads_tee (S : List Byte) (pid : Int) :
    Leads (tee true .thread) (Tee.start S pid) fun _ t =>
      (Quiet t.io → t.core = S) ∧ (Calm t.io → t.nonblock = false → InStep t) :=
  (tee_spec S pid (64 * 1024) true .thread (fun _ _ hfed _ => transfer_libunwind (fun hq => (hfed hq).1)
    fun hf => absurd hf (by decide))).imp fun _ _ h => ⟨h.1, h.2 rfl⟩

/-- **The thread reads what `main` writes**, in whatever order the two go on: nothing is
lost, added or exchanged in the pipe.  `info_dump` begins behind the unlocking of
`dump_lock`.  And when both have come to their end the core output has got all of the
core, whatever the thread has done, and the thread has read a beginning of it, and all
of it if it has come to the end of the pipe. -/
theorem threads_feed (hrun : ThreadsRun cap libunwind (.start S pid u) d) :
    (d.got ++ d.pipe = d.tee.info ∧ d.pipe.length ≤ cap) ∧
      (d.dumper.started = true → d.spot.unlocked = true) ∧
      (libunwind = true → d.spot = .through → Calm d.tee.io → d.tee.nonblock = false →
        d.tee.core = S ∧ d.got <+: S ∧ (d.eof = true → d.got = S)) := by
  have hinv : d.Inv cap := inv_start_threads.run hrun
  refine ⟨⟨hinv.link, hinv.room⟩, hinv.lock, ?_⟩
  rintro rfl hspot hcalm hblock
  obtain ⟨o, hdone⟩ := (walked_start.run hrun).done hspot
  obtain ⟨hcore, hstep⟩ := (leads_tee S pid).of_done (fun _ _ => trivial) hdone
  have hS := hcore hcalm.quiet
  obtain ⟨hpre, hall⟩ := hstep hcalm hblock
  rw [hS] at hpre hall
  have hgot : d.got <+: d.tee.info := ⟨d.pipe, hinv.link⟩
  refine ⟨hS, hgot.trans hpre, fun he => ?_⟩
  obtain ⟨hnil, -, hnb⟩ := hinv.eof he
  rw [← hall hnb, ← hinv.link, hnil, List.append_nil]

theorem run_call {d₀ : Threads} {p : Spot} {t : Tee} (h : ThreadsRun cap libunwind d₀ d)
    (w : Answer) (htells : d.Tells cap w) (hgo : d.spot.go libunwind d.tee [w] = .done p t []) :
    ThreadsRun cap libunwind d₀ (d.called p t) :=
  h.tail (.main (.call htells hgo))

theorem run_dumper {d₀ : Threads} (h : ThreadsRun cap libunwind d₀ d) (halive : d.spot ≠ .gone)
    (hstep : DumperStep d d') : ThreadsRun cap libunwind d₀ d' :=
  h.tail (.dumper halive hstep)

theorem threads_feed_one : ∃ d, ThreadsRun 1 true (.start [7] 5
      (.read 1 fun _ => .ret (42, .read 1 fun _ => .ret ()))) d ∧
    d.spot = .through ∧ d.tee.core = [7] ∧ d.got = [7] := by
  have h0 : ThreadsRun 1 true (.start [7] 5
    (.read 1 fun _ => .ret (42, .read 1 fun _ => .ret ()))) _ := .refl
  have h1 := run_call h0 .ok Chan.noConfusion rfl
  have h2 := run_call h1 .ok Chan.noConfusion rfl
  have h3 := run_call h2 .ok (fun _ => Or.inr ⟨Dumper.noConfusion, by decide⟩) rfl
  have h4 := run_call h3 .ok rfl rfl
  have h5 := h4.tail (.main (.unlock rfl rfl))
  have h6 := run_call h5 .ok trivial rfl
  have h7 := run_call h6 .ok Chan.noConfusion rfl
  have h8 := run_call h7 .ok Chan.noConfusion rfl
  have h9 := h8.tail (.main (.close rfl))
  have hpipe : [7] = [7] ++ ([] : List Byte) := rfl
  have h10 := run_dumper h9 Spot.noConfusion (.take rfl hpipe (by decide) (by decide))
  have h11 := run_dumper h10 Spot.noConfusion (.prepared rfl)
  have h12 := run_dumper h11 Spot.noConfusion (.lock rfl rfl)
  have h13 := run_dumper h12 Spot.noConfusion (.finish rfl (by decide) rfl rfl)
  have h14 := run_dumper h13 Spot.noConfusion (.leave rfl)
  have h15 := h14.tail (.main (.join rfl rfl))
  obtain ⟨hcore, -, hgot⟩ := (threads_feed h15).2.2 rfl rfl (by decide) rfl
  exact ⟨_, h15, rfl, hcore, hgot rfl⟩

end Inv

end Crashinfo
