import Crashinfo.Lib.Reader
import Crashinfo.Main.Spots
import Mathlib.Logic.Relation

/-!
# The two threads

`main` writes the core to the info pipe, and `info_dump_thread` reads it there, first
in `unw_prepare`, to find the PID that `main` waits for, and then in `info_dump`.
Between them is a pipe of bounded capacity, `run.pid`, and `dump_lock`, which `main`
holds until the outputs are open.  They go on in any order, a call at a time
(`ThreadsStep`); what libunwind makes of what it reads is a program of its own that is
given (`Reading.Reader`).
-/

namespace Crashinfo

open Script Script.Run Reading

/-- Where `info_dump_thread` is. -/
inductive Dumper where
  /-- in `unw_prepare`, which comes to a PID; what is read of the core behind it is
  known then -/
  | preparing (u : Reader Byte (Int × Reader Byte Unit))
  /-- in front of `pthread_mutex_lock` -/
  | locking (dump : Reader Byte Unit)
  /-- in `info_dump` -/
  | dumping (dump : Reader Byte Unit)
  /-- it has closed its end of the pipe -/
  | ended

def Dumper.reading : Dumper → Option (Nat × (List Byte → Dumper))
  | .preparing (.read n next) => some (n, fun bs => .preparing (next bs))
  | .dumping (.read n next) => some (n, fun bs => .dumping (next bs))
  | _ => none

structure Threads where
  spot : Spot
  tee : Tee
  dumper : Dumper
  /-- what `unw_prepare` has returned -/
  told : Option Int := none
  /-- what is in the info pipe -/
  pipe : List Byte := []
  /-- what the thread has read from it -/
  got : List Byte := []
  /-- the thread has come to its end -/
  eof : Bool := false

/-- `pthread_create`, with `S` on descriptor 0. -/
def Threads.start (S : List Byte) (pid : Int) (u : Reader Byte (Int × Reader Byte Unit)) :
    Threads where
  spot := .first
  tee := .start S pid
  dumper := .preparing u

/-! ### The steps -/

def Site.unlocked : Site → Bool
  | .fill | .feed _ => false
  | _ => true

def Spot.unlocked : Spot → Bool
  | .io site _ _ _ => site.unlocked
  | .asking _ _ | .holding | .gone => false
  | _ => true

/-- `main` has not closed its end of the pipe at the end. -/
def Spot.writing : Spot → Bool
  | .joining | .through | .gone => false
  | _ => true

def Threads.writable (d : Threads) : Bool := d.tee.infoOpen && d.spot.writing

/-- What `write` on the info pipe may come to.  It may say that the pipe is full as
soon as there is anything in it. -/
def Threads.Takes (cap : Nat) (d : Threads) : Except Errno Nat → Prop
  | .ok n => n = 0 ∨ d.dumper ≠ .ended ∧ d.pipe.length + n ≤ cap
  | .error .eagain => d.pipe ≠ []
  | .error .epipe => d.dumper = .ended
  | .error _ => True

def Threads.answerPid (d : Threads) : Answer :=
  match d.told with
  | some p => .prepared p
  | none => .ok

def Threads.Tells (cap : Nat) (d : Threads) (w : Answer) : Prop :=
  match d.spot with
  | .io site _ count size => site.chan = .info → d.Takes cap (d.tee.res w (count - size) .info)
  | .asking _ _ => w = d.answerPid
  | _ => True

def Threads.called (d : Threads) (p : Spot) (t : Tee) : Threads :=
  { d with spot := p, tee := t, pipe := d.pipe ++ t.info.drop d.tee.info.length }

inductive MainStep (cap : Nat) (libunwind : Bool) (d : Threads) : Threads → Prop
  | call {w : Answer} {p : Spot} {t : Tee} (htells : d.Tells cap w)
      (hgo : d.spot.go libunwind d.tee [w] = .done p t []) : MainStep cap libunwind d (d.called p t)
  | unlock {p : Spot} {t : Tee} (hspot : d.spot = .holding)
      (hgo : d.spot.go libunwind d.tee [] = .done p t []) :
      MainStep cap libunwind d { d with spot := p, tee := t }
  | quit (hspot : d.spot = .holding) : MainStep cap libunwind d { d with spot := .gone }
  | close (hspot : d.spot = .closing) : MainStep cap libunwind d { d with spot := .joining }
  | join (hspot : d.spot = .joining) (hended : d.dumper = .ended) :
      MainStep cap libunwind d { d with spot := .through }

inductive DumperStep (d : Threads) : Threads → Prop
  | take {n : Nat} {next : List Byte → Dumper} {bs rest : List Byte}
      (hread : d.dumper.reading = some (n, next)) (hpipe : d.pipe = bs ++ rest) (hne : bs ≠ [])
      (hn : bs.length ≤ n) :
      DumperStep d { d with dumper := next bs, pipe := rest, got := d.got ++ bs }
  | finish {n : Nat} {next : List Byte → Dumper} (hread : d.dumper.reading = some (n, next))
      (hn : 0 < n) (hpipe : d.pipe = []) (hclosed : d.writable = false) :
      DumperStep d { d with dumper := next [], eof := true }
  | nothing {next : List Byte → Dumper} (hread : d.dumper.reading = some (0, next)) :
      DumperStep d { d with dumper := next [] }
  | prepared {pid : Int} {dump : Reader Byte Unit}
      (hat : d.dumper = .preparing (.ret (pid, dump))) :
      DumperStep d { d with dumper := .locking dump, told := some pid }
  | lock {dump : Reader Byte Unit} (hat : d.dumper = .locking dump)
      (hfree : d.spot.unlocked = true) : DumperStep d { d with dumper := .dumping dump }
  | leave (hat : d.dumper = .dumping (.ret ())) : DumperStep d { d with dumper := .ended }

/-- A step of either; the thread does not survive `main`. -/
inductive ThreadsStep (cap : Nat) (libunwind : Bool) (d : Threads) : Threads → Prop
  | main {d' : Threads} (h : MainStep cap libunwind d d') : ThreadsStep cap libunwind d d'
  | dumper {d' : Threads} (halive : d.spot ≠ .gone) (h : DumperStep d d') :
      ThreadsStep cap libunwind d d'

abbrev ThreadsRun (cap : Nat) (libunwind : Bool) : Threads → Threads → Prop :=
  Relation.ReflTransGen (ThreadsStep cap libunwind)

/-! ### Where `main` may be -/

structure Tee.Window (t : Tee) : Prop where
  start : 0 ≤ t.bufWrite
  le : t.bufWrite ≤ t.bufRead
  room : t.bufRead ≤ bufSize

def Site.Fits (t : Tee) (off count : Nat) : Site → Prop
  | .fill => off = 0 ∧ count = bufSize ∧ t.bufRead = 0 ∧ t.bufWrite = 0
  | .feed tries => tries < 50 ∧ t.Window ∧ t.bufWrite = off ∧ t.bufRead = off + count
  | .head bufRead bufWrite => off = 0 ∧ bufRead = t.bufRead ∧ bufWrite = t.bufWrite ∧
      count = sizeT bufRead ∧ (t.Window ∨ t.bufRead = -1 ∧ t.bufWrite = 0)
  | .tail => off + count ≤ bufSize
  | .next => off = 0 ∧ count = bufSize
  | .save n => off = 0 ∧ count = n ∧ n ≤ bufSize
  | .pass => off = 0 ∧ count ≤ bufSize

/-- What the variables of `main` say about where it is. -/
def Spot.Fits (t : Tee) : Spot → Prop
  | .io site off count size => size ≤ min count bufSize ∧ site.Fits t off count
  | .asking tries rtn => tries < 50 ∧ t.Window ∧ ((∃ e, rtn = .error e) → t.bufWrite < t.bufRead) ∧
      (rtn = .ok 0 → t.bufWrite = t.bufRead)
  | .holding | .blocking => t.Window ∨ t.bufRead = -1 ∧ t.bufWrite = 0
  | _ => True

section Fits

variable {libunwind : Bool} {t t' : Tee} {p p' : Spot} {site : Site} {off count size : Nat}
  {w : Answer} {o o' : List Answer} {rtn : Except Errno Nat}

theorem Tee.Window.congr (h : t.Window) (hread : t'.bufRead = t.bufRead)
    (hwrite : t'.bufWrite = t.bufWrite) : t'.Window where
  start := hwrite ▸ h.start
  le := by rw [hread, hwrite]; exact h.le
  room := hread ▸ h.room

theorem sizeT_eq_toNat {i : Int} (h0 : 0 ≤ i) (h : i ≤ bufSize) : sizeT i = i.toNat := by
  obtain ⟨n, rfl⟩ := Int.eq_ofNat_of_zero_le h0
  exact sizeT_of_nat (by omega)

/-- The front of the feeding loop, with the rest of the window before it. -/
theorem fits_frontFeed (h : t.Window) (tries : Nat) : (frontFeed tries t).Fits t := by
  obtain ⟨h0, hle, hroom⟩ := h
  rw [frontFeed]
  split
  · next htries =>
    have hsize := sizeT_eq_toNat (i := t.bufRead - t.bufWrite) (by omega) (by omega)
    exact ⟨Nat.zero_le _, htries, ⟨h0, hle, hroom⟩, by omega, by omega⟩
  · exact Or.inl ⟨h0, hle, hroom⟩

theorem fits_turn : Spot.turn.Fits t := ⟨Nat.zero_le _, rfl, rfl⟩

def Returned (count size : Nat) (r rtn : Except Errno Nat) : Prop :=
  (∃ m, rtn = .ok m ∧ size ≤ m ∧ m ≤ count ∧ r.toOption.getD 0 = m - size ∧
      (m = 0 → r = .ok 0)) ∨
    ∃ e, rtn = .error e ∧ r = .error e ∧ e ≠ .eintr ∧ size = 0

theorem returns_of_repeatOr {r : Except Errno Nat} (hle : size ≤ count)
    (hr : ∀ n, r = .ok n → n ≤ count - size) (hor : repeatOr count size r = .inr rtn) :
    Returned count size r rtn := by
  rcases repeatOr_cases count size r with ⟨n, -, -, -, h⟩ | ⟨-, h⟩ | ⟨n, hn, -, h⟩ | ⟨e, he, hr', h⟩
  · rw [h] at hor
    cases hor
  · rw [h] at hor
    cases hor
  · rw [h] at hor
    cases hor
    have := hr n hn
    refine Or.inl ⟨size + n, rfl, by omega, by omega, ?_, fun h0 => ?_⟩
    · rw [hn]
      exact (Nat.add_sub_cancel_left size n).symm
    · rw [hn, show n = 0 by omega]
  · rw [h] at hor
    split at hor
    · next h0 =>
      cases hor
      exact Or.inr ⟨e, rfl, hr', he, h0⟩
    · next h0 =>
      cases hor
      refine Or.inl ⟨size, rfl, Nat.le_refl _, hle, ?_, fun h => absurd h h0⟩
      rw [hr']
      exact (Nat.sub_self size).symm

/-- Nothing fails on an open pipe if there is nothing to write. -/
theorem infoRes_zero (hopen : t.infoOpen = true) : t.res w 0 .info = .ok 0 := by
  rw [Tee.res]
  unfold Tee.infoRes
  rw [hopen]
  rfl

theorem res_closed {n : Nat} (hclosed : t.infoOpen = false) :
    t.res w n .info = .error .ebadf := by
  rw [Tee.res]
  unfold Tee.infoRes
  rw [hclosed]
  rfl

/-- Where `main` goes behind a `safe_read` or `safe_write` fits, too. -/
theorem fits_to {t₁ : Tee} {r : Except Errno Nat} (hfits : site.Fits t off count)
    (hread : t₁.bufRead = t.bufRead) (hwrite : t₁.bufWrite = t.bufWrite)
    (hopen : site.unlocked = false → t.infoOpen = true) (hs : t.Served)
    (hres : r = t.res w (count - size) site.chan) (hrtn : Returned count size r rtn) :
    (site.to rtn (site.put rtn t₁)).Fits (site.put rtn t₁) := by
  cases site with
  | fill =>
    obtain ⟨rfl, rfl, -, -⟩ := hfits
    have hwin : ∀ m : Nat, m ≤ bufSize →
        ({ t₁ with bufRead := m, bufWrite := 0 } : Tee).Window := fun m hm =>
      ⟨Int.le_refl 0, Int.natCast_nonneg m, Int.ofNat_le.mpr hm⟩
    rw [Site.to]
    rcases hrtn with ⟨m, rfl, -, hm, -, -⟩ | ⟨e, rfl, -⟩
    · split
      · exact Or.inl (hwin m hm)
      · exact fits_frontFeed (hwin m hm) 0
    · exact Or.inr ⟨rfl, rfl⟩
  | feed tries =>
    obtain ⟨htries, ⟨h0, hle, hroom⟩, hoff, hcount⟩ := hfits
    rcases hrtn with ⟨m, rfl, hm, hmle, -, hzero⟩ | ⟨e, rfl, hr, -, rfl⟩
    · refine ⟨?_, ⟨?_, ?_, ?_⟩, by simp, fun hm0 => ?_⟩
      · split
        · decide
        · exact htries
      · show 0 ≤ t₁.bufWrite + (m : Int)
        omega
      · show t₁.bufWrite + (m : Int) ≤ t₁.bufRead
        omega
      · show t₁.bufRead ≤ bufSize
        omega
      · have hm0 : m = 0 := Except.ok.inj hm0
        rw [hzero hm0] at hres
        have hc := (le_of_res hs hres.symm).2.2 rfl
        have hc : count - size = 0 := hc.resolve_right fun h => Chan.noConfusion h.1
        show t₁.bufWrite + (m : Int) = t₁.bufRead
        omega
    · refine ⟨?_, ⟨?_, ?_, ?_⟩, fun _ => ?_, by simp⟩
      · split
        · decide
        · exact htries
      · show 0 ≤ t₁.bufWrite + 0
        omega
      · show t₁.bufWrite + 0 ≤ t₁.bufRead
        omega
      · show t₁.bufRead ≤ bufSize
        omega
      · have hc : count ≠ 0 := by
          rintro rfl
          rw [hr] at hres
          have hzero := hres.trans (infoRes_zero (hopen rfl))
          cases hzero
        show t₁.bufWrite + 0 < t₁.bufRead
        omega
  | head bufRead bufWrite =>
    obtain ⟨rfl, rfl, rfl, rfl, hwin⟩ := hfits
    rw [Site.to]
    split
    · next hgt =>
      rcases hwin with ⟨h0, hle, hroom⟩ | ⟨h1, h2⟩
      · have hsize := sizeT_eq_toNat (i := t.bufRead - t.bufWrite) (by omega) (by omega)
        refine ⟨Nat.zero_le _, ?_⟩
        show t.bufWrite.toNat + sizeT (t.bufRead - t.bufWrite) ≤ bufSize
        omega
      · omega
    · exact fits_turn
  | next =>
    obtain ⟨rfl, rfl⟩ := hfits
    rcases hrtn with ⟨m, rfl, -, hm, -, -⟩ | ⟨e, rfl, -⟩
    · rw [Site.to]
      split
      · exact ⟨Nat.zero_le _, rfl, rfl, hm⟩
      · trivial
    · trivial
  | save n =>
    obtain ⟨rfl, rfl, hn⟩ := hfits
    exact ⟨Nat.zero_le _, rfl, hn⟩
  | tail | pass => exact fits_turn

/-- **A step keeps the variables of `main` in order.** -/
theorem fits_go (hfits : p.Fits t) (hopen : p.unlocked = false → t.infoOpen = true)
    (hs : t.Served) (hgo : p.go libunwind t o = .done p' t' o') : p'.Fits t' := by
  cases p with
  | io site off count size =>
    obtain ⟨hle, hsite⟩ := hfits
    obtain ⟨w, rfl, hroom, ⟨size', hor, rfl, rfl⟩ | ⟨rtn, hor, rfl, rfl⟩⟩ := done_of_io hgo
    · have hle' : size' ≤ min count bufSize := by
        rcases repeatOr_cases count size (t.res w (count - size) site.chan) with
          ⟨n, hn, -, hlt, h⟩ | ⟨-, h⟩ | ⟨n, -, -, h⟩ | ⟨e, -, -, h⟩
        all_goals
          rw [h] at hor
          cases hor
        · -- what was moved has come out of `buf`, or has gone into it
          by_cases hc : site.chan = .stdin
          · have hcount : count = bufSize := by
              cases site with
              | fill => exact hsite.2.1
              | next => exact hsite.2
              | feed | head | tail | save | pass => cases hc
            omega
          · have := hroom hc n hn
            omega
        · exact hle
      refine ⟨hle', ?_⟩
      cases site with
      | feed tries =>
        obtain ⟨htries, hwin, hoff, hcount⟩ := hsite
        exact ⟨htries, hwin.congr moved_bufRead moved_bufWrite, moved_bufWrite.trans hoff,
          moved_bufRead.trans hcount⟩
      | fill =>
        obtain ⟨hoff, hcount, hread, hwrite⟩ := hsite
        exact ⟨hoff, hcount, moved_bufRead.trans hread, moved_bufWrite.trans hwrite⟩
      | head bufRead bufWrite =>
        obtain ⟨hoff, hread, hwrite, hcount, hwin⟩ := hsite
        refine ⟨hoff, hread.trans moved_bufRead.symm, hwrite.trans moved_bufWrite.symm, hcount, ?_⟩
        rw [moved_bufRead, moved_bufWrite]
        exact hwin.imp_left fun h => h.congr moved_bufRead moved_bufWrite
      | tail | next | save n | pass => exact hsite
    · refine fits_to hsite moved_bufRead moved_bufWrite hopen hs rfl
        (returns_of_repeatOr (Nat.le_min.mp hle).1 (fun n hn => (le_of_res hs hn).1) hor)
  | asking tries rtn =>
    obtain ⟨htries, hwin, -, -⟩ := hfits
    cases o with
    | nil => cases hgo
    | cons w o =>
      rw [asking_run] at hgo
      cases hgo
      have hwin' : ({ t with pid := t.pidAfter w } : Tee).Window := hwin.congr rfl rfl
      split
      · exact Or.inl hwin'
      · unfold asked
        split
        · exact fits_frontFeed hwin' _
        · exact Or.inl hwin'
        · exact fits_frontFeed hwin' _
  | holding =>
    cases libunwind with
    | true =>
      cases hgo
      exact hfits
    | false =>
      cases hgo
      exact fits_turn
  | blocking =>
    obtain ⟨u, t₁, o₁, hrun, hrest⟩ := of_bind_done hgo
    obtain ⟨b, rfl⟩ := (blockfd_spec (P := fun _ => True) t).of_done (fun _ _ => trivial) hrun
    cases hrest
    exact ⟨Nat.zero_le _, rfl, rfl, rfl, rfl, hfits.imp_left fun h => h.congr rfl rfl⟩
  | closing | joining | through | gone =>
    cases hgo
    trivial

end Fits

/-! ### What a step of `main` does to the pipe -/

section Pipe

variable {libunwind : Bool} {t t' : Tee} {p p' : Spot} {w : Answer}

theorem unlocked_frontFeed (tries : Nat) (t : Tee) : (frontFeed tries t).unlocked = false := by
  rw [frontFeed]
  split
  · rfl
  · rfl

theorem writing_frontFeed (tries : Nat) (t : Tee) : (frontFeed tries t).writing = true := by
  rw [frontFeed]
  split
  · rfl
  · rfl

theorem unlocked_to (site : Site) (rtn : Except Errno Nat) (t : Tee) :
    (site.to rtn t).unlocked = site.unlocked := by
  cases site with
  | fill =>
    rw [Site.to]
    split
    · rfl
    · exact unlocked_frontFeed 0 t
  | head bufRead bufWrite =>
    rw [Site.to]
    split
    · rfl
    · rfl
  | next =>
    cases rtn with
    | error e => rfl
    | ok n =>
      rw [Site.to]
      split
      · rfl
      · rfl
  | feed tries | tail | save n | pass => rfl

theorem writing_to (site : Site) (rtn : Except Errno Nat) (t : Tee) :
    (site.to rtn t).writing = true := by
  cases site with
  | fill =>
    rw [Site.to]
    split
    · rfl
    · exact writing_frontFeed 0 t
  | head bufRead bufWrite =>
    rw [Site.to]
    split
    · rfl
    · rfl
  | next =>
    cases rtn with
    | error e => rfl
    | ok n =>
      rw [Site.to]
      split
      · rfl
      · rfl
  | feed tries | tail | save n | pass => rfl

/-- What comes to the pipe is written by a call of `write` on it. -/
theorem info_go (hgo : p.go libunwind t [w] = .done p' t' []) :
    t'.info = t.info ∨ ∃ site off count size n, p = .io site off count size ∧ site.chan = .info ∧
      t.res w (count - size) .info = .ok n ∧ t'.info = t.info ++ slice t.buf (off + size) n := by
  cases p with
  | io site off count size =>
    obtain ⟨v, hv, -, h⟩ := done_of_io hgo
    cases hv
    have hinfo : t'.info = t.info ++ if site.chan = .info then
        slice t.buf (off + size) ((t.res w (count - size) site.chan).toOption.getD 0) else [] := by
      rcases h with ⟨size', -, -, rfl⟩ | ⟨rtn, -, -, rfl⟩
      · exact moved_info
      · exact put_info.trans moved_info
    by_cases hc : site.chan = .info
    · rw [if_pos hc, hc] at hinfo
      cases hr : t.res w (count - size) .info with
      | error e =>
        rw [hr] at hinfo
        exact Or.inl (hinfo.trans (List.append_nil _))
      | ok n =>
        rw [hr] at hinfo
        exact Or.inr ⟨site, off, count, size, n, rfl, hc, hr, hinfo⟩
    · rw [if_neg hc, List.append_nil] at hinfo
      exact Or.inl hinfo
  | asking tries rtn =>
    rw [asking_run] at hgo
    cases hgo
    exact Or.inl rfl
  | blocking =>
    obtain ⟨u, t₁, o₁, hrun, hrest⟩ := of_bind_done hgo
    obtain ⟨b, rfl⟩ := (blockfd_spec (P := fun _ => True) t).of_done (fun _ _ => trivial) hrun
    cases hrest
    exact Or.inl rfl
  | holding => cases libunwind <;> cases hgo
  | closing | joining | through | gone => cases hgo

theorem broken_go (hgo : p.go libunwind t [w] = .done p' t' []) :
    t'.broken = t.broken ∨ ∃ site off count size, p = .io site off count size ∧
      site.chan = .info ∧ t.res w (count - size) .info = .error .epipe := by
  cases p with
  | io site off count size =>
    obtain ⟨v, hv, -, h⟩ := done_of_io hgo
    cases hv
    have hbroken : t'.broken = (t.broken || decide (site.chan = .info ∧
        t.res w (count - size) site.chan = .error .epipe)) := by
      rcases h with ⟨size', -, -, rfl⟩ | ⟨rtn, -, -, rfl⟩
      · exact moved_broken
      · exact put_broken.trans moved_broken
    by_cases hc : site.chan = .info ∧ t.res w (count - size) site.chan = .error .epipe
    · refine Or.inr ⟨site, off, count, size, rfl, hc.1, ?_⟩
      have hr := hc.2
      rw [hc.1] at hr
      exact hr
    · rw [decide_eq_false hc, Bool.or_false] at hbroken
      exact Or.inl hbroken
  | asking tries rtn =>
    rw [asking_run] at hgo
    cases hgo
    exact Or.inl rfl
  | blocking =>
    obtain ⟨u, t₁, o₁, hrun, hrest⟩ := of_bind_done hgo
    obtain ⟨b, rfl⟩ := (blockfd_spec (P := fun _ => True) t).of_done (fun _ _ => trivial) hrun
    cases hrest
    exact Or.inl rfl
  | holding => cases libunwind <;> cases hgo
  | closing | joining | through | gone => cases hgo

/-- No call unlocks `dump_lock` or closes the pipe, and in front of that it does not
block. -/
theorem modes_go (hgo : p.go libunwind t [w] = .done p' t' []) :
    p'.unlocked = p.unlocked ∧ p'.writing = true ∧ p.writing = true ∧ t'.infoOpen = t.infoOpen ∧
      (p ≠ .blocking → t'.nonblock = t.nonblock) := by
  cases p with
  | io site off count size =>
    obtain ⟨v, hv, -, h⟩ := done_of_io hgo
    cases hv
    rcases h with ⟨size', -, rfl, rfl⟩ | ⟨rtn, -, rfl, rfl⟩
    · exact ⟨rfl, rfl, rfl, moved_infoOpen, fun _ => moved_nonblock⟩
    · refine ⟨?_, writing_to _ _ _, rfl, put_infoOpen.trans moved_infoOpen,
        fun _ => put_nonblock.trans moved_nonblock⟩
      exact unlocked_to _ _ _
  | asking tries rtn =>
    rw [asking_run] at hgo
    cases hgo
    have hasked : (asked tries rtn t).unlocked = false ∧ (asked tries rtn t).writing = true := by
      unfold asked
      split
      · exact ⟨unlocked_frontFeed _ _, writing_frontFeed _ _⟩
      · exact ⟨rfl, rfl⟩
      · exact ⟨unlocked_frontFeed _ _, writing_frontFeed _ _⟩
    refine ⟨?_, ?_, rfl, rfl, fun _ => rfl⟩
    · split
      · rfl
      · exact hasked.1
    · split
      · rfl
      · exact hasked.2
  | blocking =>
    obtain ⟨u, t₁, o₁, hrun, hrest⟩ := of_bind_done hgo
    obtain ⟨b, rfl⟩ := (blockfd_spec (P := fun _ => True) t).of_done (fun _ _ => trivial) hrun
    cases hrest
    exact ⟨rfl, rfl, rfl, rfl, fun h => absurd rfl h⟩
  | holding => cases libunwind <;> cases hgo
  | closing | joining | through | gone => cases hgo

theorem served_put {site : Site} {rtn : Except Errno Nat} (h : t.Served) :
    (site.put rtn t).Served := by
  cases site <;> exact ⟨h.input, h.read⟩

theorem served_moved {c : Chan} {off count : Nat} {r : Except Errno Nat} (h : t.Served) :
    (t.moved off count r c).Served := by
  cases c <;> cases r <;> exact ⟨h.input, h.read⟩

/-- Nothing that `main` does changes what it reads from, or who reads what it writes. -/
theorem served_go {o o' : List Answer} (h : t.Served) (hgo : p.go libunwind t o = .done p' t' o') :
    t'.Served := by
  cases p with
  | io site off count size =>
    obtain ⟨w, rfl, -, ⟨size', -, -, rfl⟩ | ⟨rtn, -, -, rfl⟩⟩ := done_of_io hgo
    · exact served_moved h
    · exact served_put (served_moved h)
  | asking tries rtn =>
    cases o with
    | nil => cases hgo
    | cons w o =>
      rw [asking_run] at hgo
      cases hgo
      exact ⟨h.input, h.read⟩
  | blocking =>
    obtain ⟨u, t₁, o₁, hrun, hrest⟩ := of_bind_done hgo
    obtain ⟨b, rfl⟩ := (blockfd_spec (P := fun _ => True) t).of_done (fun _ _ => trivial) hrun
    cases hrest
    exact ⟨h.input, h.read⟩
  | holding =>
    cases libunwind <;> cases hgo <;> exact ⟨h.input, h.read⟩
  | closing | joining | through | gone =>
    cases hgo
    exact h

/-- **What `main` does when it unlocks `dump_lock`.** -/
theorem unlock_go (hgo : Spot.holding.go libunwind t [] = .done p' t' []) :
    p'.unlocked = true ∧ p'.writing = true ∧
      t' = if libunwind then t else { t with infoOpen := false } := by
  cases libunwind with
  | true =>
    cases hgo
    exact ⟨rfl, rfl, rfl⟩
  | false =>
    cases hgo
    exact ⟨rfl, rfl, rfl⟩

end Pipe

end Crashinfo
