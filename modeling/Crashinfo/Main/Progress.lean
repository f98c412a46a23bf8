import Crashinfo.Main.Pipe

/-!
# That the two threads get on

Every call of `main` that moves something, or that ends a `safe_read`, a
`safe_write` or a turn of the feeding loop, takes it closer to its end (`Spot.cost`).
There are two kinds of step that do not (`IdleStep`): a call that is interrupted by a
signal, and a look at `run.pid` when all of `buf` is in the pipe and the PID is not
known yet.

Nobody waits for somebody who waits: `main` blocks on a full pipe only when it has
unlocked `dump_lock`, so the thread that has to empty it does not wait for the lock.
The one thing that may keep them is a thread that wants to read more before it knows
the PID than `main` has put into the pipe (`Threads.Starved`).
-/

namespace Crashinfo

open Script Script.Run Reading

/-! ### What `main` has still to do -/

/-- Nothing is left to be written, and the feeding loop only asks for the PID. -/
def Spot.Drained : Spot → Prop
  | .io (.feed _) _ count _ => count = 0
  | .asking _ rtn => rtn = .ok 0
  | _ => False

def Threads.unknown (d : Threads) : Bool := d.told.isNone && decide (d.tee.pid = -1)

/-- A step of `main` that gets it nowhere: nothing has happened but a call that moved
nothing. -/
def IdleStep (d d' : Threads) : Prop :=
  d'.tee = { d.tee with io := d'.tee.io } ∧
    (d'.spot = d.spot ∨ d.unknown = true ∧ d.spot.Drained ∧ d'.spot.Drained)

/-- What a `safe_read` or `safe_write`, and what follows it, may still take. -/
def Site.cost (unknown : Bool) (t : Tee) (count size : Nat) : Site → Nat
  | .fill => 117 * t.stdin.length + 107 * size + 120
  | .feed tries => 9 * t.stdin.length + t.bufRead.toNat + 8 +
      if count = 0 then if unknown then 3 else 2
      else (count - size) * 104 + if size = 0 then 102 - 2 * tries else 104
  | .head bufRead bufWrite => 9 * t.stdin.length + (bufRead.toNat - size) +
      (bufRead - bufWrite).toNat + 6
  | .tail => 9 * t.stdin.length + (count - size) + 5
  | .next => 9 * t.stdin.length + 8 * size + 4
  | .save n => 9 * t.stdin.length + (n - size) + n + 6
  | .pass => 9 * t.stdin.length + (count - size) + 5

/-- What a turn of the feeding loop may still take when `safe_write` has returned. -/
def askCost (unknown : Bool) (left tries : Nat) : Except Errno Nat → Nat
  | .ok 0 => if unknown then 3 else 1
  | .ok (_ + 1) => left * 104 + 103
  | .error _ => left * 104 + (101 - 2 * tries)

/-- How many steps `main` may still make, but for those that are idle. -/
def Spot.cost (unknown : Bool) (t : Tee) : Spot → Nat
  | .io site _ count size => site.cost unknown t count size
  | .asking tries rtn => 9 * t.stdin.length + t.bufRead.toNat + 8 +
      askCost unknown (t.bufRead - t.bufWrite).toNat tries rtn
  | .holding => 9 * t.stdin.length + t.bufRead.toNat + (t.bufRead - t.bufWrite).toNat + 8
  | .blocking => 9 * t.stdin.length + t.bufRead.toNat + (t.bufRead - t.bufWrite).toNat + 7
  | .closing => 2
  | .joining => 1
  | .through | .gone => 0

def Threads.cost (d : Threads) : Nat := d.spot.cost d.unknown d.tee

section Cost

variable {libunwind unk : Bool} {t t' : Tee} {p p' : Spot} {site : Site}
  {off count size tries : Nat} {w : Answer} {rtn : Except Errno Nat}

/-- Who is not in the feeding loop any more has less to do. -/
theorem cost_frontFeed (h : t.Window) (hlt : t.bufWrite < t.bufRead) (htries : tries < 50) :
    (frontFeed tries t).cost unk t ≤ 9 * t.stdin.length + t.bufRead.toNat + 8 +
      ((t.bufRead - t.bufWrite).toNat * 104 + (102 - 2 * tries)) := by
  obtain ⟨h0, hle, hroom⟩ := h
  have hsize := sizeT_eq_toNat (i := t.bufRead - t.bufWrite) (by omega) (by omega)
  have hne : (t.bufRead - t.bufWrite).toNat ≠ 0 := by omega
  rw [frontFeed, if_pos htries]
  simp only [Spot.cost, Site.cost, hsize, if_neg hne, if_true, Nat.sub_zero]
  omega

theorem cost_frontFeed_drained (h : t.bufWrite = t.bufRead) :
    (frontFeed tries t).cost true t ≤ 9 * t.stdin.length + t.bufRead.toNat + 8 + 3 := by
  rw [frontFeed]
  split
  · have hsize : sizeT (t.bufRead - t.bufWrite) = 0 := by
      rw [h, Int.sub_self]
      rfl
    simp only [Spot.cost, Site.cost, hsize, if_true]
    omega
  · simp only [Spot.cost]
    omega

/-- Going on behind a `safe_read` or `safe_write` costs less than it did. -/
theorem cost_to {t₁ : Tee} {r : Except Errno Nat} (hle : size ≤ count)
    (hfits : site.Fits t off count) (hread : t₁.bufRead = t.bufRead)
    (hwrite : t₁.bufWrite = t.bufWrite)
    (hin : site.chan = .stdin → t₁.stdin.length + r.toOption.getD 0 = t.stdin.length)
    (hkeep : site.chan ≠ .stdin → t₁.stdin.length = t.stdin.length)
    (hrtn : Returned count size r rtn)
    (hfeed : ∀ tries, site = .feed tries →
      (r = .ok 0 ↔ count = size) ∧ (count = 0 → unk = false)) :
    (site.to rtn (site.put rtn t₁)).cost unk (site.put rtn t₁) < site.cost unk t count size := by
  cases site with
  | fill =>
    have hstdin := hin rfl
    rw [Site.to]
    rcases hrtn with ⟨m, rfl, hm, hmle, hmoved, -⟩ | ⟨e, rfl, -⟩
    · have hput : (Site.put (.ok m) t₁ .fill) = { t₁ with bufRead := m, bufWrite := 0 } := rfl
      rw [hput]
      split
      · next h =>
        simp only [Spot.cost, Site.cost]
        omega
      · next h =>
        obtain ⟨-, rfl, -, -⟩ := hfits
        have hcost : (frontFeed 0 { t₁ with bufRead := m, bufWrite := 0 }).cost unk _ ≤ _ :=
          cost_frontFeed ⟨Int.le_refl 0, Int.natCast_nonneg m, Int.ofNat_le.mpr hmle⟩
          (Int.not_le.mp h) (by decide)
        simp only [Site.cost] at hcost ⊢
        omega
    · show (if (-1 : Int) ≤ 0 then _ else _ : Spot).cost unk _ < _
      rw [if_pos (by decide)]
      have hput : (Site.put (.error e) t₁ .fill) = { t₁ with bufRead := -1, bufWrite := 0 } := rfl
      rw [hput]
      simp only [Spot.cost, Site.cost]
      omega
  | feed tries =>
    have hstdin := hkeep Chan.noConfusion
    obtain ⟨htries, ⟨h0, hwle, hwroom⟩, hoff, hcount⟩ := hfits
    obtain ⟨hall, hdrained⟩ := hfeed tries rfl
    rcases hrtn with ⟨m, rfl, hm, hmle, hmoved, hzero⟩ | ⟨e, rfl, hr, -, rfl⟩
    · have hput : Site.put (.ok m) t₁ (.feed tries) =
          { t₁ with bufWrite := t₁.bufWrite + m } := rfl
      rw [hput, Site.to]
      cases m with
      | zero =>
        have hc := hall.mp (hzero rfl)
        have hc0 : count = 0 := by omega
        rw [hdrained hc0]
        simp only [Spot.cost, Site.cost, askCost, hc0, if_true, hread, hstdin, Bool.false_eq_true,
          if_false]
        omega
      | succ m =>
        have hne : count ≠ 0 := by omega
        simp only [Spot.cost, Site.cost, askCost, if_neg hne]
        simp only [hread, hwrite]
        split
        · omega
        · omega
    · have hput : Site.put (.error e) t₁ (.feed tries) =
          { t₁ with bufWrite := t₁.bufWrite + 0 } := rfl
      rw [hput, Site.to]
      have hc0 : count ≠ 0 := by
        intro hc
        rw [hall.mpr hc] at hr
        cases hr
      have htr : (if (Except.error e : Except Errno Nat).toOption.getD 0 > 0 then 0 else tries) =
          tries := rfl
      simp only [Spot.cost, Site.cost, askCost, if_neg hc0, if_true, hread, hwrite, htr]
      omega
  | head bufRead bufWrite =>
    have hstdin := hkeep Chan.noConfusion
    obtain ⟨rfl, rfl, rfl, rfl, hwin⟩ := hfits
    show Spot.cost unk t₁ (Site.to rtn t₁ (.head t.bufRead t.bufWrite)) < _
    rw [Site.to]
    split
    · next hgt =>
      rcases hwin with ⟨h0, hwle, hwroom⟩ | ⟨h1, h2⟩
      · have hsize := sizeT_eq_toNat (i := t.bufRead - t.bufWrite) (by omega) (by omega)
        simp only [Spot.cost, Site.cost, hsize]
        omega
      · omega
    · simp only [Spot.turn, Spot.cost, Site.cost]
      omega
  | tail =>
    have hstdin := hkeep Chan.noConfusion
    show Spot.cost unk t₁ .turn < _
    simp only [Spot.turn, Spot.cost, Site.cost]
    omega
  | next =>
    have hstdin := hin rfl
    show Spot.cost unk t₁ (Site.to rtn t₁ .next) < _
    rcases hrtn with ⟨m, rfl, hm, hmle, hmoved, -⟩ | ⟨e, rfl, -⟩
    · rw [Site.to]
      split
      · simp only [Spot.cost, Site.cost]
        omega
      · simp only [Spot.cost, Site.cost]
        omega
    · rw [Site.to]
      simp only [Spot.cost, Site.cost]
      omega
  | save n =>
    have hstdin := hkeep Chan.noConfusion
    obtain ⟨-, rfl, -⟩ := hfits
    show Spot.cost unk t₁ (.io .pass 0 count 0) < _
    simp only [Spot.cost, Site.cost]
    omega
  | pass =>
    have hstdin := hkeep Chan.noConfusion
    show Spot.cost unk t₁ .turn < _
    simp only [Spot.turn, Spot.cost, Site.cost]
    omega

theorem stdin_moved {c : Chan} {r : Except Errno Nat} (hs : t.Served) (hr : r = t.res w count c) :
    (c = .stdin → (t.moved off count r c).stdin.length + r.toOption.getD 0 = t.stdin.length) ∧
      (c ≠ .stdin → (t.moved off count r c).stdin.length = t.stdin.length) := by
  rw [moved_stdin]
  constructor
  · intro hc
    rw [if_pos hc, List.length_drop]
    cases hrn : r with
    | error e => rfl
    | ok n =>
      have hn := (le_of_res hs (hr.symm.trans hrn)).2.1 hc
      exact Nat.sub_add_cancel hn
  · intro hc
    rw [if_neg hc]

/-- **A call that is not interrupted costs something**, unless there is nothing to write
and the PID is not known. -/
theorem cost_io (hfits : (Spot.io site off count size).Fits t)
    (hopen : site.unlocked = false → t.infoOpen = true) (hs : t.Served)
    (hgo : (Spot.io site off count size).go libunwind t [w] = .done p' t' [])
    (hr : t.res w (count - size) site.chan ≠ .error .eintr)
    (hbusy : ¬(unk = true ∧ (Spot.io site off count size).Drained)) :
    p'.cost unk t' < (Spot.io site off count size).cost unk t := by
  obtain ⟨hle, hsite⟩ := hfits
  have hle := (Nat.le_min.mp hle).1
  obtain ⟨v, hv, hroom, h⟩ := done_of_io hgo
  cases hv
  have hres : t.res w (count - size) site.chan = t.res w (count - size) site.chan := rfl
  have hstdin := @stdin_moved t (off + size) (count - size) w site.chan _ hs hres
  rcases h with ⟨size', hor, rfl, rfl⟩ | ⟨rtn, hor, rfl, rfl⟩
  · rcases repeatOr_cases count size (t.res w (count - size) site.chan) with
      ⟨n, hn, hpos, hlt, h⟩ | ⟨h, -⟩ | ⟨n, -, -, h⟩ | ⟨e, -, -, h⟩
    · rw [h] at hor
      cases hor
      have hin := hstdin.1
      have hkeep := hstdin.2
      rw [hn] at hin hkeep ⊢
      cases site with
      | fill | next =>
        have := hin rfl
        simp only [Spot.cost, Site.cost]
        simp only [Except.toOption, Option.getD_some] at this
        omega
      | feed tries =>
        have := hkeep Chan.noConfusion
        have htries := hsite.1
        have hne : count ≠ 0 := by omega
        have hsize : size + n ≠ 0 := by omega
        simp only [Spot.cost, Site.cost, if_neg hne, if_neg hsize, moved_bufRead, this]
        split
        · omega
        · omega
      | head bufRead bufWrite =>
        have := hkeep Chan.noConfusion
        obtain ⟨-, rfl, -, hcount, hwin⟩ := hsite
        have hlen : count = t.bufRead.toNat := by
          rcases hwin with ⟨h0, hwle, hwroom⟩ | ⟨h1, -⟩
          · rw [hcount]
            exact sizeT_eq_toNat (by omega) hwroom
          · have hout := hroom Chan.noConfusion n hn
            rw [h1, show sizeT (-1) = 2 ^ 64 - 1 from rfl] at hcount
            rw [bufSize] at hout
            omega
        simp only [Spot.cost, Site.cost, this]
        omega
      | save m =>
        have := hkeep Chan.noConfusion
        have hcount := hsite.2.1
        simp only [Spot.cost, Site.cost, this]
        omega
      | tail | pass =>
        have := hkeep Chan.noConfusion
        simp only [Spot.cost, Site.cost, this]
        omega
    · exact absurd h hr
    · rw [h] at hor
      cases hor
    · rw [h] at hor
      cases hor
  · refine cost_to hle hsite moved_bufRead moved_bufWrite hstdin.1 hstdin.2
      (returns_of_repeatOr hle (fun n hn => (le_of_res hs hn).1) hor) ?_
    rintro tries rfl
    refine ⟨⟨fun h0 => ?_, fun hc => ?_⟩, fun hc => ?_⟩
    · have hc := (le_of_res hs h0).2.2 rfl
      have hc : count - size = 0 := hc.resolve_right fun h => Chan.noConfusion h.1
      omega
    · rw [hc, Nat.sub_self]
      exact infoRes_zero (hopen rfl)
    · by_contra hu
      exact hbusy ⟨Bool.eq_true_of_not_eq_false hu, hc⟩

/-- A call that is interrupted leaves no trace but in the record. -/
theorem idle_io (hgo : (Spot.io site off count size).go libunwind t [w] = .done p' t' [])
    (hr : t.res w (count - size) site.chan = .error .eintr) :
    p' = .io site off count size ∧ t' = { t with io := t'.io } := by
  obtain ⟨v, hv, -, h⟩ := done_of_io hgo
  cases hv
  have hor : repeatOr count size (.error .eintr) = .inl size := by
    rw [repeatOr]
    exact if_pos rfl
  rw [hr] at h
  rcases h with ⟨size', hor', rfl, rfl⟩ | ⟨rtn, hor', -, -⟩
  · rw [hor] at hor'
    cases hor'
    rw [moved_error (e := .eintr) (by decide)]
    exact ⟨rfl, rfl⟩
  · rw [hor] at hor'
    cases hor'

/-- Where nothing is left to be written and the PID is not known, `main` goes on asking
for it. -/
theorem idle_drained (hfits : p.Fits t) (hopen : t.infoOpen = true) (hdrained : p.Drained)
    (hpid : t.pid = -1) (hw : (∃ tries rtn, p = .asking tries rtn) → t.pidAfter w = -1)
    (hgo : p.go libunwind t [w] = .done p' t' []) :
    t' = { t with io := t'.io } ∧ p'.Drained := by
  cases p with
  | io site off count size =>
    cases site with
    | feed tries =>
      obtain rfl : count = 0 := hdrained
      obtain rfl : size = 0 := Nat.le_zero.mp (Nat.le_min.mp hfits.1).1
      have hres : t.res w (0 - 0) (Site.feed tries).chan = .ok 0 := infoRes_zero hopen
      obtain ⟨v, hv, -, h⟩ := done_of_io hgo
      cases hv
      rw [hres] at h
      have hor : repeatOr 0 0 (.ok 0) = .inr (.ok 0) := rfl
      rcases h with ⟨size', hor', rfl, rfl⟩ | ⟨rtn, hor', rfl, rfl⟩
      · rw [hor] at hor'
        cases hor'
      · rw [hor] at hor'
        cases hor'
        refine ⟨?_, rfl⟩
        have hinfo : t.info ++ slice t.buf (off + 0) 0 = t.info := List.append_nil _
        have hwrite : t.bufWrite + ((0 : Nat) : Int) = t.bufWrite := Int.add_zero _
        show ({ t.record _ with
          info := t.info ++ slice t.buf (off + 0) 0
          bufWrite := t.bufWrite + ((0 : Nat) : Int) } : Tee) = _
        rw [hinfo, hwrite]
        rfl
    | fill | head | tail | next | save | pass => exact absurd hdrained id
  | asking tries rtn =>
    obtain rfl : rtn = .ok 0 := hdrained
    have hpid' := hw ⟨tries, _, rfl⟩
    rw [asking_run, if_neg (not_not.mpr hpid')] at hgo
    cases hgo
    refine ⟨?_, ?_⟩
    · rw [hpid', ← hpid]
    · show (frontFeed tries t).Drained
      have hsize : sizeT (t.bufRead - t.bufWrite) = 0 := by
        rw [hfits.2.2.2 rfl, Int.sub_self]
        rfl
      rw [frontFeed, if_pos hfits.1]
      exact hsize
  | holding | blocking | closing | joining | through | gone => exact absurd hdrained id

theorem cost_congr (hstdin : t'.stdin = t.stdin) (hread : t'.bufRead = t.bufRead)
    (hwrite : t'.bufWrite = t.bufWrite) (p : Spot) : p.cost unk t' = p.cost unk t := by
  cases p with
  | io site off count size => cases site <;> simp only [Spot.cost, Site.cost, hstdin, hread]
  | asking | holding | blocking => simp only [Spot.cost, hstdin, hread, hwrite]
  | closing | joining | through | gone => rfl

theorem cost_asking {rtn : Except Errno Nat} (hfits : (Spot.asking tries rtn).Fits t)
    (hgo : (Spot.asking tries rtn).go libunwind t [w] = .done p' t' [])
    (hunk : unk = true → t.pidAfter w = -1) (hknown : unk = false → t.pidAfter w ≠ -1)
    (hbusy : ¬(unk = true ∧ rtn = .ok 0)) :
    p'.cost unk t' < (Spot.asking tries rtn).cost unk t := by
  obtain ⟨htries, hwin, herr, hzero⟩ := hfits
  have hwin' := hwin
  obtain ⟨h0, hle, hroom⟩ := hwin
  rw [asking_run] at hgo
  cases hgo
  cases unk with
  | false =>
    rw [if_pos (hknown rfl)]
    simp only [Spot.cost]
    match rtn with
    | .ok 0 =>
      have := hzero rfl
      simp only [askCost, Bool.false_eq_true, if_false]
      omega
    | .ok (n + 1) =>
      simp only [askCost]
      omega
    | .error e =>
      simp only [askCost]
      omega
  | true =>
    rw [if_neg (not_not.mpr (hunk rfl)), cost_congr (t := t) rfl rfl rfl]
    have hholding : Spot.holding.cost true t = 9 * t.stdin.length + t.bufRead.toNat +
        (t.bufRead - t.bufWrite).toNat + 8 := rfl
    match rtn with
    | .ok 0 => exact absurd ⟨rfl, rfl⟩ hbusy
    | .ok (n + 1) =>
      show (frontFeed tries t).cost true t < 9 * t.stdin.length + t.bufRead.toNat + 8 +
        ((t.bufRead - t.bufWrite).toNat * 104 + 103)
      by_cases heq : t.bufWrite = t.bufRead
      · have hcost : (frontFeed tries t).cost true t ≤ _ := cost_frontFeed_drained heq
        omega
      · have hcost : (frontFeed tries t).cost true t ≤ _ := cost_frontFeed hwin' (by omega) htries
        omega
    | .error e =>
      have hlt := herr ⟨e, rfl⟩
      show (asked tries (.error e) t).cost true t < 9 * t.stdin.length + t.bufRead.toNat + 8 +
        ((t.bufRead - t.bufWrite).toNat * 104 + (101 - 2 * tries))
      cases e with
      | eagain =>
        show (frontFeed (tries + 1) t).cost true t < _
        by_cases hmore : tries + 1 < 50
        · have hcost : (frontFeed (tries + 1) t).cost true t ≤ _ :=
            cost_frontFeed hwin' hlt hmore
          omega
        · rw [frontFeed, if_neg hmore]
          omega
      | eintr | ebadf | eexist | enoent | epipe | other =>
        show Spot.holding.cost true t < _
        omega

end Cost

/-! ### The steps cost something -/

section Steps

variable {cap : Nat} {libunwind : Bool} {d d' : Threads}

theorem unknown_iff : d.unknown = true ↔ d.told = none ∧ d.tee.pid = -1 := by
  rw [Threads.unknown, Bool.and_eq_true, Option.isNone_iff_eq_none, decide_eq_true_iff]

theorem pidAfter_unknown (h : d.unknown = true) : d.tee.pidAfter d.answerPid = -1 := by
  obtain ⟨htold, hpid⟩ := unknown_iff.mp h
  rw [Threads.answerPid, htold]
  exact hpid

theorem pidAfter_known (h : d.unknown = false) : d.tee.pidAfter d.answerPid ≠ -1 := by
  rw [Threads.answerPid]
  cases htold : d.told with
  | none =>
    intro hpid
    rw [unknown_iff.mpr ⟨htold, hpid⟩] at h
    cases h
  | some p =>
    simp only [Tee.pidAfter]
    split
    · split
      · decide
      · omega
    · assumption

/-- What `main` is told does not change what it does not know but when it asks. -/
theorem unknown_called {p : Spot} {t : Tee} (hpid : t.pid = d.tee.pid) :
    (d.called p t).unknown = d.unknown := by
  simp only [Threads.unknown, Threads.called, hpid]

theorem pid_io {site : Site} {off count size : Nat} {t t' : Tee} {p : Spot} {w : Answer}
    (hgo : (Spot.io site off count size).go libunwind t [w] = .done p t' []) : t'.pid = t.pid := by
  obtain ⟨v, hv, -, h⟩ := done_of_io hgo
  rcases h with ⟨size', -, -, rfl⟩ | ⟨rtn, -, -, rfl⟩
  · exact moved_pid
  · exact put_pid.trans moved_pid

/-- **A step of `main` is idle, or it costs something.** -/
theorem MainStep.cost (h : d.Inv cap) (hstep : MainStep cap libunwind d d') :
    IdleStep d d' ∨ d'.cost < d.cost := by
  have hfits := h.fits
  have hearly := h.early
  cases hstep with
  | @call w p t htells hgo =>
    cases hspot : d.spot with
    | io site off count size =>
      rw [hspot] at hgo hfits hearly
      by_cases hr : d.tee.res w (count - size) site.chan = .error .eintr
      · obtain ⟨rfl, ht⟩ := idle_io hgo hr
        exact Or.inl ⟨ht, Or.inl hspot.symm⟩
      by_cases hbusy : d.unknown = true ∧ (Spot.io site off count size).Drained
      · have hunl : (Spot.io site off count size).unlocked = false := by
          cases site with
          | feed tries => rfl
          | fill | head | tail | next | save | pass => exact absurd hbusy.2 id
        obtain ⟨ht, hp⟩ := idle_drained hfits (hearly hunl).1 hbusy.2 (unknown_iff.mp hbusy.1).2
          (by simp) hgo
        refine Or.inl ⟨ht, Or.inr ⟨hbusy.1, ?_, hp⟩⟩
        rw [hspot]
        exact hbusy.2
      · refine Or.inr ?_
        rw [Threads.cost, Threads.cost, unknown_called (pid_io hgo), hspot]
        exact cost_io hfits (fun hl => (hearly hl).1) h.served hgo hr hbusy
    | asking tries rtn =>
      have hw : w = d.answerPid := by
        rw [Threads.Tells, hspot] at htells
        exact htells
      subst hw
      rw [hspot] at hgo hfits hearly
      by_cases hbusy : d.unknown = true ∧ rtn = .ok 0
      · obtain ⟨ht, hp⟩ := idle_drained hfits (hearly rfl).1 hbusy.2 (unknown_iff.mp hbusy.1).2
          (fun _ => pidAfter_unknown hbusy.1) hgo
        refine Or.inl ⟨ht, Or.inr ⟨hbusy.1, ?_, hp⟩⟩
        rw [hspot]
        exact hbusy.2
      · refine Or.inr ?_
        have hcost := cost_asking hfits hgo pidAfter_unknown pidAfter_known hbusy
        have hsame : p.cost (d.called p t).unknown t = p.cost d.unknown t := by
          rw [asking_run] at hgo
          cases hgo
          cases hunk : d.unknown with
          | true =>
            have hstill : ∀ q, (d.called q
                { d.tee with pid := d.tee.pidAfter d.answerPid }).unknown = true := fun q =>
              unknown_iff.mpr ⟨(unknown_iff.mp hunk).1, pidAfter_unknown hunk⟩
            rw [hstill]
          | false =>
            rw [if_pos (pidAfter_known hunk)]
            rfl
        rw [Threads.cost, Threads.cost, hspot]
        exact hsame.trans_lt hcost
    | blocking =>
      refine Or.inr ?_
      rw [hspot] at hgo
      obtain ⟨u, t₁, o₁, hrun, hrest⟩ := of_bind_done hgo
      obtain ⟨b, rfl⟩ := (blockfd_spec (P := fun _ => True) d.tee).of_done (fun _ _ => trivial) hrun
      cases hrest
      rw [Threads.cost, Threads.cost, hspot]
      simp only [Threads.called, Spot.cost, Site.cost]
      omega
    | holding =>
      rw [hspot] at hgo
      cases libunwind <;> cases hgo
    | closing | joining | through | gone =>
      rw [hspot] at hgo
      cases hgo
  | @unlock p t hspot hgo =>
    refine Or.inr ?_
    rw [hspot] at hgo
    rw [Threads.cost, Threads.cost, hspot]
    cases libunwind with
    | true =>
      cases hgo
      simp only [Spot.cost]
      omega
    | false =>
      cases hgo
      simp only [Spot.turn, Spot.cost, Site.cost]
      omega
  | quit hspot =>
    refine Or.inr ?_
    rw [Threads.cost, Threads.cost, hspot]
    simp only [Spot.cost]
    omega
  | close hspot =>
    refine Or.inr ?_
    rw [Threads.cost, Threads.cost, hspot]
    exact Nat.one_lt_two
  | join hspot hended =>
    refine Or.inr ?_
    rw [Threads.cost, Threads.cost, hspot]
    exact Nat.one_pos

/-- An idle step costs nothing. -/
theorem IdleStep.cost_eq (hidle : IdleStep d d') (htold : d'.told = d.told) : d'.cost = d.cost := by
  obtain ⟨htee, hspot⟩ := hidle
  have hunk : d'.unknown = d.unknown := by
    rw [Threads.unknown, Threads.unknown, htold, htee]
  have hcost : ∀ unk (p : Spot), p.cost unk d'.tee = p.cost unk d.tee := by
    intro unk p
    rw [htee]
    exact cost_congr rfl rfl rfl p
  rw [Threads.cost, Threads.cost, hunk, hcost]
  rcases hspot with heq | ⟨hu, hd, hd'⟩
  · rw [heq]
  · have hdrained : ∀ p : Spot, p.Drained →
        p.cost true d.tee = 9 * d.tee.stdin.length + d.tee.bufRead.toNat + 8 + 3 := by
      intro p hp
      match p with
      | .io (.feed tries) off count size =>
        obtain rfl : count = 0 := hp
        rfl
      | .asking tries rtn =>
        obtain rfl : rtn = .ok 0 := hp
        rfl
    rw [hu, hdrained _ hd, hdrained _ hd']

theorem MainStep.told_eq (hstep : MainStep cap libunwind d d') : d'.told = d.told := by
  cases hstep with
  | call | unlock | quit | close | join => rfl

theorem cost_mono (unk : Bool) (t : Tee) (p : Spot) : p.cost false t ≤ p.cost unk t := by
  cases unk with
  | false => exact Nat.le_refl _
  | true =>
    match p with
    | .io (.feed tries) off count size =>
      simp only [Spot.cost, Site.cost, Bool.false_eq_true, if_false, if_true]
      split
      · omega
      · omega
    | .asking tries (.ok 0) =>
      simp only [Spot.cost, askCost, Bool.false_eq_true, if_false, if_true]
      omega
    | .asking tries (.ok (n + 1)) | .asking tries (.error e) => exact Nat.le_refl _
    | .io .fill off count size | .io (.head _ _) off count size | .io .tail off count size
    | .io .next off count size | .io (.save _) off count size | .io .pass off count size =>
      exact Nat.le_refl _
    | .holding | .blocking | .closing | .joining | .through | .gone => exact Nat.le_refl _

theorem DumperStep.cost_le (hstep : DumperStep d d') : d'.cost ≤ d.cost := by
  cases hstep with
  | prepared hat => exact cost_mono d.unknown d.tee d.spot
  | take | finish | nothing | lock | leave => exact Nat.le_refl _

/-- The steps of the two, with the number of those of `main` that are not idle. -/
inductive BusyRun (cap : Nat) (libunwind : Bool) (d₀ : Threads) : Nat → Threads → Prop
  | start : BusyRun cap libunwind d₀ 0 d₀
  | idle {m : Nat} {d d' : Threads} (hrun : BusyRun cap libunwind d₀ m d)
      (hstep : MainStep cap libunwind d d') (hidle : IdleStep d d') : BusyRun cap libunwind d₀ m d'
  | busy {m : Nat} {d d' : Threads} (hrun : BusyRun cap libunwind d₀ m d)
      (hstep : MainStep cap libunwind d d') (hbusy : ¬IdleStep d d') :
      BusyRun cap libunwind d₀ (m + 1) d'
  | dumper {m : Nat} {d d' : Threads} (hrun : BusyRun cap libunwind d₀ m d)
      (halive : d.spot ≠ .gone) (hstep : DumperStep d d') : BusyRun cap libunwind d₀ m d'

theorem BusyRun.run {d₀ : Threads} {m : Nat} (h : BusyRun cap libunwind d₀ m d) :
    ThreadsRun cap libunwind d₀ d := by
  induction h with
  | start => exact .refl
  | idle _ hstep _ ih => exact ih.tail (.main hstep)
  | busy _ hstep _ ih => exact ih.tail (.main hstep)
  | dumper _ halive hstep ih => exact ih.tail (.dumper halive hstep)

/-- **`main` has a budget**, and every step that is not idle takes something from it. -/
theorem BusyRun.cost_le {d₀ : Threads} {m : Nat} (hinv : d₀.Inv cap)
    (h : BusyRun cap libunwind d₀ m d) : m + d.cost ≤ d₀.cost := by
  induction h with
  | start => exact Nat.le_of_eq (Nat.zero_add _)
  | idle _ hstep hidle ih =>
    rw [hidle.cost_eq hstep.told_eq]
    exact ih
  | busy hrun hstep hbusy ih =>
    have hlt := (hstep.cost (hinv.run hrun.run)).resolve_left hbusy
    omega
  | dumper _ _ hstep ih =>
    have hle := hstep.cost_le
    omega

end Steps

/-! ### Nobody waits for somebody who waits -/

def Threads.Finished (d : Threads) : Prop := d.spot = .through ∨ d.spot = .gone

/-- The first `safe_read` has failed, and `(size_t)-1` bytes are to be written to the
core output; that fails, too. -/
def Threads.Misses (d : Threads) : Prop :=
  ∃ bufWrite off count size, d.spot = .io (.head (-1) bufWrite) off count size

/-- The thread has read all that `main` has for it, and wants more to find the PID. -/
def Threads.Starved (d : Threads) : Prop :=
  d.unknown = true ∧ d.spot.Drained ∧ d.pipe = [] ∧
    ∃ n next, 0 < n ∧ d.dumper = .preparing (.read n next)

inductive BusyStep (cap : Nat) (libunwind : Bool) (d d' : Threads) : Prop
  | main (h : MainStep cap libunwind d d') (hbusy : ¬IdleStep d d')
  | dumper (halive : d.spot ≠ .gone) (h : DumperStep d d')

section Progress

variable {cap : Nat} {libunwind : Bool} {d d' : Threads} {t t' : Tee} {p p' : Spot} {site : Site}
  {off count size : Nat} {w : Answer}

theorem BusyStep.step (h : BusyStep cap libunwind d d') : ThreadsStep cap libunwind d d' := by
  cases h with
  | main h _ => exact .main h
  | dumper halive h => exact .dumper halive h

/-- A `read` returns if there is something in the pipe, or if nobody will write to it. -/
theorem read_moves {n : Nat} {next : List Byte → Dumper} (hread : d.dumper.reading = some (n, next))
    (hready : d.pipe ≠ [] ∨ d.writable = false) : ∃ d', DumperStep d d' := by
  cases n with
  | zero => exact ⟨_, .nothing hread⟩
  | succ n =>
    cases hpipe : d.pipe with
    | nil =>
      exact ⟨_, .finish hread (Nat.succ_pos n) hpipe (hready.resolve_left fun h => h hpipe)⟩
    | cons b rest =>
      have hfront : d.pipe = [b] ++ rest := hpipe
      exact ⟨_, .take hread hfront (List.cons_ne_nil b []) (Nat.le_add_left 1 n)⟩

/-- The thread goes on, if its `read` returns and it is not kept by `dump_lock`. -/
theorem dumper_moves (halive : d.dumper ≠ .ended) (hready : d.pipe ≠ [] ∨ d.writable = false)
    (hfree : d.spot.unlocked = true) : ∃ d', DumperStep d d' := by
  cases hat : d.dumper with
  | preparing u =>
    cases u with
    | ret a =>
      obtain ⟨pid, dump⟩ := a
      exact ⟨_, .prepared hat⟩
    | read n next => exact read_moves (by rw [hat]; rfl) hready
  | locking dump => exact ⟨_, .lock hat hfree⟩
  | dumping dump =>
    cases dump with
    | ret a => exact ⟨_, .leave hat⟩
    | read n next => exact read_moves (by rw [hat]; rfl) hready
  | ended => exact absurd hat halive

/-- A `safe_read` or `safe_write` stays inside of `buf`, but for the one that fails
since nothing could be read. -/
theorem room_of_fits (hfits : (Spot.io site off count size).Fits t) :
    off + count ≤ bufSize ∨ count = 2 ^ 64 - 1 ∧ ∃ bufWrite, site = .head (-1) bufWrite := by
  obtain ⟨-, hsite⟩ := hfits
  cases site with
  | fill | next =>
    obtain ⟨rfl, rfl, -⟩ := hsite
    exact Or.inl (Nat.le_refl _)
  | feed tries =>
    obtain ⟨-, ⟨-, -, hroom⟩, -, hcount⟩ := hsite
    exact Or.inl (by omega)
  | head bufRead bufWrite =>
    obtain ⟨rfl, hread, -, rfl, hwin⟩ := hsite
    rcases hwin with ⟨h0, hle, hroom⟩ | ⟨h1, -⟩
    · rw [sizeT_eq_toNat (by omega) (by omega)]
      exact Or.inl (by omega)
    · rw [hread, h1]
      exact Or.inr ⟨rfl, bufWrite, rfl⟩
  | tail => exact Or.inl hsite
  | save n =>
    obtain ⟨rfl, rfl, hn⟩ := hsite
    exact Or.inl (by omega)
  | pass =>
    obtain ⟨rfl, hn⟩ := hsite
    exact Or.inl (by omega)

/-- A `write` on the info pipe returns, or the thread goes on. -/
theorem info_moves (hcap : 0 < cap) (h : d.Inv cap) (n : Nat) :
    (∃ w, d.Takes cap (d.tee.res w n .info) ∧ d.tee.res w n .info ≠ .error .eintr) ∨
      ∃ d', DumperStep d d' := by
  have hread := h.served.read
  cases hopen : d.tee.infoOpen with
  | false =>
    have hres : d.tee.res .ok n .info = .error .ebadf := res_closed hopen
    refine Or.inl ⟨.ok, ?_, ?_⟩
    · rw [hres]
      trivial
    · rw [hres]
      decide
  | true =>
    by_cases hn : n = 0
    · subst hn
      refine Or.inl ⟨.ok, ?_, ?_⟩
      · rw [infoRes_zero hopen]
        exact Or.inl rfl
      · rw [infoRes_zero hopen]
        intro he
        cases he
    by_cases hended : d.dumper = .ended
    · have hpipe : d.tee.res (.err .epipe) n .info = .error .epipe := by
        simp [Tee.res, Tee.infoRes, hopen, hn, hread]
      refine Or.inl ⟨.err .epipe, ?_, ?_⟩
      · rw [hpipe]
        exact hended
      · rw [hpipe]
        decide
    have hnb : d.tee.broken = false := by
      by_contra hb
      exact hended (h.broken (Bool.eq_true_of_not_eq_false hb))
    by_cases hfree : d.pipe.length < cap
    · -- as much is written as there is room for
      have hsome : d.tee.res (.amount (cap - d.pipe.length - 1)) n .info =
          .ok (min (cap - d.pipe.length - 1 + 1) n) := by
        simp [Tee.res, Tee.infoRes, Tee.fill, hopen, hn, hnb, hread, Answer.atMost]
      refine Or.inl ⟨.amount (cap - d.pipe.length - 1), ?_, ?_⟩
      · rw [hsome]
        exact Or.inr ⟨hended, by omega⟩
      · rw [hsome]
        intro he
        cases he
    have hpipe : d.pipe ≠ [] := by
      intro hnil
      rw [hnil] at hfree
      exact hfree hcap
    cases hblock : d.tee.nonblock with
    | true =>
      have hagain : d.tee.res (.err .eagain) n .info = .error .eagain := by
        simp [Tee.res, Tee.infoRes, hopen, hn, hnb, hblock]
      refine Or.inl ⟨.err .eagain, ?_, ?_⟩
      · rw [hagain]
        exact hpipe
      · rw [hagain]
        decide
    | false =>
      -- `main` may have to wait here, but it has unlocked `dump_lock`
      refine Or.inr (dumper_moves hended (Or.inl hpipe) ?_)
      by_contra hl
      rw [(h.early (Bool.eq_false_of_not_eq_true hl)).2] at hblock
      cases hblock

@[simp] theorem put_io {r : Except Errno Nat} : (site.put r t).io = t.io := by
  cases site <;> rfl

@[simp] theorem moved_io {r : Except Errno Nat} {c : Chan} :
    (t.moved off count r c).io = t.io ++ [⟨c, off, count, r⟩] := by
  cases c <;> cases r <;> rfl

/-- A call that does not fail leaves everything quiet. -/
theorem quiet_io (hgo : (Spot.io site off count size).go libunwind t [w] = .done p' t' [])
    (hok : site.chan = .info ∨ ∀ e, t.res w (count - size) site.chan ≠ .error e)
    (hq : Quiet t.io) : Quiet t'.io := by
  obtain ⟨v, hv, -, h⟩ := done_of_io hgo
  cases hv
  have hio : t'.io = t.io ++ [⟨site.chan, off + size, count - size,
      t.res w (count - size) site.chan⟩] := by
    rcases h with ⟨size', -, -, rfl⟩ | ⟨rtn, -, -, rfl⟩
    · exact moved_io
    · exact put_io.trans moved_io
  rw [hio]
  intro e he
  rcases List.mem_append.mp he with he | he
  · exact hq e he
  · obtain rfl := List.mem_singleton.mp he
    intro hc x hx
    rcases hok with hi | hok
    · exact absurd hi hc
    · exact absurd hx (by
        cases hr : t.res w (count - size) site.chan with
        | error e => exact absurd hr (hok e)
        | ok n =>
          intro hx
          cases hx)

theorem io_moves (h : d.Inv cap) (hspot : d.spot = .io site off count size)
    (hroom : ∀ n, d.tee.res w (count - size) site.chan = .ok n → off + count ≤ bufSize)
    (htells : d.Tells cap w) (hr : d.tee.res w (count - size) site.chan ≠ .error .eintr)
    (hok : ¬d.Misses →
      site.chan = .info ∨ ∀ e, d.tee.res w (count - size) site.chan ≠ .error e)
    (hbusy : ¬(d.unknown = true ∧ d.spot.Drained)) :
    ∃ d', BusyStep cap libunwind d d' ∧ (¬d.Misses → Quiet d.tee.io → Quiet d'.tee.io) := by
  have hfits := h.fits
  rw [hspot] at hfits
  have hle := hfits.1
  obtain ⟨p, t, hgo⟩ : ∃ p t, (Spot.io site off count size).go libunwind d.tee [w] =
      .done p t [] := io_run h.served fun n hn => by
    have := hroom n hn
    omega
  have hstep : MainStep cap libunwind d (d.called p t) := .call htells (by rw [hspot]; exact hgo)
  refine ⟨_, .main hstep ?_, fun hm => quiet_io hgo (hok hm)⟩
  intro hidle
  have hcost := hidle.cost_eq hstep.told_eq
  have hlt : p.cost d.unknown t < (Spot.io site off count size).cost d.unknown d.tee :=
    cost_io hfits (fun hl => (h.early (by rw [hspot]; exact hl)).1) h.served hgo hr
      (by rw [← hspot]; exact hbusy)
  rw [Threads.cost, Threads.cost, unknown_called (pid_io hgo), hspot] at hcost
  exact Nat.ne_of_lt hlt hcost

theorem DumperStep.same (h : DumperStep d d') : d'.tee = d.tee ∧ d'.spot = d.spot := by
  cases h with
  | take | finish | nothing | prepared | lock | leave => exact ⟨rfl, rfl⟩

theorem moves_dumper (halive : d.spot ≠ .gone) (h : ∃ d', DumperStep d d') :
    ∃ d', BusyStep cap libunwind d d' ∧ (¬d.Misses → Quiet d.tee.io → Quiet d'.tee.io) := by
  obtain ⟨d', h⟩ := h
  refine ⟨d', .dumper halive h, fun _ hq => ?_⟩
  rw [h.same.1]
  exact hq

theorem moves_main (hstep : MainStep cap libunwind d d') (hne : d'.spot ≠ d.spot)
    (hbusy : ¬(d.unknown = true ∧ d.spot.Drained)) (hio : d'.tee.io = d.tee.io) :
    ∃ d', BusyStep cap libunwind d d' ∧ (¬d.Misses → Quiet d.tee.io → Quiet d'.tee.io) := by
  refine ⟨d', .main hstep fun hidle => ?_, fun _ hq => ?_⟩
  · rcases hidle.2 with heq | ⟨hu, hd, -⟩
    · exact hne heq
    · exact hbusy ⟨hu, hd⟩
  · rw [hio]
    exact hq

theorem asked_ne (tries : Nat) (rtn : Except Errno Nat) (t : Tee) (tries' : Nat)
    (rtn' : Except Errno Nat) : asked tries rtn t ≠ .asking tries' rtn' := by
  have hfront : ∀ n, frontFeed n t ≠ .asking tries' rtn' := by
    intro n
    rw [frontFeed]
    split
    · exact Spot.noConfusion
    · exact Spot.noConfusion
  unfold asked
  split
  · exact hfront _
  · exact Spot.noConfusion
  · exact hfront _

/-- Who asks for a PID that is known, or has been told that the pipe is full, goes on. -/
theorem asking_moves {tries : Nat} {rtn : Except Errno Nat} (hspot : d.spot = .asking tries rtn)
    (hbusy : ¬(d.unknown = true ∧ d.spot.Drained)) :
    ∃ d', BusyStep cap libunwind d d' ∧ (¬d.Misses → Quiet d.tee.io → Quiet d'.tee.io) := by
  have htells : d.Tells cap d.answerPid := by
    rw [Threads.Tells, hspot]
  have hgo : (Spot.asking tries rtn).go libunwind d.tee [d.answerPid] = .done _ _ [] := asking_run
  rw [← hspot] at hgo
  refine moves_main (.call htells hgo) ?_ hbusy rfl
  rw [hspot]
  show (if _ then Spot.holding else _) ≠ _
  split
  · exact Spot.noConfusion
  · exact asked_ne tries rtn d.tee tries rtn

/-- `main` calls `read`, or `write` on the core output. -/
theorem file_moves (h : d.Inv cap) (hspot : d.spot = .io site off count size)
    (hc : site.chan ≠ .info) (hbusy : ¬(d.unknown = true ∧ d.spot.Drained)) :
    ∃ d', BusyStep cap libunwind d d' ∧ (¬d.Misses → Quiet d.tee.io → Quiet d'.tee.io) := by
  have hfits := h.fits
  rw [hspot] at hfits
  have htells : d.Tells cap .ok := by
    rw [Threads.Tells, hspot]
    exact fun hi => absurd hi hc
  rcases room_of_fits hfits with hroom | ⟨hcount, bufWrite, rfl⟩
  · have hok : ∀ e, d.tee.res .ok (count - size) site.chan ≠ .error e := by
      intro e he
      cases hchan : site.chan with
      | stdin =>
        rw [hchan, Tee.res, readRes_core h.served.input (fun _ => Answer.noConfusion)] at he
        cases he
      | core =>
        have hsize : count - size < 2 ^ 63 := by
          rw [bufSize] at hroom
          omega
        have hall : coreRes .ok (count - size) = .ok (Answer.ok.atMost (count - size)) :=
          if_neg (Nat.not_le.mpr hsize)
        rw [hchan, Tee.res, hall] at he
        cases he
      | info => exact hc hchan
    exact io_moves h hspot (fun _ _ => hroom) htells (hok _) (fun _ => Or.inr hok) hbusy
  · -- so much cannot be written, and none of it has been
    have hsize : 2 ^ 63 ≤ count - size := by
      have := hfits.1
      rw [bufSize] at this
      omega
    have hres : d.tee.res .ok (count - size) (Site.head (-1) bufWrite).chan = .error .other :=
      if_pos hsize
    refine io_moves h hspot (fun n hn => ?_) htells ?_ (fun hm => ?_) hbusy
    · rw [hres] at hn
      cases hn
    · rw [hres]
      decide
    · exact absurd ⟨bufWrite, off, count, size, hspot⟩ hm

/-- **Somebody can go on**, but for the two ways in which it may end: `main` is through,
or the thread wants more than there is. -/
theorem Threads.Inv.progress (hcap : 0 < cap) (h : d.Inv cap) :
    d.Finished ∨ d.Starved ∨
      ∃ d', BusyStep cap libunwind d d' ∧ (¬d.Misses → Quiet d.tee.io → Quiet d'.tee.io) := by
  by_cases hbusy : d.unknown = true ∧ d.spot.Drained
  · obtain ⟨hunk, hdrained⟩ := hbusy
    obtain ⟨u, hat⟩ := h.told.mp (unknown_iff.mp hunk).1
    have halive : d.spot ≠ .gone := by
      intro hgone
      rw [hgone] at hdrained
      exact hdrained
    cases u with
    | ret a =>
      obtain ⟨pid, dump⟩ := a
      exact Or.inr (Or.inr (moves_dumper halive ⟨_, .prepared hat⟩))
    | read n next =>
      have hread : d.dumper.reading = some (n, fun bs => .preparing (next bs)) := by
        rw [hat]
        rfl
      cases n with
      | zero => exact Or.inr (Or.inr (moves_dumper halive ⟨_, .nothing hread⟩))
      | succ n =>
        by_cases hpipe : d.pipe = []
        · exact Or.inr (Or.inl ⟨hunk, hdrained, hpipe, n + 1, next, Nat.succ_pos n, hat⟩)
        · exact Or.inr (Or.inr (moves_dumper halive (read_moves hread (Or.inl hpipe))))
  cases hspot : d.spot with
  | io site off count size =>
    refine Or.inr (Or.inr ?_)
    by_cases hc : site.chan = .info
    · have hfits := h.fits
      rw [hspot] at hfits
      have hroom := (room_of_fits hfits).resolve_right fun ⟨_, _, hs⟩ => by
        rw [hs] at hc
        cases hc
      rcases info_moves hcap h (count - size) with ⟨w, htakes, hr⟩ | hd
      · refine io_moves (w := w) h hspot (fun _ _ => hroom) ?_ (by rw [hc]; exact hr)
          (fun _ => Or.inl hc) hbusy
        rw [Threads.Tells, hspot]
        exact fun _ => htakes
      · exact moves_dumper (by rw [hspot]; exact Spot.noConfusion) hd
    · exact file_moves h hspot hc hbusy
  | asking tries rtn => exact Or.inr (Or.inr (asking_moves hspot hbusy))
  | holding =>
    refine Or.inr (Or.inr ?_)
    obtain ⟨p, t, hgo, hne, hio⟩ : ∃ p t, Spot.holding.go libunwind d.tee [] = .done p t [] ∧
        p ≠ .holding ∧ t.io = d.tee.io := by
      cases libunwind with
      | true => exact ⟨_, _, rfl, Spot.noConfusion, rfl⟩
      | false => exact ⟨_, _, rfl, Spot.noConfusion, rfl⟩
    rw [← hspot] at hgo hne
    exact moves_main (.unlock hspot hgo) hne hbusy hio
  | blocking =>
    refine Or.inr (Or.inr ?_)
    obtain ⟨t, hgo, hio⟩ : ∃ t, Spot.blocking.go libunwind d.tee [.ok] =
        .done (.io (.head t.bufRead t.bufWrite) 0 (sizeT t.bufRead) 0) t [] ∧ t.io = d.tee.io :=
      ⟨_, rfl, rfl⟩
    have htells : d.Tells cap .ok := by
      rw [Threads.Tells, hspot]
      trivial
    rw [← hspot] at hgo
    exact moves_main (.call htells hgo) (by rw [hspot]; exact Spot.noConfusion) hbusy hio
  | closing =>
    refine Or.inr (Or.inr ?_)
    exact moves_main (.close hspot) (by rw [hspot]; exact Spot.noConfusion) hbusy rfl
  | joining =>
    refine Or.inr (Or.inr ?_)
    by_cases hended : d.dumper = .ended
    · exact moves_main (.join hspot hended) (by rw [hspot]; exact Spot.noConfusion) hbusy rfl
    · refine moves_dumper (by rw [hspot]; exact Spot.noConfusion)
        (dumper_moves hended (Or.inr ?_) ?_)
      · rw [Threads.writable, hspot]
        exact Bool.and_false _
      · rw [hspot]
        rfl
  | through => exact Or.inl (Or.inl hspot)
  | gone => exact Or.inl (Or.inr hspot)

end Progress

end Crashinfo
