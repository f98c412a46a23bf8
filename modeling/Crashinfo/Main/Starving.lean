import Crashinfo.Main.Ending

/-!
# When the feeding loop does not end

`main` feeds no more than `buf` into the pipe before it knows the PID, and the thread may
want to read more than that before it finds the PID out.  Then `main` asks for the PID
forever, and the thread waits for what follows (`Threads.Starved`).  That can happen if
and only if the PID was not given, there is a core, and what `unw_prepare` makes of the
front of it is to read on behind `buf` (`threads_end_iff`).
-/

namespace Crashinfo

open Script Script.Run Reading

/-! ### What has been fed -/

/-- `buf` holds the front of `S`, and the first `k` bytes of that are in the pipe. -/
structure Tee.Holds (S : List Byte) (t : Tee) (k : Nat) : Prop where
  read : t.bufRead = (S.take bufSize).length
  some : S ≠ []
  buf : t.buf = S.take bufSize
  info : t.info = (S.take bufSize).take k

def Spot.Fed (S : List Byte) (t : Tee) : Spot → Prop
  | .io .fill _ _ size => size ≤ S.length ∧ t.stdin = S.drop size ∧ t.buf = S.take size ∧
      t.info = []
  | .io (.feed _) off _ size => t.Holds S (off + size)
  | .asking _ _ => t.Holds S t.bufWrite.toNat
  | _ => 0 ≤ t.bufRead

section Fed

variable {libunwind : Bool} {S : List Byte} {t t' : Tee} {p p' : Spot} {site : Site}
  {off count size k : Nat} {w : Answer} {o : List Answer}

theorem Tee.Holds.pos (h : t.Holds S k) : 0 < t.bufRead := by
  have hS := List.length_pos_iff.mpr h.some
  rw [h.read, List.length_take, bufSize]
  omega

theorem Tee.Holds.le (h : t.Holds S k) : t.bufRead.toNat ≤ t.buf.length := by
  rw [h.buf, h.read, Int.toNat_natCast]

theorem Tee.Holds.congr (h : t.Holds S k) (hread : t'.bufRead = t.bufRead) (hbuf : t'.buf = t.buf)
    (hinfo : t'.info = t.info) : t'.Holds S k where
  read := hread.trans h.read
  some := h.some
  buf := hbuf.trans h.buf
  info := hinfo.trans h.info

theorem Tee.Holds.cast {k' : Nat} (h : t.Holds S k) (hk : k' = k) : t.Holds S k' :=
  hk ▸ h

theorem Tee.Holds.write (h : t.Holds S k) {n : Nat} (hn : k + n ≤ t.bufRead.toNat)
    (hread : t'.bufRead = t.bufRead) (hbuf : t'.buf = t.buf)
    (hinfo : t'.info = t.info ++ slice t.buf k n) : t'.Holds S (k + n) where
  read := hread.trans h.read
  some := h.some
  buf := hbuf.trans h.buf
  info := by
    have hslice : slice t.buf k n = ((S.take bufSize).drop k).take n :=
      slice_of_take hn h.le (by rw [h.buf])
    rw [hinfo, h.info, hslice, ← List.take_add]

theorem fed_frontFeed (h : t.Holds S t.bufWrite.toNat) (tries : Nat) :
    (frontFeed tries t).Fed S t := by
  rw [frontFeed]
  split
  · exact h
  · exact Int.le_of_lt h.pos

/-- Where `dump_lock` is unlocked nothing is said but that the core was read. -/
theorem fed_of_unlocked (hl : p.unlocked = true) : p.Fed S t ↔ 0 ≤ t.bufRead := by
  cases p with
  | io site off count size =>
    cases site with
    | fill | feed tries => cases hl
    | head | tail | next | save | pass => exact Iff.rfl
  | asking | holding | gone => cases hl
  | blocking | closing | joining | through => exact Iff.rfl

theorem read_of_fed (hfits : p.Fits t) (h : p.Fed S t) : 0 ≤ t.bufRead := by
  cases p with
  | io site off count size =>
    cases site with
    | fill => exact Int.le_of_eq hfits.2.2.2.1.symm
    | feed tries => exact Int.le_of_lt h.pos
    | head | tail | next | save | pass => exact h
  | asking tries rtn => exact Int.le_of_lt h.pos
  | holding | blocking | closing | joining | through | gone => exact h

theorem moved_buf {r : Except Errno Nat} {c : Chan} (hc : c ≠ .stdin) :
    (t.moved off count r c).buf = t.buf := by
  cases c with
  | stdin => exact absurd rfl hc
  | core | info => cases r <;> rfl

theorem overwrite_front {n : Nat} (hsize : size ≤ S.length) :
    overwrite (S.take size) size ((S.drop size).take n) = S.take (size + n) := by
  have hlen : (S.take size).length = size := by
    rw [List.length_take, Nat.min_eq_left hsize]
  have hbehind : (S.take size).drop (size + ((S.drop size).take n).length) = [] := by
    rw [List.drop_eq_nil_iff, hlen]
    exact Nat.le_add_right _ _
  rw [overwrite, List.takeD_eq_take 0 (Nat.le_of_eq hlen.symm), List.take_take, Nat.min_self,
    hbehind, List.append_nil, List.take_add]

/-- A `read` of the first `safe_read` that has brought `n` bytes. -/
theorem fill_moved {n : Nat} (hfed : (Spot.io .fill 0 count size).Fed S t)
    (hn : n ≤ t.stdin.length) (m : Nat) : (t.moved (0 + size) m (.ok n) .stdin).stdin =
      S.drop (size + n) ∧ (t.moved (0 + size) m (.ok n) .stdin).buf = S.take (size + n) ∧
      size + n ≤ S.length := by
  obtain ⟨hsize, hstdin, hbuf, -⟩ := hfed
  rw [hstdin, List.length_drop] at hn
  refine ⟨?_, ?_, by omega⟩
  · show t.stdin.drop n = _
    rw [hstdin, List.drop_drop]
  · show overwrite t.buf (0 + size) (t.stdin.take n) = _
    rw [Nat.zero_add, hbuf, hstdin, overwrite_front hsize]

/-- A call of `read` that fails otherwise than by a signal is not quiet. -/
theorem error_of_quiet {io : List Io} {e : Io} (hq : Quiet (io ++ [e])) (hc : e.chan ≠ .info)
    {x : Errno} (hx : e.res = .error x) : x = .eintr := by
  refine hq e (List.mem_append_right _ (List.mem_singleton_self e)) hc x ?_
  rw [Io.error, hx]
  rfl

/-- The first `safe_read` takes in the front of the core. -/
theorem fed_fill (hs : t.Served) (hfits : (Spot.io .fill off count size).Fits t)
    (hfed : (Spot.io .fill off count size).Fed S t)
    (hgo : (Spot.io .fill off count size).go libunwind t [w] = .done p' t' [])
    (hq : Quiet t'.io) : p'.Fed S t' := by
  obtain ⟨hle, rfl, rfl, -, -⟩ := hfits
  obtain ⟨v, hv, -, h⟩ := done_of_io hgo
  cases hv
  have hinfo : t.info = [] := hfed.2.2.2
  have hio : t'.io = t.io ++
      [⟨.stdin, 0 + size, bufSize - size, t.res w (bufSize - size) .stdin⟩] := by
    rcases h with ⟨size', -, -, rfl⟩ | ⟨rtn, -, -, rfl⟩
    · exact moved_io
    · exact put_io.trans moved_io
  rw [hio] at hq
  have herr : ∀ e, t.res w (bufSize - size) .stdin = .error e → e = .eintr :=
    fun e he => error_of_quiet hq Chan.noConfusion he
  rcases repeatOr_cases bufSize size (t.res w (bufSize - size) .stdin) with
    ⟨n, hn, -, -, hor⟩ | ⟨hr, hor⟩ | ⟨n, hn, hend, hor⟩ | ⟨e, he, hr, -⟩
  · obtain ⟨-, hstdin, -⟩ := le_of_res hs hn
    rcases h with ⟨size', hor', rfl, rfl⟩ | ⟨rtn, hor', -, -⟩
    · cases hor.symm.trans hor'
      show Spot.Fed S (t.moved _ _ (t.res w (bufSize - size) .stdin) .stdin) _
      rw [hn]
      obtain ⟨h1, h2, h3⟩ := fill_moved hfed (hstdin rfl) (bufSize - size)
      exact ⟨h3, h1, h2, hinfo⟩
    · cases hor.symm.trans hor'
  · rcases h with ⟨size', hor', rfl, rfl⟩ | ⟨rtn, hor', -, -⟩
    · cases hor.symm.trans hor'
      show Spot.Fed S (t.moved _ _ (t.res w (bufSize - size) .stdin) .stdin) _
      rw [hr]
      exact hfed
    · cases hor.symm.trans hor'
  · obtain ⟨hcount, hstdin, hzero⟩ := le_of_res hs hn
    rcases h with ⟨size', hor', -, -⟩ | ⟨rtn, hor', rfl, rfl⟩
    · cases hor.symm.trans hor'
    · cases hor.symm.trans hor'
      show Spot.Fed S (Site.put _ (t.moved _ _ (t.res w (bufSize - size) .stdin) .stdin) .fill)
        (if ((size + n : Nat) : Int) ≤ 0 then _ else _)
      rw [hn]
      obtain ⟨-, hbuf, hlen⟩ := fill_moved hfed (hstdin rfl) (bufSize - size)
      have hall : size + n = min bufSize S.length := by
        have hdrop : t.stdin.length = S.length - size := by rw [hfed.2.1, List.length_drop]
        rcases hend with rfl | hend
        · rcases hzero rfl with hfull | ⟨-, hnil⟩
          · omega
          · rw [hnil, List.length_nil] at hdrop
            omega
        · omega
      split
      · exact Int.natCast_nonneg (size + n)
      · next hpos =>
        refine fed_frontFeed ⟨?_, ?_, ?_, hinfo⟩ 0
        · show ((size + n : Nat) : Int) = _
          rw [List.length_take, hall]
        · rintro rfl
          rw [List.length_nil] at hall
          omega
        · refine hbuf.trans ?_
          rw [hall, ← List.take_eq_take_min]
  · exact absurd (herr e hr) he

theorem put_of_unlocked {rtn : Except Errno Nat} (h : site.unlocked = true) :
    site.put rtn t = t := by
  cases site with
  | fill | feed tries => cases h
  | head | tail | next | save | pass => rfl

/-- When `safe_write` of the feeding loop has returned. -/
theorem fed_put {tries n : Nat} {rtn : Except Errno Nat} (h : t.Holds S (off + n))
    (hwrite : t.bufWrite = off) (hn : rtn.toOption.getD 0 = n) :
    ((Site.feed tries).to rtn (Site.put rtn t (.feed tries))).Fed S
      (Site.put rtn t (.feed tries)) := by
  subst hn
  have hk : (t.bufWrite + ((rtn.toOption.getD 0 : Nat) : Int)).toNat =
      off + rtn.toOption.getD 0 := by
    omega
  exact (h.cast hk).congr rfl rfl rfl

/-- What `safe_write` of the feeding loop has written is in the pipe. -/
theorem fed_feed {tries : Nat} (hs : t.Served) (hfits : (Spot.io (.feed tries) off count size).Fits t)
    (hfed : (Spot.io (.feed tries) off count size).Fed S t)
    (hgo : (Spot.io (.feed tries) off count size).go libunwind t [w] = .done p' t' []) :
    p'.Fed S t' := by
  obtain ⟨hle, -, ⟨h0, hwle, -⟩, hoff, hcount⟩ := hfits
  have hle := (Nat.le_min.mp hle).1
  obtain ⟨v, hv, -, h⟩ := done_of_io hgo
  cases hv
  have hwrite : ∀ n, t.res w (count - size) (Site.feed tries).chan = .ok n → n ≤ count - size :=
    fun n hn => (le_of_res hs hn).1
  have hmoved : ∀ n, (t.res w (count - size) (Site.feed tries).chan).toOption.getD 0 = n →
      n ≤ count - size → (t.moved (off + size) (count - size)
        (t.res w (count - size) (Site.feed tries).chan) (Site.feed tries).chan).Holds S
          (off + size + n) := by
    intro n hn hle'
    refine Tee.Holds.write hfed (by omega) moved_bufRead (moved_buf Chan.noConfusion) ?_
    have hchan : (Site.feed tries).chan = .info := rfl
    rw [moved_info, if_pos hchan, hn]
  rcases h with ⟨size', hor, rfl, rfl⟩ | ⟨rtn, hor, rfl, rfl⟩
  · rcases repeatOr_cases count size (t.res w (count - size) (Site.feed tries).chan) with
      ⟨n, hn, -, -, hor'⟩ | ⟨hr, hor'⟩ | ⟨n, -, -, hor'⟩ | ⟨e, -, -, hor'⟩
    · cases hor'.symm.trans hor
      show Tee.Holds S _ (off + (size + n))
      rw [← Nat.add_assoc]
      exact hmoved n (by rw [hn]; rfl) (hwrite n hn)
    · cases hor'.symm.trans hor
      exact hmoved 0 (by rw [hr]; rfl) (Nat.zero_le _)
    · cases hor'.symm.trans hor
    · cases hor'.symm.trans hor
  · rcases returns_of_repeatOr hle hwrite hor with
      ⟨m, rfl, hm, hmle, hgot, -⟩ | ⟨e, rfl, hr, -, rfl⟩
    · refine fed_put ?_ (moved_bufWrite.trans hoff) rfl
      exact (hmoved (m - size) hgot (by omega)).cast (by show off + m = _; omega)
    · exact fed_put (hmoved 0 (by rw [hr]; rfl) (Nat.zero_le _)) (moved_bufWrite.trans hoff) rfl

/-- **A step keeps what has been fed in order**, if nothing fails on descriptor 0. -/
theorem fed_go (hs : t.Served) (hfits : p.Fits t) (hfed : p.Fed S t)
    (hgo : p.go libunwind t [w] = .done p' t' []) (hq : Quiet t'.io) : p'.Fed S t' := by
  have hread := read_of_fed hfits hfed
  cases p with
  | io site off count size =>
    by_cases hfeeding : site.unlocked = false
    · cases site with
      | fill => exact fed_fill hs hfits hfed hgo hq
      | feed tries => exact fed_feed hs hfits hfed hgo
      | head | tail | next | save | pass => cases hfeeding
    · have hunl := (modes_go hgo).1
      refine (fed_of_unlocked (hunl.trans (Bool.eq_true_of_not_eq_false hfeeding))).mpr ?_
      have hsame : t'.bufRead = t.bufRead := by
        obtain ⟨v, hv, -, ⟨size', -, -, rfl⟩ | ⟨rtn, -, -, rfl⟩⟩ := done_of_io hgo
        · exact moved_bufRead
        · rw [put_of_unlocked (Bool.eq_true_of_not_eq_false hfeeding)]
          exact moved_bufRead
      rw [hsame]
      exact hread
  | asking tries rtn =>
    rw [asking_run] at hgo
    cases hgo
    have hholds : ({ t with pid := t.pidAfter w } : Tee).Holds S t.bufWrite.toNat :=
      Tee.Holds.congr hfed rfl rfl rfl
    split
    · exact hread
    · unfold asked
      split
      · exact fed_frontFeed hholds _
      · exact hread
      · exact fed_frontFeed hholds _
  | blocking =>
    obtain ⟨u, t₁, o₁, hrun, hrest⟩ := of_bind_done hgo
    obtain ⟨b, rfl⟩ := (blockfd_spec (P := fun _ => True) t).of_done (fun _ _ => trivial) hrun
    cases hrest
    exact hread
  | holding => cases libunwind <;> cases hgo
  | closing | joining | through | gone => cases hgo

/-- A step of `main` adds to the record, and `run.pid` is nobody else's business. -/
theorem record_go (hgo : p.go libunwind t [w] = .done p' t' []) : t.io <+: t'.io ∧
    (((∃ tries rtn, p = .asking tries rtn) → t.pidAfter w = t.pid) → t'.pid = t.pid) := by
  cases p with
  | io site off count size =>
    refine ⟨?_, fun _ => pid_io hgo⟩
    obtain ⟨v, hv, -, ⟨size', -, -, rfl⟩ | ⟨rtn, -, -, rfl⟩⟩ := done_of_io hgo
    · rw [moved_io]
      exact List.prefix_append _ _
    · rw [put_io, moved_io]
      exact List.prefix_append _ _
  | asking tries rtn =>
    rw [asking_run] at hgo
    cases hgo
    exact ⟨List.prefix_refl _, fun hpid => hpid ⟨tries, rtn, rfl⟩⟩
  | blocking =>
    obtain ⟨u, t₁, o₁, hrun, hrest⟩ := of_bind_done hgo
    obtain ⟨b, rfl⟩ := (blockfd_spec (P := fun _ => True) t).of_done (fun _ _ => trivial) hrun
    cases hrest
    exact ⟨List.prefix_refl _, fun _ => rfl⟩
  | holding => cases libunwind <;> cases hgo
  | closing | joining | through | gone => cases hgo

end Fed

/-! ### What the two have done so far -/

/-- What is known of the two besides `Threads.Inv`, when they began with `S`, `pid` and
`u`. -/
structure Threads.Since (cap : Nat) (S : List Byte) (pid : Int)
    (u : Reader Byte (Int × Reader Byte Unit)) (d : Threads) : Prop where
  fed : Quiet d.tee.io → d.spot.Fed S d.tee
  pid : d.told = none → d.tee.pid = pid
  came : d.eof = false → ∀ r, d.dumper = .preparing r → Came cap u d.got r

section Since

variable {cap : Nat} {libunwind : Bool} {d d' : Threads} {S : List Byte} {pid : Int}
  {u : Reader Byte (Int × Reader Byte Unit)}

theorem since_start : (Threads.start S pid u).Since cap S pid u where
  fed := fun _ => ⟨Nat.zero_le _, rfl, rfl, rfl⟩
  pid := fun _ => rfl
  came := by
    rintro - r hr
    cases hr
    exact .refl

theorem Threads.Since.main (hinv : d.Inv cap) (h : d.Since cap S pid u)
    (hstep : MainStep cap libunwind d d') : d'.Since cap S pid u := by
  cases hstep with
  | @call w p t htells hgo =>
    obtain ⟨hio, hpid⟩ := record_go hgo
    refine ⟨fun hq => fed_go hinv.served hinv.fits (h.fed (hq.before hio)) hgo hq,
      fun htold => ?_, h.came⟩
    refine (hpid ?_).trans (h.pid htold)
    rintro ⟨tries, rtn, hspot⟩
    rw [Threads.Tells, hspot] at htells
    rw [show w = d.answerPid from htells, Threads.answerPid, show d.told = none from htold]
    rfl
  | @unlock p t hspot hgo =>
    have hfed := h.fed
    rw [hspot] at hgo
    obtain ⟨hunl, -, rfl⟩ := unlock_go hgo
    have hsame : ∀ {α : Type} (x : Tee → α), (∀ b, x { d.tee with infoOpen := b } = x d.tee) →
        x (if libunwind then d.tee else { d.tee with infoOpen := false }) = x d.tee := by
      intro α x hx
      split
      · rfl
      · exact hx false
    refine ⟨fun hq => (fed_of_unlocked hunl).mpr ?_, fun htold => ?_, h.came⟩
    · rw [hsame Tee.bufRead fun _ => rfl]
      rw [hsame Tee.io fun _ => rfl] at hq
      exact read_of_fed hinv.fits (hfed hq)
    · exact (hsame Tee.pid fun _ => rfl).trans (h.pid htold)
  | quit hspot =>
    exact ⟨fun hq => read_of_fed hinv.fits (h.fed hq), h.pid, h.came⟩
  | close hspot =>
    exact ⟨fun hq => read_of_fed hinv.fits (h.fed hq), h.pid, h.came⟩
  | join hspot hended =>
    exact ⟨fun hq => read_of_fed hinv.fits (h.fed hq), h.pid, h.came⟩

theorem Threads.Since.dumper_step (hinv : d.Inv cap) (h : d.Since cap S pid u)
    (hstep : DumperStep d d') : d'.Since cap S pid u := by
  cases hstep with
  | @take n next bs rest hread hpipe hne hn =>
    refine ⟨h.fed, h.pid, fun he r hr => ?_⟩
    cases hat : d.dumper with
    | preparing v =>
      cases v with
      | ret a =>
        rw [hat] at hread
        cases hread
      | read n next =>
        rw [hat] at hread
        cases hread
        cases hr
        refine (h.came he _ hat).piece hne hn ?_
        have hroom := hinv.room
        rw [hpipe, List.length_append] at hroom
        exact Nat.le_trans (Nat.le_add_right _ _) hroom
    | locking dump | ended =>
      rw [hat] at hread
      cases hread
    | dumping dump =>
      obtain ⟨v, hv⟩ := (reading_next hread bs).2.2.mpr ⟨r, hr⟩
      rw [hat] at hv
      cases hv
  | finish hread hn hpipe hclosed => exact ⟨h.fed, h.pid, by simp⟩
  | @nothing next hread =>
    refine ⟨h.fed, h.pid, fun he r hr => ?_⟩
    obtain ⟨v, hat⟩ := (reading_next hread []).2.2.mpr ⟨r, hr⟩
    rw [hat] at hread
    cases v with
    | ret a => cases hread
    | read n next =>
      cases hread
      cases hr
      exact (h.came he _ hat).nothing
  | prepared hat => exact ⟨h.fed, by simp, by simp⟩
  | lock hat hfree => exact ⟨h.fed, h.pid, by simp⟩
  | leave hat => exact ⟨h.fed, h.pid, by simp⟩

theorem Threads.Since.step (hinv : d.Inv cap) (h : d.Since cap S pid u)
    (hstep : ThreadsStep cap libunwind d d') : d'.Since cap S pid u := by
  cases hstep with
  | main h' => exact h.main hinv h'
  | dumper _ h' => exact h.dumper_step hinv h'

theorem Threads.Since.run (hrun : ThreadsRun cap libunwind (.start S pid u) d) :
    d.Inv cap ∧ d.Since cap S pid u := by
  induction hrun with
  | refl => exact ⟨inv_start_threads, since_start⟩
  | tail _ hstep ih =>
    obtain ⟨hinv, hsince⟩ := ih
    exact ⟨hinv.step hstep, hsince.step hinv hstep⟩

/-! ### The trap -/

theorem drained_unlocked {p : Spot} (h : p.Drained) : p.unlocked = false ∧ p.writing = true := by
  cases p with
  | io site off count size =>
    cases site with
    | feed tries => exact ⟨rfl, rfl⟩
    | fill | head | tail | next | save | pass => exact absurd h id
  | asking => exact ⟨rfl, rfl⟩
  | holding | blocking | closing | joining | through | gone => exact absurd h id

/-- When the thread starves, the pipe is open. -/
theorem writable_of_starved (hinv : d.Inv cap) (h : d.Starved) : d.writable = true := by
  obtain ⟨hunl, hwriting⟩ := drained_unlocked h.2.1
  rw [Threads.writable, (hinv.early hunl).1, hwriting]
  rfl

theorem no_dumper_step (hinv : d.Inv cap) (h : d.Starved) : ¬DumperStep d d' := by
  have hwritable := writable_of_starved hinv h
  obtain ⟨-, -, hnil, n, next, hn, hat⟩ := h
  intro hstep
  cases hstep with
  | take hread hpipe hne hle =>
    rw [hnil] at hpipe
    exact hne (List.append_eq_nil_iff.mp hpipe.symm).1
  | finish hread hpos hpipe hclosed =>
    rw [hwritable] at hclosed
    cases hclosed
  | nothing hread =>
    rw [hat] at hread
    cases hread
    exact Nat.lt_irrefl 0 hn
  | prepared hat' | lock hat' hfree | leave hat' =>
    rw [hat] at hat'
    cases hat'

/-- **There is no way out of there.** -/
theorem Threads.Starved.step (hinv : d.Inv cap) (h : d.Starved)
    (hstep : ThreadsStep cap libunwind d d') : d'.Starved := by
  cases hstep with
  | dumper halive hdumper => exact absurd hdumper (no_dumper_step hinv h)
  | main hmain =>
    obtain ⟨hunk, hdrained, hnil, n, next, hn, hat⟩ := h
    obtain ⟨htold, hpid⟩ := unknown_iff.mp hunk
    have hunl := drained_unlocked hdrained
    cases hmain with
    | @call w p t htells hgo =>
      obtain ⟨ht, hp⟩ := idle_drained hinv.fits (hinv.early hunl.1).1 hdrained hpid (by
        rintro ⟨tries, rtn, hspot⟩
        rw [Threads.Tells, hspot] at htells
        rw [show w = d.answerPid from htells]
        exact pidAfter_unknown hunk) hgo
      have hsame : t.pid = d.tee.pid ∧ t.info = d.tee.info := by
        rw [ht]
        exact ⟨rfl, rfl⟩
      refine ⟨(unknown_called hsame.1).trans hunk, hp, ?_, n, next, hn, hat⟩
      show d.pipe ++ t.info.drop d.tee.info.length = []
      rw [hsame.2, List.drop_length, hnil]
      rfl
    | unlock hspot | quit hspot | close hspot | join hspot =>
      rw [hspot] at hdrained
      exact absurd hdrained id

theorem Threads.Starved.run (hinv : d.Inv cap) (h : d.Starved)
    (hrun : ThreadsRun cap libunwind d d') : d'.Starved := by
  have hboth : d'.Inv cap ∧ d'.Starved := by
    induction hrun with
    | refl => exact ⟨hinv, h⟩
    | tail _ hstep ih => exact ⟨ih.1.step hstep, ih.2.step ih.1 hstep⟩
  exact hboth.2

theorem Threads.Starved.not_finished (h : d.Starved) : ¬d.Finished := by
  have hdrained := h.2.1
  rintro (hspot | hspot)
  · rw [hspot] at hdrained
    exact hdrained
  · rw [hspot] at hdrained
    exact hdrained

/-- Who starves has read all of `buf`. -/
theorem hungry_of_starved (hinv : d.Inv cap) (hsince : d.Since cap S pid u) (h : d.Starved)
    (hq : Quiet d.tee.io) : pid = -1 ∧ S ≠ [] ∧ Hungry cap u (S.take bufSize) := by
  have hwritable := writable_of_starved hinv h
  obtain ⟨hunk, hdrained, hnil, n, next, hn, hat⟩ := h
  obtain ⟨htold, hpid⟩ := unknown_iff.mp hunk
  have hholds : ∃ k, (S.take bufSize).length ≤ k ∧ d.tee.Holds S k := by
    have hfits := hinv.fits
    have hfed := hsince.fed hq
    cases hspot : d.spot with
    | io site off count size =>
      rw [hspot] at hdrained hfits hfed
      cases site with
      | feed tries =>
        obtain ⟨-, -, -, -, hcount⟩ := hfits
        obtain rfl : count = 0 := hdrained
        have hread := Tee.Holds.read hfed
        exact ⟨off + size, by omega, hfed⟩
      | fill | head | tail | next | save | pass => exact absurd hdrained id
    | asking tries rtn =>
      rw [hspot] at hdrained hfits hfed
      obtain ⟨-, -, -, hzero⟩ := hfits
      have hall := hzero hdrained
      have hread := Tee.Holds.read hfed
      exact ⟨d.tee.bufWrite.toNat, by omega, hfed⟩
    | holding | blocking | closing | joining | through | gone =>
      rw [hspot] at hdrained
      exact absurd hdrained id
  obtain ⟨k, hk, hholds⟩ := hholds
  have hgot : d.got = S.take bufSize := by
    have hlink := hinv.link
    rw [hnil, List.append_nil, hholds.info, List.take_of_length_le hk] at hlink
    exact hlink
  have heof : d.eof = false := by
    by_contra he
    have hclosed := (hinv.eof (Bool.eq_true_of_not_eq_false he)).2.1
    rw [hwritable] at hclosed
    cases hclosed
  refine ⟨(hsince.pid htold).symm.trans hpid, hholds.some, n, next, hn, ?_⟩
  rw [← hgot]
  exact hsince.came heof _ hat

theorem not_misses (hinv : d.Inv cap) (hsince : d.Since cap S pid u) (hq : Quiet d.tee.io) :
    ¬d.Misses := by
  rintro ⟨bufWrite, off, count, size, hspot⟩
  have hread := read_of_fed hinv.fits (hsince.fed hq)
  have hfits := hinv.fits
  rw [hspot] at hfits
  have hminus : -1 = d.tee.bufRead := hfits.2.2.1
  omega

/-- Wherever the two are they may come to the end, if the thread cannot starve. -/
theorem ends_of_not_hungry (hcap : 0 < cap)
    (hfull : ¬(pid = -1 ∧ S ≠ [] ∧ Hungry cap u (S.take bufSize)))
    (hrun : ThreadsRun cap libunwind (.start S pid u) d) (hq : Quiet d.tee.io) :
    ∃ d', ThreadsRun cap libunwind d d' ∧ d'.Finished := by
  have hdown : ∀ d : Threads, (d.Inv cap ∧ d.Since cap S pid u) ∧ Quiet d.tee.io →
      d.Finished ∨ ∃ d', ThreadsStep cap libunwind d d' ∧ Further d'.rank d.rank ∧
        (d'.Inv cap ∧ d'.Since cap S pid u) ∧ Quiet d'.tee.io := by
    rintro d ⟨⟨hinv, hsince⟩, hq⟩
    rcases hinv.progress hcap with hfin | hstarved | ⟨d', hmoves, hq'⟩
    · exact Or.inl hfin
    · exact absurd (hungry_of_starved hinv hsince hstarved hq) hfull
    · exact Or.inr ⟨d', hmoves.step, hmoves.further hinv,
        ⟨hinv.step hmoves.step, hsince.step hinv hmoves.step⟩,
        hq' (not_misses hinv hsince hq) hq⟩
  exact Descent.reaches wellFounded_further hdown ⟨Threads.Since.run hrun, hq⟩

end Since

/-! ### How the thread is made to starve -/

/-- What `unw_prepare` has read is `xs`, `main` has written no more than that yet, and
nothing has failed. -/
structure Threads.Gave (cap : Nat) (libunwind : Bool) (S : List Byte)
    (u : Reader Byte (Int × Reader Byte Unit)) (xs : List Byte)
    (r : Reader Byte (Int × Reader Byte Unit)) (d : Threads) : Prop where
  run : ThreadsRun cap libunwind (.start S (-1) u) d
  quiet : Quiet d.tee.io
  dumper : d.dumper = .preparing r
  got : d.got = xs
  pipe : d.pipe = []
  spot : d.spot = if xs.length < (S.take bufSize).length
    then .io (.feed 0) 0 (S.take bufSize).length xs.length
    else .io (.feed 0) (S.take bufSize).length 0 0

section Gave

variable {cap : Nat} {libunwind : Bool} {d d' : Threads} {S : List Byte} {size : Nat}
  {u r : Reader Byte (Int × Reader Byte Unit)}

theorem fill_step (hS : S ≠ []) (hrun : ThreadsRun cap libunwind (.start S (-1) u) d)
    (hq : Quiet d.tee.io) (hspot : d.spot = .io .fill 0 bufSize size) :
    ∃ d', ThreadsRun cap libunwind (.start S (-1) u) d' ∧ Quiet d'.tee.io ∧
      d'.dumper = d.dumper ∧ d'.got = d.got ∧ d'.pipe = d.pipe ∧
      (size < S.length ∧ S.length < bufSize ∧ d'.spot = .io .fill 0 bufSize S.length ∨
        (size = S.length ∨ bufSize ≤ S.length) ∧
          d'.spot = .io (.feed 0) 0 (S.take bufSize).length 0) := by
  obtain ⟨hinv, hsince⟩ := Threads.Since.run hrun
  have hfits := hinv.fits
  have hfed := hsince.fed hq
  rw [hspot] at hfits hfed
  have hlen : d.tee.stdin.length = S.length - size := by rw [hfed.2.1, List.length_drop]
  have hsize : size ≤ S.length ∧ size ≤ bufSize := ⟨hfed.1, (Nat.le_min.mp hfits.1).2⟩
  have hres : d.tee.res .ok (bufSize - size) .stdin =
      .ok (min (bufSize - size) (S.length - size)) := by
    rw [← hlen, Tee.res, readRes_core hinv.served.input fun _ => Answer.noConfusion]
    rfl
  obtain ⟨p, t, hgo⟩ : ∃ p t, (Spot.io .fill 0 bufSize size).go libunwind d.tee [.ok] =
      .done p t [] := io_run hinv.served fun _ _ => by omega
  have hstep : MainStep cap libunwind d (d.called p t) := by
    refine .call (w := .ok) ?_ (by rw [hspot]; exact hgo)
    rw [Threads.Tells, hspot]
    exact Chan.noConfusion
  refine ⟨_, hrun.tail (.main hstep), ?_, rfl, rfl, ?_, ?_⟩
  · refine quiet_io hgo (Or.inr ?_) hq
    intro e he
    cases hres.symm.trans he
  · have hinfo : t.info = d.tee.info := by
      rcases info_go hgo with h | ⟨site, off, count, size, n, hio, hc, -⟩
      · exact h
      · cases hio
        cases hc
    show d.pipe ++ t.info.drop d.tee.info.length = d.pipe
    rw [hinfo, List.drop_length, List.append_nil]
  · obtain ⟨v, hv, -, h⟩ := done_of_io hgo
    cases hv
    rw [show (Site.fill).chan = .stdin from rfl, hres] at h
    by_cases hmore : size < S.length ∧ S.length < bufSize
    · have hor : repeatOr bufSize size (.ok (min (bufSize - size) (S.length - size))) =
          .inl S.length := by
        rw [Nat.min_eq_right (by omega), repeatOr, if_pos (by omega), Nat.add_sub_cancel' hsize.1]
      rw [hor] at h
      rcases h with ⟨size', hor', rfl, -⟩ | ⟨rtn, hor', -, -⟩
      · cases hor'
        exact Or.inl ⟨hmore.1, hmore.2, rfl⟩
      · cases hor'
    · have hall : size + min (bufSize - size) (S.length - size) = (S.take bufSize).length := by
        rw [List.length_take]
        omega
      have hor : repeatOr bufSize size (.ok (min (bufSize - size) (S.length - size))) =
          .inr (.ok (S.take bufSize).length) := by
        rw [repeatOr, if_neg (by omega), hall]
      have hpos : 0 < (S.take bufSize).length := by
        have := List.length_pos_iff.mpr hS
        rw [List.length_take, bufSize]
        omega
      rw [hor] at h
      rcases h with ⟨size', hor', -, -⟩ | ⟨rtn, hor', rfl, ht⟩
      · cases hor'
      · cases hor'
        refine Or.inr ⟨by omega, ?_⟩
        have hread : t.bufRead = ((S.take bufSize).length : Int) ∧ t.bufWrite = 0 := by
          rw [ht]
          exact ⟨rfl, rfl⟩
        show (if t.bufRead ≤ 0 then Spot.holding else frontFeed 0 t) = _
        rw [if_neg (by omega), frontFeed, if_pos (by decide), hread.1, hread.2, Int.sub_zero,
          sizeT_of_nat (List.length_take_le _ _)]
        rfl

theorem gave_nil (hS : S ≠ []) : ∃ d : Threads, d.Gave cap libunwind S u [] u := by
  have hpos : 0 < (S.take bufSize).length := by
    have := List.length_pos_iff.mpr hS
    rw [List.length_take, bufSize]
    omega
  have hgave : ∀ d : Threads, ThreadsRun cap libunwind (.start S (-1) u) d → Quiet d.tee.io →
      d.dumper = .preparing u → d.got = [] → d.pipe = [] →
      d.spot = .io (.feed 0) 0 (S.take bufSize).length 0 → d.Gave cap libunwind S u [] u := by
    intro d hrun hq hat hgot hpipe hspot
    exact ⟨hrun, hq, hat, hgot, hpipe, by rw [List.length_nil, if_pos hpos]; exact hspot⟩
  have hstart : ThreadsRun cap libunwind (.start S (-1) u) (.start S (-1) u) := .refl
  obtain ⟨d, hrun, hq, hat, hgot, hpipe, hspot⟩ := fill_step hS hstart
    (fun _ h => absurd h List.not_mem_nil) rfl
  rcases hspot with ⟨-, hshort, hspot⟩ | ⟨-, hspot⟩
  · obtain ⟨d', hrun', hq', hat', hgot', hpipe', hspot'⟩ := fill_step hS hrun hq hspot
    rcases hspot' with ⟨hlt, -⟩ | ⟨-, hspot'⟩
    · exact absurd hlt (Nat.lt_irrefl _)
    · exact ⟨d', hgave d' hrun' hq' (hat'.trans hat) (hgot'.trans hgot) (hpipe'.trans hpipe) hspot'⟩
  · exact ⟨d, hgave d hrun hq hat hgot hpipe hspot⟩

/-- `main` may write just what the thread is to read. -/
theorem gave_written {xs ys : List Byte} (h : d.Gave cap libunwind S u xs r)
    (hfront : xs ++ ys <+: S.take bufSize) (hne : ys ≠ []) (hcap : ys.length ≤ cap) :
    ∃ d', ThreadsRun cap libunwind (.start S (-1) u) d' ∧ Quiet d'.tee.io ∧
      d'.dumper = d.dumper ∧ d'.got = xs ∧ d'.pipe = ys ∧
      d'.spot = if (xs ++ ys).length < (S.take bufSize).length
        then .io (.feed 0) 0 (S.take bufSize).length (xs ++ ys).length
        else .asking 0 (.ok (S.take bufSize).length) := by
  obtain ⟨hinv, hsince⟩ := Threads.Since.run h.run
  obtain ⟨rest, hrest⟩ := hfront
  generalize hL : S.take bufSize = L at hrest
  have hlenL : L.length = xs.length + ys.length + rest.length := by
    rw [← hrest, List.length_append, List.length_append]
  have hpos : 0 < ys.length := List.length_pos_iff.mpr hne
  have hspot := h.spot
  rw [hL, if_pos (by omega)] at hspot
  have hfits := hinv.fits
  have hfed := hsince.fed h.quiet
  rw [hspot] at hfits hfed
  have hholds : d.tee.Holds S (0 + xs.length) := hfed
  have hsmall : L.length ≤ bufSize := by
    rw [← hL]
    exact List.length_take_le _ _
  have hopen := (hinv.early (by rw [hspot]; rfl)).1
  have hnb : d.tee.broken = false := by
    by_contra hb
    have hended := hinv.broken (Bool.eq_true_of_not_eq_false hb)
    rw [h.dumper] at hended
    cases hended
  have hres : d.tee.res (.amount (ys.length - 1)) (L.length - xs.length) .info =
      .ok ys.length := by
    have hmin : min (ys.length - 1 + 1) (L.length - xs.length) = ys.length := by omega
    simp [Tee.res, Tee.infoRes, Tee.fill, hinv.served.read, hopen, hnb, Answer.atMost, hmin,
      show L.length - xs.length ≠ 0 by omega]
  obtain ⟨p, t, hgo⟩ : ∃ p t, (Spot.io (.feed 0) 0 L.length xs.length).go libunwind d.tee
      [.amount (ys.length - 1)] = .done p t [] := io_run hinv.served fun _ _ => by omega
  have hstep : MainStep cap libunwind d (d.called p t) := by
    refine .call (w := .amount (ys.length - 1)) ?_ (by rw [hspot]; exact hgo)
    rw [Threads.Tells, hspot]
    intro _
    rw [hres]
    refine Or.inr ⟨?_, ?_⟩
    · rw [h.dumper]
      intro he
      cases he
    · rw [h.pipe, List.length_nil, Nat.zero_add]
      exact hcap
  have hslice : slice d.tee.buf (0 + xs.length) ys.length = ys := by
    have hread := hholds.read
    rw [hL] at hread
    rw [slice_of_take (l := L) (n := L.length) (by omega) (by rw [hholds.buf, hL])
      (by rw [hholds.buf, hL]), Nat.zero_add, ← hrest, List.append_assoc, List.drop_left,
      List.take_left]
  refine ⟨_, h.run.tail (.main hstep), quiet_io hgo (Or.inl rfl) h.quiet, rfl, h.got, ?_, ?_⟩
  · have hinfo : t.info = d.tee.info ++ ys := by
      obtain ⟨v, hv, -, hor⟩ := done_of_io hgo
      cases hv
      have hmoved : t.info = d.tee.info ++ slice d.tee.buf (0 + xs.length)
          ((d.tee.res (.amount (ys.length - 1)) (L.length - xs.length) .info).toOption.getD 0) := by
        rcases hor with ⟨size', -, -, rfl⟩ | ⟨rtn, -, -, rfl⟩
        · exact moved_info
        · exact put_info.trans moved_info
      rw [hmoved, hres]
      exact congrArg _ hslice
    show d.pipe ++ t.info.drop d.tee.info.length = ys
    rw [h.pipe, hinfo, List.drop_left]
    rfl
  · obtain ⟨v, hv, -, hor⟩ := done_of_io hgo
    cases hv
    have hres' : d.tee.res (.amount (ys.length - 1)) (L.length - xs.length) (Site.feed 0).chan =
        .ok ys.length := hres
    rw [hres'] at hor
    rw [List.length_append]
    by_cases hmore : xs.length + ys.length < L.length
    · rw [if_pos hmore]
      have hinl : repeatOr L.length xs.length (.ok ys.length) = .inl (xs.length + ys.length) := by
        rw [repeatOr, if_pos ⟨hpos, hmore⟩]
      rw [hinl] at hor
      rcases hor with ⟨size', hor', rfl, -⟩ | ⟨rtn, hor', -, -⟩
      · cases hor'
        rfl
      · cases hor'
    · rw [if_neg hmore]
      have hinr : repeatOr L.length xs.length (.ok ys.length) = .inr (.ok L.length) := by
        rw [repeatOr, if_neg (fun h => hmore h.2), show xs.length + ys.length = L.length by omega]
      rw [hinr] at hor
      rcases hor with ⟨size', hor', -, -⟩ | ⟨rtn, hor', rfl, -⟩
      · cases hor'
      · cases hor'
        show Spot.asking (if _ then 0 else 0) _ = _
        rw [ite_self]

/-- When all of `buf` is in the pipe, `main` asks for the PID, and goes on asking. -/
theorem asking_drained (hrun : ThreadsRun cap libunwind (.start S (-1) u) d) (hq : Quiet d.tee.io)
    (hat : d.dumper = .preparing r) (hall : d.got ++ d.pipe = S.take bufSize)
    (hspot : d.spot = .asking 0 (.ok (S.take bufSize).length)) :
    ∃ d', MainStep cap libunwind d d' ∧ Quiet d'.tee.io ∧ d'.dumper = d.dumper ∧
      d'.got = d.got ∧ d'.pipe = d.pipe ∧
      d'.spot = .io (.feed 0) (S.take bufSize).length 0 0 := by
  obtain ⟨hinv, hsince⟩ := Threads.Since.run hrun
  have hfits := hinv.fits
  have hfed := hsince.fed hq
  rw [hspot] at hfits hfed
  obtain ⟨-, ⟨h0, hle, -⟩, -, -⟩ := hfits
  have hread := Tee.Holds.read hfed
  have hwrite : d.tee.bufWrite = d.tee.bufRead := by
    have hinfo := Tee.Holds.info hfed
    have hlen := congrArg List.length (hinv.link.symm.trans hall)
    rw [hinfo, List.length_take] at hlen
    omega
  have htold : d.told = none := hinv.told.mpr ⟨r, hat⟩
  have hpid : d.tee.pidAfter d.answerPid = -1 :=
    pidAfter_unknown (unknown_iff.mpr ⟨htold, hsince.pid htold⟩)
  have hgo : d.spot.go libunwind d.tee [d.answerPid] =
      .done (frontFeed 0 d.tee) { d.tee with pid := d.tee.pidAfter d.answerPid } [] := by
    rw [hspot, asking_run, if_neg (not_not.mpr hpid)]
    rfl
  have htells : d.Tells cap d.answerPid := by
    rw [Threads.Tells, hspot]
  refine ⟨_, .call htells hgo, hq, rfl, rfl, ?_, ?_⟩
  · show d.pipe ++ d.tee.info.drop d.tee.info.length = d.pipe
    rw [List.drop_length, List.append_nil]
  · show frontFeed 0 d.tee = _
    rw [frontFeed, if_pos (by decide), hwrite, Int.sub_self, hread]
    rfl

theorem gave_piece {xs ys : List Byte} {n : Nat}
    {next : List Byte → Reader Byte (Int × Reader Byte Unit)}
    (h : d.Gave cap libunwind S u xs (.read n next)) (hfront : xs ++ ys <+: S.take bufSize)
    (hne : ys ≠ []) (hn : ys.length ≤ n) (hcap : ys.length ≤ cap) :
    ∃ d' : Threads, d'.Gave cap libunwind S u (xs ++ ys) (next ys) := by
  obtain ⟨d', hrun, hq, hat, hgot, hpipe, hspot⟩ := gave_written h hfront hne hcap
  have hread : ∀ d' : Threads, d'.dumper = d.dumper →
      d'.dumper.reading = some (n, fun bs => .preparing (next bs)) := by
    intro d' hd
    rw [hd, h.dumper]
    rfl
  have htake : ∀ d' : Threads, ThreadsRun cap libunwind (.start S (-1) u) d' → Quiet d'.tee.io →
      d'.dumper = d.dumper → d'.got = xs → d'.pipe = ys →
      d'.spot = (if (xs ++ ys).length < (S.take bufSize).length
        then .io (.feed 0) 0 (S.take bufSize).length (xs ++ ys).length
        else .io (.feed 0) (S.take bufSize).length 0 0) →
      ∃ d' : Threads, d'.Gave cap libunwind S u (xs ++ ys) (next ys) := by
    intro d' hrun hq hat hgot hpipe hspot
    have halive : d'.spot ≠ .gone := by
      rw [hspot]
      split
      · exact Spot.noConfusion
      · exact Spot.noConfusion
    have hstep := DumperStep.take (hread d' hat) (hpipe.trans (List.append_nil ys).symm) hne hn
    exact ⟨_, hrun.tail (.dumper halive hstep), hq, rfl, by rw [hgot], rfl, hspot⟩
  by_cases hmore : (xs ++ ys).length < (S.take bufSize).length
  · rw [if_pos hmore] at hspot
    exact htake d' hrun hq hat hgot hpipe (by rw [if_pos hmore]; exact hspot)
  · rw [if_neg hmore] at hspot
    have hall : xs ++ ys = S.take bufSize := hfront.eq_of_length_le (Nat.not_lt.mp hmore)
    obtain ⟨d'', hstep, hq', hat', hgot', hpipe', hspot'⟩ := asking_drained hrun hq
      (hat.trans h.dumper) (by rw [hgot, hpipe, hall]) hspot
    exact htake d'' (hrun.tail (.main hstep)) hq' (hat'.trans hat) (hgot'.trans hgot)
      (hpipe'.trans hpipe) (by rw [if_neg hmore]; exact hspot')

/-- Whatever `unw_prepare` may have read of what `main` has for it, it may have read it so
that `main` has written no more. -/
theorem gave_of_came {xs : List Byte} (hS : S ≠ []) (hcame : Came cap u xs r) :
    xs <+: S.take bufSize → ∃ d : Threads, d.Gave cap libunwind S u xs r := by
  induction hcame with
  | refl => exact fun _ => gave_nil hS
  | @piece xs ys n next hcame hne hn hcap ih =>
    intro hfront
    obtain ⟨d, hd⟩ := ih ((List.prefix_append xs ys).trans hfront)
    exact gave_piece hd hfront hne hn hcap
  | @nothing xs next hcame ih =>
    intro hfront
    obtain ⟨d, hd⟩ := ih hfront
    have halive : d.spot ≠ .gone := by
      rw [hd.spot]
      split
      · exact Spot.noConfusion
      · exact Spot.noConfusion
    have hread : d.dumper.reading = some (0, fun bs => .preparing (next bs)) := by
      rw [hd.dumper]
      rfl
    have hstep : DumperStep d { d with dumper := .preparing (next []) } := .nothing hread
    exact ⟨_, hd.run.tail (.dumper halive hstep), hd.quiet, rfl, hd.got, hd.pipe, hd.spot⟩

/-- If it wants more than that, the thread may starve. -/
theorem starved_of_hungry (hS : S ≠ []) (h : Hungry cap u (S.take bufSize)) :
    ∃ d, ThreadsRun cap libunwind (.start S (-1) u) d ∧ Quiet d.tee.io ∧ d.Starved := by
  obtain ⟨n, next, hn, hcame⟩ := h
  obtain ⟨d, hd⟩ : ∃ d : Threads, d.Gave cap libunwind S u (S.take bufSize) (.read n next) :=
    gave_of_came hS hcame (List.prefix_refl _)
  obtain ⟨hinv, hsince⟩ := Threads.Since.run hd.run
  have htold : d.told = none := hinv.told.mpr ⟨_, hd.dumper⟩
  refine ⟨d, hd.run, hd.quiet, unknown_iff.mpr ⟨htold, hsince.pid htold⟩, ?_, hd.pipe, n, next, hn,
    hd.dumper⟩
  rw [hd.spot, if_neg (Nat.lt_irrefl _)]
  rfl

/-- **When the two come to an end.**  If no call fails on descriptor 0 or on the core
output, they can come to the end from wherever they are, unless the PID was not given,
there is a core, and `unw_prepare` may read all of the front of it that fits into `buf`
and want more.  In that case they may come to where `main` asks for the PID forever, and
the thread waits forever. -/
theorem threads_end_iff {pid : Int} (hcap : 0 < cap) :
    (∀ d, ThreadsRun cap libunwind (.start S pid u) d → Quiet d.tee.io →
        ∃ d', ThreadsRun cap libunwind d d' ∧ d'.Finished) ↔
      ¬(pid = -1 ∧ S ≠ [] ∧ Hungry cap u (S.take bufSize)) := by
  constructor
  · rintro hends ⟨rfl, hS, hhungry⟩
    obtain ⟨d, hrun, hq, hstarved⟩ : ∃ d, ThreadsRun cap libunwind (.start S (-1) u) d ∧
        Quiet d.tee.io ∧ d.Starved := starved_of_hungry hS hhungry
    obtain ⟨d', hrun', hfin⟩ := hends d hrun hq
    exact (hstarved.run (inv_start_threads.run hrun) hrun').not_finished hfin
  · exact fun hfull d hrun hq => ends_of_not_hungry hcap hfull hrun hq

theorem threads_end_iff_one : ¬∀ d, ThreadsRun 1 true (.start [7] (-1)
      (.read 1 fun _ => .read 1 fun _ => .ret (42, .ret ()))) d → Quiet d.tee.io →
    ∃ d', ThreadsRun 1 true d d' ∧ d'.Finished := by
  rw [threads_end_iff Nat.one_pos, not_not]
  have hcame : ∀ next : List Byte → Reader Byte (Int × Reader Byte Unit),
      Came 1 (.read 1 next) ([] ++ [7]) (next [7]) :=
    fun next => .piece .refl (List.cons_ne_nil 7 []) (Nat.le_refl 1) (Nat.le_refl 1)
  exact ⟨rfl, List.cons_ne_nil 7 [], 1, _, Nat.one_pos, hcame _⟩

end Gave

end Crashinfo
