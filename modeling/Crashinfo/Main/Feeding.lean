import Crashinfo.Lib.Credit
import Crashinfo.Main.Fidelity

/-!
# Feeding the info pipe

The loop that feeds the info pipe is meant to end when the PID is known, when the
buffer has run out, when the pipe fails for good, or after 50 attempts in vain.
Every turn either writes something, or waits, or leaves, so a script pays for the
loop as long as there is something to write.  When there is nothing left the loop
asks for the PID and does nothing else, and only the PID can end it.
-/

namespace Crashinfo

open Script Script.Run

/-- What an answer costs: `safe_write` does not count the calls a signal interrupts. -/
def Answer.weight (w : Answer) : Nat := if w = .err .eintr then 0 else 1

/-- The last `n` calls, apart from those that a signal interrupted, have found the
pipe full. -/
def Waited (n : Nat) (io : List Io) : Prop :=
  n ≤ ((io.reverse.filter fun e => e.res ≠ .error .eintr).takeWhile
    fun e => e.res = .error .eagain).length

/-- **Why the loop is left**: the PID is known, the buffer has run out, the last call
has failed for good, or there were 50 attempts. -/
def FeedLeft (t : Tee) : Prop :=
  t.pid ≠ -1 ∨ t.bufWrite = t.bufRead ∨
    (∃ x ∈ t.io.getLast?, x.chan = .info ∧ ∃ e, x.res = .error e ∧ e ≠ .eagain ∧ e ≠ .eintr) ∨
    Waited 50 t.io

/-- Everything is written, and the PID is not known. -/
structure RunOut (t : Tee) : Prop where
  opened : t.infoOpen = true
  unknown : t.pid = -1
  start : 0 ≤ t.bufWrite
  all : t.bufWrite = t.bufRead
  room : t.bufRead ≤ bufSize

/-- Of two answers one is for `write` and one is for `run.pid`; one of the latter is
the PID. -/
def LearnsPid : List Answer → Prop
  | _ :: w :: o => (∃ p, w = .prepared p) ∨ LearnsPid o
  | _ => False

/-- The loop comes to a turn with nothing left to write, and the PID is not heard of. -/
def RunsOut (t : Tee) (o : List Answer) : Prop :=
  ∃ t' o', Comes feedTurn 0 t o 0 t' o' ∧ RunOut t' ∧ ¬LearnsPid o'

/-! ### One call of `safe_write` -/

section Write

variable {off count n : Nat} {t : Tee}

theorem weight_le_one (w : Answer) : w.weight ≤ 1 := by
  rw [Answer.weight]
  split
  · exact Nat.zero_le 1
  · exact Nat.le_refl 1

theorem fill_ne_eintr : t.fill n ≠ some (.error .eintr) := by
  intro h
  unfold Tee.fill at h
  dsimp only at h
  split at h
  · cases h
  split at h
  · split at h
    · cases h
    · cases h
  · cases h

theorem infoRes_eintr {w : Answer} (h : t.infoRes w count = some (.error .eintr)) :
    w = .err .eintr := by
  unfold Tee.infoRes at h
  split at h
  · cases h
  split at h
  · cases h
  split at h
  · cases h
  split at h
  · split at h
    · cases h
    · exact absurd h fill_ne_eintr
  · split at h
    · exact absurd h fill_ne_eintr
    · cases h
  · rw [Except.error.inj (Option.some.inj h)]
  · exact absurd h fill_ne_eintr

theorem asks_writeInfo (off count : Nat) : Asks 1 (writeInfo off count) := by
  refine asks_bind (k := 0) asks_ask fun w => asks_bind (k := 0) asks_get fun t => ?_
  split
  · exact asks_stuck
  refine asks_bind (k := 0) (asks_modify _) fun _ => ?_
  split
  · exact asks_bind (k := 0) (asks_modify _) fun _ => asks_pure _
  · split
    · exact asks_fault _
    · exact asks_bind (k := 0) (asks_modify _) fun _ => asks_pure _

theorem asks_readPid : Asks 1 readPid := by
  refine asks_bind (k := 0) asks_ask fun w => ?_
  split
  · exact asks_bind (k := 0) (asks_modify _) fun _ => asks_bind (k := 0) asks_get fun _ => asks_pure _
  · exact asks_bind (k := 0) asks_get fun _ => asks_pure _

/-- A call with something to write costs 1 at most, and nothing if it is interrupted. -/
theorem pays_writeInfo {Q : Except Errno Nat → Tee → Nat → Prop}
    (hpipe : t.unread = true → t.nonblock = true)
    (hroom : off + count ≤ bufSize) (hc : count ≠ 0) (hn : 0 < n)
    (herr : ∀ e j, n ≤ j + 1 → (e = .eintr → j = n) →
      Q (.error e) { t with
        broken := t.broken || decide (e = .epipe)
        io := t.io ++ [⟨.info, off, count, .error e⟩] } j)
    (hok : ∀ m j, 0 < m → m ≤ count → n ≤ j + 1 →
      Q (.ok m) { t with
        info := t.info ++ slice t.buf off m
        io := t.io ++ [⟨.info, off, count, .ok m⟩] } j) :
    Pays Answer.weight n (writeInfo off count) t Q := by
  refine pays_bind (pays_ask hn fun w => ⟨?_, pays_bind (pays_get ?_)⟩)
  · exact (weight_le_one w).trans hn
  have hweight := weight_le_one w
  have hsays := infoRes_says t w count
  have heintr := @infoRes_eintr count t w
  generalize t.infoRes w count = r at hsays heintr ⊢
  cases hsays with
  | waits hunread hblock hfull =>
    rw [hpipe hunread] at hblock
    cases hblock
  | error e hagain hepipe =>
    refine pays_bind (pays_modify (pays_bind (pays_modify (pays_pure (herr e _ (by omega) ?_)))))
    rintro rfl
    have hzero : w.weight = 0 := if_pos (heintr rfl)
    omega
  | ok m hle h0 hbroken hfree =>
    have hpos : 0 < m := Nat.pos_of_ne_zero fun hm0 => hc (h0 hm0)
    refine pays_bind (pays_modify ?_)
    dsimp only
    rw [if_neg (Nat.not_lt.mpr hroom)]
    exact pays_bind (pays_modify (pays_pure (hok m _ hpos hle (by omega))))

/-- What `safe_write` comes to with something to write: it has written `m` bytes, or
the last call has failed, for good. -/
def WroteInfo (off count m : Nat) (l : List Io) (r : Except Errno Nat) : Prop :=
  r = .ok m ∧ 0 < m ∧ m ≤ count ∨
    m = 0 ∧ ∃ e ints, r = .error e ∧ e ≠ .eintr ∧ l = ints ++ [⟨.info, off, count, .error e⟩] ∧
      ∀ x ∈ ints, x.res = .error .eintr

/-- **`safe_write` costs 1 for each byte it writes**, and 1. -/
theorem pays_safeWriteInfo (hpipe : t.unread = true → t.nonblock = true)
    (hroom : off + count ≤ bufSize) (hc : 0 < count) (hn : count < n) :
    Pays Answer.weight n (safeWriteInfo off count) t fun r t' j => ∃ m l info broken,
      t' = { t with info := info, broken := broken, io := t.io ++ l } ∧ n ≤ j + m + 1 ∧
        WroteInfo off count m l r := by
  rw [safeWriteInfo, safeIo]
  refine pays_forever (fun size s j => ∃ l info broken,
    s = { t with info := info, broken := broken, io := t.io ++ l } ∧ size < count ∧ n ≤ j + size ∧
      (size = 0 → ∀ x ∈ l, x.res = .error .eintr)) ?_ ?_ ?_
  · intro size s o r s' o' hrun
    exact asks_bind (k := 0) (asks_writeInfo _ _) (fun _ => asks_pure _) s o _ s' o' hrun
  · intro size s j hI
    obtain ⟨l, info, broken, rfl, hsize, hj, hints⟩ := hI
    refine pays_bind (pays_writeInfo hpipe (by omega) (by omega) (by omega) ?_ ?_)
    · intro e j' hj' hfree
      apply pays_pure
      rw [repeatOr]
      by_cases he : e = .eintr
      · rw [if_pos he]
        refine ⟨_, _, _, by rw [List.append_assoc], hsize, by rw [hfree he]; exact hj, ?_⟩
        intro h0 x hx
        rcases List.mem_append.mp hx with hx | hx
        · exact hints h0 x hx
        · rw [List.mem_singleton.mp hx, he]
      rw [if_neg he]
      by_cases h0 : size = 0
      · rw [if_pos h0]
        refine ⟨0, _, _, _, by rw [List.append_assoc], by omega, Or.inr ⟨rfl, e, l, rfl, he, ?_, ?_⟩⟩
        · rw [h0]
          rfl
        · exact hints h0
      · rw [if_neg h0]
        refine ⟨size, _, _, _, by rw [List.append_assoc], by omega, Or.inl ⟨rfl, ?_, ?_⟩⟩
        · exact Nat.pos_of_ne_zero h0
        · exact Nat.le_of_lt hsize
    · intro m j' hm hle hj'
      apply pays_pure
      rw [repeatOr]
      by_cases hmore : m > 0 ∧ size + m < count
      · rw [if_pos hmore]
        refine ⟨_, _, _, by rw [List.append_assoc], hmore.2, by omega, fun h0 => ?_⟩
        omega
      · rw [if_neg hmore]
        refine ⟨size + m, _, _, _, by rw [List.append_assoc], by omega, Or.inl ⟨rfl, ?_, ?_⟩⟩
        · omega
        · omega
  · refine ⟨[], t.info, t.broken, by rw [List.append_nil], hc, Nat.le_add_right _ _, ?_⟩
    exact fun _ => List.forall_mem_nil _

end Write

/-! ### A turn -/

section Turn

variable {tries n : Nat} {t : Tee}

theorem pays_readPid (hn : 0 < n) :
    Pays Answer.weight n readPid t fun p t' j => t' = { t with pid := p } ∧ n ≤ j + 1 := by
  refine pays_bind (pays_ask hn fun w => ⟨(weight_le_one w).trans hn, ?_⟩)
  have hweight := weight_le_one w
  have hrest : ∀ t' : Tee, t' = { t with pid := t'.pid } →
      Pays Answer.weight (n - w.weight) (do return (← get).pid : TeeRun Int) t' fun p t'' j =>
        t'' = { t with pid := p } ∧ n ≤ j + 1 := by
    intro t' ht
    exact pays_bind (pays_get (pays_pure ⟨ht, by omega⟩))
  split
  · refine pays_bind (pays_modify (hrest _ ?_))
    split
    · rfl
    · rfl
  · exact hrest t rfl

theorem waited_snoc {io l : List Io} {e : Io} (h : Waited n io) (hl : ∀ x ∈ l, x.res = .error .eintr)
    (he : e.res = .error .eagain) : Waited (n + 1) (io ++ (l ++ [e])) := by
  have hne : e.res ≠ .error .eintr := by
    rw [he]
    intro heq
    cases heq
  have hnone : l.reverse.filter (fun e => decide (e.res ≠ .error .eintr)) = [] := by
    rw [List.filter_eq_nil_iff]
    intro x hx
    simpa using hl x (List.mem_reverse.mp hx)
  rw [Waited, List.reverse_append, List.reverse_append, List.reverse_singleton, List.filter_append,
    List.filter_append, hnone, List.append_nil, List.filter_cons_of_pos (by simpa using hne),
    List.filter_nil, List.singleton_append, List.takeWhile_cons_of_pos (by simpa using he),
    List.length_cons]
  exact Nat.succ_le_succ h

/-- What holds in front of a turn, with the credit `n`. -/
structure Feeding (tries : Nat) (t : Tee) (n : Nat) : Prop where
  opened : t.infoOpen = true
  /-- a write does not wait for somebody to read -/
  pipe : t.unread = true → t.nonblock = true
  start : 0 ≤ t.bufWrite
  left : t.bufWrite < t.bufRead
  room : t.bufRead ≤ bufSize
  waited : Waited tries t.io
  tries_le : tries ≤ 50
  credit : 101 * (t.bufRead - t.bufWrite).toNat + 2 * (50 - tries) ≤ n

/-- Something is written: then there is still something left, or nothing. -/
theorem Feeding.wrote (h : Feeding tries t n) {t' : Tee} {m j : Nat} (hlimit : tries < 50)
    (hopen : t'.infoOpen = t.infoOpen) (hpipe : t'.unread = true → t'.nonblock = true)
    (hread : t'.bufRead = t.bufRead) (hwrite : t'.bufWrite = t.bufWrite + m)
    (hpid : t'.pid = -1) (hpos : 0 < m) (hm : m ≤ (t.bufRead - t.bufWrite).toNat)
    (hj : n ≤ j + m + 2) :
    Feeding 0 t' j ∨ RunOut t' := by
  obtain ⟨hopened, -, hstart, hleft, hroom, -, -, hcredit⟩ := h
  by_cases hmore : m < (t.bufRead - t.bufWrite).toNat
  · refine Or.inl ⟨hopen.trans hopened, hpipe, by omega, by omega, by omega, Nat.zero_le _,
      Nat.zero_le _, ?_⟩
    rw [hread, hwrite]
    omega
  · exact Or.inr ⟨hopen.trans hopened, hpid, by omega, by omega, by omega⟩

theorem Feeding.waits (h : Feeding tries t n) {t' : Tee} {ints : List Io} {e : Io} {j : Nat}
    (hlimit : tries < 50) (hopen : t'.infoOpen = t.infoOpen)
    (hpipe : t'.unread = true → t'.nonblock = true) (hread : t'.bufRead = t.bufRead)
    (hwrite : t'.bufWrite = t.bufWrite) (hio : t'.io = t.io ++ (ints ++ [e]))
    (hints : ∀ x ∈ ints, x.res = .error .eintr) (he : e.res = .error .eagain)
    (hj : n ≤ j + 2) : Feeding (tries + 1) t' j := by
  obtain ⟨hopened, -, hstart, hleft, hroom, hwaited, -, hcredit⟩ := h
  refine ⟨hopen.trans hopened, hpipe, by omega, by omega, by omega, ?_, hlimit, ?_⟩
  · rw [hio]
    exact waited_snoc hwaited hints he
  · rw [hread, hwrite]
    omega

theorem last_failed (io ints : List Io) (off count : Nat) {e : Errno} (hagain : e ≠ .eagain)
    (heintr : e ≠ .eintr) :
    ∃ x ∈ (io ++ (ints ++ [(⟨.info, off, count, .error e⟩ : Io)])).getLast?,
      x.chan = .info ∧ ∃ e, x.res = .error e ∧ e ≠ .eagain ∧ e ≠ .eintr := by
  refine ⟨⟨.info, off, count, .error e⟩, ?_, rfl, e, rfl, hagain, heintr⟩
  rw [← List.append_assoc, List.getLast?_append]
  rfl

theorem asks_safeWriteInfo (off count : Nat) : Asks 0 (safeWriteInfo off count) := by
  rw [safeWriteInfo, safeIo]
  refine asks_forever (fun size => ?_) 0
  exact asks_bind (k := 0) ((asks_writeInfo _ _).le (Nat.zero_le 1)) fun _ => asks_pure _

theorem asking_feedTurn : Asking feedTurn := by
  intro tries t o b t' o' hrun
  rw [feedTurn] at hrun
  split at hrun
  · refine asks_bind (j := 0) (k := 1) asks_get (fun t => asks_bind (j := 0) (k := 1)
      (asks_safeWriteInfo _ _) fun r => asks_bind (j := 0) (k := 1) (asks_modify _) fun _ =>
      asks_bind (k := 0) asks_readPid fun p => ?_) t o _ t' o' hrun
    split
    · exact asks_pure _
    · split
      · exact asks_pure _
      · exact asks_pure _
      · exact asks_pure _
  · cases hrun

/-- **A turn pays for itself**, unless it writes the last byte: it writes something,
or waits, or leaves. -/
theorem pays_feedTurn (h : Feeding tries t n) :
    Pays Answer.weight n (feedTurn tries) t fun r t' j =>
      Sum.elim (fun tries' => Feeding tries' t' j ∨ tries' = 0 ∧ RunOut t') (fun _ => FeedLeft t')
        r := by
  have hstart := h.start
  have hleft := h.left
  have hroom := h.room
  have hcredit := h.credit
  rw [feedTurn]
  by_cases hlimit : tries < 50
  · rw [if_pos hlimit]
    have hcount : sizeT (t.bufRead - t.bufWrite) = (t.bufRead - t.bufWrite).toNat := by
      have hsize : bufSize = 32768 := rfl
      rw [sizeT, Int.emod_eq_of_lt (by omega) (by omega)]
    refine pays_bind (pays_get ?_)
    refine (pays_safeWriteInfo h.pipe (by omega) (by omega) (by omega)).andThen fun r t₁ j₁ hr => ?_
    obtain ⟨m, l, info, broken, rfl, hj₁, hwrote⟩ := hr
    rw [hcount] at hwrote
    have hm : m ≤ (t.bufRead - t.bufWrite).toNat := by
      rcases hwrote with ⟨-, -, hm⟩ | ⟨rfl, -⟩
      · exact hm
      · exact Nat.zero_le _
    refine pays_bind (pays_modify ?_)
    refine (pays_readPid (by omega)).andThen fun p t₂ j₂ hp => ?_
    obtain ⟨rfl, hj₂⟩ := hp
    by_cases hpid : p ≠ -1
    · rw [if_pos hpid]
      exact pays_pure (Or.inl hpid)
    rw [if_neg hpid]
    rcases hwrote with ⟨rfl, hpos, -⟩ | ⟨rfl, e, ints, rfl, he, rfl, hints⟩
    · apply pays_pure
      have hzero : (if m > 0 then 0 else tries) = 0 := if_pos hpos
      show Feeding (if m > 0 then 0 else tries) _ _ ∨ (if m > 0 then 0 else tries) = 0 ∧ _
      rw [hzero]
      refine Or.imp_right (fun hout : RunOut _ => ⟨rfl, hout⟩) ?_
      have hj : n ≤ j₂ + m + 2 := by omega
      exact h.wrote hlimit rfl h.pipe rfl rfl (not_not.mp hpid) hpos hm hj
    · have hnone : t.bufWrite + ((Except.error e : Except Errno Nat).toOption.getD 0 : Nat) =
          t.bufWrite := Int.add_zero _
      by_cases hagain : e = .eagain
      · subst hagain
        refine pays_pure (Or.inl ?_)
        show Feeding (tries + 1) _ _
        exact h.waits hlimit rfl h.pipe rfl hnone rfl hints rfl (by omega)
      · have hlast := last_failed t.io ints t.bufWrite.toNat (t.bufRead - t.bufWrite).toNat
          hagain he
        split
        · rename_i heq
          cases heq
          exact absurd rfl hagain
        · exact pays_pure (Or.inr (Or.inr (Or.inl hlast)))
        · rename_i heq
          cases heq
  · rw [if_neg hlimit]
    have htries := h.tries_le
    have hfifty : tries = 50 := by omega
    subst hfifty
    exact pays_pure (Or.inr (Or.inr (Or.inr h.waited)))

end Turn

/-! ### With nothing left to write -/

section Stuck

variable {t : Tee} {o : List Answer}

/-- With nothing to write, `safe_write` makes one call. -/
theorem safeWriteInfo_nothing {off : Nat} {w : Answer} (hopen : t.infoOpen = true)
    (hoff : off ≤ bufSize) :
    safeWriteInfo off 0 t (w :: o) = .done (.ok 0) (t.record ⟨.info, off, 0, .ok 0⟩) o := by
  have hres : t.infoRes w 0 = some (.ok 0) := by simp [Tee.infoRes, hopen]
  have hroom : ¬off + 0 > bufSize := Nat.not_lt.mpr hoff
  have hwrite : writeInfo off 0 t (w :: o) =
      .done (.ok 0) (t.record ⟨.info, off, 0, .ok 0⟩) o := by
    have hslice : t.info ++ slice t.buf off 0 = t.info := List.append_nil _
    unfold writeInfo
    rw [bind_of_done (by rfl), bind_of_done (by rfl), hres]
    dsimp only
    rw [bind_of_done (by rfl), if_neg hroom]
    show Res.done _ { t.record _ with info := t.info ++ slice t.buf off 0 } o = _
    rw [hslice]
    rfl
  rw [safeWriteInfo, safeIo]
  apply forever_inr
  exact (bind_of_done hwrite).trans rfl

theorem safeWriteInfo_nil {off count : Nat} : safeWriteInfo off count t [] = .stop .cut t := by
  rw [safeWriteInfo, safeIo]
  apply forever_stop
  rfl

theorem readPid_prepared {p : Int} (hpid : t.pid = -1) :
    ∃ q, readPid t (.prepared p :: o) = .done q { t with pid := q } o ∧ q ≠ -1 := by
  refine ⟨if p < 0 then -2 else p, ?_, ?_⟩
  · show Res.done (if t.pid = -1 then _ else _ : Tee).pid (if t.pid = -1 then _ else _) o = _
    rw [if_pos hpid]
  · split
    · decide
    · omega

theorem readPid_other {w : Answer} (h : ¬∃ p, w = .prepared p) :
    readPid t (w :: o) = .done t.pid t o := by
  cases w with
  | prepared p => exact absurd ⟨p, rfl⟩ h
  | _ => rfl

theorem readPid_nil : readPid t [] = .stop .cut t := rfl

/-- A turn with nothing left to write comes down to a look at the PID. -/
theorem feedTurn_runOut {w : Answer} (h : RunOut t) : ∃ t₁, RunOut t₁ ∧
    feedTurn 0 t (w :: o) =
      (readPid >>= fun p => if p ≠ -1 then pure (.inr ()) else pure (.inl 0) : TeeRun _) t₁ o := by
  have hsize : sizeT (t.bufRead - t.bufWrite) = 0 := by
    rw [h.all, Int.sub_self]
    rfl
  have hoff : t.bufWrite.toNat ≤ bufSize := by
    have h1 := h.all
    have h2 := h.room
    omega
  have hget : (get : TeeRun Tee) t (w :: o) = .done t t (w :: o) := rfl
  have hwrite := safeWriteInfo_nothing (o := o) (w := w) h.opened hoff
  have hmodify : (modify fun t => { t with bufWrite := t.bufWrite + (0 : Nat) } : TeeRun Unit)
      (t.record ⟨.info, t.bufWrite.toNat, 0, .ok 0⟩) o =
        .done () (t.record ⟨.info, t.bufWrite.toNat, 0, .ok 0⟩) o := by
    show Res.done () { t.record _ with bufWrite := t.bufWrite + (0 : Nat) } o = _
    rw [Int.natCast_zero, Int.add_zero]
    rfl
  refine ⟨t.record ⟨.info, t.bufWrite.toNat, 0, .ok 0⟩,
    ⟨h.opened, h.unknown, h.start, h.all, h.room⟩, ?_⟩
  rw [feedTurn, if_pos (by decide), bind_of_done hget, hsize, bind_of_done hwrite]
  exact bind_of_done hmodify

/-- **With nothing left to write only the PID ends the loop.** -/
theorem forever_runOut (h : RunOut t) :
    (∃ t' rest, forever feedTurn 0 t o = .done () t' rest ∧ FeedLeft t') ↔ LearnsPid o := by
  induction o using LearnsPid.induct generalizing t with
  | case1 v w o ih =>
    obtain ⟨t₁, h₁, hturn⟩ := feedTurn_runOut (w := v) (o := w :: o) h
    by_cases hw : ∃ p, w = .prepared p
    · have hlearns : LearnsPid (v :: w :: o) := Or.inl hw
      obtain ⟨p, rfl⟩ := hw
      obtain ⟨q, hread, hq⟩ := readPid_prepared (p := p) (o := o) h₁.unknown
      rw [bind_of_done hread, if_pos hq] at hturn
      rw [forever_inr hturn]
      exact iff_of_true ⟨_, _, rfl, Or.inl hq⟩ hlearns
    · rw [bind_of_done (readPid_other hw), if_neg (not_not.mpr h₁.unknown)] at hturn
      rw [forever_inl asking_feedTurn hturn, ih h₁, LearnsPid, or_iff_right hw]
  | case2 o hshort =>
    -- the script ends within the turn
    have hcut : ∃ t₁, feedTurn 0 t o = .stop .cut t₁ := by
      cases o with
      | nil =>
        have hget : (get : TeeRun Tee) t [] = .done t t [] := rfl
        refine ⟨t, ?_⟩
        rw [feedTurn, if_pos (by decide), bind_of_done hget, bind_of_stop safeWriteInfo_nil]
      | cons v o =>
        cases o with
        | nil =>
          obtain ⟨t₁, -, hturn⟩ := feedTurn_runOut (w := v) (o := []) h
          rw [bind_of_stop readPid_nil] at hturn
          exact ⟨t₁, hturn⟩
        | cons w o => exact absurd rfl (hshort v w o)
    obtain ⟨t₁, hcut⟩ := hcut
    rw [forever_stop hcut]
    refine iff_of_false ?_ ?_
    · rintro ⟨t', rest, hdone, -⟩
      cases hdone
    · intro hlearns
      unfold LearnsPid at hlearns
      split at hlearns
      · exact hshort _ _ _ rfl
      · exact hlearns

end Stuck

/-! ### The loop -/

/-- **The feeding loop ends** with an answer for everything it has to ask, unless it
has written the whole buffer and the PID is never heard of. -/
theorem feedTurn_ends_iff (t : Tee) (o : List Answer) (hopen : t.infoOpen = true)
    (hpipe : t.unread = true → t.nonblock = true) (hstart : t.bufWrite = 0)
    (hread : 0 < t.bufRead) (hroom : t.bufRead ≤ bufSize)
    (hcost : 101 * t.bufRead.toNat + 100 ≤ cost Answer.weight o) :
    (∃ t' rest, forever feedTurn 0 t o = .done () t' rest ∧ FeedLeft t') ↔ ¬RunsOut t o := by
  have hfeeding : Feeding 0 t (101 * t.bufRead.toNat + 100) :=
    { opened := hopen
      pipe := hpipe
      start := Int.le_of_eq hstart.symm
      left := hstart ▸ hread
      room := hroom
      waited := Nat.zero_le _
      tries_le := Nat.zero_le _
      credit := by rw [hstart, Int.sub_zero] }
  have hloop := pays_forever_or Feeding (fun tries t => tries = 0 ∧ RunOut t)
    (Q := fun _ t' _ => FeedLeft t') asking_feedTurn (fun tries t j h => pays_feedTurn h) hfeeding o
  have hstuck : ∀ t' o', Comes feedTurn 0 t o 0 t' o' → RunOut t' →
      ((∃ t' rest, forever feedTurn 0 t o = .done () t' rest ∧ FeedLeft t') ↔ LearnsPid o') := by
    intro t' o' hcomes hrunOut
    rw [hcomes.forever_eq asking_feedTurn]
    exact forever_runOut hrunOut
  rw [iff_not_comm, RunsOut]
  refine ⟨?_, ?_⟩
  · intro ⟨t', o', hcomes, hrunOut, hlearns⟩
    exact (not_congr (hstuck t' o' hcomes hrunOut)).mpr hlearns
  · intro hends
    rcases hloop with ⟨tries, t', o', hcomes, rfl, hrunOut⟩ | hpaid
    · exact ⟨t', o', hcomes, hrunOut, (not_congr (hstuck t' o' hcomes hrunOut)).mp hends⟩
    · cases hrun : forever feedTurn 0 t o with
      | done a t' rest =>
        rw [hrun] at hpaid
        obtain ⟨j, -, hleft⟩ := hpaid
        exact absurd ⟨t', rest, hrun, hleft⟩ hends
      | stop why t' =>
        rw [hrun] at hpaid
        exact absurd hpaid.2 (Nat.not_lt.mpr hcost)

/-- The PID is heard of as soon as the only byte is written. -/
theorem feedTurn_ends_prepared :
    ∃ t' rest, forever feedTurn 0 { stdin := [], buf := [7], bufRead := 1, pid := -1 }
      (.ok :: .prepared 42 :: List.replicate 199 .ok) = .done () t' rest ∧ FeedLeft t' := by
  have hcost : 201 ≤ cost Answer.weight (.ok :: .prepared 42 :: List.replicate 199 .ok) := by
    rw [cost_cons, cost_cons, cost_replicate]
    decide
  refine (feedTurn_ends_iff { stdin := [], buf := [7], bufRead := 1, pid := -1 } _ rfl
    (fun _ => rfl) rfl (by decide) (by decide) hcost).mpr ?_
  rintro ⟨t', o', hcomes, hrunOut, -⟩
  cases hcomes with
  | refl => exact absurd hrunOut.all (by decide)
  | step h hrest =>
    have hturn : ∀ o, feedTurn 0 { stdin := [], buf := [7], bufRead := 1, pid := -1 }
        (.ok :: .prepared 42 :: o) = .done (.inr ())
          { stdin := [], buf := [7], bufRead := 1, bufWrite := 1, pid := 42, info := [7]
            io := [⟨.info, 0, 1, .ok 1⟩] } o := fun _ => rfl
    cases (hturn _).symm.trans h

/-- The only byte is written, and the PID is never heard of: no number of answers is
enough. -/
theorem not_feedTurn_ends :
    ¬∃ n t' rest, forever feedTurn 0 { stdin := [], buf := [7], bufRead := 1, pid := -1 }
      (List.replicate n .ok) = .done () t' rest ∧ FeedLeft t' := by
  intro ⟨n, hends⟩
  have hnever : ∀ n, ¬LearnsPid (List.replicate n .ok) := by
    intro n
    induction n using Nat.twoStepInduction with
    | zero => exact id
    | one => exact id
    | more n ih =>
      rintro (⟨p, hp⟩ | h)
      · cases hp
      · exact ih h
  match n with
  | 0 =>
    obtain ⟨t', rest, hdone, -⟩ := hends
    cases hdone
  | 1 =>
    obtain ⟨t', rest, hdone, -⟩ := hends
    cases hdone
  | n + 2 =>
    have hturn : feedTurn 0 { stdin := [], buf := [7], bufRead := 1, pid := -1 }
        (.ok :: .ok :: List.replicate n .ok) = .done (.inl 0)
          { stdin := [], buf := [7], bufRead := 1, bufWrite := 1, pid := -1, info := [7]
            io := [⟨.info, 0, 1, .ok 1⟩] } (List.replicate n .ok) := rfl
    rw [List.replicate_succ, List.replicate_succ, forever_inl asking_feedTurn hturn,
      forever_runOut ⟨rfl, rfl, by decide, rfl, by decide⟩] at hends
    exact hnever n hends

end Crashinfo
