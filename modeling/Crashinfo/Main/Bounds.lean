import Crashinfo.Lib.Credit
import Crashinfo.Lib.Journal
import Crashinfo.Main.Fidelity
import Crashinfo.Main.Standard

/-!
# Inside the buffer

`buf_read` and `buf_write` are signed, and what is passed to `safe_read` and
`safe_write` are unsigned sizes made of them.  As long as they are in order
(`Counted`), every call stays inside of `buf`, and every write inside of what the
latest `safe_read` has stored there.

They are in order unless the first `safe_read` fails: then `buf_read` is -1, and
stays so (`inBuf_iff`).  That is so whatever descriptor 0 is; if it is the info pipe,
as after a core that could not be opened, `main` only waits for ever.
-/

namespace Crashinfo

open Script Script.Run Journal

def Io.moved (e : Io) : Nat := e.res.toOption.getD 0

/-- How many bytes the latest `safe_read` has stored. -/
def stored (io : List Io) : Nat :=
  io.foldl (fun n e => if e.chan = .stdin then e.off + e.moved else n) 0

/-- The call stays inside of `buf`, and a write inside of its first `n` bytes. -/
def Io.Within (n : Nat) (e : Io) : Prop :=
  e.off + e.count ≤ bufSize ∧ (e.chan ≠ .stdin → e.off + e.count ≤ n)

/-- Every call stays inside of `buf`, and every write inside of what was stored last. -/
def Contained (io : List Io) : Prop := Each (fun pre e => e.Within (stored pre)) io

/-- **Every transfer stays inside of the buffer**, and the counters are in order. -/
structure InBuf (t : Tee) : Prop where
  calls : Contained t.io
  nonneg : 0 ≤ t.bufWrite
  le : t.bufWrite ≤ t.bufRead

/-- The first call of `read` fails, of itself or because descriptor 0 cannot be read; a
signal does not count. -/
def FirstReadFails (input : Input) : List Answer → Prop
  | [] => False
  | .err .eintr :: o => FirstReadFails input o
  | .err _ :: _ => True
  | _ :: _ => input = .refused

/-! ### The record of the calls -/

section Record

variable {io : List Io} {e : Io}

theorem stored_snoc : stored (io ++ [e]) = if e.chan = .stdin then e.off + e.moved else stored io := by
  rw [stored, List.foldl_append]
  rfl

theorem stored_read {off count : Nat} {r : Except Errno Nat} :
    stored (io ++ [⟨.stdin, off, count, r⟩]) = off + r.toOption.getD 0 := by
  rw [stored_snoc, if_pos rfl]
  rfl

theorem stored_write (hc : e.chan ≠ .stdin) : stored (io ++ [e]) = stored io := by
  rw [stored_snoc, if_neg hc]

theorem contained_nil : Contained [] := each_nil

theorem contained_snoc : Contained (io ++ [e]) ↔ Contained io ∧ e.Within (stored io) := each_snoc

end Record

/-! ### The calls -/

variable {t t' : Tee}

/-- Behind `t` there were only calls that stay inside of the buffer. -/
structure Followed (t t' : Tee) : Prop where
  calls : Contained t.io → Contained t'.io
  bufRead : t'.bufRead = t.bufRead
  bufWrite : t'.bufWrite = t.bufWrite

theorem Followed.refl (t : Tee) : Followed t t := ⟨id, rfl, rfl⟩

theorem Followed.trans {t₁ : Tee} (h : Followed t t₁) (h' : Followed t₁ t') : Followed t t' :=
  ⟨h'.calls ∘ h.calls, h'.bufRead.trans h.bufRead, h'.bufWrite.trans h.bufWrite⟩

theorem InBuf.followed (h : InBuf t) (h' : Followed t t') : InBuf t' where
  calls := h'.calls h.calls
  nonneg := h'.bufWrite.symm ▸ h.nonneg
  le := h'.bufWrite.symm ▸ h'.bufRead.symm ▸ h.le

/-- The run has come to no fault where it stopped, with `I`. -/
def CutIn (I : Tee → Prop) (why : Stop Fault) (t : Tee) : Prop := (∀ f, why ≠ .fault f) ∧ I t

theorem cutIn_cut {I : Tee → Prop} {t : Tee} (h : I t) : CutIn I .cut t :=
  ⟨fun _ hf => (by cases hf), h⟩

theorem cutIn_stuck {I : Tee → Prop} {t : Tee} (h : I t) : CutIn I .stuck t :=
  ⟨fun _ hf => (by cases hf), h⟩

theorem CutIn.mono {I J : Tee → Prop} (hI : ∀ t, I t → J t) {why : Stop Fault}
    (h : CutIn I why t) : CutIn J why t :=
  ⟨h.1, hI t h.2⟩

/-- The call `e` was made, and nothing was done to the counters. -/
structure Noted (t : Tee) (e : Io) (t' : Tee) : Prop where
  io : t'.io = t.io ++ [e]
  bufRead : t'.bufRead = t.bufRead
  bufWrite : t'.bufWrite = t.bufWrite

theorem Followed.noted {t₁ : Tee} {e : Io} (h : Followed t t₁) (hn : Noted t₁ e t')
    (he : e.Within (stored t₁.io)) : Followed t t' where
  calls := by
    intro hc
    rw [hn.io, contained_snoc]
    exact ⟨h.calls hc, he⟩
  bufRead := hn.bufRead.trans h.bufRead
  bufWrite := hn.bufWrite.trans h.bufWrite

/-- A call on the buffer does nothing to the counters, and is recorded. -/
def Calls (chan : Chan) (call : Nat → Nat → TeeRun (Except Errno Nat)) : Prop :=
  ∀ (off count : Nat) (t : Tee) (Q : Except Errno Nat → Tee → Prop) (K : Stop Fault → Tee → Prop),
    off + count ≤ bufSize → K .cut t → K .stuck t →
    (∀ r t', Noted t ⟨chan, off, count, r⟩ t' → (∀ n, r = .ok n → n ≤ count) → Q r t') →
    Meets (fun _ => True) (call off count) t Q K

theorem calls_read : Calls .stdin read := by
  intro off count t Q K _ hcut hstuck h
  refine meets_read hcut (fun _ => hstuck) ?_ ?_
  · exact fun e => h _ _ ⟨rfl, rfl, rfl⟩ nofun
  · exact fun n hn _ => h _ _ ⟨rfl, rfl, rfl⟩ fun m hm => by have := Except.ok.inj hm; omega

theorem calls_core : Calls .core writeCore := by
  intro off count t Q K hfit hcut _ h
  refine meets_writeCore hcut (fun hout => absurd hfit (by omega)) ?_ ?_
  · exact fun e _ => h _ _ ⟨rfl, rfl, rfl⟩ nofun
  · exact fun n hn _ => h _ _ ⟨rfl, rfl, rfl⟩ fun m hm => Except.ok.inj hm ▸ hn

theorem calls_info : Calls .info writeInfo := by
  intro off count t Q K hfit hcut hstuck h
  refine meets_writeInfo hcut (fun _ _ _ => hstuck) (fun hout => absurd hfit (by omega)) ?_ ?_
  · exact fun e _ _ => h _ _ ⟨rfl, rfl, rfl⟩ nofun
  · exact fun n hn _ _ _ => h _ _ ⟨rfl, rfl, rfl⟩ fun m hm => Except.ok.inj hm ▸ hn

/-- **`safe_read`** into the whole buffer. -/
theorem meets_safeRead (t : Tee) :
    Meets (fun _ => True) (safeRead bufSize) t
      (fun r t' => Followed t t' ∧ Moved bufSize (stored t'.io) r) (CutIn (Followed t)) := by
  refine meets_safeIo
    (fun size s => Followed t s ∧ size ≤ bufSize ∧ (size = 0 ∨ stored s.io = size))
    (fun _ s hs => cutIn_cut hs.1) (fun size s hs => ?_)
    ⟨Followed.refl t, Nat.zero_le _, Or.inl rfl⟩
  obtain ⟨hf, hle, -⟩ := hs
  refine calls_read _ _ _ _ _ (by omega) (cutIn_cut hf) (cutIn_stuck hf) fun r s' hn hr => ?_
  have hf' := hf.noted hn ⟨by dsimp only; omega, fun hc => absurd rfl hc⟩
  have hst : stored s'.io = size + r.toOption.getD 0 := by rw [hn.io, stored_read]
  cases r with
  | error e =>
    refine elim_repeatOr_error (fun _ => ⟨hf', hle, Or.inr hst⟩) (fun r _ hr => ⟨hf', ?_⟩) hle
    rw [hst]
    exact hr
  | ok n =>
    have hn := hr n rfl
    have hle' : size + n ≤ bufSize := by omega
    refine elim_repeatOr_ok ⟨hf', hle', Or.inr hst⟩ (fun hr _ => ⟨hf', ?_⟩) hle'
    rw [hst]
    exact hr

/-- **`safe_write`** of what was stored last. -/
theorem meets_safeWrite {chan : Chan} {call : Nat → Nat → TeeRun (Except Errno Nat)}
    (hcall : Calls chan call) (hchan : chan ≠ .stdin) {off count : Nat}
    (hfit : off + count ≤ stored t.io) (hsize : stored t.io ≤ bufSize) :
    Meets (fun _ => True) (safeIo (fun size n => call (off + size) n) count) t
      (fun r t' => Followed t t' ∧ stored t'.io = stored t.io ∧ ∃ n, Moved count n r)
      (CutIn (Followed t)) := by
  refine meets_safeIo
    (fun size s => Followed t s ∧ stored s.io = stored t.io ∧ size ≤ count)
    (fun _ s hs => cutIn_cut hs.1) (fun size s hs => ?_) ⟨Followed.refl t, rfl, Nat.zero_le _⟩
  obtain ⟨hf, hst, hle⟩ := hs
  refine hcall _ _ _ _ _ (by omega) (cutIn_cut hf) (cutIn_stuck hf) fun r s' hn hr => ?_
  have hwithin : Io.Within (stored s.io) ⟨chan, off + size, count - size, r⟩ :=
    ⟨by dsimp only; omega, fun _ => by dsimp only; omega⟩
  have hf' := hf.noted hn hwithin
  have hst' : stored s'.io = stored t.io := by rw [hn.io, stored_write hchan, hst]
  cases r with
  | error e =>
    exact elim_repeatOr_error (fun _ => ⟨hf', hst', hle⟩)
      (fun _ _ hr => ⟨hf', hst', size, hr⟩) hle
  | ok n =>
    have hn := hr n rfl
    have hle' : size + n ≤ count := by omega
    exact elim_repeatOr_ok ⟨hf', hst', hle'⟩ (fun hr _ => ⟨hf', hst', _, hr⟩) hle'

/-! ### The three phases -/

/-- The counters are in order, and the bytes in front of `buf_read` are stored. -/
structure Counted (t : Tee) : Prop extends InBuf t where
  covered : t.bufRead ≤ stored t.io
  size : stored t.io ≤ bufSize

theorem counted_start (S : List Byte) (pid : Int) (input : Input) (room : Nat) :
    Counted { Tee.start S pid with input := input, room := room } :=
  ⟨⟨contained_nil, Int.le_refl 0, Int.le_refl 0⟩, Int.le_refl 0, Nat.zero_le _⟩

theorem Counted.followed (h : Counted t) (h' : Followed t t') (hst : stored t'.io = stored t.io) :
    Counted t' where
  toInBuf := h.toInBuf.followed h'
  covered := by
    rw [h'.bufRead, hst]
    exact h.covered
  size := hst ▸ h.size

/-- What is left of the buffer is a size, and it is behind what was written. -/
theorem Counted.rest (h : Counted t) :
    t.bufWrite.toNat + sizeT (t.bufRead - t.bufWrite) = t.bufRead.toNat ∧
      t.bufRead.toNat ≤ stored t.io := by
  have hcov := h.covered
  have hnonneg := h.nonneg
  have hle := h.le
  have hsize := h.size
  have hbuf : bufSize = 32768 := rfl
  rw [sizeT]
  omega

theorem Counted.leave (h : Counted t) (pipe : InfoPipe) : Counted (pipe.leave t) :=
  ⟨⟨h.calls, h.nonneg, h.le⟩, h.covered, h.size⟩

theorem Counted.withPid (h : Counted t) (pid : Int) : Counted { t with pid := pid } :=
  ⟨⟨h.calls, h.nonneg, h.le⟩, h.covered, h.size⟩

theorem meets_feedTurn (h : Counted t) (tries : Nat) :
    Meets (fun _ => True) (feedTurn tries) t (fun _ t' => Counted t') (CutIn InBuf) := by
  rw [feedTurn]
  split
  · obtain ⟨hrest, hle⟩ := h.rest
    refine meets_bind (meets_get ?_)
    have hwrite : Meets (fun _ => True) (safeWriteInfo t.bufWrite.toNat _) t _ (CutIn (Followed t)) :=
      meets_safeWrite calls_info (by decide) (hrest.le.trans hle) h.size
    refine (hwrite.mono (fun _ _ hr => hr) fun _ _ hk => hk.mono fun _ => h.toInBuf.followed).andThen
      fun r t₁ hr => ?_
    obtain ⟨hf, hst, n, hn, hres⟩ := hr
    have hmoved : r.toOption.getD 0 = n := by
      rcases hres with rfl | ⟨rfl, e, rfl⟩
      · rfl
      · rfl
    have h1 := h.followed hf hst
    have h2 : Counted { t₁ with bufWrite := t₁.bufWrite + n } := by
      have hread := hf.bufRead
      have hwritten := hf.bufWrite
      have hnonneg := h.nonneg
      have hlt := h.le
      refine ⟨⟨h1.calls, ?_, ?_⟩, h1.covered, h1.size⟩
      · dsimp only
        omega
      · dsimp only
        omega
    rw [hmoved]
    refine meets_bind (meets_modify ((meets_readPid (cutIn_cut h2.toInBuf)).andThen fun pid t₃ h3 => ?_))
    obtain ⟨p, rfl⟩ := h3
    have h3 := h2.withPid p
    split
    · exact meets_pure h3
    · rcases hres with rfl | ⟨-, e, rfl⟩
      · exact meets_pure h3
      · cases e <;> exact meets_pure h3
  · exact meets_pure h

/-- What follows the first `safe_read`, if that has not failed. -/
theorem meets_feeding (h : Counted t) (tries : Nat) :
    Meets (fun _ => True) (forever feedTurn tries) t (fun _ t' => Counted t') (CutIn InBuf) :=
  meets_forever_inv Counted (fun _ h => cutIn_cut h.toInBuf) (fun tries _ h => meets_feedTurn h tries) h

theorem meets_catchUp (h : Counted t) (libunwind infoFd : Bool) :
    Meets (fun _ => True) (catchUp libunwind infoFd) t (fun _ t' => InBuf t') (CutIn InBuf) := by
  rw [catchUp]
  split
  swap
  · exact meets_pure h.toInBuf
  split
  swap
  · exact meets_modify ⟨h.calls, h.nonneg, h.le⟩
  have hblock : Meets (fun _ => True) blockfd t (fun _ t' => Counted t') (CutIn InBuf) := by
    refine meets_bind (meets_ask (fun a _ => ?_) (cutIn_cut h.toInBuf))
    have hset : Counted { t with nonblock := false } :=
      ⟨⟨h.calls, h.nonneg, h.le⟩, h.covered, h.size⟩
    cases a with
    | err e => exact meets_pure h
    | ok | amount k | prepared p | thread a | status b n => exact meets_modify hset
  refine hblock.andThen fun _ t₁ h1 => meets_bind (meets_get ?_)
  have hcount : 0 + sizeT t₁.bufRead ≤ stored t₁.io := by
    have hcov := h1.covered
    have hnonneg := h1.nonneg
    have hle := h1.le
    have hsize := h1.size
    have hbuf : bufSize = 32768 := rfl
    rw [sizeT]
    omega
  have hcore : Meets (fun _ => True) (safeWriteCore 0 (sizeT t₁.bufRead)) t₁ _
      (CutIn (Followed t₁)) := meets_safeWrite calls_core (by decide) hcount h1.size
  refine (hcore.mono (fun _ _ hr => hr) fun _ _ hk => hk.mono fun _ => h1.toInBuf.followed).andThen
    fun _ t₂ hr => ?_
  obtain ⟨hf, hst, -⟩ := hr
  have h2 := h1.followed hf hst
  split
  · obtain ⟨hrest, hle⟩ := h2.rest
    rw [hf.bufRead, hf.bufWrite] at hrest
    have hinfo : Meets (fun _ => True) (safeWriteInfo t₁.bufWrite.toNat _) t₂ _
        (CutIn (Followed t₂)) :=
      meets_safeWrite calls_info (by decide) (hrest.le.trans (hf.bufRead ▸ hle)) h2.size
    refine (hinfo.mono (fun _ _ hr => hr) fun _ _ hk => hk.mono fun _ => h2.toInBuf.followed).andThen
      fun _ t₃ hr => meets_pure (h2.toInBuf.followed hr.1)
  · exact meets_pure h2.toInBuf

/-- **A turn of the copy loop.** -/
theorem meets_copyTurn (t : Tee) (infoFd : Bool) :
    Meets (fun _ => True) (copyTurn infoFd) t (fun _ t' => Followed t t') (CutIn (Followed t)) := by
  refine (meets_safeRead t).andThen fun r t₁ hr => ?_
  obtain ⟨h1, hmoved⟩ := hr
  cases r with
  | error e => exact meets_pure h1
  | ok n =>
    obtain rfl : n = stored t₁.io := hmoved.eq_of_ok
    have hle : stored t₁.io ≤ bufSize := hmoved.1
    dsimp only
    split
    · have hcore : Meets (fun _ => True) (safeWriteCore 0 (stored t₁.io)) t₁ _
          (CutIn (Followed t₁)) :=
        meets_safeWrite calls_core (by decide) (Nat.le_of_eq (Nat.zero_add _)) hle
      refine (hcore.mono (fun _ _ hr => hr) fun _ _ hk => hk.mono fun _ => h1.trans).andThen
        fun _ t₂ hr => ?_
      obtain ⟨hf, hst, -⟩ := hr
      have h2 := h1.trans hf
      split
      · have hinfo : Meets (fun _ => True) (safeWriteInfo 0 (stored t₁.io)) t₂ _
            (CutIn (Followed t₂)) :=
          meets_safeWrite calls_info (by decide) (by rw [hst, Nat.zero_add]) (by rw [hst]; exact hle)
        refine (hinfo.mono (fun _ _ hr => hr) fun _ _ hk => hk.mono fun _ => h2.trans).andThen
          fun _ t₃ hr => meets_pure (h2.trans hr.1)
      · exact meets_pure h2
    · exact meets_pure h1

theorem meets_copying (t : Tee) (infoFd : Bool) :
    Meets (fun _ => True) (forever (fun _ => copyTurn infoFd) ()) t (fun _ t' => Followed t t')
      (CutIn (Followed t)) :=
  meets_forever_inv (Followed t) (fun _ h => cutIn_cut h) (fun _ _ h =>
    (meets_copyTurn _ infoFd).mono (fun _ _ hr => h.trans hr)
      fun _ _ hk => hk.mono fun _ => h.trans) (Followed.refl t)

theorem meets_transfer (h : Counted t) (libunwind infoFd : Bool) :
    Meets (fun _ => True) (transfer libunwind infoFd) t (fun _ t' => InBuf t') (CutIn InBuf) :=
  (meets_catchUp h libunwind infoFd).andThen fun _ _ h1 =>
    (meets_copying _ infoFd).mono (fun _ _ hr => h1.followed hr)
      fun _ _ hk => hk.mono fun _ => h1.followed

/-! ### The first read -/

section First

abbrev readTurn (size : Nat) : TeeRun (Nat ⊕ Except Errno Nat) := do
  return repeatOr bufSize size (← read size (bufSize - size))

theorem asks_read (off count : Nat) : Asks 1 (read off count) := by
  refine asks_bind (k := 0) asks_ask fun a => asks_bind (j := 0) (k := 0) asks_get fun t => ?_
  cases t.readRes a count with
  | none => exact asks_stuck
  | some r =>
    cases r with
    | error e => exact asks_bind (j := 0) (k := 0) (asks_modify _) fun _ => asks_pure _
    | ok n => exact asks_bind (j := 0) (k := 0) (asks_modify _) fun _ => asks_pure _

theorem asking_readTurn : Asking readTurn := by
  intro size t o b t' o' hrun
  exact asks_bind (k := 0) (asks_read _ _) (fun _ => asks_pure _) t o _ t' o' hrun

theorem leads_readTurn {size : Nat} (h : 0 < size) (t : Tee) :
    Leads (forever readTurn size) t fun r _ => ∃ n, r = .ok n := by
  refine meets_forever (fun size _ => 0 < size) (fun _ _ _ => trivial) (fun size t hpos => ?_) h
  refine (leads_any (read _ _) t).andThen fun r t' _ => meets_pure ?_
  cases r with
  | error e =>
    rw [repeatOr]
    split
    · exact hpos
    · rw [if_neg (Nat.ne_of_gt hpos)]
      exact ⟨size, rfl⟩
  | ok n =>
    rw [repeatOr]
    split
    · exact Nat.lt_add_right n hpos
    · exact ⟨size + n, rfl⟩

/-- A first call that does not fail makes the whole of `safe_read` succeed. -/
theorem leads_safeRead_ok {a : Answer} {t : Tee}
    (hfirst : ∀ e, t.readRes a (bufSize - 0) ≠ some (.error e)) (o : List Answer) :
    ∀ e t' o', safeRead bufSize t (a :: o) ≠ .done (.error e) t' o' := by
  intro e t' o' hrun
  have hread := read_cons 0 (bufSize - 0) t a o
  cases hres : t.readRes a (bufSize - 0) with
  | none =>
    rw [hres] at hread
    have hturn : readTurn 0 t (a :: o) = .stop .stuck t := bind_of_stop hread
    cases (forever_stop hturn).symm.trans hrun
  | some r =>
  cases r with
  | error e => exact hfirst e hres
  | ok n =>
  rw [hres] at hread
  obtain ⟨t₁, hturn⟩ : ∃ t₁, readTurn 0 t (a :: o) =
      .done (repeatOr bufSize 0 (.ok n)) t₁ o := by
    rw [readTurn, bind_of_done hread]
    exact ⟨_, rfl⟩
  rw [repeatOr] at hturn
  split at hturn
  · rename_i hn
    have hrest := forever_inl asking_readTurn hturn
    have hok := (leads_readTurn (Nat.lt_add_left 0 hn.1) t₁).of_done (fun _ _ => trivial)
      (hrest.symm.trans hrun)
    obtain ⟨m, hm⟩ := hok
    cases hm
  · have hdone := forever_inr hturn
    cases hdone.symm.trans hrun

theorem eq_of_readRes_eintr {t : Tee} {a : Answer} {count : Nat}
    (h : t.readRes a count = some (.error .eintr)) : a = .err .eintr := by
  unfold Tee.readRes at h
  cases a with
  | err e =>
    cases h
    rfl
  | ok | amount k | prepared p | thread a | status b n =>
    revert h
    cases t.input with
    | pipe => cases t.infoOpen <;> simp
    | core | idle | nothing | refused => simp

/-- A first call that fails is all of `safe_read`, if no signal was the reason. -/
theorem safeRead_error {a : Answer} {t : Tee} {e : Errno} (he : e ≠ .eintr)
    (hfirst : t.readRes a (bufSize - 0) = some (.error e)) (o : List Answer) :
    ∃ t', safeRead bufSize t (a :: o) = .done (.error e) t' o := by
  have hread := read_cons 0 (bufSize - 0) t a o
  rw [hfirst] at hread
  have hturn : readTurn 0 t (a :: o) =
      .done (.inr (.error e)) (t.record ⟨.stdin, 0, bufSize, .error e⟩) o := by
    rw [readTurn, bind_of_done hread, repeatOr, if_neg he, if_pos rfl]
    rfl
  exact ⟨_, forever_inr hturn⟩

/-- What the first answer says of it, if it is no signal. -/
theorem firstReadFails_cons {a : Answer} (ha : a ≠ .err .eintr) (t : Tee) (o : List Answer)
    (count : Nat) : FirstReadFails t.input (a :: o) ↔
      ∃ e, e ≠ .eintr ∧ t.readRes a count = some (.error e) := by
  unfold Tee.readRes
  cases a with
  | err e =>
    have he : e ≠ .eintr := fun heq => ha (congrArg Answer.err heq)
    refine iff_of_true ?_ ⟨e, he, rfl⟩
    cases e with
    | eintr => exact absurd rfl he
    | _ => trivial
  | ok | amount k | prepared p | thread a | status b n =>
    show t.input = .refused ↔ _
    cases t.input with
    | pipe => cases t.infoOpen <;> simp
    | core | idle | nothing | refused => simp

/-- **When the first `safe_read` fails.** -/
theorem firstReadFails_iff {t : Tee} (o : List Answer) :
    FirstReadFails t.input o ↔ ∃ e t' o', safeRead bufSize t o = .done (.error e) t' o' := by
  induction o generalizing t with
  | nil =>
    have hturn : readTurn 0 t [] = .stop .cut t := rfl
    have hcut : safeRead bufSize t [] = .stop .cut t := forever_stop hturn
    rw [hcut]
    refine ⟨False.elim, ?_⟩
    rintro ⟨e, t', o', hrun⟩
    cases hrun
  | cons a o ih =>
    by_cases ha : a = .err .eintr
    · subst ha
      have hturn : readTurn 0 t (.err .eintr :: o) =
          .done (.inl 0) (t.record ⟨.stdin, 0, bufSize, .error .eintr⟩) o := rfl
      have hrest : safeRead bufSize t (.err .eintr :: o) = safeRead bufSize _ o :=
        forever_inl asking_readTurn hturn
      rw [hrest]
      exact ih (t := t.record ⟨.stdin, 0, bufSize, .error .eintr⟩)
    · rw [firstReadFails_cons ha t o (bufSize - 0)]
      constructor
      · rintro ⟨e, he, hfirst⟩
        obtain ⟨t', hrun⟩ := safeRead_error he hfirst o
        exact ⟨e, t', o, hrun⟩
      · rintro ⟨e, t', o', hrun⟩
        by_contra hno
        refine leads_safeRead_ok (fun e he => hno ⟨e, fun heq => ?_, he⟩) o e t' o' hrun
        subst heq
        exact ha (eq_of_readRes_eintr he)

end First

/-! ### The whole copying -/

section Whole

variable {S : List Byte} {pid : Int} {o : List Answer}

abbrev Sound {α : Type} (m : TeeRun α) (t : Tee) (Q : α → Tee → Prop) : Prop :=
  Meets (fun _ => True) m t Q fun why _ => ∀ f, why ≠ .fault f

theorem not_faults_stop {α : Type} {why : Stop Fault} (h : ∀ f, why ≠ .fault f) (t : Tee) (f : Fault) :
    ¬(Res.stop why t : Res Answer Fault Tee α).Faults f := by
  cases why with
  | cut | stuck => exact id
  | fault f' => exact absurd rfl (h f')

theorem Sound.not_faults {α : Type} {m : TeeRun α} {Q : α → Tee → Prop} (h : Sound m t Q)
    (o : List Answer) (f : Fault) : ¬(m t o).Faults f := by
  have hm := h o fun _ _ => trivial
  cases hrun : m t o with
  | done a t' rest => exact id
  | stop why t' =>
    rw [hrun] at hm
    exact not_faults_stop hm t' f

theorem cutIn_of_meets {α : Type} {m : TeeRun α} {I : Tee → Prop}
    (h : Meets (fun _ => True) m t (fun _ t' => I t') (CutIn I)) (o : List Answer) :
    I (m t o).state :=
  Meets.state (h.mono (fun _ _ hr => hr) fun _ _ hk => hk.2) o

theorem tee_thread (libunwind : Bool) : tee libunwind .thread = safeRead bufSize >>= fun rtn =>
    feedRest rtn >>= fun _ => transfer libunwind true := by
  have hfeed : feed = safeRead bufSize >>= feedRest := rfl
  rw [tee, if_pos rfl, hfeed]
  simp only [bind_assoc]
  rfl

theorem meets_feedRest {n : Nat} (h : Contained t.io) (hn : n = stored t.io) (hle : n ≤ bufSize) :
    Meets (fun _ => True) (feedRest (.ok n)) t (fun _ t' => Counted t') (CutIn InBuf) := by
  subst hn
  have hcounted : Counted { t with bufRead := ssizeT (.ok (stored t.io)), bufWrite := 0 } :=
    ⟨⟨h, Int.le_refl 0, Int.natCast_nonneg _⟩, Int.le_refl _, hle⟩
  refine meets_bind (meets_modify (meets_bind (meets_get ?_)))
  split
  · exact meets_pure hcounted
  · exact (meets_feeding hcounted 0).andThen fun _ _ h' => meets_pure h'

theorem varsOnly_bufRead (n : Int) : VarsOnly fun t => t.bufRead = n where
  same := fun _ _ ht _ heq _ => heq.trans ht
  found := fun _ _ ht _ => ht

theorem minding_transfer {J : Tee → Prop} (hJ : VarsOnly J) (libunwind infoFd : Bool) :
    Minding (fun _ => True) J (transfer libunwind infoFd) := by
  refine always_bind (minding_catchUp stops_any hJ _ _) fun _ _ => ?_
  refine always_forever (fun _ => True) trivial (fun _ _ => ?_) trivial
  refine (minding_copyTurn stops_any hJ infoFd).mono fun r _ => ?_
  cases r <;> trivial

theorem tee_inBuf {t : Tee} (hstart : Counted t) {libunwind : Bool} {pipe : InfoPipe}
    (h : pipe = .thread → ¬FirstReadFails t.input o) : InBuf (tee libunwind pipe t o).state := by
  by_cases hpipe : pipe = .thread
  · subst hpipe
    have hread := meets_safeRead t o fun _ _ => trivial
    rw [tee_thread]
    cases hrun : safeRead bufSize t o with
    | stop why t₁ =>
      rw [hrun] at hread
      rw [bind_of_stop hrun]
      exact hstart.toInBuf.followed hread.2
    | done r t₁ o₁ =>
      rw [hrun] at hread
      obtain ⟨-, hf, hmoved⟩ := hread
      rw [bind_of_done hrun]
      cases r with
      | error e =>
        exact absurd ((firstReadFails_iff o).mpr ⟨e, t₁, o₁, hrun⟩) (h rfl)
      | ok n =>
        have hn : n = stored t₁.io := hmoved.eq_of_ok
        have hcalls := hf.calls hstart.calls
        exact cutIn_of_meets ((meets_feedRest hcalls hn (hn ▸ hmoved.1)).andThen fun _ t₂ h2 =>
          meets_transfer h2 libunwind true) o₁
  · rw [tee, if_neg hpipe]
    exact cutIn_of_meets (meets_transfer (hstart.leave pipe) libunwind _) o

/-- A size that is no `ssize_t` makes the call fail at once. -/
theorem meets_safeWriteCore_large {off count : Nat} (hlarge : 2 ^ 63 ≤ count) (t : Tee) :
    Meets (fun _ => True) (safeWriteCore off count) t
      (fun _ t' => t' = t.record ⟨.core, off, count, .error .other⟩) (CutIn (· = t)) := by
  refine meets_safeIo (fun size s => size = 0 ∧ s = t) (fun _ _ hs => cutIn_cut hs.2)
    (fun size s hs => ?_) ⟨rfl, rfl⟩
  obtain ⟨rfl, rfl⟩ := hs
  refine meets_bind (meets_ask (fun w _ => meets_bind (meets_modify ?_)) (cutIn_cut rfl))
  have hres : coreRes w (count - 0) = .error .other := if_pos hlarge
  rw [hres]
  exact meets_pure rfl

/-- What is caught up on behind a first read that has failed. -/
theorem meets_catchUp_failed {t : Tee} (hread : t.bufRead = -1) (hwrite : t.bufWrite = 0) :
    Meets (fun _ => True) (catchUp true true) t
      (fun _ t' => ∃ b, t' = { t with nonblock := b }.record ⟨.core, 0, 2 ^ 64 - 1, .error .other⟩)
      (CutIn fun t' => t'.core = t.core) := by
  have hblock : Meets (fun _ => True) blockfd t (fun _ t' => ∃ b, t' = { t with nonblock := b })
      (CutIn fun t' => t'.core = t.core) := by
    refine meets_bind (meets_ask (fun a _ => ?_) (cutIn_cut rfl))
    cases a with
    | err e => exact meets_pure ⟨t.nonblock, rfl⟩
    | ok | amount k | prepared p | thread a | status b n => exact meets_modify ⟨false, rfl⟩
  refine hblock.andThen ?_
  rintro _ _ ⟨b, rfl⟩
  have hsize : sizeT t.bufRead = 2 ^ 64 - 1 := by
    rw [hread]
    rfl
  refine meets_bind (meets_get ?_)
  dsimp only
  rw [hsize]
  refine ((meets_safeWriteCore_large (by decide) _).mono (fun _ _ hq => hq) fun _ _ hk =>
    hk.mono fun _ heq => congrArg Tee.core heq).andThen fun _ t₁ h1 => ?_
  rw [if_neg (by rw [hread, hwrite]; decide)]
  exact meets_pure ⟨b, h1⟩

/-- **No run comes to a fault**, not even behind a first read that has failed. -/
theorem tee_not_faults {t : Tee} (h : Counted t) (libunwind : Bool) (pipe : InfoPipe)
    (o : List Answer) (f : Fault) : ¬(tee libunwind pipe t o).Faults f := by
  have hsound : ∀ {α : Type} {m : TeeRun α} {t : Tee} {I : Tee → Prop} {Q : α → Tee → Prop},
      Meets (fun _ => True) m t Q (CutIn I) → Sound m t Q :=
    fun hm => hm.mono (fun _ _ hq => hq) fun _ _ hk => hk.1
  by_cases hpipe : pipe = .thread
  swap
  · rw [tee, if_neg hpipe]
    exact (hsound (meets_bind (meets_modify
      (meets_transfer (h.leave pipe) libunwind _)))).not_faults o f
  subst hpipe
  rw [tee_thread]
  have hrun : Sound (safeRead bufSize >>= fun rtn => feedRest rtn >>= fun _ =>
      transfer libunwind true) t fun _ _ => True := by
    refine (hsound (meets_safeRead t)).andThen fun r t₁ hr => ?_
    obtain ⟨hf, hmoved⟩ := hr
    cases r with
    | ok n =>
      have hn : n = stored t₁.io := hmoved.eq_of_ok
      refine (hsound (meets_feedRest (hf.calls h.calls) hn (hn ▸ hmoved.1))).andThen fun _ t₂ h2 => ?_
      exact (hsound (meets_transfer h2 libunwind true)).imp fun _ _ _ => trivial
    | error e =>
      refine meets_bind (meets_bind (meets_modify (meets_bind (meets_get (meets_pure ?_)))))
      have hcopy : ∀ t, Sound (forever (fun _ => copyTurn true) ()) t fun _ _ => True :=
        fun t => (hsound (meets_copying t true)).imp fun _ _ _ => trivial
      cases libunwind with
      | false => exact meets_bind (meets_modify (hcopy _))
      | true => exact (hsound (meets_catchUp_failed rfl rfl)).andThen fun _ t₂ _ => hcopy t₂
  exact hrun.not_faults o f

theorem tee_bufRead {t : Tee} {libunwind : Bool} (h : FirstReadFails t.input o) :
    (tee libunwind .thread t o).state.bufRead = -1 := by
  obtain ⟨e, t₁, o₁, hrun⟩ := (firstReadFails_iff o).mp h
  have hfeed : feedRest (.error e) t₁ o₁ =
      .done false { t₁ with bufRead := -1, bufWrite := 0 } o₁ := rfl
  rw [tee_thread, bind_of_done hrun, bind_of_done hfeed]
  have hkeep := minding_transfer (varsOnly_bufRead (-1)) libunwind true
    { t₁ with bufRead := -1, bufWrite := 0 } rfl
  exact Meets.state (hkeep.mono (fun _ _ hr => hr.1) fun _ _ hk => hk.2) o₁

/-- **Every transfer stays inside of the buffer just if the first `safe_read` does not
fail**, where it feeds the thread; descriptor 0 may be anything. -/
theorem inBuf_iff (S : List Byte) (pid : Int) (input : Input) (libunwind : Bool) (pipe : InfoPipe)
    (o : List Answer) :
    InBuf (tee libunwind pipe { Tee.start S pid with input := input } o).state ↔
      ¬(pipe = .thread ∧ FirstReadFails input o) := by
  constructor
  · rintro h ⟨rfl, hfails⟩
    have hread : (tee libunwind .thread { Tee.start S pid with input := input } o).state.bufRead =
        -1 := tee_bufRead hfails
    have hnonneg := h.nonneg.trans h.le
    rw [hread] at hnonneg
    exact absurd hnonneg (by decide)
  · exact fun h => tee_inBuf (counted_start S pid input _) fun hpipe hfails => h ⟨hpipe, hfails⟩

/-- The first read fails; what `main` catches up on is SIZE_MAX bytes of the buffer. -/
theorem not_inBuf :
    ⟨.core, 0, 2 ^ 64 - 1, .error .other⟩ ∈
        (tee true .thread (Tee.start [] 1) [.err .other, .ok, .ok]).state.io ∧
      ¬InBuf (tee true .thread (Tee.start [] 1) [.err .other, .ok, .ok]).state := by
  have hmem : ⟨.core, 0, 2 ^ 64 - 1, .error .other⟩ ∈
      (tee true .thread (Tee.start [] 1) [.err .other, .ok, .ok]).state.io := by
    decide
  refine ⟨hmem, fun h => ?_⟩
  obtain ⟨pre, hwithin, -⟩ := h.calls.of_mem hmem
  exact absurd hwithin (by decide)

end Whole

end Crashinfo
