import Crashinfo.Main.Tee
import Mathlib.Data.List.TakeDrop

/-!
# What the copying brings to its two sinks

Each call moves some part of `buf`, so what a sink has got is described by how
far `safe_write` came.  `meets_read`, `meets_writeCore` and `meets_writeInfo` say
what one call can do; with them `meets_safeIo` gives the same for `safe_read`
and `safe_write`, and `copyTurn_keeps` for a turn of the copy loop.

A run is `Quiet` if no call on descriptor 0 or on the core output has failed
other than by a signal, and `Calm` if besides the info pipe has only failed by
a signal, by being full or by being broken.
-/

namespace Crashinfo

open Script Script.Run

def Io.error (e : Io) : Option Errno :=
  match e.res with
  | .ok _ => none
  | .error x => some x

/-- No failure on descriptor 0 or on the core output, signals apart. -/
def Io.Quiet (e : Io) : Prop := e.chan ≠ .info → ∀ x ∈ e.error, x = .eintr

/-- No failure, except that the info pipe may be full or broken. -/
def Io.Calm (e : Io) : Prop :=
  ∀ x ∈ e.error, x = .eintr ∨ e.chan = .info ∧ (x = .eagain ∨ x = .epipe)

def Quiet (io : List Io) : Prop := ∀ e ∈ io, e.Quiet

def Calm (io : List Io) : Prop := ∀ e ∈ io, e.Calm

instance (e : Io) : Decidable e.Quiet :=
  inferInstanceAs (Decidable (e.chan ≠ .info → ∀ x ∈ e.error, x = .eintr))

instance (e : Io) : Decidable e.Calm :=
  inferInstanceAs (Decidable
    (∀ x ∈ e.error, x = .eintr ∨ e.chan = .info ∧ (x = .eagain ∨ x = .epipe)))

instance (io : List Io) : Decidable (Quiet io) := inferInstanceAs (Decidable (∀ e ∈ io, e.Quiet))

instance (io : List Io) : Decidable (Calm io) := inferInstanceAs (Decidable (∀ e ∈ io, e.Calm))

theorem Io.Calm.quiet {e : Io} (h : e.Calm) : e.Quiet := by
  intro hc x hx
  rcases h x hx with h | h
  · exact h
  · exact absurd h.1 hc

theorem Calm.quiet {io : List Io} (h : Calm io) : Quiet io := fun e he => (h e he).quiet

theorem Quiet.before {io io' : List Io} (h : Quiet io') (hp : io <+: io') : Quiet io :=
  fun e he => h e (hp.subset he)

theorem Calm.before {io io' : List Io} (h : Calm io') (hp : io <+: io') : Calm io :=
  fun e he => h e (hp.subset he)

/-! ### The array -/

@[simp] theorem slice_zero (b : List Byte) (off : Nat) : slice b off 0 = [] := rfl

@[simp] theorem length_slice (b : List Byte) (off n : Nat) : (slice b off n).length = n :=
  List.takeD_length n _ 0

theorem takeD_add (l : List Byte) (m n : Nat) :
    l.takeD (m + n) 0 = l.takeD m 0 ++ (l.drop m).takeD n 0 := by
  induction m generalizing l with
  | zero => rw [Nat.zero_add, List.takeD_zero, List.nil_append, List.drop_zero]
  | succ m ih =>
    rw [Nat.succ_add, List.takeD_succ, List.takeD_succ, ih, List.cons_append, List.drop_tail]

/-- A part of the array is the part before it and the part behind it. -/
theorem slice_add (b : List Byte) (off m n : Nat) :
    slice b off (m + n) = slice b off m ++ slice b (off + m) n := by
  rw [slice, takeD_add, List.drop_drop, slice, slice]

theorem slice_of_take {b l : List Byte} {off m n : Nat} (h : off + m ≤ n) (hn : n ≤ b.length)
    (hb : b.take n = l.take n) : slice b off m = (l.drop off).take m := by
  have hlen : m ≤ (b.drop off).length := by rw [List.length_drop]; omega
  have hfront : b.take (off + m) = l.take (off + m) := by
    rw [← Nat.min_eq_left h, ← List.take_take, hb, List.take_take]
  rw [slice, List.takeD_eq_take 0 hlen, List.take_drop, hfront, List.take_drop]

/-- What was read stays in front of what is read behind it. -/
theorem take_overwrite {b : List Byte} {off : Nat} (h : off ≤ b.length) (data : List Byte) :
    (overwrite b off data).take (off + data.length) = b.take off ++ data := by
  have hlen : (b.take off ++ data).length = off + data.length := by
    rw [List.length_append, List.length_take, Nat.min_eq_left h]
  rw [overwrite, List.takeD_eq_take 0 h, ← hlen, List.take_left]

theorem le_length_overwrite (b data : List Byte) (off : Nat) :
    off + data.length ≤ (overwrite b off data).length := by
  rw [overwrite, List.length_append, List.length_append, List.takeD_length]
  omega

/-- The core is on descriptor 0, and the info pipe has a reader. -/
structure Tee.Served (t : Tee) : Prop where
  input : t.input = .core
  read : t.unread = false

/-! ### One call -/

variable {P : Answer → Prop}

theorem readRes_cases (t : Tee) (w : Answer) (count : Nat) :
    t.readRes w count = none ∧ t.input ≠ .core ∨ (∃ e, t.readRes w count = some (.error e)) ∨
    ∃ n, t.readRes w count = some (.ok n) ∧ n ≤ min count t.stdin.length ∧
      (t.input = .core → n = 0 → min count t.stdin.length = 0) := by
  unfold Tee.readRes
  split
  · exact Or.inr (Or.inl ⟨_, rfl⟩)
  cases t.input with
  | core => exact Or.inr (Or.inr ⟨_, rfl, w.atMost_le _, fun _ => Answer.atMost_eq_zero⟩)
  | pipe =>
    dsimp only
    split
    · exact Or.inl ⟨rfl, nofun⟩
    · exact Or.inr (Or.inr ⟨0, rfl, Nat.zero_le _, nofun⟩)
  | idle => exact Or.inl ⟨rfl, nofun⟩
  | nothing => exact Or.inr (Or.inr ⟨0, rfl, Nat.zero_le _, nofun⟩)
  | refused => exact Or.inr (Or.inl ⟨_, rfl⟩)

theorem readRes_core {t : Tee} (hin : t.input = .core) {w : Answer} (hw : NoErr w) (count : Nat) :
    t.readRes w count = some (.ok (w.atMost (min count t.stdin.length))) := by
  unfold Tee.readRes
  rw [hin]
  cases w with
  | err e => exact absurd rfl (hw e)
  | ok | amount k | prepared p | thread a | status b n => rfl

theorem read_cons (off count : Nat) (t : Tee) (w : Answer) (o : List Answer) :
    read off count t (w :: o) =
      match t.readRes w count with
      | none => .stop .stuck t
      | some (.error e) => .done (.error e) (t.record ⟨.stdin, off, count, .error e⟩) o
      | some (.ok n) => .done (.ok n)
          ({ t with stdin := t.stdin.drop n, buf := overwrite t.buf off (t.stdin.take n) }.record
            ⟨.stdin, off, count, .ok n⟩) o := by
  have hask : (ask : TeeRun Answer) t (w :: o) = .done w t o := rfl
  have hget : (get : TeeRun Tee) t o = .done t t o := rfl
  rw [read, bind_of_done hask, bind_of_done hget]
  cases t.readRes w count with
  | none => rfl
  | some r => cases r <;> rfl

/-- What a call of `read` can do; it may be cut off, or never return. -/
theorem meets_read {off count : Nat} {t : Tee} {Q : Except Errno Nat → Tee → Prop}
    {K : Stop Fault → Tee → Prop} (hcut : K .cut t) (hstuck : t.input ≠ .core → K .stuck t)
    (herr : ∀ e, Q (.error e) { t with io := t.io ++ [⟨.stdin, off, count, .error e⟩] })
    (hok : ∀ n, n ≤ min count t.stdin.length →
      (t.input = .core → n = 0 → min count t.stdin.length = 0) →
      Q (.ok n) { t with
        stdin := t.stdin.drop n
        buf := overwrite t.buf off (t.stdin.take n)
        io := t.io ++ [⟨.stdin, off, count, .ok n⟩] }) :
    Meets P (read off count) t Q K := by
  refine meets_bind (meets_ask (fun w _ => meets_bind (meets_get ?_)) hcut)
  rcases readRes_cases t w count with ⟨hn, hi⟩ | ⟨e, he⟩ | ⟨n, hn, hle, h0⟩
  · rw [hn]
    exact meets_stuck (hstuck hi)
  · rw [he]
    exact meets_bind (meets_modify (meets_pure (herr e)))
  · rw [hn]
    exact meets_bind (meets_modify (meets_pure (hok n hle h0)))

/-- What the system may say to a `write` on the core output. -/
theorem coreRes_cases (w : Answer) (count : Nat) :
    (∃ e, coreRes w count = .error e ∧ count ≠ 0) ∨
    ∃ n, coreRes w count = .ok n ∧ n ≤ count ∧ (n = 0 → count = 0) ∧ count < 2 ^ 63 := by
  unfold coreRes
  by_cases hbig : count ≥ 2 ^ 63
  · rw [if_pos hbig]
    exact Or.inl ⟨_, rfl, by omega⟩
  rw [if_neg hbig]
  have hall : ∀ w : Answer, ∃ n, (Except.ok (w.atMost count) : Except Errno Nat) = .ok n ∧
      n ≤ count ∧ (n = 0 → count = 0) ∧ count < 2 ^ 63 := fun w =>
    ⟨_, rfl, w.atMost_le _, Answer.atMost_eq_zero, Nat.lt_of_not_le hbig⟩
  cases w with
  | err e =>
    by_cases h0 : count = 0
    · exact Or.inr ⟨0, if_pos h0, Nat.zero_le _, fun _ => h0, Nat.lt_of_not_le hbig⟩
    · exact Or.inl ⟨e, if_neg h0, h0⟩
  | ok => exact Or.inr (hall .ok)
  | amount k => exact Or.inr (hall (.amount k))
  | prepared p => exact Or.inr (hall (.prepared p))
  | thread a => exact Or.inr (hall (.thread a))
  | status b n => exact Or.inr (hall (.status b n))

/-- What a call of `write` on the core output can do; it may be cut off, or reach out
of the buffer. -/
theorem meets_writeCore {off count : Nat} {t : Tee} {Q : Except Errno Nat → Tee → Prop}
    {K : Stop Fault → Tee → Prop} (hcut : K .cut t)
    (hout : bufSize < off + count → count < 2 ^ 63 → ∀ n,
      K (.fault .outOfBounds) { t with io := t.io ++ [⟨.core, off, count, .ok n⟩] })
    (herr : ∀ e, count ≠ 0 → Q (.error e) { t with io := t.io ++ [⟨.core, off, count, .error e⟩] })
    (hok : ∀ n, n ≤ count → (n = 0 → count = 0) →
      Q (.ok n) { t with
        core := t.core ++ slice t.buf off n
        io := t.io ++ [⟨.core, off, count, .ok n⟩] }) :
    Meets P (writeCore off count) t Q K := by
  refine meets_bind (meets_ask (fun w _ => meets_bind (meets_modify ?_)) hcut)
  rcases coreRes_cases w count with ⟨e, he, h0⟩ | ⟨n, hn, hle, h0, hsize⟩
  · rw [he]
    exact meets_pure (herr e h0)
  · rw [hn]
    dsimp only
    split
    · rename_i hlarge
      exact meets_fault (hout hlarge hsize n)
    · exact meets_bind (meets_modify (meets_pure (hok n hle h0)))

/-- What the system may say to a `write` of `count` bytes to the info pipe. -/
inductive InfoSays (t : Tee) (count : Nat) : Option (Except Errno Nat) → Prop
  | waits (hunread : t.unread = true) (hblock : t.nonblock = false)
      (hfull : t.room - t.info.length < count) : InfoSays t count none
  | error (e : Errno) (hagain : e = .eagain → t.nonblock = true)
      (hpipe : e = .epipe → t.unread = true → t.broken = true) : InfoSays t count (some (.error e))
  | ok (n : Nat) (hle : n ≤ count) (hzero : n = 0 → count = 0) (hbroken : t.broken = true → n = 0)
      (hroom : t.unread = true → n ≤ t.room - t.info.length) : InfoSays t count (some (.ok n))

theorem fill_says {t : Tee} {n count : Nat} (hn : n ≤ count) (h0 : n = 0 → count = 0)
    (hb : t.broken = false) : InfoSays t count (t.fill n) := by
  have hbroken : ∀ {m : Nat}, t.broken = true → m = 0 := fun h => by rw [hb] at h; cases h
  unfold Tee.fill
  dsimp only
  split
  · rename_i hfree
    refine .ok n hn h0 hbroken fun hu => hfree.resolve_left ?_
    rw [hu]
    exact nofun
  rename_i hfree
  rw [not_or, Nat.not_le] at hfree
  obtain ⟨hu, hfull⟩ := hfree
  split
  · rename_i hblock
    split
    · exact .error _ (fun _ => hblock) nofun
    · exact .ok _ (by omega) (by omega) hbroken fun _ => Nat.le_refl _
  · rename_i hblock
    exact .waits (by simpa using hu) (by simpa using hblock) (by omega)

theorem infoRes_says (t : Tee) (w : Answer) (count : Nat) :
    InfoSays t count (t.infoRes w count) := by
  unfold Tee.infoRes
  by_cases hopen : (!t.infoOpen) = true
  · rw [if_pos hopen]
    exact .error _ nofun nofun
  rw [if_neg hopen]
  by_cases h0 : count = 0
  · rw [if_pos h0]
    exact .ok 0 (Nat.zero_le _) (fun _ => h0) (fun _ => rfl) fun _ => Nat.zero_le _
  rw [if_neg h0]
  by_cases hb : t.broken = true
  · rw [if_pos hb]
    exact .error _ nofun fun _ _ => hb
  rw [if_neg hb]
  have hall : InfoSays t count (t.fill count) :=
    fill_says (Nat.le_refl _) id (Bool.eq_false_iff.mpr hb)
  have hpart : ∀ w : Answer, InfoSays t count (t.fill (w.atMost count)) := fun w =>
    fill_says (w.atMost_le _) Answer.atMost_eq_zero (Bool.eq_false_iff.mpr hb)
  match w with
  | .err .eagain =>
    dsimp only
    split
    · rename_i hblock
      exact .error _ (fun _ => hblock) nofun
    · exact hall
  | .err .epipe =>
    dsimp only
    split
    · exact hall
    · rename_i hu
      exact .error _ nofun fun _ h => absurd h hu
  | .err .eintr | .err .ebadf | .err .eexist | .err .enoent | .err .other =>
    exact .error _ nofun nofun
  | .ok => exact hpart .ok
  | .amount k => exact hpart (.amount k)
  | .prepared p => exact hpart (.prepared p)
  | .thread a => exact hpart (.thread a)
  | .status b n => exact hpart (.status b n)

/-- What a call of `write` on the info pipe can do; it may be cut off, never return, or
reach out of the buffer. -/
theorem meets_writeInfo {off count : Nat} {t : Tee} {Q : Except Errno Nat → Tee → Prop}
    {K : Stop Fault → Tee → Prop} (hcut : K .cut t)
    (hstuck : t.unread = true → t.nonblock = false → t.room - t.info.length < count → K .stuck t)
    (hout : bufSize < off + count → ∀ n,
      K (.fault .outOfBounds) { t with io := t.io ++ [⟨.info, off, count, .ok n⟩] })
    (herr : ∀ e, (e = .eagain → t.nonblock = true) →
      (e = .epipe → t.unread = true → t.broken = true) →
      Q (.error e) { t with
        broken := t.broken || decide (e = .epipe)
        io := t.io ++ [⟨.info, off, count, .error e⟩] })
    (hok : ∀ n, n ≤ count → (n = 0 → count = 0) → (t.broken = true → n = 0) →
      (t.unread = true → n ≤ t.room - t.info.length) →
      Q (.ok n) { t with
        info := t.info ++ slice t.buf off n
        io := t.io ++ [⟨.info, off, count, .ok n⟩] }) :
    Meets P (writeInfo off count) t Q K := by
  refine meets_bind (meets_ask (fun w _ => meets_bind (meets_get ?_)) hcut)
  have hsays := infoRes_says t w count
  generalize t.infoRes w count = r at hsays ⊢
  cases hsays with
  | waits hu hb hf => exact meets_stuck (hstuck hu hb hf)
  | error e hagain hpipe =>
    exact meets_bind (meets_modify (meets_bind (meets_modify (meets_pure (herr e hagain hpipe)))))
  | ok n hle h0 hb hr =>
    refine meets_bind (meets_modify ?_)
    dsimp only
    split
    · rename_i hlarge
      exact meets_fault (hout hlarge n)
    · exact meets_bind (meets_modify (meets_pure (hok n hle h0 hb hr)))

/-! ### `safe_read` and `safe_write` -/

/-- What is returned for `n` bytes moved out of `count`. -/
def Moved (count n : Nat) (r : Except Errno Nat) : Prop :=
  n ≤ count ∧ (r = .ok n ∨ n = 0 ∧ ∃ e, r = .error e)

theorem Moved.eq_of_ok {count m n : Nat} (h : Moved count m (.ok n)) : n = m := by
  rcases h.2 with heq | ⟨-, e, heq⟩
  · exact Except.ok.inj heq
  · cases heq

theorem Moved.eq_zero {count m : Nat} {e : Errno} (h : Moved count m (.error e)) : m = 0 := by
  rcases h.2 with heq | ⟨h0, -⟩
  · cases heq
  · exact h0

/-- **The rule for both loops**: `I size` is what holds when `size` bytes have
been moved. -/
theorem meets_safeIo {σ : Type} {io : Nat → Nat → Run Answer Fault σ (Except Errno Nat)}
    {count : Nat} {s : σ} {Q : Except Errno Nat → σ → Prop} {K : Stop Fault → σ → Prop}
    (I : Nat → σ → Prop) (hcut : ∀ size s, I size s → K .cut s)
    (hio : ∀ size s, I size s → Meets P (io size (count - size)) s
      (fun r s' => Sum.elim (I · s') (Q · s') (repeatOr count size r)) K)
    (h : I 0 s) : Meets P (safeIo io count) s Q K := by
  refine meets_forever I hcut ?_ h
  intro size s hs
  exact (hio size s hs).andThen fun _ _ hr => meets_pure hr

/-- A call that fails stops a loop that has moved `size` bytes, a signal apart. -/
theorem elim_repeatOr_error {count size : Nat} {e : Errno} {I : Nat → Prop}
    {Q : Except Errno Nat → Prop} (hI : e = .eintr → I size)
    (hQ : ∀ r, e ≠ .eintr → Moved count size r → Q r) (hc : size ≤ count) :
    Sum.elim I Q (repeatOr count size (.error e)) := by
  rw [repeatOr]
  by_cases he : e = .eintr
  · rw [if_pos he]
    exact hI he
  rw [if_neg he]
  by_cases h0 : size = 0
  · rw [if_pos h0]
    exact hQ _ he ⟨hc, Or.inr ⟨h0, e, rfl⟩⟩
  · rw [if_neg h0]
    exact hQ _ he ⟨hc, Or.inl rfl⟩

/-- A call that moves `n` bytes more stops the loop if it was the last one. -/
theorem elim_repeatOr_ok {count size n : Nat} {I : Nat → Prop} {Q : Except Errno Nat → Prop}
    (hI : I (size + n)) (hQ : Moved count (size + n) (.ok (size + n)) →
      (n = 0 ∨ size + n = count) → Q (.ok (size + n))) (hc : size + n ≤ count) :
    Sum.elim I Q (repeatOr count size (.ok n)) := by
  rw [repeatOr]
  split
  · exact hI
  · exact hQ ⟨hc, Or.inl rfl⟩ (by omega)

/-- What `safe_read` comes to: it has put the next `n` bytes of the input at the
front of `buf`. -/
def ReadAll (count : Nat) (t : Tee) (r : Except Errno Nat) (t' : Tee) : Prop :=
  ∃ n buf io, t' = { t with stdin := t.stdin.drop n, buf := buf, io := io } ∧
    n ≤ t.stdin.length ∧ n ≤ buf.length ∧ buf.take n = t.stdin.take n ∧ Moved count n r ∧
    t.io <+: io ∧
    (Quiet io → r = .ok n ∧ (t.input = .core → n = 0 → min count t.stdin.length = 0))

theorem safeRead_spec (count : Nat) (t : Tee) :
    Meets P (safeRead count) t (ReadAll count t) fun _ _ => True := by
  refine meets_safeIo (fun size s => ∃ buf io,
    s = { t with stdin := t.stdin.drop size, buf := buf, io := io } ∧
    size ≤ count ∧ size ≤ t.stdin.length ∧ size ≤ buf.length ∧
    buf.take size = t.stdin.take size ∧ t.io <+: io) (fun _ _ _ => trivial) ?_
    ⟨t.buf, t.io, rfl, Nat.zero_le _, Nat.zero_le _, Nat.zero_le _, rfl, List.prefix_refl _⟩
  rintro size s ⟨buf, io, rfl, hc, hs, hb, htake, hio⟩
  refine meets_read trivial (fun _ => trivial) ?_ ?_
  · intro e
    have hpre : t.io <+: io ++ [⟨.stdin, size, count - size, .error e⟩] :=
      hio.trans (List.prefix_append _ _)
    refine elim_repeatOr_error (fun _ => ⟨buf, _, rfl, hc, hs, hb, htake, hpre⟩) ?_ hc
    intro r he hr
    exact ⟨size, buf, _, rfl, hs, hb, htake, hr, hpre,
      fun hq => absurd (hq _ List.mem_concat_self nofun e rfl) he⟩
  · intro n hn h0
    have hpre : t.io <+: io ++ [⟨.stdin, size, count - size, .ok n⟩] :=
      hio.trans (List.prefix_append _ _)
    simp only [List.length_drop] at hn h0
    have hlen : ((t.stdin.drop size).take n).length = n := by
      rw [List.length_take, List.length_drop]
      omega
    have hbuf := le_length_overwrite buf ((t.stdin.drop size).take n) size
    have hfront := take_overwrite hb ((t.stdin.drop size).take n)
    rw [hlen] at hbuf hfront
    rw [htake, ← List.take_add] at hfront
    refine elim_repeatOr_ok
      ⟨_, _, by rw [List.drop_drop], by omega, by omega, hbuf, hfront, hpre⟩ ?_ (by omega)
    intro hr _
    exact ⟨_, _, _, by rw [List.drop_drop], by omega, hbuf, hfront, hr, hpre,
      fun _ => ⟨rfl, fun hcore h => by have := h0 hcore; omega⟩⟩

/-- The core output has failed in none of the calls, signals apart. -/
def CoreWell (io : List Io) : Prop := ∀ e ∈ io, e.chan = .core → ∀ x ∈ e.error, x = .eintr

instance (io : List Io) : Decidable (CoreWell io) :=
  inferInstanceAs (Decidable (∀ e ∈ io, e.chan = .core → ∀ x ∈ e.error, x = .eintr))

theorem coreWell_append (io io' : List Io) : CoreWell (io ++ io') ↔ CoreWell io ∧ CoreWell io' :=
  List.forall_mem_append

theorem Quiet.coreWell {io : List Io} (h : Quiet io) : CoreWell io := by
  intro e he hc
  refine h e he ?_
  rw [hc]
  nofun

/-- **`safe_write` on the core output**: all is written exactly if no call fails. -/
theorem safeWriteCore_exact (off count : Nat) (t : Tee) :
    Meets P (safeWriteCore off count) t (fun r t' => ∃ n l,
      t' = { t with core := t.core ++ slice t.buf off n, io := t.io ++ l } ∧ Moved count n r ∧
      (CoreWell l ↔ n = count)) fun _ _ => True := by
  refine meets_safeIo (fun size s => ∃ l,
    s = { t with core := t.core ++ slice t.buf off size, io := t.io ++ l } ∧
    size ≤ count ∧ CoreWell l) (fun _ _ _ => trivial) ?_
    ⟨[], by rw [slice_zero, List.append_nil, List.append_nil], Nat.zero_le _, nofun⟩
  intro size s hs
  obtain ⟨l, rfl, hc, hwell⟩ := hs
  refine meets_writeCore trivial (fun _ _ _ => trivial) ?_ ?_
  · intro e hne
    have hsnoc : CoreWell (l ++ [⟨.core, off + size, count - size, .error e⟩]) ↔ e = .eintr := by
      rw [coreWell_append, and_iff_right hwell]
      constructor
      · exact fun h => h _ (List.mem_singleton_self _) rfl e rfl
      · intro he x hx _ y hy
        rw [List.mem_singleton.mp hx] at hy
        exact (Option.some.inj hy) ▸ he
    refine elim_repeatOr_error (fun he => ⟨_, ?_, hc, hsnoc.mpr he⟩) ?_ hc
    · dsimp only
      rw [List.append_assoc]
    · intro r he hr
      refine ⟨size, _, ?_, hr, hsnoc.trans (iff_of_false he ?_)⟩
      · dsimp only
        rw [List.append_assoc]
      · omega
  · intro n hn h0
    have hsnoc : CoreWell (l ++ [⟨.core, off + size, count - size, .ok n⟩]) := by
      rw [coreWell_append]
      refine ⟨hwell, fun x hx _ y hy => ?_⟩
      rw [List.mem_singleton.mp hx] at hy
      cases hy
    have hcore : t.core ++ slice t.buf off size ++ slice t.buf (off + size) n
        = t.core ++ slice t.buf off (size + n) := by
      rw [slice_add, List.append_assoc]
    refine elim_repeatOr_ok ⟨_, ?_, by omega, hsnoc⟩ ?_ (by omega)
    · dsimp only
      rw [hcore, List.append_assoc]
    · intro hr hend
      refine ⟨size + n, _, ?_, hr, iff_of_true hsnoc (by omega)⟩
      dsimp only
      rw [hcore, List.append_assoc]

theorem safeWriteCore_spec (off count : Nat) (t : Tee) :
    Meets P (safeWriteCore off count) t (fun r t' => ∃ n io,
      t' = { t with core := t.core ++ slice t.buf off n, io := io } ∧ Moved count n r ∧
      t.io <+: io ∧ (Quiet io → n = count)) fun _ _ => True := by
  refine (safeWriteCore_exact off count t).imp fun r t' hr => ?_
  obtain ⟨n, l, rfl, hmoved, hiff⟩ := hr
  refine ⟨n, t.io ++ l, rfl, hmoved, List.prefix_append _ _, fun hq => hiff.mp ?_⟩
  exact ((coreWell_append t.io l).mp hq.coreWell).2

theorem safeWriteInfo_spec (off count : Nat) (t : Tee) :
    Meets P (safeWriteInfo off count) t (fun r t' => ∃ n broken io,
      t' = { t with info := t.info ++ slice t.buf off n, broken := broken, io := io } ∧
      Moved count n r ∧ t.io <+: io ∧ (t.broken = true → broken = true ∧ n = 0) ∧
      (Calm io → t.nonblock = false → broken = false → n = count)) fun _ _ => True := by
  refine meets_safeIo (fun size s => ∃ broken io,
    s = { t with info := t.info ++ slice t.buf off size, broken := broken, io := io } ∧
    size ≤ count ∧ t.io <+: io ∧ (t.broken = true → broken = true ∧ size = 0))
    (fun _ _ _ => trivial) ?_
    ⟨t.broken, t.io, by rw [slice_zero, List.append_nil], Nat.zero_le _, List.prefix_refl _,
      fun h => ⟨h, rfl⟩⟩
  rintro size s ⟨broken, io, rfl, hc, hio, hbr⟩
  refine meets_writeInfo trivial (fun _ _ _ => trivial) (fun _ _ => trivial) ?_ ?_
  · intro e hag _
    have hpre : t.io <+: io ++ [⟨.info, off + size, count - size, .error e⟩] :=
      hio.trans (List.prefix_append _ _)
    have hbr' : t.broken = true → (broken || decide (e = .epipe)) = true ∧ size = 0 := fun h =>
      ⟨by rw [(hbr h).1, Bool.true_or], (hbr h).2⟩
    refine elim_repeatOr_error (fun _ => ⟨_, _, rfl, hc, hpre, hbr'⟩) ?_ hc
    intro r he hr
    refine ⟨size, _, _, rfl, hr, hpre, hbr', fun hcalm hblock hnb => ?_⟩
    -- it blocks, so it was not full, and it was not broken
    rcases hcalm _ List.mem_concat_self e rfl with h | ⟨-, h | h⟩
    · exact absurd h he
    · rw [hag h] at hblock
      cases hblock
    · rw [decide_eq_true h, Bool.or_true] at hnb
      cases hnb
  · intro n hn h0 hb0 _
    have hpre : t.io <+: io ++ [⟨.info, off + size, count - size, .ok n⟩] :=
      hio.trans (List.prefix_append _ _)
    have hinfo : t.info ++ slice t.buf off size ++ slice t.buf (off + size) n
        = t.info ++ slice t.buf off (size + n) := by
      rw [slice_add, List.append_assoc]
    have hbr' : t.broken = true → broken = true ∧ size + n = 0 := fun h =>
      ⟨(hbr h).1, by have := (hbr h).2; have := hb0 (hbr h).1; omega⟩
    refine elim_repeatOr_ok ⟨_, _, by rw [hinfo], by omega, hpre, hbr'⟩ ?_ (by omega)
    intro hr hend
    exact ⟨size + n, _, _, by rw [hinfo], hr, hpre, hbr', fun _ _ _ => by omega⟩

/-! ### The three phases -/

theorem sizeT_of_nat {n : Nat} (h : n ≤ bufSize) : sizeT n = n := by
  rw [sizeT, Int.emod_eq_of_lt (Int.natCast_nonneg n) (by rw [bufSize] at h; omega),
    Int.toNat_natCast]

/-- What `feed` leaves behind: the first `n` bytes of the input are in `buf`, and
some of them have entered the info pipe. -/
structure Fed (S : List Byte) (n : Nat) (t : Tee) : Prop where
  bufRead : t.bufRead = n
  bufWrite : ∃ k : Nat, t.bufWrite = k ∧ k ≤ n ∧ t.info = S.take k
  size : n ≤ bufSize
  le : n ≤ S.length
  inside : n ≤ t.buf.length
  buf : t.buf.take n = S.take n
  stdin : t.stdin = S.drop n
  core : t.core = []
  input : t.input = .core

theorem fed_start (S : List Byte) (pid : Int) (room : Nat) :
    Fed S 0 { Tee.start S pid with room := room } :=
  ⟨rfl, ⟨0, rfl, Nat.le_refl 0, rfl⟩, Nat.zero_le _, Nat.zero_le _, Nat.zero_le _, rfl, rfl, rfl,
    rfl⟩

theorem Fed.leave {S : List Byte} {n : Nat} {t : Tee} (h : Fed S n t) (pipe : InfoPipe) :
    Fed S n (pipe.leave t) :=
  ⟨h.bufRead, h.bufWrite, h.size, h.le, h.inside, h.buf, h.stdin, h.core, h.input⟩

theorem meets_readPid {t : Tee} {K : Stop Fault → Tee → Prop} (hcut : K .cut t) :
    Meets P readPid t (fun _ t' => ∃ pid, t' = { t with pid := pid }) K := by
  refine meets_bind (meets_ask (fun w _ => ?_) hcut)
  have hget : ∀ t' : Tee, (∃ pid, t' = { t with pid := pid }) →
      Meets P (do return (← get).pid : TeeRun Int) t'
        (fun _ t' => ∃ pid, t' = { t with pid := pid }) K := fun _ h =>
    meets_bind (meets_get (meets_pure h))
  cases w with
  | prepared p =>
    refine meets_bind (meets_modify (hget _ ?_))
    split
    · exact ⟨_, rfl⟩
    · exact ⟨t.pid, rfl⟩
  | ok | err e | amount k | thread a | status b n => exact hget t ⟨t.pid, rfl⟩

/-- A turn of the feeding loop moves bytes from `buf` to the info pipe. -/
theorem feedTurn_keeps {S : List Byte} {n tries : Nat} {t : Tee}
    (h : Quiet t.io → Fed S n t ∧ (n = 0 → S = [])) :
    Meets P (feedTurn tries) t (fun _ t' => Quiet t'.io → Fed S n t' ∧ (n = 0 → S = []))
      fun _ _ => True := by
  unfold feedTurn
  split
  · refine meets_bind (meets_get ((safeWriteInfo_spec _ _ t).andThen ?_))
    rintro r t' ⟨m, broken, io, rfl, ⟨hm, hr⟩, hio, -, -⟩
    have hn : r.toOption.getD 0 = m := by
      rcases hr with rfl | ⟨rfl, e, rfl⟩ <;> rfl
    have hfed : ∀ pid, Quiet io → Fed S n { t with
        info := t.info ++ slice t.buf t.bufWrite.toNat m
        bufWrite := t.bufWrite + m, broken := broken, io := io, pid := pid } ∧
        (n = 0 → S = []) := by
      intro pid hq
      obtain ⟨⟨hread, ⟨k, hk, hkn, hinfo⟩, hsize, hle, hin, hbuf, hstdin, hcore, hinput⟩, heof⟩ :=
        h (hq.before hio)
      have hcount : sizeT (t.bufRead - t.bufWrite) = n - k := by
        rw [hread, hk, ← Int.ofNat_sub hkn]
        exact sizeT_of_nat (by omega)
      refine ⟨⟨hread, ⟨k + m, ?_, by omega, ?_⟩, hsize, hle, hin, hbuf, hstdin, hcore, hinput⟩,
        heof⟩
      · simp only [hk]
        omega
      · simp only [hinfo, hk, Int.toNat_natCast]
        rw [slice_of_take (by omega) hin hbuf, ← List.take_add]
    refine meets_bind (meets_modify ((meets_readPid trivial).andThen ?_))
    rintro p t' ⟨pid, rfl⟩
    rw [hn]
    split
    · exact meets_pure (hfed pid)
    · rcases hr with rfl | ⟨-, e, rfl⟩
      · exact meets_pure (hfed pid)
      · cases e <;> exact meets_pure (hfed pid)
  · exact meets_pure h

/-- **What `feed` does**: nothing of the input is lost. -/
theorem feed_spec (S : List Byte) (pid : Int) (room : Nat) :
    Meets P feed { Tee.start S pid with room := room }
      (fun _ t => ∃ n, Quiet t.io → Fed S n t ∧ (n = 0 → S = [])) fun _ _ => True := by
  refine (safeRead_spec bufSize _).andThen ?_
  rintro r t ⟨n, buf, io, rfl, hs, hb, htake, ⟨hc, -⟩, -, hq⟩
  refine meets_bind (meets_modify (meets_bind (meets_get ?_)))
  have hfed : ∀ t : Tee, t = { Tee.start S pid with
      stdin := S.drop n, buf := buf, io := io, bufRead := ssizeT r, room := room } →
      Quiet t.io → Fed S n t ∧ (n = 0 → S = []) := by
    rintro t rfl hio
    obtain ⟨rfl, hend⟩ := hq hio
    refine ⟨⟨rfl, ⟨0, rfl, Nat.zero_le _, rfl⟩, hc, hs, hb, htake, rfl, rfl, rfl⟩, fun h0 => ?_⟩
    have hmin : min bufSize S.length = 0 := hend rfl h0
    have hpos : 0 < bufSize := by decide
    exact List.eq_nil_of_length_eq_zero (by omega)
  split
  · exact meets_pure ⟨n, hfed _ rfl⟩
  · exact (meets_forever_inv (fun t => Quiet t.io → Fed S n t ∧ (n = 0 → S = []))
      (fun _ _ => trivial) (fun _ _ => feedTurn_keeps) (hfed _ rfl)).andThen
      fun _ _ h => meets_pure ⟨n, h⟩

/-- Either sink has got the same, or the info pipe broke on the way. -/
def InStep (t : Tee) : Prop := t.info <+: t.core ∧ (t.broken = false → t.info = t.core)

/-- A chunk that is written to both sinks keeps them in step. -/
theorem InStep.chunk {t t' : Tee} {b : List Byte} {m n : Nat} (h : InStep t) (hm : m ≤ n)
    (hcore : t'.core = t.core ++ slice b 0 n) (hinfo : t'.info = t.info ++ slice b 0 m)
    (hbr : t.broken = true → t'.broken = true ∧ m = 0) (hall : t'.broken = false → m = n) :
    InStep t' := by
  obtain ⟨hp, heq⟩ := h
  rw [InStep, hcore, hinfo]
  refine ⟨?_, fun hnb => ?_⟩
  · cases hbt : t.broken with
    | true =>
      obtain ⟨-, rfl⟩ := hbr hbt
      rw [slice_zero, List.append_nil]
      exact hp.trans (List.prefix_append _ _)
    | false =>
      rw [heq hbt, show n = m + (n - m) by omega, slice_add, ← List.append_assoc]
      exact List.prefix_append _ _
  · have hbt : t.broken = false := by
      cases hbt : t.broken with
      | true => exact absurd (hbr hbt).1 (by rw [hnb]; decide)
      | false => rfl
    rw [heq hbt, hall hnb]

/-- **A turn of the copy loop** moves the same bytes to both sinks; `A` holds of
what the core output has got in the end.  The info pipe is looked at if `c`
holds. -/
theorem copyTurn_keeps {A : List Byte → Prop} {infoFd : Bool} {c : Prop} {t : Tee}
    (hc : c → infoFd = true) (hcore : Quiet t.io → t.input = .core ∧ A (t.core ++ t.stdin))
    (hinfo : c → Calm t.io → t.nonblock = false → InStep t) :
    Meets P (copyTurn infoFd) t
      (fun r t' => (Quiet t'.io → t'.input = .core ∧ A (t'.core ++ t'.stdin)) ∧
        (c → Calm t'.io → t'.nonblock = false → InStep t') ∧
        (r = .inr () → Quiet t'.io → t'.stdin = [])) fun _ _ => True := by
  refine (safeRead_spec bufSize t).andThen ?_
  rintro r t' ⟨n, buf, io, rfl, hs, hb, htake, ⟨-, hr⟩, hio, hq⟩
  have hmoved : t.stdin.take n ++ t.stdin.drop n = t.stdin := List.take_append_drop n _
  rcases hr with rfl | ⟨rfl, e, rfl⟩
  · show Meets P (if n > 0 then _ else _) _ _ _
    by_cases hn : n > 0
    · rw [if_pos hn]
      refine (safeWriteCore_spec 0 n _).andThen ?_
      rintro r t' ⟨m, io', rfl, ⟨hm, -⟩, hio', hq'⟩
      have hslice : slice buf 0 n = t.stdin.take n := by
        rw [slice_of_take (Nat.le_of_eq (Nat.zero_add n)) hb htake, List.drop_zero]
      have hkeep : ∀ io'' : List Io, io' <+: io'' → Quiet io'' →
          t.input = .core ∧ A (t.core ++ slice buf 0 m ++ t.stdin.drop n) := by
        intro io'' hp hq''
        have hm' : m = n := hq' (hq''.before hp)
        rw [hm', hslice, List.append_assoc, hmoved]
        exact hcore (hq''.before (hio.trans (hio'.trans hp)))
      cases infoFd with
      | false =>
        refine meets_bind (meets_pure (meets_pure ⟨hkeep io' (List.prefix_refl _), ?_, ?_⟩))
        · exact fun h => nomatch hc h
        · exact fun h => nomatch h
      | true =>
        refine (safeWriteInfo_spec 0 n _).andThen ?_
        rintro r t' ⟨m', broken, io'', rfl, ⟨hm', -⟩, hio'', hbr, hall⟩
        refine meets_pure ⟨hkeep io'' hio'', fun h hcalm hblock => ?_, fun h => nomatch h⟩
        have hpre : t.io <+: io'' := hio.trans (hio'.trans hio'')
        obtain rfl : m = n := hq' ((hcalm.before hio'').quiet)
        exact (hinfo h (hcalm.before hpre) hblock).chunk hm' rfl rfl hbr (hall hcalm hblock)
    · rw [if_neg hn]
      obtain rfl : n = 0 := by omega
      refine meets_pure ⟨fun hio' => ?_, fun hf hcalm hblock => ?_, fun _ hio' => ?_⟩
      · exact hcore (hio'.before hio)
      · exact hinfo hf (hcalm.before hio) hblock
      · have hmin : min bufSize t.stdin.length = 0 :=
          (hq hio').2 (hcore (hio'.before hio)).1 rfl
        have hpos : 0 < bufSize := by decide
        exact List.eq_nil_of_length_eq_zero (by simp only [List.length_drop]; omega)
  · -- a read that fails is not quiet
    refine meets_pure ⟨fun hio' => ?_, fun _ hcalm => ?_, fun _ hio' => ?_⟩
    · cases (hq hio').1
    · cases (hq hcalm.quiet).1
    · cases (hq hio').1

theorem blockfd_spec (t : Tee) :
    Meets P blockfd t (fun _ t' => ∃ b, t' = { t with nonblock := b }) fun _ _ => True := by
  refine meets_bind (meets_ask (fun w _ => ?_) trivial)
  cases w with
  | err e => exact meets_pure ⟨t.nonblock, rfl⟩
  | ok | amount k | prepared p | thread a | status b n => exact meets_modify ⟨false, rfl⟩

theorem copy_spec {A : List Byte → Prop} {infoFd : Bool} {c : Prop} {t : Tee}
    (hc : c → infoFd = true) (hcore : Quiet t.io → t.input = .core ∧ A (t.core ++ t.stdin))
    (hinfo : c → Calm t.io → t.nonblock = false → InStep t) :
    Meets P (forever (fun _ => copyTurn infoFd) ()) t
      (fun _ t' => (Quiet t'.io → A t'.core) ∧
        (c → Calm t'.io → t'.nonblock = false → InStep t')) fun _ _ => True := by
  refine meets_forever (fun _ t => (Quiet t.io → t.input = .core ∧ A (t.core ++ t.stdin)) ∧
    (c → Calm t.io → t.nonblock = false → InStep t)) (fun _ _ _ => trivial) ?_
    ⟨hcore, hinfo⟩
  rintro - t ⟨hd, hi⟩
  refine (copyTurn_keeps hc hd hi).imp ?_
  rintro r t' ⟨hc', hi', hend⟩
  cases r with
  | inl u => exact ⟨hc', hi'⟩
  | inr u =>
    refine ⟨fun hq => ?_, hi'⟩
    have hA := (hc' hq).2
    rw [hend rfl hq, List.append_nil] at hA
    exact hA

/-- With libunwind, nothing is missing in front of the copy loop. -/
theorem catchUp_libunwind {S : List Byte} {n : Nat} {infoFd : Bool} {t : Tee}
    (h : Quiet t.io → Fed S n t) (h0 : infoFd = false → n = 0) :
    Meets P (catchUp true infoFd) t
      (fun _ t' => (Quiet t'.io → t'.input = .core ∧ t'.core ++ t'.stdin = S) ∧
        (infoFd = true → Calm t'.io → t'.nonblock = false → InStep t')) fun _ _ => True := by
  unfold catchUp
  cases infoFd with
  | false =>
    refine meets_pure ⟨fun hq => ?_, fun hf => nomatch hf⟩
    rw [(h hq).core, (h hq).stdin, h0 rfl]
    exact ⟨(h hq).input, rfl⟩
  | true =>
    refine (blockfd_spec t).andThen ?_
    rintro - t' ⟨b, rfl⟩
    refine meets_bind (meets_get ((safeWriteCore_spec _ _ _).andThen ?_))
    rintro r t' ⟨m, io, rfl, -, hio, hq⟩
    have hcore : Quiet io → t.core ++ slice t.buf 0 m = S.take n ∧ t.stdin = S.drop n := by
      intro hqio
      obtain ⟨hread, -, hsize, -, hin, hbuf, hstdin, hc, -⟩ := h (hqio.before hio)
      have hm : m = n := by
        rw [hq hqio]
        simp only [hread]
        exact sizeT_of_nat hsize
      rw [hc, hm, slice_of_take (Nat.le_of_eq (Nat.zero_add n)) hin hbuf]
      exact ⟨rfl, hstdin⟩
    have hall : ∀ io', io <+: io' → Quiet io' →
        t.input = .core ∧ t.core ++ slice t.buf 0 m ++ t.stdin = S := by
      intro io' hp hq'
      obtain ⟨h1, h2⟩ := hcore (hq'.before hp)
      rw [h1, h2, List.take_append_drop]
      exact ⟨(h ((hq'.before hp).before hio)).input, rfl⟩
    dsimp only
    split
    · refine (safeWriteInfo_spec _ _ _).andThen ?_
      rintro r t' ⟨m', broken, io', rfl, ⟨hm', -⟩, hio', hbr, hfull⟩
      refine meets_pure ⟨hall io' hio', fun _ hcalm hblock => ?_⟩
      obtain ⟨h1, -⟩ := hcore (hcalm.quiet.before hio')
      obtain ⟨hread, ⟨k, hk, hkn, hinfo⟩, hsize, -, hin, hbuf, -⟩ :=
        h ((hcalm.quiet.before hio').before hio)
      have hcount : sizeT (t.bufRead - t.bufWrite) = n - k := by
        rw [hread, hk, ← Int.ofNat_sub hkn]
        exact sizeT_of_nat (by omega)
      have hslice : t.info ++ slice t.buf t.bufWrite.toNat m' = S.take (k + m') := by
        rw [hinfo, hk, Int.toNat_natCast, slice_of_take (by omega) hin hbuf, ← List.take_add]
      refine ⟨?_, fun hnb => ?_⟩
      · show t.info ++ slice t.buf t.bufWrite.toNat m' <+: t.core ++ slice t.buf 0 m
        rw [hslice, h1]
        exact List.take_prefix_take_left (by omega)
      · show t.info ++ slice t.buf t.bufWrite.toNat m' = t.core ++ slice t.buf 0 m
        rw [hslice, h1, hfull hcalm hblock hnb, hcount, Nat.add_sub_cancel' hkn]
    · next hle =>
      refine meets_pure ⟨hall io (List.prefix_refl _), fun _ hcalm _ => ?_⟩
      obtain ⟨h1, -⟩ := hcore hcalm.quiet
      obtain ⟨hread, ⟨k, hk, hkn, hinfo⟩, -⟩ := h (hcalm.quiet.before hio)
      simp only [hread, hk] at hle
      obtain rfl : k = n := by omega
      have heq : t.info = t.core ++ slice t.buf 0 m := by rw [hinfo, h1]
      exact ⟨heq ▸ List.prefix_refl _, fun _ => heq⟩

/-- **With libunwind** the core output gets all of the input. -/
theorem transfer_libunwind {S : List Byte} {n : Nat} {infoFd : Bool} {t : Tee}
    (h : Quiet t.io → Fed S n t) (h0 : infoFd = false → n = 0) :
    Meets P (transfer true infoFd) t
      (fun _ t' => (Quiet t'.io → t'.core = S) ∧
        (infoFd = true → Calm t'.io → t'.nonblock = false → InStep t')) fun _ _ => True :=
  (catchUp_libunwind h h0).andThen fun _ _ h' => copy_spec (A := (· = S)) id h'.1 h'.2

/-- **Without libunwind** it gets what `feed` has left on descriptor 0. -/
theorem transfer_plain {S : List Byte} {n : Nat} {infoFd : Bool} {c : Prop} {t : Tee}
    (h : Quiet t.io → Fed S n t ∧ c) :
    Meets P (transfer false infoFd) t
      (fun _ t' => Quiet t'.io → t'.core = S.drop n ∧ c) fun _ _ => True := by
  have hcatch : Meets P (catchUp false infoFd) t
      (fun _ t' => ∃ b, t' = { t with infoOpen := b }) fun _ _ => True := by
    unfold catchUp
    cases infoFd with
    | false => exact meets_pure ⟨t.infoOpen, rfl⟩
    | true => exact meets_modify ⟨false, rfl⟩
  refine hcatch.andThen ?_
  rintro - t' ⟨b, rfl⟩
  refine (copy_spec (A := fun l => l = S.drop n ∧ c) (c := False) False.elim (fun hq => ?_)
    fun hf => hf.elim).imp fun _ _ h' => h'.1
  obtain ⟨hfed, hc⟩ := h hq
  rw [hfed.core, hfed.stdin, List.nil_append]
  exact ⟨hfed.input, rfl, hc⟩

/-! ### Both builds -/

/-- The outputs are opened with `n` bytes read: none without the thread, and with
it none only if there are none. -/
theorem tee_spec (S : List Byte) (pid : Int) (room : Nat) (libunwind : Bool) (pipe : InfoPipe)
    {Q : Unit → Tee → Prop}
    (h : ∀ n t, (Quiet t.io → Fed S n t ∧ (n = 0 ↔ pipe ≠ .thread ∨ S = [])) →
      (pipe ≠ .thread → n = 0) →
      Meets P (transfer libunwind (pipe ≠ .absent)) t Q fun _ _ => True) :
    Meets P (tee libunwind pipe) { Tee.start S pid with room := room } Q fun _ _ => True := by
  unfold tee
  split
  · next hp =>
    refine (feed_spec S pid room).andThen ?_
    rintro - t ⟨n, hn⟩
    refine h n t (fun hq => ?_) fun hne => absurd hp hne
    obtain ⟨hfed, heof⟩ := hn hq
    refine ⟨hfed, fun h0 => Or.inr (heof h0), ?_⟩
    rintro (hne | rfl)
    · exact absurd hp hne
    · exact Nat.le_zero.mp hfed.le
  · next hp =>
    exact meets_bind (meets_modify (h 0 _ (fun _ => ⟨(fed_start S pid room).leave pipe,
      fun _ => Or.inl hp, fun _ => rfl⟩) fun _ => rfl))

/-- **Nothing is lost and nothing is changed on the way.**  In a run with
libunwind that comes to the end of the copy loop, with no failing read, no
failing write on the core output and a pipe that blocks in the end, the core
output has got all of the input, and the info pipe the same, or a front of it
if it broke. -/
theorem tee_faithful {S : List Byte} {pid : Int} {o rest : List Answer} {t : Tee}
    (hrun : tee true .thread (Tee.start S pid) o = .done () t rest) (hcalm : Calm t.io)
    (hblock : t.nonblock = false) :
    t.core = S ∧ t.info <+: S ∧ (t.broken = false → t.info = S) := by
  have h := tee_spec (P := fun _ => True) S pid (64 * 1024) true .thread
    fun n t hfed _ => transfer_libunwind (fun hq => (hfed hq).1) fun hf => nomatch hf
  obtain ⟨hcore, hinfo⟩ := h.of_done (fun _ _ => trivial) hrun
  obtain ⟨hp, heq⟩ := hinfo rfl hcalm hblock
  have hS : t.core = S := hcore hcalm.quiet
  rw [hS] at hp heq
  exact ⟨hS, hp, heq⟩

/-- Short transfers, signals, a pipe that is full for a while and breaks later. -/
theorem tee_faithful_broken :
    (tee true .thread (Tee.start [7, 8, 9] (-1))
      [.amount 1, .err .eintr, .ok, .ok, .err .eagain, .ok, .amount 0, .err .eagain,
        .prepared 42, .ok, .amount 1, .err .eintr, .ok, .err .epipe, .ok]).After
      fun _ t => t.core = [7, 8, 9] ∧ t.info <+: [7, 8, 9] ∧
        (t.broken = false → t.info = [7, 8, 9]) :=
  Res.After.mono (Q := fun _ t => Calm t.io ∧ t.nonblock = false) (by decide +kernel)
    fun _ _ _ hrun h => tee_faithful hrun h.1 h.2

end Crashinfo
