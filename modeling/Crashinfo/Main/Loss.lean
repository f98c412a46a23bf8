import Crashinfo.Main.Early
import Crashinfo.Main.Fidelity

/-!
# What is lost without a word

`main` does not look at what `safe_write` returns for the core output, so bytes
that could not be written are lost, and nothing is logged.  `Exactly` says what
that comes to: unless a call of `write` fails, what was written and what is still
to be read are the whole input, and otherwise something is missing for good.
-/

namespace Crashinfo

open Script Script.Run

/-- What was read from descriptor 0 was written to the core output, all of it and
in order. -/
def Delivered (stdin : List Byte) (t : Tee) : Prop := ∃ read, stdin = read ++ t.stdin ∧ t.core = read

theorem delivered_iff {S : List Byte} {t : Tee} : Delivered S t ↔ t.core ++ t.stdin = S := by
  constructor
  · intro h
    obtain ⟨read, hS, hcore⟩ := h
    rw [hcore, hS]
  · exact fun h => ⟨t.core, h.symm, rfl⟩

/-- The bytes `S` are on their way to the core output; none is missing exactly if
that has not failed. -/
structure Exactly (S : List Byte) (t : Tee) : Prop where
  all : CoreWell t.io → t.core ++ t.stdin = S
  lost : ¬CoreWell t.io → t.core.length + t.stdin.length < S.length

theorem Exactly.length_le {S : List Byte} {t : Tee} (h : Exactly S t) :
    t.core.length + t.stdin.length ≤ S.length := by
  by_cases hwell : CoreWell t.io
  · have hlen := congrArg List.length (h.all hwell)
    rw [List.length_append] at hlen
    exact Nat.le_of_eq hlen
  · exact Nat.le_of_lt (h.lost hwell)

theorem Exactly.delivered_iff {S : List Byte} {t : Tee} (h : Exactly S t) :
    Delivered S t ↔ CoreWell t.io := by
  rw [Crashinfo.delivered_iff]
  refine ⟨fun heq => ?_, h.all⟩
  by_contra hwell
  have hlt := h.lost hwell
  have hlen := congrArg List.length heq
  rw [List.length_append] at hlen
  omega

/-- Nothing has happened to the core, its input and the buffer. -/
structure SameCore (t t' : Tee) : Prop where
  core : t'.core = t.core
  stdin : t'.stdin = t.stdin
  buf : t'.buf = t.buf
  bufRead : t'.bufRead = t.bufRead
  well : CoreWell t'.io ↔ CoreWell t.io

theorem SameCore.refl (t : Tee) : SameCore t t := ⟨rfl, rfl, rfl, rfl, Iff.rfl⟩

theorem SameCore.trans {t t₁ t' : Tee} (h1 : SameCore t t₁) (h2 : SameCore t₁ t') : SameCore t t' :=
  ⟨h2.core.trans h1.core, h2.stdin.trans h1.stdin, h2.buf.trans h1.buf, h2.bufRead.trans h1.bufRead,
    h2.well.trans h1.well⟩

theorem Exactly.same {S : List Byte} {t t' : Tee} (h : Exactly S t) (hs : SameCore t t') :
    Exactly S t' where
  all := fun hwell => by
    rw [hs.core, hs.stdin]
    exact h.all (hs.well.mp hwell)
  lost := fun hwell => by
    rw [hs.core, hs.stdin]
    exact h.lost fun hw => hwell (hs.well.mpr hw)

theorem coreWell_snoc {io : List Io} {e : Io} (hc : e.chan ≠ .core) :
    CoreWell (io ++ [e]) ↔ CoreWell io := by
  rw [coreWell_append, and_iff_left]
  intro x hx hchan
  rw [List.mem_singleton.mp hx] at hchan
  exact absurd hchan hc

/-! ### The calls -/

section Calls

variable {S : List Byte} {t : Tee}

/-- What `safe_read` has put into the buffer is no longer in the input. -/
theorem safeRead_exact (count : Nat) (t : Tee) :
    Leads (safeRead count) t fun r t' => ReadAll count t r t' ∧ (CoreWell t'.io ↔ CoreWell t.io) := by
  refine (safeRead_spec count t).and ?_
  refine meets_safeIo (fun _ s => CoreWell s.io ↔ CoreWell t.io) (fun _ _ _ => trivial)
    (fun size s hs => ?_) Iff.rfl
  have hgo : ∀ (r : Except Errno Nat) (s' : Tee), s'.io = s.io ++ [⟨.stdin, size, count - size, r⟩] →
      Sum.elim (fun _ => CoreWell s'.io ↔ CoreWell t.io) (fun _ => CoreWell s'.io ↔ CoreWell t.io)
        (repeatOr count size r) := by
    intro r s' hio
    have hwell : CoreWell s'.io ↔ CoreWell t.io := by
      rw [hio, coreWell_snoc (nofun : Chan.stdin ≠ Chan.core), hs]
    cases repeatOr count size r with
    | inl n => exact hwell
    | inr r' => exact hwell
  exact meets_read trivial (fun _ => trivial) (fun e => hgo _ _ rfl) fun n _ _ => hgo _ _ rfl

theorem safeWriteInfo_same (off count : Nat) (t : Tee) :
    Leads (safeWriteInfo off count) t fun _ t' => SameCore t t' := by
  refine meets_safeIo (fun _ s => SameCore t s) (fun _ _ _ => trivial) (fun size s hs => ?_)
    (SameCore.refl t)
  have hgo : ∀ (r : Except Errno Nat) (s' : Tee), SameCore s s' →
      Sum.elim (fun _ => SameCore t s') (fun _ => SameCore t s') (repeatOr count size r) := by
    intro r s' hs'
    cases repeatOr count size r with
    | inl n => exact hs.trans hs'
    | inr r' => exact hs.trans hs'
  refine meets_writeInfo trivial (fun _ _ _ => trivial) (fun _ _ => trivial)
    (fun e _ _ => hgo _ _ ?_) fun n _ _ _ _ => hgo _ _ ?_
  · exact ⟨rfl, rfl, rfl, rfl, coreWell_snoc (nofun : Chan.info ≠ Chan.core)⟩
  · exact ⟨rfl, rfl, rfl, rfl, coreWell_snoc (nofun : Chan.info ≠ Chan.core)⟩

theorem readPid_same (t : Tee) : Leads readPid t fun _ t' => SameCore t t' := by
  refine (meets_readPid trivial).imp fun _ t' h => ?_
  obtain ⟨pid, rfl⟩ := h
  exact ⟨rfl, rfl, rfl, rfl, Iff.rfl⟩

/-- The buffer is written to the core output behind what is there already. -/
theorem Exactly.write {n m : Nat} {buf : List Byte} {l : List Io} {io : List Io}
    (h : CoreWell io → t.core ++ t.stdin.take n ++ t.stdin.drop n = S)
    (hlost : ¬CoreWell io → t.core.length + t.stdin.length < S.length)
    (hle : n ≤ t.stdin.length) (hbuf : n ≤ buf.length) (htake : buf.take n = t.stdin.take n)
    (hm : m ≤ n) (hl : CoreWell l ↔ m = n) :
    Exactly S { t with
      core := t.core ++ slice buf 0 m, stdin := t.stdin.drop n, buf := buf, io := io ++ l } where
  all := fun hwell => by
    obtain ⟨h1, h2⟩ := (coreWell_append io l).mp hwell
    rw [hl.mp h2, slice_of_take (Nat.le_of_eq (Nat.zero_add n)) hbuf htake, List.drop_zero]
    exact h h1
  lost := fun hwell => by
    show (t.core ++ slice buf 0 m).length + (t.stdin.drop n).length < S.length
    rw [List.length_append, length_slice, List.length_drop]
    by_cases h1 : CoreWell io
    · have hne : m ≠ n := fun heq => hwell ((coreWell_append io l).mpr ⟨h1, hl.mpr heq⟩)
      have hlen := congrArg List.length (h h1)
      rw [List.length_append, List.length_append, List.length_take, List.length_drop] at hlen
      omega
    · have := hlost h1
      omega

theorem copyTurn_exact (infoFd : Bool) (h : Exactly S t) :
    Leads (copyTurn infoFd) t fun _ t' => Exactly S t' := by
  refine (safeRead_exact bufSize t).andThen fun r t₁ hr => ?_
  obtain ⟨⟨n, buf, io, rfl, hs, hb, htake, ⟨-, hres⟩, -, -⟩, hwell⟩ := hr
  have hall : CoreWell io → t.core ++ t.stdin.take n ++ t.stdin.drop n = S := by
    intro hio
    rw [List.append_assoc, List.take_append_drop]
    exact h.all (hwell.mp hio)
  have hlost : ¬CoreWell io → t.core.length + t.stdin.length < S.length :=
    fun hio => h.lost fun hw => hio (hwell.mpr hw)
  rcases hres with rfl | ⟨rfl, e, rfl⟩
  · dsimp only
    split
    · refine (safeWriteCore_exact 0 n _).andThen fun r t₂ hr => ?_
      obtain ⟨m, l, rfl, ⟨hm, -⟩, hl⟩ := hr
      have hexact := Exactly.write hall hlost hs hb htake hm hl
      split
      · refine (safeWriteInfo_same 0 n _).andThen fun _ t₃ hsame => meets_pure ?_
        exact hexact.same hsame
      · exact meets_pure hexact
    · rename_i hn
      obtain rfl : n = 0 := by omega
      exact meets_pure ⟨fun hio => h.all (hwell.mp hio), hlost⟩
  · exact meets_pure ⟨fun hio => h.all (hwell.mp hio), hlost⟩

/-- The first `n` bytes of `S` are in the buffer, and nothing was written. -/
structure Buffered (S : List Byte) (n : Nat) (t : Tee) : Prop where
  bufRead : t.bufRead = n
  size : n ≤ bufSize
  le : n ≤ S.length
  inside : n ≤ t.buf.length
  buf : t.buf.take n = S.take n
  stdin : t.stdin = S.drop n
  core : t.core = []
  well : CoreWell t.io

theorem Buffered.same {n : Nat} {t' : Tee} (h : Buffered S n t) (hs : SameCore t t') :
    Buffered S n t' where
  bufRead := hs.bufRead.trans h.bufRead
  size := h.size
  le := h.le
  inside := hs.buf ▸ h.inside
  buf := hs.buf ▸ h.buf
  stdin := hs.stdin.trans h.stdin
  core := hs.core.trans h.core
  well := hs.well.mpr h.well

theorem feedTurn_same (tries : Nat) (t : Tee) :
    Leads (feedTurn tries) t fun _ t' => SameCore t t' := by
  rw [feedTurn]
  split
  · refine meets_bind (meets_get ((safeWriteInfo_same _ _ t).andThen fun r t₁ h1 => ?_))
    refine meets_bind (meets_modify ((readPid_same _).andThen fun pid t₂ h2 => ?_))
    have hsame : SameCore t t₂ := h1.trans ⟨h2.core, h2.stdin, h2.buf, h2.bufRead, h2.well⟩
    split
    · exact meets_pure hsame
    · split
      · exact meets_pure hsame
      · exact meets_pure hsame
      · exact meets_pure hsame
  · exact meets_pure (SameCore.refl t)

/-- What was read for the thread stays in the buffer behind it. -/
theorem leads_feedRest {n : Nat} {pid : Int} {input : Input}
    (h : ReadAll bufSize { Tee.start S pid with input := input } (.ok n) t ∧
      (CoreWell t.io ↔ CoreWell [])) :
    Leads (feedRest (.ok n)) t fun b t' => Buffered S n t' ∧ (b = true → 0 < n) := by
  obtain ⟨⟨m, buf, io, rfl, hs, hb, htake, hmoved, -, -⟩, hwell⟩ := h
  obtain rfl : n = m := hmoved.eq_of_ok
  have hbuffered : Buffered S n { Tee.start S pid with
      stdin := S.drop n, input := input, buf := buf, io := io, bufRead := ssizeT (.ok n)
      bufWrite := 0 } :=
    ⟨rfl, hmoved.1, hs, hb, htake, rfl, rfl, hwell.mpr nofun⟩
  refine meets_bind (meets_modify (meets_bind (meets_get ?_)))
  split
  · exact meets_pure ⟨hbuffered, nofun⟩
  · rename_i hpos
    have hn : 0 < n := Int.natCast_pos.mp (Int.lt_of_not_ge hpos)
    refine (meets_forever_inv (fun t => Buffered S n t) (fun _ _ => trivial) (fun tries t ht => ?_)
      hbuffered).andThen fun _ t ht => meets_pure ⟨ht, fun _ => hn⟩
    exact (feedTurn_same tries t).imp fun _ _ hsame => ht.same hsame

/-- **What `feed` leaves behind** if there was anything to read. -/
theorem feed_buffered (S : List Byte) (pid : Int) (input : Input) :
    Leads feed { Tee.start S pid with input := input } fun b t =>
      b = true → ∃ n, 0 < n ∧ Buffered S n t := by
  refine (safeRead_exact bufSize _).andThen fun r t hr => ?_
  cases r with
  | ok n => exact (leads_feedRest hr).imp fun b t' h hb => ⟨n, h.2 hb, h.1⟩
  | error e =>
    refine meets_bind (meets_modify (meets_bind (meets_get ?_)))
    split
    · exact meets_pure nofun
    · rename_i hpos
      exact absurd (Int.negSucc_lt_zero 0).le hpos

def afterFeed (libunwind : Bool) (n : Nat) (S : List Byte) : List Byte :=
  if libunwind then S else S.drop n

theorem catchUp_exact {n : Nat} (libunwind : Bool) (h : Buffered S n t) :
    Leads (catchUp libunwind true) t fun _ t' => Exactly (afterFeed libunwind n S) t' := by
  rw [catchUp, if_pos rfl]
  cases libunwind with
  | false =>
    refine meets_modify ⟨fun _ => ?_, fun hwell => absurd h.well hwell⟩
    show t.core ++ t.stdin = S.drop n
    rw [h.core, h.stdin]
    rfl
  | true =>
    rw [if_pos rfl]
    have hblock : Leads blockfd t fun _ t' => SameCore t t' := by
      refine (blockfd_spec t).imp fun _ t' h => ?_
      obtain ⟨b, rfl⟩ := h
      exact ⟨rfl, rfl, rfl, rfl, Iff.rfl⟩
    refine hblock.andThen fun _ t₁ hsame => ?_
    have h1 := h.same hsame
    refine meets_bind (meets_get ((safeWriteCore_exact _ _ _).andThen fun r t₂ hr => ?_))
    obtain ⟨m, l, rfl, ⟨hm, -⟩, hl⟩ := hr
    rw [h1.bufRead, sizeT_of_nat h1.size] at hm hl
    have hexact : Exactly S { t₁ with core := t₁.core ++ slice t₁.buf 0 m, io := t₁.io ++ l } := by
      have hall : CoreWell t₁.io → t₁.core ++ S.take n ++ S.drop n = S := by
        intro _
        rw [h1.core, List.nil_append, List.take_append_drop]
      have hlost : ¬CoreWell t₁.io → t₁.core.length + S.length < S.length :=
        fun hwell => absurd h1.well hwell
      have hwrite := Exactly.write (t := { t₁ with stdin := S }) hall hlost h1.le h1.inside h1.buf hm hl
      rwa [← h1.stdin] at hwrite
    split
    · exact (safeWriteInfo_same _ _ _).andThen fun _ t₃ hs => meets_pure (hexact.same hs)
    · exact meets_pure hexact

end Calls

/-! ### What has nothing to do with the core -/

section World

variable {J : Tee → Prop} {p : Option (Nat × Nat)} {α : Type} {env env' : Env} {dir : ProcDir}

/-- `J` holds of the copying, and the info pipe is `p`. -/
def Holding (J : Tee → Prop) (p : Option (Nat × Nat)) (w : World) : Prop := J w.tee ∧ w.infoPipe = p

abbrev Leaves (J : Tee → Prop) (p : Option (Nat × Nat)) (m : MainRun α) : Prop :=
  Always (fun _ => True) (Holding J p) m fun _ => True

theorem leaves_onHost (m : HostRun α) : Leaves J p (onHost m) :=
  fun w hw => meets_zoom
    ((leads_any m w.host).mono (fun _ _ _ => ⟨hw, trivial⟩) fun _ _ _ => ⟨trivial, hw⟩)

theorem leads_onHost_tee {m : HostRun α} {Q : α → Host → Prop} {w : World} (hm : Leads m w.host Q) :
    Leads (onHost m) w fun a w' => Q a w'.host ∧ w'.tee = w.tee :=
  meets_zoom (hm.imp fun _ _ hq => ⟨hq, rfl⟩)

theorem leaves_modify {f : World → World} (hf : ∀ w, (f w).tee = w.tee ∧ (f w).infoPipe = w.infoPipe) :
    Leaves J p (modify f) := by
  refine always_modify fun w hw => ?_
  obtain ⟨htee, hpipe⟩ := hf w
  rw [Holding, htee, hpipe]
  exact hw

/-- `J` does not look at what has nothing to do with the core. -/
def CoreOnly (J : Tee → Prop) : Prop := ∀ t t', J t → SameCore t t' → J t'

theorem coreOnly_buffered (S : List Byte) (n : Nat) : CoreOnly (Buffered S n) :=
  fun _ _ h hs => h.same hs

theorem sameCore_copying (w : World) : SameCore w.tee w.copying := ⟨rfl, rfl, rfl, rfl, Iff.rfl⟩

theorem leaves_readPid (hJ : CoreOnly J) : Leaves J p (onTee readPid) := by
  refine always_zoom (fun w hw => ⟨hJ _ _ hw.1 (sameCore_copying w), hw.2⟩) fun w hw t ht => ?_
  have hall := always_readPid (K := fun _ => True) trivial
    (fun t p ht _ => hJ _ { t with pid := p } ht ⟨rfl, rfl, rfl, rfl, Iff.rfl⟩) t ht.1
  exact hall.mono (fun _ _ hr => ⟨⟨hr.1, hw.2⟩, trivial⟩) fun _ _ hk => ⟨trivial, hk.2, hw.2⟩

theorem leaves_readProc (hJ : CoreOnly J) : Leaves J p (readProc env dir) := by
  refine always_get_bind fun w _ => ?_
  dsimp only
  split
  · exact always_pure trivial
  have hfind : Leaves J p (findProc w.conf.proc.path) := by
    cases w.conf.proc.path with
    | some path => exact always_pure trivial
    | none =>
      refine always_bind (leaves_readPid hJ) fun pid _ => ?_
      split
      · exact always_pure trivial
      · exact always_pure trivial
  refine always_bind hfind fun path _ => ?_
  cases path with
  | none => exact leaves_onHost _
  | some path =>
    refine always_bind (leaves_modify fun _ => ⟨rfl, rfl⟩) fun _ _ => ?_
    refine always_bind (leaves_onHost _) fun r _ => ?_
    cases r with
    | error e => exact always_bind (leaves_modify fun _ => ⟨rfl, rfl⟩) fun _ _ => leaves_onHost _
    | ok fd =>
      refine always_bind (leaves_modify fun _ => ⟨rfl, rfl⟩) fun _ _ => ?_
      refine always_bind (leaves_onHost _) fun r _ => ?_
      refine always_bind (leaves_modify fun _ => ⟨rfl, rfl⟩) fun _ _ => ?_
      split
      · exact always_pure trivial
      · exact leaves_onHost _

theorem leaves_openStreams (hJ : CoreOnly J) :
    Leaves J p (openStreams env env') :=
  always_bind (leaves_readPid hJ) fun _ _ => always_bind (leaves_readPid hJ) fun _ _ =>
    always_get_bind fun _ _ => leaves_onHost _

theorem leaves_startInfo : Leaves J p startInfo := by
  refine always_get_bind fun w _ => ?_
  split
  · split
    · exact always_fault trivial
    · exact always_pure trivial
  · exact always_pure trivial

theorem leaves_threadAct (a : ThreadAct) : Leaves J p (threadAct a) := by
  cases a with
  | openProc cloexec =>
    refine always_get_bind fun w _ => ?_
    split
    · exact always_pure trivial
    · exact always_bind (leaves_onHost _) fun fd _ => leaves_modify fun _ => ⟨rfl, rfl⟩
  | closeProc =>
    refine always_get_bind fun w _ => ?_
    split
    · exact always_bind (leaves_onHost _) fun _ _ => leaves_modify fun _ => ⟨rfl, rfl⟩
    · exact always_pure trivial
  | closePipe =>
    refine always_get_bind fun w _ => ?_
    split
    · exact always_bind (leaves_onHost _) fun _ _ => leaves_modify fun _ => ⟨rfl, rfl⟩
    · exact always_pure trivial

theorem leaves_threadActs : Leaves J p threadActs := by
  refine always_forever (fun _ => True) trivial (fun _ _ => ?_) trivial
  refine always_bind (always_ask trivial) fun a _ => ?_
  split
  · exact always_bind (leaves_threadAct _) fun _ _ => always_pure trivial
  · exact always_pure trivial

theorem leaves_joinThread (pipe : InfoPipe) : Leaves J p (joinThread env pipe) := by
  rw [joinThread]
  split
  · refine always_forever (fun _ => True) trivial (fun _ _ => always_get_bind fun w _ => ?_) trivial
    split
    · exact always_bind leaves_threadActs fun _ _ => always_pure trivial
    · exact always_pure trivial
  · refine always_bind (always_ask trivial) fun a _ => ?_
    split
    · exact leaves_onHost _
    · exact always_fault trivial

end World

/-! ### The whole run -/

section Main

variable {env env' : Env} {dir : ProcDir} {S : List Byte} {w : World}

/-- What was read is still to be written, or the run was told to have failed. -/
def Reading (S : List Byte) (w : World) : Prop :=
  Marked w.host ∨ ∃ n q, 0 < n ∧ Holding (Buffered S n) (some q) w

theorem leads_mark {α : Type} {m : MainRun α} {text : Str} {Q : α → World → Prop}
    (hm : ∀ w', Marked w'.host → Leads m w' Q) :
    Leads (do onHost (logmsg .crit text); m) w Q := by
  have hlog : Leads (onHost (logmsg .crit text)) w fun _ w' => Marked w'.host :=
    leads_onHost (meets_modify (marked_log text code_crit))
  exact hlog.andThen fun _ w' h => hm w' h

/-- What `main` was told of a pipe that it leaves to itself. -/
theorem leads_leave {pipe : InfoPipe} {w : World} (hm : Marked w.host) :
    Leads (do onTee (modify pipe.leave); return pipe) w fun _ w' => Reading S w' :=
  meets_bind (meets_zoom (meets_modify (meets_pure (Or.inl hm))))

theorem leads_startDumping {pid : Int} (htee : w.tee = Tee.start S pid) :
    Leads (startDumping env) w fun _ w' => Reading S w' := by
  refine (leads_onHost_tee (leads_any pipe2 w.host)).andThen fun r w₁ h1 => ?_
  cases r with
  | error e => exact leads_mark fun _ hm => meets_pure (Or.inl hm)
  | ok q =>
    refine meets_bind (meets_modify ?_)
    have hstart : Holding (fun t => t = Tee.start S pid) (some q) { w₁ with infoPipe := some q } :=
      ⟨h1.2.trans htee, rfl⟩
    refine ((leaves_onHost _).leads hstart).andThen fun r w₂ h2 => ?_
    cases r with
    | error e => exact leads_mark fun _ hm => leads_leave hm
    | ok u =>
      refine ((leaves_onHost _).leads h2.1).andThen fun r w₃ h3 => ?_
      cases r with
      | error e => exact leads_mark fun _ hm => leads_leave hm
      | ok u =>
        refine meets_bind (meets_modify ?_)
        have hfeed : Leads (onTee feed) { w₃ with thread := some [] } fun b w' =>
            b = true → ∃ n, 0 < n ∧ Holding (Buffered S n) (some q) w' := by
          refine meets_zoom ?_
          show Leads feed { w₃.tee with input := _ } _
          rw [h3.1.1]
          refine (feed_buffered S pid _).imp fun b t hb hb' => ?_
          obtain ⟨n, hn, hbuf⟩ := hb hb'
          exact ⟨n, hn, hbuf, h3.1.2⟩
        refine hfeed.andThen fun b w₄ h4 => ?_
        cases b with
        | true =>
          obtain ⟨n, hn, hhold⟩ := h4 rfl
          exact meets_pure (Or.inr ⟨n, q, hn, hhold⟩)
        | false => exact leads_mark fun _ hm => meets_pure (Or.inl hm)

theorem leads_copyCore {n : Nat} {q : Nat × Nat} (libunwind : Bool)
    (hw : Holding (Buffered S n) (some q) w) :
    Leads (copyCore libunwind) w fun _ w' =>
      Holding (Exactly (afterFeed libunwind n S)) (some q) w' := by
  refine meets_bind (meets_get ?_)
  have hfd : (w.infoFd ≥ 0) = True := by
    rw [World.infoFd, hw.2]
    exact eq_true (Int.natCast_nonneg q.2)
  dsimp only
  simp only [hfd, decide_true]
  refine (leaves_threadActs.leads hw).andThen fun _ w₁ h1 => ?_
  have hcatch : Leads (onTee (catchUp libunwind true)) w₁ fun _ w' =>
      Holding (Exactly (afterFeed libunwind n S)) (some q) w' := by
    have hbuffered := h1.1.1.same (sameCore_copying w₁)
    exact meets_zoom ((catchUp_exact libunwind hbuffered).imp fun _ _ ht => ⟨ht, h1.1.2⟩)
  refine hcatch.andThen fun _ w₂ h2 => ?_
  have hrest : ∀ w₃, Holding (Exactly (afterFeed libunwind n S)) (some q) w₃ → Leads (do
      forever (fun _ => do
        threadActs
        onTee (copyTurn true)) ()
      threadActs
      onHost (close w.infoFd)) w₃ fun _ w' =>
        Holding (Exactly (afterFeed libunwind n S)) (some q) w' := by
    intro w₃ h3
    refine (meets_forever_inv (Holding (Exactly (afterFeed libunwind n S)) (some q))
      (fun _ _ => trivial) (fun _ w₄ h4 => ?_) h3).andThen fun _ w₄ h4 => ?_
    · refine (leaves_threadActs.leads h4).andThen fun _ w₅ h5 => ?_
      have hexact := h5.1.1.same (sameCore_copying w₅)
      exact meets_zoom ((copyTurn_exact true hexact).imp fun _ _ ht => ⟨ht, h5.1.2⟩)
    · refine (leaves_threadActs.leads h4).andThen fun _ w₅ h5 => ?_
      exact ((leaves_onHost _).leads h5.1).imp fun _ _ h => h.1
  split
  · exact ((leaves_onHost _).leads h2).andThen fun _ w₃ h3 => hrest w₃ h3.1
  · exact hrest w₂ h2

/-- The copying was come to and all was read that there was to read. -/
def Copied (libunwind : Bool) (S : List Byte) (w : World) : Prop :=
  Marked w.host ∨ ∃ n, 0 < n ∧ n ≤ S.length ∧ Exactly (afterFeed libunwind n S) w.tee

theorem leads_saveOr_marked (libunwind : Bool) (pipe : InfoPipe) (hm : Marked w.host) :
    Leads (saveOr env env' libunwind pipe) w fun _ w' => Marked w'.host := by
  have hall : Always (fun _ => True) (WorldInv Marked (fun _ => True) fun _ => True)
      (save env env' libunwind pipe) fun _ => True :=
    always_save procInv_marked stops_any (fun _ _ _ => trivial) libunwind pipe
  have hw : WorldInv Marked (fun _ => True) (fun _ => True) w :=
    ⟨hm, fun _ _ => ⟨trivial, trivial⟩, fun _ _ _ _ => trivial, trivial⟩
  have hsave : Leads (save env env' libunwind pipe) w fun _ w' => Marked w'.host :=
    (hall.keeps hw).imp fun _ _ hr => hr.host
  rw [save_eq] at hsave
  exact Meets.of_bind_pure hsave

theorem leads_saveOr_copied {n : Nat} {q : Nat × Nat} (libunwind : Bool) (pipe : InfoPipe)
    (hn : 0 < n) (hw : Holding (Buffered S n) (some q) w) :
    Leads (saveOr env env' libunwind pipe) w fun b w' => b = true → Copied libunwind S w' := by
  refine ((leaves_openStreams (coreOnly_buffered S n)).leads hw).andThen fun a w₁ h1 =>
    meets_bind (meets_get ?_)
  match a with
  | .error none => exact meets_pure nofun
  | .error (some info) => exact (leads_any (onHost _) w₁).andThen fun _ w₂ _ => meets_pure nofun
  | .ok (info, core) =>
    refine (leaves_startInfo.leads h1.1).andThen fun _ w₂ h2 => ?_
    refine (leads_copyCore libunwind h2.1).andThen fun _ w₃ h3 => ?_
    refine ((leaves_joinThread pipe).leads h3).andThen fun _ w₄ h4 => ?_
    refine ((leaves_onHost _).leads h4.1).andThen fun _ w₅ h5 => ?_
    refine ((leaves_onHost _).leads h5.1).andThen fun _ w₆ h6 => ?_
    have hdone : ∀ w₇ : World, Holding (Exactly (afterFeed libunwind n S)) (some q) w₇ →
        Copied libunwind S w₇ := fun w₇ h7 => Or.inr ⟨n, hn, h1.1.1.le, h7.1⟩
    exact ((leaves_onHost _).leads h6.1).andThen fun _ w₇ h7 => meets_pure fun _ => hdone w₇ h7.1

theorem leads_body_copied {pid : Int} (libunwind : Bool) (htee : w.tee = Tee.start S pid) :
    Leads (body env env' libunwind dir) w fun b w' => b = true → Copied libunwind S w' := by
  refine meets_bind (meets_get ?_)
  refine (leads_onHost_tee (leads_any (openCore env w.conf.corePath) w.host)).andThen
    fun _ w₁ h1 => (leads_startDumping (h1.2.trans htee)).andThen fun pipe w₂ h2 => ?_
  rcases h2 with hm | ⟨n, q, hn, hhold⟩
  · have hall : Always (fun _ => True) (WorldInv Marked (fun _ => True) fun _ => True)
        (readProc env dir) fun _ => True :=
      always_readProc procInv_marked.toHostInv stops_any fun _ => trivial
    have hw : WorldInv Marked (fun _ => True) (fun _ => True) w₂ :=
      ⟨hm, fun _ _ => ⟨trivial, trivial⟩, fun _ _ _ _ => trivial, trivial⟩
    refine (hall.leads hw).andThen fun _ w₃ h3 => ?_
    exact (leads_saveOr_marked libunwind pipe h3.1.host).imp fun _ _ hm _ => Or.inl hm
  · refine ((leaves_readProc (coreOnly_buffered S n)).leads hhold).andThen fun _ w₃ h3 => ?_
    exact leads_saveOr_copied libunwind pipe hn h3.1

/-- Whoever asks for help gets nothing else. -/
theorem leads_getopt_help {opts : List Opt} (hopts : Opt.h ∈ opts) (s : Settings) {h : Host} :
    Leads (getopt env s opts) h fun r _ => ∃ status, r = .error status := by
  have hstatus : ∀ {h : Host}, Leads (do return .error (← returnExitcode)) h
      fun (r : Except Nat Settings) _ => ∃ status, r = .error status := fun {h} =>
    (leads_any returnExitcode h).andThen fun code _ _ => meets_pure ⟨code, rfl⟩
  induction opts generalizing s h with
  | nil => cases hopts
  | cons opt opts ih =>
    cases opt with
    | c path content =>
      refine (leads_any (parseFile env path content s.state) h).andThen fun r h₁ _ => ?_
      cases r with
      | none => exact hstatus
      | some state => exact ih (by simpa using hopts) _
    | o line =>
      refine (leads_any (runLine s.state line) h).andThen fun r h₁ _ => ?_
      dsimp only
      split
      · exact hstatus
      · exact ih (by simpa using hopts) _
    | P arg =>
      refine (leads_any (optPid arg s.pid) h).andThen fun r h₁ _ => ?_
      cases r with
      | none => exact hstatus
      | some pid => exact ih (by simpa using hopts) _
    | h => exact meets_pure ⟨_, rfl⟩
    | unknown => exact meets_pure ⟨_, rfl⟩

def Silent (opts : List Opt) (libunwind : Bool) (S : List Byte) (t : Tee) : Prop :=
  (Opt.h ∈ opts ∧ ∃ pid, t = Tee.start S pid) ∨
    Opt.h ∉ opts ∧ ∃ n, 0 < n ∧ n ≤ S.length ∧ Exactly (afterFeed libunwind n S) t

theorem leads_program_silent {pid : Int} (libunwind : Bool) (opts : List Opt)
    (htee : w.tee = Tee.start S pid) :
    Leads (program env env' libunwind opts dir) w fun r w' =>
      r.status = 0 → Silent opts libunwind S w'.tee := by
  refine (leads_onHost_tee (leads_any (disableCoreGeneration env) w.host)).andThen fun _ w₁ h1 => ?_
  refine (leads_onHost_tee (leads_any openlog w₁.host)).andThen fun _ w₂ h2 =>
    meets_bind (meets_get ?_)
  have htee₂ : w₂.tee = Tee.start S pid := h2.2.trans (h1.2.trans htee)
  by_cases hopts : Opt.h ∈ opts
  · refine (leads_onHost_tee (leads_getopt_help hopts _)).andThen fun r w₃ h3 => ?_
    obtain ⟨⟨status, rfl⟩, htee₃⟩ := h3
    exact meets_pure fun _ => Or.inl ⟨hopts, pid, htee₃.trans htee₂⟩
  · refine (leads_onHost_tee (leads_getopt hopts _)).andThen fun r w₃ h3 => ?_
    cases r with
    | error status => exact meets_pure fun hzero => absurd hzero (h3.1 status rfl).1
    | ok s =>
      refine meets_bind (meets_modify ?_)
      have hset : (World.set s w₃).tee = Tee.start S s.pid := by
        show { w₃.tee with pid := s.pid } = _
        rw [h3.2, htee₂]
        rfl
      refine ((leads_body_copied libunwind hset).and (leads_body_tells libunwind)).andThen
        fun copied w₄ h4 => ?_
      refine (leads_onHost_tee leads_returnExitcode).andThen fun status w₅ h5 => meets_pure ?_
      obtain ⟨⟨-, rfl⟩, htee₅⟩ := h5
      intro hzero
      have hno : ¬Marked w₄.host := fun hm => exitcode_ne_zero hm hzero
      cases copied with
      | false => exact absurd (h4.2 rfl) hno
      | true =>
        obtain ⟨n, hn, hle, hexact⟩ := (h4.1 rfl).resolve_left hno
        exact Or.inr ⟨hopts, n, hn, hle, htee₅ ▸ hexact⟩

/-- **All that was read was written**, in a run with the exit status zero, exactly
if the build has libunwind and no `write` on the core output has failed, signals
apart; or if the run was one for help. -/
theorem program_delivers_iff {libunwind : Bool} {opts : List Opt} {fds : Table Desc}
    {names : List Str} {stdin : List Byte} {conf : Conf} {pid : Int} {o o' : List Answer}
    {r : Outcome} {w' : World}
    (hrun : program env env' libunwind opts dir (World.start fds names stdin conf pid) o =
      .done r w' o') (hstatus : r.status = 0) :
    Delivered stdin w'.tee ↔ Opt.h ∈ opts ∨ libunwind = true ∧ CoreWell w'.tee.io := by
  have hsilent := (leads_program_silent libunwind opts rfl).of_done (fun _ _ => trivial) hrun hstatus
  rcases hsilent with ⟨hopts, pid', htee⟩ | ⟨hopts, n, hn, hle, hexact⟩
  · refine iff_of_true ?_ (Or.inl hopts)
    rw [htee]
    exact ⟨[], rfl, rfl⟩
  · rw [or_iff_right hopts]
    cases libunwind with
    | true =>
      rw [and_iff_right rfl]
      exact hexact.delivered_iff
    | false =>
      refine iff_of_false (fun hdel => ?_) fun h => nomatch h.1
      have hlen := congrArg List.length (delivered_iff.mp hdel)
      have hdrop : w'.tee.core.length + w'.tee.stdin.length ≤ (stdin.drop n).length :=
        hexact.length_le
      rw [List.length_append] at hlen
      rw [List.length_drop] at hdrop
      omega

def fileOpts : List Opt := [.o (lit "core_output=/c"), .o (lit "proc_ignore=1"), .o (lit "proc_exe=/x")]

def fileAnswers : List Answer :=
  (List.replicate 13 [Answer.prepared 42, .prepared 42, .thread .closePipe]).flatten

theorem program_delivers_iff_one :
    let env := Env.plain (-1) none
    let w := World.start (Host.std []).fds [] [7] {} (-1)
    ∃ r w' o', program env env true fileOpts { exe := [] } w fileAnswers = .done r w' o' ∧
      r.status = 0 ∧ (Delivered [7] w'.tee ↔
        Opt.h ∈ fileOpts ∨ true = true ∧ CoreWell w'.tee.io) := by
  intro env w
  have hafter : (program env env true fileOpts { exe := [] } w fileAnswers).After
      fun r _ => r.status = 0 := by
    decide +kernel
  obtain ⟨r, w', o', hrun, hstatus⟩ := hafter.exists
  exact ⟨r, w', o', hrun, hstatus, program_delivers_iff hrun hstatus⟩

/-- The only `write` on the core output fails, and the exit status is zero. -/
theorem not_program_delivers :
    let env := Env.plain (-1) none
    let w := World.start (Host.std []).fds [] [7] {} (-1)
    ∃ r w' o', program env env true fileOpts { exe := [] } w (fileAnswers.set 32 (.err .other)) =
      .done r w' o' ∧ r.copied = true ∧ r.status = 0 ∧ ¬Delivered [7] w'.tee := by
  intro env w
  have hafter : (program env env true fileOpts { exe := [] } w
      (fileAnswers.set 32 (.err .other))).After
        fun r w' => r.copied = true ∧ r.status = 0 ∧ w'.tee.core ++ w'.tee.stdin ≠ [7] := by
    decide +kernel
  obtain ⟨r, w', o', hrun, hcopied, hstatus, hne⟩ := hafter.exists
  exact ⟨r, w', o', hrun, hcopied, hstatus, fun h => hne (delivered_iff.mp h)⟩

end Main

end Crashinfo
