import Crashinfo.Main.Bounds
import Crashinfo.Main.Loss

/-!
# Gaps in the core

`main` goes on with the next chunk whatever became of the last one, and the build
without libunwind drops what it has fed to the thread.  Neither does any harm as long
as nothing is written behind the gap: then the core output has a beginning of the core
(`tee_core_prefix`).
-/

namespace Crashinfo

open Script Script.Run Journal

/-- The build without libunwind leaves out what was read for the thread. -/
def LeavesOut (libunwind : Bool) (pipe : InfoPipe) (S : List Byte) (o : List Answer) : Prop :=
  pipe = .thread ∧ libunwind = false ∧ S ≠ [] ∧ ¬FirstReadFails .core o

/-- A call on the core output that moves something does so behind no call that failed,
and only if `ok`. -/
def Behind (ok : Prop) (io : List Io) : Prop :=
  Each (fun pre e => e.chan = .core → 0 < e.moved → CoreWell pre ∧ ok) io

/-- **No call writes behind a gap**: not behind a call on the core output that failed, and
not at all if the first bytes were left out. -/
def NoGap (libunwind : Bool) (pipe : InfoPipe) (S : List Byte) (o : List Answer)
    (io : List Io) : Prop :=
  Behind (¬LeavesOut libunwind pipe S o) io

/-- The core output has a beginning of `S`, if nothing was written behind a gap. -/
def Begins (ok : Prop) (S : List Byte) (t : Tee) : Prop := Behind ok t.io → t.core <+: S

/-- Besides, nothing is missing yet if no call has failed. -/
structure Along (ok : Prop) (S : List Byte) (t : Tee) : Prop where
  begins : Begins ok S t
  exact : ok → CoreWell t.io → t.core ++ t.stdin = S

/-! ### What does not write to the core output -/

section Calls

variable {ok : Prop} {S : List Byte} {t t' : Tee} {J : Tee → Prop}

/-- `J` is about the core output and what was recorded so far. -/
def Grows (J : Tee → Prop) : Prop := ∀ t t', J t → t'.core = t.core → t.io <+: t'.io → J t'

theorem grows_begins : Grows (Begins ok S) := by
  intro t t' h hcore hio hbehind
  rw [hcore]
  exact h (hbehind.before hio)

theorem growing_read (hJ : Grows J) (off count : Nat) :
    Minding (fun _ => True) J (read off count) :=
  fun _ ht => meets_read ⟨trivial, ht⟩ (fun _ => ⟨trivial, ht⟩)
    (fun _ => ⟨hJ _ _ ht rfl (List.prefix_append _ _), trivial⟩)
    fun _ _ _ => ⟨hJ _ _ ht rfl (List.prefix_append _ _), trivial⟩

theorem growing_writeInfo (hJ : Grows J) (off count : Nat) :
    Minding (fun _ => True) J (writeInfo off count) :=
  fun _ ht => meets_writeInfo ⟨trivial, ht⟩ (fun _ _ _ => ⟨trivial, ht⟩)
    (fun _ _ => ⟨trivial, hJ _ _ ht rfl (List.prefix_append _ _)⟩)
    (fun _ _ _ => ⟨hJ _ _ ht rfl (List.prefix_append _ _), trivial⟩)
    fun _ _ _ _ _ => ⟨hJ _ _ ht rfl (List.prefix_append _ _), trivial⟩

theorem growing_safeRead (hJ : Grows J) (count : Nat) :
    Minding (fun _ => True) J (safeRead count) :=
  minding_safeIo stops_any.cut (growing_read hJ) count

theorem growing_safeWriteInfo (hJ : Grows J) (off count : Nat) :
    Minding (fun _ => True) J (safeWriteInfo off count) :=
  minding_safeIo stops_any.cut (fun _ _ => growing_writeInfo hJ _ _) count

theorem growing_feedRest (hJ : Grows J) (rtn : Except Errno Nat) :
    Minding (fun _ => True) J (feedRest rtn) :=
  always_feedRest trivial (fun _ _ _ ht => hJ _ _ ht rfl List.prefix_rfl) (growing_safeWriteInfo hJ)
    (always_readPid trivial fun _ _ ht _ => hJ _ _ ht rfl List.prefix_rfl) rtn

theorem growing_blockfd (hJ : Grows J) : Minding (fun _ => True) J blockfd :=
  always_blockfd trivial fun _ ht => hJ _ _ ht rfl List.prefix_rfl

/-! ### A chunk -/

/-- Nothing of the core is missing in front of a call that writes. -/
theorem Begins.write {off m count : Nat} (h : Begins ok S t)
    (hnext : ok → CoreWell t.io → t.core ++ slice t.buf off m <+: S) :
    Begins ok S { t with
      core := t.core ++ slice t.buf off m, io := t.io ++ [⟨.core, off, count, .ok m⟩] } := by
  intro hbehind
  by_cases hpos : 0 < m
  · obtain ⟨-, hlast⟩ := each_snoc.mp hbehind
    obtain ⟨hwell, hok⟩ := hlast rfl hpos
    exact hnext hok hwell
  · obtain rfl : m = 0 := by omega
    rw [slice_zero, List.append_nil]
    exact h (hbehind.before (List.prefix_append _ _))

/-- **`safe_write` of a chunk** that is the next one, if nothing is missing. -/
theorem begins_safeWriteCore {n : Nat} {rest : List Byte} (h : Begins ok S t)
    (hin : n ≤ t.buf.length) (hnext : ok → CoreWell t.io → t.core ++ t.buf.take n ++ rest = S) :
    Meets (fun _ => True) (safeWriteCore 0 n) t (fun _ t' => Begins ok S t')
      fun _ t' => Begins ok S t' := by
  refine meets_safeIo (fun size s => Begins ok S s ∧ size ≤ n ∧ ∃ l,
    s = { t with core := t.core ++ slice t.buf 0 size, io := t.io ++ l }) (fun _ _ hs => hs.1)
    (fun size s hs => ?_) ⟨h, Nat.zero_le _, [], by rw [slice_zero, List.append_nil, List.append_nil]⟩
  obtain ⟨hbegins, hle, l, rfl⟩ := hs
  have hgrow : ∀ r, Begins ok S { t with
      core := t.core ++ slice t.buf 0 size
      io := t.io ++ l ++ [⟨.core, 0 + size, n - size, r⟩] } := fun r =>
    grows_begins _ _ hbegins rfl (List.prefix_append _ _)
  refine meets_writeCore hbegins (fun _ _ n => hgrow (.ok n)) ?_ ?_
  · intro e _
    refine elim_repeatOr_error
      (fun _ => ⟨hgrow _, hle, l ++ [⟨.core, 0 + size, n - size, .error e⟩], ?_⟩)
      (fun _ _ _ => hgrow _) hle
    rw [List.append_assoc]
  · intro m hm _
    have hcore : t.core ++ slice t.buf 0 size ++ slice t.buf (0 + size) m =
        t.core ++ slice t.buf 0 (size + m) := by
      rw [slice_add, List.append_assoc]
    have hnext' : ok → CoreWell (t.io ++ l) →
        t.core ++ slice t.buf 0 size ++ slice t.buf (0 + size) m <+: S := by
      intro hok hwell
      have hall := hnext hok ((coreWell_append _ _).mp hwell).1
      rw [hcore, slice_of_take (by omega) hin rfl, List.drop_zero, ← hall, List.append_assoc]
      apply (List.prefix_append_right_inj _).mpr
      exact (List.take_prefix_take_left (by omega)).trans (List.prefix_append _ _)
    refine elim_repeatOr_ok
      ⟨hbegins.write hnext', by omega, l ++ [⟨.core, 0 + size, n - size, .ok m⟩], ?_⟩
      (fun _ _ => hbegins.write hnext') (by omega)
    dsimp only
    rw [hcore, List.append_assoc]

end Calls

/-! ### The three phases -/

section Phases

variable {ok : Prop} {S : List Byte} {t : Tee}

theorem begins_of_core_nil (h : t.core = []) : Begins ok S t := fun _ => h ▸ List.nil_prefix

/-- What does not write to the core output leaves it as it was, wherever it stops. -/
theorem meets_begins {α : Type} {m : TeeRun α} (hm : Minding (fun _ => True) (Begins ok S) m)
    (h : Begins ok S t) :
    Meets (fun _ => True) m t (fun _ t' => Begins ok S t') fun _ t' => Begins ok S t' :=
  (hm t h).mono (fun _ _ hr => hr.1) fun _ _ hk => hk.2

theorem Along.same {t' : Tee} (h : Along ok S t) (hb : Begins ok S t') (hs : SameCore t t') :
    Along ok S t' where
  begins := hb
  exact := fun hok hwell => by
    rw [hs.core, hs.stdin]
    exact h.exact hok (hs.well.mp hwell)

theorem along_safeWriteInfo (h : Along ok S t) (off count : Nat) :
    Meets (fun _ => True) (safeWriteInfo off count) t (fun _ t' => Along ok S t')
      fun _ t' => Begins ok S t' :=
  ((meets_begins (growing_safeWriteInfo grows_begins off count) h.begins).and_any
    (safeWriteInfo_same off count t)).imp fun _ _ hr => h.same hr.1 hr.2

/-- **A turn of the copy loop.** -/
theorem along_copyTurn (h : Along ok S t) (infoFd : Bool) :
    Meets (fun _ => True) (copyTurn infoFd) t (fun _ t' => Along ok S t') fun _ t' => Begins ok S t' := by
  have hread := meets_begins (growing_safeRead grows_begins bufSize) h.begins
  refine (hread.and_any (safeRead_exact bufSize t)).andThen fun r t₁ hr => ?_
  obtain ⟨hbegins, ⟨n, buf, io, rfl, hs, hb, htake, ⟨-, hres⟩, -, -⟩, hwell⟩ := hr
  have hexact : ok → CoreWell io → t.core ++ t.stdin.take n ++ t.stdin.drop n = S := by
    intro hok hio
    rw [List.append_assoc, List.take_append_drop]
    exact h.exact hok (hwell.mp hio)
  rcases hres with rfl | ⟨rfl, e, rfl⟩
  · dsimp only
    split
    · have hwrite := begins_safeWriteCore hbegins hb (by rw [htake]; exact hexact)
      refine (hwrite.and_any (safeWriteCore_exact 0 n _)).andThen fun r t₂ hr => ?_
      obtain ⟨hbegins, m, l, rfl, ⟨hm, -⟩, hl⟩ := hr
      have halong : Along ok S { t with
          core := t.core ++ slice buf 0 m, stdin := t.stdin.drop n, buf := buf, io := io ++ l } := by
        refine ⟨hbegins, fun hok hall => ?_⟩
        obtain ⟨h1, h2⟩ := (coreWell_append io l).mp hall
        rw [hl.mp h2, slice_of_take (Nat.le_of_eq (Nat.zero_add n)) hb htake, List.drop_zero]
        exact hexact hok h1
      split
      · exact (along_safeWriteInfo halong 0 n).andThen fun _ _ h' => meets_pure h'
      · exact meets_pure halong
    · rename_i hn
      obtain rfl : n = 0 := by omega
      exact meets_pure ⟨hbegins, fun hok hio => h.exact hok (hwell.mp hio)⟩
  · exact meets_pure ⟨hbegins, fun hok hio => h.exact hok (hwell.mp hio)⟩

theorem along_copying (h : Along ok S t) (infoFd : Bool) :
    Meets (fun _ => True) (forever (fun _ => copyTurn infoFd) ()) t (fun _ t' => Along ok S t')
      fun _ t' => Begins ok S t' :=
  (meets_forever (fun _ t => Along ok S t) (fun _ _ h => h.begins) (fun _ _ h =>
    (along_copyTurn h infoFd).imp fun r _ h' => by cases r <;> exact h') h)

/-- `main` catches up on what is in the buffer, or leaves it out. -/
theorem along_catchUp {n : Nat} (h : Buffered S n t) (libunwind infoFd : Bool)
    (hout : ok → n = 0 ∨ libunwind = true ∧ infoFd = true) :
    Meets (fun _ => True) (catchUp libunwind infoFd) t (fun _ t' => Along ok S t')
      fun _ t' => Begins ok S t' := by
  have hnone : n = 0 → t.core ++ t.stdin = S := by
    rintro rfl
    rw [h.core, h.stdin, List.nil_append, List.drop_zero]
  rw [catchUp]
  split
  swap
  · rename_i hfd
    exact meets_pure ⟨begins_of_core_nil h.core, fun hok _ =>
      hnone ((hout hok).resolve_right fun hboth => hfd hboth.2)⟩
  split
  swap
  · rename_i hno
    exact meets_modify ⟨begins_of_core_nil h.core, fun hok _ =>
      hnone ((hout hok).resolve_right fun hboth => hno hboth.1)⟩
  have hblock : Leads blockfd t fun _ t' => SameCore t t' := by
    refine (blockfd_spec t).imp fun _ t' h => ?_
    obtain ⟨b, rfl⟩ := h
    exact ⟨rfl, rfl, rfl, rfl, Iff.rfl⟩
  have hnil : Begins ok S t := begins_of_core_nil h.core
  have hbegins := meets_begins (growing_blockfd grows_begins) hnil
  refine (hbegins.and_any hblock).andThen fun _ t₁ hr => meets_bind (meets_get ?_)
  obtain ⟨hbegins, hsame⟩ := hr
  have h1 := h.same hsame
  rw [h1.bufRead, sizeT_of_nat h1.size]
  have hall : t₁.core ++ t₁.buf.take n ++ t₁.stdin = S := by
    rw [h1.core, h1.buf, h1.stdin, List.nil_append, List.take_append_drop]
  have hwrite := begins_safeWriteCore hbegins h1.inside fun _ _ => hall
  refine (hwrite.and_any (safeWriteCore_exact 0 n t₁)).andThen fun r t₂ hr => ?_
  obtain ⟨hbegins, m, l, rfl, -, hl⟩ := hr
  have halong : Along ok S { t₁ with core := t₁.core ++ slice t₁.buf 0 m, io := t₁.io ++ l } := by
    refine ⟨hbegins, fun _ hwell => ?_⟩
    obtain ⟨-, h2⟩ := (coreWell_append t₁.io l).mp hwell
    rw [hl.mp h2, slice_of_take (Nat.le_of_eq (Nat.zero_add n)) h1.inside rfl, List.drop_zero]
    exact hall
  split
  · exact (along_safeWriteInfo halong _ _).andThen fun _ _ h' => meets_pure h'
  · exact meets_pure halong

theorem along_transfer {n : Nat} (h : Buffered S n t) (libunwind infoFd : Bool)
    (hout : ok → n = 0 ∨ libunwind = true ∧ infoFd = true) :
    Meets (fun _ => True) (transfer libunwind infoFd) t (fun _ t' => Begins ok S t')
      fun _ t' => Begins ok S t' :=
  (along_catchUp h libunwind infoFd hout).andThen fun _ _ h' =>
    (along_copying h' infoFd).imp fun _ _ h'' => h''.begins

end Phases

/-! ### The whole copying -/

section Whole

variable {S : List Byte} {pid : Int} {libunwind : Bool} {pipe : InfoPipe} {o : List Answer}

theorem buffered_start : Buffered S 0 (Tee.start S pid) :=
  ⟨rfl, Nat.zero_le _, Nat.zero_le _, Nat.zero_le _, rfl, rfl, rfl, nofun⟩

theorem meets_first {ok : Prop} {n : Nat} {t : Tee}
    (h : ReadAll bufSize (Tee.start S pid) (.ok n) t ∧ (CoreWell t.io ↔ CoreWell [])) :
    Meets (fun _ => True) (feedRest (.ok n)) t (fun _ t' => Buffered S n t')
      fun _ t' => Begins ok S t' := by
  have hcore : t.core = [] := by
    obtain ⟨⟨m, buf, io, rfl, -⟩, -⟩ := h
    rfl
  have hnil : Begins ok S t := begins_of_core_nil hcore
  exact ((meets_begins (growing_feedRest grows_begins (.ok n)) hnil).and_any
    (leads_feedRest h)).imp fun _ _ hr => hr.2.1

/-- Without libunwind, and without anything read, the copy loop is all there is. -/
theorem meets_dropped {ok : Prop} {t : Tee} (h : Along ok S t) :
    Meets (fun _ => True) (transfer false true) t (fun _ t' => Begins ok S t')
      fun _ t' => Begins ok S t' := by
  have halong : Along ok S { t with infoOpen := false } := ⟨h.begins, h.exact⟩
  refine meets_bind (meets_modify ?_)
  exact (along_copying halong true).imp fun _ _ h' => h'.begins

/-- With libunwind, or with nothing to read, all that was read for the thread is caught up on. -/
theorem caught_up {n : Nat} {t : Tee} {o₁ : List Answer}
    (hrun : safeRead bufSize (Tee.start S pid) o = .done (.ok n) t o₁)
    (hall : ReadAll bufSize (Tee.start S pid) (.ok n) t) (hno : ¬LeavesOut libunwind .thread S o) :
    n = 0 ∨ libunwind = true := by
  cases libunwind with
  | true => exact Or.inr rfl
  | false =>
    left
    by_contra hn
    refine hno ⟨rfl, rfl, ?_, fun hfails => ?_⟩
    · rintro rfl
      obtain ⟨m, buf, io, -, hs, -, -, hmoved, -, -⟩ := hall
      obtain rfl := hmoved.eq_of_ok
      exact hn (Nat.le_zero.mp hs)
    · have hcore : FirstReadFails (Tee.start S pid).input o := hfails
      obtain ⟨e, t', o', heq⟩ := (firstReadFails_iff o).mp hcore
      cases hrun.symm.trans heq

/-- A read that fails leaves all of the core for the copy loop. -/
theorem along_failed {ok : Prop} {e : Errno} {t : Tee}
    (hall : ReadAll bufSize (Tee.start S pid) (.error e) t) :
    Along ok S { t with bufRead := -1, bufWrite := 0 } := by
  obtain ⟨m, buf, io, rfl, -, -, -, hmoved, -, -⟩ := hall
  obtain rfl := hmoved.eq_zero
  exact ⟨begins_of_core_nil rfl, fun _ _ => rfl⟩

/-- A first read that fails makes the call on the core output fail that catches up on it. -/
theorem along_missed {ok : Prop} {t : Tee} (hcore : t.core = []) (hread : t.bufRead = -1)
    (hwrite : t.bufWrite = 0) :
    Meets (fun _ => True) (catchUp true true) t (fun _ t' => Along ok S t')
      fun _ t' => Begins ok S t' := by
  refine (meets_catchUp_failed hread hwrite).mono ?_ fun _ _ hk =>
    begins_of_core_nil (hk.2.trans hcore)
  rintro _ _ ⟨b, rfl⟩
  refine ⟨begins_of_core_nil hcore, fun _ hwell => ?_⟩
  cases hwell _ List.mem_concat_self rfl _ rfl

theorem tee_begins : Begins (¬LeavesOut libunwind pipe S o) S
    (tee libunwind pipe (Tee.start S pid) o).state := by
  have hstart : Begins (¬LeavesOut libunwind pipe S o) S (Tee.start S pid) :=
    begins_of_core_nil rfl
  by_cases hpipe : pipe = .thread
  swap
  · have hfirst : Buffered S 0 (Tee.start S pid) := buffered_start
    have hleft : Buffered S 0 (pipe.leave (Tee.start S pid)) :=
      hfirst.same ⟨rfl, rfl, rfl, rfl, Iff.rfl⟩
    rw [tee, if_neg hpipe]
    exact (meets_bind (meets_modify
      (along_transfer hleft libunwind _ fun _ => Or.inl rfl))).state o
  subst hpipe
  have hread := (meets_begins (growing_safeRead grows_begins bufSize) hstart).and_any
    (safeRead_exact bufSize (Tee.start S pid))
  have hrun := hread o fun _ _ => trivial
  rw [tee_thread]
  cases hres : safeRead bufSize (Tee.start S pid) o with
  | stop why t₁ =>
    rw [hres] at hrun
    rw [bind_of_stop hres]
    exact hrun
  | done r t₁ o₁ =>
    rw [hres] at hrun
    obtain ⟨-, hbegins, hall, hwell⟩ := hrun
    rw [bind_of_done hres]
    cases r with
    | ok n =>
      have hout : ¬LeavesOut libunwind .thread S o → n = 0 ∨ libunwind = true ∧ true = true :=
        fun hno => (caught_up hres hall hno).imp_right fun h => ⟨h, rfl⟩
      exact ((meets_first ⟨hall, hwell⟩).andThen fun _ _ h =>
        along_transfer h libunwind true hout).state o₁
    | error e =>
      have hfeed : feedRest (.error e) t₁ o₁ =
          .done false { t₁ with bufRead := -1, bufWrite := 0 } o₁ := rfl
      rw [bind_of_done hfeed]
      cases libunwind with
      | false => exact (meets_dropped (along_failed hall)).state o₁
      | true =>
        have hcore : ({ t₁ with bufRead := -1, bufWrite := 0 } : Tee).core = [] := by
          obtain ⟨m, buf, io, rfl, -⟩ := hall
          rfl
        exact ((along_missed hcore rfl rfl).andThen fun _ _ h =>
          (along_copying h true).imp fun _ _ h' => h'.begins).state o₁

/-- **The core output has a beginning of the core**, in every run that writes nothing behind
a gap, wherever it stops. -/
theorem tee_core_prefix
    (h : NoGap libunwind pipe S o (tee libunwind pipe (Tee.start S pid) o).state.io) :
    (tee libunwind pipe (Tee.start S pid) o).state.core <+: S ∧
      ∀ f, ¬(tee libunwind pipe (Tee.start S pid) o).Faults f :=
  ⟨tee_begins h, tee_not_faults (counted_start S pid .core _) libunwind pipe o⟩

end Whole

/-- Where no call on the core output fails, nothing is written behind one that has. -/
theorem behind_of_coreWell {ok : Prop} {io : List Io} (hok : ok) (h : CoreWell io) :
    Behind ok io := by
  rintro pre e post rfl _ _
  exact ⟨((coreWell_append _ _).mp h).1, hok⟩

/-- Two bytes, one at a time; the second one cannot be written. -/
theorem tee_core_prefix_full :
    let o : List Answer := [.amount 0, .err .other, .ok, .amount 0, .err .other, .err .other, .ok]
    let r := tee true .absent (Tee.start [1, 2] 1) o
    r.state.core = [1] ∧ r.state.core <+: [1, 2] ∧ ∀ f, ¬r.Faults f := by
  intro o r
  have hio : r.state.io = [⟨.stdin, 0, 32768, .ok 1⟩, ⟨.stdin, 1, 32767, .error .other⟩,
      ⟨.core, 0, 1, .ok 1⟩, ⟨.stdin, 0, 32768, .ok 1⟩, ⟨.stdin, 1, 32767, .error .other⟩] ++
      [⟨.core, 0, 1, .error .other⟩] ++ [⟨.stdin, 0, 32768, .ok 0⟩] := by
    decide
  have hgap : NoGap true .absent [1, 2] o r.state.io := by
    rw [NoGap, hio]
    refine each_snoc.mpr ⟨each_snoc.mpr ⟨?_, fun _ hpos => absurd hpos (by decide)⟩, nofun⟩
    exact behind_of_coreWell (fun h => nomatch h.1) (by decide)
  exact ⟨by decide, tee_core_prefix hgap⟩

/-- The first of two bytes cannot be written, and the second one can. -/
theorem not_tee_core_prefix :
    let o : List Answer := [.amount 0, .err .other, .err .other, .amount 0, .err .other, .ok]
    let r := tee true .absent (Tee.start [1, 2] 1) o
    r.state.core = [2] ∧ ¬r.state.core <+: [1, 2] := by
  decide

end Crashinfo
