import Crashinfo.Main.Bounds

/-!
# The two builds

With libunwind, `main` writes all of the core to the info pipe as well, and without
it closes the pipe before the copy loop.  So the first build may come to wait for ever
and the other one may not: if the thread could not be created, nobody reads the pipe,
and still its other end is open.  And the second build loses what was read to feed the
thread.

No call waits for ever if the pipe has a reader or is closed (`moving_copying`).  If
nobody reads it, what it holds is what the core output has got, so the copying comes to
its end just if all of the core fits the pipe (`copying_unread`, `libunwind_iff`).
-/

namespace Crashinfo

open Script Script.Run

def BlockfdFails : List Answer → Prop
  | .err _ :: _ => True
  | _ => False

instance (o : List Answer) : Decidable (BlockfdFails o) := by
  unfold BlockfdFails
  split <;> infer_instance

/-! ### Where no call waits for ever -/

section Moving

variable {J : Tee → Prop} {α : Type}

/-- `J` says what descriptor 0 and the info pipe are, and that the core is on the first. -/
structure Still (J : Tee → Prop) : Prop where
  input : ∀ t, J t → t.input = .core
  same : ∀ t t', J t → t'.input = t.input → t'.unread = t.unread →
    t'.infoOpen = t.infoOpen → J t'

theorem still_input : Still fun t => t.input = .core where
  input := fun _ ht => ht
  same := fun _ _ ht heq _ _ => heq.trans ht

theorem still_served : Still Tee.Served where
  input := fun _ ht => ht.input
  same := fun _ _ ht hin hread _ => ⟨hin.trans ht.input, hread.trans ht.read⟩

theorem still_closed : Still fun t => t.input = .core ∧ t.infoOpen = false where
  input := fun _ ht => ht.1
  same := fun _ _ ht hin _ hopen => ⟨hin.trans ht.1, hopen.trans ht.2⟩

/-- No call of `m` waits for ever, and `J` stays. -/
abbrev Moving (J : Tee → Prop) (m : TeeRun α) : Prop :=
  Always (· ≠ Stop.stuck) J m fun _ => True

theorem moving_safeRead (hJ : Still J) (count : Nat) : Moving J (safeRead count) := by
  refine minding_safeIo Stop.cut_ne_stuck (fun off n t ht => ?_) count
  refine meets_read ⟨Stop.cut_ne_stuck, ht⟩ (fun hne => absurd (hJ.input t ht) hne) ?_ ?_
  · exact fun e => ⟨hJ.same t _ ht rfl rfl rfl, trivial⟩
  · exact fun m _ _ => ⟨hJ.same t _ ht rfl rfl rfl, trivial⟩

theorem moving_safeWriteCore (hJ : Still J) (off count : Nat) :
    Moving J (safeWriteCore off count) := by
  refine minding_safeIo Stop.cut_ne_stuck (fun size n t ht => ?_) count
  refine meets_writeCore ⟨Stop.cut_ne_stuck, ht⟩ (fun _ _ m => ?_) ?_ ?_
  · exact ⟨Stop.fault_ne_stuck _, hJ.same t _ ht rfl rfl rfl⟩
  · exact fun e _ => ⟨hJ.same t _ ht rfl rfl rfl, trivial⟩
  · exact fun m _ _ => ⟨hJ.same t _ ht rfl rfl rfl, trivial⟩

theorem moving_safeWriteInfo (hJ : Still J) (hfree : ∀ t w n, J t → t.infoRes w n ≠ none)
    (off count : Nat) : Moving J (safeWriteInfo off count) := by
  refine minding_safeIo Stop.cut_ne_stuck (fun size n => ?_) count
  refine always_bind (always_ask Stop.cut_ne_stuck) fun w _ => fun t ht => ?_
  refine meets_bind (meets_get ?_)
  cases hr : t.infoRes w n with
  | none => exact absurd hr (hfree t w n ht)
  | some r =>
    refine meets_bind (meets_modify ?_)
    cases r with
    | error e => exact meets_bind (meets_modify (meets_pure ⟨hJ.same t _ ht rfl rfl rfl, trivial⟩))
    | ok m =>
      dsimp only
      split
      · exact meets_fault ⟨Stop.fault_ne_stuck _, hJ.same t _ ht rfl rfl rfl⟩
      · exact meets_bind (meets_modify (meets_pure ⟨hJ.same t _ ht rfl rfl rfl, trivial⟩))

theorem moving_copying (hJ : Still J) (infoFd : Bool)
    (hfree : infoFd = true → ∀ t w n, J t → t.infoRes w n ≠ none) :
    Moving J (forever (fun _ => copyTurn infoFd) ()) := by
  refine always_forever (fun _ => True) Stop.cut_ne_stuck (fun _ _ => ?_) trivial
  have hturn : Moving J (copyTurn infoFd) := always_copyTurn (moving_safeRead hJ bufSize)
    (moving_safeWriteCore hJ 0) fun hfd => moving_safeWriteInfo hJ (hfree hfd) 0
  refine hturn.mono fun r _ => ?_
  cases r <;> trivial

theorem infoRes_ne_none (t : Tee) (w : Answer) (n : Nat) (h : t.Served) : t.infoRes w n ≠ none := by
  have hsays := infoRes_says t w n
  intro hnone
  rw [hnone] at hsays
  cases hsays with
  | waits hu => rw [h.read] at hu; cases hu

/-- **With a reader of the pipe no call waits for ever**, in either build. -/
theorem moving_tee (libunwind : Bool) : Moving Tee.Served (tee libunwind .thread) := by
  have hinfo := moving_safeWriteInfo still_served infoRes_ne_none
  have hpid : Moving Tee.Served readPid :=
    always_readPid Stop.cut_ne_stuck fun _ _ ht _ => ⟨ht.input, ht.read⟩
  rw [tee_thread]
  refine always_bind (moving_safeRead still_served bufSize) fun r _ => ?_
  refine always_bind (always_feedRest Stop.cut_ne_stuck (fun _ _ _ ht => ⟨ht.input, ht.read⟩)
    hinfo hpid r) fun _ _ => ?_
  refine always_bind (always_catchUp
    (always_blockfd Stop.cut_ne_stuck fun _ ht => ⟨ht.input, ht.read⟩)
    (fun _ ht => ⟨ht.input, ht.read⟩) (moving_safeWriteCore still_served 0) hinfo libunwind true)
    fun _ _ => ?_
  exact moving_copying still_served true fun _ => infoRes_ne_none

/-- **Without libunwind no call waits for ever**, as the pipe is closed, and without a pipe
neither. -/
theorem moving_transfer {libunwind infoFd : Bool} {t : Tee} (h : t.input = .core)
    (hno : libunwind = false ∨ infoFd = false) :
    Meets (fun _ => True) (transfer libunwind infoFd) t (fun _ _ => True)
      fun why _ => why ≠ .stuck := by
  cases infoFd with
  | false =>
    have hcopy := moving_copying still_input false Bool.noConfusion t h
    exact meets_bind (meets_pure (hcopy.mono (fun _ _ _ => trivial) fun _ _ hk => hk.1))
  | true =>
    obtain rfl := hno.resolve_right Bool.noConfusion
    have hclosed : ∀ (t : Tee) (w : Answer) (n : Nat),
        t.input = .core ∧ t.infoOpen = false → t.infoRes w n ≠ none := by
      intro t w n ht hnone
      unfold Tee.infoRes at hnone
      rw [ht.2] at hnone
      cases hnone
    have hcopy := moving_copying still_closed true (fun _ => hclosed)
      { t with infoOpen := false } ⟨h, rfl⟩
    exact meets_bind (meets_modify (hcopy.mono (fun _ _ _ => trivial) fun _ _ hk => hk.1))

end Moving

/-! ### A pipe that nobody reads -/

section Unread

variable {b : Bool} {room : Nat} {S : List Byte} {t : Tee}

/-- Nobody reads the info pipe, but its other end is open; `b` says that it does not
block, and `room` how much it holds. -/
structure Unread (b : Bool) (room : Nat) (t : Tee) : Prop where
  input : t.input = .core
  unread : t.unread = true
  nonblock : t.nonblock = b
  capacity : t.room = room
  whole : t.broken = false
  fits : t.info.length ≤ room

/-- What is written to such a pipe stays there, and what does not fit is waited for. -/
theorem meets_writeUnread (h : Unread b room t) (off count : Nat) :
    Meets (fun _ => True) (safeWriteInfo off count) t (fun _ t' => Unread b room t')
      fun why t' => why = .stuck → t.io <+: t'.io ∧ b = false ∧ room < t.info.length + count := by
  refine meets_safeIo (fun size s => Unread b room s ∧ t.io <+: s.io ∧ size ≤ count ∧
    s.info.length = t.info.length + size) (fun _ _ _ hw => absurd hw Stop.cut_ne_stuck) ?_
    ⟨h, List.prefix_refl _, Nat.zero_le _, rfl⟩
  rintro size s ⟨hs, hio, hsize, hlen⟩
  refine meets_writeInfo (fun hw => absurd hw Stop.cut_ne_stuck) (fun _ hblock hfull _ => ?_)
    (fun _ _ hw => absurd hw (Stop.fault_ne_stuck _)) (fun e _ hpipe => ?_)
    fun n hn _ _ hroom => ?_
  · rw [hs.capacity] at hfull
    have := hs.fits
    exact ⟨hio, hs.nonblock.symm.trans hblock, by omega⟩
  · have hpre : t.io <+: s.io ++ [⟨.info, off + size, count - size, .error e⟩] :=
      hio.trans (List.prefix_append _ _)
    have hne : e ≠ .epipe := by
      intro he
      have hbroken := hpipe he hs.unread
      rw [hs.whole] at hbroken
      cases hbroken
    have hnext : Unread b room { s with
        broken := s.broken || decide (e = .epipe)
        io := s.io ++ [⟨.info, off + size, count - size, .error e⟩] } := by
      refine ⟨hs.input, hs.unread, hs.nonblock, hs.capacity, ?_, hs.fits⟩
      rw [hs.whole, decide_eq_false hne]
      rfl
    exact elim_repeatOr_error (fun _ => ⟨hnext, hpre, hsize, hlen⟩) (fun _ _ _ => hnext) hsize
  · have hpre : t.io <+: s.io ++ [⟨.info, off + size, count - size, .ok n⟩] :=
      hio.trans (List.prefix_append _ _)
    have hfits := hroom hs.unread
    rw [hs.capacity] at hfits
    have hlen' : (s.info ++ slice s.buf (off + size) n).length = s.info.length + n := by
      rw [List.length_append, length_slice]
    have hnext : Unread b room { s with
        info := s.info ++ slice s.buf (off + size) n
        io := s.io ++ [⟨.info, off + size, count - size, .ok n⟩] } := by
      refine ⟨hs.input, hs.unread, hs.nonblock, hs.capacity, hs.whole, ?_⟩
      have := hs.fits
      show (s.info ++ slice s.buf (off + size) n).length ≤ room
      omega
    have hle : size + n ≤ count := by omega
    refine elim_repeatOr_ok ⟨hnext, hpre, hle, ?_⟩ (fun _ _ => hnext) hle
    show (s.info ++ slice s.buf (off + size) n).length = t.info.length + (size + n)
    omega

/-- If the run waits for ever, then because not all of the core fits. -/
def Overfull (b : Bool) (room : Nat) (S : List Byte) (why : Stop Fault) (t : Tee) : Prop :=
  why = .stuck → Calm t.io → b = false ∧ room < S.length

theorem overfull_of_ne {why : Stop Fault} (h : why ≠ .stuck) (b : Bool) (room : Nat)
    (S : List Byte) (t : Tee) : Overfull b room S why t :=
  fun hw => absurd hw h

/-- **A turn of the copy loop** waits for ever just because not all of the core fits. -/
theorem meets_copyUnread (h : Unread b room t) (hcore : Quiet t.io → t.core ++ t.stdin = S)
    (hinfo : Calm t.io → t.nonblock = false → InStep t) :
    Meets (fun _ => True) (copyTurn true) t (fun _ t' => Unread b room t')
      (Overfull b room S) := by
  have hread := ((moving_safeRead still_input bufSize t h.input).and_any
    (safeRead_spec bufSize t)).mono (fun _ _ hr => hr.2)
      fun _ t' hk => overfull_of_ne hk.1 b room S t'
  refine hread.andThen ?_
  rintro r t₁ ⟨n, buf, io, rfl, hn, -, -, ⟨-, hr⟩, hio, -⟩
  have h₁ : Unread b room { t with stdin := t.stdin.drop n, buf := buf, io := io } :=
    ⟨h.input, h.unread, h.nonblock, h.capacity, h.whole, h.fits⟩
  rcases hr with rfl | ⟨rfl, e, rfl⟩
  swap
  · exact meets_pure h₁
  dsimp only
  split
  swap
  · exact meets_pure h₁
  have hwrite := ((moving_safeWriteCore still_input 0 n _ h₁.input).and_any
    (safeWriteCore_spec 0 n _)).mono (fun _ _ hr => hr.2)
      fun _ t' hk => overfull_of_ne hk.1 b room S t'
  refine hwrite.andThen ?_
  rintro - t₂ ⟨m, io', rfl, -, hio', -⟩
  have h₂ := (meets_writeUnread (t := { t with
    stdin := t.stdin.drop n, core := t.core ++ slice buf 0 m, buf := buf, io := io' })
    ⟨h.input, h.unread, h.nonblock, h.capacity, h.whole, h.fits⟩ 0 n).mono (fun _ _ hr => hr)
      fun why t' hk (hw : why = .stuck) (hcalm : Calm t'.io) =>
        (?_ : b = false ∧ room < S.length)
  · exact h₂.andThen fun _ _ h₃ => meets_pure h₃
  · obtain ⟨hpre, hb, hfull⟩ := hk hw
    -- what has been read of the core does not fit behind what is in the pipe
    have hcalm₀ : Calm t.io := hcalm.before ((hio.trans hio').trans hpre)
    have hsame := (hinfo hcalm₀ (h.nonblock.trans hb)).2 h.whole
    have hlen := congrArg List.length (hcore hcalm₀.quiet)
    rw [List.length_append, ← hsame] at hlen
    exact ⟨hb, by dsimp only at hfull; omega⟩

/-- **The copying comes to its end just if all of the core fits the pipe**, or the pipe
does not block. -/
theorem copying_unread (h : Unread b room t) (hcore : Quiet t.io → t.core ++ t.stdin = S)
    (hinfo : Calm t.io → t.nonblock = false → InStep t) :
    Meets (fun _ => True) (forever (fun _ => copyTurn true) ()) t
      (fun _ t' => Unread b room t' ∧ (Quiet t'.io → t'.core = S) ∧
        (Calm t'.io → t'.nonblock = false → InStep t'))
      (Overfull b room S) := by
  have hloop : Meets (fun _ => True) (forever (fun _ => copyTurn true) ()) t
      (fun _ t' => Unread b room t') (Overfull b room S) := by
    refine meets_forever (fun _ t => Unread b room t ∧
      (Quiet t.io → t.input = .core ∧ t.core ++ t.stdin = S) ∧
      (True → Calm t.io → t.nonblock = false → InStep t))
      (fun _ _ _ => overfull_of_ne Stop.cut_ne_stuck b room S _) ?_
      ⟨h, fun hq => ⟨h.input, hcore hq⟩, fun _ => hinfo⟩
    rintro - t ⟨h, hcore, hinfo⟩
    refine ((meets_copyUnread h (fun hq => (hcore hq).2) (hinfo trivial)).and_any
      (copyTurn_keeps (A := (· = S)) (fun _ => rfl) hcore hinfo)).imp ?_
    rintro r t' ⟨h', hcore', hinfo', -⟩
    cases r with
    | inl u => exact ⟨h', hcore', hinfo'⟩
    | inr u => exact h'
  refine (hloop.and_any (copy_spec (A := (· = S)) (fun _ : True => rfl)
    (fun hq => ⟨h.input, hcore hq⟩) fun _ => hinfo)).imp ?_
  rintro - t' ⟨h', hcore', hinfo'⟩
  exact ⟨h', hcore', hinfo' trivial⟩

abbrev catchRest : TeeRun Unit := do
  let t ← get
  let _ ← safeWriteCore 0 (sizeT t.bufRead)
  if t.bufRead > t.bufWrite then
    let _ ← safeWriteInfo t.bufWrite.toNat (sizeT (t.bufRead - t.bufWrite))

theorem blockfd_cons (a : Answer) (t : Tee) (o : List Answer) :
    blockfd t (a :: o) =
      .done () { t with nonblock := t.nonblock && decide (BlockfdFails (a :: o)) } o := by
  cases a with
  | err e =>
    have hsame : (t.nonblock && decide (BlockfdFails (.err e :: o))) = t.nonblock :=
      Bool.and_true _
    rw [hsame]
    rfl
  | ok | amount k | prepared p | thread a | status b n =>
    have hoff : (t.nonblock && false) = false := Bool.and_false _
    show Res.done () { t with nonblock := false } o =
      .done () { t with nonblock := t.nonblock && false } o
    rw [hoff]

/-- Where nothing was read yet there is nothing to catch up on. -/
theorem meets_catchRest (hin : t.input = .core) (hread : t.bufRead = 0) (hwrite : t.bufWrite = 0) :
    Meets (fun _ => True) catchRest t (fun _ t' => ∃ io, t' = { t with io := io })
      fun why _ => why ≠ .stuck := by
  have hsize : sizeT t.bufRead = 0 := by
    rw [hread]
    rfl
  refine meets_bind (meets_get ?_)
  rw [hsize]
  have hcore := ((moving_safeWriteCore still_input 0 0 t hin).and_any
    (safeWriteCore_spec 0 0 t)).mono (fun _ _ hr => hr.2) fun _ _ hk => hk.1
  refine hcore.andThen ?_
  rintro - t' ⟨n, io, rfl, ⟨hn, -⟩, -⟩
  obtain rfl := Nat.le_zero.mp hn
  rw [slice_zero, List.append_nil, if_neg (by rw [hread, hwrite]; decide)]
  exact meets_pure ⟨io, rfl⟩

end Unread

/-! ### Both builds -/

section Builds

variable {S : List Byte} {pid : Int} {room : Nat} {libunwind : Bool} {pipe : InfoPipe}
  {o : List Answer}

/-- Who does not wait for ever comes to the end. -/
theorem tee_done (hfree : pipe = .thread ∨ libunwind = false ∨ pipe = .absent)
    (hover : (tee libunwind pipe { Tee.start S pid with room := room } o).Over) :
    ∃ t rest, tee libunwind pipe { Tee.start S pid with room := room } o = .done () t rest := by
  have hmoves : Meets (fun _ => True) (tee libunwind pipe) { Tee.start S pid with room := room }
      (fun _ _ => True) fun why _ => why ≠ .stuck := by
    by_cases hpipe : pipe = .thread
    · subst hpipe
      exact (moving_tee libunwind _ ⟨rfl, rfl⟩).mono (fun _ _ _ => trivial) fun _ _ hk => hk.1
    · rw [tee, if_neg hpipe]
      refine meets_bind (meets_modify (moving_transfer rfl ?_))
      refine (hfree.resolve_left hpipe).imp_right fun h => ?_
      rw [h]
      rfl
  obtain ⟨_, t, rest, hrun⟩ :=
    hover.exists (tee_not_faults (counted_start S pid .core room) libunwind pipe o) fun s hstuck => by
      have h := hmoves o fun _ _ => trivial
      rw [hstuck] at h
      exact h rfl
  exact ⟨t, rest, hrun⟩

/-- With libunwind all of the core is copied if the pipe has a reader, or there is none. -/
theorem libunwind_after (hpipe : pipe = .thread ∨ pipe = .absent)
    (hover : (tee true pipe { Tee.start S pid with room := room } o).Over)
    (hcalm : Calm (tee true pipe { Tee.start S pid with room := room } o).state.io) :
    (tee true pipe { Tee.start S pid with room := room } o).After fun _ t => t.core = S := by
  obtain ⟨t, rest, hrun⟩ := tee_done (hpipe.imp_right Or.inr) hover
  have hspec := tee_spec (P := fun _ => True) S pid room true pipe
    fun n t hfed hn => transfer_libunwind (fun hq => (hfed hq).1) fun hf => hn (by
      rintro rfl
      cases hf)
  have hcore := (hspec.of_done (fun _ _ => trivial) hrun).1
  rw [hrun] at hcalm ⊢
  exact .done (hcore hcalm.quiet)

/-- Where the outputs are open, if nobody reads the pipe, and `blockfd` was answered as the
script `o` begins. -/
def InfoPipe.left (pipe : InfoPipe) (S : List Byte) (pid : Int) (room : Nat) (o : List Answer) :
    Tee :=
  { pipe.leave { Tee.start S pid with room := room } with
    nonblock := decide (pipe = .noThread ∧ BlockfdFails o) }

/-- Without the thread all there is to do is to copy, behind the answer for `blockfd`. -/
theorem tee_unread (hpipe : pipe ≠ .thread) (hsome : pipe ≠ .absent) (a : Answer) :
    tee true pipe { Tee.start S pid with room := room } (a :: o) =
      (catchRest >>= fun _ => forever (fun _ => copyTurn true) ())
        (pipe.left S pid room (a :: o)) o := by
  have htransfer : tee true pipe { Tee.start S pid with room := room } (a :: o) =
      transfer true true (pipe.leave { Tee.start S pid with room := room }) (a :: o) := by
    rw [tee, if_neg hpipe, decide_eq_true hsome]
    rfl
  have hblock := blockfd_cons a (pipe.leave { Tee.start S pid with room := room }) o
  have hnonblock : ((pipe.leave { Tee.start S pid with room := room }).nonblock &&
      decide (BlockfdFails (a :: o))) = decide (pipe = .noThread ∧ BlockfdFails (a :: o)) := by
    cases pipe with
    | thread => exact absurd rfl hpipe
    | absent => exact absurd rfl hsome
    | blocking => simp [InfoPipe.leave]
    | noThread => simp [InfoPipe.leave, Tee.start]
  rw [hnonblock] at hblock
  have hcatch : catchUp true true _ (a :: o) = catchRest (pipe.left S pid room (a :: o)) o :=
    bind_of_done hblock
  rw [htransfer]
  exact bind_congr_run hcatch

/-- What it comes to. -/
theorem meets_left (S : List Byte) (pid : Int) (room : Nat) (pipe : InfoPipe) (o : List Answer) :
    Meets (fun _ => True) (catchRest >>= fun _ => forever (fun _ => copyTurn true) ())
      (pipe.left S pid room o)
      (fun _ t => Unread (decide (pipe = .noThread ∧ BlockfdFails o)) room t ∧
        (Quiet t.io → t.core = S) ∧ (Calm t.io → t.nonblock = false → InStep t))
      (Overfull (decide (pipe = .noThread ∧ BlockfdFails o)) room S) := by
  have hcatch := (meets_catchRest (t := pipe.left S pid room o) rfl rfl rfl).mono
    (fun _ _ hr => hr) fun _ t hk => overfull_of_ne hk
      (decide (pipe = .noThread ∧ BlockfdFails o)) room S t
  refine hcatch.andThen ?_
  rintro - t ⟨io, rfl⟩
  have hroom : Unread (decide (pipe = .noThread ∧ BlockfdFails o)) room
      { pipe.left S pid room o with io := io } :=
    ⟨rfl, rfl, rfl, rfl, rfl, Nat.zero_le _⟩
  exact copying_unread hroom (fun _ => rfl) fun _ _ => ⟨List.prefix_refl _, fun _ => rfl⟩

/-- **If nobody reads the pipe** all of the core is copied just if it fits, or if the pipe
cannot be made to block. -/
theorem libunwind_iff (hpipe : pipe ≠ .thread) (hsome : pipe ≠ .absent)
    (hover : (tee true pipe { Tee.start S pid with room := room } o).Over)
    (hcalm : Calm (tee true pipe { Tee.start S pid with room := room } o).state.io) :
    ((tee true pipe { Tee.start S pid with room := room } o).After fun _ t => t.core = S) ↔
      S.length ≤ room ∨ pipe = .noThread ∧ BlockfdFails o := by
  cases o with
  | nil =>
    rw [tee, if_neg hpipe, decide_eq_true hsome] at hover
    exact hover.elim
  | cons a o =>
    have hfaults := tee_not_faults (counted_start S pid .core room) true pipe (a :: o)
    have hend := meets_left S pid room pipe (a :: o) o fun _ _ => trivial
    rw [← tee_unread hpipe hsome] at hend
    cases hres : tee true pipe { Tee.start S pid with room := room } (a :: o) with
    | done u t rest =>
      rw [hres] at hend hcalm
      obtain ⟨-, hunread, hcore, hinfo⟩ := hend
      have hS := hcore hcalm.quiet
      rw [Res.after_done]
      refine iff_of_true hS ?_
      by_cases hb : pipe = .noThread ∧ BlockfdFails (a :: o)
      · exact Or.inr hb
      · have hsame := (hinfo hcalm (hunread.nonblock.trans (decide_eq_false hb))).2 hunread.whole
        rw [← hS, ← hsame]
        exact Or.inl hunread.fits
    | stop why t =>
      rw [hres] at hend hcalm hover
      cases why with
      | cut => exact hover.elim
      | fault e => exact absurd (hres ▸ rfl) (hfaults e)
      | stuck =>
        obtain ⟨hb, hfull⟩ := hend rfl hcalm
        refine iff_of_false (fun h => by cases h) ?_
        rintro (hfits | hnone)
        · exact Nat.not_le.mpr hfull hfits
        · exact of_decide_eq_false hb hnone

/-- **Without libunwind** what was read to feed the thread is missing. -/
theorem plain_iff (hover : (tee false pipe { Tee.start S pid with room := room } o).Over)
    (hquiet : Quiet (tee false pipe { Tee.start S pid with room := room } o).state.io) :
    ((tee false pipe { Tee.start S pid with room := room } o).After fun _ t => t.core = S) ↔
      pipe ≠ .thread ∨ S = [] := by
  obtain ⟨t, rest, hrun⟩ := tee_done (Or.inr (Or.inl rfl)) hover
  have hspec := tee_spec (P := fun _ => True) S pid room false pipe
    (Q := fun _ t => ∃ n, Quiet t.io →
      t.core = S.drop n ∧ n ≤ S.length ∧ (n = 0 ↔ pipe ≠ .thread ∨ S = []))
    fun n t hfed _ => (transfer_plain fun hq => ⟨(hfed hq).1, (hfed hq).1.le, (hfed hq).2⟩).imp
      fun _ _ h => ⟨n, h⟩
  obtain ⟨n, hn⟩ := hspec.of_done (fun _ _ => trivial) hrun
  rw [hrun] at hquiet ⊢
  obtain ⟨hcore, hle, hn0⟩ := hn hquiet
  rw [Res.after_done, hcore, ← hn0]
  constructor
  · intro hdrop
    have hlen := congrArg List.length hdrop
    rw [List.length_drop] at hlen
    omega
  · rintro rfl
    rfl

/-- **The builds agree** on all of the core just if there is no info pipe, if there is
nothing to read, or if there is no thread either and the core fits the pipe, or the pipe
cannot be made to block. -/
theorem tee_builds_agree_iff {o₁ o₂ : List Answer}
    (hover₁ : (tee true pipe { Tee.start S pid with room := room } o₁).Over)
    (hover₂ : (tee false pipe { Tee.start S pid with room := room } o₂).Over)
    (hcalm : Calm (tee true pipe { Tee.start S pid with room := room } o₁).state.io)
    (hquiet : Quiet (tee false pipe { Tee.start S pid with room := room } o₂).state.io) :
    ((tee true pipe { Tee.start S pid with room := room } o₁).After (fun _ t => t.core = S) ∧
        (tee false pipe { Tee.start S pid with room := room } o₂).After fun _ t => t.core = S) ↔
      pipe = .absent ∨ S = [] ∨
        pipe ≠ .thread ∧ (S.length ≤ room ∨ pipe = .noThread ∧ BlockfdFails o₁) := by
  rw [plain_iff hover₂ hquiet]
  by_cases hfree : pipe = .thread ∨ pipe = .absent
  · rw [and_iff_right (libunwind_after hfree hover₁ hcalm)]
    rcases hfree with rfl | rfl
    · simp
    · simp
  · rw [not_or] at hfree
    rw [libunwind_iff hfree.1 hfree.2 hover₁ hcalm, and_iff_left (Or.inl hfree.1),
      or_iff_right hfree.2, and_iff_right hfree.1]
    refine ⟨Or.inr, fun h => h.elim (fun hnil => Or.inl ?_) id⟩
    rw [hnil]
    exact Nat.zero_le room

/-- Two bytes, with room for one of them and nobody to read the pipe: with libunwind the
second one is waited for. -/
theorem tee_builds_agree_iff_one :
    ((tee true .noThread { Tee.start [7, 8] 1 with room := 1 } [.ok, .ok, .ok, .ok, .ok, .ok]).After
          (fun _ t => t.core = [7, 8]) ∧
        (tee false .noThread { Tee.start [7, 8] 1 with room := 1 }
          [.ok, .ok, .ok, .ok, .ok, .ok, .ok]).After fun _ t => t.core = [7, 8]) ↔
      InfoPipe.noThread = .absent ∨ ([7, 8] : List Byte) = [] ∨
        InfoPipe.noThread ≠ .thread ∧ (([7, 8] : List Byte).length ≤ 1 ∨
          InfoPipe.noThread = .noThread ∧ BlockfdFails [.ok, .ok, .ok, .ok, .ok, .ok]) :=
  tee_builds_agree_iff (by decide) (by decide) (by decide)
    (by decide)

/-- The build without libunwind loses what was read to find the PID. -/
theorem tee_builds_disagree :
    (tee true .thread (Tee.start [7] (-1)) [.ok, .ok, .ok, .prepared 42, .ok, .ok, .ok]).After
        (fun _ t => t.core = [7] ∧ Quiet t.io) ∧
      (tee false .thread (Tee.start [7] (-1)) [.ok, .ok, .ok, .prepared (-1), .ok]).After
        (fun _ t => t.core = [] ∧ Quiet t.io) := by
  decide

end Builds

end Crashinfo
