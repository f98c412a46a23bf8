import Crashinfo.Main.Whole

/-!
# The standard descriptors

`main` reads the core from descriptor 0 and writes its messages to descriptor 2,
so neither of them, nor descriptor 1, may be one of the streams it opens itself
(`Apart`).  The kernel gives every new descriptor the least free number, so all
depends on the three numbers being taken when the first stream is opened
(`Clear`): from then on nothing closes them.

Two steps come before.  Behind `openlog` the descriptors 1 and 2 are open if
they were open before, or if the connection to the log has taken the place of
the one that was not (`Filled`).  And if the core cannot be opened, descriptor 0
stays closed (`Missed`).
-/

namespace Crashinfo

open Script Script.Run

/-- What is opened to be used by the program and its filters alone. -/
def Obj.own : Obj → Bool
  | .file _ => true
  | .procDir => true
  | .pipeR _ => true
  | .pipeW _ => true
  | _ => false

/-- No standard descriptor is one of the program's own streams, and descriptor 0
is what the process was started with, or the core. -/
def Apart (t : Table Desc) : Prop :=
  (∀ fd < 3, ∀ d ∈ t.get fd, d.obj.own = false) ∧
    ∀ d ∈ t.get 0, d.obj = .inherited 0 ∨ d.obj = .core

instance (t : Table Desc) : Decidable (Apart t) := inferInstanceAs (Decidable (_ ∧ _))

def Host.tables (h : Host) : List (Table Desc) := h.past ++ [h.fds]

/-- Descriptor `fd` of a process that was just started is its descriptor `fd`. -/
def Inherited (t : Table Desc) : Prop := ∀ fd, ∀ d ∈ t.get fd, d.obj = .inherited fd

/-- All the standard descriptors are open behind `openlog`. -/
def Filled (t : Table Desc) (o : List Answer) : Prop :=
  t.get 1 ≠ none ∧ t.get 2 ≠ none ∨
    (t.get 1 ≠ none ∨ t.get 2 ≠ none) ∧ ∃ w ∈ o.head?, NoErr w

def Missed (h : Host) : Prop := ∃ f ∈ h.failed, f.call = .openCore

instance (h : Host) : Decidable (Missed h) := inferInstanceAs (Decidable (∃ f ∈ h.failed, _))

/-! ### From the first stream on -/

/-- The standard descriptors are open, and have never been streams. -/
def Clear (h : Host) : Prop := StdOpen h ∧ ∀ t ∈ h.tables, Apart t

def NotStd (fd : Int) : Prop := fd < 0 ∨ 3 ≤ fd

theorem StdOpen.free_ge {h : Host} (hs : StdOpen h) : 3 ≤ h.fds.free := by
  by_contra hlt
  exact hs _ (Nat.lt_of_not_le hlt) h.fds.get_free

theorem Apart.of_eq {t t' : Table Desc} (ht : Apart t) (h : ∀ fd < 3, t'.get fd = t.get fd) :
    Apart t' := by
  refine ⟨fun fd hfd => ?_, ?_⟩
  · rw [h fd hfd]
    exact ht.1 fd hfd
  · rw [h 0 (by decide)]
    exact ht.2

/-- **The next stream is none of the standard descriptors just if these are
open.** -/
theorem apart_put_iff {h : Host} {d : Desc} (ht : Apart h.fds) (hown : d.obj.own = true) :
    Apart (h.fds.put h.fds.free d) ↔ StdOpen h := by
  constructor
  · intro hput fd hfd hfree
    have hlt : h.fds.free < 3 := Nat.lt_of_le_of_lt (Table.free_le hfree) hfd
    have hno := hput.1 _ hlt d (Table.get_put_self _ _ _)
    rw [hown] at hno
    cases hno
  · intro hs
    have := hs.free_ge
    exact ht.of_eq fun fd hfd => Table.get_put_ne _ _ (by omega)

theorem mem_tables_alloc {h : Host} {d : Desc} {t : Table Desc} :
    t ∈ (h.alloc d).tables ↔ t ∈ h.tables ∨ t = h.fds.put h.fds.free d := by
  rw [Host.tables, Host.alloc, List.mem_append, List.mem_singleton]
  rfl

theorem Clear.later {h h' : Host} (hc : Clear h) (hlater : Later h h') : Clear h' := by
  refine ⟨fun fd hfd => ?_, ?_⟩
  · rw [hlater.fds]
    exact hc.1 fd hfd
  · rw [Host.tables, hlater.fds, hlater.past]
    exact hc.2

theorem procInv_clear : ProcInv Clear NotStd where
  aside := fun _ _ hc haside => hc.later haside.toLater
  later := fun _ _ hc hlater => hc.later hlater
  alloc := by
    intro h d hc
    have hfree := hc.1.free_ge
    have hget : ∀ fd < 3, (h.alloc d).fds.get fd = h.fds.get fd :=
      fun fd hfd => Table.get_put_ne _ _ (by omega)
    refine ⟨⟨fun fd hfd => ?_, fun t ht => ?_⟩, Or.inr (by omega)⟩
    · rw [hget fd hfd]
      exact hc.1 fd hfd
    · rcases mem_tables_alloc.mp ht with ht | rfl
      · exact hc.2 t ht
      · exact (hc.2 h.fds (List.mem_append_right _ (by simp))).of_eq hget
  close := by
    intro h fd hc hfd
    rw [Host.close]
    split
    · rename_i d hd
      have hge : 3 ≤ fd.toNat := by
        rw [Host.at] at hd
        split at hd
        · rcases hfd with hfd | hfd <;> omega
        · cases hd
      have hget : ∀ k < 3, (h.fds.remove fd.toNat).get k = h.fds.get k := by
        intro k hk
        rw [Table.get_remove, if_neg (by omega)]
      refine ⟨fun k hk => ?_, fun t ht => ?_⟩
      · show (h.fds.remove fd.toNat).get k ≠ none
        rw [hget k hk]
        exact hc.1 k hk
      · rcases List.mem_append.mp ht with ht | ht
        · exact hc.2 t ht
        · rw [List.mem_singleton.mp ht]
          exact (hc.2 h.fds (List.mem_append_right _ (by simp))).of_eq hget
    · exact hc
  neg := fun _ hfd => Or.inl hfd

theorem procInv_missed : ProcInv Missed fun _ => True where
  aside := fun _ _ ⟨f, hf, hcore⟩ haside => ⟨f, haside.failed f hf, hcore⟩
  later := fun _ _ ⟨f, hf, hcore⟩ hlater => ⟨f, hlater.failed f hf, hcore⟩
  alloc := fun _ _ hm => ⟨hm, trivial⟩
  close := by
    intro h fd hm _
    rw [Missed, Host.close_failed]
    exact hm
  neg := fun _ _ => trivial

/-! ### Up to the first stream -/

section Start

variable {env env' : Env} {w : World} {h h' : Host} {o o' : List Answer}

/-- `openlog` takes the least free number, if anything. -/
theorem openlog_run (hrun : openlog h o = .done () h' o') :
    ∃ w, o = w :: o' ∧
      ((∃ e, w = .err e ∧ h' = h.fail .syslog) ∨ NoErr w ∧ h' = h.alloc ⟨.syslog, true⟩) := by
  obtain ⟨r, h₁, o₁, hcall, hdone⟩ := of_bind_done hrun
  cases hdone
  obtain ⟨w, o₂, rfl, ⟨e, rfl, -, rfl, rfl⟩ | ⟨hw, n, -, hact⟩⟩ := of_syscall_done hcall
  · exact ⟨_, rfl, Or.inl ⟨e, rfl, rfl⟩⟩
  · cases hact
    exact ⟨_, rfl, Or.inr ⟨hw, rfl⟩⟩

theorem Inherited.apart (hin : Inherited h.fds) : Apart h.fds := by
  refine ⟨fun fd _ d hd => ?_, fun d hd => Or.inl (hin 0 d hd)⟩
  rw [hin fd d hd]
  rfl

/-- Behind `openlog` the standard descriptors are open just if they are
`Filled`. -/
theorem stdOpen_openlog_iff (hzero : h.fds.get 0 ≠ none) (hrun : openlog h o = .done () h' o') :
    StdOpen h' ↔ Filled h.fds o := by
  have hstd : StdOpen h ↔ h.fds.get 1 ≠ none ∧ h.fds.get 2 ≠ none := by
    constructor
    · exact fun hs => ⟨hs 1 (by decide), hs 2 (by decide)⟩
    · intro hs fd hfd
      obtain rfl | rfl | rfl : fd = 0 ∨ fd = 1 ∨ fd = 2 := by omega
      · exact hzero
      · exact hs.1
      · exact hs.2
  obtain ⟨w, rfl, ⟨e, rfl, rfl⟩ | ⟨hw, rfl⟩⟩ := openlog_run hrun
  · constructor
    · exact fun hs => Or.inl (hstd.mp hs)
    · rintro (hs | ⟨-, v, hv, hno⟩)
      · exact hstd.mpr hs
      · exact absurd (Option.some.inj hv).symm (hno e)
  · have hget : ∀ fd, (h.alloc ⟨.syslog, true⟩).fds.get fd ≠ none ↔
        fd = h.fds.free ∨ h.fds.get fd ≠ none := by
      intro fd
      rw [Host.alloc, Table.get_put]
      by_cases hfd : fd = h.fds.free
      · rw [if_pos hfd]
        exact ⟨fun _ => Or.inl hfd, fun _ => nofun⟩
      · rw [if_neg hfd]
        exact ⟨Or.inr, fun h => h.resolve_left hfd⟩
    constructor
    · intro hs
      have h1 := (hget 1).mp (hs 1 (by decide))
      have h2 := (hget 2).mp (hs 2 (by decide))
      refine Or.inr ⟨?_, w, rfl, hw⟩
      rcases h1 with h1 | h1
      · exact Or.inr (h2.resolve_left (by omega))
      · exact Or.inl h1
    · intro hs fd hfd
      refine (hget fd).mpr (Or.imp_right (fun hne => ?_) (eq_or_ne fd h.fds.free))
      intro hnone
      have hle := Table.free_le hnone
      have hfree := h.fds.get_free
      have h0 : h.fds.free ≠ 0 := by
        intro h0
        rw [h0] at hfree
        exact hzero hfree
      -- the least free number is 1, and the other one is 2
      have h12 : h.fds.free = 1 ∧ fd = 2 := by omega
      rw [h12.1] at hfree
      rw [h12.2] at hnone
      rcases hs with hs | ⟨hs | hs, -⟩
      · exact hs.1 hfree
      · exact hs hfree
      · exact hs hnone

/-! #### The core -/

theorem Apart.remove {t : Table Desc} (ht : Apart t) (k : Nat) : Apart (t.remove k) := by
  have hget : ∀ fd, ∀ d ∈ (t.remove k).get fd, d ∈ t.get fd := by
    intro fd d hd
    rw [Table.get_remove] at hd
    split at hd
    · cases hd
    · exact hd
  exact ⟨fun fd hfd d hd => ht.1 fd hfd d (hget fd d hd), fun d hd => ht.2 d (hget 0 d hd)⟩

/-- Any descriptor that is no stream may become a standard one, but for
descriptor 0. -/
theorem Apart.put {t : Table Desc} (ht : Apart t) {k : Nat} {d : Desc} (hown : d.obj.own = false)
    (hk : k = 0 → d.obj = .core) : Apart (t.put k d) := by
  have hget : ∀ fd, ∀ d' ∈ (t.put k d).get fd, fd = k ∧ d' = d ∨ d' ∈ t.get fd := by
    intro fd d' hd
    rw [Table.get_put] at hd
    split at hd
    · exact Or.inl ⟨‹_›, (Option.some.inj hd).symm⟩
    · exact Or.inr hd
  refine ⟨fun fd hfd d' hd => ?_, fun d' hd => ?_⟩
  · rcases hget fd d' hd with ⟨-, rfl⟩ | hd
    · exact hown
    · exact ht.1 fd hfd d' hd
  · rcases hget 0 d' hd with ⟨h0, rfl⟩ | hd
    · exact Or.inr (hk h0.symm)
    · exact ht.2 d' hd

theorem free_remove_zero (t : Table Desc) : (t.remove 0).free = 0 :=
  Nat.le_zero.mp (Table.free_le (t.get_remove 0 0))

/-- The core takes the place of descriptor 0, or the run has missed it. -/
theorem meets_openCore (hc : Clear h) (path : Option Str) :
    Meets (fun _ => True) (openCore env path) h (fun _ h' => Clear h' ∨ Missed h')
      (fun _ h' => ∀ t ∈ h'.tables, Apart t) := by
  cases path with
  | none => exact meets_pure (Or.inl hc)
  | some path =>
    obtain ⟨d, hd⟩ := Option.ne_none_iff_exists'.mp (hc.1 0 (by decide))
    have hlast := hc.2 h.fds (List.mem_append_right _ (by simp))
    have htables : ∀ t ∈ h.tables ++ [h.fds.remove 0], Apart t := by
      intro t ht
      rcases List.mem_append.mp ht with ht | ht
      · exact hc.2 t ht
      · rw [List.mem_singleton.mp ht]
        exact hlast.remove 0
    refine meets_bind (meets_modify ?_)
    have hclose := Host.close_of_get hd
    rw [Nat.cast_zero] at hclose
    rw [hclose]
    refine meets_bind (meets_syscall (fun e _ => ?_) (meets_alloc ?_) htables)
    · refine meets_modify (Or.inr ⟨⟨.openCore, h.pipes, h.kids.length⟩, ?_, rfl⟩)
      exact List.mem_append_right _ (by simp)
    · dsimp only
      rw [free_remove_zero]
      refine meets_pure (Or.inl ⟨fun fd hfd => ?_, fun t ht => ?_⟩)
      · show ((h.fds.remove 0).put (h.fds.remove 0).free ⟨.core, false⟩).get fd ≠ none
        rw [free_remove_zero, Table.get_put, Table.get_remove]
        split
        · exact nofun
        · exact hc.1 fd hfd
      · rcases mem_tables_alloc.mp ht with ht | rfl
        · exact htables t ht
        · rw [free_remove_zero]
          exact (hlast.remove 0).put rfl fun _ => rfl

end Start

/-! ### The whole run -/

theorem stops_any : Stops fun _ => True := ⟨trivial, trivial, fun _ _ => trivial⟩

theorem always_fromProc {I : Host → Prop} {N : Int → Prop} (hI : ProcInv I N) (env env' : Env)
    (libunwind : Bool) (dir : ProcDir) (pipe : InfoPipe) :
    Always (fun _ => True) (WorldInv I N fun _ => True)
      (do readProc env dir; save env env' libunwind pipe) fun _ => True :=
  always_bind (always_readProc hI.toHostInv stops_any fun _ => trivial) fun _ _ =>
    always_save hI stops_any (fun _ _ _ => trivial) libunwind pipe

theorem always_fromPipe {I : Host → Prop} {N : Int → Prop} (hI : ProcInv I N) (env env' : Env)
    (libunwind : Bool) (dir : ProcDir) {w : World} (hw : WorldInv I N (fun _ => True) w)
    {Q : Host → Prop} (hQ : ∀ h, I h → Q h) :
    Meets (fun _ => True) (startDumping env) w
      (fun pipe w' => Meets (fun _ => True) (do readProc env dir; save env env' libunwind pipe) w'
        (fun _ w' => Q w'.host) (fun _ w' => Q w'.host))
      (fun _ w' => Q w'.host) := by
  refine (always_startDumping hI.toHostInv stops_any w hw).mono (fun pipe w' hr => ?_)
    fun _ w' hk => hQ _ hk.2.host
  exact (always_fromProc hI env env' libunwind dir pipe w' hr.1).mono (fun _ w' hr => hQ _ hr.1.host)
    fun _ w' hk => hQ _ hk.2.host

/-- Unless the core was missed, no standard descriptor has ever been a stream. -/
def Held (h : Host) : Prop := ¬Missed h → ∀ t ∈ h.tables, Apart t

theorem Clear.held {h : Host} (hc : Clear h) : Held h := fun _ => hc.2

theorem Missed.held {h : Host} (hm : Missed h) : Held h := fun hno => absurd hm hno

/-- **No standard descriptor is ever a stream**: not in any table of the run, as
long as all three are open behind `openlog` and the core is not missed. -/
theorem main_apart {env env' : Env} {libunwind : Bool} {files : List ConfFile} {dir : ProcDir}
    {fds : Table Desc} {names : List Str} {stdin : List Byte} {conf : Conf} {pid : Int}
    {o : List Answer} (hin : Inherited fds) (hzero : fds.get 0 ≠ none) (hfilled : Filled fds o)
    (hcore : ¬Missed (main env env' libunwind files dir
      (World.start fds names stdin conf pid) o).state.host) :
    ∀ t ∈ (main env env' libunwind files dir
      (World.start fds names stdin conf pid) o).state.host.tables, Apart t := by
  refine (?_ : Held _) hcore
  have hfirst : ∀ t ∈ (World.start fds names stdin conf pid).host.tables, Apart t := by
    intro t ht
    rw [List.mem_singleton.mp ht]
    exact Inherited.apart (h := (World.start fds names stdin conf pid).host) hin
  cases hlog : openlog (World.start fds names stdin conf pid).host o with
  | stop why h₁ =>
    -- nothing was answered, so nothing has happened
    cases o with
    | nil =>
      cases hlog
      exact fun _ => hfirst
    | cons a o =>
      cases a <;> cases hlog
  | done u h₁ o₁ =>
    have hclear : Clear h₁ := by
      refine ⟨(stdOpen_openlog_iff hzero hlog).mpr hfilled, fun t ht => ?_⟩
      obtain ⟨a, -, ⟨e, -, rfl⟩ | ⟨-, rfl⟩⟩ := openlog_run hlog
      · exact hfirst t ht
      · rcases mem_tables_alloc.mp ht with ht | rfl
        · exact hfirst t ht
        · refine (hfirst _ (List.mem_singleton_self _)).put rfl fun h0 => absurd ?_ hzero
          rw [← h0]
          exact Table.get_free _
    have hrun : onHost openlog (World.start fds names stdin conf pid) o =
        .done u { World.start fds names stdin conf pid with host := h₁ } o₁ := zoom_of_done hlog
    rw [main, start, bind_congr_run (bind_of_done hrun)]
    refine Meets.state (I := fun w : World => Held w.host) ?_ o₁
    have hw : WorldInv Clear NotStd (fun _ => True)
        { World.start fds names stdin conf pid with host := h₁ } :=
      ⟨hclear, nofun, nofun, trivial⟩
    generalize { World.start fds names stdin conf pid with host := h₁ } = w₁ at hw ⊢
    refine meets_bind (meets_bind ?_)
    have hfiles : Always (fun _ => True) (WorldInv Clear NotStd fun _ => True)
        (onHost (parseFiles env files)) fun _ => True :=
      always_onHost (always_parseFiles procInv_clear.toHostInv stops_any.cut files)
    refine (hfiles w₁ hw).mono (fun b w₂ hr => ?_) fun _ w₂ hk => hk.2.host.held
    cases b with
    | false => exact meets_pure (meets_pure hr.1.host.held)
    | true =>
      refine meets_bind (meets_get (meets_bind (meets_zoom ?_)))
      refine (meets_openCore hr.1.host w₂.conf.corePath).mono (fun _ h₃ hcase => ?_)
        fun _ h₃ hk => fun _ => hk
      refine meets_bind ?_
      rcases hcase with hc | hm
      · have := always_fromPipe procInv_clear env env' libunwind dir (w := { w₂ with host := h₃ })
          ⟨hc, hr.1.pipe, hr.1.thread, trivial⟩ fun _ => Clear.held
        exact this.imp fun pipe w₄ hr => meets_pure hr
      · have := always_fromPipe procInv_missed env env' libunwind dir (w := { w₂ with host := h₃ })
          ⟨hm, fun _ _ => ⟨trivial, trivial⟩, fun _ _ _ _ => trivial, trivial⟩ fun _ => Missed.held
        exact this.imp fun pipe w₄ hr => meets_pure hr

theorem main_apart_core :
    let fds := (Host.std []).fds
    let env := Env.plain (-1) none
    let conf : Conf := { corePath := some (lit "/core"), proc := { ignore := true } }
    let w := (main env env true [] { exe := [] } (World.start fds [] [7] conf (-1))
      [.ok, .ok, .ok, .ok, .ok, .ok]).state
    fds.get 0 ≠ none ∧ Filled fds [.ok, .ok, .ok, .ok, .ok, .ok] ∧ ¬Missed w.host ∧
      ∀ t ∈ w.host.tables, Apart t := by
  intro fds env conf w
  have hin : Inherited fds := by
    intro fd d hd
    match fd, hd with
    | 0, hd => exact (Option.some.inj hd) ▸ rfl
    | 1, hd => exact (Option.some.inj hd) ▸ rfl
    | 2, hd => exact (Option.some.inj hd) ▸ rfl
  have hzero : fds.get 0 ≠ none := by decide
  have hfilled : Filled fds [.ok, .ok, .ok, .ok, .ok, .ok] :=
    Or.inl ⟨by decide, by decide⟩
  have hcore : ¬Missed w.host := by decide
  exact ⟨hzero, hfilled, hcore, main_apart hin hzero hfilled hcore⟩

/-- The info pipe becomes descriptor 0 if the core cannot be opened, and
descriptors 1 and 2 if these are closed and there is no log to connect to. -/
theorem not_main_apart :
    let env := Env.plain (-1) none
    let conf : Conf := { proc := { ignore := true } }
    let only : Table Desc := ⟨[some ⟨.inherited 0, false⟩]⟩
    ¬(∀ t ∈ (main env env true [] { exe := [] }
        (World.start (Host.std []).fds [] [7] { conf with corePath := some (lit "/none") } (-1))
        [.ok, .err .enoent, .ok]).state.host.tables, Apart t) ∧
      ¬(∀ t ∈ (main env env true [] { exe := [] } (World.start only [] [7] conf (-1))
        [.err .enoent, .ok]).state.host.tables, Apart t) := by
  decide

end Crashinfo
