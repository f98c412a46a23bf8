import Crashinfo.Log

/-!
# The PID of the core

`unw_prepare` looks for a thread of the core whose PID there is a directory in `/proc`
for.  It keeps two minima while it looks at the threads, both `INT_MAX` at first: that
of all PIDs, and that of the PIDs with a directory.

As `INT_MAX` also says that there is no minimum, it is what is returned for a core
without threads, and a thread with that PID is taken for none
(`unwPrepare_preferred_iff`).
-/

namespace Crashinfo

/-- What libunwind makes of the core: the address space and the `UCD_info` can be
created, and there is a thread with each of these PIDs. -/
structure CoreFile where
  addrSpace : Bool := true
  info : Bool := true
  pids : List Int
  deriving DecidableEq, Repr

/-- `snprintf(buf, sizeof buf, "/proc/%d", pid)` -/
def pidDir (pid : Int) : Str := (lit "/proc/" ++ fmtD pid).take 19

/-- A turn of the loop over the threads, with `minpid` and `minpid_fs`; `access` says
what exists. -/
def prepareTurn (access : Str → Bool) (m : Int × Int) (pid : Int) : Int × Int :=
  (if pid < m.1 then pid else m.1, if pid < m.2 ∧ access (pidDir pid) = true then pid else m.2)

def unwPrepare (access : Str → Bool) (core : CoreFile) : Int × List Message :=
  if core.addrSpace = false then (-1, [(.err, lit "Failed to create address space")])
  else if core.info = false then (-1, [(.err, lit "Failed to create UCD_info")])
  else
    let (minpid, minpidFs) := core.pids.foldl (prepareTurn access) (intMax, intMax)
    let pid := if minpidFs < intMax then minpidFs else minpid
    (pid, [(.dbg, lit "Unwinder returned PID: " ++ fmtD pid)])

/-! ### What it should return -/

def hasDir (access : Str → Bool) (pid : Int) : Bool := access (lit "/proc/" ++ fmtD pid)

/-- The smallest PID with a directory, or else the smallest PID, or else -1. -/
def preferredPid (access : Str → Bool) (pids : List Int) : Int :=
  match (pids.filter (hasDir access)).min? with
  | some pid => pid
  | none => pids.min?.getD (-1)

def IsPid (pid : Int) : Prop := 0 < pid ∧ pid ≤ intMax

instance : DecidablePred IsPid := fun pid =>
  inferInstanceAs (Decidable (0 < pid ∧ pid ≤ intMax))

/-- There is a thread, and the PID `INT_MAX` is not the only one with a directory while
there are others. -/
def Seen (access : Str → Bool) (pids : List Int) : Prop :=
  pids ≠ [] ∧ ((∃ pid ∈ pids, hasDir access pid = true) →
    (∀ pid ∈ pids, hasDir access pid = true → pid = intMax) → ∀ pid ∈ pids, pid = intMax)

section Minima

variable {access : Str → Bool} {pids : List Int}

theorem pidDir_eq {pid : Int} (h : IsPid pid) : pidDir pid = lit "/proc/" ++ fmtD pid := by
  have hlen : (fmtD pid).length ≤ 10 := by
    have hnat : pid.toNat < 10 ^ 10 := by
      have hmax : intMax = 2147483647 := rfl
      have := h.2
      omega
    rw [fmtD, if_neg (Int.not_lt.mpr (Int.le_of_lt h.1)), dec, List.length_map]
    exact (Numeral.length_digits_le_iff (by decide) (by decide)).mpr hnat
  have hproc : (lit "/proc/").length = 6 := rfl
  rw [pidDir, List.take_of_length_le]
  rw [List.length_append]
  omega

/-- The loop keeps two minima. -/
theorem foldl_prepareTurn (h : ∀ pid ∈ pids, IsPid pid) (m : Int × Int) :
    pids.foldl (prepareTurn access) m =
      (pids.foldl min m.1, (pids.filter (hasDir access)).foldl min m.2) := by
  induction pids generalizing m with
  | nil => rfl
  | cons pid pids ih =>
    obtain ⟨hpid, hpids⟩ := List.forall_mem_cons.mp h
    have hmin : ∀ m : Int, (if pid < m then pid else m) = min m pid := by
      intro m
      rw [min_def]
      split
      · rw [if_neg (Int.not_le.mpr ‹_›)]
      · rw [if_pos (Int.not_lt.mp ‹_›)]
    rw [List.foldl_cons, List.foldl_cons, ih hpids, prepareTurn, hmin, pidDir_eq hpid]
    cases hdir : hasDir access pid with
    | true =>
      have hfs : (if pid < m.2 ∧ access (lit "/proc/" ++ fmtD pid) = true then pid else m.2) =
          min m.2 pid := by
        rw [← hmin]
        exact if_congr (and_iff_left hdir) rfl rfl
      rw [List.filter_cons_of_pos hdir, List.foldl_cons, hfs]
    | false =>
      have hfs : (if pid < m.2 ∧ access (lit "/proc/" ++ fmtD pid) = true then pid else m.2) =
          m.2 := if_neg fun h => absurd (hdir.symm.trans h.2) Bool.false_ne_true
      rw [List.filter_cons_of_neg (by rw [hdir]; exact Bool.false_ne_true), hfs]

/-- The first minimum is `INT_MAX` where there is none. -/
theorem foldl_min_intMax (h : ∀ pid ∈ pids, pid ≤ intMax) :
    pids.foldl min intMax = pids.min?.getD intMax := by
  cases hmin : pids.min? with
  | none =>
    rw [List.min?_eq_none_iff.mp hmin]
    rfl
  | some pid =>
    have hle := h pid (List.min?_mem hmin)
    rw [List.foldl_min, hmin]
    exact min_eq_right hle

/-- The minimum is `INT_MAX` just if there is nothing else. -/
theorem min?_eq_intMax_iff (h : ∀ pid ∈ pids, pid ≤ intMax) :
    pids.min?.getD intMax = intMax ↔ ∀ pid ∈ pids, pid = intMax := by
  cases hmin : pids.min? with
  | none =>
    rw [List.min?_eq_none_iff.mp hmin]
    exact iff_of_true rfl (List.forall_mem_nil _)
  | some q =>
    obtain ⟨hq, hleast⟩ := List.min?_eq_some_iff.mp hmin
    constructor
    · intro heq pid hpid
      rw [Option.getD_some] at heq
      have hge := hleast pid hpid
      rw [heq] at hge
      exact Int.le_antisymm (h pid hpid) hge
    · exact fun hall => hall q hq

theorem preferredPid_mem (access : Str → Bool) (pids : List Int) :
    preferredPid access pids = -1 ∨ preferredPid access pids ∈ pids := by
  rw [preferredPid]
  split
  · rename_i pid hdir
    exact Or.inr (List.mem_of_mem_filter (List.min?_mem hdir))
  · cases hmin : pids.min? with
    | none => exact Or.inl rfl
    | some pid => exact Or.inr (List.min?_mem hmin)

/-- What the two loops leave. -/
theorem unwPrepare_fst {core : CoreFile} (haddr : core.addrSpace = true) (hinfo : core.info = true)
    (h : ∀ pid ∈ core.pids, IsPid pid) :
    (unwPrepare access core).1 =
      if (core.pids.filter (hasDir access)).min?.getD intMax < intMax then
        (core.pids.filter (hasDir access)).min?.getD intMax
      else core.pids.min?.getD intMax := by
  have hle : ∀ pid ∈ core.pids, pid ≤ intMax := fun pid hpid => (h pid hpid).2
  have hleDir : ∀ pid ∈ core.pids.filter (hasDir access), pid ≤ intMax :=
    fun pid hpid => hle pid (List.mem_of_mem_filter hpid)
  rw [unwPrepare, if_neg (by rw [haddr]; decide), if_neg (by rw [hinfo]; decide),
    foldl_prepareTurn h]
  dsimp only
  rw [foldl_min_intMax hle, foldl_min_intMax hleDir]

/-- **`unw_prepare` returns the PID it should** just if there is a thread, and no thread
with the PID `INT_MAX` hides the others. -/
theorem unwPrepare_preferred_iff {core : CoreFile} (haddr : core.addrSpace = true)
    (hinfo : core.info = true) (h : ∀ pid ∈ core.pids, IsPid pid) :
    (unwPrepare access core).1 = preferredPid access core.pids ∧
        ((unwPrepare access core).1 = -1 ∨ (unwPrepare access core).1 ∈ core.pids) ↔
      Seen access core.pids := by
  have hle : ∀ pid ∈ core.pids, pid ≤ intMax := fun pid hpid => (h pid hpid).2
  have hboth : (unwPrepare access core).1 = preferredPid access core.pids ∧
      ((unwPrepare access core).1 = -1 ∨ (unwPrepare access core).1 ∈ core.pids) ↔
        (unwPrepare access core).1 = preferredPid access core.pids :=
    and_iff_left_of_imp fun heq => heq ▸ preferredPid_mem access core.pids
  rw [hboth, unwPrepare_fst haddr hinfo h, preferredPid]
  cases hdir : (core.pids.filter (hasDir access)).min? with
  | none =>
    have hnone : ∀ pid ∈ core.pids, ¬hasDir access pid = true :=
      List.filter_eq_nil_iff.mp (List.min?_eq_none_iff.mp hdir)
    rw [Option.getD_none, if_neg (Int.lt_irrefl _), Seen]
    cases hmin : core.pids.min? with
    | none =>
      exact iff_of_false (by decide) fun hseen => hseen.1 (List.min?_eq_none_iff.mp hmin)
    | some pid =>
      refine iff_of_true rfl ⟨List.ne_nil_of_mem (List.min?_mem hmin), ?_⟩
      intro ⟨pid, hpid, hhas⟩
      exact absurd hhas (hnone pid hpid)
  | some pid =>
    obtain ⟨hpid, hhas⟩ := List.mem_filter.mp (List.min?_mem hdir)
    rw [Option.getD_some]
    by_cases hlt : pid < intMax
    · rw [if_pos hlt]
      refine iff_of_true rfl ⟨List.ne_nil_of_mem hpid, fun _ hall => ?_⟩
      exact absurd (hall pid hpid hhas) (Int.ne_of_lt hlt)
    · have hmax : pid = intMax := Int.le_antisymm (hle pid hpid) (Int.not_lt.mp hlt)
      rw [if_neg hlt, hmax, min?_eq_intMax_iff hle]
      have hall : ∀ q ∈ core.pids, hasDir access q = true → q = intMax := by
        intro q hq hqdir
        have hmin := (List.min?_eq_some_iff.mp hdir).2 q (List.mem_filter.mpr ⟨hq, hqdir⟩)
        rw [hmax] at hmin
        exact Int.le_antisymm (hle q hq) hmin
      constructor
      · exact fun heq => ⟨List.ne_nil_of_mem hpid, fun _ _ => heq⟩
      · exact fun hseen => hseen.2 ⟨pid, hpid, hhas⟩ hall

theorem unwPrepare_preferred_three :
    let access : Str → Bool := fun name => decide (name ∈ [lit "/proc/70", lit "/proc/8"])
    (unwPrepare access { pids := [70, 6, 8] }).1 = preferredPid access [70, 6, 8] ∧
        ((unwPrepare access { pids := [70, 6, 8] }).1 = -1 ∨
          (unwPrepare access { pids := [70, 6, 8] }).1 ∈ [70, 6, 8]) ↔
      Seen access [70, 6, 8] := by
  intro access
  have hpids : ([70, 6, 8] : List Int).all (fun pid => decide (IsPid pid)) = true := by decide
  exact @unwPrepare_preferred_iff access { pids := [70, 6, 8] } rfl rfl
    fun pid hpid => of_decide_eq_true (List.all_eq_true.mp hpids pid hpid)

/-- A core without threads is said to have the PID `INT_MAX`. -/
theorem not_unwPrepare_preferred :
    (unwPrepare (fun _ => true) { pids := [] }).1 = 2147483647 ∧
      preferredPid (fun _ => true) [] = -1 ∧
        ¬((unwPrepare (fun _ => true) { pids := [] }).1 = -1 ∨
          (unwPrepare (fun _ => true) { pids := [] }).1 ∈ ([] : List Int)) := by
  decide

end Minima

end Crashinfo
