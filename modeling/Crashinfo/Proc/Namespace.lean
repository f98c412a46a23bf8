import Crashinfo.Conf.Literal
import Crashinfo.Proc.Pidmap

/-!
# The numbers of the tasks in the namespace

The kernel lists the tasks of a process as directories with decimal names, and in the
status of each there is one line that begins with `NSpid:`.  It has the numbers of the
task in all namespaces it is in, the innermost one last.  Among the tasks there may be
other names (`Lists`).

Where `read_proc_info` succeeds every task got its element, whatever their number and
order, so `proc_pid_map` finds it (`readPidmap_exact`).
-/

namespace Crashinfo

open Buffer Lines

/-- A line of the status in front of the one with the numbers.  It begins in another
way; if the buffer has no room for it, its pieces must not be mistaken either. -/
def FrontLine (l : Str) : Prop :=
  ch '\n' ∉ l ∧ (¬lit "NSpid:" <:+: l ∨ ¬lit "NSpid:" <+: l ∧ l.length + 1 < procSize)

structure KernelTask where
  /-- the name of its directory -/
  tid : Nat
  /-- its numbers in the outer namespaces -/
  outer : List Nat
  nspid : Nat
  front : List Str
  /-- what follows the line with the numbers -/
  rest : List Byte
  front_ok : ∀ l ∈ front, FrontLine l
  /-- it is a `pid_t` -/
  tid_lt : tid < 2 ^ 31
  nspid_lt : nspid < 2 ^ 31

def nspids (l : List Nat) : Str := l.flatMap fun n => ch '\t' :: dec n

def KernelTask.line (t : KernelTask) : Str := lit "NSpid:" ++ nspids (t.outer ++ [t.nspid])

def KernelTask.status (t : KernelTask) : List Byte :=
  (t.front.flatMap fun l => l ++ [ch '\n']) ++ (t.line ++ ch '\n' :: t.rest)

def KernelTask.pair (t : KernelTask) : PidPair := ⟨t.tid, t.nspid⟩

/-- The directory `dir` lists `tasks`, and other names. -/
inductive Lists : List Entry → List KernelTask → Prop
  | nil : Lists [] []
  | task {e : Entry} {t : KernelTask} {dir : List Entry} {tasks : List KernelTask}
      (hname : e.name = dec t.tid) (hstatus : e.status = t.status) (h : Lists dir tasks) :
      Lists (e :: dir) (t :: tasks)
  | other {e : Entry} {dir : List Entry} {tasks : List KernelTask}
      (hname : ¬∀ c ∈ e.name, isDigit 10 c = true) (h : Lists dir tasks) : Lists (e :: dir) tasks

/-! ### The last field -/

section Strrchr

variable {c : Byte} {s t : Str}

theorem strrchr_of_notMem (h : c ∉ s) : strrchr c s = none := by
  induction s with
  | nil => rfl
  | cons d s ih =>
    rw [List.mem_cons, not_or] at h
    rw [strrchr, ih h.2]
    exact if_neg (Ne.symm h.1)

theorem strrchr_append (s : Str) (h : c ∉ t) : strrchr c (s ++ c :: t) = some (c :: t) := by
  induction s with
  | nil =>
    rw [List.nil_append, strrchr, strrchr_of_notMem h]
    exact if_pos rfl
  | cons d s ih => rw [List.cons_append, strrchr, ih]

theorem strrchr_suffix (h : strrchr c s = some t) : t <:+ s := by
  induction s with
  | nil => cases h
  | cons d s ih =>
    rw [strrchr] at h
    split at h
    · rename_i u hu
      exact (ih (hu.trans h)).trans (List.suffix_cons d s)
    · split at h
      · rw [← Option.some.inj h]
      · cases h

theorem lastField_suffix (h : lastField s = some t) : t <:+ s := by
  unfold lastField at h
  split at h
  · rename_i u hu
    rw [← Option.some.inj h]
    exact (List.drop_suffix 1 u).trans (strrchr_suffix hu)
  · obtain ⟨u, hu, rfl⟩ := Option.map_eq_some_iff.mp h
    exact (List.drop_suffix 1 u).trans (strrchr_suffix hu)

end Strrchr

/-! ### The line -/

section Line

variable {t : KernelTask} {s : List Byte}

theorem procLines_eq (hs : s ≠ []) :
    procLines s = cstr (s.take (min (lineLen (ch '\n') s) (procSize - 1))) ::
      procLines (s.drop (min (lineLen (ch '\n') s) (procSize - 1))) := by
  have hcut : 0 < min (lineLen (ch '\n') s) (procSize - 1) :=
    Nat.lt_min.mpr ⟨Nat.succ_pos _, by decide⟩
  have hdrop := length_drop_lt hs hcut
  rw [procLines, procLines, pieces_eq_of_le (by decide) (Nat.le_refl _) (Nat.le_succ _),
    pieces_succ hs, List.map_cons, pieces_eq_of_le (by decide) (Nat.le_of_lt hdrop) (Nat.le_refl _)]

theorem nspidLine_eq (hs : s ≠ []) :
    nspidLine s =
      if (lit "NSpid:").isPrefixOf (cstr (s.take (min (lineLen (ch '\n') s) (procSize - 1)))) = true
      then some (cstr (s.take (min (lineLen (ch '\n') s) (procSize - 1))))
      else nspidLine (s.drop (min (lineLen (ch '\n') s) (procSize - 1))) := by
  rw [nspidLine, procLines_eq hs, List.find?_cons]
  split
  · rename_i h
    rw [if_pos h]
  · rename_i h
    rw [if_neg (by rw [h]; exact Bool.false_ne_true), nspidLine]

theorem lineLen_append {l : Str} (hl : ch '\n' ∉ l) (s : List Byte) :
    lineLen (ch '\n') (l ++ ch '\n' :: s) = l.length + 1 := by
  induction l with
  | nil => exact lineLen_cons_self s
  | cons c l ih =>
    rw [List.mem_cons, not_or] at hl
    rw [List.cons_append, lineLen_cons_of_ne (Ne.symm hl.1), ih hl.2]
    rfl

theorem prefix_of_notMem {c : Byte} {p l r : Str} (h : p <+: l ++ c :: r) (hc : c ∉ p) :
    p <+: l := by
  by_cases hle : p.length ≤ l.length
  · exact List.prefix_of_prefix_length_le h (List.prefix_append l _) hle
  · have hlong : l ++ [c] <+: p := by
      refine List.prefix_of_prefix_length_le ⟨r, ?_⟩ h ?_
      · rw [List.append_assoc]
        rfl
      · rw [List.length_append, List.length_singleton]
        omega
    exact absurd (hlong.subset (List.mem_append_right l List.mem_cons_self)) hc

/-- **A line in front is passed over**, piece by piece if it has to be. -/
theorem FrontLine.nspidLine_append {l : Str} (hl : FrontLine l) (s : List Byte) :
    nspidLine (l ++ ch '\n' :: s) = nspidLine s := by
  induction hlen : l.length using Nat.strongRecOn generalizing l with
  | ind n ih =>
    obtain ⟨hend, hother⟩ := hl
    have hne : l ++ ch '\n' :: s ≠ [] := List.append_ne_nil_of_right_ne_nil _ (List.cons_ne_nil _ _)
    have hbegin : ¬lit "NSpid:" <+: l := by
      intro hpre
      rcases hother with h | h
      · exact h hpre.isInfix
      · exact h.1 hpre
    have hfirst : ∀ k, ¬(lit "NSpid:").isPrefixOf (cstr ((l ++ ch '\n' :: s).take k)) = true := by
      intro k hpre
      have hall := ((List.isPrefixOf_iff_prefix.mp hpre).trans (List.takeWhile_prefix _)).trans
        (List.take_prefix k _)
      exact hbegin (prefix_of_notMem hall (by decide))
    rw [nspidLine_eq hne, if_neg (hfirst _), lineLen_append hend]
    by_cases hroom : l.length + 1 ≤ procSize - 1
    · have hdrop : (l ++ ch '\n' :: s).drop (l.length + 1) = s := by
        simp
      rw [Nat.min_eq_left hroom, hdrop]
    · have hmin : min (l.length + 1) (procSize - 1) = procSize - 1 := by omega
      have hle : procSize - 1 ≤ l.length := by omega
      have hpos : 0 < procSize - 1 := by decide
      rw [hmin, List.drop_append_of_le_length hle]
      refine ih (l.drop (procSize - 1)).length ?_ ⟨?_, Or.inl ?_⟩ rfl
      · rw [List.length_drop]
        omega
      · exact fun h => hend (List.mem_of_mem_drop h)
      · intro hin
        rcases hother with h | h
        · exact h (hin.trans (List.drop_suffix _ l).isInfix)
        · have := h.2
          omega

theorem nspidLine_front {front : List Str} (hfront : ∀ l ∈ front, FrontLine l) (s : List Byte) :
    nspidLine ((front.flatMap fun l => l ++ [ch '\n']) ++ s) = nspidLine s := by
  induction front with
  | nil => rfl
  | cons l front ih =>
    obtain ⟨hl, hfront⟩ := List.forall_mem_cons.mp hfront
    rw [List.flatMap_cons, List.append_assoc, List.append_assoc, List.singleton_append,
      hl.nspidLine_append, ih hfront]

theorem mem_line {c : Byte} (h : c ∈ t.line) : c ≠ ch '\n' ∧ c ≠ 0 ∧ c ≠ ch ' ' := by
  have hdigit : ∀ d, isDigit 10 d = true → d ≠ ch '\n' ∧ d ≠ 0 ∧ d ≠ ch ' ' := by
    apply forall_byte
    decide +kernel
  rcases List.mem_append.mp h with h | h
  · have hlabel : (lit "NSpid:").all (fun c => decide (c ≠ ch '\n' ∧ c ≠ 0 ∧ c ≠ ch ' ')) = true := by
      decide
    exact of_decide_eq_true (List.all_eq_true.mp hlabel c h)
  · obtain ⟨n, -, hn⟩ := List.mem_flatMap.mp h
    rcases List.mem_cons.mp hn with rfl | hn
    · decide
    · exact hdigit c (isDigit_of_mem_dec hn)

/-- **The line that is found**, as far as the buffer has room for it. -/
theorem nspidLine_status (t : KernelTask) :
    nspidLine t.status = some ((t.line ++ [ch '\n']).take (procSize - 1)) := by
  have hend : ch '\n' ∉ t.line := fun h => (mem_line h).1 rfl
  have hne : t.line ++ ch '\n' :: t.rest ≠ [] :=
    List.append_ne_nil_of_right_ne_nil _ (List.cons_ne_nil _ _)
  have htake : (t.line ++ ch '\n' :: t.rest).take (min (t.line.length + 1) (procSize - 1)) =
      (t.line ++ [ch '\n']).take (procSize - 1) := by
    rw [Nat.min_comm, ← List.take_take, List.take_length_add_append 1]
    rfl
  have hnul : 0 ∉ (t.line ++ [ch '\n']).take (procSize - 1) := by
    intro h
    rcases List.mem_append.mp (List.mem_of_mem_take h) with h | h
    · exact (mem_line h).2.1 rfl
    · exact absurd (List.mem_singleton.mp h) (by decide)
  rw [KernelTask.status, nspidLine_front t.front_ok, nspidLine_eq hne, lineLen_append hend, htake,
    cstr_of_notMem hnul, if_pos]
  apply List.isPrefixOf_iff_prefix.mpr
  apply List.prefix_take_iff.mpr
  refine ⟨?_, by decide⟩
  rw [KernelTask.line, List.append_assoc]
  exact List.prefix_append _ _

theorem lastField_line (t : KernelTask) :
    lastField (t.line ++ [ch '\n']) = some (dec t.nspid ++ [ch '\n']) := by
  have hblank : ch ' ' ∉ t.line ++ [ch '\n'] := by
    intro h
    rcases List.mem_append.mp h with h | h
    · exact (mem_line h).2.2 rfl
    · exact absurd (List.mem_singleton.mp h) (by decide)
  have htab : ch '\t' ∉ dec t.nspid ++ [ch '\n'] := by
    intro h
    rcases List.mem_append.mp h with h | h
    · exact absurd (isDigit_of_mem_dec h) (by decide)
    · exact absurd (List.mem_singleton.mp h) (by decide)
  have hline : t.line ++ [ch '\n'] =
      (lit "NSpid:" ++ nspids t.outer) ++ ch '\t' :: (dec t.nspid ++ [ch '\n']) := by
    simp [KernelTask.line, nspids]
  rw [lastField, strrchr_of_notMem hblank]
  dsimp only
  rw [hline, strrchr_append _ htab]
  rfl

end Line

/-! ### The pairs -/

section Exact

variable {e : Entry} {t : KernelTask} {dir : List Entry} {tasks : List KernelTask}

theorem toLong_natCast {n : Nat} (h : n < 2 ^ 31) : toLong n = n :=
  toLong_of_isInt ⟨by omega, by omega⟩

/-- **A task that is read tells its pair.** -/
theorem pair_of_task (hname : e.name = dec t.tid) (hstatus : e.status = t.status)
    (hreads : e.reads = true) : e.pair = some t.pair := by
  have hdigit : e.name.head?.any (isDigit 10) = true := by
    rw [hname]
    cases hdec : dec t.tid with
    | nil => exact absurd hdec (dec_ne_nil _)
    | cons c s => exact isDigit_of_mem_dec (n := t.tid) (by rw [hdec]; exact List.mem_cons_self)
  have hnumber : strtol 10 e.name = ((t.tid : Int), []) := by
    have hread := strtol_dec (r := []) t.tid fun _ hc => absurd hc (Option.not_mem_none _)
    rwa [List.append_nil, toLong_natCast t.tid_lt, ← hname] at hread
  have hnspid : strtol 10 (dec t.nspid ++ [ch '\n']) = ((t.nspid : Int), [ch '\n']) := by
    rw [strtol_dec t.nspid, toLong_natCast t.nspid_lt]
    exact Token.forall_mem_head_cons (by decide) _
  unfold Entry.reads Entry.outcome at hreads
  rw [if_pos hdigit] at hreads
  rw [Entry.pair, Entry.outcome, if_pos hdigit]
  cases hopenat : e.openat with
  | some err =>
    rw [hopenat] at hreads
    cases hreads
  | none =>
    cases hfdopen : e.fdopen with
    | some err =>
      rw [hopenat, hfdopen] at hreads
      cases hreads
    | none =>
      rw [hopenat, hfdopen, hstatus, nspidLine_status] at hreads
      rw [hstatus, nspidLine_status]
      dsimp only at hreads ⊢
      by_cases hroom : t.line.length + 1 ≤ procSize - 1
      · have hlen : (t.line ++ [ch '\n']).length ≤ procSize - 1 := by
          rwa [List.length_append]
        rw [List.take_of_length_le hlen, lastField_line]
        dsimp only
        rw [hnspid, hnumber]
        rfl
      · -- the line end is cut off, so the last field does not stop at one
        have hcut : ch '\n' ∉ (t.line ++ [ch '\n']).take (procSize - 1) := by
          rw [List.take_append_of_le_length (by omega)]
          exact fun h => (mem_line (List.mem_of_mem_take h)).1 rfl
        cases hfield : lastField ((t.line ++ [ch '\n']).take (procSize - 1)) with
        | none =>
          rw [hfield] at hreads
          cases hreads
        | some nspid =>
          have hhead : (strtol 10 nspid).2.head? ≠ some (ch '\n') := by
            intro h
            have hsuffix := (strtol_suffix 10 nspid).trans (lastField_suffix hfield)
            exact hcut (hsuffix.subset (List.mem_of_head? h))
          rw [hfield] at hreads
          dsimp only at hreads
          rw [if_pos hhead] at hreads
          cases hreads

theorem digits_of_read {p : PidPair} (h : e.outcome = .read p) :
    ∀ c ∈ e.name, isDigit 10 c = true := by
  unfold Entry.outcome at h
  split at h
  · rename_i hdigit
    split at h
    · split at h
      · cases h
      split at h
      · cases h
      split at h
      · cases h
      split at h
      · rename_i hrest
        cases hname : e.name with
        | nil => exact List.forall_mem_nil _
        | cons c s =>
          rw [hname] at hdigit hrest
          rw [strtol_digits (by exact hdigit)] at hrest
          exact List.dropWhile_eq_nil_iff.mp hrest
      · cases h
    · cases h
  · cases h

theorem pair_of_other (hname : ¬∀ c ∈ e.name, isDigit 10 c = true) : e.pair = none := by
  rw [Entry.pair]
  split
  · rename_i p hread
    exact absurd (digits_of_read hread) hname
  · rfl

/-- **The pairs are those of the tasks**, in the order in which they are listed. -/
theorem Lists.pairs_eq (h : Lists dir tasks) (hreads : ∀ e ∈ dir, e.reads = true) :
    pairs dir = tasks.map KernelTask.pair := by
  induction h with
  | nil => rfl
  | task hname hstatus h ih =>
    obtain ⟨he, hdir⟩ := List.forall_mem_cons.mp hreads
    rw [pairs_cons, pair_of_task hname hstatus he, ih hdir]
    rfl
  | other hname h ih =>
    rw [pairs_cons, pair_of_other hname, ih (List.forall_mem_cons.mp hreads).2]
    rfl

theorem procPidMap_task (hnodup : (tasks.map KernelTask.nspid).Nodup) (ht : t ∈ tasks) :
    procPidMap (tasks.map KernelTask.pair) t.nspid = ((t.tid : Int), []) := by
  have hfind : (tasks.map KernelTask.pair).find? (fun p => p.nspid = (t.nspid : Int)) =
      some t.pair := by
    induction tasks with
    | nil => exact absurd ht List.not_mem_nil
    | cons u tasks ih =>
      rw [List.map_cons, List.nodup_cons] at hnodup
      rcases List.mem_cons.mp ht with rfl | ht
      · exact List.find?_cons_of_pos (decide_eq_true rfl)
      · rw [List.map_cons]
        refine (List.find?_cons_of_neg fun h => ?_).trans (ih hnodup.2 ht)
        have heq : u.nspid = t.nspid := Int.ofNat_inj.mp (of_decide_eq_true h)
        exact hnodup.1 (heq ▸ List.mem_map_of_mem ht)
  have htid := t.tid_lt
  rw [procPidMap, hfind]
  exact congrArg (·, []) (toInt_of_isInt ⟨by simp only [KernelTask.pair]; omega,
    by simp only [KernelTask.pair]; omega⟩)

theorem procPidMap_other {v : Int} (hv : ∀ t ∈ tasks, v ≠ t.nspid) :
    (procPidMap (tasks.map KernelTask.pair) v).1 = v := by
  have hfind : (tasks.map KernelTask.pair).find? (fun p => p.nspid = v) = none := by
    rw [List.find?_eq_none]
    intro p hp
    obtain ⟨t, ht, rfl⟩ := List.mem_map.mp hp
    exact fun h => hv t ht (of_decide_eq_true h).symm
  rw [procPidMap, hfind]

end Exact

/-- **The map is exact**: no element is written outside of the array, and if
`read_proc_info` succeeds every task is found by its number in the namespace. -/
theorem readPidmap_exact (strerror : Errno → Str) (room : Nat → Bool) (reached : Bool)
    {dir : List Entry} {tasks : List KernelTask} (hlists : Lists dir tasks)
    (hnodup : (tasks.map KernelTask.nspid).Nodup) :
    readPidmap strerror room reached dir ≠ .error .outOfBounds ∧
      ∀ m log, readPidmap strerror room reached dir = .ok (true, m, log) →
        (∀ t ∈ tasks, m.procPidMap t.nspid = .ok ((t.tid : Int), [])) ∧
          ∀ v : Int, (∀ t ∈ tasks, v ≠ t.nspid) → ∃ log, m.procPidMap v = .ok (v, log) := by
  have hrun : Ran dir [] (readEntries strerror room dir {} 0) := readEntries_run holds_nil
  rw [readPidmap]
  cases reached with
  | false =>
    refine ⟨fun h => ?_, fun m log h => ?_⟩
    · cases h
    · cases h
  | true =>
    rw [if_pos rfl]
    refine ⟨fun h => ?_, fun m log h => ?_⟩
    · rw [h] at hrun
      rcases hrun with hfault | hfault
      · cases hfault
      · cases hfault
    · rw [h] at hrun
      obtain ⟨hreads, hcount, spare, hslots⟩ := hrun
      rw [List.nil_append, hlists.pairs_eq hreads] at hcount hslots
      have hlookup : ∀ v, m.procPidMap v = .ok (procPidMap (tasks.map KernelTask.pair) v) := by
        intro v
        rw [Pidmap.procPidMap, hcount]
        exact lookup_eq hslots
      refine ⟨fun t ht => ?_, fun v hv => ?_⟩
      · rw [hlookup, procPidMap_task hnodup ht]
      · have hfirst := procPidMap_other hv
        exact ⟨_, (hlookup v).trans (congrArg _ (Prod.ext hfirst rfl))⟩

theorem readPidmap_exact_two : ∃ m log,
    readPidmap (fun _ => []) (fun _ => true) true
      [{ name := lit "." }, { name := lit "9", status := lit "NSpid:\t9\t2\n" },
        { name := lit "7", status := lit "Pid:\t7\nNSpid:\t7\t1\nSeccomp:\t0\n" }] =
        .ok (true, m, log) ∧
      m.procPidMap 1 = .ok (7, []) ∧ m.procPidMap 2 = .ok (9, []) ∧
      ∃ log, m.procPidMap 7 = .ok (7, log) := by
  have hfront : ∀ l ∈ [lit "Pid:\t7"], FrontLine l := by
    intro l hl
    rw [List.mem_singleton.mp hl]
    exact ⟨by decide, Or.inr ⟨by decide, by decide⟩⟩
  have hlists : Lists [{ name := lit "." }, { name := lit "9", status := lit "NSpid:\t9\t2\n" },
      { name := lit "7", status := lit "Pid:\t7\nNSpid:\t7\t1\nSeccomp:\t0\n" }]
      [⟨9, [9], 2, [], [], List.forall_mem_nil _, by decide, by decide⟩,
        ⟨7, [7], 1, [lit "Pid:\t7"], lit "Seccomp:\t0\n", hfront, by decide, by decide⟩] :=
    .other (by decide) (.task rfl rfl (.task rfl rfl .nil))
  have hexact := (readPidmap_exact (fun _ => []) (fun _ => true) true hlists
    (show [2, 1].Nodup by decide)).2 _ _ rfl
  refine ⟨_, _, rfl, ?_, ?_, ?_⟩
  · exact hexact.1 _ (List.mem_cons_of_mem _ List.mem_cons_self)
  · exact hexact.1 _ List.mem_cons_self
  · have htwo : (7 : Int) ≠ (2 : Nat) := by decide
    have hone : (7 : Int) ≠ (1 : Nat) := by decide
    refine hexact.2 7 (List.forall_mem_cons.mpr ⟨htwo, List.forall_mem_cons.mpr ⟨hone, ?_⟩⟩)
    exact List.forall_mem_nil _

end Crashinfo
