import Crashinfo.Info.Comment

/-!
# The document does not depend on the threshold, almost

Two runs of `info_dump` that differ in `conf.log.info` write the same document,
comments apart, unless one of them lets errors through and the other does not,
and there is an error that shows (`sameText_iff`).  The errors that show are
those about files of `proc_dump` that cannot be opened: `proc_dump` has begun a
line when it calls `log_err`, where `task_dumper` has ended it.  Any other error
shows only if the text of it, or `conf.proc.path`, has lines of its own.
-/

namespace Crashinfo

open Lines

/-! ### Amid a line -/

theorem mem_spaces {c : Byte} {n : Int} (h : c ∈ spaces n) : c = ch ' ' := by
  have hSP : ∀ c ∈ SP, c = ch ' ' := fun c hc => List.eq_of_mem_replicate hc
  unfold spaces at h
  split at h
  · exact hSP c h
  split at h
  · cases h
  · exact hSP c (List.mem_of_mem_drop h)

theorem plain_fputy (s : Str) : ch '\n' ∉ fputy s :=
  fun h => absurd (isprint_fputy s _ h) (by decide)

/-- An error message behind the text `c :: p`, with `d :: q` behind it. -/
theorem logged_amid {l : List Str} {c d : Byte} {p q : Str} (text : Str)
    (hl : l.flatten = c :: p) (hp : ch '\n' ∉ c :: p) (hc : c ≠ ch '#') (hd : d ≠ ch '#')
    (hdn : d ≠ ch '\n') (hq : Ended (ch '\n') (d :: q)) :
    Logged False (puts l ++ [.log (.err, text), .put (d :: q)]) := by
  have hlow : ∀ info < 3,
      stream info (puts l ++ [.log (.err, text), .put (d :: q)]) = c :: p ++ d :: q := by
    intro info hi
    rw [stream_append, stream_puts, hl, stream_cons, stream_cons, stream_nil, text_err_low hi,
      Event.text, List.nil_append, List.append_nil]
  have hhigh : ∀ info ≥ 3, stream info (puts l ++ [.log (.err, text), .put (d :: q)]) =
      c :: p ++ (lit "# " ++ Prio.err.label ++ text) ++ ch '\n' :: d :: q := by
    intro info hi
    rw [stream_append, stream_puts, hl, stream_cons, stream_cons, stream_nil, text_err_high hi,
      Event.text, List.append_nil, Message.comment]
    simp only [List.append_assoc]
    rfl
  constructor
  · intro info
    rw [stream_append, stream_cons, stream_cons, stream_nil, List.append_nil, ← List.append_assoc]
    exact hq.behind (List.cons_ne_nil d q) _
  · intro info hi
    rw [hlow info hi, hlow 0 (by decide)]
  · intro info hi
    rw [hhigh info hi, hhigh 3 (by decide)]
  · exact False.elim
  · intro _
    rw [hlow 0 (by decide), hhigh 3 (by decide)]
    exact length_kept_lt hp (decide_eq_true hc) hdn (decide_eq_true hd) _ q
  · intro info
    constructor
    · intro h
      by_contra hn
      have hi : info ≥ Prio.err.level := not_lt.mp (not_or.mp hn).1
      have hend := (h (puts l) (.err, text) [.put (d :: q)] rfl hi).1
      rw [stream_puts, hl] at hend
      rcases ended_iff.mp hend with h | ⟨t, ht⟩
      · cases h
      · exact hp (by rw [ht]; simp)
    · rintro (hi | hf)
      · intro a m b hab hm
        have hmem : Event.log m ∈ puts l ++ [.log (.err, text), .put (d :: q)] := by
          rw [hab]
          simp
        have hm' : m = (.err, text) := by simpa [puts] using hmem
        rw [hm'] at hm
        exact absurd hm (not_le.mpr hi)
      · exact hf.elim

/-! ### The parts of the document -/

theorem endsLine_blockLine (indent : Int) (buf : Str) : EndsLine (blockLine indent buf) :=
  endsLine_append _

/-- The file that cannot be opened: the message is amid the line. -/
theorem logged_dumpFile (dir : Dir) (indent : Int) (name : Str) :
    Logged ((dir name).isOk = true) (dumpFile dir indent name) := by
  unfold dumpFile
  cases hdir : dir name with
  | error e =>
    have hplain : ch '\n' ∉ [spaces (indent + 2), fputy name].flatten := by
      simp only [List.flatten_cons, List.flatten_nil, List.append_nil, List.mem_append, not_or]
      exact ⟨fun h => absurd (mem_spaces h) (by decide), plain_fputy name⟩
    obtain ⟨c, p, hl, hc⟩ : ∃ c p, [spaces (indent + 2), fputy name].flatten = c :: p ∧
        c ≠ ch '#' := by
      cases hs : spaces (indent + 2) with
      | nil => exact ⟨ch '"', _, rfl, by decide⟩
      | cons c p =>
        have hc : c = ch ' ' := mem_spaces (by rw [hs]; exact List.mem_cons_self)
        exact ⟨c, _, rfl, by rw [hc]; decide⟩
    rw [hl] at hplain
    have hend := endsLine_append (lit ": ~ # Can't open: " ++ e.text)
    exact (logged_amid (d := ch ':') _ hl hplain hc (by decide) (by decide) hend.1).congr
      (iff_of_false id nofun)
  | ok content =>
    have hlines : ∀ s ∈ lit ": |\n" :: blockLines indent content, EndsLine s := by
      rw [List.forall_mem_cons, blockLines, List.forall_mem_map]
      exact ⟨by decide, fun buf _ => endsLine_blockLine indent buf⟩
    have hputs := logged_puts [spaces (indent + 2), fputy name] (List.cons_ne_nil _ _) hlines
    rw [puts, List.map_append] at hputs
    exact hputs.congr (iff_of_true trivial rfl)

example : stream 3 (dumpFile (fun _ => .error ⟨13, lit "No"⟩) 0 (lit "f")) =
    lit "  \"f\"# ERR:  Can't open proc file 'f': No\n: ~ # Can't open: No\n" := by decide

/-- The files of `proc_dump` can all be opened, as far as it gets to them. -/
def Opens (conf : Conf) (dir : Dir) (files : List Str) : Prop :=
  conf.proc.ignore = true ∨ ∀ name ∈ files, (dir name).isOk = true

theorem logged_procDump (conf : Conf) (dir : Dir) (files : List Str) (indent : Int) :
    Logged (Opens conf dir files) (procDump conf dir files indent) := by
  have hhead : ∀ s, EndsLine s → Logged True (puts ([spaces indent] ++ [s])) :=
    fun _ hs => logged_line _ hs
  unfold procDump
  by_cases hfiles : files = []
  · rw [if_pos hfiles]
    refine (hhead _ (by decide)).congr (iff_of_true trivial (Or.inr ?_))
    rw [hfiles]
    exact nofun
  rw [if_neg hfiles]
  by_cases hig : conf.proc.ignore = true
  · rw [if_pos hig]
    exact (hhead _ (by decide)).congr (iff_of_true trivial (Or.inl hig))
  · rw [if_neg hig]
    refine ((hhead (lit "proc_dump:\n") (by decide)).append
      (logged_flatMap (logged_dumpFile dir indent) files)).congr ?_
    rw [true_and, Opens, or_iff_right hig]

def TaskUnnoticed (conf : Conf) (task : Int → Except SysError Dir) (tid : Int) : Prop :=
  match task tid with
  | .ok dir => Opens conf dir conf.procDump.task
  | .error e => Commented (taskMessage conf tid e).2

theorem logged_taskDumper (conf : Conf) (task : Int → Except SysError Dir) (tid : Int) :
    Logged (TaskUnnoticed conf task tid) (taskDumper conf task tid) := by
  have hhead : Logged True (puts ([] ++ [lit "  - tid: " ++ fmtD tid ++
      lit " # --------------------------------------------------\n"])) := by
    refine logged_line [] ⟨?_, ?_⟩
    · exact Ended.behind (by decide) (by decide) _
    · simp [lit]
  unfold taskDumper TaskUnnoticed
  cases task tid with
  | ok dir =>
    exact (hhead.append (logged_procDump conf dir conf.procDump.task 4)).congr
      (iff_of_eq (true_and _))
  | error e =>
    exact (hhead.append (logged_err (taskMessage conf tid e).2)).congr (iff_of_eq (true_and _))

/-! ### The threads -/

def ThreadUnnoticed (conf : Conf) (pidmap : List PidPair) (task : Int → Except SysError Dir)
    (t : CoreThread) : Prop :=
  match t.init with
  | some text => Commented text
  | none => TaskUnnoticed conf task (procPidMap pidmap t.pid).1

def CoreUnnoticed (conf : Conf) (pidmap : List PidPair) (task : Int → Except SysError Dir)
    (core : Core) : Prop :=
  match core.init with
  | some text => Commented text
  | none => ∀ t ∈ core.threads, ThreadUnnoticed conf pidmap task t

/-- Nothing shows of the tasks, in a build without libunwind. -/
def TasksUnnoticed (conf : Conf) (dir : Except SysError (List Str))
    (task : Int → Except SysError Dir) : Prop :=
  match dir with
  | .error e => Commented (taskDirMessage conf e).2
  | .ok names => ∀ tid ∈ taskTids names, TaskUnnoticed conf task tid

theorem logged_cursor (text : Str) : Logged (Commented text) [.log (cursorMessage text)] :=
  (logged_err _).congr (commented_append (by decide) text)

theorem logged_pidMap (pidmap : List PidPair) (pid : Int) :
    Logged True ((procPidMap pidmap pid).2.map .log) := by
  unfold procPidMap
  cases pidmap.find? fun p => p.nspid = pid with
  | some p => exact logged_nil
  | none =>
    apply logged_warn
    apply commented_of_plain
    intro h
    rcases List.mem_append.mp h with h | h
    · exact absurd h (by decide)
    · rcases isNum_of_mem_fmtD h with hnum | hnum
      · exact absurd hnum (by decide)
      · exact absurd hnum.1 (by decide)

theorem logged_dumpThread (conf : Conf) (pidmap : List PidPair)
    (task : Int → Except SysError Dir) (t : CoreThread) :
    Logged (ThreadUnnoticed conf pidmap task t)
      (dumpThread conf pidmap (taskDumper conf task) t) := by
  unfold dumpThread ThreadUnnoticed
  cases t.init with
  | some text => exact logged_cursor text
  | none =>
    have hlast : EndsLine (lit " ]\n") := by decide
    have htext : Logged True (puts (threadText conf t)) :=
      logged_line (threadText conf t).dropLast hlast
    refine (((logged_pidMap pidmap t.pid).append (logged_taskDumper conf task _)).append
      htext).congr ?_
    rw [true_and, and_true]

theorem logged_unwDump (conf : Conf) (core : Core) (pidmap : List PidPair)
    (task : Int → Except SysError Dir) :
    Logged (core.ok = true → CoreUnnoticed conf pidmap task core)
      (unwDump conf core pidmap (taskDumper conf task)) := by
  unfold unwDump
  by_cases hok : core.ok = true
  · have hmaps : Logged True (if conf.proc.maps = [] then
        [.log (.warn, lit "Mapping information are not available\n")] else []) := by
      split
      · exact logged_warn (by decide)
      · exact logged_nil
    have hcore : Logged (CoreUnnoticed conf pidmap task core) (match core.init with
        | some text => [.log (cursorMessage text)]
        | none => .put (lit "threads:\n") ::
          core.threads.flatMap (dumpThread conf pidmap (taskDumper conf task))) := by
      unfold CoreUnnoticed
      cases core.init with
      | some text => exact logged_cursor text
      | none =>
        have hhead : Logged True (puts [lit "threads:\n"]) := logged_line [] (by decide)
        exact (hhead.append (logged_flatMap (logged_dumpThread conf pidmap task)
          core.threads)).congr (iff_of_eq (true_and _))
    rw [if_pos hok]
    refine (hmaps.append hcore).congr ?_
    rw [true_and, forall_prop_of_true hok]
  · rw [if_neg hok]
    exact logged_nil.congr (iff_of_true trivial fun h => absurd h hok)

theorem logged_unwDumpTasks (conf : Conf) (dir : Except SysError (List Str))
    (task : Int → Except SysError Dir) :
    Logged (conf.proc.ignore = true ∨ TasksUnnoticed conf dir task)
      (unwDumpTasks conf dir (taskDumper conf task)) := by
  unfold unwDumpTasks TasksUnnoticed
  by_cases hig : conf.proc.ignore = true
  · rw [if_pos hig]
    have hputs : Logged True
        (puts [lit "threads: ~ # Unwinder is disabled and proc_ignore = 1\n"]) :=
      logged_line [] (by decide)
    exact hputs.congr (iff_of_true trivial (Or.inl hig))
  · rw [if_neg hig]
    have hiff : ∀ p : Prop, p ↔ conf.proc.ignore = true ∨ p := fun p => (or_iff_right hig).symm
    cases dir with
    | error e => exact (logged_err _).congr (hiff _)
    | ok names =>
      have hhead : Logged True (puts [lit "threads:\n"]) := logged_line [] (by decide)
      refine (hhead.append (logged_flatMap (logged_taskDumper conf task)
        (taskTids names))).congr ?_
      rw [true_and]
      exact hiff _

/-! ### The document -/

/-- **Nothing shows**: the files can be opened, and all that is said of the rest
is a comment. -/
structure Unnoticed (conf : Conf) (f : Findings) : Prop where
  root : Opens conf f.root conf.procDump.root
  threads : match f.unwinder with
    | .libunwind core => core.ok = true → CoreUnnoticed conf f.pidmap f.task core
    | .none task => conf.proc.ignore = true ∨ TasksUnnoticed conf task f.task
  flush : ∀ e ∈ f.flush, Commented (flushMessage e).2
  sync : ∀ e ∈ f.sync, ∀ m ∈ syncMessages e, Commented m.2

theorem logged_flush (e : SysError) :
    Logged (Commented (flushMessage e).2) [.log (flushMessage e)] := by
  unfold flushMessage
  split
  · have hplain : Commented (lit "Info stream truncated") := by decide
    exact (logged_warn hplain).congr (iff_of_true trivial hplain)
  · exact logged_err _

theorem logged_sync (e : SysError) :
    Logged (∀ m ∈ syncMessages e, Commented m.2) ((syncMessages e).map .log) := by
  unfold syncMessages
  split
  · refine (logged_err _).congr ?_
    rw [List.forall_mem_singleton]
  · exact logged_nil.congr (iff_of_true trivial nofun)

theorem logged_head (conf : Conf) (f : Findings) (exe : Str) :
    Logged True (puts (headTexts conf f exe)) := by
  have hlines : ∀ s ∈ lit " ]\n" :: mappings conf.proc.maps, EndsLine s := by
    rw [List.forall_mem_cons, mappings]
    refine ⟨by decide, ?_⟩
    split
    · decide
    · rw [List.forall_mem_cons, List.forall_mem_map]
      exact ⟨by decide, fun m _ => endsLine_append _⟩
  exact logged_puts [lit "---\ndatetime: ", datetime f.startTm f.rest, lit "exe: ", fputy exe,
    lit "\n", lit "cmdline: [ ", cmdline f.cmdline] (List.cons_ne_nil _ _) hlines

theorem logged_dumpThreads (conf : Conf) (f : Findings) :
    Logged (match f.unwinder with
      | .libunwind core => core.ok = true → CoreUnnoticed conf f.pidmap f.task core
      | .none task => conf.proc.ignore = true ∨ TasksUnnoticed conf task f.task)
      (dumpThreads conf f) := by
  unfold dumpThreads
  cases f.unwinder with
  | libunwind core => exact logged_unwDump conf core f.pidmap f.task
  | none task => exact logged_unwDumpTasks conf task f.task

theorem logged_tail (f : Findings) :
    Logged ((∀ e ∈ f.flush, Commented (flushMessage e).2) ∧
        ∀ e ∈ f.sync, ∀ m ∈ syncMessages e, Commented m.2)
      (.put (processingTime f.startTp f.endTp) ::
        ((f.flush.toList.map flushMessage).map .log ++
          (f.sync.toList.flatMap syncMessages).map .log)) := by
  have htime : Logged True (puts ([] ++ [processingTime f.startTp f.endTp])) :=
    logged_line [] (endsLine_append _)
  have hflush := logged_flatMap logged_flush f.flush.toList
  have hsync := logged_flatMap logged_sync f.sync.toList
  rw [← List.map_flatMap] at hsync
  rw [← List.map_eq_flatMap] at hflush
  rw [List.map_map]
  refine (htime.append (hflush.append hsync)).congr ?_
  simp only [Option.mem_toList, true_and]
  rfl

theorem logged_dumpEvents (conf : Conf) (f : Findings) (exe : Str) :
    Logged (Unnoticed conf f) (dumpEvents conf f exe) := by
  have hroot := logged_procDump conf f.root conf.procDump.root 0
  refine ((((logged_head conf f exe).append hroot).append (logged_dumpThreads conf f)).append
    (logged_tail f)).congr ?_
  rw [true_and]
  exact ⟨fun h => ⟨h.1.1, h.1.2, h.2.1, h.2.2⟩, fun h => ⟨⟨h.root, h.threads⟩, h.flush, h.sync⟩⟩

/-! ### Two runs -/

def Conf.withLogInfo (conf : Conf) (info : Int) : Conf :=
  { conf with log := { conf.log with info := info } }

/-- The two streams are equal, empty lines and comments apart. -/
def SameText (conf : Conf) (f : Findings) (info info' : Int) : Prop :=
  (infoStream (conf.withLogInfo info) f).map remaining =
    (infoStream (conf.withLogInfo info') f).map remaining

/-- Every message in the stream begins a line, and its lines are comments. -/
def AllInPlace (conf : Conf) (f : Findings) (info : Int) : Prop :=
  ∀ l, infoDump (conf.withLogInfo info) f = .ok l → InPlace info l

/-- What is done to the stream is the same whatever the threshold. -/
theorem infoDump_withLogInfo (conf : Conf) (f : Findings) (info : Int) :
    infoDump (conf.withLogInfo info) f = infoDump conf f := rfl

theorem infoStream_withLogInfo (conf : Conf) (f : Findings) (info : Int) :
    infoStream (conf.withLogInfo info) f = (infoDump conf f).map (stream info) := by
  rw [infoStream, infoDump_withLogInfo]
  congr 1
  funext l
  rw [info_happenAll]
  rfl

theorem Logged.remaining_eq_iff {clean : Prop} {l : List Event} (h : Logged clean l)
    (info info' : Int) :
    remaining (stream info l) = remaining (stream info' l) ↔ (info < 3 ↔ info' < 3) ∨ clean := by
  have hcross : remaining (stream 0 l) = remaining (stream 3 l) ↔ clean := by
    constructor
    · intro heq
      by_contra hc
      have hlt := h.more hc
      rw [heq] at hlt
      exact Nat.lt_irrefl _ hlt
    · exact fun hc => (h.same hc).symm
  rcases lt_or_ge info 3 with hi | hi
  · rw [h.low info hi]
    rcases lt_or_ge info' 3 with hi' | hi'
    · rw [h.low info' hi']
      exact iff_of_true rfl (Or.inl (iff_of_true hi hi'))
    · rw [h.high info' hi', hcross]
      exact (or_iff_right fun hiff => absurd (hiff.mp hi) (not_lt.mpr hi')).symm
  · rw [h.high info hi]
    rcases lt_or_ge info' 3 with hi' | hi'
    · rw [h.low info' hi', eq_comm, hcross]
      exact (or_iff_right fun hiff => absurd (hiff.mpr hi') (not_lt.mpr hi)).symm
    · rw [h.high info' hi']
      exact iff_of_true rfl (Or.inl (iff_of_false (not_lt.mpr hi) (not_lt.mpr hi')))

theorem sameText_iff (conf : Conf) (f : Findings) (info info' : Int) :
    SameText conf f info info' ↔
      conf.proc.exe = none ∨ (info < 3 ↔ info' < 3) ∨ Unnoticed conf f := by
  rw [SameText, infoStream_withLogInfo, infoStream_withLogInfo, infoDump]
  cases hexe : conf.proc.exe with
  | none => exact iff_of_true rfl (Or.inl rfl)
  | some exe =>
    rw [or_iff_right nofun, ← (logged_dumpEvents conf f exe).remaining_eq_iff info info']
    exact ⟨fun h => Except.ok.inj h, fun h => congrArg Except.ok h⟩

theorem allInPlace_iff (conf : Conf) (f : Findings) (info : Int) :
    AllInPlace conf f info ↔ conf.proc.exe = none ∨ info < 3 ∨ Unnoticed conf f := by
  rw [AllInPlace, infoDump_withLogInfo, infoDump]
  cases hexe : conf.proc.exe with
  | none => exact iff_of_true nofun (Or.inl rfl)
  | some exe =>
    rw [or_iff_right nofun, ← (logged_dumpEvents conf f exe).inPlace info]
    exact ⟨fun h => h _ rfl, fun h l hl => Except.ok.inj hl ▸ h⟩

/-- **Logging does not alter the document just if nothing shows**, or no error is
let through: the first part is about two runs, the second about one. -/
theorem infoDump_logged_iff (conf : Conf) (f : Findings) (info info' : Int) :
    (SameText conf f info info' ↔
      conf.proc.exe = none ∨ (info < 3 ↔ info' < 3) ∨ Unnoticed conf f) ∧
    (AllInPlace conf f info ∧ AllInPlace conf f info' ↔
      conf.proc.exe = none ∨ info < 3 ∧ info' < 3 ∨ Unnoticed conf f) := by
  refine ⟨sameText_iff conf f info info', ?_⟩
  rw [allInPlace_iff, allInPlace_iff]
  constructor
  · rintro ⟨h, h'⟩
    rcases h with h | h | h
    · exact Or.inl h
    · exact h'.imp_right (Or.imp_left (And.intro h))
    · exact Or.inr (Or.inr h)
  · rintro (h | h | h)
    · exact ⟨Or.inl h, Or.inl h⟩
    · exact ⟨Or.inr (Or.inl h.1), Or.inr (Or.inl h.2)⟩
    · exact ⟨Or.inr (Or.inr h), Or.inr (Or.inr h)⟩

def noFiles : Findings where
  startTm := ⟨2017, 1, 1, 0, 0, 0⟩
  startTp := ⟨0, 0⟩
  endTp := ⟨0, 0⟩
  cmdline := none
  root := fun _ => .error ⟨2, lit "No such file or directory"⟩
  task := fun _ => .error ⟨2, lit "No such file or directory"⟩
  unwinder := .none (.ok [])

def oneFile : Conf where
  proc := { exe := some (lit "/bin/true") }
  procDump := { root := [lit "status"] }

/-- A file that cannot be opened shows, unless errors are kept out. -/
theorem not_infoDump_logged : ¬∀ (conf : Conf) (f : Findings) (info info' : Int),
    SameText conf f info info' ∧ AllInPlace conf f info ∧ AllInPlace conf f info' := by
  intro h
  have hsame := (h oneFile noFiles (-1) 5).1
  rcases (sameText_iff _ _ _ _).mp hsame with he | hi | hc
  · cases he
  · exact absurd (hi.mp (by decide)) (by decide)
  · rcases hc.root with hig | hopen
    · cases hig
    · exact absurd (hopen _ (List.mem_singleton_self _)) (by decide)

end Crashinfo
