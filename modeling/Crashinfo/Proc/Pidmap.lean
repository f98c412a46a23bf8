import Crashinfo.Lib.Buffer
import Crashinfo.Proc.Info
import Crashinfo.Stdio

/-!
# The map of the PIDs

The last part of `read_proc_info` reads the status of every task, and puts its PIDs
into `pidmap`.  The array grows as it fills up, and while it is read into,
`pidmap_count` is how many elements there is room for; behind the loop it becomes the
number of elements.  Where reading fails it stays what it is.

An element that was never written is indeterminate.  `read_proc_info` itself does not
look at any (`readEntries_run`), but `proc_pid_map` looks at all that count.  To the rest
of the program only the end of the loop matters (`readTasks_readEntries`).
-/

namespace Crashinfo

open Buffer Lines

/-- `sizeof buf` in `read_proc_info` -/
def procSize : Nat := 4096 + 256

/-- What `fgets` reads with that buffer, string by string. -/
def procLines (s : List Byte) : List Str := (pieces (ch '\n') (procSize - 1) s.length s).map cstr

def strrchr (c : Byte) : Str → Option Str
  | [] => none
  | d :: s =>
    match strrchr c s with
    | some t => some t
    | none => if d = c then some (d :: s) else none

/-- An element of `pidmap`; a member that was never written is `none`. -/
structure Slot where
  pid : Option Int := none
  nspid : Option Int := none
  deriving DecidableEq, Repr

def Slot.unwritten : Slot := {}

/-- `pidmap`, with all the elements there is room for, and `pidmap_count` -/
structure Pidmap where
  slots : List Slot := []
  count : Nat := 0
  deriving DecidableEq, Repr

/-- An entry of `task`, and what comes of its status file: the errors of `openat` and
`fdopen`, if there are any, and what it reads. -/
structure Entry where
  name : Str
  openat : Option Errno := none
  fdopen : Option Errno := none
  status : List Byte := []
  deriving DecidableEq, Repr

/-- `realloc`; `room` says how many elements it finds memory for. -/
def Pidmap.grow (room : Nat → Bool) (m : Pidmap) : Except Fault Pidmap :=
  if (next 32 m.count : Int) > intMax then .error .overflow
  else if room (next 32 m.count) then
    .ok { slots := resize .unwritten (next 32 m.count) m.slots, count := next 32 m.count }
  else .error .nullDeref

def Pidmap.reserve (room : Nat → Bool) (m : Pidmap) (c : Nat) : Except Fault Pidmap :=
  if c = m.count then m.grow room else .ok m

def Pidmap.store (m : Pidmap) (c : Nat) (f : Slot → Slot) : Except Fault Pidmap :=
  if c < m.slots.length then .ok { m with slots := m.slots.modify c f } else .error .outOfBounds

/-- What stands behind the last blank of a line, or behind its last tab. -/
def lastField (buf : Str) : Option Str :=
  match strrchr (ch ' ') buf with
  | some nspid => some (nspid.drop 1)
  | none => (strrchr (ch '\t') buf).map (·.drop 1)

/-- The PIDs of the task `name` become `pidmap[c]`; `false` if `buf` is malformed. -/
def readNspid (room : Nat → Bool) (name buf : Str) (m : Pidmap) (c : Nat) :
    Except Fault (Bool × Pidmap) :=
  match lastField buf with
  | none => .ok (false, m)
  | some nspid => do
    let m ← m.reserve room c
    let m ← m.store c fun s => { s with nspid := some (strtol 10 nspid).1 }
    if (strtol 10 nspid).2.head? ≠ some (ch '\n') then return (false, m)
    else
      let m ← m.store c fun s => { s with pid := some (strtol 10 name).1 }
      return (decide ((strtol 10 name).2 = []), m)

def nspidLine (status : List Byte) : Option Str :=
  (procLines status).find? fun buf => (lit "NSpid:").isPrefixOf buf

/-- The loop over the entries of `task`; `true` if `read_proc_info` returns 0. -/
def readEntries (strerror : Errno → Str) (room : Nat → Bool) :
    List Entry → Pidmap → Nat → Except Fault (Bool × Pidmap × List Message)
  | [], m, c => .ok (true, { m with count := c }, [])
  | e :: es, m, c =>
    if e.name.head?.any (isDigit 10) then
      let path := lit "task/" ++ e.name ++ lit "/status"
      match e.openat, e.fdopen with
      | some err, _ =>
        .ok (false, m, [(.err, lit "Can't open '" ++ path ++ lit "': " ++ strerror err)])
      | none, some err =>
        .ok (false, m, [(.err, lit "Can't open '" ++ path ++ lit "': " ++ strerror err)])
      | none, none =>
        match nspidLine e.status with
        | none => readEntries strerror room es m c
        | some buf => do
          let (ok, m) ← readNspid room e.name buf m c
          if ok then readEntries strerror room es m (c + 1)
          else return (false, m, [(.notice, lit "Malformed line '" ++ buf ++ lit "'")])
    else readEntries strerror room es m c

/-- What `read_proc_info` makes of `pidmap`; `reached` says whether it gets as far as
the tasks. -/
def readPidmap (strerror : Errno → Str) (room : Nat → Bool) (reached : Bool) (dir : List Entry) :
    Except Fault (Bool × Pidmap × List Message) :=
  if reached then readEntries strerror room dir {} 0 else .ok (false, {}, [])

/-- The loop of `proc_pid_map`, over `n` elements from the one with the number `i` on. -/
def Pidmap.lookup (m : Pidmap) (nspid : Int) : Nat → Nat → Except Fault (Int × List Message)
  | 0, _ => .ok (nspid, [(.warn, lit "Failed to map NS pid " ++ fmtD nspid)])
  | n + 1, i =>
    match m.slots[i]? with
    | none => .error .outOfBounds
    | some s =>
      match s.nspid with
      | none => .error .indeterminate
      | some k =>
        if k = nspid then
          match s.pid with
          | none => .error .indeterminate
          | some pid => .ok (toInt pid, [])
        else m.lookup nspid n (i + 1)

def Pidmap.procPidMap (m : Pidmap) (nspid : Int) : Except Fault (Int × List Message) :=
  m.lookup nspid m.count 0

/-! ### What an entry comes to -/

def Slot.full (p : PidPair) : Slot := { pid := some p.pid, nspid := some p.nspid }

inductive Entry.Outcome where
  /-- there is nothing to put into the map -/
  | skipped
  | read (p : PidPair)
  /-- the status cannot be opened, or the line has no field -/
  | unread
  /-- the last field is not a number; it is read as `nspid` -/
  | badNumber (nspid : Int)
  /-- the name is not a number; it is read as `p.pid` -/
  | badName (p : PidPair)
  deriving DecidableEq, Repr

/-- What becomes of an entry, whatever was read before. -/
def Entry.outcome (e : Entry) : Entry.Outcome :=
  if e.name.head?.any (isDigit 10) then
    match e.openat, e.fdopen with
    | none, none =>
      match nspidLine e.status with
      | none => .skipped
      | some buf =>
        match lastField buf with
        | none => .unread
        | some nspid =>
          if (strtol 10 nspid).2.head? ≠ some (ch '\n') then .badNumber (strtol 10 nspid).1
          else if (strtol 10 e.name).2 = [] then
            .read ⟨(strtol 10 e.name).1, (strtol 10 nspid).1⟩
          else .badName ⟨(strtol 10 e.name).1, (strtol 10 nspid).1⟩
    | _, _ => .unread
  else .skipped

def Entry.reads (e : Entry) : Bool :=
  match e.outcome with
  | .skipped => true
  | .read _ => true
  | _ => false

/-- **The pair that a task tells**: its number is the name of the directory, and its
number in the namespace is the last field of the line. -/
def Entry.pair (e : Entry) : Option PidPair :=
  match e.outcome with
  | .read p => some p
  | _ => none

def pairs (dir : List Entry) : List PidPair := dir.filterMap Entry.pair

/-! ### Writing an element -/

/-- The only ways in which reading does not return: there are too many elements for an
`int`, or for the memory. -/
def TooMany (f : Fault) : Prop := f = .overflow ∨ f = .nullDeref

/-- The elements that were written are `l`, and the array has grown as they came. -/
structure Holds (m : Pidmap) (l : List Slot) : Prop where
  fits : Fits 32 m.count l.length
  slots : m.slots = l ++ List.replicate (m.count - l.length) .unwritten

section Store

variable {m : Pidmap} {l : List Slot}

theorem holds_nil : Holds {} [] := ⟨.nil, rfl⟩

theorem Holds.le (h : Holds m l) : l.length ≤ m.count := h.fits.le (by decide)

theorem Holds.length (h : Holds m l) : m.slots.length = m.count := by
  have hle := h.le
  rw [h.slots, List.length_append, List.length_replicate]
  omega

/-- **There is room for one more element**, or there are too many. -/
theorem Holds.reserve (h : Holds m l) (room : Nat → Bool) :
    (∃ f, TooMany f ∧ m.reserve room l.length = .error f) ∨
      ∃ m', m.reserve room l.length = .ok m' ∧
        Fits 32 m'.count (l.length + 1) ∧
          m'.slots = l ++ List.replicate (m'.count - l.length) .unwritten := by
  have hle := h.le
  by_cases hfull : l.length = m.count
  · have hfits : Fits 32 m.count m.count := by
      have := h.fits
      rwa [hfull] at this
    rw [Pidmap.reserve, if_pos hfull, Pidmap.grow]
    split
    · exact Or.inl ⟨_, Or.inl rfl, rfl⟩
    split
    · have hgrow := hfits.grow
      have hmore : m.count ≤ next 32 m.count := by
        have := hgrow.le (by decide)
        omega
      refine Or.inr ⟨_, rfl, by rw [hfull]; exact hgrow, ?_⟩
      rw [h.slots]
      exact resize_append hmore hle
    · exact Or.inl ⟨_, Or.inr rfl, rfl⟩
  · rw [Pidmap.reserve, if_neg hfull]
    exact Or.inr ⟨m, rfl, h.fits.push (by omega), h.slots⟩

theorem store_new {f : Slot → Slot} (hfits : Fits 32 m.count (l.length + 1))
    (hslots : m.slots = l ++ List.replicate (m.count - l.length) .unwritten) :
    ∃ m', m.store l.length f = .ok m' ∧ Holds m' (l ++ [f .unwritten]) := by
  have hlt : l.length < m.count := hfits.le (by decide)
  have hroom : l.length < m.slots.length := by
    rw [hslots, List.length_append, List.length_replicate]
    omega
  refine ⟨_, if_pos hroom, by rwa [List.length_append], ?_⟩
  rw [hslots, modify_append hlt, List.append_assoc, List.length_append]
  rfl

theorem Holds.store_last {f : Slot → Slot} {s : Slot} (h : Holds m (l ++ [s])) :
    ∃ m', m.store l.length f = .ok m' ∧ Holds m' (l ++ [f s]) := by
  have hroom : l.length < m.slots.length := by
    have := h.le
    rw [List.length_append] at this
    rw [h.length]
    exact this
  have hfits := h.fits
  have hslots := h.slots
  rw [List.length_append] at hfits hslots
  refine ⟨_, if_pos hroom, by rwa [List.length_append], ?_⟩
  rw [hslots, List.append_assoc, List.singleton_append, modify_append_cons, List.append_assoc,
    List.length_append]
  rfl

/-- **What `readNspid` leaves** where the line has a field. -/
theorem readNspid_spec (room : Nat → Bool) (name : Str) {buf nspid : Str} (h : Holds m l)
    (hfield : lastField buf = some nspid) :
    (∃ f, TooMany f ∧ readNspid room name buf m l.length = .error f) ∨
      ∃ m', if (strtol 10 nspid).2.head? ≠ some (ch '\n') then
          readNspid room name buf m l.length = .ok (false, m') ∧
            Holds m' (l ++ [{ nspid := some (strtol 10 nspid).1 }])
        else
          readNspid room name buf m l.length = .ok (decide ((strtol 10 name).2 = []), m') ∧
            Holds m' (l ++ [.full ⟨(strtol 10 name).1, (strtol 10 nspid).1⟩]) := by
  unfold readNspid
  rw [hfield]
  dsimp only
  rcases h.reserve room with ⟨f, hf, hgrow⟩ | ⟨m₁, hgrow, hfits, hslots⟩
  · left
    exact ⟨f, hf, by rw [hgrow]; rfl⟩
  obtain ⟨m₂, hstore, h₂⟩ :=
    store_new (f := fun s => { s with nspid := some (strtol 10 nspid).1 }) hfits hslots
  right
  rw [hgrow]
  by_cases hbad : (strtol 10 nspid).2.head? ≠ some (ch '\n')
  · refine ⟨m₂, ?_⟩
    rw [if_pos hbad]
    refine ⟨?_, h₂⟩
    show (m₁.store _ _ >>= _) = _
    rw [hstore]
    exact if_pos hbad
  · obtain ⟨m₃, hlast, h₃⟩ :=
      h₂.store_last (f := fun s => { s with pid := some (strtol 10 name).1 })
    refine ⟨m₃, ?_⟩
    rw [if_neg hbad]
    refine ⟨?_, h₃⟩
    show (m₁.store _ _ >>= _) = _
    rw [hstore]
    refine (if_neg hbad).trans ?_
    rw [hlast]
    rfl

end Store

/-! ### A run -/

/-- What is left where reading stops at `e`, with the pairs `ps` in the array. -/
def Entry.Leaves (e : Entry) (ps : List PidPair) (m : Pidmap) : Prop :=
  match e.outcome with
  | .unread => Holds m (ps.map .full)
  | .badNumber nspid => Holds m (ps.map .full ++ [{ nspid := some nspid }])
  | .badName p => Holds m ((ps ++ [p]).map .full)
  | _ => False

/-- How the loop comes out, started with the pairs `ps` in the array. -/
def Ran (dir : List Entry) (ps : List PidPair) : Except Fault (Bool × Pidmap × List Message) → Prop
  | .error f => TooMany f
  | .ok (true, m, _) => (∀ e ∈ dir, e.reads = true) ∧ m.count = (ps ++ pairs dir).length ∧
      ∃ spare, m.slots = (ps ++ pairs dir).map .full ++ spare
  | .ok (false, m, _) => ∃ e rest, dir.dropWhile Entry.reads = e :: rest ∧
      e.Leaves (ps ++ pairs (dir.takeWhile Entry.reads)) m

section Run

variable {strerror : Errno → Str} {room : Nat → Bool} {m : Pidmap} {e : Entry} {ps : List PidPair}
  {es : List Entry}

theorem pairs_cons (e : Entry) (es : List Entry) : pairs (e :: es) = e.pair.toList ++ pairs es := by
  rw [pairs, List.filterMap_cons, pairs]
  cases e.pair with
  | none => rfl
  | some p => rfl

/-- Reading goes on behind an entry with the pair it tells. -/
theorem ran_cons {r : Except Fault (Bool × Pidmap × List Message)} (hreads : e.reads = true)
    (h : Ran es (ps ++ e.pair.toList) r) : Ran (e :: es) ps r := by
  match r with
  | .error f => exact h
  | .ok (true, m, log) =>
    obtain ⟨hall, hcount, hslots⟩ := h
    rw [List.append_assoc, ← pairs_cons] at hcount hslots
    exact ⟨List.forall_mem_cons.mpr ⟨hreads, hall⟩, hcount, hslots⟩
  | .ok (false, m, log) =>
    obtain ⟨e', rest, hdrop, hleaves⟩ := h
    rw [List.append_assoc, ← pairs_cons, ← List.takeWhile_cons_of_pos hreads] at hleaves
    exact ⟨e', rest, by rwa [List.dropWhile_cons_of_pos hreads], hleaves⟩

/-- What the loop does at an entry, with the pairs `ps` in the array. -/
inductive EntryTurn (strerror : Errno → Str) (room : Nat → Bool) (e : Entry) (es : List Entry)
    (m : Pidmap) (ps : List PidPair) : Prop
  | tooMany {f : Fault} (hf : TooMany f)
      (hrun : readEntries strerror room (e :: es) m ps.length = .error f)
  | skipped (hout : e.outcome = .skipped)
      (hrun : readEntries strerror room (e :: es) m ps.length =
        readEntries strerror room es m ps.length)
  | read {p : PidPair} {m' : Pidmap} (hout : e.outcome = .read p)
      (hm' : Holds m' ((ps ++ [p]).map .full))
      (hrun : readEntries strerror room (e :: es) m ps.length =
        readEntries strerror room es m' (ps.length + 1))
  | stopped {m' : Pidmap} {log : List Message} (hreads : e.reads = false) (hleaves : e.Leaves ps m')
      (hrun : readEntries strerror room (e :: es) m ps.length = .ok (false, m', log))

theorem entryTurn_of_field {buf nspid : Str} (h : Holds m (ps.map .full))
    (hname : e.name.head?.any (isDigit 10) = true) (hopenat : e.openat = none)
    (hfdopen : e.fdopen = none) (hline : nspidLine e.status = some buf)
    (hfield : lastField buf = some nspid) : EntryTurn strerror room e es m ps := by
  have hturn : readEntries strerror room (e :: es) m ps.length =
      readNspid room e.name buf m ps.length >>= fun r =>
        if r.1 then readEntries strerror room es r.2 (ps.length + 1)
        else .ok (false, r.2, [(.notice, lit "Malformed line '" ++ buf ++ lit "'")]) := by
    rw [readEntries, if_pos hname, hopenat, hfdopen, hline]
    rfl
  have hspec := readNspid_spec room e.name h hfield
  rw [List.length_map] at hspec
  rcases hspec with ⟨f, hf, hrun⟩ | ⟨m', hrun⟩
  · rw [hrun] at hturn
    exact .tooMany hf hturn
  have hout : e.outcome = if (strtol 10 nspid).2.head? ≠ some (ch '\n') then
      .badNumber (strtol 10 nspid).1
      else if (strtol 10 e.name).2 = [] then .read ⟨(strtol 10 e.name).1, (strtol 10 nspid).1⟩
      else .badName ⟨(strtol 10 e.name).1, (strtol 10 nspid).1⟩ := by
    rw [Entry.outcome, if_pos hname, hopenat, hfdopen, hline]
    dsimp only
    rw [hfield]
  by_cases hbad : (strtol 10 nspid).2.head? ≠ some (ch '\n')
  · rw [if_pos hbad] at hrun hout
    obtain ⟨hrun, hm'⟩ := hrun
    rw [hrun] at hturn
    exact .stopped (by rw [Entry.reads, hout]) (by rw [Entry.Leaves, hout]; exact hm') hturn
  rw [if_neg hbad] at hrun hout
  obtain ⟨hrun, hm'⟩ := hrun
  rw [hrun] at hturn
  have hpairs : ∀ p, ps.map Slot.full ++ [.full p] = (ps ++ [p]).map .full := by
    intro p
    rw [List.map_append]
    rfl
  rw [hpairs] at hm'
  by_cases hdigits : (strtol 10 e.name).2 = []
  · rw [if_pos hdigits] at hout
    exact .read hout hm' (hturn.trans (if_pos (decide_eq_true hdigits)))
  · rw [if_neg hdigits] at hout
    refine .stopped (by rw [Entry.reads, hout]) (by rw [Entry.Leaves, hout]; exact hm')
      (hturn.trans (if_neg ?_))
    rw [decide_eq_false hdigits]
    exact Bool.false_ne_true

/-- **What one entry does.** -/
theorem readEntries_cons (h : Holds m (ps.map .full)) : EntryTurn strerror room e es m ps := by
  by_cases hname : e.name.head?.any (isDigit 10) = true
  · have hunread : ∀ log : List Message, e.outcome = .unread →
        readEntries strerror room (e :: es) m ps.length = .ok (false, m, log) →
          EntryTurn strerror room e es m ps := by
      intro log hout hrun
      exact .stopped (by rw [Entry.reads, hout]) (by rw [Entry.Leaves, hout]; exact h) hrun
    cases hopenat : e.openat with
    | some err =>
      refine hunread _ ?_ (by rw [readEntries, if_pos hname, hopenat])
      rw [Entry.outcome, if_pos hname, hopenat]
    | none =>
      cases hfdopen : e.fdopen with
      | some err =>
        refine hunread _ ?_ (by rw [readEntries, if_pos hname, hopenat, hfdopen])
        rw [Entry.outcome, if_pos hname, hopenat, hfdopen]
      | none =>
        cases hline : nspidLine e.status with
        | none =>
          refine .skipped ?_ (by rw [readEntries, if_pos hname, hopenat, hfdopen, hline])
          rw [Entry.outcome, if_pos hname, hopenat, hfdopen, hline]
        | some buf =>
          cases hfield : lastField buf with
          | some nspid => exact entryTurn_of_field h hname hopenat hfdopen hline hfield
          | none =>
            have hline' : readNspid room e.name buf m ps.length = .ok (false, m) := by
              rw [readNspid, hfield]
            refine hunread [(.notice, lit "Malformed line '" ++ buf ++ lit "'")] ?_ ?_
            · rw [Entry.outcome, if_pos hname, hopenat, hfdopen, hline]
              dsimp only
              rw [hfield]
            · rw [readEntries, if_pos hname, hopenat, hfdopen, hline]
              dsimp only
              rw [hline']
              rfl
  · refine .skipped ?_ (by rw [readEntries, if_neg hname])
    rw [Entry.outcome, if_neg hname]

/-- **A run of the loop.** -/
theorem readEntries_run (h : Holds m (ps.map .full)) :
    Ran es ps (readEntries strerror room es m ps.length) := by
  induction es generalizing m ps with
  | nil =>
    refine ⟨List.forall_mem_nil _, ?_, List.replicate (m.count - ps.length) .unwritten, ?_⟩
    · rw [pairs, List.filterMap_nil, List.append_nil]
    · have hslots := h.slots
      rw [List.length_map] at hslots
      rw [pairs, List.filterMap_nil, List.append_nil]
      exact hslots
  | cons e es ih =>
    have hturn : EntryTurn strerror room e es m ps := readEntries_cons h
    cases hturn with
    | tooMany hf hrun =>
      rw [hrun]
      exact hf
    | skipped hout hrun =>
      rw [hrun]
      have hpair : e.pair = none := by rw [Entry.pair, hout]
      refine ran_cons (by rw [Entry.reads, hout]) ?_
      rw [hpair, Option.toList_none, List.append_nil]
      exact ih h
    | @read p m' hout hm' hrun =>
      rw [hrun]
      have hpair : e.pair = some p := by rw [Entry.pair, hout]
      have hlen : ps.length + 1 = (ps ++ [p]).length := by rw [List.length_append]; rfl
      refine ran_cons (by rw [Entry.reads, hout]) ?_
      rw [hpair, hlen]
      exact ih hm'
    | stopped hreads hleaves hrun =>
      rw [hrun]
      have hstop : ¬e.reads = true := by rw [hreads]; exact Bool.false_ne_true
      refine ⟨e, es, List.dropWhile_cons_of_neg hstop, ?_⟩
      rw [List.takeWhile_cons_of_neg hstop, pairs, List.filterMap_nil, List.append_nil]
      exact hleaves

end Run

/-! ### The rest of the program -/

section Rest

open Script Script.Run

def Entry.task (e : Entry) : Option Task :=
  if e.name.head?.any (isDigit 10) then
    some { name := e.name, malformed := if e.reads then none else nspidLine e.status }
  else none

def Entry.answers (e : Entry) : List Answer :=
  if e.name.head?.any (isDigit 10) then
    match e.openat, e.fdopen with
    | some err, _ => [.err err]
    | none, some err => [.ok, .err err]
    | none, none => [.ok, .ok]
  else []

theorem fdopen_alloc (h : Host) (d : Desc) (o : List Answer) :
    fdopen h.fds.free (h.alloc d) o = syscall .fdopen (pure ()) (h.alloc d) o := by
  have hat : (h.alloc d).at h.fds.free = some d := by
    rw [Host.at_natCast]
    exact Table.get_put_self _ _ _
  have hget : (get : HostRun Host) (h.alloc d) o = .done (h.alloc d) (h.alloc d) o := rfl
  rw [fdopen, bind_of_done hget, hat]

theorem readTasks_malformed (env : Env) {t : Task} {line : Str} (ht : t.malformed = some line)
    (ts : List Task) (h : Host) (o : List Answer) :
    ∃ h', readTasks env (t :: ts) h (.ok :: .ok :: o) = .done false h' o := by
  have hopen : syscall .openProc (alloc ⟨.proc, false⟩) h (.ok :: .ok :: o) =
      .done (.ok h.fds.free) (h.alloc ⟨.proc, false⟩) (.ok :: o) := rfl
  have hfd : fdopen h.fds.free (h.alloc ⟨.proc, false⟩) (.ok :: o) =
      .done (.ok ()) (h.alloc ⟨.proc, false⟩) o := fdopen_alloc h ⟨.proc, false⟩ (.ok :: o)
  rw [readTasks, bind_of_done hopen]
  dsimp only
  rw [bind_of_done hfd, ht]
  exact ⟨_, rfl⟩

theorem readTasks_read (env : Env) {t : Task} (ht : t.malformed = none) (ts : List Task)
    (h : Host) (o : List Answer) :
    ∃ h', readTasks env (t :: ts) h (.ok :: .ok :: o) = readTasks env ts h' o := by
  have hopen : syscall .openProc (alloc ⟨.proc, false⟩) h (.ok :: .ok :: o) =
      .done (.ok h.fds.free) (h.alloc ⟨.proc, false⟩) (.ok :: o) := rfl
  have hfd : fdopen h.fds.free (h.alloc ⟨.proc, false⟩) (.ok :: o) =
      .done (.ok ()) (h.alloc ⟨.proc, false⟩) o := fdopen_alloc h ⟨.proc, false⟩ (.ok :: o)
  rw [readTasks, bind_of_done hopen]
  dsimp only
  rw [bind_of_done hfd, ht]
  exact ⟨_, rfl⟩

theorem readTasks_failed (env : Env) (t : Task) (ts : List Task) (h : Host) (e : Errno)
    (o : List Answer) :
    (∃ h', readTasks env (t :: ts) h (.err e :: o) = .done false h' o) ∧
      ∃ h', readTasks env (t :: ts) h (.ok :: .err e :: o) = .done false h' o := by
  have hopen : syscall .openProc (alloc ⟨.proc, false⟩) h (.ok :: .err e :: o) =
      .done (.ok h.fds.free) (h.alloc ⟨.proc, false⟩) (.err e :: o) := rfl
  have hfd : fdopen h.fds.free (h.alloc ⟨.proc, false⟩) (.err e :: o) =
      .done (.error e) ((h.alloc ⟨.proc, false⟩).fail .fdopen) o :=
    fdopen_alloc h ⟨.proc, false⟩ (.err e :: o)
  refine ⟨⟨_, rfl⟩, ?_⟩
  rw [readTasks, bind_of_done hopen]
  dsimp only
  rw [bind_of_done hfd]
  exact ⟨_, rfl⟩

/-- **`readProcInfo` reads the tasks** just if reading goes on behind each of them. -/
theorem readTasks_entries (env : Env) (dir : List Entry) (h : Host) (o : List Answer) :
    ∃ h' rest, readTasks env (dir.filterMap Entry.task) h (dir.flatMap Entry.answers ++ o) =
      .done (dir.all Entry.reads) h' rest := by
  induction dir generalizing h with
  | nil => exact ⟨h, o, rfl⟩
  | cons e es ih =>
    rw [List.flatMap_cons, List.append_assoc, List.all_cons]
    by_cases hname : e.name.head?.any (isDigit 10) = true
    · have htask : (e :: es).filterMap Entry.task =
          { name := e.name, malformed := if e.reads then none else nspidLine e.status } ::
            es.filterMap Entry.task :=
        List.filterMap_cons_some (if_pos hname)
      rw [htask, Entry.answers, if_pos hname]
      cases hopenat : e.openat with
      | some err =>
        have hreads : e.reads = false := by
          rw [Entry.reads, Entry.outcome, if_pos hname, hopenat]
        rw [hreads]
        obtain ⟨h', hrun⟩ := (readTasks_failed env _ _ h err _).1
        exact ⟨h', _, hrun⟩
      | none =>
        cases hfdopen : e.fdopen with
        | some err =>
          have hreads : e.reads = false := by
            rw [Entry.reads, Entry.outcome, if_pos hname, hopenat, hfdopen]
          rw [hreads]
          obtain ⟨h', hrun⟩ := (readTasks_failed env _ _ h err _).2
          exact ⟨h', _, hrun⟩
        | none =>
          cases hreads : e.reads with
          | true =>
            have hnone : ({ name := e.name, malformed := none } : Task).malformed = none := rfl
            obtain ⟨h₁, hrun⟩ := readTasks_read env hnone (es.filterMap Entry.task) h
              (es.flatMap Entry.answers ++ o)
            obtain ⟨h', rest, hrest⟩ := ih h₁
            exact ⟨h', rest, hrun.trans hrest⟩
          | false =>
            obtain ⟨line, hline⟩ : ∃ line, nspidLine e.status = some line := by
              cases hline : nspidLine e.status with
              | some line => exact ⟨line, rfl⟩
              | none =>
                rw [Entry.reads, Entry.outcome, if_pos hname, hopenat, hfdopen, hline] at hreads
                cases hreads
            rw [hline]
            have hsome : ({ name := e.name, malformed := some line } : Task).malformed =
                some line := rfl
            obtain ⟨h', hrun⟩ := readTasks_malformed env hsome (es.filterMap Entry.task) h
              (es.flatMap Entry.answers ++ o)
            exact ⟨h', _, hrun⟩
    · have htask : (e :: es).filterMap Entry.task = es.filterMap Entry.task :=
        List.filterMap_cons_none (if_neg hname)
      have hreads : e.reads = true := by rw [Entry.reads, Entry.outcome, if_neg hname]
      rw [htask, hreads, Entry.answers, if_neg hname]
      exact ih h

/-- **Both loops over the tasks** come to the same end. -/
theorem readTasks_readEntries {env : Env} {room : Nat → Bool} {dir : List Entry} {ok : Bool}
    {m : Pidmap} {log : List Message}
    (hrun : readEntries env.strerror room dir {} 0 = .ok (ok, m, log)) (h : Host)
    (o : List Answer) :
    ∃ h' rest, readTasks env (dir.filterMap Entry.task) h (dir.flatMap Entry.answers ++ o) =
      .done ok h' rest := by
  have hran : Ran dir [] (readEntries env.strerror room dir {} 0) := readEntries_run holds_nil
  rw [hrun] at hran
  have hok : dir.all Entry.reads = ok := by
    cases ok with
    | true => exact List.all_eq_true.mpr hran.1
    | false =>
      obtain ⟨e, rest, hdrop, -⟩ := hran
      rw [← Bool.not_eq_true, List.all_eq_true]
      intro hall
      rw [List.dropWhile_eq_nil_iff.mpr hall] at hdrop
      cases hdrop
  rw [← hok]
  exact readTasks_entries env dir h o

end Rest

/-! ### What counts -/

/-- **Every element that counts is a pair that one task tells.** -/
def Pidmap.Told (m : Pidmap) (dir : List Entry) : Prop :=
  ∀ i < m.count, ∃ e ∈ dir, ∃ p, e.pair = some p ∧ m.slots[i]? = some (.full p)

/-- Where reading stops at `e` with `n` pairs in the array, no element is left that was
not written: the array is just full.  Where only the name is bad, the last element was
written, and is right only if another task tells the same. -/
def Entry.StopsFull (e : Entry) (dir : List Entry) (n : Nat) : Prop :=
  match e.outcome with
  | .unread => IsFull 32 n
  | .badNumber _ => False
  | .badName p => IsFull 32 (n + 1) ∧ p ∈ pairs dir
  | _ => True

/-- Reading does not stop, or stops where the array is just full. -/
def StopsFull (reached : Bool) (dir : List Entry) : Prop :=
  reached = true → ∀ e ∈ (dir.dropWhile Entry.reads).head?,
    e.StopsFull dir (pairs (dir.takeWhile Entry.reads)).length

section Told

variable {m : Pidmap} {dir : List Entry} {ps : List PidPair}

theorem mem_pairs {p : PidPair} : p ∈ pairs dir ↔ ∃ e ∈ dir, e.pair = some p := List.mem_filterMap

theorem Slot.full_injective : Function.Injective Slot.full := by
  intro p q h
  cases p
  cases q
  cases h
  rfl

theorem told_of_slots {spare : List Slot} (hcount : m.count = ps.length)
    (hslots : m.slots = ps.map .full ++ spare) (hps : ∀ p ∈ ps, p ∈ pairs dir) : m.Told dir := by
  intro i hi
  rw [hcount] at hi
  obtain ⟨e, he, hpair⟩ := mem_pairs.mp (hps ps[i] (List.getElem_mem hi))
  refine ⟨e, he, ps[i], hpair, ?_⟩
  rw [hslots, List.getElem?_append_left (by rwa [List.length_map]), List.getElem?_map,
    List.getElem?_eq_getElem hi]
  rfl

/-- An element that is not written in full does not count. -/
theorem not_told {l : List Slot} {s : Slot} {rest : List Slot} (hslots : m.slots = l ++ s :: rest)
    (hlt : l.length < m.count) (hs : ∀ p, s ≠ .full p) : ¬m.Told dir := by
  intro htold
  obtain ⟨e, -, p, -, hslot⟩ := htold l.length hlt
  rw [hslots, List.getElem?_append_right (Nat.le_refl _), Nat.sub_self] at hslot
  exact hs p (Option.some.inj hslot)

/-- **With every element written in full, it takes a full array.** -/
theorem told_iff (h : Holds m (ps.map .full)) :
    m.Told dir ↔ IsFull 32 ps.length ∧ ∀ p ∈ ps, p ∈ pairs dir := by
  have hfits := h.fits
  have hslots := h.slots
  rw [List.length_map] at hfits hslots
  rw [← hfits.eq_iff (by decide)]
  refine ⟨fun htold => ⟨?_, ?_⟩, fun ⟨hfull, hps⟩ => told_of_slots hfull hslots hps⟩
  · -- an element to spare would count
    by_contra hne
    have hlt : ps.length < m.count := Nat.lt_of_le_of_ne (hfits.le (by decide)) (Ne.symm hne)
    obtain ⟨k, hk⟩ := Nat.exists_eq_add_of_lt hlt
    have hspare : m.count - ps.length = k + 1 := by omega
    rw [hspare, List.replicate_succ] at hslots
    refine not_told hslots (by rwa [List.length_map]) (fun p hp => ?_) htold
    cases hp
  · intro p hp
    obtain ⟨i, hi, rfl⟩ := List.mem_iff_getElem.mp hp
    obtain ⟨e, he, q, hq, hslot⟩ := htold i (Nat.lt_of_lt_of_le hi (hfits.le (by decide)))
    rw [hslots, List.getElem?_append_left (by rwa [List.length_map]), List.getElem?_map,
      List.getElem?_eq_getElem hi] at hslot
    rw [Slot.full_injective (Option.some.inj hslot)]
    exact mem_pairs.mpr ⟨e, he, hq⟩

/-- Elements that are written in full can be looked at. -/
theorem lookup_ok {nspid : Int} {n i : Nat} (h : ∀ j < n, ∃ p, m.slots[i + j]? = some (.full p)) :
    ∃ r, m.lookup nspid n i = .ok r := by
  induction n generalizing i with
  | zero => exact ⟨_, rfl⟩
  | succ n ih =>
    obtain ⟨p, hp⟩ := h 0 (Nat.succ_pos n)
    have hnext := ih (i := i + 1) fun j hj => by
      obtain ⟨q, hq⟩ := h (j + 1) (Nat.succ_lt_succ hj)
      exact ⟨q, by rw [← hq]; congr 1; omega⟩
    rw [Pidmap.lookup, ← Nat.add_zero i, hp]
    dsimp only [Slot.full]
    split
    · exact ⟨_, rfl⟩
    · exact hnext

/-- **The loop looks for the first pair**, if all the elements are written. -/
theorem lookup_eq {nspid : Int} {i : Nat} {spare : List Slot}
    (h : m.slots.drop i = ps.map .full ++ spare) :
    m.lookup nspid ps.length i = .ok (procPidMap ps nspid) := by
  induction ps generalizing i with
  | nil => rfl
  | cons p ps ih =>
    have hslot : m.slots[i]? = some (.full p) := by
      rw [← Nat.add_zero i, ← List.getElem?_drop, h]
      rfl
    have hrest : m.slots.drop (i + 1) = ps.map .full ++ spare := by
      rw [← List.drop_drop, h]
      rfl
    rw [List.length_cons, Pidmap.lookup, hslot]
    dsimp only [Slot.full]
    by_cases hp : p.nspid = nspid
    · have hfind : (p :: ps).find? (fun p => p.nspid = nspid) = some p :=
        List.find?_cons_of_pos (decide_eq_true hp)
      rw [if_pos hp, procPidMap, hfind]
    · have hfind : (p :: ps).find? (fun p => p.nspid = nspid) = ps.find? fun p => p.nspid = nspid :=
        List.find?_cons_of_neg fun h => hp (of_decide_eq_true h)
      rw [if_neg hp, ih hrest, procPidMap, procPidMap, hfind]

theorem Pidmap.Told.procPidMap (h : m.Told dir) (nspid : Int) :
    ∃ r, m.procPidMap nspid = .ok r := by
  refine lookup_ok fun j hj => ?_
  obtain ⟨e, -, p, -, hslot⟩ := h j hj
  exact ⟨p, by rwa [Nat.zero_add]⟩

theorem Entry.Leaves.told_iff {e : Entry} (h : e.Leaves ps m) (hps : ∀ p ∈ ps, p ∈ pairs dir) :
    m.Told dir ↔ e.StopsFull dir ps.length := by
  unfold Entry.Leaves at h
  unfold Entry.StopsFull
  cases hout : e.outcome with
  | skipped =>
    rw [hout] at h
    exact h.elim
  | read p =>
    rw [hout] at h
    exact h.elim
  | unread =>
    rw [hout] at h
    exact (Crashinfo.told_iff h).trans (and_iff_left hps)
  | badNumber nspid =>
    rw [hout] at h
    have hslots := h.slots
    have hle := h.le
    rw [List.append_assoc] at hslots
    rw [List.length_append] at hle
    refine iff_of_false (not_told hslots hle fun p hp => ?_) id
    cases hp
  | badName p =>
    rw [hout] at h
    rw [Crashinfo.told_iff h, List.length_append]
    refine and_congr_right' ⟨fun hall => hall p (List.mem_append_right _ List.mem_cons_self), ?_⟩
    intro hp q hq
    rcases List.mem_append.mp hq with hq | hq
    · exact hps q hq
    · rwa [List.mem_singleton.mp hq]

end Told

/-- **The map holds nothing but what was read**, and `proc_pid_map` looks at nothing
else, just if reading does not stop or stops where the array is full. -/
theorem readPidmap_told_iff {strerror : Errno → Str} {room : Nat → Bool} {reached ok : Bool}
    {dir : List Entry} {m : Pidmap} {log : List Message}
    (h : readPidmap strerror room reached dir = .ok (ok, m, log)) :
    (m.Told dir ∧ ∀ nspid, ∃ r, m.procPidMap nspid = .ok r) ↔ StopsFull reached dir := by
  have hlookup : (m.Told dir ∧ ∀ nspid, ∃ r, m.procPidMap nspid = .ok r) ↔ m.Told dir :=
    and_iff_left_of_imp fun htold => htold.procPidMap
  rw [hlookup]
  cases reached with
  | false =>
    rw [readPidmap, if_neg Bool.false_ne_true] at h
    cases h
    exact iff_of_true (fun i hi => absurd hi (Nat.not_lt_zero i)) fun h => absurd h Bool.false_ne_true
  | true =>
    have hrun : Ran dir [] (readEntries strerror room dir {} 0) := readEntries_run holds_nil
    rw [readPidmap, if_pos rfl] at h
    rw [h] at hrun
    rw [StopsFull, imp_iff_right rfl]
    cases ok with
    | true =>
      obtain ⟨hreads, hcount, spare, hslots⟩ := hrun
      have hdrop : dir.dropWhile Entry.reads = [] := List.dropWhile_eq_nil_iff.mpr hreads
      rw [hdrop]
      exact iff_of_true (told_of_slots hcount hslots fun p hp => hp)
        fun e he => absurd he (Option.not_mem_none _)
    | false =>
      obtain ⟨e, rest, hdrop, hleaves⟩ := hrun
      have hprefix : ∀ p ∈ pairs (dir.takeWhile Entry.reads), p ∈ pairs dir := by
        intro p hp
        obtain ⟨e, he, hpair⟩ := mem_pairs.mp hp
        exact mem_pairs.mpr ⟨e, (List.takeWhile_prefix _).subset he, hpair⟩
      rw [hleaves.told_iff hprefix, hdrop]
      refine ⟨fun hfull e' he' => ?_, fun hfull => hfull e rfl⟩
      rwa [← Option.some.inj he']

theorem readPidmap_told_task :
    ((⟨[.full ⟨7, 1⟩] ++ List.replicate 31 .unwritten, 1⟩ : Pidmap).Told
        [{ name := lit "7", status := lit "Pid:\t7\nNSpid:\t7\t1\n" }] ∧
      ∀ nspid, ∃ r, (⟨[.full ⟨7, 1⟩] ++ List.replicate 31 .unwritten, 1⟩ : Pidmap).procPidMap nspid =
        .ok r) ↔
      StopsFull true [{ name := lit "7", status := lit "Pid:\t7\nNSpid:\t7\t1\n" }] :=
  @readPidmap_told_iff (fun _ => []) (fun _ => true) true true
    [{ name := lit "7", status := lit "Pid:\t7\nNSpid:\t7\t1\n" }] _ [] rfl

/-- The status of the second task cannot be opened: all 32 elements count, and the second
one was never written. -/
theorem not_readPidmap_told : ∃ m log,
    readPidmap (fun _ => []) (fun _ => true) true
      [{ name := lit "7", status := lit "NSpid:\t7\t1\n" },
        { name := lit "8", openat := some .enoent }] = .ok (false, m, log) ∧
      ¬m.Told [{ name := lit "7", status := lit "NSpid:\t7\t1\n" },
        { name := lit "8", openat := some .enoent }] ∧
      m.procPidMap 5 = .error .indeterminate := by
  refine ⟨⟨[.full ⟨7, 1⟩] ++ List.replicate 31 .unwritten, 32⟩, _, rfl, ?_, rfl⟩
  refine not_told (l := [.full ⟨7, 1⟩]) (s := .unwritten) rfl (by decide) fun p hp => ?_
  cases hp

end Crashinfo
