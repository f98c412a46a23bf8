import Crashinfo.Lib.FileTree
import Crashinfo.Output.Steer

/-!
# Making the directories above a path

`make_path` walks over the array that holds a path, and at every `/` but the
first character it puts a NUL there, calls `mkdir`, and puts the `/` back.
`makePathIn` does the same, whatever `mkdir` is; so it says both what the loop
makes of the array, and what it makes of the directories of a file system.
`makePathIn_eq` is about the array: the loop leaves it as it was, and calls
`mkdir` for the paths `dirsOf` lists.

`open_output` comes to `make_path` in a turn in which `open` fails.  Such a turn
clears `mkdir`, and without `mkdir` no turn calls `make_path` (`MakePathOnce`).
-/

namespace Crashinfo

open Script Script.Run FileTree

/-! ### The loop over the array -/

section Loop

variable {m : Type → Type} [Monad m] (mkdir : Str → m (Except Errno Unit)) (crit : Str → m Unit)
  (strerror : Errno → Str)

def mkdirFailed (d : Str) (e : Errno) : Str :=
  lit "Can't create directory '" ++ d ++ lit "': " ++ strerror e

/-- The loop of `make_path` from `p = path + k` on: what it returns, and the array
it leaves behind. -/
def makePathFrom : Nat → Nat → List Byte → m (Int × List Byte)
  | 0, _, path => return (0, path)
  | n + 1, k, path => do
    if path.getD k 0 = 0 then return (0, path)
    else if path.getD k 0 = ch '/' ∧ k ≠ 0 then
      let cut := path.set k 0
      match ← mkdir (cstr cut) with
      | .ok _ => makePathFrom n (k + 1) (cut.set k (ch '/'))
      | .error e =>
        if e = .eexist then makePathFrom n (k + 1) (cut.set k (ch '/'))
        else
          crit (mkdirFailed strerror (cstr cut) e)
          return (-1, cut.set k (ch '/'))
    else makePathFrom n (k + 1) path

def makePathIn (path : List Byte) : m (Int × List Byte) :=
  makePathFrom mkdir crit strerror path.length 0 path

/-- `make_path` without the array: the directories are made one after another. -/
def makeDirs : List Str → m Bool
  | [] => return true
  | d :: ds => do
    match ← mkdir d with
    | .ok _ => makeDirs ds
    | .error e =>
      if e = .eexist then makeDirs ds
      else
        crit (mkdirFailed strerror d e)
        return false

def retOf (ok : Bool) : Int := if ok then 0 else -1

end Loop

/-- The directories above a path that are made from its character `k` on. -/
def dirsFrom (path : Str) (k : Nat) : List Str :=
  ((List.range' k (path.length - k)).filter fun j => 0 < j ∧ path[j]? = some (ch '/')).map
    (path.take ·)

theorem dirsFrom_zero (path : Str) : dirsFrom path 0 = dirsOf path := by
  rw [dirsFrom, dirsOf, Nat.sub_zero, List.range_eq_range']

theorem dirsFrom_step {path : Str} {k : Nat} (hk : k < path.length) :
    dirsFrom path k =
      if 0 < k ∧ path[k]? = some (ch '/') then path.take k :: dirsFrom path (k + 1)
      else dirsFrom path (k + 1) := by
  have hrange : List.range' k (path.length - k)
      = k :: List.range' (k + 1) (path.length - (k + 1)) := by
    rw [show path.length - k = path.length - (k + 1) + 1 by omega, List.range'_succ]
  rw [dirsFrom, hrange, List.filter_cons]
  by_cases h : 0 < k ∧ path[k]? = some (ch '/')
  · rw [if_pos (decide_eq_true h), if_pos h, List.map_cons]
    rfl
  · rw [if_neg (by simpa using h), if_neg h]
    rfl

theorem dirsFrom_end {path : Str} {k : Nat} (hk : path.length ≤ k) : dirsFrom path k = [] := by
  rw [dirsFrom, Nat.sub_eq_zero_of_le hk]
  rfl

/-- **The directories above a path** are what stands in front of a `/` of it. -/
theorem mem_dirsOf {path d : Str} :
    d ∈ dirsOf path ↔ d ≠ [] ∧ ∃ back, path = d ++ ch '/' :: back := by
  rw [dirsOf, List.mem_map]
  constructor
  · rintro ⟨k, hk, rfl⟩
    obtain ⟨hlt, hk⟩ := List.mem_filter.mp hk
    obtain ⟨hpos, hslash⟩ := of_decide_eq_true hk
    rw [List.mem_range] at hlt
    refine ⟨?_, path.drop (k + 1), ?_⟩
    · intro hnil
      have := congrArg List.length hnil
      rw [List.length_take, List.length_nil] at this
      omega
    · rw [← (List.getElem?_eq_some_iff.mp hslash).2, ← List.drop_eq_getElem_cons,
        List.take_append_drop]
  · rintro ⟨hne, back, rfl⟩
    refine ⟨d.length, List.mem_filter.mpr ⟨by simp, decide_eq_true ⟨?_, by simp⟩⟩, by simp⟩
    exact List.length_pos_iff.mpr hne

theorem dirsOf_pairwise (path : Str) :
    (dirsOf path).Pairwise fun d d' => d <+: d' ∧ d.length < d'.length := by
  rw [dirsOf, List.pairwise_map]
  refine (List.pairwise_lt_range.filter _).imp_of_mem fun {a b} ha hb hab => ?_
  have hlt := List.mem_range.mp (List.mem_filter.mp hb).1
  constructor
  · exact List.take_prefix_take_left (Nat.le_of_lt hab)
  · rw [List.length_take, List.length_take]
    omega

section Array

variable {m : Type → Type} [Monad m] [LawfulMonad m] {mkdir : Str → m (Except Errno Unit)}
  {crit : Str → m Unit} {strerror : Errno → Str} {s : Str} {rest : List Byte}

theorem cstr_set_nul (h0 : 0 ∉ s) {k : Nat} (hk : k < s.length) :
    cstr ((s ++ 0 :: rest).set k 0) = s.take k := by
  have hcut : (s ++ 0 :: rest).set k 0 = s.take k ++ 0 :: (s.drop (k + 1) ++ 0 :: rest) := by
    rw [List.set_append_left _ _ hk, List.set_eq_take_append_cons_drop, if_pos hk,
      List.append_assoc]
    rfl
  rw [hcut]
  exact cstr_append_nul fun h => h0 (List.mem_of_mem_take h)

theorem set_nul_back {k : Nat} (hk : k < s.length) (hslash : s[k] = ch '/') :
    ((s ++ 0 :: rest).set k 0).set k (ch '/') = s ++ 0 :: rest := by
  rw [List.set_set, ← hslash, List.set_append_left _ _ hk, List.set_getElem_self]

theorem makePathFrom_eq (h0 : 0 ∉ s) : ∀ n k : Nat, k ≤ s.length → s.length < n + k →
    makePathFrom mkdir crit strerror n k (s ++ 0 :: rest) =
      (fun ok => (retOf ok, s ++ 0 :: rest)) <$> makeDirs mkdir crit strerror (dirsFrom s k) := by
  intro n
  induction n with
  | zero =>
    intro k hk hn
    omega
  | succ n ih =>
    intro k hk hn
    rw [makePathFrom]
    rcases Nat.lt_or_eq_of_le hk with hlt | rfl
    · have hget : (s ++ 0 :: rest).getD k 0 = s[k] := by
        rw [List.getD_eq_getElem?_getD, List.getElem?_append_left hlt,
          List.getElem?_eq_getElem hlt, Option.getD_some]
      have hne : s[k] ≠ 0 := fun h => h0 (h ▸ List.getElem_mem hlt)
      rw [hget, if_neg hne, dirsFrom_step hlt, List.getElem?_eq_getElem hlt]
      by_cases hslash : s[k] = ch '/' ∧ k ≠ 0
      · rw [if_pos hslash, if_pos ⟨by omega, congrArg some hslash.1⟩]
        simp only [cstr_set_nul h0 hlt, set_nul_back hlt hslash.1]
        rw [makeDirs, map_bind]
        refine bind_congr fun r => ?_
        cases r with
        | ok u => exact ih (k + 1) hlt (by omega)
        | error e =>
          simp only
          by_cases he : e = .eexist
          · rw [if_pos he, if_pos he]
            exact ih (k + 1) hlt (by omega)
          · rw [if_neg he, if_neg he, map_bind]
            refine bind_congr fun u => ?_
            rw [map_pure]
            rfl
      · have hno : ¬(0 < k ∧ some s[k] = some (ch '/')) := by
          rintro ⟨hpos, hs⟩
          exact hslash ⟨Option.some.inj hs, by omega⟩
        rw [if_neg hslash, if_neg hno]
        exact ih (k + 1) hlt (by omega)
    · have hget : (s ++ 0 :: rest).getD s.length 0 = 0 := by
        simp [List.getD_eq_getElem?_getD]
      rw [hget, if_pos rfl, dirsFrom_end (Nat.le_refl _), makeDirs, map_pure]
      rfl

/-- **The array is as it was**, whatever `mkdir` does, and `mkdir` is called for the
directories above the path. -/
theorem makePathIn_eq (h0 : 0 ∉ s) :
    makePathIn mkdir crit strerror (s ++ 0 :: rest) =
      (fun ok => (retOf ok, s ++ 0 :: rest)) <$> makeDirs mkdir crit strerror (dirsOf s) := by
  rw [makePathIn, ← dirsFrom_zero]
  exact makePathFrom_eq h0 _ 0 (Nat.zero_le _) (by simp)

end Array

/-! ### The directories it makes -/

structure Disk where
  tree : Dirs Str
  made : List Str := []
  log : List Str := []

abbrev DiskRun := Run Answer Fault Disk

/-- How a path is followed from the root; empty components mean nothing. -/
def moves (path : Str) : List (Move Str) :=
  ((components path).filter (· ≠ [])).map fun name =>
    if name = lit "." then .stay else if name = lit ".." then .up else .down name

/-- The error of a `mkdir` that is refused; `ENOTDIR` is one of those the code does not
tell apart. -/
def refusalErrno : Refusal → Errno
  | .missing => .enoent
  | .notDir => .other
  | .taken => .eexist

/-- The error a call fails with whatever there is on the disk. -/
def Answer.failure : Answer → Option Errno
  | .err e => if e = .eexist then none else some e
  | _ => none

def Disk.mkdir (path : Str) : DiskRun (Except Errno Unit) := do
  match (← ask).failure with
  | some e => return .error e
  | none =>
    match (← get).tree.mkdir (moves path) with
    | .error r => return .error (refusalErrno r)
    | .ok t =>
      modify fun d => { d with tree := t, made := d.made ++ [path] }
      return .ok ()

def Disk.crit (text : Str) : DiskRun Unit := modify fun d => { d with log := d.log ++ [text] }

/-- From `d` to `d'` the paths `done` were passed, and directories were made for what was
missing of them, in order. -/
def Disk.Walked (d : Disk) (done : List Str) (d' : Disk) : Prop :=
  ∃ made, d'.made = d.made ++ made ∧ made.Sublist done ∧
    Made d.tree (done.map moves) (made.map moves) d'.tree

/-- What `make_path` comes to: all paths of `ds` were passed, or all in front of one for
which `mkdir` fails. -/
def DirsRes (strerror : Errno → Str) (d : Disk) (ds : List Str) (ok : Bool) (d' : Disk) : Prop :=
  (ok = true ∧ d'.log = d.log ∧ d.Walked ds d') ∨
  (ok = false ∧ ∃ done x post e, ds = done ++ x :: post ∧ e ≠ .eexist ∧
    d'.log = d.log ++ [mkdirFailed strerror x e] ∧ d.Walked done d')

section Disk

variable {P : Answer → Prop} {strerror : Errno → Str} {d₀ d : Disk} {done : List Str}

/-- **What a call of `mkdir` comes to** behind a walk. -/
theorem ends_diskMkdir (hw : d₀.Walked done d) (path : Str) :
    Ends P 1 (Disk.mkdir path) d (fun r d' => d'.log = d.log ∧
      ((r = .ok () ∨ r = .error .eexist) ∧ d₀.Walked (done ++ [path]) d' ∨
        d' = d ∧ ∃ e, r = .error e ∧ e ≠ .eexist)) := by
  obtain ⟨made, hmade, hsub, hw⟩ := hw
  refine ends_bind (n := 0) (ends_ask fun w _ => ?_)
  cases hf : w.failure with
  | some e =>
    refine ends_pure ⟨rfl, Or.inr ⟨rfl, e, rfl, ?_⟩⟩
    rintro rfl
    cases w <;> simp [Answer.failure] at hf
  | none =>
    refine ends_step (ends_get ?_)
    rcases d.tree.mkdir_cases (moves path) with ⟨p, hnew, hup, hp, hok⟩ | ⟨hpres, he⟩ | ⟨r, hr, -, he⟩
    · simp only [hok]
      refine ends_step (ends_modify (ends_pure ⟨rfl, Or.inl ⟨Or.inl rfl, ?_⟩⟩))
      refine ⟨made ++ [path], ?_, hsub.append_right [path], ?_⟩
      · simp [hmade]
      · simpa using hw.make hp hnew hup
    · simp only [he]
      refine ends_pure ⟨rfl, Or.inl ⟨Or.inr rfl, made, hmade, ?_, ?_⟩⟩
      · exact hsub.trans (List.sublist_append_left done [path])
      · simpa using hw.pass hpres
    · simp only [he]
      refine ends_pure ⟨rfl, Or.inr ⟨rfl, refusalErrno r, rfl, ?_⟩⟩
      cases r with
      | missing => decide
      | notDir => decide
      | taken => exact absurd rfl hr

/-- **The walk over the directories.** -/
theorem ends_makeDirs (ds : List Str) : ∀ {done : List Str} {d : Disk}, d₀.Walked done d →
    d.log = d₀.log →
    Ends P ds.length (makeDirs Disk.mkdir Disk.crit strerror ds) d
      (DirsRes strerror d₀ (done ++ ds)) := by
  induction ds with
  | nil =>
    intro done d hw hlog
    refine ends_pure (Or.inl ⟨rfl, hlog, ?_⟩)
    rwa [List.append_nil]
  | cons x ds ih =>
    intro done d hw hlog
    have hcons : done ++ x :: ds = done ++ [x] ++ ds := by simp
    rw [makeDirs, List.length_cons, Nat.add_comm]
    refine ends_bind ((ends_diskMkdir hw x).mono (Nat.le_refl 1) ?_)
    rintro r d' ⟨hlog', ⟨rfl | rfl, hw'⟩ | ⟨rfl, e, rfl, he⟩⟩
    · rw [hcons]
      exact ih hw' (hlog'.trans hlog)
    · rw [hcons]
      exact ih hw' (hlog'.trans hlog)
    · simp only [if_neg he]
      refine ends_step (ends_modify (ends_pure (Or.inr ⟨rfl, done, x, ds, e, rfl, he, ?_, hw⟩)))
      rw [hlog]

end Disk

/-! ### The call of `make_path` -/

/-- What `open_output` calls is this loop. -/
theorem makePath_eq_makeDirs (env : Env) (ds : List Str) :
    makePath env ds = makeDirs mkdir (logmsg .crit) env.strerror ds := by
  induction ds with
  | nil => rfl
  | cons d ds ih =>
    rw [makePath, makeDirs, ih]
    rfl

section With

variable (mk : Str → HostRun Bool) (env : Env) (c : ConfOutput) (template : Str)

/-- `missingDir` with the program `mk` in the place of `make_path`. -/
def missingDirWith (v : OpenVars) (cur : Cursor) : HostRun OpenRes := do
  if ← mk cur.result then return .inl { v with mkdir := false, cursor := some cur }
  else return .inr none

def openFailedWith (v : OpenVars) (cur : Cursor) (e : Errno) : HostRun OpenRes := do
  if e = .eexist ∧ c.exist = .keep then keepFile env cur
  else if e = .eexist ∧ c.exist = .sequence then nextName c v cur
  else if e = .enoent ∧ v.mkdir then missingDirWith mk v cur
  else
    logmsg .crit (lit "Can't open '" ++ cstr cur.path.cells ++ lit "': " ++ env.strerror e)
    return .inr none

def attemptWith (v : OpenVars) (cur : Cursor) : HostRun OpenRes := do
  match ← openFile cur.result c.exist.excl with
  | .ok fd => return .inr (some (fd, cur.result))
  | .error e => openFailedWith mk env c v cur e

/-- A turn of the loop of `open_output` with `mk` in the place of `make_path`. -/
def openTurnWith (v : OpenVars) : HostRun OpenRes := do
  match v.cursor with
  | some cur => attemptWith mk env c v cur
  | none =>
    match ← expandPath env c template v with
    | some cur => attemptWith mk env c v cur
    | none => return .inr none

end With

abbrev TurnState := OpenVars × Host × List Answer

/-- The turn comes to the call of `make_path`, and what follows is for it to say. -/
def CallsMakePath (env : Env) (c : ConfOutput) (template : Str) (x : TurnState) : Prop :=
  ∃ cur h o, ∀ mk, openTurnWith mk env c template x.1 x.2.1 x.2.2 = missingDirWith mk x.1 cur h o

def NextTurn (env : Env) (c : ConfOutput) (template : Str) (x y : TurnState) : Prop :=
  openTurn env c template x.1 x.2.1 x.2.2 = .done (.inl y.1) y.2.1 y.2.2

/-- **One call of `make_path`**: a turn of `open_output` calls it or has nothing to do
with it, and behind a turn that calls it no other one does. -/
structure MakePathOnce (env : Env) (c : ConfOutput) (template : Str) : Prop where
  turn : ∀ v, openTurn env c template v =
    openTurnWith (fun path => makePath env (dirsOf path)) env c template v
  calls : ∀ x, CallsMakePath env c template x ∨ ∀ mk mk',
    openTurnWith mk env c template x.1 x.2.1 x.2.2 = openTurnWith mk' env c template x.1 x.2.1 x.2.2
  once : ∀ x y, CallsMakePath env c template x →
    Relation.TransGen (NextTurn env c template) x y → ¬CallsMakePath env c template y

section Once

variable {env : Env} {c : ConfOutput} {template : Str} {v : OpenVars} {h : Host} {o : List Answer}

theorem openTurn_eq_with (v : OpenVars) : openTurn env c template v =
    openTurnWith (fun path => makePath env (dirsOf path)) env c template v := rfl

/-- What follows an `open` that failed calls `make_path`, or has nothing to do with it. -/
theorem openFailedWith_cases (env : Env) (c : ConfOutput) (v : OpenVars) (cur : Cursor) (e : Errno) :
    (v.mkdir = true ∧ ∀ mk, openFailedWith mk env c v cur e = missingDirWith mk v cur) ∨
      ∀ mk mk', openFailedWith mk env c v cur e = openFailedWith mk' env c v cur e := by
  by_cases hkeep : e = .eexist ∧ c.exist = .keep
  · exact Or.inr fun mk mk' => by rw [openFailedWith, openFailedWith, if_pos hkeep, if_pos hkeep]
  by_cases hseq : e = .eexist ∧ c.exist = .sequence
  · refine Or.inr fun mk mk' => ?_
    rw [openFailedWith, openFailedWith, if_neg hkeep, if_neg hkeep, if_pos hseq, if_pos hseq]
  by_cases hdir : e = .enoent ∧ v.mkdir
  · refine Or.inl ⟨hdir.2, fun mk => ?_⟩
    rw [openFailedWith, if_neg hkeep, if_neg hseq, if_pos hdir]
  · refine Or.inr fun mk mk' => ?_
    rw [openFailedWith, openFailedWith, if_neg hkeep, if_neg hkeep, if_neg hseq, if_neg hseq,
      if_neg hdir, if_neg hdir]

theorem attemptWith_cases (env : Env) (c : ConfOutput) (v : OpenVars) (cur : Cursor) (h : Host)
    (o : List Answer) :
    (∃ h' o', v.mkdir = true ∧
        ∀ mk, attemptWith mk env c v cur h o = missingDirWith mk v cur h' o') ∨
      ∀ mk mk', attemptWith mk env c v cur h o = attemptWith mk' env c v cur h o := by
  cases hrun : openFile cur.result c.exist.excl h o with
  | stop why h' =>
    refine Or.inr fun mk mk' => ?_
    rw [attemptWith, attemptWith, bind_of_stop hrun, bind_of_stop hrun]
  | done r h' o' =>
    have hrest : ∀ mk, attemptWith mk env c v cur h o = _ := fun mk => by
      rw [attemptWith, bind_of_done hrun]
    cases r with
    | ok fd => exact Or.inr fun mk mk' => (hrest mk).trans (hrest mk').symm
    | error e =>
      rcases openFailedWith_cases env c v cur e with ⟨hv, heq⟩ | heq
      · exact Or.inl ⟨h', o', hv, fun mk => (hrest mk).trans (congrFun (congrFun (heq mk) h') o')⟩
      · refine Or.inr fun mk mk' => (hrest mk).trans (Eq.trans ?_ (hrest mk').symm)
        exact congrFun (congrFun (heq mk mk') h') o'

theorem openTurnWith_cases (env : Env) (c : ConfOutput) (template : Str) (v : OpenVars) (h : Host)
    (o : List Answer) :
    (v.mkdir = true ∧ CallsMakePath env c template (v, h, o)) ∨
      ∀ mk mk', openTurnWith mk env c template v h o = openTurnWith mk' env c template v h o := by
  -- what a turn comes to that goes on at `reopen`
  have hattempt : ∀ cur h' o',
      (∀ mk, openTurnWith mk env c template v h o = attemptWith mk env c v cur h' o') →
      (v.mkdir = true ∧ CallsMakePath env c template (v, h, o)) ∨
        ∀ mk mk', openTurnWith mk env c template v h o = openTurnWith mk' env c template v h o := by
    intro cur h' o' hturn
    rcases attemptWith_cases env c v cur h' o' with ⟨h₁, o₁, hv, heq⟩ | heq
    · exact Or.inl ⟨hv, cur, h₁, o₁, fun mk => (hturn mk).trans (heq mk)⟩
    · exact Or.inr fun mk mk' => (hturn mk).trans ((heq mk mk').trans (hturn mk').symm)
  obtain ⟨path, counter, mkdir, cursor⟩ := v
  cases cursor with
  | some cur => exact hattempt cur h o fun mk => rfl
  | none =>
    cases hrun : expandPath env c template ⟨path, counter, mkdir, none⟩ h o with
    | stop why h' =>
      exact Or.inr fun mk mk' => (bind_of_stop hrun).trans (bind_of_stop hrun).symm
    | done r h' o' =>
      cases r with
      | some cur => exact hattempt cur h' o' fun mk => bind_of_done hrun
      | none =>
        have hend : ∀ mk, openTurnWith mk env c template ⟨path, counter, mkdir, none⟩ h o
            = .done (.inr none) h' o' := fun mk => bind_of_done hrun
        exact Or.inr fun mk mk' => (hend mk).trans (hend mk').symm

theorem CallsMakePath.mkdir {x : TurnState} (h : CallsMakePath env c template x) :
    x.1.mkdir = true := by
  rcases openTurnWith_cases env c template x.1 x.2.1 x.2.2 with ⟨hv, -⟩ | heq
  · exact hv
  · obtain ⟨cur, h', o', hcall⟩ := h
    have hsame := (hcall fun _ => pure true).symm.trans
      ((heq (fun _ => pure true) fun _ => pure false).trans (hcall fun _ => pure false))
    cases hsame

theorem CallsMakePath.next {x y : TurnState} (h : CallsMakePath env c template x)
    (hnext : NextTurn env c template x y) : y.1.mkdir = false := by
  obtain ⟨cur, h', o', hcall⟩ := h
  rw [NextTurn, openTurn_eq_with, hcall, missingDirWith] at hnext
  obtain ⟨ok, h₁, o₁, -, hrest⟩ := of_bind_done hnext
  cases ok with
  | true =>
    have hv : Sum.inl { x.1 with mkdir := false, cursor := some cur } = (.inl y.1 : OpenRes) := by
      injection hrest
    rw [← Sum.inl.inj hv]
  | false => cases hrest

def KeepsNoMkdir (v : OpenVars) (r : OpenRes) (_ : Host) : Prop :=
  ∀ v', r = .inl v' → v.mkdir = false → v'.mkdir = false

theorem leads_attempt_mkdir (v : OpenVars) (cur : Cursor) :
    Leads (attempt env c v cur) h (KeepsNoMkdir v) := by
  refine (leads_any (openFile cur.result c.exist.excl) h).andThen fun r h₁ _ => ?_
  cases r with
  | ok fd => exact meets_pure fun v' hv' => absurd hv' (by simp)
  | error e =>
    show Leads (openFailed env c v cur e) h₁ (KeepsNoMkdir v)
    rw [openFailed]
    split
    · refine meets_bind (meets_keepNotice trivial ?_)
      refine (leads_any (openNull true) _).andThen fun r h₂ _ => ?_
      cases r with
      | ok fd => exact meets_pure fun v' hv' => absurd hv' (by simp)
      | error e => exact meets_bind (meets_modify (meets_pure fun v' hv' => absurd hv' (by simp)))
    split
    · rw [nextName]
      split
      · exact meets_fault trivial
      split
      · exact meets_pure fun v' hv' hv => by rw [← Sum.inl.inj hv']; exact hv
      · exact meets_bind (meets_modify (meets_pure fun v' hv' => absurd hv' (by simp)))
    split
    · refine (leads_any (makePath env (dirsOf cur.result)) h₁).andThen fun ok h₂ _ => ?_
      cases ok with
      | true => exact meets_pure fun v' hv' _ => by rw [← Sum.inl.inj hv']
      | false => exact meets_pure fun v' hv' => absurd hv' (by simp)
    · exact meets_bind (meets_modify (meets_pure fun v' hv' => absurd hv' (by simp)))

theorem leads_openTurn_mkdir (v : OpenVars) :
    Leads (openTurn env c template v) h (KeepsNoMkdir v) := by
  obtain ⟨path, counter, mkdir, cursor⟩ := v
  cases cursor with
  | some cur => exact leads_attempt_mkdir _ cur
  | none =>
    refine (leads_any (expandPath env c template _) h).andThen fun r h₁ _ => ?_
    cases r with
    | some cur => exact leads_attempt_mkdir _ cur
    | none => exact meets_pure fun v' hv' => absurd hv' (by simp)

/-- Behind a turn without `mkdir` there is none with it. -/
theorem mkdir_of_turns {x y : TurnState} (hx : x.1.mkdir = false)
    (hturns : Relation.ReflTransGen (NextTurn env c template) x y) : y.1.mkdir = false := by
  induction hturns with
  | refl => exact hx
  | tail _ hnext ih =>
    exact (leads_openTurn_mkdir _).of_done (fun _ _ => trivial) hnext _ rfl ih

theorem makePathOnce (env : Env) (c : ConfOutput) (template : Str) :
    MakePathOnce env c template where
  turn := openTurn_eq_with
  calls x := (openTurnWith_cases env c template x.1 x.2.1 x.2.2).imp_left And.right
  once x y hcall hturns hcall' := by
    obtain ⟨z, hnext, hrest⟩ := Relation.TransGen.head'_iff.mp hturns
    have hno := mkdir_of_turns (hcall.next hnext) hrest
    exact absurd (hno.symm.trans hcall'.mkdir) Bool.false_ne_true

end Once

/-- **What `make_path` makes.**  Whatever there is on the disk and whatever `mkdir` fails
with, the string is as it was on every return; what was there is still there, and
what was missing of the directories above the path is made, from the root on: all of them
if 0 is returned, and those in front of the one `mkdir` fails for if -1 is.  With the
system's `mkdir` it is the program `open_output` calls, and that calls it at most once. -/
theorem makePath_makes (strerror : Errno → Str) {s : Str} (h0 : 0 ∉ s) (rest : List Byte) :
    (∀ x, x ∈ dirsOf s ↔ x ≠ [] ∧ ∃ back, s = x ++ ch '/' :: back) ∧
    ((dirsOf s).Pairwise fun x y => x <+: y ∧ x.length < y.length) ∧
    (∀ d, Ends (fun _ => True) (dirsOf s).length
      (makePathIn Disk.mkdir Disk.crit strerror (s ++ 0 :: rest)) d fun r d' =>
        r.2 = s ++ 0 :: rest ∧ ∃ ok, r.1 = retOf ok ∧ DirsRes strerror d (dirsOf s) ok d') ∧
    ∀ env : Env, makePathIn mkdir (logmsg .crit) env.strerror (s ++ 0 :: rest) =
        (fun ok => (retOf ok, s ++ 0 :: rest)) <$> makePath env (dirsOf s) ∧
      ∀ c template, MakePathOnce env c template := by
  refine ⟨fun x => mem_dirsOf, dirsOf_pairwise s, fun d => ?_, fun env => ⟨?_, makePathOnce env⟩⟩
  · have hstart : d.Walked [] d := ⟨[], by simp, .slnil, made_nil d.tree⟩
    rw [makePathIn_eq h0, map_eq_pure_bind]
    refine ends_bind (n := 0) ((ends_makeDirs (dirsOf s) hstart rfl).mono (Nat.le_refl _) ?_)
    exact fun ok d' hd => ends_pure ⟨rfl, ok, rfl, hd⟩
  · rw [makePathIn_eq h0, makePath_eq_makeDirs]

/-- A doubled slash, a trailing one and a file in the way. -/
theorem makePath_makes_doubled :
    let s := lit "/a//b/"
    0 ∉ s ∧ (∀ d, Ends (fun _ => True) (dirsOf s).length
      (makePathIn Disk.mkdir Disk.crit (fun _ => []) (s ++ 0 :: [])) d fun r d' =>
        r.2 = s ++ 0 :: [] ∧ ∃ ok, r.1 = retOf ok ∧ DirsRes (fun _ => []) d (dirsOf s) ok d') :=
  ⟨by decide, (makePath_makes (fun _ => []) (by decide) []).2.2.1⟩

end Crashinfo
