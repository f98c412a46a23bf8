import Crashinfo.Output.Open

/-!
# What `open_output` owes

`Owes h₀ l h` is the account of the descriptors from the state `h₀` to the state
`h`: besides those there were, exactly those of the list `l` are open, every
other one that was opened meanwhile was closed once, and nothing was closed that
was not open.  Every call keeps it with a list of its own, so the lists can be
followed through the code.  Up to the label `opened` that is one descriptor, the
sink of the stream, besides the one `open_devnull` keeps (`leads_openSink`).
-/

namespace Crashinfo

open Script Script.Run

structure Owes (h₀ : Host) (l : List (Nat × Desc)) (h : Host) : Prop where
  fds : h₀.fds.Adds l h.fds
  /-- what was opened meanwhile was closed, or is owed -/
  books : ∃ op cl, h.opened = h₀.opened ++ op ∧ h.closed = h₀.closed ++ cl ∧ op.Perm (cl ++ l)
  bad : h.badClose = h₀.badClose

structure SameFds (h h' : Host) : Prop where
  fds : h'.fds = h.fds
  opened : h'.opened = h.opened
  closed : h'.closed = h.closed
  bad : h'.badClose = h.badClose

/-- Nothing happened to the processes, and there is no new pipe. -/
structure SameProcs (h h' : Host) : Prop where
  kids : h'.kids = h.kids
  pipes : h'.pipes = h.pipes
  killed : h'.killed = h.killed
  waited : h'.waited = h.waited

theorem SameFds.refl (h : Host) : SameFds h h := ⟨rfl, rfl, rfl, rfl⟩

theorem SameProcs.refl (h : Host) : SameProcs h h := ⟨rfl, rfl, rfl, rfl⟩

theorem SameProcs.trans {h h₁ h₂ : Host} (h01 : SameProcs h h₁) (h12 : SameProcs h₁ h₂) :
    SameProcs h h₂ :=
  ⟨h12.kids.trans h01.kids, h12.pipes.trans h01.pipes, h12.killed.trans h01.killed,
    h12.waited.trans h01.waited⟩

section Owes

variable {h₀ h h' : Host} {l : List (Nat × Desc)}

theorem Owes.refl (h : Host) : Owes h [] h :=
  ⟨Table.Adds.refl _, ⟨[], [], (List.append_nil _).symm, (List.append_nil _).symm, List.Perm.nil⟩,
    rfl⟩

theorem Owes.same (ho : Owes h₀ l h) (hs : SameFds h h') : Owes h₀ l h' := by
  obtain ⟨hfds, hop, hcl, hbad⟩ := hs
  exact ⟨hfds ▸ ho.fds, by rw [hop, hcl]; exact ho.books, hbad.trans ho.bad⟩

theorem Owes.perm {l' : List (Nat × Desc)} (ho : Owes h₀ l h) (hl : l.Perm l') : Owes h₀ l' h := by
  obtain ⟨op, cl, hop, hcl, hperm⟩ := ho.books
  exact ⟨ho.fds.perm hl, ⟨op, cl, hop, hcl, hperm.trans (hl.append_left cl)⟩, ho.bad⟩

theorem Owes.alloc (ho : Owes h₀ l h) (d : Desc) : Owes h₀ ((h.fds.free, d) :: l) (h.alloc d) := by
  obtain ⟨op, cl, hop, hcl, hperm⟩ := ho.books
  refine ⟨ho.fds.put (Table.get_free h.fds) d, ⟨op ++ [(h.fds.free, d)], cl, ?_, hcl, ?_⟩, ho.bad⟩
  · show h.opened ++ _ = _
    rw [hop, List.append_assoc]
  · exact (hperm.append_right _).trans
      ((List.perm_append_singleton _ _).trans List.perm_middle.symm)

theorem Owes.pipe (ho : Owes h₀ l h) : Owes h₀
    (((h.fds.put h.fds.free ⟨.pipeR h.pipes, true⟩).free, ⟨.pipeW h.pipes, true⟩) ::
      (h.fds.free, ⟨.pipeR h.pipes, true⟩) :: l) h.pipe := by
  have hsame : Owes h₀ l { h with pipes := h.pipes + 1 } := ho.same ⟨rfl, rfl, rfl, rfl⟩
  exact (hsame.alloc _).alloc _

theorem Owes.get {e : Nat × Desc} (ho : Owes h₀ (e :: l) h) : h.fds.get e.1 = some e.2 :=
  ho.fds.get_of_mem List.mem_cons_self

theorem Owes.close {e : Nat × Desc} (ho : Owes h₀ (e :: l) h) : Owes h₀ l (h.close e.1) := by
  obtain ⟨op, cl, hop, hcl, hperm⟩ := ho.books
  rw [Host.close_of_get ho.get]
  refine ⟨Table.Adds.remove (l := []) ho.fds, ⟨op, cl ++ [e], hop, ?_, ?_⟩, ho.bad⟩
  · show h.closed ++ [e] = _
    rw [hcl, List.append_assoc]
  · rw [List.append_assoc, List.singleton_append]
    exact hperm

end Owes

/-- Closing a descriptor does nothing else. -/
theorem close_sameProcs (h : Host) (fd : Int) : SameProcs h (h.close fd) := by
  rw [Host.close]
  split
  · exact ⟨rfl, rfl, rfl, rfl⟩
  · exact ⟨rfl, rfl, rfl, rfl⟩

theorem close_null (h : Host) (fd : Int) : (h.close fd).null = h.null := by
  rw [Host.close]
  split
  · rfl
  · rfl

/-! ### Up to `opened` -/

structure Idle (h h' : Host) : Prop extends SameFds h h', SameProcs h h' where
  null : h'.null = h.null
  outputs : h'.outputs = h.outputs

theorem Idle.refl (h : Host) : Idle h h := ⟨SameFds.refl h, SameProcs.refl h, rfl, rfl⟩

section Sink

variable {env : Env} {c : ConfOutput} {template : Str} {h₀ h : Host}

theorem Idle.log (hi : Idle h₀ h) (l : List (Prio × Str)) : Idle h₀ { h with log := l } :=
  ⟨⟨hi.fds, hi.opened, hi.closed, hi.bad⟩, ⟨hi.kids, hi.pipes, hi.killed, hi.waited⟩, hi.null,
    hi.outputs⟩

theorem Idle.files (hi : Idle h₀ h) (fs : List Str) : Idle h₀ { h with files := fs } :=
  ⟨⟨hi.fds, hi.opened, hi.closed, hi.bad⟩, ⟨hi.kids, hi.pipes, hi.killed, hi.waited⟩, hi.null,
    hi.outputs⟩

theorem Idle.fail (hi : Idle h₀ h) (call : Call) : Idle h₀ (h.fail call) :=
  ⟨⟨hi.fds, hi.opened, hi.closed, hi.bad⟩, ⟨hi.kids, hi.pipes, hi.killed, hi.waited⟩, hi.null,
    hi.outputs⟩

theorem Idle.node (hi : Idle h₀ h) (n : Nat) (ns : List (Option Nat)) :
    Idle h₀ { h with nodes := n, freed := ns } :=
  ⟨⟨hi.fds, hi.opened, hi.closed, hi.bad⟩, ⟨hi.kids, hi.pipes, hi.killed, hi.waited⟩, hi.null,
    hi.outputs⟩

theorem leads_logNotes (ns : List Str) :
    Leads (logNotes ns) h (fun _ h' => ∃ l, h' = { h with log := l }) := by
  induction ns generalizing h with
  | nil => exact meets_pure ⟨h.log, rfl⟩
  | cons n ns ih =>
    rw [logNotes]
    refine meets_bind (meets_modify (ih.imp ?_))
    intro _ h' hl
    obtain ⟨l, rfl⟩ := hl
    exact ⟨l, rfl⟩

theorem leads_expandPath (v : OpenVars) :
    Leads (expandPath env c template v) h (fun _ h' => ∃ l, h' = { h with log := l }) := by
  rw [expandPath]
  split
  · exact meets_fault trivial
  split
  · exact meets_fault trivial
  · refine (leads_logNotes _).andThen fun _ h₁ hl => ?_
    obtain ⟨l, rfl⟩ := hl
    exact meets_bind (meets_modify (meets_pure ⟨_, rfl⟩))
  · refine (leads_logNotes _).andThen fun _ h₁ hl => ?_
    split
    · exact meets_fault trivial
    · exact meets_pure hl

theorem leads_makePath (hi : Idle h₀ h) (ds : List Str) :
    Leads (makePath env ds) h (fun _ h' => Idle h₀ h') := by
  induction ds generalizing h with
  | nil => exact meets_pure hi
  | cons d ds ih =>
    rw [makePath]
    refine meets_bind (meets_creating (fun e => ?_) fun fs => meets_pure (ih (hi.files fs)))
    dsimp only
    split
    · exact ih (hi.fail _)
    · exact meets_bind (meets_modify (meets_pure ((hi.fail _).log _)))

/-- What the loop comes to: the descriptor of an output or of `/dev/null`, or
none. -/
def SinkRes (h₀ : Host) : Option (Nat × Str) → Host → Prop
  | none, h => Idle h₀ h
  | some (fd, name), h => SameProcs h₀ h ∧ h.null = h₀.null ∧
      (Owes h₀ [(fd, ⟨.file name, true⟩)] h ∧ h.outputs.length = h₀.outputs.length + 1 ∨
        Owes h₀ [(fd, ⟨.null, true⟩)] h ∧ h.outputs = h₀.outputs)

theorem Idle.owes (hi : Idle h₀ h) : Owes h₀ [] h := (Owes.refl h₀).same hi.toSameFds

theorem leads_openFailed (hi : Idle h₀ h) (v : OpenVars) (cur : Cursor) (e : Errno) :
    Leads (openFailed env c v cur e) h
      (fun r h' => Sum.elim (fun _ => Idle h₀ h') (SinkRes h₀ · h') r) := by
  rw [openFailed]
  split
  · refine meets_bind (meets_keepNotice trivial
      (meets_bind (leads_syscall (fun e => ?_) (meets_alloc ?_))))
    · exact meets_bind (meets_modify (meets_pure ((hi.fail _).log _)))
    · exact meets_pure ⟨⟨hi.kids, hi.pipes, hi.killed, hi.waited⟩, hi.null,
        Or.inr ⟨hi.owes.alloc _, hi.outputs⟩⟩
  split
  · rw [nextName]
    split
    · exact meets_fault trivial
    split
    · exact meets_pure hi
    · exact meets_bind (meets_modify (meets_pure (hi.log _)))
  split
  · refine (leads_makePath hi _).andThen fun b h₁ hi₁ => ?_
    cases b with
    | false => exact meets_pure hi₁
    | true => exact meets_pure hi₁
  · exact meets_bind (meets_modify (meets_pure (hi.log _)))

theorem leads_attempt (hi : Idle h₀ h) (v : OpenVars) (cur : Cursor) :
    Leads (attempt env c v cur) h
      (fun r h' => Sum.elim (fun _ => Idle h₀ h') (SinkRes h₀ · h') r) := by
  refine meets_bind (meets_bind (meets_get (meets_creating (fun e => ?_) fun fs => ?_)))
  · exact leads_openFailed (hi.fail _) v cur e
  · refine meets_bind (meets_modify (meets_alloc (meets_pure ?_)))
    refine ⟨⟨hi.kids, hi.pipes, hi.killed, hi.waited⟩, hi.null, Or.inl ⟨?_, ?_⟩⟩
    · have ho : ∀ os, Owes h₀ [] { h with files := fs, outputs := os } :=
        fun os => hi.owes.same ⟨rfl, rfl, rfl, rfl⟩
      exact (ho _).alloc _
    · show (h.outputs ++ [_]).length = _
      rw [List.length_append, hi.outputs]
      rfl

theorem leads_openLoop (v : OpenVars) :
    Leads (forever (openTurn env c template) v) h₀ (SinkRes h₀) := by
  refine meets_forever (fun _ h => Idle h₀ h) (fun _ _ _ => trivial) ?_ (Idle.refl h₀)
  intro v h hi
  rw [openTurn]
  split
  · exact leads_attempt hi v _
  · refine (leads_expandPath v).andThen fun o h₁ hl => ?_
    obtain ⟨l, rfl⟩ := hl
    cases o with
    | none => exact meets_pure (hi.log l)
    | some cur => exact leads_attempt (hi.log l) v cur

/-! ### `/dev/null` -/

/-- The descriptor that `open_devnull` keeps is one of `/dev/null`. -/
def NullOk (h : Host) : Prop := h.null < 0 ∨ ∃ n : Nat, h.null = n ∧ h.fds.get n = some ⟨.null, false⟩

inductive Cached (h h' : Host) : List (Nat × Desc) → Prop
  | same (hn : h'.null = h.null) : Cached h h' []
  | new (n : Nat) (hneg : h.null < 0) (hn : h'.null = n) : Cached h h' [(n, ⟨.null, false⟩)]

theorem Cached.congr {h' h'' : Host} {cache : List (Nat × Desc)} (hc : Cached h h' cache)
    (hn : h''.null = h'.null) : Cached h h'' cache := by
  cases hc with
  | same hs => exact .same (hn.trans hs)
  | new n hneg hs => exact .new n hneg (hn.trans hs)

theorem NullOk.owes {cache l : List (Nat × Desc)} (hn : NullOk h₀) (hc : Cached h₀ h cache)
    (ho : Owes h₀ l h) (hl : ∀ e ∈ cache, e ∈ l) : NullOk h := by
  cases hc with
  | new n hneg hs => exact Or.inr ⟨n, hs, ho.fds.get_of_mem (hl _ List.mem_cons_self)⟩
  | same hs =>
    rcases hn with hneg | ⟨n, hpos, hget⟩
    · exact Or.inl (hs ▸ hneg)
    · exact Or.inr ⟨n, hs.trans hpos, (ho.fds.get_iff n _).mpr (Or.inr hget)⟩

def CacheRes (P : Answer → Prop) (h₀ : Host) (l : List (Nat × Desc)) (h h' : Host) : Prop :=
  SameProcs h h' ∧ ((h'.null < 0 ∧ ∃ e, P (.err e)) ∨ ∃ (n : Nat) (cache : List (Nat × Desc)),
    h'.null = n ∧ h'.fds.get n = some ⟨.null, false⟩ ∧ Cached h h' cache ∧
    Owes h₀ (cache ++ l) h')

theorem ends_cacheNull {P : Answer → Prop} {l : List (Nat × Desc)} (hn : NullOk h)
    (ho : Owes h₀ l h) : Ends P 1 cacheNull h (fun _ h' => CacheRes P h₀ l h h') := by
  refine ends_step (ends_get ?_)
  by_cases hneg : h.null < 0
  · rw [if_pos hneg]
    refine ends_bind (k := 1 + 0) (n := 0) (ends_syscall (fun e he => ?_) (ends_alloc ?_))
    · exact ends_pure ⟨⟨rfl, rfl, rfl, rfl⟩, Or.inl ⟨hneg, e, he⟩⟩
    · have halloc := ho.alloc ⟨.null, false⟩
      refine ends_modify ⟨⟨rfl, rfl, rfl, rfl⟩, Or.inr ⟨h.fds.free, _, rfl, halloc.get,
        .new _ hneg rfl, ?_⟩⟩
      exact halloc.same ⟨rfl, rfl, rfl, rfl⟩
  · rw [if_neg hneg]
    obtain ⟨n, hpos, hget⟩ := hn.resolve_left hneg
    exact ends_pure ⟨SameProcs.refl h, Or.inr ⟨n, [], hpos, hget, .same rfl, ho⟩⟩

def DevnullRes (P : Answer → Prop) (h₀ : Host) (l : List (Nat × Desc)) (h : Host) (fd : Int)
    (h' : Host) : Prop :=
  SameProcs h h' ∧ ((fd < 0 ∧ ∃ e, P (.err e)) ∨ ∃ (n : Nat) (cache : List (Nat × Desc)),
    fd = n ∧ Cached h h' cache ∧ Owes h₀ ((n, ⟨.null, false⟩) :: cache ++ l) h')

theorem ends_openDevnull_owes {P : Answer → Prop} {l : List (Nat × Desc)} (hn : NullOk h)
    (ho : Owes h₀ l h) : Ends P 2 openDevnull h (DevnullRes P h₀ l h) := by
  refine ends_bind (k := 1) (n := 1) ((ends_cacheNull hn ho).mono (Nat.le_refl 1) ?_)
  intro _ h₁ hres
  obtain ⟨hs, ⟨hneg, he⟩ | ⟨n, cache, hpos, hget, hc, ho₁⟩⟩ := hres
  · refine ends_step (ends_get (ends_bind (n := 0) (ends_step (ends_get ?_))))
    rw [Host.at, if_neg (by omega)]
    exact ends_pure (ends_pure ⟨hs, Or.inl ⟨by decide, he⟩⟩)
  · refine ends_step (ends_get (ends_bind (n := 0) (ends_step (ends_get ?_))))
    rw [hpos, Host.at_natCast, hget]
    refine ends_syscall (n := 0) (fun e he => ?_) (ends_alloc ?_)
    · exact ends_pure ⟨⟨hs.kids, hs.pipes, hs.killed, hs.waited⟩, Or.inl ⟨by simp [fdOf], e, he⟩⟩
    · refine ends_pure ⟨⟨hs.kids, hs.pipes, hs.killed, hs.waited⟩, Or.inr ?_⟩
      exact ⟨h₁.fds.free, cache, rfl, hc.congr rfl, ho₁.alloc _⟩

/-- **The sink**: at `opened` the program holds one more descriptor, and
`open_devnull` may have one. -/
def Sunk (h : Host) : Option (Int × RunOutput) → Host → Prop
  | none, _ => True
  | some (fd, _), h' => SameProcs h h' ∧ ∃ (n : Nat) (d : Desc) (cache : List (Nat × Desc)),
      fd = n ∧ Cached h h' cache ∧ Owes h ((n, d) :: cache) h'

theorem leads_openSink (hn : NullOk h) (r : RunOutput) : Leads (openSink env c r) h (Sunk h) := by
  rw [openSink]
  split
  · refine ((ends_openDevnull_owes hn (Owes.refl h)).meets fun _ _ => trivial).andThen ?_
    intro fd h₁ hres
    obtain ⟨hs, ⟨hneg, -⟩ | ⟨n, cache, rfl, hc, ho⟩⟩ := hres
    · rw [if_pos hneg]
      exact meets_bind (meets_modify (meets_pure trivial))
    · rw [if_neg (by omega)]
      rw [List.append_nil] at ho
      exact meets_pure ⟨hs, n, _, cache, rfl, hc, ho⟩
  split
  · refine (leads_openLoop _).andThen fun f h₁ hres => ?_
    cases f with
    | none => exact meets_pure trivial
    | some f =>
      obtain ⟨hs, hnull, ho⟩ := hres
      obtain ⟨d, ho⟩ : ∃ d, Owes h [(f.1, d)] h₁ := by
        rcases ho with ⟨ho, -⟩ | ⟨ho, -⟩
        · exact ⟨_, ho⟩
        · exact ⟨_, ho⟩
      refine meets_bind (meets_bind (leads_syscall (fun e => ?_) (meets_pure ?_)))
      · refine meets_pure (meets_pure ⟨⟨hs.kids, hs.pipes, hs.killed, hs.waited⟩, f.1, d, [], rfl,
          .same hnull, ho.same ⟨rfl, rfl, rfl, rfl⟩⟩)
      · exact meets_pure (meets_pure ⟨hs, f.1, d, [], rfl, .same hnull, ho⟩)
  · exact meets_bind (meets_modify (meets_pure trivial))

end Sink

end Crashinfo
