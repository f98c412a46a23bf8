import Crashinfo.Output.Filter

/-!
# Who reads the pipes

`Wired` says who may write to the pipe of a filter, and so when a filter comes to
the end of its input.  Here it is who may read from it, and so when one is killed
by `SIGPIPE`: nobody but the filter itself (`Plumbed`).  The program closes its
own end, and `exec` closes it in every other filter (`Private`).
-/

namespace Crashinfo

open Script Script.Run

/-- Nobody has come by what can be read from a pipe but by the descriptor 0 or
1 that `spawn_proc` has given to it. -/
structure Private (base : Nat) (h : Host) : Prop where
  cloexec : ∀ fd d q, base ≤ q → h.fds.get fd = some d → d.obj = .pipeR q → d.cloexec = true
  kids : ∀ j fd q, base ≤ q → 2 ≤ fd → h.obj (some j) fd ≠ some (.pipeR q)

section Private

variable {base : Nat} {h h' : Host}

theorem dup2_get_ne (t : Table Desc) (old : Int) {new k : Nat} (hk : k ≠ new) :
    (dup2 t old new).get k = t.get k := by
  rw [dup2]
  split
  · rfl
  split
  · exact Table.get_put_ne t _ hk
  · rfl

/-- What `spawn_proc` does not redirect is inherited, if `exec` does not close it. -/
theorem childFds_get_two_le (t : Table Desc) (infd outfd : Int) {k : Nat} (hk : 2 ≤ k) :
    (childFds t infd outfd).get k = (t.get k).filter fun d => !d.cloexec := by
  rw [childFds, Table.get_keep, dup2_get_ne _ _ (by omega), dup2_get_ne _ _ (by omega)]

theorem Private.congr (hp : Private base h) (hfds : h'.fds = h.fds) (hkids : h'.kids = h.kids) :
    Private base h' where
  cloexec := hfds ▸ hp.cloexec
  kids := fun j fd q hb hfd ho => hp.kids j fd q hb hfd (by rwa [obj_kid_congr hkids] at ho)

theorem Private.alloc (hp : Private base h) {d : Desc} (hd : ∀ q, d.obj = .pipeR q → d.cloexec = true) :
    Private base (h.alloc d) where
  cloexec := by
    intro fd d' q hb hget hq
    rw [Host.alloc, Table.get_put] at hget
    split at hget
    · cases hget
      exact hd q hq
    · exact hp.cloexec fd d' q hb hget hq
  kids := hp.kids

theorem Private.pipe (hp : Private base h) : Private base h.pipe :=
  have h₁ : Private base { h with pipes := h.pipes + 1 } := hp.congr rfl rfl
  (h₁.alloc (d := ⟨.pipeR h.pipes, true⟩) fun _ _ => rfl).alloc fun _ _ => rfl

theorem Private.close (hp : Private base h) (fd : Int) : Private base (h.close fd) where
  cloexec := by
    intro k d q hb hget hq
    rw [Host.close] at hget
    split at hget
    · dsimp only at hget
      rw [Table.get_remove] at hget
      split at hget
      · cases hget
      · exact hp.cloexec k d q hb hget hq
    · exact hp.cloexec k d q hb hget hq
  kids := fun j k q hb hk ho =>
    hp.kids j k q hb hk (by rwa [obj_kid_congr (close_sameProcs h fd).kids] at ho)

theorem Private.spawn (hp : Private base h) (cmd : Str) (infd outfd : Int)
    (arg1 arg2 : Option Str) : Private base (h.spawn cmd infd outfd arg1 arg2) where
  cloexec := hp.cloexec
  kids := by
    intro j fd q hb hfd ho
    rcases Nat.lt_trichotomy j h.kids.length with hlt | rfl | hgt
    · rw [obj_spawn_of_lt hlt] at ho
      exact hp.kids j fd q hb hfd ho
    · rw [obj_spawn_self, childFds_get_two_le _ _ _ hfd] at ho
      obtain ⟨d, hd, hdq⟩ := Option.map_eq_some_iff.mp ho
      obtain ⟨hd, hopen⟩ := Option.filter_eq_some_iff.mp hd
      rw [hp.cloexec fd d q hb hd hdq] at hopen
      cases hopen
    · have hnone : (h.spawn cmd infd outfd arg1 arg2).kids[j]? = none := by
        rw [Host.spawn]
        exact List.getElem?_eq_none (by rw [List.length_append, List.length_singleton]; omega)
      rw [Host.obj, Host.desc, hnone] at ho
      cases ho

/-! ### `open_output` -/

section Setup

variable {env : Env} {K : Stop Fault → Host → Prop}

end Setup

section Open

variable {env : Env} {c : ConfOutput} {template : Str} {h₀ : Host}

theorem Private.owes (hp : Private base h₀) {l : List (Nat × Desc)} (ho : Owes h₀ l h)
    (hs : SameProcs h₀ h) (hl : ∀ e ∈ l, e.2.cloexec = true) : Private base h where
  cloexec := fun fd d q hb hget hq => by
    rcases (ho.fds.get_iff fd d).mp hget with hmem | hold
    · exact hl (fd, d) hmem
    · exact hp.cloexec fd d q hb hold hq
  kids := fun j fd q hb hfd hobj =>
    hp.kids j fd q hb hfd (by rwa [obj_kid_congr hs.kids] at hobj)

end Open

end Private

/-! ### Both streams -/

section Both

variable {h₀ h : Host} {info core : ConfOutput} {name name' : Str} {r r' : RunOutput}

theorem Piped.kids_length {base : Nat} {cmds : List Str} {out : Nat}
    (hp : Piped base h₀ cmds name out h) : h.kids.length = h₀.kids.length + cmds.length := by
  obtain ⟨ks, hks, hlen⟩ := hp.fitted.kids
  rw [hks, List.length_append, hlen]

section

variable {env env' : Env} {conf : Conf} {template template' : Str}

end

end Both

end Crashinfo
