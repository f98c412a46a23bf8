import Crashinfo.Output.Network

/-!
# What the filters deliver

Each of the two streams is a row of programs (`Net.flow`): a step of the program or
of a filter is a step of the row it belongs to, and nothing for the other one
(`Both.step`).  So whatever the order of the steps, the output file holds what the
filters make of what was written to the stream, one after the other; and as a row
that is closed empties itself, `close_output` does not wait for ever.
-/

namespace Crashinfo

open Script Script.Run Flow

/-- The process with the number `j` is a filter of the line. -/
def Line.Has (l : Line) (j : Nat) : Prop := ∃ i < l.cmds.length, j = l.kid + i

/-- What the filter with the number `i` reads from, or the file behind the last one. -/
def Line.obj (l : Line) (i : Nat) : Obj :=
  if i < l.cmds.length then .pipeW (l.pipe + i) else .file l.name

def Line.worker (prog : Str → Worker Byte) (l : Line) (i : Nat) : Worker Byte :=
  prog (l.cmds.getD i [])

def Net.flow (s : Net) (l : Line) : State Byte where
  source := sends l.fd s.acts
  isOpen := decide (.close l.fd ∈ s.acts)
  stage i := if i < l.cmds.length then s.stage (l.kid + i) else {}
  buf i := if i < l.cmds.length then s.pipe (l.pipe + i)
    else if i = l.cmds.length then s.file l.name else []

theorem Line.output_eq (l : Line) : l.output = l.obj 0 := by
  rw [Line.output, Line.obj]
  cases l.cmds with
  | nil => rfl
  | cons cmd cmds => simp

section Flow

variable {l : Line} {s : Net} {i : Nat}

theorem flow_stage (hi : i < l.cmds.length) : (s.flow l).stage i = s.stage (l.kid + i) :=
  if_pos hi

theorem flow_buf (hi : i < l.cmds.length) : (s.flow l).buf i = s.pipe (l.pipe + i) :=
  if_pos hi

theorem flow_setStage (hi : i < l.cmds.length) (t : Stage Byte) :
    (s.setStage (l.kid + i) t).flow l = (s.flow l).setStage i t := by
  have hstage : ((s.setStage (l.kid + i) t).flow l).stage = ((s.flow l).setStage i t).stage := by
    funext k
    by_cases hk : k = i
    · rw [hk, Flow.setStage_stage_self, flow_stage hi]
      simp [Net.setStage]
    · rw [Flow.setStage_stage_ne hk]
      simp [Net.flow, Net.setStage, Function.update_apply, hk]
  rw [State.mk.injEq]
  exact ⟨rfl, rfl, hstage, rfl⟩

/-- A step of a process that is no filter of the line. -/
theorem flow_setStage_other {j : Nat} (hj : ¬l.Has j) (t : Stage Byte) :
    (s.setStage j t).flow l = s.flow l := by
  have hstage : ((s.setStage j t).flow l).stage = (s.flow l).stage := by
    funext k
    by_cases hk : k < l.cmds.length
    · have hne : l.kid + k ≠ j := fun heq => hj ⟨k, hk, heq.symm⟩
      simp [Net.flow, Net.setStage, Function.update_apply, hne]
    · simp [Net.flow, hk]
  rw [State.mk.injEq]
  exact ⟨rfl, rfl, hstage, rfl⟩

theorem flow_setPipe (hi : i < l.cmds.length) (bs : List Byte) :
    (s.setPipe (l.pipe + i) bs).flow l = (s.flow l).setBuf i bs := by
  have hbuf : ((s.setPipe (l.pipe + i) bs).flow l).buf = ((s.flow l).setBuf i bs).buf := by
    funext k
    by_cases hk : k = i
    · rw [hk, Flow.setBuf_buf_self, flow_buf hi]
      simp [Net.setPipe]
    · rw [Flow.setBuf_buf_ne hk]
      simp [Net.flow, Net.setPipe, Function.update_apply, hk]
  rw [State.mk.injEq]
  exact ⟨rfl, rfl, rfl, hbuf⟩

theorem flow_setPipe_other {q : Nat} (hq : ∀ i < l.cmds.length, q ≠ l.pipe + i) (bs : List Byte) :
    (s.setPipe q bs).flow l = s.flow l := by
  have hbuf : ((s.setPipe q bs).flow l).buf = (s.flow l).buf := by
    funext k
    by_cases hk : k < l.cmds.length
    · have hne : l.pipe + k ≠ q := fun heq => hq k hk heq.symm
      simp [Net.flow, Net.setPipe, Function.update_apply, hne]
    · simp [Net.flow, Net.setPipe, hk]
  rw [State.mk.injEq]
  exact ⟨rfl, rfl, rfl, hbuf⟩

theorem flow_setFile (bs : List Byte) :
    (s.setFile l.name bs).flow l = (s.flow l).setBuf l.cmds.length bs := by
  have hbuf : ((s.setFile l.name bs).flow l).buf =
      ((s.flow l).setBuf l.cmds.length bs).buf := by
    funext k
    by_cases hk : k = l.cmds.length
    · rw [hk, Flow.setBuf_buf_self]
      simp [Net.flow, Net.setFile]
    · rw [Flow.setBuf_buf_ne hk]
      simp [Net.flow, Net.setFile, hk]
  rw [State.mk.injEq]
  exact ⟨rfl, rfl, rfl, hbuf⟩

theorem flow_setFile_other {name : Str} (hname : name ≠ l.name) (bs : List Byte) :
    (s.setFile name bs).flow l = s.flow l := by
  have hfile : (Function.update s.file name bs) l.name = s.file l.name :=
    Function.update_of_ne hname.symm _ _
  have hbuf : ((s.setFile name bs).flow l).buf = (s.flow l).buf := by
    funext k
    simp [Net.flow, Net.setFile, hfile]
  rw [State.mk.injEq]
  exact ⟨rfl, rfl, rfl, hbuf⟩

theorem flow_write (hi : i ≤ l.cmds.length) (b : Byte) :
    (s.write (l.obj i) b).flow l = (s.flow l).setBuf i ((s.flow l).buf i ++ [b]) := by
  rw [Line.obj]
  split
  · rename_i hlt
    rw [Net.write, flow_setPipe hlt, flow_buf hlt]
  · have heq : i = l.cmds.length := by omega
    rw [Net.write, flow_setFile, heq]
    simp [Net.flow]

theorem flow_write_other {o : Obj} (ho : ∀ i ≤ l.cmds.length, o ≠ l.obj i) (b : Byte) :
    (s.write o b).flow l = s.flow l := by
  cases o with
  | pipeW q =>
    refine flow_setPipe_other (fun i hi heq => ho i (Nat.le_of_lt hi) ?_) _
    rw [Line.obj, if_pos hi, heq]
  | file name =>
    refine flow_setFile_other (fun heq => ho l.cmds.length (Nat.le_refl _) ?_) _
    rw [Line.obj, if_neg (Nat.lt_irrefl _), heq]
  | inherited k => rfl
  | syslog => rfl
  | conf => rfl
  | core => rfl
  | null => rfl
  | procDir => rfl
  | proc => rfl
  | pipeR q => rfl

@[simp] theorem flow_host (h : Host) : ({ s with host := h } : Net).flow l = s.flow l := rfl

end Flow

/-! ### What the descriptors come to -/

/-- The order of the acts as far as a line goes: nothing is written behind the
`close`, and only then the filters are waited for. -/
structure InOrder (l : Line) (a a' : Act) : Prop where
  closed : a = .close l.fd → a' ≠ .close l.fd ∧ ∀ b, a' ≠ .send l.fd b
  waits : ∀ f, a = .wait f → l.Has (f.pid - 1) → a' ≠ .close l.fd

structure NetInv (base : Nat) (l : Line) (s : Net) : Prop where
  laid : Laid l s.host
  isSealed : Sealed base s.host
  base : base ≤ l.pipe
  opened : .close l.fd ∈ s.acts → (s.host.fds.get l.fd).map Desc.obj = some l.output
  closed : .close l.fd ∉ s.acts → l.cmds ≠ [] →
    ∀ who fd, s.host.obj who fd ≠ some (.pipeW l.pipe)
  order : s.acts.Pairwise (InOrder l)
  sent : .close l.fd ∉ s.acts → ∀ b, .send l.fd b ∉ s.acts

section Holds

variable {base cap : Nat} {l : Line} {s : Net} {i : Nat}

theorem holds_reader (hinv : NetInv base l s) (hi : i < l.cmds.length) :
    s.Holds (.pipeR (l.pipe + i)) ↔ ((s.flow l).stage i).phase.alive = true := by
  rw [flow_stage hi]
  refine ⟨fun hheld => ?_, fun halive => ?_⟩
  · obtain ⟨who, fd, hobj, halive⟩ := hheld
    have hwho := hinv.laid.reader i hi who fd hobj
    exact halive _ (Prod.mk.inj hwho).1
  · exact ⟨_, 0, hinv.laid.stdin i hi, fun j hj => Option.some.inj hj ▸ halive⟩

/-- Somebody can write to the pipe of a filter just as long as whoever is to do
so is left. -/
theorem holds_writer (hinv : NetInv base l s) (hi : i < l.cmds.length) :
    s.Holds (.pipeW (l.pipe + i)) ↔ (s.flow l).writer i = true := by
  cases i with
  | zero =>
    show _ ↔ decide _ = true
    rw [decide_eq_true_eq]
    refine ⟨fun hheld => ?_, fun hmem => ?_⟩
    · by_contra hno
      obtain ⟨who, fd, hobj, -⟩ := hheld
      exact hinv.closed hno (List.ne_nil_of_length_pos hi) who fd hobj
    · refine ⟨none, l.fd, ?_, nofun⟩
      rw [Host.obj, Host.desc, hinv.opened hmem, Line.output,
        if_neg (List.ne_nil_of_length_pos hi)]
      rfl
  | succ i =>
    rw [State.writer, flow_stage (Nat.lt_of_succ_lt hi)]
    refine ⟨fun hheld => ?_, fun halive => ?_⟩
    · obtain ⟨who, fd, hobj, halive⟩ := hheld
      have hwho := hinv.laid.writer (i + 1) hi who fd hobj
      rw [if_neg (Nat.succ_ne_zero i)] at hwho
      have := halive _ (Prod.mk.inj hwho).1
      rwa [Nat.add_sub_assoc (Nat.le_add_left 1 i), Nat.add_sub_cancel] at this
    · refine ⟨_, 1, ?_, fun j hj => Option.some.inj hj ▸ halive⟩
      rw [hinv.laid.stdout i (Nat.lt_of_succ_lt hi), stdoutObj, if_pos hi]
      rfl

theorem takes_iff (hinv : NetInv base l s) (hi : i ≤ l.cmds.length) : s.Takes cap (l.obj i) ↔
    (s.flow l).reader l.cmds.length i = true ∧ (s.flow l).room l.cmds.length cap i = true := by
  rw [Line.obj, State.reader, State.room]
  by_cases hlt : i < l.cmds.length
  · rw [if_pos hlt, Net.Takes, holds_reader hinv hlt, flow_buf hlt, decide_eq_false (by omega)]
    simp
  · rw [if_neg hlt, decide_eq_true (by omega)]
    simp [Net.Takes]

theorem refuses_iff (hinv : NetInv base l s) (hi : i ≤ l.cmds.length) :
    s.Refuses (l.obj i) ↔ (s.flow l).reader l.cmds.length i = false := by
  rw [Line.obj, State.reader]
  by_cases hlt : i < l.cmds.length
  · rw [if_pos hlt, Net.Refuses, holds_reader hinv hlt, decide_eq_false (by omega)]
    simp
  · rw [if_neg hlt, decide_eq_true (by omega)]
    simp [Net.Refuses]

theorem Laid.out (hl : Laid l s.host) (hi : i < l.cmds.length) :
    s.host.obj (some (l.kid + i)) 1 = some (l.obj (i + 1)) :=
  hl.stdout i hi

theorem Laid.worker (hl : Laid l s.host) (prog : Str → Worker Byte) (hi : i < l.cmds.length) {kid : Kid}
    (hkid : s.host.kids[l.kid + i]? = some kid) : l.worker prog i = prog kid.cmd := by
  have hcmd := hl.cmd i hi
  rw [hkid, Option.map_some, Option.some.injEq] at hcmd
  rw [Line.worker, List.getD_eq_getElem?_getD, List.getElem?_eq_getElem hi, hcmd]
  rfl

end Holds

/-! ### The steps of the filters -/

section Filters

variable {base cap : Nat} {prog : Str → Worker Byte} {l l' : Line} {s s' : Net} {i j : Nat}

theorem FilterStep.same {w : Worker Byte} (hstep : FilterStep w cap s j s') :
    s'.host = s.host ∧ s'.acts = s.acts := by
  have hwrite : ∀ (s : Net) (o : Obj) (b : Byte), (s.write o b).host = s.host ∧
      (s.write o b).acts = s.acts := by
    intro s o b
    cases o <;> exact ⟨rfl, rfl⟩
  cases hstep with
  | take hin hpipe hwants => exact ⟨rfl, rfl⟩
  | finish hin hpipe hheld hwants => exact ⟨rfl, rfl⟩
  | put hout hwrites htakes => exact hwrite _ _ _
  | kill hout hwrites hrefuses => exact ⟨rfl, rfl⟩
  | leave hdone => exact ⟨rfl, rfl⟩

/-- **A filter of the line** makes a step of its row. -/
theorem FilterStep.own (hinv : NetInv base l s) (hi : i < l.cmds.length) {w : Worker Byte}
    (hw : l.worker prog i = w) (hstep : FilterStep w cap s (l.kid + i) s') :
    Works (l.worker prog) l.cmds.length cap (s.flow l) (s'.flow l) := by
  subst hw
  cases hstep with
  | @take p b bs hin hpipe hwants =>
    rw [hinv.laid.stdin i hi, Option.some.injEq, Obj.pipeR.injEq] at hin
    subst hin
    rw [flow_setPipe hi, flow_setStage hi, ← flow_stage hi]
    rw [← flow_stage hi] at hwants
    exact .take hi ((flow_buf hi).trans hpipe) hwants
  | @finish p hin hpipe hheld hwants =>
    rw [hinv.laid.stdin i hi, Option.some.injEq, Obj.pipeR.injEq] at hin
    subst hin
    rw [holds_writer hinv hi, Bool.not_eq_true] at hheld
    rw [flow_setStage hi, ← flow_stage hi]
    rw [← flow_stage hi] at hwants
    exact .finish hi ((flow_buf hi).trans hpipe) hheld hwants
  | @put o b hout hwrites htakes =>
    rw [hinv.laid.out hi, Option.some.injEq] at hout
    subst hout
    obtain ⟨hreader, hroom⟩ := (takes_iff hinv hi).mp htakes
    rw [flow_write hi, flow_setStage hi, ← flow_stage hi]
    rw [← flow_stage hi] at hwrites
    exact .put hi hwrites hreader hroom
  | @kill o b hout hwrites hrefuses =>
    rw [hinv.laid.out hi, Option.some.injEq] at hout
    subst hout
    rw [flow_setStage hi, ← flow_stage hi]
    rw [← flow_stage hi] at hwrites
    exact .kill hi hwrites ((refuses_iff hinv hi).mp hrefuses)
  | leave hdone =>
    rw [flow_setStage hi, ← flow_stage hi]
    rw [← flow_stage hi] at hdone
    exact .leave hi hdone

structure Separate (k : Nat) (l l' : Line) : Prop where
  name : l.name ≠ l'.name
  fd : l.fd ≠ l'.fd
  kid : ∀ j, l.Has j → ¬l'.Has j
  pipe : ∀ i < l.cmds.length, ∀ i' < l'.cmds.length, l.pipe + i ≠ l'.pipe + i'
  has_iff : ∀ j, l.Has j ∨ l'.Has j ↔ j < k

theorem Separate.symm {k : Nat} (hl : Separate k l l') : Separate k l' l where
  name := hl.name.symm
  fd := hl.fd.symm
  kid := fun j hj hj' => hl.kid j hj' hj
  pipe := fun i hi i' hi' heq => hl.pipe i' hi' i hi heq.symm
  has_iff := fun j => or_comm.trans (hl.has_iff j)

theorem Separate.obj_ne {k : Nat} (hl : Separate k l l') (i i' : Nat) : l.obj i ≠ l'.obj i' := by
  rw [Line.obj, Line.obj]
  intro heq
  split at heq
  · rename_i hi
    split at heq
    · rename_i hi'
      exact hl.pipe i hi i' hi' (Obj.pipeW.inj heq)
    · cases heq
  · split at heq
    · cases heq
    · exact hl.name (Obj.file.inj heq)

/-- **A filter of another line** leaves the row alone. -/
theorem FilterStep.other {k : Nat} (hl : Separate k l l') (hinv : NetInv base l' s)
    (hi : i < l'.cmds.length) {w : Worker Byte} (hstep : FilterStep w cap s (l'.kid + i) s') :
    s'.flow l = s.flow l := by
  have hj : ¬l.Has (l'.kid + i) := fun hj => hl.kid _ hj ⟨i, hi, rfl⟩
  cases hstep with
  | @take p b bs hin hpipe hwants =>
    rw [hinv.laid.stdin i hi, Option.some.injEq, Obj.pipeR.injEq] at hin
    subst hin
    rw [flow_setPipe_other (fun i' hi' heq => hl.pipe i' hi' i hi heq.symm), flow_setStage_other hj]
  | finish hin hpipe hheld hwants => exact flow_setStage_other hj _
  | @put o b hout hwrites htakes =>
    rw [hinv.laid.out hi, Option.some.injEq] at hout
    subst hout
    rw [flow_write_other (fun i' _ => (hl.obj_ne i' (i + 1)).symm), flow_setStage_other hj]
  | kill hout hwrites hrefuses => exact flow_setStage_other hj _
  | leave hdone => exact flow_setStage_other hj _

/-- **What the row can do**, a filter can. -/
theorem exists_filterStep (hinv : NetInv base l s) {t : State Byte}
    (hworks : Works (l.worker prog) l.cmds.length cap (s.flow l) t) :
    ∃ j kid s', l.Has j ∧ s.host.kids[j]? = some kid ∧ FilterStep (prog kid.cmd) cap s j s' := by
  have hfilter : ∀ i, i < l.cmds.length → (∃ s', FilterStep (l.worker prog i) cap s (l.kid + i) s') →
      ∃ j kid s', l.Has j ∧ s.host.kids[j]? = some kid ∧ FilterStep (prog kid.cmd) cap s j s' := by
    intro i hi hex
    obtain ⟨s', hstep⟩ := hex
    obtain ⟨kid, hkid, -⟩ := Option.map_eq_some_iff.mp (hinv.laid.cmd i hi)
    rw [hinv.laid.worker prog hi hkid] at hstep
    exact ⟨_, kid, s', ⟨i, hi, rfl⟩, hkid, hstep⟩
  cases hworks with
  | @take i x xs hi hbuf hwants =>
    rw [flow_stage hi] at hwants
    rw [flow_buf hi] at hbuf
    exact hfilter i hi ⟨_, .take (hinv.laid.stdin i hi) hbuf hwants⟩
  | @finish i hi hbuf hwriter hwants =>
    rw [flow_stage hi] at hwants
    rw [flow_buf hi] at hbuf
    refine hfilter i hi ⟨_, .finish (hinv.laid.stdin i hi) hbuf ?_ hwants⟩
    rw [holds_writer hinv hi, hwriter]
    decide
  | @put i x hi hwrites hreader hroom =>
    rw [flow_stage hi] at hwrites
    exact hfilter i hi ⟨_, .put (hinv.laid.out hi) hwrites ((takes_iff hinv hi).mpr ⟨hreader, hroom⟩)⟩
  | @kill i x hi hwrites hreader =>
    rw [flow_stage hi] at hwrites
    exact hfilter i hi ⟨_, .kill (hinv.laid.out hi) hwrites ((refuses_iff hinv hi).mpr hreader)⟩
  | @leave i hi hdone =>
    rw [flow_stage hi] at hdone
    exact hfilter i hi ⟨_, .leave hdone⟩

end Filters

/-! ### The steps of the program -/

section Program

variable {base cap k : Nat} {env : Env} {prog : Str → Worker Byte} {l l' : Line} {s s' : Net}
  {a : Act} {acts : List Act} {h : Host}

theorem NetInv.congr (hinv : NetInv base l s) (hhost : s'.host = s.host) (hacts : s'.acts = s.acts) :
    NetInv base l s' where
  laid := hhost ▸ hinv.laid
  isSealed := hhost ▸ hinv.isSealed
  base := hinv.base
  opened := by rw [hhost, hacts]; exact hinv.opened
  closed := by rw [hhost, hacts]; exact hinv.closed
  order := hacts ▸ hinv.order
  sent := by rw [hacts]; exact hinv.sent

/-- The next act closes the line, or it does not matter to what is open. -/
theorem mem_close_iff (hacts : s.acts = a :: acts) (hne : a ≠ .close l.fd) :
    .close l.fd ∈ s.acts ↔ .close l.fd ∈ acts := by
  rw [hacts, List.mem_cons]
  exact ⟨fun hmem => hmem.resolve_left (Ne.symm hne), Or.inr⟩

theorem NetInv.tail (hinv : NetInv base l s) (hacts : s.acts = a :: acts) (hne : a ≠ .close l.fd)
    (hhost : s'.host = s.host) (htail : s'.acts = acts) : NetInv base l s' where
  laid := hhost ▸ hinv.laid
  isSealed := hhost ▸ hinv.isSealed
  base := hinv.base
  opened := by
    rw [hhost, htail, ← mem_close_iff hacts hne]
    exact hinv.opened
  closed := by
    rw [hhost, htail, ← mem_close_iff hacts hne]
    exact hinv.closed
  order := by
    have := hinv.order
    rw [hacts] at this
    rw [htail]
    exact this.tail
  sent := by
    rw [htail, ← mem_close_iff hacts hne]
    intro hno b hmem
    refine hinv.sent hno b ?_
    rw [hacts]
    exact List.mem_cons_of_mem a hmem

theorem NetInv.act (hinv : NetInv base l s) (hacts : s.acts = a :: acts)
    (hacted : Acted base a s.host h) :
    NetInv base l { s.setActs acts with host := h } := by
  have hlaid := hinv.laid.unshared hinv.base hacted.unshared
  have horder := hinv.order
  rw [hacts] at horder
  obtain ⟨hhead, htail⟩ := List.pairwise_cons.mp horder
  by_cases hclose : a = .close l.fd
  · -- the program closes its end, and nobody else has one
    have hgone : .close l.fd ∉ acts := fun hmem => ((hhead _ hmem).closed hclose).1 rfl
    refine ⟨hlaid, hacted.isSealed, hinv.base, fun hmem => absurd hmem hgone, fun _ hne who fd ho => ?_,
      htail, fun _ b hmem => ((hhead _ hmem).closed hclose).2 b rfl⟩
    have hopen := hinv.opened (by rw [hacts, hclose]; exact List.mem_cons_self)
    obtain ⟨d, hd, -⟩ := Option.map_eq_some_iff.mp hopen
    rw [← Host.at_natCast] at hd
    have hobj : (s.host.close l.fd).obj who fd = some (.pipeW l.pipe) := by
      rw [← hacted.close _ hclose]
      exact ho
    obtain ⟨hold, hself⟩ := obj_of_close hd hobj
    rw [Int.toNat_natCast] at hself
    exact hself (hinv.laid.writer 0 (List.length_pos_iff.mpr hne) who fd hold)
  · refine ⟨hlaid, hacted.isSealed, hinv.base, fun hmem => ?_, fun hno hne who fd ho => ?_, htail,
      fun hno b hmem => ?_⟩
    · have hopen := hinv.opened ((mem_close_iff hacts hclose).mpr hmem)
      obtain ⟨d, hd, hobj⟩ := Option.map_eq_some_iff.mp hopen
      exact Option.map_eq_some_iff.mpr ⟨d, hacted.fds _ _ hclose hd, hobj⟩
    · refine hinv.closed (fun hmem => hno ((mem_close_iff hacts hclose).mp hmem)) hne who fd ?_
      exact hacted.unshared.pipes who fd _ _ hinv.base (Or.inr rfl) ho
    · refine hinv.sent (fun hmem => hno ((mem_close_iff hacts hclose).mp hmem)) b ?_
      rw [hacts]
      exact List.mem_cons_of_mem a hmem

theorem sends_cons_of_ne {fd : Int} (ha : ∀ b, a ≠ .send fd b) :
    sends fd (a :: acts) = sends fd acts := by
  cases a with
  | send fd' b => rw [sends, if_neg fun heq => ha b (by rw [heq])]
  | close fd => rfl
  | wait f => rfl
  | notify name cmd => rfl

theorem sends_of_notMem {fd : Int} (h : ∀ b, .send fd b ∉ acts) : sends fd acts = [] := by
  induction acts with
  | nil => rfl
  | cons a acts ih =>
    rw [sends_cons_of_ne fun b heq => h b (heq ▸ List.mem_cons_self)]
    exact ih fun b hb => h b (List.mem_cons_of_mem a hb)

theorem send_ne_close {fd fd' : Int} {b : Byte} : Act.send fd b ≠ .close fd' := nofun

theorem flow_setActs (hacts : s.acts = a :: acts) (hne : a ≠ .close l.fd)
    (hsend : ∀ b, a ≠ .send l.fd b) : (s.setActs acts).flow l = s.flow l := by
  have hsource : sends l.fd acts = sends l.fd s.acts := by
    rw [hacts, sends_cons_of_ne hsend]
  rw [State.mk.injEq]
  exact ⟨hsource, decide_eq_decide.mpr (mem_close_iff hacts hne).symm, rfl, rfl⟩

theorem flow_setActs_send {b : Byte} (hacts : s.acts = .send l.fd b :: acts) :
    (s.setActs acts).flow l = (s.flow l).setSource (sends l.fd acts) ∧
      (s.flow l).source = b :: sends l.fd acts := by
  refine ⟨?_, ?_⟩
  · rw [State.mk.injEq]
    exact ⟨rfl, decide_eq_decide.mpr (mem_close_iff hacts send_ne_close).symm, rfl, rfl⟩
  · show sends l.fd s.acts = _
    rw [hacts, sends, if_pos rfl]

theorem flow_close (hinv : NetInv base l s) (hacts : s.acts = .close l.fd :: acts) :
    Flow.Step (l.worker prog) l.cmds.length cap (s.flow l) ((s.setActs acts).flow l) := by
  have horder := hinv.order
  rw [hacts] at horder
  obtain ⟨hhead, -⟩ := List.pairwise_cons.mp horder
  have hnone : sends l.fd acts = [] :=
    sends_of_notMem fun b hmem => ((hhead _ hmem).closed rfl).2 b rfl
  have hsource : (s.flow l).source = [] := by
    show sends l.fd s.acts = []
    rw [hacts, sends_cons_of_ne fun b heq => send_ne_close heq.symm]
    exact hnone
  have hopen : (s.flow l).isOpen = true := by
    show decide _ = true
    rw [hacts]
    exact decide_eq_true List.mem_cons_self
  have hgone : decide (.close l.fd ∈ acts) = false :=
    decide_eq_false fun hmem => ((hhead _ hmem).closed rfl).1 rfl
  have hflow : (s.setActs acts).flow l = { s.flow l with isOpen := false } := by
    rw [State.mk.injEq]
    exact ⟨hnone.trans hsource.symm, hgone, rfl, rfl⟩
  rw [hflow]
  exact .close hopen hsource

structure Both (base k : Nat) (l l' : Line) (s : Net) : Prop where
  lines : Separate k l l'
  fst : NetInv base l s
  snd : NetInv base l' s
  only : ∀ (fd : Int) (b : Byte), .send fd b ∈ s.acts → fd = l.fd ∨ fd = l'.fd
  waits : ∀ f, .wait f ∈ s.acts → f.pid - 1 < k

theorem Both.symm (hb : Both base k l l' s) : Both base k l' l s where
  lines := hb.lines.symm
  fst := hb.snd
  snd := hb.fst
  only := fun fd b hmem => (hb.only fd b hmem).symm
  waits := hb.waits

def Moves (prog : Str → Worker Byte) (cap : Nat) (l : Line) (s s' : Net) : Prop :=
  s'.flow l = s.flow l ∨ Flow.Step (l.worker prog) l.cmds.length cap (s.flow l) (s'.flow l)

/-- The descriptor `main` writes the stream to is the one of the line. -/
theorem NetInv.output (hinv : NetInv base l s) {b : Byte} (hmem : .send l.fd b ∈ s.acts) :
    (s.host.at l.fd).map Desc.obj = some (l.obj 0) := by
  rw [Host.at_natCast, ← l.output_eq]
  refine hinv.opened ?_
  by_contra hno
  exact hinv.sent hno b hmem

/-- A write goes to one of the rows, and to no other. -/
theorem Both.send (hb : Both base k l l' s) {fd : Int} {b : Byte} {o : Obj}
    (hacts : s.acts = .send fd b :: acts) (hout : (s.host.at fd).map Desc.obj = some o)
    (htakes : s.Takes cap o) : Moves prog cap l s ((s.write o b).setActs acts) := by
  have hmem : .send fd b ∈ s.acts := hacts ▸ List.mem_cons_self
  have hwacts : (s.write o b).acts = s.acts := by
    cases o <;> rfl
  rcases hb.only fd b hmem with rfl | rfl
  · have hobj := hb.fst.output hmem
    rw [hout, Option.some.injEq] at hobj
    subst hobj
    obtain ⟨hreader, hroom⟩ := (takes_iff hb.fst (Nat.zero_le _)).mp htakes
    obtain ⟨hset, -⟩ := flow_setActs_send (s := s.write (l.obj 0) b) (hwacts.trans hacts)
    obtain ⟨-, hsource⟩ := flow_setActs_send hacts
    refine Or.inr ?_
    rw [hset, flow_write (Nat.zero_le _)]
    exact .send hsource hreader hroom
  · have hobj := hb.snd.output hmem
    rw [hout, Option.some.injEq] at hobj
    subst hobj
    refine Or.inl ?_
    have hne : ∀ b', (Act.send l'.fd b) ≠ .send l.fd b' := by
      intro b' heq
      have := (Act.send.inj heq).1
      have := hb.lines.fd
      omega
    rw [flow_setActs (hwacts.trans hacts) send_ne_close hne,
      flow_write_other fun i _ => (hb.lines.obj_ne i 0).symm]

theorem Both.lose (hb : Both base k l l' s) {fd : Int} {b : Byte} {o : Obj}
    (hacts : s.acts = .send fd b :: acts) (hout : (s.host.at fd).map Desc.obj = some o)
    (hrefuses : s.Refuses o) : Moves prog cap l s (s.setActs acts) := by
  have hmem : .send fd b ∈ s.acts := hacts ▸ List.mem_cons_self
  rcases hb.only fd b hmem with rfl | rfl
  · have hobj := hb.fst.output hmem
    rw [hout, Option.some.injEq] at hobj
    subst hobj
    obtain ⟨hset, hsource⟩ := flow_setActs_send hacts
    refine Or.inr ?_
    rw [hset]
    exact .lose hsource ((refuses_iff hb.fst (Nat.zero_le _)).mp hrefuses)
  · refine Or.inl (flow_setActs hacts send_ne_close fun b' heq => ?_)
    have := (Act.send.inj heq).1
    have := hb.lines.fd
    omega

theorem Both.act (hb : Both base k l l' s) (hacts : s.acts = a :: acts) (hcall : a.isSend = false) :
    Moves prog cap l s { s.setActs acts with host := h } := by
  by_cases hclose : a = .close l.fd
  · subst hclose
    exact Or.inr (flow_close hb.fst hacts)
  · refine Or.inl (flow_setActs hacts hclose fun b heq => ?_)
    rw [heq] at hcall
    cases hcall

/-- What one step comes to: a filter makes a step of its row, or the program has
done an act. -/
def Advances (prog : Str → Worker Byte) (cap : Nat) (l l' : Line) (s s' : Net) : Prop :=
  Flow.Step (l.worker prog) l.cmds.length cap (s.flow l) (s'.flow l) ∧ s'.flow l' = s.flow l' ∧
      s'.acts = s.acts ∨
    s'.flow l = s.flow l ∧ Flow.Step (l'.worker prog) l'.cmds.length cap (s.flow l') (s'.flow l') ∧
      s'.acts = s.acts ∨
    Moves prog cap l s s' ∧ Moves prog cap l' s s' ∧ ∃ a, s.acts = a :: s'.acts

theorem Both.tail (hb : Both base k l l' s) (hacts : s.acts = a :: s'.acts)
    (hfst : NetInv base l s') (hsnd : NetInv base l' s') : Both base k l l' s' where
  lines := hb.lines
  fst := hfst
  snd := hsnd
  only := fun fd b hmem => hb.only fd b (hacts ▸ List.mem_cons_of_mem a hmem)
  waits := fun f hmem => hb.waits f (hacts ▸ List.mem_cons_of_mem a hmem)

/-- **A step of the whole** is a step of one of the rows, or an act. -/
theorem Both.step (hb : Both base k l l' s) (hstep : NetStep prog cap k env s s') :
    Both base k l l' s' ∧ Advances prog cap l l' s s' := by
  cases hstep with
  | @filter j kid _ hj hkid hfilter =>
    obtain ⟨hhost, hsame⟩ := hfilter.same
    have hb' : Both base k l l' s' := ⟨hb.lines, hb.fst.congr hhost hsame, hb.snd.congr hhost hsame,
      by rw [hsame]; exact hb.only, by rw [hsame]; exact hb.waits⟩
    refine ⟨hb', ?_⟩
    rcases (hb.lines.has_iff j).mpr hj with ⟨i, hi, rfl⟩ | ⟨i, hi, rfl⟩
    · exact Or.inl ⟨.work (hfilter.own hb.fst hi (hb.fst.laid.worker prog hi hkid)),
        hfilter.other hb.lines.symm hb.fst hi, hsame⟩
    · exact Or.inr (Or.inl ⟨hfilter.other hb.lines hb.snd hi,
        .work (hfilter.own hb.snd hi (hb.snd.laid.worker prog hi hkid)), hsame⟩)
  | @send fd b acts o hacts hout htakes =>
    have hsame : ((s.write o b).setActs acts).host = s.host := by
      cases o <;> rfl
    refine ⟨hb.tail hacts (hb.fst.tail hacts send_ne_close hsame rfl)
        (hb.snd.tail hacts send_ne_close hsame rfl),
      Or.inr (Or.inr ⟨hb.send hacts hout htakes, hb.symm.send hacts hout htakes, _, hacts⟩)⟩
  | @lose fd b acts o hacts hout hrefuses =>
    refine ⟨hb.tail hacts (hb.fst.tail hacts send_ne_close rfl rfl)
        (hb.snd.tail hacts send_ne_close rfl rfl),
      Or.inr (Or.inr ⟨hb.lose hacts hout hrefuses, hb.symm.lose hacts hout hrefuses, _, hacts⟩)⟩
  | @act a acts o h hacts hcall htold hrun =>
    have hleads : Leads (a.code env) s.host _ := Act.leads hb.fst.isSealed a
    have hacted := hleads.of_done (fun _ _ => trivial) (hrun [])
    refine ⟨hb.tail hacts (hb.fst.act hacts hacted) (hb.snd.act hacts hacted),
      Or.inr (Or.inr ⟨hb.act hacts hcall, hb.symm.act hacts hcall, _, hacts⟩)⟩

end Program

end Crashinfo
