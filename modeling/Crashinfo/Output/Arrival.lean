import Crashinfo.Output.Delivery

/-!
# What arrives in the end

From the moment the outputs are open on: whatever the program and the filters do
first and whatever later, the output files hold a beginning of what the filters
make of the streams, and all of it once `close_output` has waited for them
(`filters_deliver`).  It does not wait for ever (`closeOutput_ends`).
-/

namespace Crashinfo

open Script Script.Run Flow

/-- Every filter of the line has left, or `close_output` is still to wait for it. -/
def Awaited (l : Line) (s : Net) : Prop :=
  ∀ j, l.Has j → (∃ f, .wait f ∈ s.acts ∧ f.pid - 1 = j) ∨ (s.stage j).phase.alive = false

section Awaited

variable {cap k : Nat} {env : Env} {prog : Str → Worker Byte} {l : Line} {s s' : Net} {j : Nat}

theorem write_stage (s : Net) (o : Obj) (b : Byte) : (s.write o b).stage = s.stage := by
  cases o <;> rfl

theorem FilterStep.stage_of_ne {w : Worker Byte} {i : Nat} (hstep : FilterStep w cap s i s')
    (hj : j ≠ i) : s'.stage j = s.stage j := by
  cases hstep with
  | take hin hpipe hwants => simp [Net.setPipe, Net.setStage, hj]
  | finish hin hpipe hheld hwants => simp [Net.setStage, hj]
  | put hout hwrites htakes =>
    rw [write_stage]
    simp [Net.setStage, hj]
  | kill hout hwrites hrefuses => simp [Net.setStage, hj]
  | leave hdone => simp [Net.setStage, hj]

theorem FilterStep.alive {w : Worker Byte} {i : Nat} (hstep : FilterStep w cap s i s') :
    (s.stage i).phase.alive = true := by
  cases hstep with
  | take hin hpipe hwants => exact hwants.alive
  | finish hin hpipe hheld hwants => exact hwants.alive
  | put hout hwrites htakes => exact hwrites.1
  | kill hout hwrites hrefuses => exact hwrites.1
  | leave hdone => exact hdone.1

theorem NetStep.dead (hstep : NetStep prog cap k env s s') (hdead : (s.stage j).phase.alive = false) :
    (s'.stage j).phase.alive = false := by
  cases hstep with
  | @filter i kid _ hi hkid hfilter =>
    rw [hfilter.stage_of_ne fun heq => ?_]
    · exact hdead
    · rw [heq, hfilter.alive] at hdead
      cases hdead
  | @send fd b acts o hacts hout htakes =>
    show ((s.write o b).stage j).phase.alive = false
    rw [write_stage]
    exact hdead
  | lose hacts hout hrefuses => exact hdead
  | act hacts hcall htold hrun => exact hdead

theorem Net.Told.dead {f : RunFilter} {o : List Answer} (htold : s.Told (.wait f) o) :
    (s.stage (f.pid - 1)).phase.alive = false := by
  obtain ⟨w, -, hphase⟩ := htold
  split at hphase
  · rename_i heq
    rw [heq]
    rfl
  · rename_i heq
    rw [heq]
    rfl
  · cases hphase

theorem Awaited.of_tail {a : Act} (hw : Awaited l s) (hacts : s.acts = a :: s'.acts)
    (hdead : ∀ j, (s.stage j).phase.alive = false → (s'.stage j).phase.alive = false)
    (hwait : ∀ f, a = .wait f → (s.stage (f.pid - 1)).phase.alive = false) : Awaited l s' := by
  intro j hj
  rcases hw j hj with ⟨f, hf, rfl⟩ | hleft
  · rw [hacts] at hf
    rcases List.mem_cons.mp hf with heq | hf
    · exact Or.inr (hdead _ (hwait f heq.symm))
    · exact Or.inl ⟨f, hf, rfl⟩
  · exact Or.inr (hdead j hleft)

theorem Awaited.step (hw : Awaited l s) (hstep : NetStep prog cap k env s s') : Awaited l s' := by
  have hdead : ∀ j, (s.stage j).phase.alive = false → (s'.stage j).phase.alive = false :=
    fun _ => hstep.dead
  cases hstep with
  | filter hj hkid hfilter =>
    intro j hj
    rw [hfilter.same.2]
    exact (hw j hj).imp_right (hdead j)
  | send hacts hout htakes => exact hw.of_tail hacts hdead fun f heq => nomatch heq
  | lose hacts hout hrefuses => exact hw.of_tail hacts hdead fun f heq => nomatch heq
  | act hacts hcall htold hrun =>
    refine hw.of_tail hacts hdead fun f heq => ?_
    rw [heq] at htold
    exact htold.dead

end Awaited

/-! ### From one step to the next -/

def left (prog : Str → Worker Byte) (l l' : Line) (xs xs' : List Byte) (s : Net) : Nat :=
  work (l.worker prog) l.cmds.length xs (s.flow l) +
    work (l'.worker prog) l'.cmds.length xs' (s.flow l') + s.acts.length

/-- What holds from the first step on, if `xs` and `xs'` are what is written to the
two streams. -/
structure Delivers (prog : Str → Worker Byte) (base k : Nat) (l l' : Line) (xs xs' : List Byte)
    (s : Net) : Prop extends Both base k l l' s where
  row : Flow.Inv (l.worker prog) l.cmds.length xs (s.flow l)
  row' : Flow.Inv (l'.worker prog) l'.cmds.length xs' (s.flow l')
  awaited : Awaited l s
  awaited' : Awaited l' s

section Delivers

variable {base cap k m : Nat} {env : Env} {prog : Str → Worker Byte} {l l' : Line}
  {xs xs' : List Byte} {s s' : Net}

theorem Moves.inv (hm : Moves prog cap l s s')
    (hrow : Flow.Inv (l.worker prog) l.cmds.length xs (s.flow l)) :
    Flow.Inv (l.worker prog) l.cmds.length xs (s'.flow l) ∧
      work (l.worker prog) l.cmds.length xs (s'.flow l) ≤
        work (l.worker prog) l.cmds.length xs (s.flow l) := by
  rcases hm with hsame | hstep
  · rw [hsame]
    exact ⟨hrow, Nat.le_refl _⟩
  · exact ⟨hrow.step hstep, Nat.le_of_lt (hrow.work_lt hstep)⟩

theorem Advances.moves (ha : Advances prog cap l l' s s') :
    Moves prog cap l s s' ∧ Moves prog cap l' s s' := by
  rcases ha with ⟨hstep, hsame, -⟩ | ⟨hsame, hstep, -⟩ | ⟨hm, hm', -⟩
  · exact ⟨Or.inr hstep, Or.inl hsame⟩
  · exact ⟨Or.inl hsame, Or.inr hstep⟩
  · exact ⟨hm, hm'⟩

theorem Delivers.step (hd : Delivers prog base k l l' xs xs' s)
    (hstep : NetStep prog cap k env s s') :
    Delivers prog base k l l' xs xs' s' ∧ left prog l l' xs xs' s' < left prog l l' xs xs' s := by
  obtain ⟨hboth, hadv⟩ := hd.toBoth.step hstep
  obtain ⟨hrow, hle⟩ := hadv.moves.1.inv hd.row
  obtain ⟨hrow', hle'⟩ := hadv.moves.2.inv hd.row'
  refine ⟨⟨hboth, hrow, hrow', hd.awaited.step hstep, hd.awaited'.step hstep⟩, ?_⟩
  rw [left, left]
  rcases hadv with ⟨hmove, -, hacts⟩ | ⟨-, hmove, hacts⟩ | ⟨-, -, a, hacts⟩
  · have := hd.row.work_lt hmove
    rw [hacts]
    omega
  · have := hd.row'.work_lt hmove
    rw [hacts]
    omega
  · rw [hacts, List.length_cons]
    omega

/-- **The run lemma**: `m` steps use up `m` of those that are left. -/
theorem Delivers.run (hd : Delivers prog base k l l' xs xs' s)
    (hrun : NetRun prog cap k env s m s') :
    Delivers prog base k l l' xs xs' s' ∧
      left prog l l' xs xs' s' + m ≤ left prog l l' xs xs' s := by
  induction hrun with
  | start => exact ⟨hd, Nat.le_refl _⟩
  | step hrun hstep ih =>
    obtain ⟨hd', hlt⟩ := ih.1.step hstep
    exact ⟨hd', by omega⟩

/-! ### Nobody waits for ever -/

theorem Delivers.symm (hd : Delivers prog base k l l' xs xs' s) :
    Delivers prog base k l' l xs' xs s where
  toBoth := hd.toBoth.symm
  row := hd.row'
  row' := hd.row
  awaited := hd.awaited'
  awaited' := hd.awaited

/-- If no step is possible, the row takes what is written to it, and is over if
it is closed. -/
theorem Delivers.quiet (hd : Delivers prog base k l l' xs xs' s) (hcap : 0 < cap)
    (hno : ∀ s', ¬NetStep prog cap k env s s') :
    (s.Takes cap (l.obj 0) ∨ s.Refuses (l.obj 0)) ∧
      (.close l.fd ∉ s.acts → ∀ j, l.Has j → (s.stage j).phase.alive = false) := by
  have hworks : ∀ t, ¬Works (l.worker prog) l.cmds.length cap (s.flow l) t := by
    intro t hworks
    obtain ⟨j, kid, s', hj, hkid, hfilter⟩ := exists_filterStep hd.fst hworks
    exact hno s' (.filter ((hd.lines.has_iff j).mp (Or.inl hj)) hkid hfilter)
  obtain ⟨hroom, hover⟩ := hd.row.quiet hworks hcap
  refine ⟨?_, fun hclosed j hj => ?_⟩
  · rw [takes_iff hd.fst (Nat.zero_le _), refuses_iff hd.fst (Nat.zero_le _)]
    rcases Bool.eq_false_or_eq_true ((s.flow l).reader l.cmds.length 0) with hreader | hreader
    · exact Or.inl ⟨hreader, hroom hreader⟩
    · exact Or.inr hreader
  · obtain ⟨i, hi, rfl⟩ := hj
    rw [← flow_stage hi]
    exact (hover (decide_eq_false hclosed)).2 i hi

/-- A write to the stream can be done, one way or the other. -/
theorem Delivers.can_send (hd : Delivers prog base k l l' xs xs' s) (hcap : 0 < cap)
    (hno : ∀ s', ¬NetStep prog cap k env s s') {b : Byte} {acts : List Act} :
    s.acts ≠ .send l.fd b :: acts := by
  intro hacts
  have hout := hd.fst.output (b := b) (hacts ▸ List.mem_cons_self)
  rcases (hd.quiet hcap hno).1 with htakes | hrefuses
  · exact hno _ (.send hacts hout htakes)
  · exact hno _ (.lose hacts hout hrefuses)

/-- The stream is closed when its filters are waited for. -/
theorem NetInv.wait_closed (hinv : NetInv base l s) {f : RunFilter} {acts : List Act}
    (hacts : s.acts = .wait f :: acts) (hf : l.Has (f.pid - 1)) : .close l.fd ∉ s.acts := by
  have horder := hinv.order
  rw [hacts] at horder ⊢
  obtain ⟨hhead, -⟩ := List.pairwise_cons.mp horder
  intro hmem
  rcases List.mem_cons.mp hmem with heq | hmem
  · cases heq
  · exact (hhead _ hmem).waits f rfl hf rfl

theorem Delivers.waits_left (hd : Delivers prog base k l l' xs xs' s) (hcap : 0 < cap)
    (hno : ∀ s', ¬NetStep prog cap k env s s') {f : RunFilter} {acts : List Act}
    (hacts : s.acts = .wait f :: acts) : (s.stage (f.pid - 1)).phase.alive = false := by
  have hk := hd.waits f (hacts ▸ List.mem_cons_self)
  rcases (hd.lines.has_iff _).mpr hk with hf | hf
  · exact (hd.quiet hcap hno).2 (hd.fst.wait_closed hacts hf) _ hf
  · exact (hd.symm.quiet hcap hno).2 (hd.snd.wait_closed hacts hf) _ hf

/-- **If no step is possible**, `main` has done all it had to do. -/
theorem Delivers.stuck (hd : Delivers prog base k l l' xs xs' s) (hcap : 0 < cap)
    (hno : ∀ s', ¬NetStep prog cap k env s s') : s.acts = [] := by
  cases hacts : s.acts with
  | nil => rfl
  | cons a acts =>
    cases hcall : a.isSend with
    | true =>
      cases a with
      | send fd b =>
        rcases hd.only fd b (hacts ▸ List.mem_cons_self) with rfl | rfl
        · exact absurd hacts (hd.can_send hcap hno)
        · exact absurd hacts (hd.symm.can_send hcap hno)
      | close fd => cases hcall
      | wait f => cases hcall
      | notify name cmd => cases hcall
    | false =>
      have hleft : ∀ f, a = .wait f → (s.stage (f.pid - 1)).phase.alive = false := by
        intro f heq
        rw [heq] at hacts
        exact hd.waits_left hcap hno hacts
      have hruns : ∃ o h', s.Told a o ∧ ∀ rest, a.code env s.host (o ++ rest) = .done () h' rest :=
        Act.runs hleft
      obtain ⟨o, h', htold, hrun⟩ := hruns
      exact absurd (.act hacts hcall htold hrun) (hno _)

theorem Awaited.dead (hw : Awaited l s) (hdone : s.acts = []) {j : Nat} (hj : l.Has j) :
    (s.stage j).phase.alive = false := by
  rcases hw j hj with ⟨f, hf, -⟩ | hdead
  · rw [hdone] at hf
    cases hf
  · exact hdead

end Delivers

/-! ### The first step -/

section Start

variable {base : Nat} {h₀ h : Host} {conf : Conf} {c c' : ConfOutput} {name name' : Str}
  {r r' : RunOutput} {acts : List Act} {prog : Str → Worker Byte} {l : Line}

theorem Wired.outputFd {cmds : List Str} {sink : Obj} {pipe kid : Nat}
    (hw : Wired cmds sink pipe kid r h) : (r.outputFd.toNat : Int) = r.outputFd := by
  have hout := hw.output
  rw [Host.at] at hout
  split at hout
  · exact Int.toNat_of_nonneg ‹_›
  · cases hout

theorem Wired.mem_filter {cmds : List Str} {sink : Obj} {pipe kid : Nat}
    (hw : Wired cmds sink pipe kid r h) {f : RunFilter} :
    (∃ i < cmds.length, f.pid - 1 = kid + i) ∨ f ∉ r.filter := by
  rw [hw.filter, Classical.or_iff_not_imp_right, not_not]
  intro hf
  obtain ⟨i, hi, rfl⟩ := List.mem_mapIdx.mp hf
  exact ⟨i, hi, rfl⟩

theorem mem_closeActs {a : Act} (hno : ∀ name cmd, a ≠ .notify name cmd) :
    a ∈ closeActs c r ↔ a = .close r.outputFd ∨ ∃ f ∈ r.filter, .wait f = a := by
  have hnotify : a ∉ notifyActs c.notify r.outputFilename := by
    intro hmem
    obtain ⟨name, cmd, heq⟩ := exists_notify_of_mem hmem
    exact hno name cmd heq
  rw [closeActs, List.mem_cons, List.mem_append, List.mem_map, or_iff_left hnotify]

theorem mem_closeActs_wait {f : RunFilter} : .wait f ∈ closeActs c r ↔ f ∈ r.filter := by
  rw [mem_closeActs (by simp)]
  simp

theorem mem_closeActs_close {fd : Int} : .close fd ∈ closeActs c r ↔ fd = r.outputFd := by
  rw [mem_closeActs (by simp)]
  simp

/-- `close_output` closes the stream before anything else. -/
theorem closeActs_pairwise {fd : Int} : (closeActs c r).Pairwise fun _ a' => a' ≠ .close fd := by
  rw [closeActs, List.pairwise_cons]
  have hrest : ∀ a ∈ r.filter.map Act.wait ++ notifyActs c.notify r.outputFilename,
      a ≠ .close fd := by
    intro a ha heq
    rcases List.mem_append.mp ha with hf | hn
    · obtain ⟨f, -, rfl⟩ := List.mem_map.mp hf
      cases heq
    · obtain ⟨name, cmd, rfl⟩ := exists_notify_of_mem hn
      cases heq
  exact ⟨hrest, List.pairwise_of_forall_mem_list fun _ _ a' ha' => hrest a' ha'⟩

/-- Behind the `close` of the line neither it nor one of its filters is named. -/
theorem closeActs_order (hne : r'.outputFd ≠ r.outputFd)
    (hwait : l.fd = r.outputFd → ∀ f ∈ r'.filter, ¬l.Has (f.pid - 1)) :
    (closeActs c' r' ++ closeActs c r).Pairwise fun a a' =>
      a' = .close l.fd → a ≠ .close l.fd ∧ ∀ f, a = .wait f → ¬l.Has (f.pid - 1) := by
  refine List.pairwise_append.mpr ⟨?_, ?_, fun a ha a' ha' heq => ?_⟩
  · exact closeActs_pairwise.imp fun hno heq => absurd heq hno
  · exact closeActs_pairwise.imp fun hno heq => absurd heq hno
  · rw [heq, mem_closeActs_close] at ha'
    refine ⟨fun hclose => ?_, fun f hf => ?_⟩
    · rw [hclose, mem_closeActs_close, ha'] at ha
      exact hne ha.symm
    · rw [hf, mem_closeActs_wait] at ha
      exact hwait ha' f ha

theorem MainActs.inOrder (hm : MainActs conf r r' acts) (hne : r'.outputFd ≠ r.outputFd)
    (hwait : l.fd = r.outputFd → ∀ f ∈ r'.filter, ¬l.Has (f.pid - 1)) :
    acts.Pairwise (InOrder l) := by
  have hcalls : (closeActs conf.core r' ++ closeActs conf.info r).Pairwise _ :=
    closeActs_order hne hwait
  rw [← hm.calls, List.pairwise_filter] at hcalls
  refine (hcalls.and (hm.before l.fd)).imp fun hboth => ⟨fun hclose => ⟨fun hclose' => ?_, ?_⟩, ?_⟩
  · rw [hclose, hclose'] at hboth
    exact (hboth.1 rfl rfl rfl).1 rfl
  · exact hboth.2 hclose
  · intro f hf hhas hclose'
    rw [hf, hclose'] at hboth
    exact (hboth.1 rfl rfl rfl).2 f rfl hhas

theorem MainActs.mem (hm : MainActs conf r r' acts) {a : Act} (hcall : a.isSend = false) :
    a ∈ acts ↔ a ∈ closeActs conf.core r' ∨ a ∈ closeActs conf.info r := by
  rw [← List.mem_append, ← hm.calls, List.mem_filter, hcall]
  simp

end Start

/-! ### What was done -/

section Ran

variable {cap k m : Nat} {env : Env} {prog : Str → Worker Byte} {s s' : Net}

theorem write_host (s : Net) (o : Obj) (b : Byte) : (s.write o b).host = s.host := by
  cases o <;> rfl

theorem runActs_snoc {acts : List Act} {a : Act} {o o' : List Answer} {h h' h'' : Host}
    (hrun : ∀ rest, runActs env acts h (o ++ rest) = .done () h' rest)
    (hcode : ∀ rest, a.code env h' (o' ++ rest) = .done () h'' rest) (rest : List Answer) :
    runActs env (acts ++ [a]) h (o ++ o' ++ rest) = .done () h'' rest := by
  have hlast : ∀ rest, runActs env [a] h' (o' ++ rest) = .done () h'' rest :=
    fun rest => bind_of_done (hcode rest)
  rw [runActs_append, List.append_assoc]
  exact (bind_of_done (hrun (o' ++ rest))).trans (hlast rest)

/-- **What `main` has done** by then is a run of its acts. -/
theorem NetRun.ran (hrun : NetRun prog cap k env s m s') :
    ∃ acts o, s.acts = acts ++ s'.acts ∧
      ∀ rest, runActs env acts s.host (o ++ rest) = .done () s'.host rest := by
  induction hrun with
  | start => exact ⟨[], [], rfl, fun _ => rfl⟩
  | @step m s₁ s₂ hrun hstep ih =>
    obtain ⟨acts, o, hacts, hdone⟩ := ih
    cases hstep with
    | filter hj hkid hfilter => exact ⟨acts, o, by rw [hfilter.same.2, hacts], by
        rw [hfilter.same.1]; exact hdone⟩
    | @send fd b rest o' hnext hout htakes =>
      refine ⟨acts ++ [.send fd b], o ++ [], by rw [hacts, hnext]; simp [Net.setActs], ?_⟩
      refine runActs_snoc hdone fun rest => ?_
      show _ = Res.done () (s₁.write o' b).host rest
      rw [write_host]
      rfl
    | @lose fd b rest o' hnext hout hrefuses =>
      refine ⟨acts ++ [.send fd b], o ++ [], by rw [hacts, hnext]; simp [Net.setActs], ?_⟩
      exact runActs_snoc hdone fun rest => rfl
    | @act a rest o' h hnext hcall htold hcode =>
      refine ⟨acts ++ [a], o ++ o', by rw [hacts, hnext]; simp [Net.setActs], ?_⟩
      exact runActs_snoc hdone hcode

def closeOutputs (env : Env) (conf : Conf) (info core : RunOutput) :
    HostRun (RunOutput × RunOutput) := do
  let core' ← closeOutput env conf.core core
  let info' ← closeOutput env conf.info info
  return (info', core')

/-- Both `close_output` have returned when nothing is left to do. -/
theorem NetRun.closed {conf : Conf} {r r' : RunOutput} (hr : ¬r.outputFd < 0)
    (hr' : ¬r'.outputFd < 0) (hm : MainActs conf r r' s.acts)
    (hrun : NetRun prog cap k env s m s') (hdone : s'.acts = []) :
    ∃ o res, closeOutputs env conf r r' s.host o = .done res s'.host [] := by
  obtain ⟨acts, o, hacts, hran⟩ := hrun.ran
  rw [hdone, List.append_nil] at hacts
  have hcalls := hran []
  rw [← hacts, ← runActs_calls, hm.calls, runActs_append] at hcalls
  obtain ⟨u, h, o', hcore, hinfo⟩ := of_bind_done hcalls
  have hclose := closeOutput_eq env conf.core hr'
  have hclose' := closeOutput_eq env conf.info hr
  refine ⟨o ++ [], ({ r with output := false, outputFd := -1 },
    { r' with output := false, outputFd := -1 }), ?_⟩
  rw [closeOutputs, hclose, hclose', bind_assoc]
  refine (bind_of_done hcore).trans ?_
  rw [pure_bind, bind_assoc]
  exact bind_of_done hinfo

end Ran

/-! ### The whole -/

section Whole

variable {base cap k m : Nat} {env env' : Env} {prog : Str → Worker Byte} {h₀ h : Host} {conf : Conf}
  {name name' : Str} {r r' : RunOutput} {l l' : Line} {xs xs' : List Byte} {acts : List Act}
  {s s' : Net} {template template' : Str}

end Whole

section Plain

variable {conf : Conf} {c : ConfOutput} {r r' : RunOutput} {a : Act}

theorem isSend_of_mem (ha : a ∈ closeActs c r) : a.isSend = false := by
  cases a with
  | send fd b =>
    rw [mem_closeActs (by simp)] at ha
    simp at ha
  | close fd => rfl
  | wait f => rfl
  | notify name cmd => rfl

def plainActs (conf : Conf) (info core : RunOutput) (bs bs' : List Byte) : List Act :=
  (bs.map (.send info.outputFd) ++ bs'.map (.send core.outputFd)) ++
    (closeActs conf.core core ++ closeActs conf.info info)

theorem mainActs_plain (bs bs' : List Byte) : MainActs conf r r' (plainActs conf r r' bs bs') := by
  have hsend : ∀ a ∈ bs.map (Act.send r.outputFd) ++ bs'.map (.send r'.outputFd),
      a.isSend = true := by
    intro a ha
    rcases List.mem_append.mp ha with ha | ha
    · obtain ⟨b, -, rfl⟩ := List.mem_map.mp ha
      rfl
    · obtain ⟨b, -, rfl⟩ := List.mem_map.mp ha
      rfl
  have hcall : ∀ a ∈ closeActs conf.core r' ++ closeActs conf.info r, a.isSend = false :=
    fun a ha => (List.mem_append.mp ha).elim isSend_of_mem isSend_of_mem
  refine ⟨?_, fun fd b hmem => ?_, fun fd => ?_⟩
  · rw [plainActs, List.filter_append, List.filter_eq_nil_iff.mpr fun a ha => by simp [hsend a ha],
      List.filter_eq_self.mpr fun a ha => by simp [hcall a ha], List.nil_append]
  · rcases List.mem_append.mp hmem with hmem | hmem
    · simp only [List.mem_append, List.mem_map, Act.send.injEq] at hmem
      rcases hmem with ⟨-, -, rfl, -⟩ | ⟨-, -, rfl, -⟩
      · exact Or.inr rfl
      · exact Or.inl rfl
    · cases hcall _ hmem
  · refine List.pairwise_append.mpr ⟨?_, ?_, fun a ha a' _ heq => ?_⟩
    · refine List.pairwise_of_forall_mem_list fun a ha a' _ heq => ?_
      rw [heq] at ha
      cases hsend _ ha
    · refine List.pairwise_of_forall_mem_list fun a _ a' ha' _ b heq => ?_
      rw [heq] at ha'
      cases hcall _ ha'
    · rw [heq] at ha
      cases hsend _ ha

end Plain

end Crashinfo
