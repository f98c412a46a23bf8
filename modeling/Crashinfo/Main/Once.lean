import Crashinfo.Lib.Journal
import Crashinfo.Lib.Outbuf
import Crashinfo.Main.Forked
import Crashinfo.Stdio

/-!
# How often the info stream is written

What is put into `run.info.output` stays in the buffer of the stream until there
is no room or it is flushed.  `main` starts programs while the stream is open: the
filters of the core output behind it, and those that are told about the core
file in front of its end.  The child of `spawn_proc` has a copy of the buffer.  It logs
through it, and if `execvp` fails it ends with `exit`, which flushes the copy.

`Origin` tells what the process itself has put into the stream from what a child
has.  A step of a run (`InfoStep`) is an event, a flush or a fork, with the error
of `execvp`; `info_once_iff` says for which runs every byte is written once.
-/

namespace Crashinfo

open Journal Outbuf Script Script.Run

/-! ### The steps of a run -/

inductive Origin where
  /-- `main` has put it there as number `n` -/
  | own (n : Nat)
  | child (b : Byte)
  deriving DecidableEq, Repr

/-- What `logmsg` puts into the stream, call by call. -/
def Message.puts (m : Message) : List Str := [lit "# ", m.1.label, m.2, lit "\n"]

/-- What an event puts into the stream, if the threshold is `info`. -/
def Event.puts (info : Int) : Event → List Str
  | .put s => [s]
  | .log m => if info ≥ m.1.level then Message.puts m else []

def exeOf (cmd : Str) : Str :=
  cmd.takeWhile isDelim ++ (cmd.dropWhile isDelim).takeWhile fun c => !isDelim c

def startingNote (cmd : Str) : Message := (.dbg, lit "Starting program '" ++ cmd ++ lit "'")

def startFailed (strerror : Errno → Str) (cmd : Str) (e : Errno) : Message :=
  (.crit, lit "Starting executable '" ++ exeOf cmd ++ lit "' failed: " ++ strerror e)

inductive InfoStep where
  | event (e : Event)
  | flush
  /-- a program is started; `execvp` may fail -/
  | fork (cmd : Str) (failed : Option Errno)
  deriving DecidableEq, Repr

/-- The stream, and what `main` and its threads have put into it. -/
structure InfoFile (cap : Nat) where
  file : File cap Origin
  text : Str := []

section Steps

variable {cap : Nat} (pol : Policy cap) (info : Int) (strerror : Errno → Str)

def InfoFile.put (f : InfoFile cap) (s : Str) : InfoFile cap where
  file := f.file.put pol ((List.range' f.text.length s.length).map .own)
  text := f.text ++ s

def childPuts (m : Message) : List (List Origin) :=
  (Event.puts info (.log m)).map fun s => s.map .child

/-- One step: `spawn_proc` says what it starts, and what is said if that fails is in the
stream when the child ends. -/
def InfoFile.step (f : InfoFile cap) : InfoStep → InfoFile cap
  | .event e => (e.puts info).foldl (InfoFile.put pol) f
  | .flush => { f with file := f.file.flush }
  | .fork cmd failed =>
    { f with
      file := f.file.fork pol (childPuts info (startingNote cmd))
        (failed.map fun e => childPuts info (startFailed strerror cmd e)) }

def infoSteps (steps : List InfoStep) : InfoFile cap :=
  steps.foldl (InfoFile.step pol info strerror) { file := .empty }

/-- **Every byte is written once**: what `main` has put into the stream by its `fclose` is
in the file once, whenever the children write what they write.  The steps are those of a
run that reaches its `fclose`, which is the flush in the end. -/
def EmittedOnce (steps : List InfoStep) : Prop :=
  ∀ out : List Origin, out.Perm (infoSteps pol info strerror steps).file.flush.written →
    ∀ n < (infoSteps pol info strerror steps).text.length, out.count (.own n) = 1

/-- The length of what is said when a program is started. -/
def startingLength (cmd : Str) : Nat := (stream info [.log (startingNote cmd)]).length

/-- The buffer is empty when a program is started, or the program is started and what is
said about it fits into the buffer. -/
def InfoFile.Spared (f : InfoFile cap) : InfoStep → Prop
  | .fork cmd failed => f.file.pending = [] ∨
      failed = none ∧ f.file.pending.length + startingLength info cmd ≤ cap
  | _ => True

/-- At every program that is started, the stream was as `Spared` says. -/
def AllSpared (steps : List InfoStep) : Prop :=
  Each (fun before step => (infoSteps pol info strerror before).Spared info step) steps

end Steps

/-! ### What a step does -/

section Step

variable {cap : Nat} {pol : Policy cap} {info : Int} {strerror : Errno → Str} {f : InfoFile cap}

def InfoFile.Own (f : InfoFile cap) : Prop :=
  ∀ x ∈ f.file.pending, ∃ n < f.text.length, x = .own n

/-- What was put into the stream is there once, nothing else that was. -/
def InfoFile.Clean (f : InfoFile cap) : Prop :=
  ∀ n, f.file.count (.own n) = if n < f.text.length then 1 else 0

def InfoFile.Doubled (f : InfoFile cap) : Prop :=
  ∃ n < f.text.length, 1 < f.file.count (.own n)

theorem count_range' (a k n : Nat) :
    ((List.range' a k).map Origin.own).count (.own n)
      = if a ≤ n ∧ n < a + k then 1 else 0 := by
  rw [List.count_map_of_injective _ _ fun _ _ => Origin.own.inj]
  by_cases h : a ≤ n ∧ n < a + k
  · rw [if_pos h]
    exact List.count_eq_one_of_mem (List.nodup_range' ..) (List.mem_range'_1.mpr h)
  · rw [if_neg h]
    exact List.count_eq_zero.mpr fun hmem => h (List.mem_range'_1.mp hmem)

theorem count_infoPut (f : InfoFile cap) (s : Str) (n : Nat) :
    (f.put pol s).file.count (.own n) = f.file.count (.own n) +
      if f.text.length ≤ n ∧ n < f.text.length + s.length then 1 else 0 := by
  rw [InfoFile.put, count_put, count_range']

theorem InfoFile.Own.put (h : f.Own) (s : Str) : (f.put pol s).Own := by
  intro x hx
  have hmem := List.mem_of_mem_drop hx
  have hlen : (f.put pol s).text.length = f.text.length + s.length := List.length_append
  rw [hlen]
  rcases List.mem_append.mp hmem with hmem | hmem
  · obtain ⟨n, hn, rfl⟩ := h x hmem
    exact ⟨n, by omega, rfl⟩
  · obtain ⟨n, hn, rfl⟩ := List.mem_map.mp hmem
    exact ⟨n, by rw [List.mem_range'_1] at hn; exact hn.2, rfl⟩

theorem InfoFile.Clean.put (h : f.Clean) (s : Str) : (f.put pol s).Clean := by
  intro n
  have hlen : (f.put pol s).text.length = f.text.length + s.length := List.length_append
  rw [count_infoPut, h n, hlen]
  split <;> split <;> split <;> omega

theorem InfoFile.Doubled.put (h : f.Doubled) (s : Str) : (f.put pol s).Doubled := by
  obtain ⟨n, hn, hcount⟩ := h
  have hlen : (f.put pol s).text.length = f.text.length + s.length := List.length_append
  refine ⟨n, by omega, ?_⟩
  rw [count_infoPut]
  omega

theorem event_induction {Q : InfoFile cap → Prop} (hput : ∀ f s, Q f → Q (f.put pol s))
    (e : Event) (h : Q f) : Q (f.step pol info strerror (.event e)) := by
  have hfold : ∀ (l : List Str) (f : InfoFile cap), Q f → Q (l.foldl (InfoFile.put pol) f) := by
    intro l
    induction l with
    | nil => exact fun f hf => hf
    | cons s l ih => exact fun f hf => ih _ (hput f s hf)
  exact hfold _ f h

theorem notMem_childPuts (m : Message) (n : Nat) : .own n ∉ (childPuts info m).flatten := by
  intro hmem
  obtain ⟨l, hl, hmem⟩ := List.mem_flatten.mp hmem
  obtain ⟨s, -, rfl⟩ := List.mem_map.mp hl
  obtain ⟨b, -, hb⟩ := List.mem_map.mp hmem
  cases hb

theorem length_childPuts (m : Message) :
    (childPuts info m).flatten.length = (stream info [.log m]).length := by
  rw [childPuts, stream, List.flatMap_singleton, Event.puts, Event.text]
  split
  · simp [Message.puts, Message.comment]
  · simp

/-- A program that is started is spared just if its copy of the buffer is harmless. -/
theorem spared_fork_iff {cmd : Str} {failed : Option Errno} :
    f.Spared info (.fork cmd failed) ↔ f.file.Harmless (childPuts info (startingNote cmd))
      (failed.map fun e => childPuts info (startFailed strerror cmd e)) := by
  rw [InfoFile.Spared, File.Harmless, length_childPuts, startingLength, Option.map_eq_none_iff]

theorem InfoFile.Own.step (h : f.Own) (e : InfoStep) : (f.step pol info strerror e).Own := by
  cases e with
  | event e => exact event_induction (fun f s hf => hf.put s) e h
  | flush => exact fun x hx => absurd hx List.not_mem_nil
  | fork cmd failed => exact h

theorem InfoFile.Doubled.step (h : f.Doubled) (e : InfoStep) :
    (f.step pol info strerror e).Doubled := by
  cases e with
  | event e => exact event_induction (fun f s hf => hf.put s) e h
  | flush =>
    obtain ⟨n, hn, hcount⟩ := h
    exact ⟨n, hn, hcount.trans_eq count_flush.symm⟩
  | fork cmd failed =>
    obtain ⟨n, hn, hcount⟩ := h
    exact ⟨n, hn, hcount.trans_le count_le_fork⟩

/-- **A step that is spared** writes nothing twice. -/
theorem InfoFile.Clean.step (h : f.Clean) {e : InfoStep} (he : f.Spared info e) :
    (f.step pol info strerror e).Clean := by
  cases e with
  | event e => exact event_induction (fun f s hf => hf.put s) e h
  | flush => exact fun n => count_flush.trans (h n)
  | fork cmd failed =>
    intro n
    refine Eq.trans (count_fork_of_harmless (spared_fork_iff.mp he) ?_ ?_) (h n)
    · exact notMem_childPuts _ n
    · cases failed with
      | none => exact List.not_mem_nil
      | some e => exact notMem_childPuts _ n

/-- **One that is not** writes something twice. -/
theorem InfoFile.Clean.doubled (h : f.Clean) (hown : f.Own) {e : InfoStep}
    (he : ¬f.Spared info e) : (f.step pol info strerror e).Doubled := by
  cases e with
  | event e => exact absurd trivial he
  | flush => exact absurd trivial he
  | fork cmd failed =>
    obtain ⟨x, hx, hlt⟩ := lt_count_fork pol fun hh => he (spared_fork_iff.mpr hh)
    obtain ⟨n, hn, rfl⟩ := hown x hx
    refine ⟨n, hn, ?_⟩
    rw [h n, if_pos hn] at hlt
    exact hlt

theorem length_pending_puts (pol : Policy cap) (l : List Str) : ∀ f : InfoFile cap,
    f.file.pending.length + l.flatten.length ≤ cap →
    (l.foldl (InfoFile.put pol) f).file.pending.length
      = f.file.pending.length + l.flatten.length := by
  induction l with
  | nil => exact fun f _ => rfl
  | cons s l ih =>
    intro f hfits
    rw [List.flatten_cons, List.length_append] at hfits ⊢
    have hout : pol.out f.file.pending.length s.length = 0 := pol.out_of_fits _ _ (by omega)
    have hput : (f.put pol s).file.pending.length = f.file.pending.length + s.length := by
      simp [InfoFile.put, File.put, hout]
    rw [List.foldl_cons, ih _ (by omega), hput]
    omega

end Step

/-! ### A run -/

section Run

variable {cap : Nat} {pol : Policy cap} {info : Int} {strerror : Errno → Str}
  {steps : List InfoStep}

theorem infoSteps_snoc (steps : List InfoStep) (e : InfoStep) :
    infoSteps pol info strerror (steps ++ [e]) =
      (infoSteps pol info strerror steps).step pol info strerror e := by
  rw [infoSteps, infoSteps, List.foldl_append]
  rfl

theorem own_infoSteps (steps : List InfoStep) : (infoSteps pol info strerror steps).Own := by
  induction steps using List.reverseRecOn with
  | nil => exact fun x hx => absurd hx List.not_mem_nil
  | append_singleton steps e ih =>
    rw [infoSteps_snoc]
    exact ih.step e

/-- **The run**: up to the first program that is not spared everything is there once, and from
there on something is there twice. -/
theorem infoSteps_cases (pol : Policy cap) (info : Int) (strerror : Errno → Str)
    (steps : List InfoStep) :
    (AllSpared pol info strerror steps ∧ (infoSteps pol info strerror steps).Clean) ∨
      ¬AllSpared pol info strerror steps ∧ (infoSteps pol info strerror steps).Doubled := by
  induction steps using List.reverseRecOn with
  | nil => exact Or.inl ⟨each_nil, fun n => rfl⟩
  | append_singleton steps e ih =>
    rw [infoSteps_snoc, AllSpared, each_snoc]
    rcases ih with ⟨hall, hclean⟩ | ⟨hall, hdouble⟩
    · by_cases he : (infoSteps pol info strerror steps).Spared info e
      · exact Or.inl ⟨⟨hall, he⟩, hclean.step he⟩
      · exact Or.inr ⟨fun h => he h.2, hclean.doubled (own_infoSteps steps) he⟩
    · exact Or.inr ⟨fun h => hall h.1, hdouble.step e⟩

theorem count_written_flush (f : InfoFile cap) (x : Origin) :
    f.file.flush.written.count x = f.file.count x := by
  rw [File.count, File.flush]

theorem emittedOnce_of_clean (h : (infoSteps pol info strerror steps).Clean) :
    EmittedOnce pol info strerror steps := by
  intro out hout n hn
  rw [hout.count_eq, count_written_flush, h n, if_pos hn]

theorem not_emittedOnce_of_doubled (h : (infoSteps pol info strerror steps).Doubled) :
    ¬EmittedOnce pol info strerror steps := by
  obtain ⟨n, hn, hcount⟩ := h
  intro hall
  have hone := hall _ (List.Perm.refl _) n hn
  rw [count_written_flush] at hone
  omega

end Run

/-! ### The runs of `main` -/

def outBufsize : Nat := 64 * 1024

def stepCommand : InfoStep → Option Str
  | .fork cmd _ => some cmd
  | _ => none

def stepMessage : InfoStep → Option Message
  | .event (.log m) => some m
  | _ => none

def commands (l : List InfoStep) : List Str := l.filterMap stepCommand

def messages (l : List InfoStep) : List Message := l.filterMap stepMessage

/-- The steps are those of a part of `main` that leads from `h` to `h'`; the other thread may
log something besides. -/
structure StepsOf (h : Host) (l : List InfoStep) (h' : Host) : Prop where
  forks : Forked h (commands l) h'
  logs : ∃ ms, h'.log = h.log ++ ms ∧ ms.Sublist (messages l)

/-- The steps are those of a run of `main` while the info stream is open: the core output is
opened, the core is copied, and the core output is closed, unless it could not be opened. -/
structure InfoRun (env env' : Env) (conf : Conf) (opening copying closing : List InfoStep) :
    Prop where
  opened : ∃ h o a h' o', openOutput env' conf.core {} h o = .done a h' o' ∧ StepsOf h opening h'
  copied : commands copying = []
  closed : closing = [] ∨ ∃ r h o a h' o', closeOutput env conf.core r h o = .done a h' o' ∧
    StepsOf h closing h'

theorem Forked.unique {h h' : Host} {l l' : List Str} (hl : Forked h l h') (hl' : Forked h l' h') :
    l = l' :=
  List.append_cancel_left (hl.symm.trans hl')

/-- **What `main` starts while the info stream is open**: filters of the core output, and programs
that are told about the core. -/
theorem InfoRun.commands {env env' : Env} {conf : Conf} {opening copying closing : List InfoStep}
    (hrun : InfoRun env env' conf opening copying closing) : ∃ fs ns,
      commands (opening ++ copying ++ closing) = fs ++ ns ∧ fs <+: conf.core.filter ∧
        ns.Sublist conf.core.notify := by
  obtain ⟨⟨h, o, a, h', o', hopen, hsteps⟩, hcopy, hclose⟩ := hrun
  obtain ⟨fs, hfs, hforks⟩ := (leads_openOutput_forks {}).of_done (fun _ _ => trivial) hopen
  have hopening := hsteps.forks.unique hforks
  have hclosing : (Crashinfo.commands closing).Sublist conf.core.notify := by
    rcases hclose with rfl | ⟨r, h, o, a, h', o', hclose, hsteps⟩
    · exact List.nil_sublist _
    · obtain ⟨ns, hns, hforks⟩ := (leads_closeOutput_forks r).of_done (fun _ _ => trivial) hclose
      rwa [hsteps.forks.unique hforks]
  refine ⟨Crashinfo.commands opening, Crashinfo.commands closing, ?_, hopening ▸ hfs, hclosing⟩
  rw [Crashinfo.commands, List.filterMap_append, List.filterMap_append, ← Crashinfo.commands,
    ← Crashinfo.commands, ← Crashinfo.commands, hcopy, List.append_nil]

/-- **When every byte of the info stream is written once**: whenever a program is started, the
buffer is empty, or `execvp` does not fail and what the child says about the start fits into the
buffer. -/
theorem info_once_iff {cap : Nat} (pol : Policy cap) (info : Int) (strerror : Errno → Str)
    (steps : List InfoStep) :
    EmittedOnce pol info strerror steps ↔ ∀ before cmd failed after,
      steps = before ++ .fork cmd failed :: after →
        (infoSteps pol info strerror before).file.pending = [] ∨
        failed = none ∧ (infoSteps pol info strerror before).file.pending.length +
          startingLength info cmd ≤ cap := by
  have hall : AllSpared pol info strerror steps ↔ ∀ before cmd failed after,
      steps = before ++ .fork cmd failed :: after →
        (infoSteps pol info strerror before).Spared info (.fork cmd failed) := by
    constructor
    · exact fun h before cmd failed after heq => h before _ after heq
    · intro h before e after heq
      cases e with
      | event e => trivial
      | flush => trivial
      | fork cmd failed => exact h before cmd failed after heq
  refine Iff.trans ?_ hall
  rcases infoSteps_cases pol info strerror steps with ⟨h, hclean⟩ | ⟨h, hdouble⟩
  · exact iff_of_true (emittedOnce_of_clean hclean) h
  · exact iff_of_false (not_emittedOnce_of_doubled hdouble) h

/-- A wild card of the core output that means nothing, and a filter that is not there: the notice
is still in the buffer when the filter is started. -/
theorem not_info_once :
    let env := Env.plain 1 (some (lit "/x"))
    let conf : Conf :=
      { core := { output := some (lit "/c@x"), exist := .append, filter := [lit "/f"] } }
    let notice : Message := (.notice, unknownNotice (ch 'x') (lit "/c@x"))
    let steps : List InfoStep := [.event (.log notice), .fork (lit "/f") (some .enoent)]
    InfoRun env env conf steps [] [] ∧
      ∀ pol : Policy outBufsize, ¬EmittedOnce pol conf.log.info env.strerror steps := by
  intro env conf notice steps
  have hopen : (openOutput env conf.core {} (Host.std []) [.ok, .ok, .ok, .ok, .ok]).After
      fun _ h' => h'.log = [notice] ∧ h'.kids.map Kid.cmd = [lit "/f"] := by
    decide +kernel
  obtain ⟨a, h', o', hrun, hlog, hkids⟩ := hopen.exists
  refine ⟨⟨⟨_, _, a, h', o', hrun, hkids, [notice], hlog, List.Sublist.refl _⟩, rfl, Or.inl rfl⟩, ?_⟩
  intro pol hall
  rcases infoSteps_cases pol conf.log.info env.strerror steps with ⟨hspared, -⟩ | ⟨-, hdouble⟩
  · have hpending := length_pending_puts pol ((Event.log notice).puts conf.log.info)
      { file := .empty } (by decide)
    rcases hspared [.event (.log notice)] _ [] rfl with hnil | ⟨hnone, -⟩
    · have hzero := hpending.symm.trans (congrArg List.length hnil)
      exact absurd hzero (by decide)
    · cases hnone
  · exact not_emittedOnce_of_doubled hdouble hall

end Crashinfo
