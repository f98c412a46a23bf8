import Crashinfo.Host

/-!
# The messages

`logmsg` sets a bit of `exitcode`, and writes the message wherever the threshold
lets it through.  So the exit status is one of the messages alone, whatever the
thresholds were at each of them (`exitcode_logAll`).
-/

namespace Crashinfo

def Prio.level : Prio → Int
  | .crit => 2
  | .err => 3
  | .warn => 4
  | .notice => 5
  | .info => 6
  | .dbg => 7

/-- What is added to `exitcode`. -/
def Prio.code : Prio → Nat
  | .crit => 0x4
  | .err => 0x2
  | .warn => 0x1
  | _ => 0

def Prio.label : Prio → Str
  | .crit => lit "CRIT: "
  | .err => lit "ERR:  "
  | .warn => lit "WARN: "
  | .notice => lit "NOTI: "
  | .info => lit "INFO: "
  | .dbg => lit "DBG:  "

abbrev Message := Prio × Str

structure Logs where
  exitcode : Nat := 0
  stderr : Str := []
  syslog : List Message := []
  /-- `run.info.output` -/
  info : Str := []

def Message.comment (m : Message) : Str := lit "# " ++ m.1.label ++ m.2 ++ lit "\n"

/-- `logmsg`; `output` says whether there is a `run.info.output`. -/
def Logs.logmsg (c : ConfLog) (output : Bool) (m : Message) (l : Logs) : Logs where
  exitcode := l.exitcode ||| m.1.code
  stderr := if c.stderr ≥ m.1.level then l.stderr ++ (m.1.label ++ m.2 ++ lit "\n") else l.stderr
  syslog := if c.syslog ≥ m.1.level then l.syslog ++ [m] else l.syslog
  info := if c.info ≥ m.1.level ∧ output then l.info ++ Message.comment m else l.info

/-- One of the sinks takes messages of the priority `p`. -/
def ConfLog.prints (c : ConfLog) (output : Bool) (p : Prio) : Bool :=
  decide (c.stderr ≥ p.level) || decide (c.syslog ≥ p.level) ||
    decide (c.info ≥ p.level) && output

/-- A message that no sink takes is not even put together. -/
theorem Logs.logmsg_of_not_prints {c : ConfLog} {output : Bool} {m : Message}
    (h : c.prints output m.1 = false) (l : Logs) :
    l.logmsg c output m = { l with exitcode := l.exitcode ||| m.1.code } := by
  simp only [ConfLog.prints, Bool.or_eq_false_iff, Bool.and_eq_false_iff, decide_eq_false_iff_not]
    at h
  obtain ⟨⟨hstderr, hsyslog⟩, hinfo⟩ := h
  have hno : ¬(c.info ≥ m.1.level ∧ output = true) := by
    rintro ⟨hle, ho⟩
    rcases hinfo with hn | hn
    · exact hn hle
    · exact absurd ho (by rw [hn]; decide)
  rw [Logs.logmsg, if_neg hstderr, if_neg hsyslog, if_neg hno]

/-- All messages, each with what `logmsg` has found. -/
def logAll (l : List ((ConfLog × Bool) × Message)) : Logs :=
  l.foldl (fun logs m => logs.logmsg m.1.1 m.1.2 m.2) {}

def exitcode (l : List Message) : Nat := l.foldl (fun code m => code ||| m.1.code) 0

/-- **The thresholds do not matter for the exit status.** -/
theorem exitcode_logAll (l : List ((ConfLog × Bool) × Message)) :
    (logAll l).exitcode = exitcode (l.map Prod.snd) := by
  have hfold : ∀ (l : List ((ConfLog × Bool) × Message)) (logs : Logs),
      (l.foldl (fun logs m => logs.logmsg m.1.1 m.1.2 m.2) logs).exitcode =
        (l.map Prod.snd).foldl (fun code m => code ||| m.1.code) logs.exitcode := by
    intro l
    induction l with
    | nil => exact fun _ => rfl
    | cons m l ih => exact fun logs => ih (logs.logmsg m.1.1 m.1.2 m.2)
  exact hfold l {}

def Message.Bad (m : Message) : Prop := m.1.code ≠ 0

instance (m : Message) : Decidable m.Bad := inferInstanceAs (Decidable (_ ≠ _))

theorem exitcode_append (l l' : List Message) :
    exitcode (l ++ l') = exitcode l ||| exitcode l' := by
  have hfold : ∀ (l : List Message) (c : Nat),
      l.foldl (fun code m => code ||| m.1.code) c = c ||| exitcode l := by
    intro l
    induction l with
    | nil => exact fun c => (Nat.or_zero c).symm
    | cons m l ih =>
      intro c
      rw [exitcode, List.foldl_cons, List.foldl_cons, ih, ih, Nat.zero_or, Nat.or_assoc]
  rw [exitcode, List.foldl_append, hfold]
  rfl

theorem exitcode_cons (m : Message) (l : List Message) :
    exitcode (m :: l) = m.1.code ||| exitcode l := by
  rw [← List.singleton_append, exitcode_append, exitcode, List.foldl_cons, List.foldl_nil,
    Nat.zero_or]

/-- **The exit status is zero just if nothing bad was logged.** -/
theorem exitcode_eq_zero (l : List Message) : exitcode l = 0 ↔ ∀ m ∈ l, ¬m.Bad := by
  induction l with
  | nil => exact iff_of_true rfl nofun
  | cons m l ih =>
    rw [exitcode_cons, Nat.or_eq_zero_iff, ih, List.forall_mem_cons]
    exact and_congr_left' (Decidable.not_not.symm)

end Crashinfo
