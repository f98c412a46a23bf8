import Crashinfo.Info.Dump

/-!
# Messages in the document

A message goes into the info stream as a comment.  A reader who passes over
comments should not notice which messages are let through, so every message has
to begin a line, and all of its lines have to be comments.

`Logged clean l` says of a part `l` of the document what the two thresholds on
either side of `err` make of it, and that nobody notices just if `clean`.  It
holds of the calls one by one, and of a part if it holds of what the part
consists of.  The one message amid a line is about a file of `proc_dump` that
cannot be opened (`logged_dumpFile`); a further line of a message that is no
comment can only come from `conf.proc.path` or the text of an error.
-/

namespace Crashinfo

open Lines

/-! ### Comments -/

def Ignored (line : Str) : Prop := line = [] ∨ line.head? = some (ch '#')

instance (line : Str) : Decidable (Ignored line) := inferInstanceAs (Decidable (_ ∨ _))

/-- What is left of a stream without empty lines and comments. -/
def remaining (s : Str) : List Str := kept (ch '\n') (fun c => c ≠ ch '#') s

/-- Every message that is let through begins a line, and its lines are comments. -/
def InPlace (info : Int) (l : List Event) : Prop :=
  ∀ a m b, l = a ++ .log m :: b → info ≥ m.1.level →
    Ended (ch '\n') (stream info a) ∧ ∀ line ∈ m.comment.splitOn (ch '\n'), Ignored line

def Commented (text : Str) : Prop := ∀ line ∈ (text.splitOn (ch '\n')).tail, Ignored line

instance (text : Str) : Decidable (Commented text) := inferInstanceAs (Decidable (∀ line ∈ _, _))

theorem matters_iff (line : Str) :
    Matters (fun c => c ≠ ch '#') line = false ↔ Ignored line := by
  cases line with
  | nil => exact iff_of_true rfl (Or.inl rfl)
  | cons c line => simp [Matters, Ignored]

/-- Nothing is left of a text just if all of its lines are comments. -/
theorem remaining_eq_nil_iff (s : Str) :
    remaining s = [] ↔ ∀ line ∈ s.splitOn (ch '\n'), Ignored line := by
  rw [remaining, kept_eq_nil_iff]
  exact forall₂_congr fun line _ => matters_iff line

/-- What stands in front of a message is without a line end. -/
theorem label_plain (p : Prio) : ch '\n' ∉ lit "# " ++ p.label := by
  cases p <;> decide

theorem lines_comment (m : Message) :
    (∀ line ∈ m.comment.splitOn (ch '\n'), Ignored line) ↔ Commented m.2 := by
  have hsplit : m.comment.splitOn (ch '\n') =
      (m.2.splitOn (ch '\n')).modifyHead (lit "# " ++ m.1.label ++ ·) ++ [[]] := by
    rw [← splitOn_append (label_plain m.1)]
    exact List.splitOn_append_cons_self _ []
  rw [hsplit, Commented]
  cases h : m.2.splitOn (ch '\n') with
  | nil => exact absurd h (List.splitOn_ne_nil _ _)
  | cons line rest =>
    rw [List.modifyHead_cons, List.cons_append, List.forall_mem_cons, List.forall_mem_append,
      List.tail_cons, List.forall_mem_singleton]
    exact ⟨fun hl => hl.2.1, fun hl => ⟨Or.inr rfl, hl, Or.inl rfl⟩⟩

theorem remaining_comment (m : Message) : remaining m.comment = [] ↔ Commented m.2 :=
  (remaining_eq_nil_iff _).trans (lines_comment m)

theorem ended_comment (m : Message) : Ended (ch '\n') m.comment :=
  Ended.behind (b := lit "\n") (by decide) (by decide) _

theorem remaining_append {a : Str} (ha : Ended (ch '\n') a) (b : Str) :
    remaining (a ++ b) = remaining a ++ remaining b := kept_append ha b

/-- A text in front of the further lines makes no difference to them. -/
theorem commented_append {p : Str} (hp : ch '\n' ∉ p) (text : Str) :
    Commented (p ++ text) ↔ Commented text := by
  rw [Commented, tail_splitOn_append hp, Commented]

theorem commented_of_plain {text : Str} (h : ch '\n' ∉ text) : Commented text := by
  rw [Commented, List.splitOn_eq_singleton h]
  exact nofun

/-! ### Parts of the document -/

/-- What two thresholds on either side of `err` make of a part of the document;
nobody notices which one it is just if `clean`. -/
structure Logged (clean : Prop) (l : List Event) : Prop where
  ended : ∀ info, Ended (ch '\n') (stream info l)
  low : ∀ info < 3, remaining (stream info l) = remaining (stream 0 l)
  high : ∀ info ≥ 3, remaining (stream info l) = remaining (stream 3 l)
  same : clean → remaining (stream 3 l) = remaining (stream 0 l)
  more : ¬clean → (remaining (stream 0 l)).length < (remaining (stream 3 l)).length
  inPlace : ∀ info, InPlace info l ↔ info < 3 ∨ clean

theorem Logged.congr {clean clean' : Prop} {l : List Event} (h : Logged clean l)
    (hiff : clean ↔ clean') : Logged clean' l := by
  rwa [← propext hiff]

theorem Logged.length_le {clean : Prop} {l : List Event} (h : Logged clean l) :
    (remaining (stream 0 l)).length ≤ (remaining (stream 3 l)).length := by
  by_cases hc : clean
  · rw [h.same hc]
  · exact Nat.le_of_lt (h.more hc)

theorem inPlace_append {info : Int} {l : List Event} (hl : Ended (ch '\n') (stream info l))
    (l' : List Event) : InPlace info (l ++ l') ↔ InPlace info l ∧ InPlace info l' := by
  constructor
  · intro h
    constructor
    · intro a m b hab
      exact h a m (b ++ l') (by rw [hab, List.append_assoc, List.cons_append])
    · intro a m b hab hm
      obtain ⟨hend, hlines⟩ := h (l ++ a) m b (by rw [hab, List.append_assoc]) hm
      rw [stream_append, hl.append_iff] at hend
      exact ⟨hend, hlines⟩
  · rintro ⟨h, h'⟩ a m b hab hm
    rcases List.append_eq_append_iff.mp hab with ⟨c, rfl, hc⟩ | ⟨c, rfl, hc⟩
    · obtain ⟨hend, hlines⟩ := h' c m b hc hm
      rw [stream_append, hl.append_iff]
      exact ⟨hend, hlines⟩
    · cases c with
      | nil =>
        rw [List.append_nil] at hl
        exact ⟨hl, (h' [] m b hc.symm hm).2⟩
      | cons e c =>
        obtain ⟨rfl, rfl⟩ := List.cons.inj hc
        exact h a m c rfl hm

theorem Logged.append {clean clean' : Prop} {l l' : List Event} (h : Logged clean l)
    (h' : Logged clean' l') : Logged (clean ∧ clean') (l ++ l') := by
  have happ : ∀ info, remaining (stream info (l ++ l')) =
      remaining (stream info l) ++ remaining (stream info l') := by
    intro info
    rw [stream_append, remaining_append (h.ended info)]
  constructor
  · intro info
    rw [stream_append]
    exact (h.ended info).append (h'.ended info)
  · intro info hinfo
    rw [happ, happ, h.low info hinfo, h'.low info hinfo]
  · intro info hinfo
    rw [happ, happ, h.high info hinfo, h'.high info hinfo]
  · intro hc
    rw [happ, happ, h.same hc.1, h'.same hc.2]
  · intro hc
    have hle := h.length_le
    have hle' := h'.length_le
    rw [happ, happ, List.length_append, List.length_append]
    rcases not_and_or.mp hc with hc | hc
    · have := h.more hc
      omega
    · have := h'.more hc
      omega
  · intro info
    rw [inPlace_append (h.ended info), h.inPlace, h'.inPlace, or_and_left]

theorem logged_nil : Logged True [] where
  ended := fun _ => ended_nil
  low := fun _ _ => rfl
  high := fun _ _ => rfl
  same := fun _ => rfl
  more := fun h => absurd trivial h
  inPlace := fun _ => iff_of_true (fun a _ _ h => by cases a <;> cases h) (Or.inr trivial)

theorem logged_flatMap {α : Type} {clean : α → Prop} {f : α → List Event}
    (h : ∀ x, Logged (clean x) (f x)) (l : List α) : Logged (∀ x ∈ l, clean x) (l.flatMap f) := by
  induction l with
  | nil => exact logged_nil.congr (iff_of_true trivial nofun)
  | cons x l ih =>
    rw [List.flatMap_cons]
    exact ((h x).append ih).congr List.forall_mem_cons.symm

/-! ### The two kinds of calls -/

theorem inPlace_puts (info : Int) (l : List Str) : InPlace info (puts l) := by
  intro a m b h
  have hm : Event.log m ∈ puts l := by
    rw [h]
    simp
  obtain ⟨s, -, hs⟩ := List.mem_map.mp hm
  cases hs

def EndsLine (s : Str) : Prop := Ended (ch '\n') s ∧ s ≠ []

instance (s : Str) : Decidable (EndsLine s) := inferInstanceAs (Decidable (_ ∧ _))

theorem endsLine_append (s : Str) : EndsLine (s ++ lit "\n") :=
  ⟨Ended.behind (by decide) (by decide) s, by simp [lit]⟩

theorem logged_puts (l : List Str) {l' : List Str} (hne : l' ≠ []) (h : ∀ s ∈ l', EndsLine s) :
    Logged True (puts (l ++ l')) where
  ended := fun info => by
    rw [stream_puts]
    apply ended_flatten
    intro s hs
    rw [List.getLast?_append_of_ne_nil l hne] at hs
    exact h s (List.mem_of_getLast? hs)
  low := fun _ _ => by rw [stream_puts, stream_puts]
  high := fun _ _ => by rw [stream_puts, stream_puts]
  same := fun _ => by rw [stream_puts, stream_puts]
  more := fun hn => absurd trivial hn
  inPlace := fun info => iff_of_true (inPlace_puts info (l ++ l')) (Or.inr trivial)

theorem logged_line (l : List Str) {s : Str} (h : EndsLine s) : Logged True (puts (l ++ [s])) :=
  logged_puts l (List.cons_ne_nil s []) (List.forall_mem_singleton.mpr h)

theorem inPlace_log (info : Int) (m : Message) :
    InPlace info [.log m] ↔ (info ≥ m.1.level → Commented m.2) := by
  constructor
  · intro h hm
    exact (lines_comment m).mp (h [] m [] rfl hm).2
  · intro h a m' b hab hm
    cases a with
    | nil =>
      obtain ⟨he, -⟩ := List.cons.inj hab
      cases he
      exact ⟨ended_nil, (lines_comment m).mpr (h hm)⟩
    | cons e a =>
      have hnil := (List.cons.inj hab).2
      simp at hnil

theorem text_err_low {info : Int} (hi : info < 3) (text : Str) :
    Event.text info (.log (.err, text)) = [] := by
  have hn : ¬info ≥ Prio.err.level := not_le.mpr hi
  rw [Event.text, if_neg hn]

theorem text_err_high {info : Int} (hi : info ≥ 3) (text : Str) :
    Event.text info (.log (.err, text)) = Message.comment (.err, text) := by
  have hm : info ≥ Prio.err.level := hi
  rw [Event.text, if_pos hm]

theorem logged_err (text : Str) : Logged (Commented text) [.log (.err, text)] := by
  have hlow : ∀ info < 3, stream info [.log (.err, text)] = [] := by
    intro info hinfo
    rw [stream_cons, text_err_low hinfo]
    rfl
  have hhigh : ∀ info ≥ 3, stream info [.log (.err, text)] = Message.comment (.err, text) := by
    intro info hinfo
    rw [stream_cons, text_err_high hinfo, stream_nil, List.append_nil]
  constructor
  · intro info
    rcases lt_or_ge info 3 with hi | hi
    · rw [hlow info hi]
      exact ended_nil
    · rw [hhigh info hi]
      exact ended_comment _
  · intro info hi
    rw [hlow info hi, hlow 0 (by decide)]
  · intro info hi
    rw [hhigh info hi, hhigh 3 (by decide)]
  · intro hc
    rw [hlow 0 (by decide), hhigh 3 (by decide), (remaining_comment (.err, text)).mpr hc]
    rfl
  · intro hc
    rw [hlow 0 (by decide), hhigh 3 (by decide)]
    exact List.length_pos_of_ne_nil fun h => hc ((remaining_comment (.err, text)).mp h)
  · intro info
    rw [inPlace_log]
    constructor
    · intro h
      exact (lt_or_ge info 3).imp_right h
    · intro h hm
      exact h.resolve_left (not_lt.mpr hm)

/-- A warning behind a line end, with nothing but comments. -/
theorem logged_warn {text : Str} (h : Commented text) : Logged True [.log (.warn, text)] := by
  have hnone : ∀ info, remaining (stream info [.log (.warn, text)]) = [] := by
    intro info
    rw [stream_cons, stream_nil, List.append_nil, Event.text]
    split
    · exact (remaining_comment (.warn, text)).mpr h
    · rfl
  constructor
  · intro info
    rw [stream_cons, stream_nil, List.append_nil, Event.text]
    split
    · exact ended_comment _
    · exact ended_nil
  · intro info _
    rw [hnone, hnone]
  · intro info _
    rw [hnone, hnone]
  · intro _
    rw [hnone, hnone]
  · exact fun hn => absurd trivial hn
  · intro info
    exact iff_of_true ((inPlace_log info _).mpr fun _ => h) (Or.inr trivial)

end Crashinfo
