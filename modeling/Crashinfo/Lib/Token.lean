import Mathlib.Data.List.DropRight

/-!
# Words between delimiters

`tokens d l` are the words of `l`, that is, what stands between its delimiters
and is not empty.  `next` is the step a scanner takes: it skips the delimiters
in front, and stops behind the delimiter that ends the word (`tokens_of_next`).
A list with one word is that word with delimiters around it
(`tokens_eq_singleton_iff`).
-/

namespace Token

variable {α : Type} {d : α → Bool}

/-- What stands between the delimiters, unless it is empty. -/
def tokens (d : α → Bool) (l : List α) : List (List α) :=
  (l.splitOnP d).filter fun t => !t.isEmpty

/-- The next word, and what is left of the list behind the delimiter that ends it. -/
def next (d : α → Bool) (l : List α) : Option (List α × List α) :=
  match l.dropWhile d with
  | [] => none
  | c :: l => some (c :: l.takeWhile (!d ·), (l.dropWhile (!d ·)).tail)

def Blank (d : α → Bool) (l : List α) : Prop := ∀ c ∈ l, d c = true

instance (l : List α) : Decidable (Blank d l) := inferInstanceAs (Decidable (∀ c ∈ l, _))

structure Word (d : α → Bool) (l : List α) : Prop where
  ne_nil : l ≠ []
  plain : ∀ c ∈ l, d c = false

instance (l : List α) : Decidable (Word d l) :=
  decidable_of_iff (l ≠ [] ∧ ∀ c ∈ l, d c = false)
    ⟨fun h => ⟨h.1, h.2⟩, fun h => ⟨h.ne_nil, h.plain⟩⟩

theorem forall_mem_head_cons {p : α → Prop} {c : α} (hc : p c) (l : List α) :
    ∀ x ∈ (c :: l).head?, p x := by
  intro x hx
  rwa [← Option.some.inj hx]

/-- What begins with a word does not begin with a delimiter. -/
theorem Word.head_append {w : List α} (hw : Word d w) (s : List α) :
    ∀ c ∈ (w ++ s).head?, d c = false := by
  intro c hc
  rw [List.head?_append_of_ne_nil w hw.ne_nil] at hc
  exact hw.plain c (List.mem_of_head? hc)

/-- A run of elements of one kind stops at the first one of another kind. -/
theorem span_append {p : α → Bool} {a s : List α} (ha : ∀ c ∈ a, p c = true)
    (hs : ∀ c ∈ s.head?, p c = false) :
    (a ++ s).takeWhile p = a ∧ (a ++ s).dropWhile p = s := by
  have hstop : s.takeWhile p = [] ∧ s.dropWhile p = s := by
    cases s with
    | nil => exact ⟨rfl, rfl⟩
    | cons c s =>
      have hc : ¬p c = true := by
        rw [hs c rfl]
        exact Bool.false_ne_true
      exact ⟨List.takeWhile_cons_of_neg hc, List.dropWhile_cons_of_neg hc⟩
  rw [List.takeWhile_append_of_pos ha, List.dropWhile_append_of_pos ha, hstop.1, hstop.2,
    List.append_nil]
  exact ⟨rfl, rfl⟩

@[simp] theorem tokens_nil : tokens d [] = [] := rfl

theorem tokens_cons_of_delim {c : α} (hc : d c = true) (l : List α) :
    tokens d (c :: l) = tokens d l := by
  rw [tokens, List.splitOnP_cons_eq_if_modifyHead, if_pos hc, List.filter_cons_of_neg (by simp)]
  rfl

theorem tokens_blank_append {w : List α} (hw : Blank d w) (l : List α) :
    tokens d (w ++ l) = tokens d l := by
  induction w with
  | nil => rfl
  | cons c w ih =>
    obtain ⟨hc, hrest⟩ := List.forall_mem_cons.mp hw
    rw [List.cons_append, tokens_cons_of_delim hc, ih hrest]

theorem tokens_of_blank {w : List α} (hw : Blank d w) : tokens d w = [] := by
  have h := tokens_blank_append hw []
  rwa [List.append_nil] at h

theorem tokens_word {t : List α} (ht : Word d t) : tokens d t = [t] := by
  rw [tokens, List.splitOnP_eq_singleton ht.plain, List.filter_cons_of_pos (by simp [ht.ne_nil])]
  rfl

theorem tokens_word_append {t : List α} (ht : Word d t) {c : α} (hc : d c = true) (l : List α) :
    tokens d (t ++ c :: l) = t :: tokens d l := by
  rw [tokens, List.splitOnP_append_cons_of_forall_mem ht.plain c hc,
    List.filter_cons_of_pos (by simp [ht.ne_nil])]
  rfl

theorem tokens_append_cons {c : α} (hc : d c = true) (l r : List α) :
    tokens d (l ++ c :: r) = tokens d l ++ tokens d r := by
  rw [tokens, List.splitOnP_append_cons l r hc, List.filter_append]
  rfl

theorem tokens_append_blank {w : List α} (hw : Blank d w) (l : List α) :
    tokens d (l ++ w) = tokens d l := by
  cases w with
  | nil => rw [List.append_nil]
  | cons c w =>
    obtain ⟨hc, hrest⟩ := List.forall_mem_cons.mp hw
    rw [tokens_append_cons hc, tokens_of_blank hrest, List.append_nil]

/-! ### Scanning -/

theorem next_eq_none {l : List α} (h : Blank d l) : next d l = none := by
  rw [next, List.dropWhile_eq_nil_iff.mpr h]

theorem dropWhile_blank_word {w t : List α} (hw : Blank d w) (ht : Word d t) (r : List α) :
    (w ++ (t ++ r)).dropWhile d = t ++ r := by
  obtain ⟨hne, hplain⟩ := ht
  cases t with
  | nil => exact absurd rfl hne
  | cons c t =>
    rw [List.dropWhile_append_of_pos hw, List.cons_append, List.dropWhile_cons_of_neg]
    rw [hplain c List.mem_cons_self]
    exact Bool.false_ne_true

theorem next_word {w t : List α} (hw : Blank d w) (ht : Word d t) :
    next d (w ++ t) = some (t, []) := by
  have hdrop := dropWhile_blank_word hw ht []
  rw [List.append_nil] at hdrop
  obtain ⟨hne, hplain⟩ := ht
  have hall : ∀ a ∈ t, (!d a) = true := fun a ha => by rw [hplain a ha]; rfl
  cases t with
  | nil => exact absurd rfl hne
  | cons c t =>
    rw [next, hdrop]
    have ht := (List.forall_mem_cons.mp hall).2
    dsimp only
    rw [List.takeWhile_eq_self_iff.mpr ht, List.dropWhile_eq_nil_iff.mpr ht]
    rfl

theorem next_word_append {w t : List α} (hw : Blank d w) (ht : Word d t) {c : α} (hc : d c = true)
    (r : List α) : next d (w ++ (t ++ c :: r)) = some (t, r) := by
  have hdrop := dropWhile_blank_word hw ht (c :: r)
  obtain ⟨hne, hplain⟩ := ht
  have hall : ∀ a ∈ t, (!d a) = true := fun a ha => by rw [hplain a ha]; rfl
  cases t with
  | nil => exact absurd rfl hne
  | cons a t =>
    rw [next, hdrop]
    have ht := (List.forall_mem_cons.mp hall).2
    dsimp only [List.cons_append]
    have hc' : (!d c) = false := by rw [hc]; rfl
    rw [List.takeWhile_append_of_pos ht, List.dropWhile_append_of_pos ht,
      List.takeWhile_cons_of_neg (by rw [hc']; exact Bool.false_ne_true),
      List.dropWhile_cons_of_neg (by rw [hc']; exact Bool.false_ne_true), List.append_nil]
    rfl

/-- What a list looks like to a scanner: there is no word, or one that ends the
list, or one with a delimiter behind it. -/
theorem scan_cases (d : α → Bool) (l : List α) :
    Blank d l ∨ ∃ w t, Blank d w ∧ Word d t ∧
      (l = w ++ t ∨ ∃ c r, d c = true ∧ l = w ++ (t ++ c :: r)) := by
  have hl := List.takeWhile_append_dropWhile (p := d) (l := l)
  have hw : Blank d (l.takeWhile d) := fun c hc => List.mem_takeWhile_imp hc
  cases hd : l.dropWhile d with
  | nil => exact Or.inl (List.dropWhile_eq_nil_iff.mp hd)
  | cons c l' =>
    have hc : d c = false := by
      have := List.head_dropWhile_not d (l := l) (by rw [hd]; exact List.cons_ne_nil _ _)
      simpa [hd] using this
    have hl' := List.takeWhile_append_dropWhile (p := (!d ·)) (l := l')
    have ht : Word d (c :: l'.takeWhile (!d ·)) := by
      refine ⟨List.cons_ne_nil _ _, List.forall_mem_cons.mpr ⟨hc, fun a ha => ?_⟩⟩
      simpa using List.mem_takeWhile_imp ha
    refine Or.inr ⟨l.takeWhile d, c :: l'.takeWhile (!d ·), hw, ht, ?_⟩
    cases hr : l'.dropWhile (!d ·) with
    | nil =>
      rw [hr, List.append_nil] at hl'
      left
      rw [hl', ← hd, hl]
    | cons b r =>
      have hb : d b = true := by
        have := List.head_dropWhile_not (!d ·) (l := l') (by rw [hr]; exact List.cons_ne_nil _ _)
        simpa [hr] using this
      refine Or.inr ⟨b, r, hb, ?_⟩
      rw [List.cons_append, ← hr, hl', ← hd, hl]

theorem next_eq_none_iff {l : List α} : next d l = none ↔ Blank d l := by
  refine ⟨fun h => ?_, next_eq_none⟩
  rcases scan_cases d l with hb | ⟨w, t, hw, ht, rfl | ⟨c, r, hc, rfl⟩⟩
  · exact hb
  · rw [next_word hw ht] at h
    cases h
  · rw [next_word_append hw ht hc] at h
    cases h

/-- **A scanner finds one word after the other.** -/
theorem tokens_of_next {l t r : List α} (h : next d l = some (t, r)) :
    Word d t ∧ tokens d l = t :: tokens d r := by
  rcases scan_cases d l with hb | ⟨w, t', hw, ht, rfl | ⟨c, r', hc, rfl⟩⟩
  · rw [next_eq_none hb] at h
    cases h
  · rw [next_word hw ht] at h
    cases h
    rw [tokens_blank_append hw, tokens_word ht]
    exact ⟨ht, rfl⟩
  · rw [next_word_append hw ht hc] at h
    cases h
    rw [tokens_blank_append hw, tokens_word_append ht hc]
    exact ⟨ht, rfl⟩

/-- The first word begins where the white space ends. -/
theorem head_dropWhile_of_tokens {l t : List α} {ts : List (List α)} (h : tokens d l = t :: ts) :
    ∃ c, t.head? = some c ∧ (l.dropWhile d).head? = some c := by
  have hword : ∀ {w t' r : List α}, Blank d w → Word d t' → l = w ++ (t' ++ r) →
      ∃ c, t'.head? = some c ∧ (l.dropWhile d).head? = some c := by
    intro w t' r hw ht hl
    rw [hl, dropWhile_blank_word hw ht]
    cases t' with
    | nil => exact absurd rfl ht.ne_nil
    | cons c t' => exact ⟨c, rfl, rfl⟩
  rcases scan_cases d l with hb | ⟨w, t', hw, ht, rfl | ⟨c, r, hc, rfl⟩⟩
  · rw [tokens_of_blank hb] at h
    cases h
  · rw [tokens_blank_append hw, tokens_word ht] at h
    cases h
    exact hword hw ht (by rw [List.append_nil])
  · rw [tokens_blank_append hw, tokens_word_append ht hc] at h
    cases h
    exact hword hw ht rfl

theorem tokens_eq_nil_iff {l : List α} : tokens d l = [] ↔ Blank d l := by
  refine ⟨fun h => next_eq_none_iff.mp ?_, tokens_of_blank⟩
  cases hn : next d l with
  | none => rfl
  | some p =>
    rw [(tokens_of_next hn).2] at h
    cases h

/-- The only word of a list has delimiters around it. -/
theorem tokens_eq_singleton_iff {l t : List α} :
    tokens d l = [t] ↔ ∃ w w', Blank d w ∧ Blank d w' ∧ Word d t ∧ l = w ++ (t ++ w') := by
  constructor
  · intro h
    rcases scan_cases d l with hb | ⟨w, t', hw, ht, rfl | ⟨c, r, hc, rfl⟩⟩
    · rw [tokens_of_blank hb] at h
      cases h
    · rw [tokens_blank_append hw, tokens_word ht] at h
      cases h
      exact ⟨w, [], hw, nofun, ht, by rw [List.append_nil]⟩
    · rw [tokens_blank_append hw, tokens_word_append ht hc] at h
      obtain ⟨rfl, hr⟩ := List.cons.inj h
      exact ⟨w, c :: r, hw, List.forall_mem_cons.mpr ⟨hc, tokens_eq_nil_iff.mp hr⟩, ht, rfl⟩
  · rintro ⟨w, w', hw, hw', ht, rfl⟩
    rw [tokens_blank_append hw]
    cases w' with
    | nil => rw [List.append_nil, tokens_word ht]
    | cons c w' =>
      obtain ⟨hc, hrest⟩ := List.forall_mem_cons.mp hw'
      rw [tokens_word_append ht hc, tokens_of_blank hrest]

/-! ### The end of a list -/

def chomp (d : α → Bool) (l : List α) : List α := l.rdropWhile d

structure Trimmed (d : α → Bool) (l : List α) : Prop where
  ne_nil : l ≠ []
  head : ∀ c ∈ l.head?, d c = false
  last : ∀ c ∈ l.getLast?, d c = false

instance (l : List α) : Decidable (Trimmed d l) :=
  decidable_of_iff (l ≠ [] ∧ (∀ c ∈ l.head?, d c = false) ∧ ∀ c ∈ l.getLast?, d c = false)
    ⟨fun h => ⟨h.1, h.2.1, h.2.2⟩, fun h => ⟨h.ne_nil, h.head, h.last⟩⟩

theorem Trimmed.not_blank {l : List α} (h : Trimmed d l) : ¬Blank d l := by
  intro hb
  obtain ⟨c, l', rfl⟩ := List.exists_cons_of_ne_nil h.ne_nil
  have hc := h.head c rfl
  rw [hb c List.mem_cons_self] at hc
  cases hc

theorem chomp_append_blank {w : List α} (hw : Blank d w) (l : List α) :
    chomp d (l ++ w) = chomp d l := by
  induction w using List.reverseRecOn with
  | nil => rw [List.append_nil]
  | append_singleton w c ih =>
    obtain ⟨hrest, hc⟩ := List.forall_mem_append.mp hw
    rw [← List.append_assoc, chomp, List.rdropWhile_concat_pos _ _ _ (hc c (by simp))]
    exact ih hrest

theorem Trimmed.chomp_eq {l : List α} (h : Trimmed d l) : chomp d l = l := by
  refine List.rdropWhile_eq_self_iff.mpr fun hl => ?_
  rw [h.last _ (List.getLast?_eq_some_getLast hl)]
  exact Bool.false_ne_true

def trim (d : α → Bool) (l : List α) : List α := chomp d (l.dropWhile d)

theorem trim_pad {w v w' : List α} (hw : Blank d w) (hv : Trimmed d v) (hw' : Blank d w') :
    trim d (w ++ (v ++ w')) = v := by
  have hdrop : (w ++ (v ++ w')).dropWhile d = v ++ w' := by
    rw [List.dropWhile_append_of_pos hw]
    obtain ⟨hne, hhead, -⟩ := hv
    cases v with
    | nil => exact absurd rfl hne
    | cons c v =>
      rw [List.cons_append, List.dropWhile_cons_of_neg]
      rw [hhead c rfl]
      exact Bool.false_ne_true
  rw [trim, hdrop, chomp_append_blank hw', hv.chomp_eq]

theorem Trimmed.trim_eq {l : List α} (h : Trimmed d l) : trim d l = l := by
  have hpad : trim d ([] ++ (l ++ [])) = l := trim_pad nofun h nofun
  rwa [List.nil_append, List.append_nil] at hpad

theorem tokens_trim (l : List α) : tokens d (trim d l) = tokens d l := by
  have hl := List.takeWhile_append_dropWhile (p := d) (l := l)
  have hsplit : trim d l ++ (l.dropWhile d).rtakeWhile d = l.dropWhile d :=
    List.rdropWhile_append_rtakeWhile
  conv_rhs => rw [← hl, ← hsplit]
  rw [tokens_blank_append fun c hc => List.mem_takeWhile_imp hc,
    tokens_append_blank fun c hc => List.mem_rtakeWhile_imp hc]

theorem Trimmed.exists_tokens {l : List α} (h : Trimmed d l) :
    ∃ t ts, tokens d l = t :: ts := by
  refine List.exists_cons_of_ne_nil ?_
  rw [Ne, tokens_eq_nil_iff]
  exact h.not_blank

theorem Word.trimmed {t : List α} (ht : Word d t) : Trimmed d t :=
  ⟨ht.ne_nil, fun c hc => ht.plain c (List.mem_of_mem_head? hc),
    fun c hc => ht.plain c (List.mem_of_getLast? hc)⟩

theorem Trimmed.eq_of_tokens {l t : List α} (h : Trimmed d l) (htok : tokens d l = [t]) :
    l = t := by
  obtain ⟨w, w', hw, hw', ht, hl⟩ := tokens_eq_singleton_iff.mp htok
  rw [← h.trim_eq, hl, trim_pad hw ht.trimmed hw']

/-- What a trimmed list ends in has no delimiters at its end. -/
theorem Trimmed.chomp_of_suffix {l s : List α} (h : Trimmed d l) (hs : s <:+ l) : chomp d s = s := by
  refine List.rdropWhile_eq_self_iff.mpr fun hne => ?_
  have hlast : s.getLast hne ∈ l.getLast? := by
    obtain ⟨r, rfl⟩ := hs
    rw [List.getLast?_append_of_ne_nil _ hne]
    exact List.getLast?_eq_some_getLast hne
  rw [h.last _ hlast]
  exact Bool.false_ne_true

/-- A list that is not blank is a trimmed one with delimiters around it. -/
theorem exists_trim {l : List α} (h : ¬Blank d l) :
    ∃ w w', Blank d w ∧ Blank d w' ∧ Trimmed d (trim d l) ∧ l = w ++ (trim d l ++ w') := by
  have hne : l.dropWhile d ≠ [] := fun hnil => h (List.dropWhile_eq_nil_iff.mp hnil)
  have hsplit : trim d l ++ (l.dropWhile d).rtakeWhile d = l.dropWhile d :=
    List.rdropWhile_append_rtakeWhile
  have hhead := List.head_dropWhile_not d hne
  have htrim : trim d l ≠ [] := by
    intro hnil
    have hall := List.rdropWhile_eq_nil_iff.mp hnil
    rw [hall _ (List.head_mem hne)] at hhead
    cases hhead
  refine ⟨l.takeWhile d, (l.dropWhile d).rtakeWhile d, fun c hc => List.mem_takeWhile_imp hc,
    fun c hc => List.mem_rtakeWhile_imp hc, ⟨htrim, ?_, ?_⟩, ?_⟩
  · intro c hc
    have hmem : c ∈ (l.dropWhile d).head? := by
      rw [← hsplit, List.head?_append_of_ne_nil _ htrim]
      exact hc
    rw [List.head?_eq_some_head hne] at hmem
    rw [← Option.some.inj hmem]
    exact hhead
  · intro c hc
    have hlast := List.rdropWhile_last_not d _ htrim
    rw [List.getLast?_eq_some_getLast htrim] at hc
    rw [← Option.some.inj hc]
    exact Bool.not_eq_true _ ▸ hlast
  · rw [hsplit, List.takeWhile_append_dropWhile]

end Token
