import Mathlib.Data.List.Basic

/-!
# Lines

A text is a list.  `lines` cuts it into its lines, each with its line end, and
`List.splitOn` cuts it at the line ends.  A reader of the text
looks at the first character of a line to see if the line matters (`good`), and
passes over empty lines; `kept` is what he reads.

Text that is put in behind a whole line does not touch the other lines
(`kept_append`).  Text with a line end in it that is put in amid a line makes two
of it, so there is more to read than before (`length_kept_lt`).
-/

namespace Lines

variable {α : Type} {sep : α}

def Ended (sep : α) (s : List α) : Prop := ∀ c ∈ s.getLast?, c = sep

instance [DecidableEq α] (s : List α) : Decidable (Ended sep s) :=
  inferInstanceAs (Decidable (∀ c ∈ _, _))

/-! ### The end of a text -/

@[simp] theorem ended_nil : Ended sep [] := nofun

theorem ended_iff {s : List α} : Ended sep s ↔ s = [] ∨ ∃ t, s = t ++ [sep] := by
  constructor
  · intro h
    rcases List.eq_nil_or_concat s with rfl | ⟨t, c, rfl⟩
    · exact Or.inl rfl
    · have hc : c = sep := h c (by simp)
      exact Or.inr ⟨t, by rw [hc, List.concat_eq_append]⟩
  · rintro (rfl | ⟨t, rfl⟩)
    · exact ended_nil
    · intro c hc
      rw [List.getLast?_concat] at hc
      exact (Option.some.inj hc).symm

theorem Ended.append_iff {a : List α} (ha : Ended sep a) (b : List α) :
    Ended sep (a ++ b) ↔ Ended sep b := by
  cases b with
  | nil => exact iff_of_true (by rwa [List.append_nil]) ended_nil
  | cons c b =>
    rw [Ended, Ended, List.getLast?_append_of_ne_nil a (List.cons_ne_nil c b)]

theorem Ended.append {a b : List α} (ha : Ended sep a) (hb : Ended sep b) : Ended sep (a ++ b) :=
  (ha.append_iff b).mpr hb

/-- The end is all that counts. -/
theorem Ended.behind {b : List α} (hb : Ended sep b) (h : b ≠ []) (a : List α) :
    Ended sep (a ++ b) := by
  rw [Ended, List.getLast?_append_of_ne_nil a h]
  exact hb

/-- Texts one after the other: it is the last one that counts. -/
theorem ended_flatten {l : List (List α)} (h : ∀ s ∈ l.getLast?, Ended sep s ∧ s ≠ []) :
    Ended sep l.flatten := by
  rcases List.eq_nil_or_concat l with rfl | ⟨l, s, rfl⟩
  · exact ended_nil
  · rw [List.concat_eq_append] at h ⊢
    obtain ⟨hs, hne⟩ := h s (List.getLast?_concat)
    rw [List.flatten_append, List.flatten_singleton]
    exact hs.behind hne _

/-! ### Cutting a text -/

theorem length_drop_lt {s : List α} (hs : s ≠ []) {k : Nat} (hk : 0 < k) :
    (s.drop k).length < s.length := by
  rw [List.length_drop]
  have := List.length_pos_of_ne_nil hs
  omega

section Cut

variable [DecidableEq α]

/-- The lines of a text, each with its line end; the last one may lack it. -/
def lines (sep : α) : List α → List (List α)
  | [] => []
  | c :: s =>
    if c = sep then [c] :: lines sep s
    else
      match lines sep s with
      | [] => [[c]]
      | l :: ls => (c :: l) :: ls

def lineLen (sep : α) (s : List α) : Nat := (s.takeWhile (· ≠ sep)).length + 1

theorem lineLen_cons_self (s : List α) : lineLen sep (sep :: s) = 1 := by
  rw [lineLen, List.takeWhile_cons_of_neg (by simp)]
  rfl

theorem lineLen_cons_of_ne {c : α} (hc : c ≠ sep) (s : List α) :
    lineLen sep (c :: s) = lineLen sep s + 1 := by
  rw [lineLen, List.takeWhile_cons_of_pos (by simpa using hc)]
  rfl

/-- **The first line, and the lines behind it.** -/
theorem lines_eq {s : List α} (hs : s ≠ []) :
    lines sep s = s.take (lineLen sep s) :: lines sep (s.drop (lineLen sep s)) := by
  induction s with
  | nil => exact absurd rfl hs
  | cons c s ih =>
    rw [lines]
    split
    · rename_i hc
      rw [hc, lineLen_cons_self]
      rfl
    · rename_i hc
      rw [lineLen_cons_of_ne hc, List.take_succ_cons, List.drop_succ_cons]
      by_cases hnil : s = []
      · subst hnil
        rfl
      · rw [ih hnil]

theorem lines_append_cons {l : List α} (hl : sep ∉ l) (s : List α) :
    lines sep (l ++ sep :: s) = (l ++ [sep]) :: lines sep s := by
  induction l with
  | nil => rw [List.nil_append, lines, if_pos rfl, List.nil_append]
  | cons c l ih =>
    rw [List.mem_cons, not_or] at hl
    rw [List.cons_append, lines, if_neg (Ne.symm hl.1), ih hl.2]
    rfl

/-- What stands behind the first characters of a line begins with the rest of it. -/
theorem lines_drop {s : List α} {k : Nat} (hk : k < (s.take (lineLen sep s)).length) :
    lines sep (s.drop k) = (s.take (lineLen sep s)).drop k :: lines sep (s.drop (lineLen sep s)) := by
  induction k generalizing s with
  | zero =>
    apply lines_eq
    rintro rfl
    exact absurd hk (Nat.not_lt_zero 0)
  | succ k ih =>
    cases s with
    | nil => exact absurd hk (Nat.not_lt_zero _)
    | cons c s =>
      have hc : c ≠ sep := by
        rintro rfl
        rw [lineLen_cons_self, List.length_take] at hk
        omega
      rw [lineLen_cons_of_ne hc, List.take_succ_cons, List.length_cons] at hk
      rw [lineLen_cons_of_ne hc, List.take_succ_cons, List.drop_succ_cons, List.drop_succ_cons,
        List.drop_succ_cons]
      exact ih (Nat.lt_of_succ_lt_succ hk)

theorem flatten_lines (s : List α) : (lines sep s).flatten = s := by
  induction s with
  | nil => rfl
  | cons c s ih =>
    rw [lines]
    split
    · rw [List.flatten_cons, ih]
      rfl
    · cases hl : lines sep s with
      | nil =>
        rw [hl] at ih
        rw [← ih]
        rfl
      | cons l ls =>
        rw [hl] at ih
        rw [← ih]
        rfl

theorem exists_of_mem_lines {s l : List α} (h : l ∈ lines sep s) :
    ∃ a, sep ∉ a ∧ (l = a ++ [sep] ∨ l = a) := by
  induction s generalizing l with
  | nil => exact absurd h List.not_mem_nil
  | cons c s ih =>
    rw [lines] at h
    split at h
    · rename_i hc
      rcases List.mem_cons.mp h with rfl | h
      · exact ⟨[], List.not_mem_nil, Or.inl (by rw [hc]; rfl)⟩
      · exact ih h
    · rename_i hc
      cases hs : lines sep s with
      | nil =>
        rw [hs] at h
        exact ⟨[c], by simpa using Ne.symm hc, Or.inr (List.mem_singleton.mp h)⟩
      | cons l' ls =>
        rw [hs] at h ih
        rcases List.mem_cons.mp h with rfl | h
        · obtain ⟨a, ha, hl⟩ := ih List.mem_cons_self
          refine ⟨c :: a, by simp [Ne.symm hc, ha], ?_⟩
          rcases hl with rfl | rfl
          · exact Or.inl rfl
          · exact Or.inr rfl
        · exact ih (List.mem_cons_of_mem l' h)

/-! ### Pieces of lines -/

section Pieces

variable {m n : Nat} {s : List α}

/-- The lines of a text, where a line of more than `m` characters is cut into pieces;
`n` pieces at most. -/
def pieces (sep : α) (m : Nat) : Nat → List α → List (List α)
  | 0, _ => []
  | n + 1, s =>
    if s = [] then []
    else s.take (min (lineLen sep s) m) :: pieces sep m n (s.drop (min (lineLen sep s) m))

theorem pieces_succ (hs : s ≠ []) (m n : Nat) :
    pieces sep m (n + 1) s =
      s.take (min (lineLen sep s) m) :: pieces sep m n (s.drop (min (lineLen sep s) m)) := by
  rw [pieces, if_neg hs]

theorem pieces_eq_of_le {k : Nat} (hm : 0 < m) (hn : s.length ≤ n) (hk : s.length ≤ k) :
    pieces sep m n s = pieces sep m k s := by
  induction n generalizing k s with
  | zero =>
    obtain rfl := List.length_eq_zero_iff.mp (Nat.le_zero.mp hn)
    cases k with
    | zero => rfl
    | succ k => rfl
  | succ n ih =>
    by_cases hs : s = []
    · subst hs
      cases k with
      | zero => rfl
      | succ k => rfl
    · have hpos := List.length_pos_of_ne_nil hs
      obtain ⟨k, rfl⟩ := Nat.exists_eq_add_of_lt (Nat.lt_of_lt_of_le hpos hk)
      have hcut : 0 < min (lineLen sep s) m := Nat.lt_min.mpr ⟨Nat.succ_pos _, hm⟩
      have hdrop := length_drop_lt hs hcut
      rw [Nat.zero_add] at hk ⊢
      rw [pieces_succ hs, pieces_succ hs, ih (Nat.le_of_lt_succ (Nat.lt_of_lt_of_le hdrop hn))
        (Nat.le_of_lt_succ (Nat.lt_of_lt_of_le hdrop hk))]

/-- **A line that is not too long is one piece.** -/
theorem pieces_line (hs : s ≠ []) (n : Nat) (hroom : (s.take (lineLen sep s)).length ≤ m) :
    pieces sep m (n + 1) s =
      s.take (lineLen sep s) :: pieces sep m n (s.drop (lineLen sep s)) := by
  rw [pieces_succ hs]
  by_cases hshort : lineLen sep s ≤ m
  · rw [Nat.min_eq_left hshort]
  · -- there is no line end
    rw [List.length_take] at hroom
    have hlen : s.length ≤ m := by omega
    have hmin : s.length ≤ min (lineLen sep s) m := by omega
    have hline : s.length ≤ lineLen sep s := by omega
    rw [List.take_of_length_le hmin, List.take_of_length_le hline,
      List.drop_eq_nil_of_le hmin, List.drop_eq_nil_of_le hline]

/-- Of a longer line the first piece has `m` characters. -/
theorem pieces_long (hs : s ≠ []) (n : Nat) (hlong : m < (s.take (lineLen sep s)).length) :
    pieces sep m (n + 1) s =
      (s.take (lineLen sep s)).take m :: pieces sep m n (s.drop m) := by
  rw [List.length_take] at hlong
  have hmin : min (lineLen sep s) m = m := by omega
  have hmin' : min m (lineLen sep s) = m := by omega
  rw [pieces_succ hs, List.take_take, hmin, hmin']

/-- **Where no line is too long, the pieces are the lines.** -/
theorem pieces_eq_lines (hn : s.length ≤ n) (hroom : ∀ l ∈ lines sep s, l.length ≤ m) :
    pieces sep m n s = lines sep s := by
  induction n generalizing s with
  | zero =>
    obtain rfl := List.length_eq_zero_iff.mp (Nat.le_zero.mp hn)
    rfl
  | succ n ih =>
    by_cases hs : s = []
    · subst hs
      rfl
    · rw [lines_eq hs] at hroom ⊢
      obtain ⟨hline, hrest⟩ := List.forall_mem_cons.mp hroom
      have hdrop := length_drop_lt hs (k := lineLen sep s) (Nat.succ_pos _)
      rw [pieces_line hs n hline, ih (by omega) hrest]

/-- There are as many pieces as there are lines, at least. -/
theorem length_lines_le (hm : 0 < m) (hn : s.length ≤ n) :
    (lines sep s).length ≤ (pieces sep m n s).length := by
  induction n generalizing s with
  | zero =>
    obtain rfl := List.length_eq_zero_iff.mp (Nat.le_zero.mp hn)
    exact Nat.le_refl 0
  | succ n ih =>
    by_cases hs : s = []
    · subst hs
      exact Nat.le_refl 0
    have hdrop : ∀ k, 0 < k → (s.drop k).length ≤ n := by
      intro k hk
      have := length_drop_lt hs hk
      omega
    by_cases hroom : (s.take (lineLen sep s)).length ≤ m
    · rw [lines_eq hs, pieces_line hs n hroom]
      exact Nat.succ_le_succ (ih (hdrop _ (Nat.succ_pos _)))
    · have hlong := Nat.not_le.mp hroom
      have hrest := ih (hdrop m hm)
      rw [lines_drop hlong] at hrest
      rw [lines_eq hs, pieces_long hs n hlong]
      exact Nat.le_succ_of_le hrest

/-- **A line that is too long makes more pieces than lines.** -/
theorem length_lines_lt (hm : 0 < m) (hn : s.length ≤ n) {l : List α} (hl : l ∈ lines sep s)
    (hlong : m < l.length) : (lines sep s).length < (pieces sep m n s).length := by
  induction n generalizing s with
  | zero =>
    obtain rfl := List.length_eq_zero_iff.mp (Nat.le_zero.mp hn)
    exact absurd hl (List.not_mem_nil)
  | succ n ih =>
    have hs : s ≠ [] := by
      rintro rfl
      exact absurd hl (List.not_mem_nil)
    have hdrop : ∀ k, 0 < k → (s.drop k).length ≤ n := by
      intro k hk
      have := length_drop_lt hs hk
      omega
    by_cases hroom : (s.take (lineLen sep s)).length ≤ m
    · rw [lines_eq hs, List.mem_cons] at hl
      rw [lines_eq hs, pieces_line hs n hroom]
      refine Nat.succ_lt_succ (ih (hdrop _ (Nat.succ_pos _)) (hl.resolve_left ?_))
      rintro rfl
      omega
    · have hfirst := Nat.not_le.mp hroom
      have hrest : (lines sep (s.drop m)).length ≤ _ := length_lines_le hm (hdrop m hm)
      rw [lines_drop hfirst] at hrest
      rw [lines_eq hs, pieces_long hs n hfirst]
      exact Nat.lt_succ_of_le hrest

end Pieces

end Cut

/-! ### What is read -/

variable [DecidableEq α] {good : α → Bool}

def Matters (good : α → Bool) (line : List α) : Bool := line.head?.any good

def kept (sep : α) (good : α → Bool) (s : List α) : List (List α) :=
  (s.splitOn sep).filter (Matters good)

@[simp] theorem kept_nil : kept sep good [] = [] := rfl

theorem kept_cut (a b : List α) :
    kept sep good (a ++ sep :: b) = kept sep good a ++ kept sep good b := by
  rw [kept, List.splitOn_append_cons_self, List.filter_append]
  rfl

/-- **What is put in behind a whole line touches no other.** -/
theorem kept_append {a : List α} (ha : Ended sep a) (b : List α) :
    kept sep good (a ++ b) = kept sep good a ++ kept sep good b := by
  rcases ended_iff.mp ha with rfl | ⟨t, rfl⟩
  · rfl
  · have ht : kept sep good (t ++ [sep]) = kept sep good t ++ kept sep good [] := kept_cut t []
    rw [List.append_assoc, List.singleton_append, kept_cut, ht, kept_nil, List.append_nil]

theorem kept_eq_nil_iff {s : List α} :
    kept sep good s = [] ↔ ∀ line ∈ s.splitOn sep, Matters good line = false := by
  rw [kept, List.filter_eq_nil_iff]
  simp

/-! ### Amid a line -/

/-- What stands in front of the first line end gets into the first line. -/
theorem splitOn_append {p : List α} (hp : sep ∉ p) (s : List α) :
    (p ++ s).splitOn sep = (s.splitOn sep).modifyHead (p ++ ·) := by
  induction p with
  | nil => cases h : s.splitOn sep <;> simp [h]
  | cons c p ih =>
    have hc : c ≠ sep := fun h => hp (h ▸ List.mem_cons_self)
    rw [List.cons_append, List.splitOn_cons_eq_if_modifyHead, if_neg (by simpa using hc),
      ih (fun h => hp (List.mem_cons_of_mem c h)), List.modifyHead_modifyHead]
    rfl

theorem tail_splitOn_append {p : List α} (hp : sep ∉ p) (s : List α) :
    ((p ++ s).splitOn sep).tail = (s.splitOn sep).tail := by
  rw [splitOn_append hp, List.tail_modifyHead]

/-- A line that is read is known from its first character. -/
theorem length_kept {c : α} (hc : c ≠ sep) (hgood : good c = true) (s : List α) :
    (kept sep good (c :: s)).length = ((s.splitOn sep).tail.filter (Matters good)).length + 1 := by
  have hsplit : (c :: s).splitOn sep = (s.splitOn sep).modifyHead (c :: ·) :=
    splitOn_append (p := [c]) (by simpa using hc.symm) s
  cases hs : s.splitOn sep with
  | nil => exact absurd hs (List.splitOn_ne_nil sep s)
  | cons line rest =>
    rw [kept, hsplit, hs, List.modifyHead_cons, List.filter_cons_of_pos (by exact hgood),
      List.length_cons, List.tail_cons]

/-- **Text with a line end, put in amid a line, is seen**: there is one line more
to read at least. -/
theorem length_kept_lt {c d : α} {p : List α} (hp : sep ∉ c :: p) (hc : good c = true)
    (hd : d ≠ sep) (hgood : good d = true) (m q : List α) :
    (kept sep good (c :: p ++ d :: q)).length <
      (kept sep good (c :: p ++ m ++ sep :: d :: q)).length := by
  have hne : c ≠ sep := fun h => hp (h ▸ List.mem_cons_self)
  have hdp : sep ∉ p ++ [d] := by
    intro h
    rcases List.mem_append.mp h with h | h
    · exact hp (List.mem_cons_of_mem c h)
    · exact hd (List.mem_singleton.mp h).symm
  have hone : (kept sep good (c :: p ++ d :: q)).length = (kept sep good (d :: q)).length := by
    have htail := tail_splitOn_append hdp q
    rw [List.append_assoc, List.singleton_append] at htail
    rw [List.cons_append, length_kept hne hc, htail, length_kept hd hgood]
  have hmore : 0 < (kept sep good (c :: p ++ m)).length := by
    rw [List.cons_append, length_kept hne hc]
    exact Nat.succ_pos _
  rw [kept_cut, List.length_append, hone]
  omega

end Lines
