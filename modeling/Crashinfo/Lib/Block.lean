import Crashinfo.Lib.Token
import Mathlib.Data.List.DropRight

/-!
# Blocks of lines

A block stands below a line of a document and is indented further than it.  Nothing
says how far: that is how many spaces the first line of the block begins with, apart
from lines that are blank.  A line that is indented less ends the block, and blank
lines at its end do not count.

`emit` indents lines by a fixed number of spaces.  A reader gets back what was
emitted just if the first line that is not blank begins with something else than a
space (`read_emit_iff`); otherwise it takes the block to be indented further.
-/

namespace Block

variable {α : Type} [DecidableEq α] (sp : α)

def indentation (l : List α) : Nat := (l.takeWhile (· = sp)).length

def Blank (l : List α) : Prop := ∀ c ∈ l, c = sp

instance : DecidablePred (Blank sp) := fun l => inferInstanceAs (Decidable (∀ c ∈ l, c = sp))

def firstLine (ls : List (List α)) : Option (List α) := ls.find? fun l => decide ¬Blank sp l

/-- A line of a block that is indented by `m` or more. -/
def Inside (m : Nat) (l : List α) : Prop := Blank sp l ∨ m ≤ indentation sp l

instance (m : Nat) : DecidablePred (Inside sp m) := fun l =>
  inferInstanceAs (Decidable (Blank sp l ∨ m ≤ indentation sp l))

def trimEnd (ls : List (List α)) : List (List α) := ls.rdropWhile (· = [])

/-- What stands in a block below a line that is indented by `n`, and the lines behind
it; nothing if a blank line in front of its first line is longer than it may be. -/
def read (n : Nat) (ls : List (List α)) : Option (List (List α) × List (List α)) :=
  match firstLine sp (ls.takeWhile fun l => Inside sp (n + 1) l) with
  | none => some ([], ls.dropWhile fun l => Blank sp l)
  | some first =>
    if ∀ l ∈ ls.takeWhile (fun l => Blank sp l), l.length ≤ indentation sp first then
      some (trimEnd ((ls.takeWhile fun l => Inside sp (indentation sp first) l).map
          (·.drop (indentation sp first))),
        ls.dropWhile fun l => Inside sp (indentation sp first) l)
    else none

def emit (k : Nat) (ls : List (List α)) : List (List α) := ls.map (List.replicate k sp ++ ·)

/-- What may stand behind a block below a line that is indented by `n`. -/
def Outer (n : Nat) (ls : List (List α)) : Prop := ∀ l ∈ ls.head?, ¬Inside sp (n + 1) l

instance (n : Nat) (ls : List (List α)) : Decidable (Outer sp n ls) :=
  inferInstanceAs (Decidable (∀ l ∈ ls.head?, _))

/-! ### Lines with spaces in front -/

section Indent

variable {sp} {k m : Nat} {l : List α}

theorem indentation_append (k : Nat) (l : List α) :
    indentation sp (List.replicate k sp ++ l) = k + indentation sp l := by
  have hsp : ∀ c ∈ List.replicate k sp, decide (c = sp) = true :=
    fun c hc => decide_eq_true (List.eq_of_mem_replicate hc)
  rw [indentation, List.takeWhile_append_of_pos hsp, List.length_append, List.length_replicate,
    indentation]

omit [DecidableEq α] in
theorem blank_append (k : Nat) (l : List α) :
    Blank sp (List.replicate k sp ++ l) ↔ Blank sp l := by
  constructor
  · exact fun h c hc => h c (List.mem_append_right _ hc)
  · intro h c hc
    rcases List.mem_append.mp hc with hc | hc
    · exact List.eq_of_mem_replicate hc
    · exact h c hc

theorem inside_append (hm : m ≤ k) (l : List α) : Inside sp m (List.replicate k sp ++ l) := by
  apply Or.inr
  rw [indentation_append]
  exact Nat.le_add_right_of_le hm

theorem Inside.mono {m' : Nat} (h : Inside sp m l) (hm : m' ≤ m) : Inside sp m' l :=
  h.imp_right (Nat.le_trans hm)

theorem indentation_le (l : List α) : indentation sp l ≤ l.length :=
  (List.takeWhile_prefix _).length_le

theorem drop_indentation (h : ¬Blank sp l) : ¬Blank sp (l.drop (indentation sp l)) := by
  intro hblank
  apply h
  intro c hc
  have hsplit : l.take (indentation sp l) = l.takeWhile fun c => decide (c = sp) :=
    (List.prefix_iff_eq_take.mp (List.takeWhile_prefix _)).symm
  rw [← List.take_append_drop (indentation sp l) l, hsplit] at hc
  rcases List.mem_append.mp hc with hc | hc
  · exact of_decide_eq_true (List.mem_takeWhile_imp (p := fun c => decide (c = sp)) hc)
  · exact hblank c hc

end Indent

/-! ### The first line -/

section First

variable {sp} {k n : Nat} {ls : List (List α)} {first : List α}

theorem firstLine_emit (k : Nat) (ls : List (List α)) :
    firstLine sp (emit sp k ls) = (firstLine sp ls).map (List.replicate k sp ++ ·) := by
  rw [firstLine, emit, List.find?_map, firstLine]
  congr 2
  funext l
  exact decide_eq_decide.mpr (not_congr (blank_append k l))

theorem firstLine_trimEnd (ls : List (List α)) : firstLine sp (trimEnd ls) = firstLine sp ls := by
  induction ls using List.reverseRecOn with
  | nil => rfl
  | append_singleton ls l ih =>
    by_cases hl : l = []
    · have hnone : [l].find? (fun l => decide ¬Blank sp l) = none := by
        rw [hl]
        rfl
      have htrim : trimEnd (ls ++ [l]) = trimEnd ls :=
        List.rdropWhile_concat_pos _ _ _ (decide_eq_true hl)
      rw [htrim, ih, firstLine, firstLine, List.find?_append, hnone, Option.or_none]
    · have htrim : trimEnd (ls ++ [l]) = ls ++ [l] :=
        List.rdropWhile_concat_neg _ _ _ (by simpa using hl)
      rw [htrim]

/-- Taking as many spaces off each line as the first one begins with leaves it the
first one. -/
theorem firstLine_drop (h : firstLine sp ls = some first) (hls : ∀ l ∈ ls, l = [] ∨ ¬Blank sp l) :
    firstLine sp (ls.map (·.drop (indentation sp first))) =
      some (first.drop (indentation sp first)) := by
  obtain ⟨hfirst, as, bs, rfl, has⟩ := List.find?_eq_some_iff_append.mp h
  have hblank : ¬Blank sp first := of_decide_eq_true hfirst
  rw [firstLine, List.find?_eq_some_iff_append]
  refine ⟨decide_eq_true (drop_indentation hblank), as.map (·.drop (indentation sp first)),
    bs.map (·.drop (indentation sp first)), ?_, ?_⟩
  · rw [List.map_append, List.map_cons]
  · intro l hl
    obtain ⟨l', hl', rfl⟩ := List.mem_map.mp hl
    have hempty : l' = [] := by
      refine (hls l' (List.mem_append_left _ hl')).resolve_right fun hne => ?_
      have := has l' hl'
      rw [decide_eq_true hne] at this
      cases this
    rw [hempty, List.drop_nil]
    rfl

end First

/-! ### What is emitted is read back -/

section Read

variable {sp} {k n : Nat} {ls rest : List (List α)}

theorem Outer.not_inside {m : Nat} (h : Outer sp n rest) (hm : n < m) :
    ∀ l ∈ rest.head?, ¬Inside sp m l :=
  fun l hl hin => h l hl (hin.mono hm)

/-- The lines of the block, and what stands behind it. -/
theorem span_emit {m : Nat} (hrest : Outer sp n rest) (hn : n < m)
    (hall : ∀ l ∈ emit sp k ls, Inside sp m l) :
    ((emit sp k ls ++ rest).takeWhile fun l => Inside sp m l) = emit sp k ls ∧
      ((emit sp k ls ++ rest).dropWhile fun l => Inside sp m l) = rest := by
  apply Token.span_append
  · exact fun l hl => decide_eq_true (hall l hl)
  · exact fun l hl => decide_eq_false (hrest.not_inside hn l hl)

theorem inside_emit {m : Nat} (hm : m ≤ k) : ∀ l ∈ emit sp k ls, Inside sp m l := by
  intro l hl
  obtain ⟨l', -, rfl⟩ := List.mem_map.mp hl
  exact inside_append hm l'

/-- If all the lines are blank there is nothing in the block. -/
theorem read_emit_blank (hn : n < k) (hrest : Outer sp n rest) (hnone : firstLine sp ls = none) :
    read sp n (emit sp k ls ++ rest) = some ([], rest) := by
  have hfirst : firstLine sp (emit sp k ls) = none := by
    rw [firstLine_emit, hnone]
    rfl
  have hblank : ∀ l ∈ emit sp k ls, decide (Blank sp l) = true := by
    intro l hl
    have := List.find?_eq_none.mp hfirst l hl
    simpa using this
  have hdrop : ((emit sp k ls ++ rest).dropWhile fun l => Blank sp l) = rest := by
    refine (Token.span_append hblank fun l hl => decide_eq_false fun hb => ?_).2
    exact hrest l hl (Or.inl hb)
  rw [read, (span_emit hrest (Nat.lt_succ_self n) (inside_emit hn)).1, hfirst]
  dsimp only
  rw [hdrop]

/-- The first line says how far the block is indented. -/
theorem read_emit_first (hn : n < k) (hls : ∀ l ∈ ls, l = [] ∨ ¬Blank sp l)
    (hrest : Outer sp n rest) {first : List α} (hfirst : firstLine sp ls = some first) :
    read sp n (emit sp k ls ++ rest) =
      some (trimEnd (((emit sp k ls ++ rest).takeWhile fun l =>
          Inside sp (k + indentation sp first) l).map (·.drop (k + indentation sp first))),
        (emit sp k ls ++ rest).dropWhile fun l => Inside sp (k + indentation sp first) l) := by
  have hshown : firstLine sp (emit sp k ls) = some (List.replicate k sp ++ first) := by
    rw [firstLine_emit, hfirst]
    rfl
  have hlead : ∀ l ∈ (emit sp k ls ++ rest).takeWhile (fun l => Blank sp l),
      l.length ≤ indentation sp (List.replicate k sp ++ first) := by
    intro l hl
    have hblank : Blank sp l := of_decide_eq_true
      (List.mem_takeWhile_imp (p := fun l => decide (Blank sp l)) hl)
    -- the lines of `rest` are not come to
    have hmem : l ∈ emit sp k ls := by
      rw [List.takeWhile_append] at hl
      split at hl
      · rename_i hlen
        have hall := (List.takeWhile_prefix _).eq_of_length hlen
        have hbad := List.mem_of_find?_eq_some hshown
        rw [← hall] at hbad
        have hb := of_decide_eq_true
          (List.mem_takeWhile_imp (p := fun l => decide (Blank sp l)) hbad)
        have hnb := List.find?_some hshown
        exact absurd hb (of_decide_eq_true hnb)
      · exact (List.takeWhile_prefix _).subset hl
    obtain ⟨l', hl', rfl⟩ := List.mem_map.mp hmem
    have hnil := (hls l' hl').resolve_right (not_not.mpr ((blank_append k l').mp hblank))
    rw [hnil, List.append_nil, List.length_replicate, indentation_append]
    exact Nat.le_add_right _ _
  rw [read, (span_emit hrest (Nat.lt_succ_self n) (inside_emit hn)).1, hshown]
  dsimp only
  rw [if_pos hlead, indentation_append]

/-- **A reader gets the lines back**, but for blank ones at the end, just if the first
line begins with no space. -/
theorem read_emit_iff (hn : n < k) (hls : ∀ l ∈ ls, l = [] ∨ ¬Blank sp l)
    (hrest : Outer sp n rest) :
    read sp n (emit sp k ls ++ rest) = some (trimEnd ls, rest) ↔
      ∀ l ∈ firstLine sp ls, indentation sp l = 0 := by
  cases hfirst : firstLine sp ls with
  | none =>
    have htrim : trimEnd ls = [] := by
      apply List.rdropWhile_eq_nil_iff.mpr
      intro l hl
      have hb := List.find?_eq_none.mp hfirst l hl
      refine decide_eq_true ((hls l hl).resolve_right fun hnb => ?_)
      exact hb (decide_eq_true hnb)
    rw [read_emit_blank hn hrest hfirst, htrim]
    exact iff_of_true rfl fun l hl => absurd hl (Option.not_mem_none l)
  | some first =>
    rw [read_emit_first hn hls hrest hfirst]
    have hdrop : ∀ i, (emit sp k ls).map (·.drop (k + i)) = ls.map (·.drop i) := by
      intro i
      rw [emit, List.map_map]
      apply List.map_congr_left
      intro l _
      have hlen : (List.replicate k sp).length = k := List.length_replicate
      rw [Function.comp_apply, ← List.drop_drop, List.drop_left' hlen]
    constructor
    · intro heq l hl
      rw [← Option.some.inj hl]
      obtain ⟨hvalue, hbehind⟩ := Prod.mk.inj (Option.some.inj heq)
      have htake : ((emit sp k ls ++ rest).takeWhile fun l =>
          Inside sp (k + indentation sp first) l) = emit sp k ls := by
        have hsplit := List.takeWhile_append_dropWhile
          (p := fun l => decide (Inside sp (k + indentation sp first) l))
          (l := emit sp k ls ++ rest)
        rw [hbehind] at hsplit
        exact List.append_cancel_right hsplit
      rw [htake, hdrop] at hvalue
      have hshort := congrArg (firstLine sp) hvalue
      rw [firstLine_trimEnd, firstLine_trimEnd, firstLine_drop hfirst hls, hfirst] at hshort
      have hlen := congrArg List.length (Option.some.inj hshort)
      have hle : indentation sp first ≤ first.length := indentation_le first
      rw [List.length_drop] at hlen
      omega
    · intro h
      have hzero : indentation sp first = 0 := h first rfl
      have hinside : ∀ l ∈ emit sp k ls, Inside sp k l := inside_emit (Nat.le_refl k)
      obtain ⟨htake, hbehind⟩ := span_emit hrest hn hinside
      have hvalue : (emit sp k ls).map (·.drop k) = ls := by
        have hzeroes := hdrop 0
        simpa using hzeroes
      rw [hzero, Nat.add_zero, htake, hbehind, hvalue]

end Read

end Block
