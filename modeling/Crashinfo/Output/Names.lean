import Crashinfo.Output.Expansion
import Crashinfo.Output.Open
import Mathlib.Algebra.Order.BigOperators.Group.List

/-!
# The names an output may get

`candidate k` is the name that is tried when the counter is `k`, `outcome k` how
its expansion ends.  Two rounds of one call differ in the counter and in the
width it is written with, and only the wild card `@Q` tells the difference
(`wild_eq`).  With one width the names have one length (`length_expansion_eq`),
the expansion ends in the same way (`verdict_eq`), and an active `@Q` tells the
counter (`counter_eq`).  With any width a name has as many `/` as another one
(`count_expansion_eq`), so a directory above one name is never another name.
-/

namespace Crashinfo

open Escape

structure SameCall (r r' : Round) : Prop where
  exe : r.exe = r'.exe
  pid : r.pid = r'.pid

/-- Two rounds that write their counters with one width. -/
structure SameWidth (r r' : Round) : Prop extends SameCall r r' where
  seqLen : r.seqLen = r'.seqLen
  fits : intlen r.counter ≤ r.seqLen
  fits' : intlen r'.counter ≤ r'.seqLen

theorem wild_Q (r : Round) : wild r (.esc (ch 'Q')) = fmt0D r.seqLen r.counter := by
  rw [wild, if_neg (by decide), if_neg (by decide), if_pos rfl]

/-- Only the counter mark tells the counter. -/
theorem wild_eq {r r' : Round} (h : SameCall r r') {t : Tok Byte} (ht : t ≠ .esc (ch 'Q')) :
    wild r t = wild r' t := by
  cases t with
  | plain c => rfl
  | lone => rfl
  | esc c =>
    have hc : c ≠ ch 'Q' := fun hc => ht (congrArg Tok.esc hc)
    rw [wild, wild, if_neg hc, if_neg hc, h.exe, h.pid]

theorem length_wild_eq {r r' : Round} (h : SameWidth r r') (t : Tok Byte) :
    (wild r t).length = (wild r' t).length := by
  by_cases ht : t = .esc (ch 'Q')
  · have h1 := h.fits
    have h2 := h.fits'
    rw [intlen_eq] at h1 h2
    rw [ht, wild_Q, wild_Q, length_fmt0D h1, length_fmt0D h2, h.seqLen]
  · rw [wild_eq h.toSameCall ht]

theorem length_expansion_eq {r r' : Round} (h : SameWidth r r') (s : Str) :
    (expansion r s).length = (expansion r' s).length := by
  rw [expansion, expansion, List.length_flatMap, List.length_flatMap]
  exact congrArg List.sum (List.map_congr_left fun t _ => length_wild_eq h t)

theorem wayOn_eq {r r' : Round} (h : SameWidth r r') (t : Str) (n i : Nat) :
    wayOn r t n i = wayOn r' t n i := by
  rw [wayOn, wayOn, h.exe, length_expansion_eq h, slack, slack, h.exe]

/-- **The counter has no part in how an expansion ends.** -/
theorem verdict_eq {r r' : Round} (h : SameWidth r r') (s : Str) (n : Nat) :
    verdict r s n = verdict r' s n := by
  have hways : ∀ m i, waysOn r (s ++ [0]) n m i = waysOn r' (s ++ [0]) n m i := by
    intro m
    induction m with
    | zero => exact fun i => rfl
    | succ m ih =>
      intro i
      rw [waysOn, waysOn, wayOn_eq h]
      split
      · split
        · exact ih _
        · rfl
      · rfl
  exact hways _ _

/-- **The name tells the counter.** -/
theorem counter_eq {r r' : Round} (h : SameWidth r r') {s : Str} (hQ : Active (ch 'Q') s)
    (heq : expansion r s = expansion r' s) : r.counter = r'.counter := by
  have hwild := eq_of_flatMap_eq (fun t _ => length_wild_eq h t) heq _ hQ
  rw [wild_Q, wild_Q, h.seqLen] at hwild
  exact fmt0D_injective hwild

theorem count_wild_eq {r r' : Round} (h : SameCall r r') (t : Tok Byte) :
    (wild r t).count (ch '/') = (wild r' t).count (ch '/') := by
  by_cases ht : t = .esc (ch 'Q')
  · have hzero : ∀ r : Round, (wild r (.esc (ch 'Q'))).count (ch '/') = 0 := by
      intro r
      rw [wild_Q]
      exact List.count_eq_zero.mpr fun hmem => (isNum_of_mem_fmt0D hmem).ne.2 rfl
    rw [ht, hzero, hzero]
  · rw [wild_eq h ht]

theorem count_expansion_eq {r r' : Round} (h : SameCall r r') (s : Str) :
    (expansion r s).count (ch '/') = (expansion r' s).count (ch '/') := by
  rw [expansion, expansion, List.count_flatMap, List.count_flatMap]
  exact congrArg List.sum (List.map_congr_left fun t _ => count_wild_eq h t)

/-- Where the characters of the text come from that a token stands for. -/
theorem mem_wild {r : Round} {t : Tok Byte} {b : Byte} (h : b ∈ wild r t) :
    t = .plain b ∨ t = .esc b ∨ b = ESC ∨ IsNum b ∨ b ∈ baseName (r.exe.getD []) ∨
      b ∈ (r.exe.getD []).map bang := by
  cases t with
  | plain c =>
    rw [List.mem_singleton.mp h]
    exact Or.inl rfl
  | lone => exact Or.inr (Or.inr (Or.inl (List.mem_singleton.mp h)))
  | esc c =>
    refine Or.inr ?_
    rw [wild] at h
    split at h
    · exact Or.inr (Or.inl (List.mem_singleton.mp h))
    split at h
    · exact Or.inr (Or.inr (Or.inl (isNum_of_mem_fmtD h)))
    split at h
    · exact Or.inr (Or.inr (Or.inl (isNum_of_mem_fmt0D h)))
    split at h
    · exact Or.inr (Or.inr (Or.inr (Or.inl h)))
    split at h
    · exact Or.inr (Or.inr (Or.inr (Or.inr h)))
    · rcases List.mem_cons.mp h with h | h
      · exact Or.inr (Or.inl h)
      · exact Or.inl (congrArg Tok.esc (List.mem_singleton.mp h).symm)

/-- A token without a NUL stands for a text without a NUL. -/
theorem nul_notMem_wild {r : Round} (hexe : 0 ∉ r.exe.getD []) {t : Tok Byte}
    (hplain : t ≠ .plain 0) (hesc : t ≠ .esc 0) : 0 ∉ wild r t := by
  intro hmem
  rcases mem_wild hmem with h | h | h | h | h | h
  · exact hplain h
  · exact hesc h
  · exact absurd h (by decide)
  · exact h.ne.1 rfl
  · exact hexe (List.mem_reverse.mp ((List.takeWhile_prefix _).subset (List.mem_reverse.mp h)))
  · obtain ⟨b, hb, hbang⟩ := List.mem_map.mp h
    rw [bang] at hbang
    split at hbang
    · exact absurd hbang (by decide)
    · exact hexe (hbang ▸ hb)

theorem nul_notMem_expansion {r : Round} (hexe : 0 ∉ r.exe.getD []) {s : Str} (h0 : 0 ∉ s) :
    0 ∉ expansion r s := by
  intro hmem
  obtain ⟨t, ht, hmem⟩ := List.mem_flatMap.mp hmem
  refine nul_notMem_wild hexe ?_ ?_ hmem
  · rintro rfl
    exact h0 (mem_of_plain_mem_scan ht)
  · rintro rfl
    exact h0 (mem_of_esc_mem_scan ht)

/-! ### The rounds of a call -/

section Rounds

variable (env : Env) (c : ConfOutput) (template : Str)

/-- How the expansion ends with the counter `k`. -/
def outcome (k : Nat) : Except Giveup Unit :=
  verdict (roundAt env c template k) (env.strftime template) pathMax

def candidate (k : Nat) : Str := expansion (roundAt env c template k) (env.strftime template)

/-- The text fits into `path`, and the expansion of it does not end early. -/
structure Expands : Prop where
  text : (env.strftime template).length < pathMax
  outcome : outcome env c template 0 = .ok ()

theorem sameCall (k l : Nat) : SameCall (roundAt env c template k) (roundAt env c template l) :=
  ⟨rfl, rfl⟩

variable {c}

theorem intlen_mono {m n : Nat} (h : m ≤ n) : intlen m ≤ intlen n := by
  rw [intlen_eq, intlen_eq]
  exact Numeral.length_digits_mono (by decide) h

/-- The width is enough for every counter that is reached. -/
theorem intlen_le_seqLen {k : Nat} (h : k = 0 ∨ (k : Int) < c.existsSeq ∨ c.existsSeq ≤ 0) :
    intlen k ≤ seqLen c k := by
  rw [seqLen]
  split
  · exact intlen_mono (by omega)
  · exact Nat.le_refl _

/-- A round, in the array that `strftime` has filled. -/
theorem cellsRes_roundAt {env : Env} {template : Str} {k : Nat} {path : List Byte}
    (hslash : template.head? = some (ch '/')) (htext : (env.strftime template).length < pathMax)
    (hk : intlen k ≤ seqLen c k) (hlen : path.length = pathMax) :
    CellsRes (roundAt env c template k) (env.strftime template) pathMax
      (expandCells (roundAt env c template k)
        (env.strftime template ++ 0 :: path.drop ((env.strftime template).length + 1))) := by
  have hspec := expandCells_spec (r := roundAt env c template k) hk
    (path.drop ((env.strftime template).length + 1)) (env.strftime_slash template hslash)
    (env.strftime_nul template)
  have hcells : (env.strftime template ++
      0 :: path.drop ((env.strftime template).length + 1)).length = pathMax := by
    rw [List.length_append, List.length_cons, List.length_drop, hlen]
    omega
  rwa [hcells] at hspec

/-- Below the limit all counters are written with one width. -/
theorem sameWidth {k l : Nat} (hk : (k : Int) < c.existsSeq) (hl : (l : Int) < c.existsSeq) :
    SameWidth (roundAt env c template k) (roundAt env c template l) where
  exe := rfl
  pid := rfl
  seqLen := by
    show seqLen c k = seqLen c l
    rw [seqLen, seqLen, if_pos (by omega), if_pos (by omega)]
  fits := intlen_le_seqLen (Or.inr (Or.inl hk))
  fits' := intlen_le_seqLen (Or.inr (Or.inl hl))

variable {env template}

theorem outcome_eq {k l : Nat} (hk : (k : Int) < c.existsSeq) (hl : (l : Int) < c.existsSeq) :
    outcome env c template k = outcome env c template l :=
  verdict_eq (sameWidth env template hk hl) _ _

theorem length_candidate_eq {k l : Nat} (hk : (k : Int) < c.existsSeq)
    (hl : (l : Int) < c.existsSeq) :
    (candidate env c template k).length = (candidate env c template l).length :=
  length_expansion_eq (sameWidth env template hk hl) _

theorem candidate_ne {k l : Nat} (hQ : Active (ch 'Q') (env.strftime template))
    (hk : (k : Int) < c.existsSeq) (hl : (l : Int) < c.existsSeq) (hne : k ≠ l) :
    candidate env c template k ≠ candidate env c template l :=
  fun h => hne (counter_eq (sameWidth env template hk hl) hQ h)

/-- Without a limit the width is the length of the counter, and still the name
tells the counter. -/
theorem length_candidate_lt {k l : Nat} (hno : c.existsSeq ≤ 0)
    (hQ : Active (ch 'Q') (env.strftime template)) (hlt : intlen k < intlen l) :
    (candidate env c template k).length < (candidate env c template l).length := by
  have hwidth : ∀ m : Nat, (wild (roundAt env c template m) (.esc (ch 'Q'))).length = intlen m := by
    intro m
    have hseq : (roundAt env c template m).seqLen = intlen m := by
      show seqLen c m = intlen m
      rw [seqLen, if_neg (by omega)]
    rw [wild_Q, hseq]
    exact length_fmt0D (by rw [intlen_eq]; exact Nat.le_refl _)
  rw [candidate, candidate, expansion, expansion, List.length_flatMap, List.length_flatMap]
  refine List.sum_lt_sum _ _ (fun t _ => ?_) ⟨.esc (ch 'Q'), hQ, ?_⟩
  · by_cases ht : t = .esc (ch 'Q')
    · rw [ht, hwidth, hwidth]
      exact Nat.le_of_lt hlt
    · rw [wild_eq (sameCall env c template k l) ht]
  · rw [hwidth, hwidth]
    exact hlt

theorem candidate_injective (hno : c.existsSeq ≤ 0) (hQ : Active (ch 'Q') (env.strftime template)) :
    Function.Injective (candidate env c template) := by
  intro k l heq
  rcases Nat.lt_trichotomy (intlen k) (intlen l) with hlt | he | hlt
  · exact absurd (congrArg List.length heq) (Nat.ne_of_lt (length_candidate_lt hno hQ hlt))
  · have hk := intlen_le_seqLen (c := c) (k := k) (Or.inr (Or.inr hno))
    have hl := intlen_le_seqLen (c := c) (k := l) (Or.inr (Or.inr hno))
    refine counter_eq (s := env.strftime template) ⟨sameCall env c template k l, ?_, hk, hl⟩ hQ heq
    show seqLen c k = seqLen c l
    rw [seqLen, seqLen, if_neg (by omega), if_neg (by omega), he]
  · exact absurd (congrArg List.length heq) (Nat.ne_of_gt (length_candidate_lt hno hQ hlt))

theorem nul_notMem_candidate (k : Nat) : 0 ∉ candidate env c template k := by
  refine nul_notMem_expansion ?_ (env.strftime_nul template)
  show 0 ∉ env.exe.getD []
  cases he : env.exe with
  | none => exact List.not_mem_nil
  | some e => exact env.exe_nul e he

theorem count_lt_of_mem_dirsOf {path d : Str} (h : d ∈ dirsOf path) :
    d.count (ch '/') < path.count (ch '/') := by
  obtain ⟨k, hk, rfl⟩ := List.mem_map.mp h
  obtain ⟨-, hslash⟩ := of_decide_eq_true (List.mem_filter.mp hk).2
  have hmem : ch '/' ∈ path.drop k := by
    refine List.mem_of_getElem? (i := 0) ?_
    rw [List.getElem?_drop]
    exact hslash
  have hpos := List.count_pos_iff.mpr hmem
  have hsum : (path.take k).count (ch '/') + (path.drop k).count (ch '/') = path.count (ch '/') := by
    rw [← List.count_append, List.take_append_drop]
  omega

/-- **A directory above a name is not a name.** -/
theorem dirsOf_candidate {k l : Nat} {d : Str} (h : d ∈ dirsOf (candidate env c template k)) :
    d ≠ candidate env c template l := by
  rintro rfl
  have := count_lt_of_mem_dirsOf h
  rw [candidate, candidate, count_expansion_eq (sameCall env c template k l)] at this
  exact absurd this (Nat.lt_irrefl _)

end Rounds

end Crashinfo
