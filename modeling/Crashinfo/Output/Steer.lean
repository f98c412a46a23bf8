import Crashinfo.Output.Names

/-!
# Who decides on the directories of an output

The path of an output is its template with the wild cards replaced, and the path
of the crashed executable is one of the replacements.  None of them brings a `/`
with it, and none of the template is lost: the path may be cut into its
components before the wild cards are replaced (`components_expansion`).  So
every run has the same number of components, and a component without wild cards
that mean anything (`Steady`) is the same in all of them.
-/

namespace Crashinfo

open Escape Script Script.Run

def components (path : Str) : List Str := path.splitOnP (· = ch '/')

/-- The text has none of the wild cards that are replaced by what is found out
of the process, or by the counter. -/
structure Steady (t : Str) : Prop where
  pid : ¬Active (ch 'p') t
  counter : ¬Active (ch 'Q') t
  base : ¬Active (ch 'e') t
  exe : ¬Active (ch 'E') t

theorem slash_notMem_baseName (exe : Str) : ch '/' ∉ baseName exe := by
  intro h
  have hall : (exe.reverse.takeWhile (· ≠ ch '/')).all (· ≠ ch '/') = true := List.all_takeWhile
  have := List.all_eq_true.mp hall _ (List.mem_reverse.mp h)
  exact absurd this (by decide)

theorem bang_ne_slash (c : Byte) : bang c ≠ ch '/' := by
  rw [bang]
  split
  · decide
  · assumption

/-- **No wild card stands for a text with a `/` in it**, unless the `/` is its own
character. -/
theorem slash_notMem_wild (r : Round) {t : Tok Byte} (hplain : t ≠ .plain (ch '/'))
    (hesc : t ≠ .esc (ch '/')) : ch '/' ∉ wild r t := by
  intro hmem
  rcases mem_wild hmem with h | h | h | h | h | h
  · exact hplain h
  · exact hesc h
  · exact absurd h (by decide)
  · exact h.ne.2 rfl
  · exact slash_notMem_baseName _ h
  · obtain ⟨b, -, hb⟩ := List.mem_map.mp h
    exact bang_ne_slash b hb

/-- **The components may be expanded one by one.** -/
theorem components_expansion (r : Round) (s : Str) :
    components (expansion r s) = (components s).map (expansion r) := by
  refine splitOnP_flatMap_scan (p := (· = ch '/')) (b := ch '/') (by decide) (by decide) rfl rfl ?_ s
  intro t hplain hesc b hb
  refine decide_eq_false ?_
  rintro rfl
  exact slash_notMem_wild r hplain hesc hb

theorem count_slash (path : Str) : path.count (ch '/') + 1 = (components path).length := by
  rw [components, length_splitOnP, List.count]
  congr 2

/-- What a steady text means is not found out of the process. -/
theorem Steady.expansion_eq {t : Str} (ht : Steady t) (r r' : Round) :
    expansion r t = expansion r' t := by
  have hwild : ∀ u ∈ scan ESC t, wild r u = wild r' u := by
    intro u hu
    cases u with
    | plain c => rfl
    | lone => rfl
    | esc c =>
      have hne : ∀ d : Byte, ¬Active d t → c ≠ d := by
        rintro d hd rfl
        exact hd hu
      rw [wild, wild, if_neg (hne _ ht.pid), if_neg (hne _ ht.counter), if_neg (hne _ ht.base),
        if_neg (hne _ ht.exe), if_neg (hne _ ht.pid), if_neg (hne _ ht.counter),
        if_neg (hne _ ht.base), if_neg (hne _ ht.exe)]
  rw [expansion, expansion, List.flatMap_def, List.flatMap_def, List.map_congr_left hwild]

/-- A wild card is active in a text just if it is in one of its components. -/
theorem active_iff_component {c : Byte} (hc : c ≠ ch '/') (s : Str) :
    Active c s ↔ ∃ t ∈ components s, Active c t := by
  -- the tokens themselves, with a `/` that is taken along cut off
  let f : Tok Byte → List (Tok Byte) := fun t =>
    if t = .esc (ch '/') then [.lone, .plain (ch '/')] else [t]
  have hmem : ∀ s, .esc c ∈ (scan ESC s).flatMap f ↔ Active c s := by
    intro s
    have hf : ∀ t, .esc c ∈ f t ↔ t = .esc c := by
      intro t
      by_cases ht : t = .esc (ch '/')
      · simp [f, ht, hc.symm]
      · simp [f, ht, eq_comm]
    simp [List.mem_flatMap, hf, Active]
  have hsplit := splitOnP_flatMap_scan (e := ESC) (c := ch '/') (p := (· = .plain (ch '/')))
    (b := .plain (ch '/')) (f := f) (by decide) (by simp) (by simp [f]) (by simp [f]) (by
      intro t hplain hesc b hb
      simp only [f, if_neg hesc, List.mem_singleton] at hb
      exact decide_eq_false (hb ▸ hplain)) s
  have hplain : Tok.esc c ≠ .plain (ch '/') := by simp
  rw [← hmem, mem_splitOnP (p := (· = .plain (ch '/'))) (decide_eq_false hplain), hsplit]
  simp [hmem, components]

/-! ### The paths that are opened -/

/-- A counter that a call of `open_output` can come to. -/
def Counts (c : ConfOutput) (k : Nat) : Prop := k = 0 ∨ (k : Int) < c.existsSeq ∨ c.existsSeq ≤ 0

section Path

variable {env env' : Env} {c c' : ConfOutput} {template template' : Str} {v v' : OpenVars}
  {h h' h₁ h₁' : Host} {o o' o₁ o₁' : List Answer} {cur cur' : Cursor}

/-- The path that is opened is the expansion of the template. -/
theorem of_expandPath_done (hslash : template.head? = some (ch '/')) (hv : Counts c v.counter)
    (hrun : expandPath env c template v h o = .done (some cur) h₁ o₁) :
    cur.result = candidate env c template v.counter := by
  have hspec := expandCells_spec (r := roundAt env c template v.counter) (intlen_le_seqLen hv)
    (v.path.drop ((env.strftime template).length + 1)) (env.strftime_slash template hslash)
    (env.strftime_nul template)
  rw [expandPath] at hrun
  split at hrun
  · cases hrun
  generalize expandCells _ _ = res at hspec hrun
  match res, hspec with
  | .error (.fault f), _ => cases hrun
  | .error (.tooLong cur₁), _ =>
    obtain ⟨u, h₂, o₂, -, hrest⟩ := of_bind_done hrun
    obtain ⟨u', h₃, o₃, -, hnone⟩ := of_bind_done hrest
    cases hnone
  | .ok cur₁, ⟨_, _, _, _, hdrop, _⟩ =>
    obtain ⟨u, h₂, o₂, -, hrest⟩ := of_bind_done hrun
    split at hrest
    · cases hrest
    · cases hrest
      rw [Cursor.result, hdrop]
      exact cstr_append_nul (nul_notMem_candidate v.counter)

/-- **The name of the crashed program decides nothing outside its own place.**  With
one template behind `strftime`, whatever the two runs find out of the process
and whichever names they try, the paths have the same number of slashes, and a
steady component of the template gives them the same component there. -/
theorem expandPath_steers (hslash : template.head? = some (ch '/'))
    (hslash' : template'.head? = some (ch '/')) (hv : Counts c v.counter)
    (hv' : Counts c' v'.counter) (hsame : env.strftime template = env'.strftime template')
    (hrun : expandPath env c template v h o = .done (some cur) h₁ o₁)
    (hrun' : expandPath env' c' template' v' h' o' = .done (some cur') h₁' o₁') :
    cur.result.count (ch '/') = cur'.result.count (ch '/') ∧
      ∀ (k : Nat) (t : Str), (components (env.strftime template))[k]? = some t → Steady t →
        ∃ u, (components cur.result)[k]? = some u ∧ (components cur'.result)[k]? = some u := by
  have hcur := of_expandPath_done hslash hv hrun
  have hcur' := of_expandPath_done hslash' hv' hrun'
  rw [candidate] at hcur
  rw [candidate, ← hsame] at hcur'
  rw [hcur, hcur']
  constructor
  · have hcount := count_slash (expansion (roundAt env c template v.counter) (env.strftime template))
    have hcount' :=
      count_slash (expansion (roundAt env' c' template' v'.counter) (env.strftime template))
    rw [components_expansion, List.length_map] at hcount hcount'
    omega
  · intro k t hk ht
    rw [components_expansion, components_expansion, List.getElem?_map, List.getElem?_map, hk]
    refine ⟨_, rfl, ?_⟩
    rw [ht.expansion_eq (roundAt env c template v.counter) (roundAt env' c' template' v'.counter)]
    rfl

end Path

/-- Two executables, the path of one full of characters that mean something. -/
theorem expandPath_steers_at :
    let c : ConfOutput := { exist := .keep }
    let template := lit "/var/@E-@p/core"
    let v : OpenVars := { path := List.replicate pathMax 0, mkdir := false }
    let run (exe : Str) := expandPath (Env.plain 42 (some exe)) c template v (Host.std []) []
    (run (lit "/x@/@p%")).After (fun o _ => ∀ cur ∈ o,
      (run (lit "/bin/vi")).After fun o' _ => ∀ cur' ∈ o',
        cur.result.count (ch '/') = cur'.result.count (ch '/') ∧
          ∀ (k : Nat) (t : Str), (components template)[k]? = some t → Steady t →
            ∃ u, (components cur.result)[k]? = some u ∧ (components cur'.result)[k]? = some u) := by
  intro c template v run
  have hdone : ∀ exe ∈ [lit "/x@/@p%", lit "/bin/vi"], (run exe).After fun o _ => o.isSome := by
    decide +kernel
  obtain ⟨o, h₁, o₁, hrun, -⟩ := (hdone (lit "/x@/@p%") (by simp)).exists
  obtain ⟨o', h₁', o₁', hrun', -⟩ := (hdone (lit "/bin/vi") (by simp)).exists
  rw [hrun, Res.after_done]
  rintro cur rfl
  rw [hrun', Res.after_done]
  rintro cur' rfl
  have hslash : template.head? = some (ch '/') := by decide
  have hv : Counts c v.counter := Or.inl rfl
  have hsame : (Env.plain 42 (some (lit "/x@/@p%"))).strftime template =
    (Env.plain 42 (some (lit "/bin/vi"))).strftime template := rfl
  have hpair := expandPath_steers hslash hslash hv hv hsame hrun hrun'
  rwa [show (Env.plain 42 (some (lit "/x@/@p%"))).strftime template = template by decide] at hpair

end Crashinfo
