import Crashinfo.Output.Steer
import Crashinfo.Output.Termination

/-!
# When an expanded path is too long

`open_output` looks for room in the array three times, and none of the tests is
about the whole path: each compares the cell that is written next with what is
left of the template in front of it.  So besides the expansion of the rest the
front of the template has to fit, as it is written there, and a bit more at an
`@e` or an `@E`.  `Room` is that condition, one inequality for each wild card.

With room everywhere the expansion fits (`length_expansion_lt`).  Without it
there may still be one that fits, and the code rejects it.
-/

namespace Crashinfo

open Escape Script Script.Run

/-! ### The room the expansion takes -/

/-- At every wild card that means something, what stands in front of it, the
expansion from there on, the `slack` and a NUL fit into `n` cells. -/
def Room (r : Round) (s : Str) (n : Nat) : Prop :=
  ∀ front c back, s = front ++ ESC :: c :: back → pending ESC front front.length = false →
    front.length + (expansion r (ESC :: c :: back)).length + slack r c < n

/-- The test at the wild card whose second character is `t[i]`. -/
def RoomAt (r : Round) (t : Str) (n i : Nat) : Prop :=
  i + (expansion r (t.drop (i - 1))).length + slack r (t.getD i 0) ≤ n + 1

section Room

variable {r : Round} {t s : Str} {n : Nat}

theorem wayOn_of_room (hexe : r.exe ≠ none) {i : Nat} (hesc : pending ESC t i = true)
    (hroom : RoomAt r t n i) : wayOn r t n i = .ok (i - 2) := by
  rw [wayOn, if_pos hesc, if_neg fun h => hexe h.1]
  exact if_pos hroom

theorem wayOn_of_not_room (hexe : r.exe ≠ none) {i : Nat} (hesc : pending ESC t i = true)
    (hroom : ¬RoomAt r t n i) : wayOn r t n i = .error .tooLong := by
  rw [wayOn, if_pos hesc, if_neg fun h => hexe h.1]
  exact if_neg hroom

/-- The front of a text that ends in an escape character that takes the next one along. -/
theorem exists_front {k : Nat} (hesc : pending ESC t (k + 1) = true) (hmem : k + 1 < t.length) :
    t = t.take k ++ ESC :: t[k + 1] :: t.drop (k + 1 + 1) ∧
      pending ESC (t.take k) (t.take k).length = false := by
  have hlen : (t.take k).length = k := by rw [List.length_take]; omega
  constructor
  · rw [← drop_of_pending hesc hmem, List.take_append_drop]
  · rw [hlen, ← (of_pending hesc).2]
    exact pending_congr fun m hm => List.getElem?_take_of_lt hm

/-- **The loop tests at every wild card**, from the last one on. -/
theorem waysOn_ok_iff (hexe : r.exe ≠ none) (hhead : t[0]? ≠ some ESC) : ∀ (m i : Nat), i ≤ m →
    pending ESC t (i + 1) = false →
    (waysOn r t n m i = .ok () ↔ ∀ k ≤ i, pending ESC t k = true → RoomAt r t n k) := by
  intro m
  induction m with
  | zero =>
    intro i hi _
    refine iff_of_true rfl fun k hk hesc => ?_
    obtain rfl : k = 0 := by omega
    cases hesc
  | succ m ih =>
    intro i hi hcut
    rw [waysOn]
    by_cases h1 : 1 ≤ i
    · rw [if_pos h1]
      cases hesc : pending ESC t i with
      | false =>
        rw [wayOn, hesc, if_neg Bool.false_ne_true]
        refine (ih (i - 1) (by omega) (by rwa [Nat.sub_add_cancel h1])).trans ?_
        refine forall_congr' fun k => ⟨fun h hk hk' => h ?_ hk', fun h hk => h (by omega)⟩
        rcases Nat.lt_or_eq_of_le hk with hlt | rfl
        · omega
        · exact absurd (hesc.symm.trans hk') Bool.false_ne_true
      | true =>
        obtain ⟨j, rfl⟩ : ∃ j, i = j + 1 := ⟨i - 1, by omega⟩
        obtain ⟨hj, hcutj⟩ := of_pending hesc
        -- the text starts with another character, so a wild card has one in front of it
        have hj0 : j ≠ 0 := by
          rintro rfl
          exact hhead hj
        by_cases hroom : RoomAt r t n (j + 1)
        · rw [wayOn_of_room hexe hesc hroom]
          refine (ih (j + 1 - 2) (by omega) (by rwa [show j + 1 - 2 + 1 = j by omega])).trans ?_
          refine forall_congr' fun k => ⟨fun h hk hk' => ?_, fun h hk => h (by omega)⟩
          rcases Nat.lt_or_eq_of_le hk with hlt | rfl
          · have hne : k ≠ j := by
              rintro rfl
              exact absurd (hcutj.symm.trans hk') Bool.false_ne_true
            exact h (by omega) hk'
          · exact hroom
        · rw [wayOn_of_not_room hexe hesc hroom]
          exact iff_of_false (by simp) fun h => hroom (h _ (Nat.le_refl _) hesc)
    · obtain rfl : i = 0 := by omega
      rw [if_neg h1]
      refine iff_of_true rfl fun k hk hesc => ?_
      obtain rfl : k = 0 := by omega
      cases hesc

theorem waysOn_known (hexe : r.exe ≠ none) : ∀ m i, waysOn r t n m i ≠ .error .unknownExe := by
  intro m
  induction m with
  | zero => simp [waysOn]
  | succ m ih =>
    intro i
    rw [waysOn]
    split
    · have hway : ∀ res, wayOn r t n i = res → res ≠ .error .unknownExe := by
        rintro res rfl
        rw [wayOn]
        split
        · rw [if_neg fun h => hexe h.1]
          split <;> simp
        · simp
      cases hres : wayOn r t n i with
      | ok i' => exact ih i'
      | error e => simpa using hway _ hres
    · simp

theorem verdict_known (hexe : r.exe ≠ none) : verdict r s n ≠ .error .unknownExe :=
  waysOn_known hexe _ _

/-- The test at a wild card of the template, with the NUL behind it. -/
theorem roomAt_append {front back : Str} {c : Byte} :
    RoomAt r (front ++ ESC :: c :: back ++ [0]) n (front.length + 1) ↔
      front.length + (expansion r (ESC :: c :: back)).length + slack r c < n := by
  have hdrop : (front ++ ESC :: c :: back ++ [0]).drop (front.length + 1 - 1)
      = ESC :: c :: back ++ [0] := by
    rw [Nat.add_sub_cancel, List.append_assoc, List.drop_left]
  have hget : (front ++ ESC :: c :: back ++ [0]).getD (front.length + 1) 0 = c := by
    simp [List.getD_eq_getElem?_getD]
  rw [RoomAt, hdrop, hget, expansion_nul, List.length_append, List.length_singleton]
  omega

/-- An escape character behind everything else needs no more than the text itself. -/
theorem roomAt_last {front : Str} (hlt : front.length + 1 < n) :
    RoomAt r (front ++ [ESC] ++ [0]) n (front.length + 1) := by
  have hdrop : (front ++ [ESC] ++ [0]).drop (front.length + 1 - 1) = [ESC, 0] := by
    rw [Nat.add_sub_cancel, List.append_assoc, List.drop_left]
    rfl
  have hget : (front ++ [ESC] ++ [0]).getD (front.length + 1) 0 = 0 := by
    simp [List.getD_eq_getElem?_getD]
  have hexp : (expansion r [ESC, 0]).length = 2 := by
    rw [expansion_esc_cons]
    rfl
  rw [RoomAt, hdrop, hget, hexp, show slack r 0 = 0 from rfl]
  omega

/-- **When the expansion does not end early.** -/
theorem verdict_ok_iff (hexe : r.exe ≠ none) (hhead : s[0]? ≠ some ESC) (hlt : s.length < n) :
    verdict r s n = .ok () ↔ Room r s n := by
  have hget : ∀ k < s.length, (s ++ [0])[k]? = s[k]? := fun k hk => List.getElem?_append_left hk
  have hhead' : (s ++ [0])[0]? ≠ some ESC := by
    cases s with
    | nil => decide
    | cons b s => exact hhead
  have hcut : pending ESC (s ++ [0]) (s.length + 1) = false := by
    rw [pending_succ, List.getElem?_concat_length]
    rfl
  rw [verdict, waysOn_ok_iff hexe hhead' _ _ (Nat.le_refl _) hcut]
  constructor
  · rintro hall front c back rfl hfront
    refine roomAt_append.mp (hall _ (by simp) ?_)
    rw [pending_succ, Bool.and_eq_true, decide_eq_true_eq, Bool.not_eq_true', ← hfront]
    constructor
    · simp
    · refine pending_congr fun k hk => ?_
      rw [List.append_assoc, List.getElem?_append_left hk]
  · intro hroom k hk hesc
    cases k with
    | zero => cases hesc
    | succ j =>
      rcases Nat.lt_or_eq_of_le hk with hmem | hlast
      · rw [pending_congr fun k hk => hget k (by omega)] at hesc
        obtain ⟨hs, hfront⟩ := exists_front hesc hmem
        have hlen : (s.take j).length = j := by rw [List.length_take]; omega
        have hat := roomAt_append.mpr (hroom _ _ _ hs hfront)
        rwa [hlen, ← hs] at hat
      · have hesc' := (of_pending hesc).1
        rw [hget j (by omega)] at hesc'
        have hs : s = s.take j ++ [ESC] := by
          rw [← List.take_append_drop j s]
          congr 1
          · simp
          · rw [List.drop_eq_getElem_cons (by omega), List.drop_of_length_le (by omega),
              (List.getElem?_eq_some_iff.mp hesc').2]
        have hlen : (s.take j).length = j := by rw [List.length_take]; omega
        have hat : RoomAt r (s.take j ++ [ESC] ++ [0]) n ((s.take j).length + 1) :=
          roomAt_last (by omega)
        rwa [hlen, ← hs] at hat

end Room

/-! ### The rounds of `open_output` -/

/-- `open_output` from `restart` on, with the variables `v`. -/
def openOutputFrom (env : Env) (c : ConfOutput) (template : Str) (r : RunOutput) (v : OpenVars) :
    HostRun OpenOutput := do
  match ← forever (openTurn env c template) v with
  | none => err0 r
  | some (fd, name) =>
    let filename ← strdup name
    setupFilters env c fd
      { r with outputFilename := filename, filter := [], outputFd := fd, output := false }

/-- What the variables hold at `restart` if the counter is `k`. -/
structure AtRestart (k : Nat) (v : OpenVars) : Prop where
  counter : v.counter = k
  cursor : v.cursor = none
  length : v.path.length = pathMax

def GoesTooLong (env : Env) (c : ConfOutput) (template : Str) (v : OpenVars) (h : Host)
    (o : List Answer) : Prop :=
  ∃ h' o', expandPath env c template v h o = .done none h' o'

/-- **The error is exact** in the rounds with the counter `k`: such a round is left through
`too_long` just if what `strftime` makes of the template does not fit into `path`
with its NUL, or the expansion of that does not; and then `open_output` returns -1,
nothing was opened up to there, and no file is opened after it. -/
structure TooLongExact (env : Env) (c : ConfOutput) (template : Str) (k : Nat) : Prop where
  start : ∀ r, openOutput env c r = openOutputFrom env c template r (OpenVars.start env c)
  iff : ∀ v h o, AtRestart k v → (GoesTooLong env c template v h o ↔
    pathMax < (env.strftime template).length + 1 ∨
      pathMax < (candidate env c template k).length + 1)
  returns : ∀ v h o, AtRestart k v → GoesTooLong env c template v h o →
    Ends (fun _ => True) 0 (expandPath env c template v) h
        (fun cur h' => cur = none ∧ Quietly h h') ∧
      ∀ r, Ends (fun _ => True) 2 (openOutputFrom env c template r v) h
      (fun a h' => SameFiles h h' ∧ a.1 = -1)

section Exact

variable {env : Env} {c : ConfOutput} {template : Str} {v : OpenVars} {h : Host} {o : List Answer}
  {k : Nat}

theorem openOutput_eq_from (houtput : c.output = some template)
    (hslash : template.head? = some (ch '/')) (r : RunOutput) :
    openOutput env c r = openOutputFrom env c template r (OpenVars.start env c) := by
  rw [openOutput, openSink, houtput, openOutputFrom]
  simp only
  rw [if_pos hslash, bind_assoc]
  refine bind_congr fun f => ?_
  cases f with
  | none => rfl
  | some f => simp only [bind_assoc, pure_bind]

/-- The text does not fit, and the loop is entered all the same. -/
theorem not_goesTooLong_of_text (htext : pathMax < (env.strftime template).length + 1) :
    ¬GoesTooLong env c template v h o := by
  rintro ⟨h', o', hrun⟩
  rw [expandPath, if_pos htext] at hrun
  cases hrun

/-- The round logs its notices and the message, and that is all. -/
theorem ends_expandPath_tooLong (hslash : template.head? = some (ch '/'))
    (htext : (env.strftime template).length < pathMax) (hk : Counts c k) (hv : AtRestart k v)
    (hout : outcome env c template k = .error .tooLong) :
    Ends (fun _ => True) 0 (expandPath env c template v) h
      (fun cur h' => cur = none ∧ Quietly h h') := by
  have hspec := cellsRes_roundAt hslash htext
    (intlen_le_seqLen (hv.counter.symm ▸ hk)) hv.length
  rw [outcome, ← hv.counter] at hout
  rw [expandPath, if_neg (by omega)]
  generalize expandCells _ _ = res at hspec ⊢
  cases res with
  | ok cur => cases hout.symm.trans hspec.1
  | error e =>
    cases e with
    | fault f => cases hout.symm.trans hspec.1
    | tooLong cur =>
      refine ends_step ((ends_logNotes cur.notes).mono (Nat.le_refl 0) ?_)
      rintro _ h₁ ⟨l₁, rfl⟩
      refine ends_step (ends_logmsg ?_)
      rintro h₂ ⟨l₂, rfl⟩
      exact ends_pure ⟨rfl, l₂, rfl⟩

theorem goesTooLong_iff (hslash : template.head? = some (ch '/'))
    (htext : (env.strftime template).length < pathMax) (hk : Counts c k) (hv : AtRestart k v) :
    GoesTooLong env c template v h o ↔ outcome env c template k = .error .tooLong := by
  constructor
  · rintro ⟨h', o', hrun⟩
    have hspec := cellsRes_roundAt hslash htext
      (intlen_le_seqLen (hv.counter.symm ▸ hk)) hv.length
    rw [outcome, ← hv.counter]
    rw [expandPath, if_neg (by omega)] at hrun
    generalize expandCells _ _ = res at hspec hrun
    cases res with
    | ok cur =>
      obtain ⟨u, h₂, o₂, -, hrest⟩ := of_bind_done hrun
      split at hrest
      · cases hrest
      · cases hrest
    | error e =>
      cases e with
      | fault f => cases hrun
      | tooLong cur => exact hspec.1
  · intro hout
    have hends := (ends_expandPath_tooLong (h := h) hslash htext hk hv hout).after (o := o)
      (fun _ _ => trivial) (Nat.zero_le _)
    obtain ⟨cur, h', o', hrun, rfl, -⟩ := hends.exists
    exact ⟨h', o', hrun⟩

theorem ends_openOutputFrom_tooLong (hslash : template.head? = some (ch '/'))
    (htext : (env.strftime template).length < pathMax) (hk : Counts c k) (hv : AtRestart k v)
    (hout : outcome env c template k = .error .tooLong) (r : RunOutput) :
    Ends (fun _ => True) 2 (openOutputFrom env c template r v) h
      (fun a h' => SameFiles h h' ∧ a.1 = -1) := by
  have hturn : Ends (fun _ => True) 0 (openTurn env c template v) h
      (fun res h' => ∃ f, res = .inr f ∧ f = none ∧ Quietly h h') := by
    rw [openTurn, hv.cursor]
    refine ends_step ((ends_expandPath_tooLong hslash htext hk hv hout).mono (Nat.le_refl 0) ?_)
    rintro cur h' ⟨rfl, hq⟩
    exact ends_pure ⟨none, rfl, rfl, hq⟩
  refine ends_step ((ends_forever_once hturn).mono (Nat.le_refl 0) ?_)
  rintro f h' ⟨rfl, hq⟩
  refine (ends_err0 r).mono (Nat.le_refl 2) fun a h'' ha => ?_
  exact ⟨hq.sameFiles.trans ha.1, ha.2⟩

/-- With room everywhere the expansion fits, with its NUL. -/
theorem length_candidate_lt_of_ok (hslash : template.head? = some (ch '/'))
    (htext : (env.strftime template).length < pathMax) (hk : Counts c k)
    (hok : outcome env c template k = .ok ()) : (candidate env c template k).length < pathMax := by
  obtain ⟨res, hres⟩ := outcome_spec hslash htext (intlen_le_seqLen hk)
  cases res with
  | error e =>
    cases e with
    | tooLong cur => cases hok.symm.trans hres.1
    | fault f => cases hok.symm.trans hres.1
  | ok cur =>
    obtain ⟨-, -, -, hlen, hdrop, -⟩ := hres
    have hle := congrArg List.length hdrop
    rw [List.length_drop, hlen, List.length_append, List.length_singleton] at hle
    rw [candidate]
    omega

/-- With the executable known, a round is left early just if there is no room. -/
theorem outcome_tooLong_iff (hslash : template.head? = some (ch '/'))
    (htext : (env.strftime template).length < pathMax) (hexe : env.exe ≠ none) :
    outcome env c template k = .error .tooLong ↔
      ¬Room (roundAt env c template k) (env.strftime template) pathMax := by
  have hhead : (env.strftime template)[0]? ≠ some ESC := by
    rw [← List.head?_eq_getElem?, env.strftime_slash template hslash]
    decide
  rw [← verdict_ok_iff hexe hhead htext, outcome]
  have hknown := verdict_known (r := roundAt env c template k) (s := env.strftime template)
    (n := pathMax) hexe
  generalize verdict _ _ _ = res at hknown ⊢
  cases res with
  | ok u => simp
  | error e =>
    cases e with
    | tooLong => simp
    | unknownExe => exact absurd rfl hknown

end Exact

/-- **When the error is exact**: what `strftime` makes of the template fits, and the
expansion of that either does not fit or has room at every wild card. -/
theorem tooLongExact_iff {env : Env} {c : ConfOutput} {template : Str}
    (houtput : c.output = some template) (hslash : template.head? = some (ch '/'))
    (hexe : env.exe ≠ none) {k : Nat} (hk : Counts c k) :
    TooLongExact env c template k ↔ (env.strftime template).length < pathMax ∧
      ((candidate env c template k).length < pathMax →
        Room (roundAt env c template k) (env.strftime template) pathMax) := by
  have hv : AtRestart k { path := List.replicate pathMax 0, counter := k, mkdir := false } :=
    ⟨rfl, rfl, List.length_replicate⟩
  constructor
  · intro hexact
    have htext : (env.strftime template).length < pathMax := by
      by_contra hlong
      have hgoes := (hexact.iff _ (Host.std []) [] hv).mpr (Or.inl (by omega))
      exact not_goesTooLong_of_text (by omega) hgoes
    refine ⟨htext, fun hfits => ?_⟩
    by_contra hroom
    have hgoes := (goesTooLong_iff (h := Host.std []) (o := []) hslash htext hk hv).mpr
      ((outcome_tooLong_iff hslash htext hexe).mpr hroom)
    rcases (hexact.iff _ _ _ hv).mp hgoes with hlong | hlong
    · omega
    · omega
  · rintro ⟨htext, hroom⟩
    refine ⟨openOutput_eq_from houtput hslash, fun v h o hv => ?_, fun v h o hv hgoes => ?_⟩
    · rw [goesTooLong_iff hslash htext hk hv, outcome_tooLong_iff hslash htext hexe]
      constructor
      · exact fun hno => Or.inr (Nat.lt_succ_of_le (Nat.le_of_not_lt fun hfits => hno (hroom hfits)))
      · rintro (hlong | hlong) hyes
        · omega
        · have hout : outcome env c template k = .ok () := by
            refine (verdict_ok_iff hexe ?_ htext).mpr hyes
            rw [← List.head?_eq_getElem?, env.strftime_slash template hslash]
            decide
          have := length_candidate_lt_of_ok hslash htext hk hout
          omega
    · have hout := (goesTooLong_iff hslash htext hk hv).mp hgoes
      exact ⟨ends_expandPath_tooLong hslash htext hk hv hout,
        ends_openOutputFrom_tooLong hslash htext hk hv hout⟩

theorem tooLongExact_iff_short :
    let env := Env.plain 42 (some (lit "/bin/vi"))
    let c : ConfOutput := { output := some (lit "/a@e-@p"), exist := .append }
    env.exe ≠ none ∧ (TooLongExact env c (lit "/a@e-@p") 0 ↔
      (env.strftime (lit "/a@e-@p")).length < pathMax ∧
        ((candidate env c (lit "/a@e-@p") 0).length < pathMax →
          Room (roundAt env c (lit "/a@e-@p") 0) (env.strftime (lit "/a@e-@p")) pathMax)) :=
  ⟨by decide, tooLongExact_iff rfl rfl (by decide) (Or.inl rfl)⟩

/-- A text that does not fit is expanded all the same, and a path that fits is rejected. -/
theorem not_tooLongExact :
    let env := Env.plain 1 (some (lit "x"))
    let long := List.replicate 4096 (ch '/')
    let short := List.replicate 4093 (ch '/') ++ lit "@e"
    ¬TooLongExact env { output := some long, exist := .append } long 0 ∧
      ¬TooLongExact env { output := some short, exist := .append } short 0 := by
  intro env long short
  have hv : AtRestart 0 (OpenVars.start env { exist := .append }) :=
    ⟨rfl, rfl, env.junk_length⟩
  constructor
  · intro hexact
    have htext : pathMax < (env.strftime long).length + 1 := by decide +kernel
    exact not_goesTooLong_of_text htext ((hexact.iff _ (Host.std []) [] hv).mpr (Or.inl htext))
  · intro hexact
    have htext : (env.strftime short).length < pathMax := by decide +kernel
    have hfits : (candidate env { output := some short, exist := .append } short 0).length
        < pathMax := by decide +kernel
    have hout : outcome env { output := some short, exist := .append } short 0
        = .error .tooLong := by decide +kernel
    have hgoes := (goesTooLong_iff (h := Host.std []) (o := []) (by decide +kernel) htext
      (Or.inl rfl) hv).mpr hout
    rcases (hexact.iff _ _ _ hv).mp hgoes with hlong | hlong
    · omega
    · omega

end Crashinfo
