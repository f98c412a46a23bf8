import Crashinfo.Conf.Grammar

/-!
# What a configuration says

The reference is a fold over the options and values of the lines: an option with
one value has what its last value says, a list has what was added since it was
last reset, and nothing else matters.  `parse_line` gets there with pointers to
the options, one line after the other: `parseLines_reference`.
-/

namespace Crashinfo

open Token

structure Directive where
  key : Key
  value : Str
  w₁ : Str
  w₂ : Str
  w₃ : Str
  w₄ : Str
  blank₁ : Blank isDelim w₁
  blank₂ : Blank isDelim w₂
  blank₃ : Blank isDelim w₃
  blank₄ : Blank isDelim w₄
  trimmed : Trimmed isDelim value

def Directive.line (d : Directive) : Str :=
  d.w₁ ++ (d.key.name ++ (d.w₂ ++ ch '=' :: (d.w₃ ++ (d.value ++ d.w₄))))

def Directive.pair (d : Directive) : Key × Str := (d.key, d.value)

/-- `conf` in front of the first line, in a build with or without debugging. -/
def Conf.default (debug : Bool) : Conf where
  log := { stderr := if debug then 7 else 3 }

def ConfState.start (debug : Bool) : ConfState where
  conf := .default debug
  seen := fun _ => 0

/-- The lines are given to `parse_line`, each with what an allocation comes to;
nothing, if a call does not return 0. -/
def parseLines (s : ConfState) : List (Bool × Str) → Option ConfState
  | [] => some s
  | (alloc, line) :: lines =>
    match parseLine alloc s line with
    | .ok r => if r.ret = 0 then parseLines r.state lines else none
    | .error _ => none

/-! ### The reference -/

def valuesOf (ps : List (Key × Str)) (k : Key) : List Str :=
  (ps.filter fun p => p.1 = k).map Prod.snd

def lastEnum {α : Type} (table : List (Str × α)) (default : α) (vs : List Str) : α :=
  (vs.getLast?.bind fun v => table.lookup v).getD default

def lastInt (default : Int) (vs : List Str) : Int :=
  (vs.getLast?.map fun v => toInt (strtol 0 v).1).getD default

def lastString (default : Option Str) (vs : List Str) : Option Str :=
  match vs.getLast? with
  | none => default
  | some v => if v = lit "~" then none else some v

def sinceReset (vs : List Str) : List Str := vs.rtakeWhile fun v => v ≠ lit "~"

def mapping (v : Str) : Nat × Str := (((strtol 0 v).1 % 2 ^ 64).toNat, (strtol 0 v).2.tail)

/-- **The configuration a list of options and values describes.** -/
def reference (debug : Bool) (ps : List (Key × Str)) : Conf where
  info := {
    output := lastString none (valuesOf ps .infoOutput)
    exist := lastEnum parseEnumExists .append (valuesOf ps .infoExists)
    existsSeq := lastInt 0 (valuesOf ps .infoExistsSeq)
    mkdir := lastEnum parseEnumBool false (valuesOf ps .infoMkdir)
    filter := sinceReset (valuesOf ps .infoFilter)
    notify := sinceReset (valuesOf ps .infoNotify) }
  core := {
    output := lastString none (valuesOf ps .coreOutput)
    exist := lastEnum parseEnumExists .keep (valuesOf ps .coreExists)
    existsSeq := lastInt 0 (valuesOf ps .coreExistsSeq)
    mkdir := lastEnum parseEnumBool false (valuesOf ps .coreMkdir)
    filter := sinceReset (valuesOf ps .coreFilter)
    notify := sinceReset (valuesOf ps .coreNotify) }
  coreBufferSize := lastInt (4 * 1024 * 1024) (valuesOf ps .coreBufferSize)
  corePath := lastString none (valuesOf ps .corePath)
  infoCoreNotify := sinceReset (valuesOf ps .infoCoreNotify)
  backtraceMaxDepth := lastInt 50 (valuesOf ps .backtraceMaxDepth)
  log := {
    info := lastEnum parseEnumLoglevel 5 (valuesOf ps .logInfo)
    stderr := lastEnum parseEnumLoglevel (if debug then 7 else 3) (valuesOf ps .logStderr)
    syslog := lastEnum parseEnumLoglevel (-1) (valuesOf ps .logSyslog) }
  proc := {
    ignore := lastEnum parseEnumBool false (valuesOf ps .procIgnore)
    path := lastString none (valuesOf ps .procPath)
    exe := lastString none (valuesOf ps .procExe)
    maps := (valuesOf ps .procMaps).map mapping }
  procDump := {
    root := sinceReset (valuesOf ps .procDumpRoot)
    task := sinceReset (valuesOf ps .procDumpTask) }

def Parser.refer : (p : Parser) → p.Storage → List Str → p.Storage
  | .enumExists, d, vs => lastEnum parseEnumExists d vs
  | .enumBool, d, vs => lastEnum parseEnumBool d vs
  | .enumLoglevel, d, vs => lastEnum parseEnumLoglevel d vs
  | .int, d, vs => lastInt d vs
  | .string, d, vs => lastString d vs
  | .stringMulti, _, vs => sinceReset vs
  | .mappingMulti, _, vs => vs.map mapping

theorem read_reference (debug : Bool) (ps : List (Key × Str)) (k : Key) :
    k.read (reference debug ps) =
      k.entry.parser.refer (k.read (.default debug)) (valuesOf ps k) := by
  cases k <;> rfl

theorem reference_nil (debug : Bool) : reference debug [] = .default debug := rfl

theorem valuesOf_append_self (ps : List (Key × Str)) (k : Key) (v : Str) :
    valuesOf (ps ++ [(k, v)]) k = valuesOf ps k ++ [v] := by
  rw [valuesOf, List.filter_append, List.filter_cons_of_pos (by simp)]
  simp [valuesOf]

theorem valuesOf_append_of_ne (ps : List (Key × Str)) {j k : Key} (h : j ≠ k) (v : Str) :
    valuesOf (ps ++ [(k, v)]) j = valuesOf ps j := by
  rw [valuesOf, List.filter_append, List.filter_cons_of_neg (by simpa using h.symm)]
  simp [valuesOf]

/-! ### One value -/

section Value

variable {alloc : Bool} {keyword v : Str}

/-- A parser that takes one word takes a value only if that is the word. -/
theorem eq_of_strtok {t rest : Str} (hv : Trimmed isDelim v) (hs : strtok v = (some t, rest))
    (hend : (parseEndline rest).1 = 0) : t = v := by
  have htok : tokens isDelim v = t :: tokens isDelim rest := by
    rw [strtok] at hs
    cases hn : next isDelim v with
    | none =>
      rw [hn] at hs
      cases hs
    | some p =>
      rw [hn] at hs
      cases hs
      exact (tokens_of_next hn).2
  have hrest : tokens isDelim rest = [] := by
    rw [parseEndline, strtok_fst] at hend
    cases htok : tokens isDelim rest with
    | nil => rfl
    | cons t ts =>
      rw [htok] at hend
      cases hend
  rw [hrest] at htok
  exact (hv.eq_of_tokens htok).symm

theorem parseEnum_snoc {α : Type} {table : List (Str × α)} {d : α} {vs : List Str} {r : Stored α}
    (hv : Trimmed isDelim v)
    (hrun : parseEnum table keyword v (lastEnum table d vs) = .ok r) (hr : r.ret = 0) :
    r.storage = lastEnum table d (vs ++ [v]) := by
  rw [lastEnum, List.getLast?_append, List.getLast?_singleton]
  unfold parseEnum at hrun
  match hs : strtok v with
  | (none, rest) =>
    rw [hs] at hrun
    cases hrun
  | (some t, rest) =>
    rw [hs] at hrun
    dsimp only at hrun
    cases hl : table.lookup t with
    | none =>
      rw [hl] at hrun
      cases hrun
      cases hr
    | some a =>
      rw [hl] at hrun
      cases hrun
      rw [eq_of_strtok hv hs hr] at hl
      show a = ((table.lookup v).getD d)
      rw [hl]
      rfl

theorem parseInt_snoc {d : Int} {vs : List Str} {r : Stored Int} (hv : Trimmed isDelim v)
    (hrun : parseInt keyword v (lastInt d vs) = .ok r) (hr : r.ret = 0) :
    r.storage = lastInt d (vs ++ [v]) := by
  rw [lastInt, List.getLast?_append, List.getLast?_singleton]
  unfold parseInt at hrun
  match hs : strtok v with
  | (none, rest) =>
    rw [hs] at hrun
    cases hrun
  | (some t, rest) =>
    rw [hs] at hrun
    dsimp only at hrun
    split at hrun
    · cases hrun
      cases hr
    · cases hrun
      rw [eq_of_strtok hv hs hr]
      rfl

theorem parseString_snoc {d : Option Str} {vs : List Str} {r : Stored (Option Str)}
    (hv : Trimmed isDelim v) (hrun : parseString alloc keyword v = .ok r) (hr : r.ret = 0) :
    r.storage = lastString d (vs ++ [v]) := by
  rw [lastString, List.getLast?_append, List.getLast?_singleton]
  rw [parseString, chompSpace_eq, hv.chomp_eq] at hrun
  show r.storage = if v = lit "~" then none else some v
  by_cases hreset : v = lit "~"
  · rw [if_pos hreset] at hrun ⊢
    cases hrun
    rfl
  · rw [if_neg hreset] at hrun ⊢
    cases alloc with
    | true =>
      cases hrun
      rfl
    | false =>
      cases hrun
      cases hr

theorem parseStringMulti_snoc {vs : List Str} {r : Stored (List Str)} (hv : Trimmed isDelim v)
    (hrun : parseStringMulti alloc keyword v (sinceReset vs) = .ok r) (hr : r.ret = 0) :
    r.storage = sinceReset (vs ++ [v]) := by
  rw [parseStringMulti, chompSpace_eq, hv.chomp_eq] at hrun
  by_cases hreset : v = lit "~"
  · rw [if_pos hreset] at hrun
    cases hrun
    rw [sinceReset, List.rtakeWhile_concat_neg _ _ _ (by simpa using hreset)]
  · rw [if_neg hreset] at hrun
    cases alloc with
    | true =>
      cases hrun
      have hkeep : sinceReset (vs ++ [v]) = sinceReset vs ++ [v] :=
        List.rtakeWhile_concat_pos _ _ _ (by simpa using hreset)
      rw [hkeep]
    | false =>
      cases hrun
      cases hr

theorem parseMappingMulti_snoc {vs : List Str} {r : Stored (List (Nat × Str))}
    (hv : Trimmed isDelim v)
    (hrun : parseMappingMulti alloc keyword v (vs.map mapping) = .ok r) (hr : r.ret = 0) :
    r.storage = (vs ++ [v]).map mapping := by
  have hpath : Token.chomp isDelim (strtol 0 v).2.tail = (strtol 0 v).2.tail :=
    hv.chomp_of_suffix ((List.tail_suffix _).trans (strtol_suffix 0 v))
  unfold parseMappingMulti at hrun
  dsimp only at hrun
  rw [chompSpace_eq, hpath] at hrun
  split at hrun
  · cases hrun
    cases hr
  · cases alloc with
    | true =>
      cases hrun
      rw [List.map_append]
      rfl
    | false =>
      cases hrun
      cases hr

/-- **A value that is taken has its effect.** -/
theorem parse_refer (p : Parser) {d : p.Storage} {vs : List Str} {r : Stored p.Storage}
    (hv : Trimmed isDelim v) (hrun : p.parse alloc keyword v (p.refer d vs) = .ok r)
    (hr : r.ret = 0) : r.storage = p.refer d (vs ++ [v]) := by
  cases p with
  | enumExists => exact parseEnum_snoc hv hrun hr
  | enumBool => exact parseEnum_snoc hv hrun hr
  | enumLoglevel => exact parseEnum_snoc hv hrun hr
  | int => exact parseInt_snoc hv hrun hr
  | string => exact parseString_snoc hv hrun hr
  | stringMulti => exact parseStringMulti_snoc hv hrun hr
  | mappingMulti => exact parseMappingMulti_snoc hv hrun hr

end Value

/-! ### All lines -/

section Lines

variable {alloc : Bool} {s : ConfState} {k : Key} {v : Str}

theorem of_parseOption_ok {r : Parsed} (h : parseOption alloc s k v = .ok r) :
    ∃ st, k.entry.parser.parse alloc k.name v (k.read s.conf) = .ok st ∧ r.ret = st.ret ∧
      r.state.conf = k.write s.conf st.storage := by
  cases hp : k.entry.parser.parse alloc k.name v (k.read s.conf) with
  | error f =>
    rw [parseOption_of_error hp] at h
    cases h
  | ok st =>
    obtain ⟨seen, log, hrun⟩ := parseOption_of_ok hp
    rw [hrun] at h
    cases h
    exact ⟨st, rfl, rfl, rfl⟩

theorem parseLine_directive (alloc : Bool) (s : ConfState) (d : Directive) :
    parseLine alloc s d.line = parseOption alloc s d.key d.value := by
  have hdir : IsDirective d.key d.value d.line :=
    ⟨d.w₁, d.w₂, d.w₃, d.w₄, d.blank₁, d.blank₂, d.blank₃, d.blank₄, d.trimmed, rfl⟩
  obtain ⟨hwords, hvalue, htrim⟩ := isDirective_iff.mp hdir
  rw [parseLine_option hwords hvalue, ← htrim]

/-- A line changes no option but its own. -/
theorem read_of_parseLine {d : Directive} {r : Parsed} (h : parseLine alloc s d.line = .ok r)
    {j : Key} (hj : j ≠ d.key) : j.read r.state.conf = j.read s.conf := by
  rw [parseLine_directive] at h
  obtain ⟨st, -, -, hconf⟩ := of_parseOption_ok h
  rw [hconf, Key.read_write_of_ne _ hj]

/-- A line that is accepted is one more step of the reference. -/
theorem reference_snoc {debug : Bool} {ps : List (Key × Str)} {d : Directive} {r : Parsed}
    (hs : s.conf = reference debug ps) (h : parseLine alloc s d.line = .ok r) (hr : r.ret = 0) :
    r.state.conf = reference debug (ps ++ [d.pair]) := by
  refine Conf.ext_read fun j => ?_
  by_cases hj : j = d.key
  · rw [parseLine_directive] at h
    obtain ⟨st, hst, hret, hconf⟩ := of_parseOption_ok h
    rw [hs, read_reference] at hst
    rw [hj, hconf, Key.read_write, read_reference, Directive.pair, valuesOf_append_self]
    exact parse_refer d.key.entry.parser d.trimmed hst (hret.symm.trans hr)
  · rw [read_of_parseLine h hj, hs, read_reference, read_reference, Directive.pair,
      valuesOf_append_of_ne ps hj]

/-- **The configuration behind a list of lines depends on their options and values
only**, as the reference says, and a line changes no option but its own. -/
theorem parseLines_reference {debug : Bool} {ds : List (Bool × Directive)} {s' : ConfState}
    (h : parseLines (.start debug) (ds.map fun d => (d.1, d.2.line)) = some s') :
    s'.conf = reference debug (ds.map fun d => d.2.pair) ∧
      ∀ alloc s d r, parseLine alloc s (Directive.line d) = .ok r →
        ∀ k ≠ d.key, Key.read r.state.conf k = Key.read s.conf k := by
  refine ⟨?_, fun alloc s d r hrun k hk => read_of_parseLine hrun hk⟩
  have hrun : ∀ (ds : List (Bool × Directive)) (ps : List (Key × Str)) (s : ConfState),
      s.conf = reference debug ps →
      parseLines s (ds.map fun d => (d.1, d.2.line)) = some s' →
      s'.conf = reference debug (ps ++ ds.map fun d => d.2.pair) := by
    intro ds
    induction ds with
    | nil =>
      intro ps s hs h
      cases h
      rw [List.map_nil, List.append_nil, hs]
    | cons d ds ih =>
      intro ps s hs h
      rw [List.map_cons, parseLines] at h
      split at h
      · rename_i r hline
        split at h
        · rename_i hret
          have hstep := ih _ _ (reference_snoc hs hline hret) h
          rwa [List.append_assoc, List.singleton_append] at hstep
        · cases h
      · cases h
  exact hrun ds [] _ (reference_nil debug).symm h

/-- A filter is set, reset and set again, the core is kept. -/
theorem parseLines_reference_filter :
    let d (k : Key) (v : Str) (hv : Trimmed isDelim v) : Bool × Directive :=
      (true, ⟨k, v, [], lit " ", lit "\t", lit "\n", nofun, by decide, by decide, by decide, hv⟩)
    let ds := [d .coreFilter (lit "gzip -1") (by decide), d .coreExists (lit "keep") (by decide),
      d .coreFilter (lit "~") (by decide), d .coreFilter (lit "xz") (by decide)]
    ∃ s', parseLines (.start false) (ds.map fun d => (d.1, d.2.line)) = some s' ∧
      s'.conf = reference false (ds.map fun d => d.2.pair) := by
  intro d ds
  have hrun : (parseLines (.start false) (ds.map fun d => (d.1, d.2.line))).isSome := by
    decide
  obtain ⟨s', hs⟩ := Option.isSome_iff_exists.mp hrun
  exact ⟨s', hs, (parseLines_reference hs).1⟩

end Lines

end Crashinfo
