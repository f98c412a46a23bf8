import Crashinfo.Conf.Reference

/-!
# Printing the configuration

`log_conf` prints every option as a line that could stand in a configuration
file.  Such a line is read back by the parser of the option, whatever an accepted
configuration has put there (`Parser.Good`), so the lines restore the whole
configuration, apart from `proc_maps`: there `~` means nothing to the parser.
-/

namespace Crashinfo

open Token

def ConfExists.code : ConfExists → Int
  | .default => 0
  | .append => 1
  | .overwrite => 2
  | .keep => 3
  | .sequence => 4

def logEnum {α : Type} [DecidableEq α] (table : List (Str × α)) (code : α → Int) (v : α) : Str :=
  match table.find? fun p => p.2 = v with
  | some p => p.1
  | none => lit "UNKNOWN_VALUE_" ++ fmtD (code v)

def fmtHash (n : Nat) : Str :=
  if n = 0 then lit "0" else lit "0x" ++ (Numeral.digits 16 n).map digitChar

/-- What the dumper of a parser prints, behind the `=` of each line. -/
def Parser.dump : (p : Parser) → p.Storage → List Str
  | .enumExists, v => [logEnum parseEnumExists ConfExists.code v]
  | .enumBool, v => [logEnum parseEnumBool (fun b => if b then 1 else 0) v]
  | .enumLoglevel, v => [logEnum parseEnumLoglevel id v]
  | .int, v => [fmtD v]
  | .string, v => [v.getD (lit "~")]
  | .stringMulti, vs => if vs = [] then [lit "~"] else vs
  | .mappingMulti, vs =>
    if vs = [] then [lit "~"] else vs.map fun m => fmtHash m.1 ++ lit ":" ++ m.2

def Key.dump (c : Conf) (k : Key) : List Str :=
  (k.entry.parser.dump (k.read c)).map fun v => k.name ++ lit " = " ++ v

def logConf (c : Conf) : List Str := keywords.flatMap (Key.dump c)

/-! ### What is stored -/

def IsText (v : Str) : Prop := Trimmed isDelim v ∧ v ≠ lit "~"

def Parser.Good : (p : Parser) → p.Storage → Prop
  | .enumExists, v => ∃ name, (name, v) ∈ parseEnumExists
  | .enumBool, v => ∃ name, (name, v) ∈ parseEnumBool
  | .enumLoglevel, v => ∃ name, (name, v) ∈ parseEnumLoglevel
  | .int, v => IsInt v
  | .string, v => ∀ s ∈ v, IsText s
  | .stringMulti, vs => ∀ s ∈ vs, IsText s
  | .mappingMulti, _ => True

section Good

variable {alloc : Bool} {keyword v : Str}

theorem mem_of_lookup {α : Type} {table : List (Str × α)} {t : Str} {a : α}
    (h : table.lookup t = some a) : ∃ name, (name, a) ∈ table := by
  obtain ⟨l₁, l₂, hl, -⟩ := List.lookup_eq_some_iff.mp h
  exact ⟨t, hl ▸ List.mem_append_right l₁ List.mem_cons_self⟩

theorem parseEnum_good {α : Type} {table : List (Str × α)} {old : α} {r : Stored α}
    (hold : ∃ name, (name, old) ∈ table) (hrun : parseEnum table keyword v old = .ok r) :
    ∃ name, (name, r.storage) ∈ table := by
  unfold parseEnum at hrun
  split at hrun
  · cases hrun
  · split at hrun
    · rename_i hl
      cases hrun
      exact mem_of_lookup hl
    · cases hrun
      exact hold

theorem parseInt_good {old : Int} {r : Stored Int} (hold : IsInt old)
    (hrun : parseInt keyword v old = .ok r) : IsInt r.storage := by
  unfold parseInt at hrun
  split at hrun
  · cases hrun
  · dsimp only at hrun
    split at hrun
    · cases hrun
      exact hold
    · cases hrun
      exact isInt_toInt _

theorem parseString_good {r : Stored (Option Str)} (hv : Trimmed isDelim v)
    (hrun : parseString alloc keyword v = .ok r) : ∀ s ∈ r.storage, IsText s := by
  rw [parseString, chompSpace_eq, hv.chomp_eq] at hrun
  split at hrun
  · cases hrun
    exact fun s hs => absurd hs (Option.not_mem_none s)
  · rename_i hreset
    split at hrun
    · cases hrun
      intro s hs
      obtain rfl := Option.some.inj hs
      exact ⟨hv, hreset⟩
    · cases hrun
      exact fun s hs => absurd hs (Option.not_mem_none s)

theorem parseStringMulti_good {old : List Str} {r : Stored (List Str)} (hv : Trimmed isDelim v)
    (hold : ∀ s ∈ old, IsText s) (hrun : parseStringMulti alloc keyword v old = .ok r) :
    ∀ s ∈ r.storage, IsText s := by
  rw [parseStringMulti, chompSpace_eq, hv.chomp_eq] at hrun
  split at hrun
  · cases hrun
    exact List.forall_mem_nil _
  · rename_i hreset
    split at hrun
    · cases hrun
      intro s hs
      rcases List.mem_append.mp hs with hs | hs
      · exact hold s hs
      · rw [List.mem_singleton.mp hs]
        exact ⟨hv, hreset⟩
    · cases hrun
      exact hold

theorem parse_good (p : Parser) {old : p.Storage} {r : Stored p.Storage} (hv : Trimmed isDelim v)
    (hold : p.Good old) (hrun : p.parse alloc keyword v old = .ok r) : p.Good r.storage := by
  cases p with
  | enumExists => exact parseEnum_good hold hrun
  | enumBool => exact parseEnum_good hold hrun
  | enumLoglevel => exact parseEnum_good hold hrun
  | int => exact parseInt_good hold hrun
  | string => exact parseString_good hv hrun
  | stringMulti => exact parseStringMulti_good hv hold hrun
  | mappingMulti => exact trivial

end Good

/-- A configuration in which every option has a value of its own kind. -/
def Conf.Good (c : Conf) : Prop := ∀ k : Key, k.entry.parser.Good (k.read c)

theorem good_default (debug : Bool) : (Conf.default debug).Good := by
  intro k
  have hzero : IsInt 0 := ⟨by decide, by decide⟩
  cases k with
  | infoExists => exact ⟨lit "append", by decide +revert⟩
  | coreExists => exact ⟨lit "keep", by decide +revert⟩
  | infoMkdir | coreMkdir | procIgnore => exact ⟨lit "0", by decide +revert⟩
  | logInfo => exact ⟨lit "notice", by decide +revert⟩
  | logSyslog => exact ⟨lit "none", by decide +revert⟩
  | logStderr =>
    cases debug with
    | true => exact ⟨lit "debug", by decide⟩
    | false => exact ⟨lit "err", by decide⟩
  | infoExistsSeq | coreExistsSeq => exact hzero
  | coreBufferSize =>
    have hsize : IsInt (4 * 1024 * 1024) := ⟨by decide, by decide⟩
    exact hsize
  | backtraceMaxDepth =>
    have hdepth : IsInt 50 := ⟨by decide, by decide⟩
    exact hdepth
  | infoOutput | coreOutput | corePath | procPath | procExe => exact nofun
  | infoFilter | infoNotify | coreFilter | coreNotify | infoCoreNotify | procDumpRoot
  | procDumpTask => exact nofun
  | procMaps => exact trivial

theorem good_parseLine {alloc : Bool} {s : ConfState} {line : Str} {r : Parsed}
    (hs : s.conf.Good) (h : parseLine alloc s line = .ok r) : r.state.conf.Good := by
  rcases parseLine_cases alloc s line with ⟨ret, log, hrun⟩ | ⟨k, -, -, hv, hrun⟩
  · rw [hrun] at h
    cases h
    exact hs
  · rw [hrun] at h
    obtain ⟨st, hst, -, hconf⟩ := of_parseOption_ok h
    intro j
    rw [hconf]
    by_cases hj : j = k
    · rw [hj, Key.read_write]
      exact parse_good _ hv (hs k) hst
    · rw [Key.read_write_of_ne _ hj]
      exact hs j

theorem good_parseLines {s s' : ConfState} {lines : List (Bool × Str)} (hs : s.conf.Good)
    (h : parseLines s lines = some s') : s'.conf.Good := by
  induction lines generalizing s with
  | nil =>
    cases h
    exact hs
  | cons l lines ih =>
    rw [parseLines] at h
    split at h
    · rename_i r hline
      split at h
      · exact ih (good_parseLine hs hline) h
      · cases h
    · cases h

/-! ### Reading it back -/

/-- The values of some lines are taken one after the other, from what is stored
first to what is stored last. -/
def Parser.Feeds (p : Parser) (keyword : Str) : List Str → p.Storage → p.Storage → Prop
  | [], old, new => old = new
  | v :: vs, old, new => Trimmed isDelim v ∧ ∃ r, p.parse true keyword v old = .ok r ∧ r.ret = 0 ∧
      p.Feeds keyword vs r.storage new

section Feeds

variable {keyword : Str}

theorem strtok_word {t : Str} (ht : Word isDelim t) : strtok t = (some t, []) := by
  have hnext : next isDelim ([] ++ t) = some (t, []) := next_word (List.forall_mem_nil _) ht
  rw [List.nil_append] at hnext
  rw [strtok, hnext]

/-- The names of a table are words, each with its own value. -/
def IsTable {α : Type} (table : List (Str × α)) : Prop :=
  ∀ p ∈ table, Word isDelim p.1 ∧ table.lookup p.1 = some p.2

theorem isTable_exists : IsTable parseEnumExists := by
  unfold IsTable
  decide

theorem isTable_bool : IsTable parseEnumBool := by
  unfold IsTable
  decide

theorem isTable_loglevel : IsTable parseEnumLoglevel := by
  unfold IsTable
  decide

theorem parseEnum_logEnum {α : Type} [DecidableEq α] {table : List (Str × α)} {code : α → Int}
    (htable : IsTable table) {v : α} (hv : ∃ name, (name, v) ∈ table) (old : α) :
    Trimmed isDelim (logEnum table code v) ∧
      parseEnum table keyword (logEnum table code v) old = .ok ⟨0, v, []⟩ := by
  have hname : ∃ name, logEnum table code v = name ∧ (name, v) ∈ table := by
    rw [logEnum]
    cases hf : table.find? fun p => p.2 = v with
    | none =>
      obtain ⟨name, hmem⟩ := hv
      exact absurd (decide_eq_true rfl) (List.find?_eq_none.mp hf _ hmem)
    | some p =>
      have hp := List.find?_some (p := fun q : Str × α => q.2 = v) hf
      refine ⟨p.1, rfl, ?_⟩
      rw [← of_decide_eq_true hp]
      exact List.mem_of_find?_eq_some hf
  obtain ⟨name, heq, hmem⟩ := hname
  obtain ⟨hword, hlookup⟩ := htable _ hmem
  rw [heq, parseEnum, strtok_word hword]
  refine ⟨hword.trimmed, ?_⟩
  dsimp only
  rw [hlookup]
  rfl

theorem word_fmtD (i : Int) : Word isDelim (fmtD i) := by
  have hdigit : ∀ c : Byte, c.toNat = 45 ∨ 48 ≤ c.toNat ∧ c.toNat ≤ 57 → isDelim c = false := by
    apply forall_byte
    decide +kernel
  refine ⟨fmtD_ne_nil i, fun c hc => hdigit c ?_⟩
  exact (isNum_of_mem_fmtD hc).imp_left (congrArg UInt8.toNat)

theorem parseInt_fmtD {i : Int} (hi : IsInt i) (old : Int) :
    parseInt keyword (fmtD i) old = .ok ⟨0, i, []⟩ := by
  rw [parseInt, strtok_word (word_fmtD i)]
  dsimp only
  rw [strtol_fmtD hi, toInt_of_isInt hi]
  rfl

theorem feeds_stringMulti {vs : List Str} (hvs : ∀ v ∈ vs, IsText v) (old : List Str) :
    Parser.Feeds .stringMulti keyword vs old (old ++ vs) := by
  induction vs generalizing old with
  | nil => exact (List.append_nil old).symm
  | cons v vs ih =>
    obtain ⟨⟨hv, hreset⟩, hrest⟩ := List.forall_mem_cons.mp hvs
    refine ⟨hv, ⟨0, old ++ [v], []⟩, ?_, rfl, ?_⟩
    · show parseStringMulti true keyword v old = _
      rw [parseStringMulti, if_neg hreset, chompSpace_eq, hv.chomp_eq]
      rfl
    · have hfeeds := ih hrest (old ++ [v])
      rwa [List.append_assoc] at hfeeds

def Parser.Fresh : (p : Parser) → p.Storage → Prop
  | .stringMulti, vs => vs = []
  | _, _ => True

theorem fresh_default (debug : Bool) (k : Key) :
    k.entry.parser.Fresh (k.read (.default debug)) := by
  cases k <;> trivial

/-- **What is printed is taken**, and leads to what was printed, if there is no list
in front of it. -/
theorem feeds_dump {p : Parser} (hp : p ≠ .mappingMulti) {v old : p.Storage} (hv : p.Good v)
    (hold : p.Fresh old) : p.Feeds keyword (p.dump v) old v := by
  cases p with
  | enumExists =>
    obtain ⟨htrim, hparse⟩ := parseEnum_logEnum isTable_exists hv old
    exact ⟨htrim, _, hparse, rfl, rfl⟩
  | enumBool =>
    obtain ⟨htrim, hparse⟩ := parseEnum_logEnum isTable_bool hv old
    exact ⟨htrim, _, hparse, rfl, rfl⟩
  | enumLoglevel =>
    obtain ⟨htrim, hparse⟩ := parseEnum_logEnum isTable_loglevel hv old
    exact ⟨htrim, _, hparse, rfl, rfl⟩
  | int => exact ⟨(word_fmtD v).trimmed, _, parseInt_fmtD hv old, rfl, rfl⟩
  | string =>
    cases v with
    | none => exact ⟨by decide, _, rfl, rfl, rfl⟩
    | some v =>
      obtain ⟨htrim, hreset⟩ := hv v rfl
      refine ⟨htrim, ⟨0, some v, []⟩, ?_, rfl, rfl⟩
      show parseString true keyword v = _
      rw [parseString, if_neg hreset, chompSpace_eq, htrim.chomp_eq]
      rfl
  | stringMulti =>
    have hold' : old = [] := hold
    subst hold'
    by_cases hnil : v = []
    · subst hnil
      exact ⟨by decide, _, rfl, rfl, rfl⟩
    · have hfeeds : Parser.Feeds .stringMulti keyword v [] ([] ++ v) := feeds_stringMulti hv []
      rw [Parser.dump, if_neg hnil]
      exact hfeeds
  | mappingMulti => exact absurd rfl hp

end Feeds

/-! ### The whole configuration -/

theorem parseLines_append (s : ConfState) (as bs : List (Bool × Str)) :
    parseLines s (as ++ bs) = (parseLines s as).bind (parseLines · bs) := by
  induction as generalizing s with
  | nil => rfl
  | cons a as ih =>
    rw [List.cons_append, parseLines, parseLines]
    split
    · split
      · exact ih _
      · rfl
    · rfl

theorem parseLines_feeds (k : Key) {vs : List Str} {s : ConfState} {new : k.Storage}
    (h : k.entry.parser.Feeds k.name vs (k.read s.conf) new) :
    ∃ s', parseLines s (vs.map fun v => (true, k.name ++ lit " = " ++ v)) = some s' ∧
      s'.conf = k.write s.conf new := by
  induction vs generalizing s with
  | nil =>
    have hsame : k.read s.conf = new := h
    refine ⟨s, rfl, Conf.ext_read fun j => ?_⟩
    by_cases hj : j = k
    · rw [hj, Key.read_write, hsame]
    · rw [Key.read_write_of_ne _ hj]
  | cons v vs ih =>
    obtain ⟨hv, r, hr, hret, hrest⟩ := h
    let d : Directive := ⟨k, v, [], lit " ", lit " ", [], List.forall_mem_nil _, by decide, by decide,
      List.forall_mem_nil _, hv⟩
    have hline : k.name ++ lit " = " ++ v = d.line := by
      show _ = k.name ++ (lit " " ++ ch '=' :: (lit " " ++ (v ++ [])))
      rw [List.append_nil, List.append_assoc]
      rfl
    obtain ⟨seen, log, hopt⟩ := parseOption_of_ok hr
    have hrun : parseLine true s d.line = .ok ⟨r.ret, ⟨k.write s.conf r.storage, seen⟩, log⟩ :=
      (parseLine_directive true s d).trans hopt
    rw [← Key.read_write s.conf k r.storage] at hrest
    obtain ⟨s', hs', hconf⟩ := ih (s := ⟨k.write s.conf r.storage, seen⟩) hrest
    refine ⟨s', ?_, hconf.trans ?_⟩
    · rw [List.map_cons, parseLines, hline, hrun]
      dsimp only
      rw [if_pos hret, hs']
    · refine Conf.ext_read fun j => ?_
      by_cases hj : j = k
      · rw [hj, Key.read_write, Key.read_write]
      · rw [Key.read_write_of_ne _ hj, Key.read_write_of_ne _ hj, Key.read_write_of_ne _ hj]

theorem parseLines_dump {c : Conf} (hc : c.Good) {ks : List Key} (hnodup : ks.Nodup)
    (hmaps : ∀ k ∈ ks, k ≠ .procMaps) {s : ConfState}
    (hfresh : ∀ k ∈ ks, k.entry.parser.Fresh (k.read s.conf)) :
    ∃ s', parseLines s ((ks.flatMap (Key.dump c)).map fun l => (true, l)) = some s' ∧
      (∀ k ∈ ks, k.read s'.conf = k.read c) ∧ ∀ k ∉ ks, k.read s'.conf = k.read s.conf := by
  induction ks generalizing s with
  | nil => exact ⟨s, rfl, nofun, fun _ _ => rfl⟩
  | cons k ks ih =>
    obtain ⟨hk, hnodup⟩ := List.nodup_cons.mp hnodup
    obtain ⟨hkm, hmaps⟩ := List.forall_mem_cons.mp hmaps
    obtain ⟨hkf, hfresh⟩ := List.forall_mem_cons.mp hfresh
    have hparser : k.entry.parser ≠ .mappingMulti := by
      intro heq
      refine hkm ?_
      cases k <;> first | rfl | cases heq
    have hfeeds : k.entry.parser.Feeds k.name (k.entry.parser.dump (k.read c)) (k.read s.conf)
        (k.read c) := feeds_dump hparser (hc k) hkf
    obtain ⟨s₁, hrun, hconf⟩ := parseLines_feeds k hfeeds
    have hother : ∀ j ≠ k, j.read s₁.conf = j.read s.conf := by
      intro j hj
      rw [hconf, Key.read_write_of_ne _ hj]
    have hne : ∀ j ∈ ks, j ≠ k := fun j hj heq => hk (heq ▸ hj)
    obtain ⟨s', hrest, hin, hout⟩ := ih hnodup hmaps
      (s := s₁) fun j hj => by rw [hother j (hne j hj)]; exact hfresh j hj
    refine ⟨s', ?_, ?_, fun j hj => ?_⟩
    · rw [List.flatMap_cons, List.map_append, parseLines_append, Key.dump, List.map_map]
      exact (congrArg (Option.bind · _) hrun).trans hrest
    · refine List.forall_mem_cons.mpr ⟨?_, hin⟩
      rw [hout k hk, hconf, Key.read_write]
    · rw [List.mem_cons, not_or] at hj
      rw [hout j hj.2, hother j hj.1]

/-- The lines of `log_conf`, without those of `proc_maps`. -/
def dumpLines (c : Conf) : List Str := (keywords.filter (· ≠ .procMaps)).flatMap (Key.dump c)

/-- What `log_conf` prints are these, with those of `proc_maps` among them. -/
theorem logConf_eq (c : Conf) : ∃ before after,
    logConf c = before ++ Key.dump c .procMaps ++ after ∧ dumpLines c = before ++ after := by
  have hkeys : keywords = keywords.takeWhile (· ≠ .procMaps) ++ .procMaps ::
      [.procDumpRoot, .procDumpTask] := by decide
  have hrest : keywords.filter (· ≠ .procMaps) =
      keywords.takeWhile (· ≠ .procMaps) ++ [.procDumpRoot, .procDumpTask] := by decide
  refine ⟨(keywords.takeWhile (· ≠ .procMaps)).flatMap (Key.dump c),
    [.procDumpRoot, .procDumpTask].flatMap (Key.dump c), ?_, ?_⟩
  · rw [logConf, List.append_assoc, ← List.flatMap_cons, ← List.flatMap_append, ← hkeys]
  · rw [dumpLines, hrest, List.flatMap_append]

/-- **What `log_conf` prints of a configuration restores it.** -/
theorem parseLines_dumpLines {debug : Bool} {lines : List (Bool × Str)} {s : ConfState}
    (h : parseLines (.start debug) lines = some s) :
    ∃ s', parseLines (.start debug) ((dumpLines s.conf).map fun l => (true, l)) = some s' ∧
      ∀ k : Key, k ≠ .procMaps → k.read s'.conf = k.read s.conf := by
  have hgood := good_parseLines (good_default debug) h
  have hmem : ∀ k : Key, k ∈ keywords.filter (· ≠ .procMaps) ↔ k ≠ .procMaps := by
    intro k
    rw [List.mem_filter, and_iff_right (mem_keywords k), decide_eq_true_eq]
  obtain ⟨s', hrun, hin, -⟩ := parseLines_dump hgood (nodup_keywords.filter _)
    (fun k hk => (hmem k).mp hk) (s := .start debug) fun k _ => fresh_default debug k
  exact ⟨s', hrun, fun k hk => hin k ((hmem k).mpr hk)⟩

theorem parseLines_dumpLines_filter :
    ∃ s, parseLines (.start true) [(true, lit "core_filter = sed s/a=#/~/ -"),
        (true, lit "info_exists_seq = -0x10"), (true, lit "core_output = ~")] = some s ∧
      ∃ s', parseLines (.start true) ((dumpLines s.conf).map fun l => (true, l)) = some s' ∧
        ∀ k : Key, k ≠ .procMaps → k.read s'.conf = k.read s.conf := by
  have hrun : (parseLines (.start true) [(true, lit "core_filter = sed s/a=#/~/ -"),
      (true, lit "info_exists_seq = -0x10"), (true, lit "core_output = ~")]).isSome := by
    decide
  obtain ⟨s, hs⟩ := Option.isSome_iff_exists.mp hrun
  exact ⟨s, hs, parseLines_dumpLines hs⟩

end Crashinfo
