import Crashinfo.Conf.Keywords
import Crashinfo.Conf.Number
import Crashinfo.Log

/-!
# Parsing the configuration

`parse_line` and the parsers of the values.  A parser gets the value and what is
stored for its keyword, and says what it returns, what is stored then, and what
it has logged.  A call allocates memory at most once, and `alloc` says whether it
gets it.
-/

namespace Crashinfo

/-- `strlen_chomp`, with the string of that length. -/
def chompSpace (value : Str) : Str := Token.chomp (fun c => isspace (sint c)) value

theorem chompSpace_eq (value : Str) : chompSpace value = Token.chomp isDelim value := by
  rw [chompSpace, funext isspace_sint]

def parseEnumBool : List (Str × Bool) := [(lit "0", false), (lit "1", true)]

def parseEnumExists : List (Str × ConfExists) :=
  [(lit "append", .append), (lit "overwrite", .overwrite), (lit "keep", .keep),
    (lit "sequence", .sequence)]

def parseEnumLoglevel : List (Str × Int) :=
  [(lit "none", -1), (lit "emerg", 0), (lit "alert", 1), (lit "crit", 2), (lit "err", 3),
    (lit "warning", 4), (lit "notice", 5), (lit "info", 6), (lit "debug", 7)]

structure Stored (α : Type) where
  ret : Int
  storage : α
  log : List (Prio × Str)

/-- `parse_endline`; `rest` is where `strtok` goes on. -/
def parseEndline (rest : Str) : Int × List (Prio × Str) :=
  match (strtok rest).1 with
  | none => (0, [])
  | some token => (-1, [(.crit, lit "Garbage at the end of the line: " ++ token ++ lit "...")])

/-- `parse_enum`; the names of each of the tables have room in `values`. -/
def parseEnum {α : Type} (table : List (Str × α)) (keyword value : Str) (storage : α) :
    Except Fault (Stored α) :=
  match strtok value with
  | (none, _) => .error .assertion
  | (some value, rest) =>
    match table.lookup value with
    | some v => .ok ⟨(parseEndline rest).1, v, (parseEndline rest).2⟩
    | none =>
      let values := List.intercalate (lit ", ") (table.map Prod.fst)
      .ok ⟨-1, storage, [(.crit, lit "Invalid value '" ++ value ++ lit "' for '" ++ keyword ++
        lit "', expected one of [" ++ values ++ lit "]")]⟩

example : (List.intercalate (lit ", ") (parseEnumLoglevel.map Prod.fst)).length < 252 := by decide

def noMemory (keyword : Str) : List (Prio × Str) :=
  [(.crit, lit "Allocation failed while processing '" ++ keyword ++ lit "'")]

def parseStringMulti (alloc : Bool) (keyword value : Str) (storage : List Str) :
    Except Fault (Stored (List Str)) :=
  if value = lit "~" then .ok ⟨0, [], []⟩
  else if alloc then .ok ⟨0, storage ++ [chompSpace value], []⟩
  else .ok ⟨-1, storage, noMemory keyword⟩

/-- `parse_string`; the old string is gone in any case. -/
def parseString (alloc : Bool) (keyword value : Str) : Except Fault (Stored (Option Str)) :=
  if value = lit "~" then .ok ⟨0, none, []⟩
  else if alloc then .ok ⟨0, some (chompSpace value), []⟩
  else .ok ⟨-1, none, noMemory keyword⟩

def parseInt (keyword value : Str) (storage : Int) : Except Fault (Stored Int) :=
  match strtok value with
  | (none, _) => .error .nullDeref
  | (some value, rest) =>
    let (n, end_) := strtol 0 value
    if end_ ≠ [] then
      .ok ⟨-1, storage, [(.crit, lit "Keyword '" ++ keyword ++
        lit "' requires integer value. Got '" ++ value ++ lit "'")]⟩
    else .ok ⟨(parseEndline rest).1, toInt n, (parseEndline rest).2⟩

/-- `parse_mapping_multi`; a `long long` is a `long`. -/
def parseMappingMulti (alloc : Bool) (keyword value : Str) (storage : List (Nat × Str)) :
    Except Fault (Stored (List (Nat × Str))) :=
  let (n, end_) := strtol 0 value
  if end_.head? ≠ some (ch ':') then
    .ok ⟨-1, storage, [(.crit, lit "Keyword '" ++ keyword ++
      lit "' requires the argument in the form <addr>:<path>. Got '" ++ value ++ lit "'")]⟩
  else if alloc then .ok ⟨0, storage ++ [((n % 2 ^ 64).toNat, chompSpace end_.tail)], []⟩
  else .ok ⟨-1, storage, noMemory keyword⟩

def Parser.parse (alloc : Bool) (keyword value : Str) :
    (p : Parser) → p.Storage → Except Fault (Stored p.Storage)
  | .enumExists => parseEnum parseEnumExists keyword value
  | .enumBool => parseEnum parseEnumBool keyword value
  | .enumLoglevel => parseEnum parseEnumLoglevel keyword value
  | .int => parseInt keyword value
  | .string => fun _ => parseString alloc keyword value
  | .stringMulti => parseStringMulti alloc keyword value
  | .mappingMulti => parseMappingMulti alloc keyword value

structure ConfState where
  conf : Conf
  /-- `keyword_seen` -/
  seen : Key → Nat

structure Parsed where
  ret : Int
  state : ConfState
  log : List (Prio × Str) := []

def parseOption (alloc : Bool) (s : ConfState) (k : Key) (value : Str) : Except Fault Parsed := do
  let twice : List (Prio × Str) :=
    if s.seen k ≠ 0 ∧ ¬k.entry.multi then
      [(.info, lit "'" ++ k.name ++
        lit "' specified multiple times although it's not a multi value option")]
    else []
  let r ← k.entry.parser.parse alloc k.name value (k.read s.conf)
  return {
    ret := r.ret
    state := {
      conf := k.write s.conf r.storage
      seen := Function.update s.seen k ((s.seen k + 1) % 2 ^ 32) }
    log := twice ++ r.log }

/-- What stands behind the first `=`, without white space in front. -/
def valueOf (line : Str) : Option Str :=
  match line.dropWhile (· ≠ ch '=') with
  | [] => none
  | _ :: value => some (value.dropWhile isDelim)

def parseLine (alloc : Bool) (s : ConfState) (line : Str) : Except Fault Parsed :=
  match (strtok (line.takeWhile (· ≠ ch '='))).1 with
  | none => .ok { ret := 0, state := s }
  | some keyword =>
    if keyword.head? = some (ch '#') then .ok { ret := 0, state := s }
    else if valueOf line = none ∨ valueOf line = some [] then
      .ok { ret := 1, state := s, log := [(.crit, lit "Missing value for '" ++ keyword ++ lit "'")] }
    else
      match keywords.find? (fun k => k.name = keyword) with
      | some k => parseOption alloc s k (chompSpace ((valueOf line).getD []))
      | none =>
        .ok { ret := 1, state := s, log := [(.warn, lit "Unknown keyword '" ++ keyword ++ lit "'")] }

/-! ### What fails says so -/

def Tells (ret : Int) (log : List Message) : Prop := ret ≠ 0 → ∃ m ∈ log, m.Bad

/-- A text that does not begin as the message about a long line does. -/
def NotLong (text : Str) : Prop := ∃ c ∈ text.head?, c ≠ ch 'L'

instance (text : Str) : Decidable (NotLong text) := inferInstanceAs (Decidable (∃ c ∈ _, _))

/-- The last message of a failure is about the value or the keyword. -/
def Blames (ret : Int) (log : List Message) : Prop :=
  ret ≠ 0 → ∃ log' m, log = log' ++ [m] ∧ m.Bad ∧ NotLong m.2

theorem Blames.tells {ret : Int} {log : List Message} (h : Blames ret log) : Tells ret log := by
  intro hret
  obtain ⟨log', m, rfl, hbad, -⟩ := h hret
  exact ⟨m, List.mem_append_right _ (List.mem_singleton_self m), hbad⟩

theorem NotLong.append {a : Str} (h : NotLong a) (b : Str) : NotLong (a ++ b) := by
  obtain ⟨c, hc, hne⟩ := h
  refine ⟨c, ?_, hne⟩
  cases a with
  | nil => exact absurd hc (Option.not_mem_none c)
  | cons d a => exact hc

theorem blames_zero (log : List Message) : Blames 0 log := fun h => absurd rfl h

theorem blames_crit (ret : Int) {text : Str} (h : NotLong text) : Blames ret [(.crit, text)] :=
  fun _ => ⟨[], _, rfl, Nat.succ_ne_zero 3, h⟩

theorem Blames.append {ret : Int} {log : List Message} (h : Blames ret log) (log' : List Message) :
    Blames ret (log' ++ log) := by
  intro hret
  obtain ⟨log'', m, rfl, hm⟩ := h hret
  exact ⟨log' ++ log'', m, (List.append_assoc _ _ _).symm, hm⟩

theorem parseEndline_blames (rest : Str) : Blames (parseEndline rest).1 (parseEndline rest).2 := by
  rw [parseEndline]
  split
  · exact blames_zero _
  · apply blames_crit
    exact (NotLong.append (by decide) _).append _

theorem noMemory_blames (ret : Int) (keyword : Str) : Blames ret (noMemory keyword) := by
  apply blames_crit
  exact (NotLong.append (by decide) _).append _

section Blames

variable {alloc : Bool} {keyword value : Str}

theorem parseEnum_blames {α : Type} {table : List (Str × α)} {storage : α} {r : Stored α}
    (h : parseEnum table keyword value storage = .ok r) : Blames r.ret r.log := by
  rw [parseEnum] at h
  split at h
  · cases h
  split at h
  · cases h
    exact parseEndline_blames _
  · cases h
    apply blames_crit
    exact (((((NotLong.append (by decide) _).append _).append _).append _).append _).append _

theorem parseInt_blames {storage : Int} {r : Stored Int}
    (h : parseInt keyword value storage = .ok r) : Blames r.ret r.log := by
  rw [parseInt] at h
  split at h
  · cases h
  dsimp only at h
  split at h
  · cases h
    apply blames_crit
    exact (((NotLong.append (by decide) _).append _).append _).append _
  · cases h
    exact parseEndline_blames _

/-- The end of the parsers that store a copy of the value. -/
theorem blames_copy {α : Type} {reset : Prop} [Decidable reset] {x y z : α} {r : Stored α}
    (h : (if reset then .ok ⟨0, x, []⟩ else if alloc then .ok ⟨0, y, []⟩
      else .ok ⟨-1, z, noMemory keyword⟩ : Except Fault (Stored α)) = .ok r) :
    Blames r.ret r.log := by
  split at h
  · cases h
    exact blames_zero _
  split at h
  · cases h
    exact blames_zero _
  · cases h
    exact noMemory_blames _ _

theorem parseString_blames {r : Stored (Option Str)} (h : parseString alloc keyword value = .ok r) :
    Blames r.ret r.log :=
  blames_copy h

theorem parseStringMulti_blames {storage : List Str} {r : Stored (List Str)}
    (h : parseStringMulti alloc keyword value storage = .ok r) : Blames r.ret r.log :=
  blames_copy h

theorem parseMappingMulti_blames {storage : List (Nat × Str)} {r : Stored (List (Nat × Str))}
    (h : parseMappingMulti alloc keyword value storage = .ok r) : Blames r.ret r.log := by
  rw [parseMappingMulti] at h
  dsimp only at h
  split at h
  · cases h
    apply blames_crit
    exact (((NotLong.append (by decide) _).append _).append _).append _
  split at h
  · cases h
    exact blames_zero _
  · cases h
    exact noMemory_blames _ _

theorem Parser.parse_blames (p : Parser) {storage : p.Storage} {r : Stored p.Storage}
    (h : p.parse alloc keyword value storage = .ok r) : Blames r.ret r.log := by
  cases p with
  | enumExists => exact parseEnum_blames h
  | enumBool => exact parseEnum_blames h
  | enumLoglevel => exact parseEnum_blames h
  | int => exact parseInt_blames h
  | string => exact parseString_blames h
  | stringMulti => exact parseStringMulti_blames h
  | mappingMulti => exact parseMappingMulti_blames h

theorem parseOption_blames {s : ConfState} {k : Key} {r : Parsed}
    (h : parseOption alloc s k value = .ok r) : Blames r.ret r.log := by
  rw [parseOption] at h
  cases hp : k.entry.parser.parse alloc k.name value (k.read s.conf) with
  | error f =>
    rw [hp] at h
    cases h
  | ok v =>
    rw [hp] at h
    cases h
    exact (Parser.parse_blames _ hp).append _

/-- **A line that is not accepted is told of**, and the last message is the one that
tells. -/
theorem parseLine_blames {s : ConfState} {line : Str} {r : Parsed}
    (h : parseLine alloc s line = .ok r) : Blames r.ret r.log := by
  rw [parseLine] at h
  split at h
  · cases h
    exact blames_zero _
  split at h
  · cases h
    exact blames_zero _
  split at h
  · cases h
    apply blames_crit
    exact (NotLong.append (by decide) _).append _
  split at h
  · exact parseOption_blames h
  · cases h
    intro _
    exact ⟨[], _, rfl, Nat.succ_ne_zero 0, (NotLong.append (by decide) _).append _⟩

/-- A line that is not accepted is told of, with a warning or worse. -/
theorem parseLine_tells {s : ConfState} {line : Str} {r : Parsed}
    (h : parseLine alloc s line = .ok r) : Tells r.ret r.log :=
  (parseLine_blames h).tells

end Blames

end Crashinfo
