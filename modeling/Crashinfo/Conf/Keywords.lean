import Crashinfo.Conf

/-!
# The options

A keyword of the configuration has a place where its value is stored, and a
parser for what that place holds.  A `Key` names the place; `Key.read` and
`Key.write` are the two things a pointer to it is used for.  The places are
disjoint (`read_write_of_ne`) and together they are the whole configuration
(`Conf.ext_read`).
-/

namespace Crashinfo

/-- The parser of a keyword, with its `parser_arg`. -/
inductive Parser where
  /-- `parse_enum` with `parse_enum_exists` -/
  | enumExists
  /-- `parse_enum` with `parse_enum_bool` -/
  | enumBool
  /-- `parse_enum` with `parse_enum_loglevel` -/
  | enumLoglevel
  | int
  | string
  | stringMulti
  | mappingMulti
  deriving DecidableEq, Repr

abbrev Parser.Storage : Parser → Type
  | .enumExists => ConfExists
  | .enumBool => Bool
  | .enumLoglevel => Int
  | .int => Int
  | .string => Option Str
  | .stringMulti => List Str
  | .mappingMulti => List (Nat × Str)

structure Keyword where
  keyword : Str
  parser : Parser
  multi : Bool := false

inductive Key where
  | infoExists
  | infoExistsSeq
  | infoFilter
  | infoMkdir
  | infoNotify
  | infoOutput
  | backtraceMaxDepth
  | coreExists
  | coreExistsSeq
  | coreFilter
  | coreMkdir
  | coreNotify
  | coreOutput
  | coreBufferSize
  | infoCoreNotify
  | corePath
  | logInfo
  | logSyslog
  | logStderr
  | procIgnore
  | procPath
  | procExe
  | procMaps
  | procDumpRoot
  | procDumpTask
  deriving DecidableEq, Repr

def Key.entry : Key → Keyword
  | .infoExists => ⟨lit "info_exists", .enumExists, false⟩
  | .infoExistsSeq => ⟨lit "info_exists_seq", .int, false⟩
  | .infoFilter => ⟨lit "info_filter", .stringMulti, true⟩
  | .infoMkdir => ⟨lit "info_mkdir", .enumBool, false⟩
  | .infoNotify => ⟨lit "info_notify", .stringMulti, true⟩
  | .infoOutput => ⟨lit "info_output", .string, false⟩
  | .backtraceMaxDepth => ⟨lit "backtrace_max_depth", .int, false⟩
  | .coreExists => ⟨lit "core_exists", .enumExists, false⟩
  | .coreExistsSeq => ⟨lit "core_exists_seq", .int, false⟩
  | .coreFilter => ⟨lit "core_filter", .stringMulti, true⟩
  | .coreMkdir => ⟨lit "core_mkdir", .enumBool, false⟩
  | .coreNotify => ⟨lit "core_notify", .stringMulti, true⟩
  | .coreOutput => ⟨lit "core_output", .string, false⟩
  | .coreBufferSize => ⟨lit "core_buffer_size", .int, false⟩
  | .infoCoreNotify => ⟨lit "info_core_notify", .stringMulti, true⟩
  | .corePath => ⟨lit "core", .string, false⟩
  | .logInfo => ⟨lit "log_info", .enumLoglevel, false⟩
  | .logSyslog => ⟨lit "log_syslog", .enumLoglevel, false⟩
  | .logStderr => ⟨lit "log_stderr", .enumLoglevel, false⟩
  | .procIgnore => ⟨lit "proc_ignore", .enumBool, false⟩
  | .procPath => ⟨lit "proc_path", .string, false⟩
  | .procExe => ⟨lit "proc_exe", .string, false⟩
  | .procMaps => ⟨lit "proc_maps", .mappingMulti, true⟩
  | .procDumpRoot => ⟨lit "proc_dump_root", .stringMulti, true⟩
  | .procDumpTask => ⟨lit "proc_dump_task", .stringMulti, true⟩

def keywords : List Key :=
  [.infoExists, .infoExistsSeq, .infoFilter, .infoMkdir, .infoNotify, .infoOutput,
    .backtraceMaxDepth, .coreExists, .coreExistsSeq, .coreFilter, .coreMkdir, .coreNotify,
    .coreOutput, .coreBufferSize, .infoCoreNotify, .corePath, .logInfo, .logSyslog, .logStderr,
    .procIgnore, .procPath, .procExe, .procMaps, .procDumpRoot, .procDumpTask]

abbrev Key.name (k : Key) : Str := k.entry.keyword

abbrev Key.Storage (k : Key) : Type := k.entry.parser.Storage

def Key.read (c : Conf) : (k : Key) → k.Storage
  | .infoExists => c.info.exist
  | .infoExistsSeq => c.info.existsSeq
  | .infoFilter => c.info.filter
  | .infoMkdir => c.info.mkdir
  | .infoNotify => c.info.notify
  | .infoOutput => c.info.output
  | .backtraceMaxDepth => c.backtraceMaxDepth
  | .coreExists => c.core.exist
  | .coreExistsSeq => c.core.existsSeq
  | .coreFilter => c.core.filter
  | .coreMkdir => c.core.mkdir
  | .coreNotify => c.core.notify
  | .coreOutput => c.core.output
  | .coreBufferSize => c.coreBufferSize
  | .infoCoreNotify => c.infoCoreNotify
  | .corePath => c.corePath
  | .logInfo => c.log.info
  | .logSyslog => c.log.syslog
  | .logStderr => c.log.stderr
  | .procIgnore => c.proc.ignore
  | .procPath => c.proc.path
  | .procExe => c.proc.exe
  | .procMaps => c.proc.maps
  | .procDumpRoot => c.procDump.root
  | .procDumpTask => c.procDump.task

def Key.write (c : Conf) : (k : Key) → k.Storage → Conf
  | .infoExists, v => { c with info := { c.info with exist := v } }
  | .infoExistsSeq, v => { c with info := { c.info with existsSeq := v } }
  | .infoFilter, v => { c with info := { c.info with filter := v } }
  | .infoMkdir, v => { c with info := { c.info with mkdir := v } }
  | .infoNotify, v => { c with info := { c.info with notify := v } }
  | .infoOutput, v => { c with info := { c.info with output := v } }
  | .backtraceMaxDepth, v => { c with backtraceMaxDepth := v }
  | .coreExists, v => { c with core := { c.core with exist := v } }
  | .coreExistsSeq, v => { c with core := { c.core with existsSeq := v } }
  | .coreFilter, v => { c with core := { c.core with filter := v } }
  | .coreMkdir, v => { c with core := { c.core with mkdir := v } }
  | .coreNotify, v => { c with core := { c.core with notify := v } }
  | .coreOutput, v => { c with core := { c.core with output := v } }
  | .coreBufferSize, v => { c with coreBufferSize := v }
  | .infoCoreNotify, v => { c with infoCoreNotify := v }
  | .corePath, v => { c with corePath := v }
  | .logInfo, v => { c with log := { c.log with info := v } }
  | .logSyslog, v => { c with log := { c.log with syslog := v } }
  | .logStderr, v => { c with log := { c.log with stderr := v } }
  | .procIgnore, v => { c with proc := { c.proc with ignore := v } }
  | .procPath, v => { c with proc := { c.proc with path := v } }
  | .procExe, v => { c with proc := { c.proc with exe := v } }
  | .procMaps, v => { c with proc := { c.proc with maps := v } }
  | .procDumpRoot, v => { c with procDump := { c.procDump with root := v } }
  | .procDumpTask, v => { c with procDump := { c.procDump with task := v } }

@[simp] theorem Key.read_write (c : Conf) (k : Key) (v : k.Storage) :
    k.read (k.write c v) = v := by
  cases k <;> rfl

/-- **No option is stored where another one is.** -/
theorem Key.read_write_of_ne (c : Conf) {j k : Key} (h : j ≠ k) (v : k.Storage) :
    j.read (k.write c v) = j.read c := by
  cases k <;> cases j <;> first | rfl | exact absurd rfl h

theorem Conf.ext_read {c c' : Conf} (h : ∀ k : Key, k.read c = k.read c') : c = c' := by
  obtain ⟨⟨_, _, _, _, _, _⟩, ⟨_, _, _, _, _, _⟩, _, _, _, _, ⟨_, _, _⟩, ⟨_, _, _, _⟩, ⟨_, _⟩⟩ := c
  obtain ⟨⟨_, _, _, _, _, _⟩, ⟨_, _, _, _, _, _⟩, _, _, _, _, ⟨_, _, _⟩, ⟨_, _, _, _⟩, ⟨_, _⟩⟩ := c'
  simp only [Conf.mk.injEq, ConfOutput.mk.injEq, ConfLog.mk.injEq, ConfProc.mk.injEq,
    ConfProcDump.mk.injEq]
  exact ⟨⟨h .infoOutput, h .infoExists, h .infoExistsSeq, h .infoMkdir, h .infoFilter,
      h .infoNotify⟩,
    ⟨h .coreOutput, h .coreExists, h .coreExistsSeq, h .coreMkdir, h .coreFilter, h .coreNotify⟩,
    h .coreBufferSize, h .corePath, h .infoCoreNotify, h .backtraceMaxDepth,
    ⟨h .logInfo, h .logStderr, h .logSyslog⟩,
    ⟨h .procIgnore, h .procPath, h .procExe, h .procMaps⟩, h .procDumpRoot, h .procDumpTask⟩

/-! ### The table -/

theorem mem_keywords (k : Key) : k ∈ keywords := by
  cases k <;> decide

theorem nodup_keywords : keywords.Nodup := by decide

theorem Key.name_injective {j k : Key} (h : j.name = k.name) : j = k := by
  have hnodup : (keywords.map Key.name).Nodup := by decide
  exact List.inj_on_of_nodup_map hnodup (mem_keywords j) (mem_keywords k) h

theorem Key.find_name (k : Key) : keywords.find? (fun j => j.name = k.name) = some k := by
  cases hf : keywords.find? (fun j => j.name = k.name) with
  | none =>
    have hno := List.find?_eq_none.mp hf k (mem_keywords k)
    exact absurd (decide_eq_true rfl) hno
  | some j =>
    have hj := List.find?_some (p := fun j : Key => j.name = k.name) hf
    rw [Key.name_injective (of_decide_eq_true hj)]

theorem find_keywords {t : Str} :
    (∃ k, keywords.find? (fun j => j.name = t) = some k ∧ k.name = t) ∨
      keywords.find? (fun j => j.name = t) = none ∧ ∀ k : Key, k.name ≠ t := by
  cases hf : keywords.find? (fun j => j.name = t) with
  | none =>
    refine Or.inr ⟨rfl, fun k hk => ?_⟩
    exact absurd (decide_eq_true hk) (List.find?_eq_none.mp hf k (mem_keywords k))
  | some k =>
    have hk := List.find?_some (p := fun j : Key => j.name = t) hf
    exact Or.inl ⟨k, rfl, of_decide_eq_true hk⟩

theorem Key.word_name (k : Key) : Token.Word isDelim k.name := by
  constructor
  · cases k <;> decide
  · have hall : (k.name.all fun c => !isDelim c) = true := by
      cases k <;> decide
    intro c hc
    simpa using List.all_eq_true.mp hall c hc

theorem Key.plain_name (k : Key) : ch '=' ∉ k.name ∧ k.name.head? ≠ some (ch '#') := by
  cases k <;> decide

end Crashinfo
