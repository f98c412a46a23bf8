import Crashinfo.Basic

/-!
# The configuration and the data of a run

The records of `conf.h`.  A NULL string is `none`, a linked list is a list.
-/

namespace Crashinfo

/-- `enum conf_exists_e`: how to handle an output path that exists. -/
inductive ConfExists where
  | default
  | append
  | overwrite
  | keep
  | sequence
  deriving DecidableEq, Repr

structure ConfOutput where
  output : Option Str := none
  exist : ConfExists
  existsSeq : Int := 0
  mkdir : Bool := false
  filter : List Str := []
  notify : List Str := []
  deriving DecidableEq, Repr

/-- The thresholds of `conf.log`; `-1` is `none`. -/
structure ConfLog where
  info : Int := 5
  stderr : Int := 3
  syslog : Int := -1
  deriving DecidableEq, Repr

structure ConfProc where
  ignore : Bool := false
  path : Option Str := none
  exe : Option Str := none
  maps : List (Nat × Str) := []
  deriving DecidableEq, Repr

structure ConfProcDump where
  root : List Str := []
  task : List Str := []
  deriving DecidableEq, Repr

/-- `struct conf_s`, with the defaults of a build without debugging. -/
structure Conf where
  info : ConfOutput := { exist := .append }
  core : ConfOutput := { exist := .keep }
  coreBufferSize : Int := 4 * 1024 * 1024
  corePath : Option Str := none
  infoCoreNotify : List Str := []
  backtraceMaxDepth : Int := 50
  log : ConfLog := {}
  proc : ConfProc := {}
  procDump : ConfProcDump := {}
  deriving DecidableEq, Repr

/-- `struct run_multi_filter_s` -/
structure RunFilter where
  filter : Str
  pid : Nat
  deriving DecidableEq, Repr

/-- `struct run_output_s`; `output` says whether a `FILE` is attached. -/
structure RunOutput where
  output : Bool := false
  outputFd : Int := 0
  outputFilename : Option Str := none
  filter : List RunFilter := []
  deriving DecidableEq, Repr

end Crashinfo
