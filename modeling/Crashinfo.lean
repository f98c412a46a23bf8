import Crashinfo.Lib.Numeral
import Crashinfo.Lib.Code
import Crashinfo.Lib.Escape
import Crashinfo.Lib.FileTree
import Crashinfo.Lib.Token
import Crashinfo.Lib.Lines
import Crashinfo.Lib.Outbuf
import Crashinfo.Lib.Flow
import Crashinfo.Lib.Race
import Crashinfo.Lib.Table
import Crashinfo.Lib.Script
import Crashinfo.Lib.Invariant
import Crashinfo.Basic
import Crashinfo.Conf
import Crashinfo.Conf.Number
import Crashinfo.Conf.Keywords
import Crashinfo.Conf.Parse
import Crashinfo.Conf.Grammar
import Crashinfo.Conf.Reference
import Crashinfo.Conf.Dump
import Crashinfo.Sys
import Crashinfo.Host
import Crashinfo.Log
import Crashinfo.Stdio
import Crashinfo.Output.Expand
import Crashinfo.Output.Expansion
import Crashinfo.Output.Open
import Crashinfo.Output.Names
import Crashinfo.Output.Loop
import Crashinfo.Output.Termination
import Crashinfo.Output.Sequence
import Crashinfo.Output.Instances
import Crashinfo.Output.Crowd
import Crashinfo.Output.Sink
import Crashinfo.Output.Filter
import Crashinfo.Output.Readers
import Crashinfo.Output.Cleanup
import Crashinfo.Output.Close
import Crashinfo.Output.Network
import Crashinfo.Output.Delivery
import Crashinfo.Output.Arrival
import Crashinfo.Output.Argv
import Crashinfo.Output.Steer
import Crashinfo.Output.Exact
import Crashinfo.Output.MakePath
import Crashinfo.Output.Named
import Crashinfo.Proc.Info
import Crashinfo.Info.Yaml
import Crashinfo.Unw.Dump
import Crashinfo.Info.Dump
import Crashinfo.Info.Comment
import Crashinfo.Info.Threshold
import Crashinfo.Main.Tee
import Crashinfo.Main.Fidelity
import Crashinfo.Main.Program
import Crashinfo.Main.Kept
import Crashinfo.Main.Whole
import Crashinfo.Main.Standard
import Crashinfo.Main.Exe
import Crashinfo.Main.Reap
import Crashinfo.Main.Options
import Crashinfo.Main.Early
import Crashinfo.Main.Loss
import Crashinfo.Conf.Literal
import Crashinfo.Conf.Reject
import Crashinfo.Conf.Values
import Crashinfo.Main.Files
import Crashinfo.Info.Copy
import Crashinfo.Lib.Credit
import Crashinfo.Main.Feeding
import Crashinfo.Lib.Buffer
import Crashinfo.Proc.Pidmap
import Crashinfo.Proc.Namespace
import Crashinfo.Proc.Scanf
import Crashinfo.Proc.Maps
import Crashinfo.Info.Scalar
import Crashinfo.Unw.Prepare
import Crashinfo.Main.Pid
import Crashinfo.Lib.Journal
import Crashinfo.Main.Bounds
import Crashinfo.Main.Prefix
import Crashinfo.Main.Forked
import Crashinfo.Main.Once
import Crashinfo.Lib.Cut
import Crashinfo.Lib.Reader
import Crashinfo.Lib.Descent
import Crashinfo.Main.Spots
import Crashinfo.Main.Threads
import Crashinfo.Main.Pipe
import Crashinfo.Main.Progress
import Crashinfo.Main.Ending
import Crashinfo.Main.Starving
import Crashinfo.Main.Builds
