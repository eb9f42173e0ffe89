import PtPerf.Support.Tally
import PtPerf.Support.Runs
import PtPerf.Support.File
import PtPerf.Support.Search
import PtPerf.Support.Text
import PtPerf.Support.Merge
import PtPerf.Support.Relay
import PtPerf.Support.Interleave
import PtPerf.Support.Spans
import PtPerf.Trace.Action
import PtPerf.Stats.Distribution
import PtPerf.Stats.FuncStat
import PtPerf.Stats.Contribution
import PtPerf.Stats.CallerSums
import PtPerf.Stats.KeyNames
import PtPerf.Stats.Histogram
import PtPerf.Trace.Decode
import PtPerf.Analysis.Machine
import PtPerf.Analysis.Effects
import PtPerf.Analysis.Invocation
import PtPerf.Analysis.Reference
import PtPerf.Analysis.CallTree
import PtPerf.Analysis.TraceEnd
import PtPerf.Analysis.ErrorIsolation
import PtPerf.Analysis.CodeBlock
import PtPerf.Analysis.Nesting
import PtPerf.Analysis.Rounds
import PtPerf.Analysis.AncestorFilter
import PtPerf.Analysis.ThreadReport
import PtPerf.Analysis.Moves
import PtPerf.Analysis.Intervals
import PtPerf.Analysis.Cursor
import PtPerf.Analysis.OffCpu
import PtPerf.Analysis.MissTime
import PtPerf.Analysis.SchedTime
import PtPerf.Analysis.ChildSched
import PtPerf.Analysis.ChildTotals
import PtPerf.Analysis.StoredKeys
import PtPerf.Compact.Format
import PtPerf.Compact.Writer
import PtPerf.Compact.Reader
import PtPerf.Compact.RoundTrip
import PtPerf.Compact.SymbolFit
import PtPerf.Compact.Symbols
import PtPerf.Parallel.Trace
import PtPerf.Parallel.Handoff
import PtPerf.Parallel.Partition
import PtPerf.Script.Print
import PtPerf.Script.Parse
import PtPerf.Script.BranchLine
import PtPerf.Script.ErrorLine
import PtPerf.Script.Formats
import PtPerf.Script.ParseJob
import PtPerf.Script.Readings
import PtPerf.Script.LineLayout
import PtPerf.Script.WorkerCount
import PtPerf.Script.ExtractActions
import PtPerf.Compact.Discipline
import PtPerf.Filter.FuncFilter
import PtPerf.Filter.Prefilter
import PtPerf.Filter.Dlfilter
import PtPerf.Worker.ParallelWorker
import PtPerf.Worker.Pool
import PtPerf.Worker.Barrier
import PtPerf.Worker.WakeUp
import PtPerf.Worker.RwSpinLock
import PtPerf.Support.BinHeap
import PtPerf.Support.Walk
import PtPerf.Support.Peek
import PtPerf.Support.Rekey
import PtPerf.Decode.QueueHeap
import PtPerf.Decode.RunDecoder
import PtPerf.Decode.ProcessQueues
import PtPerf.Decode.TimeRanges
import PtPerf.Decode.Packets
import PtPerf.Decode.PacketStream
import PtPerf.Decode.PacketFormat
import PtPerf.Script.TimeOption
import PtPerf.Analysis.Recoding
import PtPerf.Analysis.SplitIntervals
import PtPerf.Compact.Events
import PtPerf.Pipeline.CompactRun
