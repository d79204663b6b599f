import TelemetryForge.Lib.Nullable
import TelemetryForge.Lib.PrefixCode
import TelemetryForge.Lib.Sink
import TelemetryForge.Lib.BitDigits
import TelemetryForge.Lib.Bump
import TelemetryForge.Lib.Intern
import TelemetryForge.Lib.Sponge
import TelemetryForge.Lib.CText
import TelemetryForge.Lib.ShiftRegister
import TelemetryForge.Lib.Checked
import TelemetryForge.Lib.Latch
import TelemetryForge.Lib.Slots
import TelemetryForge.Lib.Chain
import TelemetryForge.Lib.Terminated
import TelemetryForge.Core.Buf
import TelemetryForge.Core.Arena
import TelemetryForge.Core.Blocks
import TelemetryForge.Format.Crc
import TelemetryForge.Format.Tlv
import TelemetryForge.Format.Container
import TelemetryForge.Format.Accept
import TelemetryForge.Format.TlvCount
import TelemetryForge.Format.Damage
import TelemetryForge.Codec.Rle
import TelemetryForge.Codec.Leb
import TelemetryForge.Codec.LebGroups
import TelemetryForge.Codec.Lz77
import TelemetryForge.Codec.Lz77Stream
import TelemetryForge.Codec.Lz77Memory
import TelemetryForge.Codec.Dict
import TelemetryForge.Codec.DictTable
import TelemetryForge.Codec.Base32
import TelemetryForge.Codec.Base32Text
import TelemetryForge.Codec.Registry
import TelemetryForge.Codec.Machine
import TelemetryForge.Crypto.Hash
import TelemetryForge.Crypto.Permute
import TelemetryForge.Crypto.Mac
import TelemetryForge.Records.Record
import TelemetryForge.Crypto.Redact
import TelemetryForge.Records.Parse
import TelemetryForge.Records.Framing
import TelemetryForge.Records.Pools
import TelemetryForge.Records.DiagPool
import TelemetryForge.Writer.Writer
import TelemetryForge.Writer.Log
import TelemetryForge.Writer.AddRecord
import TelemetryForge.Writer.Capacity
import TelemetryForge.Writer.Close
import TelemetryForge.Writer.Latch
import TelemetryForge.Report.Walk
import TelemetryForge.Report.Index
import TelemetryForge.Report.PoolRun
import TelemetryForge.Report.Trace
import TelemetryForge.Report.Retention
import TelemetryForge.Report.Validate
import TelemetryForge.Query.Lex
import TelemetryForge.Query.Parse
import TelemetryForge.Query.Grammar
import TelemetryForge.Query.LexMachine
import TelemetryForge.Query.LexSpans
import TelemetryForge.Query.Eval
import TelemetryForge.Query.Height
import TelemetryForge.Writer.Emit
import TelemetryForge.Report.Reemit
import TelemetryForge.Report.Tools
import TelemetryForge.Report.Normalise
import TelemetryForge.Report.Merge
import TelemetryForge.Report.Split
import TelemetryForge.Report.Export
import TelemetryForge.Report.Compare
import TelemetryForge.Report.Dedup
import TelemetryForge.Report.Sample
import TelemetryForge.Report.Timeline
import TelemetryForge.Report.Topk
import TelemetryForge.Report.Import
import TelemetryForge.Report.ImportJson
import TelemetryForge.Report.ImportWalk
import TelemetryForge.Report.ImportBuffers
import TelemetryForge.Report.ImportExact
import TelemetryForge.Report.Printed
import TelemetryForge.Report.CsvRoundtrip
import TelemetryForge.Report.JsonRoundtrip
import TelemetryForge.Report.JsonMachine
import TelemetryForge.Report.JsonSteps
import TelemetryForge.Report.JsonBounds
import TelemetryForge.Cli.Emit
import TelemetryForge.Cli.Agree
import TelemetryForge.Cli.Verify
import TelemetryForge.Lib.Mask
import TelemetryForge.Report.Contents
import TelemetryForge.Report.Pipeline
import TelemetryForge.Report.Stats
import TelemetryForge.Report.Transparent
import TelemetryForge.Lib.Files
import TelemetryForge.Writer.Emitted
import TelemetryForge.Report.Provenance
import TelemetryForge.Cli.Command
import TelemetryForge.Cli.Session
import TelemetryForge.Writer.Outcome
import TelemetryForge.Report.Progress
import TelemetryForge.Core.Hexdump
import TelemetryForge.Cli.Locate
import TelemetryForge.Query.Compose
import TelemetryForge.Report.Fusion
import TelemetryForge.Report.Stages
import TelemetryForge.Cli.Interleave
import TelemetryForge.Report.Pushdown
import TelemetryForge.Lib.Faults
import TelemetryForge.Writer.Scarce
import TelemetryForge.Report.Degrade
import TelemetryForge.Records.Refused
import TelemetryForge.Report.Refused
import TelemetryForge.Report.Losses
