import IScanU.Theory.CyclicInterval
import IScanU.Theory.Machine
import IScanU.Theory.Tiling
import IScanU.Theory.Pattern
import IScanU.Theory.Progression
import IScanU.Theory.Text
import IScanU.Theory.BitField
import IScanU.ArchProperties
import IScanU.Scanner
import IScanU.Blacklist
import IScanU.Analyser
import IScanU.Feeder
import IScanU.Handlers
import IScanU.Recovery
import IScanU.Aarch64
import IScanU.RV64GC
import IScanU.ScannerManager
import IScanU.Main
import IScanU.MemCage
import IScanU.Alarms
import IScanU.Interrupts
import IScanU.Startup
import IScanU.FirstPass
import IScanU.RangeCompress
import IScanU.Formatter
import IScanU.PostFilter
import IScanU.Pipeline
import IScanU.RVDisas.Opcodes
import IScanU.RVDisas
import IScanU.Verify.RVDisas.NormalForm
import IScanU.Verify.RVDisas.Operands
import IScanU.Verify.RVDisas.Parcels
import IScanU.Verify.RVDisas.Expansion
import IScanU.Verify.Blacklist
import IScanU.RV64G
import IScanU.Verify.Exhaustive
import IScanU.Verify.CompleteScan
import IScanU.Verify.Accounting
import IScanU.Verify.MethodAgreement
import IScanU.Verify.Partition
import IScanU.Verify.CommandLine
import IScanU.Verify.MemCage
import IScanU.Verify.Completion
import IScanU.Verify.Alarms
import IScanU.Verify.Termination
import IScanU.Verify.HangAttribution
import IScanU.Verify.HangDetection
import IScanU.Verify.Interrupts
import IScanU.Verify.Atomicity
import IScanU.Verify.Startup
import IScanU.Verify.InstructionPage
import IScanU.Verify.Recovery
import IScanU.Verify.Rv64gScan
import IScanU.Verify.RiscvcFetch
import IScanU.Verify.RiscvcScan
import IScanU.Verify.VleFetch
import IScanU.Verify.VleScan
import IScanU.Verify.VleRun
import IScanU.Verify.WholeScan
import IScanU.Verify.ConcurrentScan
import IScanU.Verify.VleFindings
import IScanU.Verify.VleCompletion
import IScanU.Verify.VleWholeScan
import IScanU.Verify.Cage
import IScanU.Verify.FirstPass
import IScanU.Verify.RangeCompress
import IScanU.Verify.Formatter
import IScanU.Verify.PostFilter
import IScanU.Verify.Pipeline
import IScanU.Verify.Compression
import IScanU.Verify.Performance
import IScanU.Verify.Throughput
