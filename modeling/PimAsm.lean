import PimAsm.Bits.Plane
import PimAsm.Bits.Segment
import PimAsm.Cli.Arguments
import PimAsm.Cli.Assembler
import PimAsm.Cli.Files
import PimAsm.Cli.Report
import PimAsm.Cli.Simulator
import PimAsm.Disassembly
import PimAsm.Fault
import PimAsm.Fixed
import PimAsm.Gemv.Block
import PimAsm.Gemv.Json
import PimAsm.Gemv.Limits
import PimAsm.Gemv.Macro
import PimAsm.Gemv.Mnemonic
import PimAsm.Gemv.Op
import PimAsm.Image
import PimAsm.Json.Number
import PimAsm.Json.Printer
import PimAsm.Json.Reader
import PimAsm.Json.Value
import PimAsm.Main
import PimAsm.Number.Decimal
import PimAsm.Number.Double
import PimAsm.Number.Layout
import PimAsm.Number.Shortest
import PimAsm.Params
import PimAsm.Program.Call
import PimAsm.Program.Export
import PimAsm.Program.Record
import PimAsm.Program.Script
import PimAsm.Program.Session
import PimAsm.Program.Step
import PimAsm.Proofs.Acceptance
import PimAsm.Proofs.Binary
import PimAsm.Proofs.Config
import PimAsm.Proofs.Fields
import PimAsm.Proofs.Gemv.Accumulation
import PimAsm.Proofs.Gemv.Agreement
import PimAsm.Proofs.Gemv.Effect
import PimAsm.Proofs.Gemv.Encoding
import PimAsm.Proofs.Gemv.Expansion
import PimAsm.Proofs.Gemv.Failure
import PimAsm.Proofs.Gemv.Load
import PimAsm.Proofs.Gemv.Memory
import PimAsm.Proofs.Gemv.Operands
import PimAsm.Proofs.Gemv.Product
import PimAsm.Proofs.Gemv.Registers
import PimAsm.Proofs.Gemv.Robustness
import PimAsm.Proofs.Grammar
import PimAsm.Proofs.Hexadecimal
import PimAsm.Proofs.Image
import PimAsm.Proofs.Lines
import PimAsm.Proofs.Listing
import PimAsm.Proofs.Mnemonic
import PimAsm.Proofs.OneLine
import PimAsm.Proofs.Outcome
import PimAsm.Proofs.Plane
import PimAsm.Proofs.Program.AccumulationTree
import PimAsm.Proofs.Program.Annotation
import PimAsm.Proofs.Program.Assembly
import PimAsm.Proofs.Program.Atomicity
import PimAsm.Proofs.Program.CSource
import PimAsm.Proofs.Program.Composition
import PimAsm.Proofs.Program.Disassembly
import PimAsm.Proofs.Program.Execution
import PimAsm.Proofs.Program.Export
import PimAsm.Proofs.Program.Isolation
import PimAsm.Proofs.Program.Kernel
import PimAsm.Proofs.Program.Layout
import PimAsm.Proofs.Program.Multiplication
import PimAsm.Proofs.Program.Records
import PimAsm.Proofs.Program.Replay
import PimAsm.Proofs.Program.Safety
import PimAsm.Proofs.Reencoding
import PimAsm.Proofs.Segment
import PimAsm.Proofs.Transposition
import PimAsm.Proofs.Vv.Encoding
import PimAsm.Proofs.Vv.Load
import PimAsm.Proofs.Vv.Operands
import PimAsm.Proofs.Word
import PimAsm.Text
import PimAsm.Vv.Json
import PimAsm.Vv.Limits
import PimAsm.Vv.Macro
import PimAsm.Vv.Mnemonic
import PimAsm.Vv.Op
import PimAsm.Vv.Register
import PimAsm.Word
