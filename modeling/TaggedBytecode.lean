import TaggedBytecode.CommandLine.Disk
import TaggedBytecode.Main
import TaggedBytecode.Proofs.Machine.Boundaries
import TaggedBytecode.Proofs.Machine.Budget
import TaggedBytecode.Proofs.Machine.Calls
import TaggedBytecode.Proofs.Machine.Unwinding
import TaggedBytecode.Proofs.Stream.RoundTrip
import TaggedBytecode.Proofs.Disassembly.Tiling
import TaggedBytecode.Proofs.Machine.Orderly
import TaggedBytecode.Proofs.Container.RoundTrip
import TaggedBytecode.Proofs.Constant.Pool
import TaggedBytecode.Proofs.Constant.Spelling
import TaggedBytecode.Proofs.Program.Loading
import TaggedBytecode.Proofs.Machine.Properties
import TaggedBytecode.Proofs.Context.Histories
import TaggedBytecode.Proofs.Machine.Halting
import TaggedBytecode.Proofs.Machine.Tracing
import TaggedBytecode.Proofs.Machine.Accounting
import TaggedBytecode.Proofs.Constant.Embedding
import TaggedBytecode.Proofs.Context.Delivery
import TaggedBytecode.Proofs.Machine.Effects
import TaggedBytecode.Proofs.Machine.Disarming
import TaggedBytecode.Proofs.Constant.Unambiguous
import TaggedBytecode.Proofs.Constant.Locality
import TaggedBytecode.Proofs.Constant.Rejection
import TaggedBytecode.Proofs.Container.Truncation
import TaggedBytecode.Proofs.Context.Assignment
import TaggedBytecode.Proofs.Val.Int32
import TaggedBytecode.Proofs.Val.Equality
import TaggedBytecode.Proofs.Val.Keys
import TaggedBytecode.Proofs.Val.Arrays
import TaggedBytecode.Proofs.Opcode.Loading
import TaggedBytecode.Proofs.Machine.Binding
import TaggedBytecode.Proofs.Disassembly.Statistics
import TaggedBytecode.Proofs.CommandLine.Preparing
