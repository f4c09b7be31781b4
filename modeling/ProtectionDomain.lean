import ProtectionDomain.Cap.Allocator
import ProtectionDomain.Config
import ProtectionDomain.Contract
import ProtectionDomain.Handle
import ProtectionDomain.IntKind.Cast
import ProtectionDomain.Pointer
import ProtectionDomain.Root.Operation
import ProtectionDomain.Proofs.Root.History
import ProtectionDomain.Proofs.Root.Refinement
import ProtectionDomain.Proofs.Root.Step
import ProtectionDomain.Proofs.Root.Failure
import ProtectionDomain.Proofs.Root.Isolation
import ProtectionDomain.Proofs.Root.Grant
import ProtectionDomain.Proofs.Json.Literal
import ProtectionDomain.Proofs.Json.Numeral
import ProtectionDomain.Proofs.Json.Row
import ProtectionDomain.Proofs.Json.Scalar
import ProtectionDomain.Proofs.Json.WellFormed
import ProtectionDomain.Proofs.Json.Grammar
import ProtectionDomain.Proofs.Json.Decode
import ProtectionDomain.Proofs.Config.Load
import ProtectionDomain.Proofs.Text.Hex
import ProtectionDomain.Proofs.Uuid.Text
import ProtectionDomain.Proofs.Uuid.Spelling
import ProtectionDomain.Proofs.Json.Value
import ProtectionDomain.Proofs.Json.Encode
import ProtectionDomain.Proofs.Wire.RoundTrip
import ProtectionDomain.Proofs.Config.Store
import ProtectionDomain.Proofs.Cap.Family
import ProtectionDomain.Proofs.IntKind.Machine
import ProtectionDomain.Proofs.IntKind.Cast
import ProtectionDomain.Proofs.IntKind.Conversion
import ProtectionDomain.Proofs.Policy.Tree
import ProtectionDomain.Proofs.Policy.Stock
import ProtectionDomain.Proofs.Policy.Report
import ProtectionDomain.Proofs.Root.Audit
import ProtectionDomain.Proofs.Json.Valid
import ProtectionDomain.Proofs.Json.Outline
import ProtectionDomain.Proofs.Json.Presentation
import ProtectionDomain.Proofs.Json.Trim
import ProtectionDomain.Proofs.Json.Place
import ProtectionDomain.Proofs.Json.Closed
import ProtectionDomain.Proofs.Config.Cut
import ProtectionDomain.Proofs.Wire.Presentable
import ProtectionDomain.Proofs.Wire.Presentation
import ProtectionDomain.Proofs.Wire.Format
import ProtectionDomain.Proofs.Wire.Ids
import ProtectionDomain.Proofs.Wire.Integers
import ProtectionDomain.Proofs.Handle.Bits
import ProtectionDomain.Proofs.Json.Quoted
import ProtectionDomain.Proofs.Json.Loose
import ProtectionDomain.Proofs.Json.Slot
import ProtectionDomain.Proofs.Json.Squeeze
import ProtectionDomain.Proofs.Wire.Contract
import ProtectionDomain.Proofs.Wire.Strings
