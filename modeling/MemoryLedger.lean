import MemoryLedger.Align
import MemoryLedger.Main
import MemoryLedger.Proofs.Context.Run
import MemoryLedger.Session.FailFast
import MemoryLedger.Proofs.Context.Consistency
import MemoryLedger.Proofs.Context.Issued
import MemoryLedger.Proofs.Context.Ledger
import MemoryLedger.Proofs.Context.Close
import MemoryLedger.Proofs.Heap
import MemoryLedger.Proofs.Context.Ownership
import MemoryLedger.Proofs.Context.Audit
import MemoryLedger.Proofs.Context.Refusal
import MemoryLedger.Proofs.Context.Ceiling
import MemoryLedger.Proofs.Region
import MemoryLedger.Proofs.Context.Contents
import MemoryLedger.Proofs.Context.Safety
import MemoryLedger.Proofs.Context.Trail
import MemoryLedger.Proofs.Context.Identity
import MemoryLedger.Proofs.Session.Origin
import MemoryLedger.Proofs.Context.Resolution
import MemoryLedger.Proofs.Context.Overrun
import MemoryLedger.Proofs.Session.FailFast
import MemoryLedger.Proofs.Context.Admission
import MemoryLedger.Proofs.Context.Conservation
import MemoryLedger.Proofs.Context.Robustness
import MemoryLedger.Proofs.Context.Damage
import MemoryLedger.Proofs.Context.Peak
import MemoryLedger.Proofs.Context.Freeing
import MemoryLedger.Proofs.Context.Replacement
import MemoryLedger.Proofs.Align
import MemoryLedger.Proofs.Context.Unwinding
import MemoryLedger.Proofs.Context.Severity
import MemoryLedger.Proofs.Registry.Surgery
import MemoryLedger.Proofs.Json.Number
import MemoryLedger.Proofs.Json.Text
import MemoryLedger.Proofs.Json.Token
import MemoryLedger.Proofs.Json.Value
import MemoryLedger.Proofs.Config.Format
