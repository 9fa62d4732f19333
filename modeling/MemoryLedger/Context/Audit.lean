import MemoryLedger.Context.Basic

/-!
# Auditing a context

An audit walks the registry and compares what it finds with the counters.
-/

namespace MemoryLedger

namespace Context

/-- Accepts a context whose list is intact and is what the counters say, peaks included. -/
def audit (c : Context) : Except Fault (Except Rejection Unit) := do
  let func := "check_integrity"
  match ← c.registry.survey with
  | .broken slot => .ok (.error ⟨.accounting func, [.linksCorrupted func slot]⟩)
  | .tooLarge => .ok (.error ⟨.accounting func, []⟩)
  | .intact count total =>
    let u := c.usage
    if count = u.count.toNat ∧ total = u.total.toNat ∧
        u.count ≤ u.countPeak ∧ u.total ≤ u.totalPeak then
      .ok (.ok ())
    else
      .ok (.error ⟨.accounting func, [.countersMismatch func count total u.count u.total]⟩)

end Context

end MemoryLedger
