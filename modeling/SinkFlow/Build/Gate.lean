import SinkFlow.Path
import SinkFlow.Table

/-!
The gate at statements with several predecessors: of as many arrivals as a statement has predecessors, the
first one goes on to its successors, then counting starts again.
-/

namespace SinkFlow

/-- How often each statement was reached since its counting started. -/
structure Gate where
  counts : Table StatementId Nat := ∅
  deriving DecidableEq, Inhabited

namespace Gate

/-- Counts an arrival, and says whether it goes on to the successors. -/
def arrive (g : Gate) (statement : StatementId) (predecessors : Nat) : Bool × Gate :=
  if predecessors ≤ 1 then (true, g)
  else
    let count := (g.counts.get? statement).getD 0 + 1
    let counts :=
      if predecessors ≤ count then g.counts.erase statement else g.counts.insert statement count
    (count ≤ 1, ⟨counts⟩)

/-- The number of statements whose counting is under way. -/
def pending (g : Gate) : Nat := g.counts.size

end Gate

end SinkFlow
