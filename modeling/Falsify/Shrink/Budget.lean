import Falsify.Duration

/-!
# Budgets of a search

How much a search for a simpler failure may cost.
-/

namespace Falsify

/-- So many trials, and if it is given so much time. -/
structure ShrinkBudget where
  maxAttempts : Nat := 500
  timeout : Option Duration := some (.ofSeconds 60)

end Falsify
