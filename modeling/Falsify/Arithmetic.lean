/-!
# Powers and sums

Powers of numbers and sums of lists are those of the core library, even where an algebraic
structure offers its own. The two agree, but what a definition means should not depend on what
else is in scope.
-/

attribute [instance (high)] instPowNat Zero.ofOfNat0

attribute [default_instance high + 1] instPowNat
