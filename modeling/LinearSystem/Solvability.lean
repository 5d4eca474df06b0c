namespace LinearSystem

inductive Solvability where
  | unique
  | underdetermined (degreesOfFreedom : Nat)
  | inconsistent
  deriving DecidableEq, Repr

/-- The two ranks that decide whether a system has solutions, and its number of unknowns. -/
structure Ranks where
  matrix : Nat
  augmented : Nat
  unknowns : Nat
  deriving DecidableEq, Repr

/-- The right-hand side adds to the rank, or fewer equations than unknowns are independent,
or there is exactly one solution. -/
def Ranks.solvability (r : Ranks) : Solvability :=
  if r.matrix < r.augmented then .inconsistent
  else if r.matrix < r.unknowns then .underdetermined (r.unknowns - r.matrix)
  else .unique

def Solvability.describe : Solvability → String
  | unique => "unique solution"
  | underdetermined k => s!"underdetermined ({k} free variables)"
  | inconsistent => "inconsistent (no solution)"

end LinearSystem
