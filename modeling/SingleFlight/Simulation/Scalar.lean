/-
  SingleFlight.Simulation.Scalar — the values that simulated caches hold.
-/
import SingleFlight.Text.Quoted

namespace SingleFlight.Simulation

/-- A value in a simulation: a number or a text. -/
inductive Scalar where
  | number (n : Int)
  | text (s : String)
  deriving DecidableEq, Repr, Inhabited

namespace Scalar

/-- The value as people see it in a phase: texts stand in quotes. -/
def shown : Scalar → String
  | number n => toString n
  | text s => Text.quoted s

end Scalar

end SingleFlight.Simulation
