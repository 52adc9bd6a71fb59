/-
  SingleFlight.Failure — why a read did not give a value.

  A failed fetch is known by its incident, not by its words: two failures with
  the same reason are different unless they stem from one and the same fetch.
-/

namespace SingleFlight

/-- Why a read ended without a value. -/
inductive Failure where
  /-- The fetch of this incident failed. -/
  | fetchFailed (incident : Nat) (reason : String)
  /-- No source was bound. -/
  | unbound
  /-- The cache was used against its rules, or its bookkeeping is broken. -/
  | internal (fault : String)
  /-- The owner of the source is gone. -/
  | ownerGone (owner : String)
  deriving DecidableEq, Repr, Inhabited

namespace Failure

/-- The reason of a fetch error under explanations added one after another: the last one speaks. -/
def outermost (root : String) (explanations : List String) : String :=
  explanations.getLastD root

/-- A source was bound after the first fetch. -/
def reboundAfterUse : Failure := .internal "fetch function rebound after first use"

/-- A read that asks for one result ended without one. -/
def endedEarly : Failure := .internal "one-shot read ended without a value"

/-- The state says a fetch is running, but none is. -/
def lostFlight : String := "calculating without a fetch in flight"

/-- The words of a crash of the source. -/
def crashReason : String := "fetch function panicked"

/-- The words for a source that ended before its first value. -/
def emptyReason : String := "fetch stream completed without producing a value"

/-- The words for an attempt that died before it could answer. -/
def lostReason : String := "fetch task ended without a result"

/-- The text shown to people. -/
def message : Failure → String
  | fetchFailed _ reason => "Fetch failed: " ++ reason
  | unbound => "Fetch function is not set"
  | internal fault => "Internal error: " ++ fault
  | ownerGone owner => "Null reference: owner `" ++ owner ++ "` of the fetch function was dropped"

/-- Whether a later read may succeed without anybody mending the program. -/
def isRecoverable : Failure → Bool
  | fetchFailed .. | ownerGone _ => true
  | unbound | internal _ => false

end Failure

end SingleFlight
