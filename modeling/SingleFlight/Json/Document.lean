/-
  SingleFlight.Json.Document — the JSON documents that the service answers with.
-/
import SingleFlight.Numeric.Binary64

namespace SingleFlight.Json

/-- A JSON document. -/
inductive Document where
  | null
  | count (n : Nat)
  | real (x : Binary64)
  | text (s : String)
  | object (members : List (String × Document))
  deriving Repr, Inhabited

namespace Document

/-- A document that may be missing. -/
def ofOption {α : Type} (f : α → Document) : Option α → Document
  | some a => f a
  | none => null

end Document

end SingleFlight.Json
