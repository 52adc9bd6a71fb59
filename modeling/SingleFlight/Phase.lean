/-
  SingleFlight.Phase — the state of one cached value.

  Only a `holding` phase carries a value.  `label` names the phase, and
  `describe` adds the value in whatever way the caller shows values.
-/

namespace SingleFlight

/-- How a held value may be seen. -/
inductive Visibility (V : Type) where
  /-- Kept by the cache and handed out on request. -/
  | concealed (value : V)
  /-- Already on its way to a reader. -/
  | exposed (value : V)
  /-- Nothing to see. -/
  | absent
  deriving DecidableEq, Repr, Inhabited

/-- The state of one cached value. -/
inductive Phase (V : Type) where
  /-- Nothing was ever fetched. -/
  | empty
  /-- A fetch is on its way. -/
  | calculating
  /-- The value was thrown away and nobody has taken notice yet. -/
  | flushed
  /-- There is no value; the next reader starts a fetch only if `refetch`. -/
  | invalid (refetch : Bool)
  /-- A value is held. -/
  | holding (content : Visibility V)
  deriving DecidableEq, Repr, Inhabited

namespace Visibility

variable {V : Type}

/-- Whether the value is on its way to a reader. -/
def isExposed : Visibility V → Bool
  | exposed _ => true
  | _ => false

/-- The value, if there is one. -/
def value? : Visibility V → Option V
  | concealed v | exposed v => some v
  | absent => none

/-- The same with another value. -/
def map {W : Type} (f : V → W) : Visibility V → Visibility W
  | concealed v => concealed (f v)
  | exposed v => exposed (f v)
  | absent => absent

end Visibility

namespace Phase

variable {V : Type}

/-- Whether a fetch is on its way. -/
def isCalculating : Phase V → Bool
  | calculating => true
  | _ => false

/-- Whether the value was just thrown away. -/
def isFlushed : Phase V → Bool
  | flushed => true
  | _ => false

/-- The held value, if there is one. -/
def value? : Phase V → Option V
  | holding content => content.value?
  | _ => none

/-- The same phase with another value. -/
def map {W : Type} (f : V → W) : Phase V → Phase W
  | empty => empty
  | calculating => calculating
  | flushed => flushed
  | invalid refetch => invalid refetch
  | holding content => holding (content.map f)

/-- Whether the held value is on its way to a reader; none if nothing is held. -/
def isExposed? : Phase V → Option Bool
  | holding content => some content.isExposed
  | _ => none

/-- The name of the phase. -/
def label : Phase V → String
  | empty => "empty"
  | calculating => "calculating"
  | flushed => "flush"
  | invalid true => "invalid(should_fetch: true)"
  | invalid false => "invalid(should_fetch: false)"
  | holding (.concealed _) => "private stream"
  | holding (.exposed _) => "public stream"
  | holding .absent => "stream: none"

/-- The name of the phase and the held value, shown by `shown`. -/
def describe (shown : V → String) (p : Phase V) : String :=
  match p.value? with
  | some v => p.label ++ ": " ++ shown v
  | none => p.label

end Phase

end SingleFlight
