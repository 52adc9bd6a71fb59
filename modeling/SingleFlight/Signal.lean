/-
  SingleFlight.Signal — external events that may make a cached value due.

  Two events have names of their own, with an alias each; every other name is
  a custom event.  `ofName` reads a name and `name` shows it, and the shown
  name of a read event reads back as that event.
-/

namespace SingleFlight

/-- An event from outside the cache. -/
inductive Signal where
  /-- A user logged in. -/
  | loggedIn
  /-- The application came to the foreground. -/
  | foreground
  /-- Any other event, known by its name alone. -/
  | custom (name : String)
  deriving DecidableEq, Repr, Inhabited

namespace Signal

/-- The event a name stands for. -/
def ofName (s : String) : Signal :=
  if s = "login" ∨ s = "logged_in" then .loggedIn
  else if s = "foreground" ∨ s = "entered_foreground" then .foreground
  else .custom s

/-- The name an event is shown by. -/
def name : Signal → String
  | loggedIn => "login"
  | foreground => "foreground"
  | custom s => s

/-- An event that was read from a name is read back from its shown name. -/
theorem ofName_name_ofName (s : String) : ofName (ofName s).name = ofName s := by
  unfold ofName
  split
  · simp [name]
  · split
    · simp [name]
    · simp_all [name]

end Signal

end SingleFlight
