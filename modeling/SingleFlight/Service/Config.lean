/-
  SingleFlight.Service.Config — the configuration of the service.

  Each setting comes from an environment variable.  A variable that is
  missing, that is not Unicode, or whose value cannot be read leaves its
  setting as it is by default.
-/
import SingleFlight.Settings

namespace SingleFlight.Service

/-- The configuration of the service. -/
structure Config where
  port : Nat := 3000
  intervalSecs : Nat := 10
  refreshOnLogin : Bool := true
  throttleMillis : Nat := 0
  latencyMillis : Nat := 50
  deriving DecidableEq, Repr, Inhabited

/-- The octets of each environment variable that is set. -/
abbrev Environment := String → Option (List UInt8)

/-- A decimal number below `bound`, with a plus sign in front or not. -/
def readCount? (bound : Nat) (s : String) : Option Nat :=
  let ds := match s.toList with
    | '+' :: rest => rest
    | cs => cs
  if ds.isEmpty || !ds.all Char.isDigit then none
  else
    let n := ds.foldl (fun n d => n * 10 + (d.toNat - 48)) 0
    if n < bound then some n else none

/-- A truth value by its name. -/
def readTruth? (s : String) : Option Bool :=
  if s = "true" then some true else if s = "false" then some false else none

namespace Environment

/-- The value of a variable, or the default. -/
def read {α : Type} (env : Environment) (name : String) (read? : String → Option α) (default : α) :
    α :=
  ((env name).bind fun octets => (String.fromUTF8? ⟨octets.toArray⟩).bind read?).getD default

end Environment

namespace Config

/-- The configuration that the environment gives. -/
def ofEnvironment (env : Environment) : Config where
  port := env.read "SERVER_PORT" (readCount? (.pow 2 16)) ({} : Config).port
  intervalSecs := env.read "REFRESH_INTERVAL" (readCount? (.pow 2 64)) ({} : Config).intervalSecs
  refreshOnLogin := env.read "REFRESH_ON_LOGIN" readTruth? ({} : Config).refreshOnLogin
  throttleMillis := env.read "FETCH_THROTTLE_MS" (readCount? (.pow 2 64)) ({} : Config).throttleMillis
  latencyMillis := env.read "FETCH_LATENCY_MS" (readCount? (.pow 2 64)) ({} : Config).latencyMillis

/-- When the quote is refetched. -/
def freshness (c : Config) : Freshness :=
  let interval := Duration.ofSecs c.intervalSecs
  if c.refreshOnLogin then .periodicAndLogin interval else .periodic interval

/-- How fetches are spaced: a window of nothing means not at all. -/
def pacing (c : Config) : Pacing :=
  if c.throttleMillis = 0 then .unpaced else .spaced (.ofMillis c.throttleMillis)

/-- The settings of the cached quote. -/
def settings (c : Config) : Settings := ⟨c.freshness, c.pacing⟩

/-- How long the remote takes. -/
def latency (c : Config) : Duration := .ofMillis c.latencyMillis

end Config

end SingleFlight.Service
