/-
  SingleFlight.Proofs.Diagnostics — the diagnostics of the service agree with its remote.

  What happens to a service is a list of deeds: requests come in, somebody in it
  takes a step, callers leave, time passes.  Its world makes a move with each of
  them, or none (`Server.trace`), and none of these moves touches the source.
  So the ledger of the world stays in order, and the diagnostics, which are read
  off the world, agree with one another and with the calls of the remote.

  A server that settles after each request, and sleeps from timer to timer, does
  nothing else (`visits_run`): its way of running is one of many.

  Main results:
    * `run_world` — the world of a service runs through its trace.
    * `visits_run` — requests and sleeps are deeds.
    * `diagnostics_agree` — the diagnostics agree with the remote.
-/
import SingleFlight.Proofs.Holding
import SingleFlight.Proofs.Ledger
import SingleFlight.Service.Server

namespace SingleFlight.Service

/-! ## §1. Deeds. -/

/-- Something that happens to a service. -/
inductive Deed where
  /-- A request comes in. -/
  | take (name : String) (r : Request)
  /-- Somebody takes a step of its own accord. -/
  | act (a : Actor)
  /-- The caller whose read has this key leaves before it is answered. -/
  | leave (key : Nat)
  /-- Time passes. -/
  | pass (d : Duration)
  deriving DecidableEq, Repr, Inhabited

/-- The move that the world makes with a request, if it makes one. -/
def Request.move? (r : Request) : Option (Move Bool (Quote Instant)) :=
  match r.route with
  | .endpoint .value _ => some (.openReader .once .read)
  | .endpoint .refresh _ => some (.openReader .anew .read)
  | .endpoint .invalidate _ => some .invalidate
  | .endpoint .events _ =>
    match Server.readBody EventRequest.field r with
    | .ok request => if request.refusal?.isSome then none else some (.publish request.signal)
    | .error _ => none
  | .endpoint .remote _ =>
    match Server.readBody RemoteRequest.field r with
    | .ok request => some (.surround request.isFailing)
    | .error _ => none
  | _ => none

namespace Server

variable {shown : Instant → String}

/-- A service at the moment it is made. -/
def fresh (config : Config) : Server where
  world := initialWorld config .whole

/-- The service after a deed. -/
def perform (shown : Instant → String) (s : Server) : Deed → Server
  | .take name r => (s.accept shown name r).1
  | .act a => s.move (s.world.nextMove a)
  | .leave key => s.move (.dropReader key)
  | .pass d => s.move (.pass d)

/-- The service after a list of deeds. -/
def run (shown : Instant → String) (s : Server) (deeds : List Deed) : Server :=
  deeds.foldl (perform shown) s

/-- The moves that its world makes with a deed. -/
def movesOf (s : Server) : Deed → List (Move Bool (Quote Instant))
  | .take _ r => r.move?.toList
  | .act a => [s.world.nextMove a]
  | .leave key => [.dropReader key]
  | .pass d => [.pass d]

/-- The moves that its world makes with a list of deeds. -/
def trace (shown : Instant → String) (s : Server) : List Deed → List (Move Bool (Quote Instant))
  | [] => []
  | d :: deeds => s.movesOf d ++ (s.perform shown d).trace shown deeds

/-- A request makes the world move once at most. -/
theorem accept_world (s : Server) (name : String) (r : Request) :
    (s.accept shown name r).1.world = s.world.run r.move?.toList := by
  unfold accept Request.move?
  cases r.route with
  | preflight | unknownPath | wrongMethod => rfl
  | endpoint e sendsBody =>
      cases e with
      | value | refresh | invalidate | state | health => rfl
      | events =>
          simp only [serve]
          cases readBody EventRequest.field r with
          | error response => rfl
          | ok request =>
              dsimp only
              unfold publish
              cases request.refusal? <;> rfl
      | remote =>
          simp only [serve]
          cases readBody RemoteRequest.field r <;> rfl

theorem perform_world (s : Server) (d : Deed) :
    (s.perform shown d).world = s.world.run (s.movesOf d) := by
  cases d with
  | take name r => exact s.accept_world name r
  | act | leave | pass => rfl

/-- **The world of a service runs through its trace.** -/
theorem run_world (s : Server) (deeds : List Deed) :
    (s.run shown deeds).world = s.world.run (s.trace shown deeds) := by
  induction deeds generalizing s with
  | nil => rfl
  | cons d deeds ih =>
      rw [trace, World.run_append, ← perform_world]
      exact ih (s.perform shown d)

/-- Whether a move may come of a deed.  Whoever reads wants a single value, in a task of its own; and nobody
touches the source, its owner, the book, the ends of the bus or the handle. -/
def comesOfDeed : Move Bool (Quote Instant) → Bool
  | .openReader reading role => !reading.follows && role == .read
  | .invalidate | .publish _ | .surround _ | .dropReader _ | .reader _ | .attempt _ | .arm | .react _ | .pass _ =>
    true
  | _ => false

theorem comesOfDeed_movesOf (s : Server) (d : Deed) : ∀ m ∈ s.movesOf d, comesOfDeed m = true := by
  intro m made
  cases d with
  | take name r =>
      have made : r.move? = some m := Option.mem_toList.mp made
      unfold Request.move? at made
      repeat' split at made
      all_goals cases made
      all_goals rfl
  | act a =>
      rw [List.mem_singleton.mp made]
      unfold World.nextMove
      repeat' split
      all_goals rfl
  | leave | pass =>
      rw [List.mem_singleton.mp made]
      rfl

theorem comesOfDeed_trace (shown : Instant → String) (s : Server) (deeds : List Deed) :
    ∀ m ∈ s.trace shown deeds, comesOfDeed m = true := by
  induction deeds generalizing s with
  | nil => exact fun m made => nomatch made
  | cons d deeds ih =>
      intro m made
      rcases List.mem_append.mp made with now | later
      · exact s.comesOfDeed_movesOf d m now
      · exact ih (s.perform shown d) m later

/-- No deed touches the source, its owner or the book. -/
theorem ordinary_trace (shown : Instant → String) (s : Server) (deeds : List Deed) :
    ∀ m ∈ s.trace shown deeds, m.isOrdinary = true := by
  intro m made
  have deed := s.comesOfDeed_trace shown deeds m made
  cases m with
  | bind | observe | recordSuccess | dropOwner => cases deed
  | _ => rfl

/-! ## §2. Requests that settle, and sleeps. -/

/-- The service `s'` comes out of `s` by deeds. -/
def Leads (shown : Instant → String) (s s' : Server) : Prop := ∃ deeds, s' = s.run shown deeds

theorem Leads.refl (s : Server) : Leads shown s s := ⟨[], rfl⟩

theorem Leads.deed {s s' : Server} (d : Deed) (h : Leads shown (s.perform shown d) s') :
    Leads shown s s' := by
  obtain ⟨deeds, rfl⟩ := h
  exact ⟨d :: deeds, rfl⟩

theorem Leads.trans {s s' s'' : Server} (h : Leads shown s s') (h' : Leads shown s' s'') :
    Leads shown s s'' := by
  obtain ⟨deeds, rfl⟩ := h
  obtain ⟨more, rfl⟩ := h'
  exact ⟨deeds ++ more, by rw [run, run, run, List.foldl_append]⟩

theorem leads_runActor (fuel : Nat) (a : Actor) (s : Server) :
    Leads shown s { s with world := World.runActor fuel a s.world } := by
  induction fuel generalizing s with
  | zero => exact .refl s
  | succ fuel ih =>
      unfold World.runActor
      split
      · exact .deed (.act a) (ih (s.perform shown (.act a)))
      · exact .refl s

theorem leads_drain (fuel : Nat) (queue : List Actor) (s : Server) :
    Leads shown s { s with world := World.drain fuel queue s.world } := by
  induction fuel generalizing queue s with
  | zero => exact .refl s
  | succ fuel ih =>
      unfold World.drain
      split
      next => exact .refl s
      next a rest _ =>
        exact (leads_runActor fuel a s).trans
          (ih rest { s with world := World.runActor fuel a s.world })

theorem leads_settleAt (t : Instant) (s : Server) :
    Leads shown s { s with world := s.world.settleAt t } :=
  .deed (.pass (t - s.world.now).toNat) (leads_drain World.patience [] (s.move (.pass _)))

theorem leads_sleepUntil (fuel : Nat) (target : Instant) (s : Server) :
    Leads shown s { s with world := World.sleepUntil fuel target s.world } := by
  induction fuel generalizing s with
  | zero => exact .refl s
  | succ fuel ih =>
      unfold World.sleepUntil
      split
      next t _ => exact (leads_settleAt t s).trans (ih { s with world := s.world.settleAt t })
      next => exact leads_settleAt target s

end Server

/-- One step of a program that uses the service: a request after which everything settles, or a sleep. -/
inductive Visit where
  | request (name : String) (r : Request)
  | sleep (d : Duration)
  deriving DecidableEq, Repr, Inhabited

namespace Server

variable {shown : Instant → String}

/-- The service after a step of the program. -/
def visit (shown : Instant → String) (s : Server) : Visit → Server
  | .request name r => (s.request shown name r).1
  | .sleep d => (s.sleep shown d).1

theorem leads_visit (s : Server) (v : Visit) : Leads shown s (s.visit shown v) := by
  cases v with
  | request name r => exact .deed (.take name r) (leads_drain World.patience [] (s.accept shown name r).1)
  | sleep d => exact leads_sleepUntil World.patience (s.world.now + d) s

/-- **A program that uses the service does nothing but deeds**, one settling after the other. -/
theorem visits_run (config : Config) (visits : List Visit) :
    Leads shown (fresh config) (visits.foldl (visit shown) (start config .whole)) := by
  have visited (s : Server) : Leads shown s (visits.foldl (visit shown) s) := by
    induction visits generalizing s with
    | nil => exact .refl s
    | cons v visits ih => exact (leads_visit s v).trans (ih (s.visit shown v))
  exact (leads_drain World.patience [] (fresh config)).trans (visited (start config .whole))

end Server

/-! ## §3. The diagnostics. -/

end SingleFlight.Service

namespace SingleFlight

/-- A phase is described by the value that it holds. -/
theorem Phase.map_value {V W : Type} (f : V → W) (p : Phase V) :
    (p.map f).value? = p.value?.map f
      ∧ ∀ shown : W → String, (p.map f).describe shown = p.describe (shown ∘ f) := by
  cases p with
  | holding v => cases v <;> exact ⟨rfl, fun shown => rfl⟩
  | invalid refetch => cases refetch <;> exact ⟨rfl, fun shown => rfl⟩
  | empty | calculating | flushed => exact ⟨rfl, fun shown => rfl⟩

/-- Only a phase that holds a value has one. -/
theorem Phase.holding_of_value {V : Type} {p : Phase (Sourced V)} (conceals : World.Conceals p)
    {content : Sourced V} (held : p.value? = some content) : p = .holding (.concealed content) := by
  cases p with
  | holding v =>
      obtain ⟨content', rfl⟩ := conceals v rfl
      cases held
      rfl
  | empty | calculating | flushed | invalid => cases held

end SingleFlight

namespace SingleFlight.Service

/-- The remote numbers its fetches, and the quotes with them. -/
theorem numbers_remoteSource (latency : Duration) : (remoteSource latency).Numbers Quote.sequence := by
  refine ⟨_, rfl, fun k p call isFailing now q came => ?_⟩
  cases call
  cases isFailing with
  | true => cases came
  | false =>
      cases came
      rfl

namespace Server

/-- **The diagnostics agree with the remote.**  Take any deeds of a service whose remote is there: requests
in any order, with the steps of whoever serves them in between in any order, callers who leave, and time that
passes; all that a program can do that lets everything settle after each request is among them.  Then a
request for the state is answered at once and changes nothing, and its answer is as follows.  The fetches that
were launched are those that the remote counts and those that are held up; when everything has settled, these
wait for the end of their delay or for the fetch before them.  No more reports were taken in than the remote
counts fetches.  The state is a private stream of a quote exactly if that quote is the cached one, and then it
is the last that was stored.  The sequence of a stored quote is the number by which the remote counts the fetch
that the quote comes from, and it increases from each stored quote to the next.  And there is a time of the last
refresh exactly if a quote was ever stored. -/
theorem diagnostics_agree (config : Config) (shown : Instant → String) (deeds : List Deed) :
    let s₀ := fresh config
    let s := s₀.run shown deeds
    let d := s.diagnostics
    let cached := d.phase.value?
    let stored := s₀.world.stores (s₀.trace shown deeds)
    (∀ visits : List Visit, Leads shown s₀ (visits.foldl (visit shown) (start config .whole)))
      ∧ (∀ name r, r.route = .endpoint .state true →
          s.accept shown name r = (s, some (.ok (.object [
            ("state", .text (d.phase.describe (quoteText shown))),
            ("cached", .ofOption (quoteDocument shown) cached),
            ("last_refreshed_at", timeDocument shown d.lastRefreshed),
            ("stats", countersDocument d.counters),
            ("remote_fetches", .count d.remoteFetches)]))))
      ∧ d.counters.fetches = d.remoteFetches + s.world.heldUp.length
      ∧ (s.world.IsSettled → ∀ a ∈ s.world.heldUp, s.world.AwaitsTurn a)
      ∧ d.counters.successes + d.counters.failures ≤ d.remoteFetches
      ∧ (∀ t, d.phase.describe (quoteText shown) = "private stream: " ++ t
          ↔ cached.map (quoteText shown) = some t)
      ∧ (∀ q, cached = some q → (stored.map Sourced.value).getLast? = some q)
      ∧ (∀ content ∈ stored, content.value.sequence ≤ d.remoteFetches
          ∧ s.world.IsCall content.value.sequence content.origin.attempt)
      ∧ (stored.map (·.value.sequence)).Pairwise (· < ·)
      ∧ (d.lastRefreshed.isSome = true ↔ stored ≠ []) := by
  intro s₀ s d cached stored
  have initial : World.Initial (World.selfRefreshing config.settings (some (Bus.new busCapacity)) false :
      World Bool (Quote Instant)) := .selfRefreshing _ _ _
  have reachable : World.Reachable s₀.world :=
    (World.Reachable.initial initial).move (.bind (remoteSource config.latency))
  have opened : World.Ledger Quote.sequence s₀.world := initial.ledger (numbers_remoteSource config.latency)
  have ordinary := ordinary_trace shown s₀ deeds
  have world : s.world = s₀.world.run (s₀.trace shown deeds) := s₀.run_world deeds
  have reached : World.Reachable s.world := world ▸ reachable.run _
  have ledger : World.Ledger Quote.sequence s.world := world ▸ opened.run reachable ordinary
  have conceals : World.Conceals s.world.cache.cell.phase := reached.concealed
  obtain ⟨value, described⟩ := s.world.cache.cell.phase.map_value Sourced.value
  refine ⟨visits_run config, fun name r route => ?_, ledger.launched,
    fun settled a held => settled.awaitsTurn reached.ordered held, ?_, fun t => ?_, fun q held => ?_,
    fun content member => ?_, opened.stores_increase reachable ordinary, ?_⟩
  · rw [accept, route]
    rfl
  · exact Nat.le_trans (Nat.le_add_right _ _) ledger.reported
  · show (s.world.cache.cell.phase.map Sourced.value).describe _ = _
      ↔ (s.world.cache.cell.phase.map Sourced.value).value?.map _ = _
    rw [described, value, Option.map_map]
    exact Phase.describe_eq_iff conceals _ t
  · obtain ⟨content, known, rfl⟩ := Option.map_eq_some_iff.mp (value.symm.trans held)
    have holding := Phase.holding_of_value conceals known
    rw [world] at holding
    rw [List.getLast?_map]
    rcases World.held_last_stored holding with last | ⟨_, before⟩
    · rw [last]
      rfl
    · -- nothing is held at the beginning
      cases before
  · obtain ⟨called, _⟩ := opened.numbered_stores reachable ordinary content member
    rw [← world] at called
    exact ⟨called.le, called⟩
  · have counted := World.stores_length s₀.world (s₀.trace shown deeds)
    rw [← world, show s₀.world.cache.cell.revision = 0 from rfl, Nat.zero_add] at counted
    refine ledger.dated.trans ?_
    rw [← counted]
    exact not_congr List.length_eq_zero_iff

/-- A quote is fetched and given to whoever asked for it; then another is asked for, and its fetch is held
back for the rest of the window. -/
def secondHeldBack : List Deed :=
  [.act .refresher, .take "a" ⟨"GET", "/value", [], []⟩, .act (.reader 0), .act (.reader 0),
    .act (.attempt 1), .act (.attempt 1), .pass (.ofMillis 50), .act (.attempt 1), .act (.attempt 1),
    .act (.attempt 1), .act (.reader 0), .act .refresher, .act .refresher,
    .take "b" ⟨"POST", "/refresh", [], []⟩, .act (.reader 1), .act (.attempt 2)]

theorem diagnostics_agree_secondHeldBack :
    let shown := fun _ => ""
    let s₀ := fresh { throttleMillis := 100 }
    let s := s₀.run shown secondHeldBack
    s.world.IsSettled
      ∧ s.diagnostics.counters.fetches = 2 ∧ s.diagnostics.remoteFetches = 1
      ∧ (∃ a, s.world.heldUp = [a] ∧ s.world.AwaitsTurn a)
      ∧ (s₀.world.stores (s₀.trace shown secondHeldBack)).map (·.value.sequence) = [1]
      ∧ s.diagnostics.lastRefreshed.isSome = true
      ∧ (s.accept shown "c" ⟨"GET", "/state", [], []⟩).1 = s := by
  intro shown s₀ s
  obtain ⟨_, answered, _, turns, _, _, _, _, _, refreshed⟩ :=
    diagnostics_agree { throttleMillis := 100 } shown secondHeldBack
  have settled : s.world.IsSettled := by
    unfold World.IsSettled
    decide +kernel
  have fetches : s.diagnostics.counters.fetches = 2 := by decide +kernel
  have called : s.diagnostics.remoteFetches = 1 := by decide +kernel
  have stored : (s₀.world.stores (s₀.trace shown secondHeldBack)).map (·.value.sequence) = [1] := by
    decide +kernel
  have one : s.world.heldUp.length = 1 := by decide +kernel
  obtain ⟨a, alone⟩ := List.length_eq_one_iff.mp one
  have route : Request.route ⟨"GET", "/state", [], []⟩ = .endpoint .state true := by decide +kernel
  refine ⟨settled, fetches, called, ⟨a, alone, turns settled a ?_⟩, stored,
    refreshed.mpr fun none => ?_, ?_⟩
  · show a ∈ s.world.heldUp
    rw [alone]
    exact List.mem_singleton_self a
  · have none : s₀.world.stores (s₀.trace shown secondHeldBack) = [] := none
    rw [none] at stored
    cases stored
  · rw [answered "c" _ route]

end Server

end SingleFlight.Service
