/-
  SingleFlight.Proofs.EventEndpoint — an event, from its request to the remote.

  Whatever has happened to a service, whoever reads wants a single quote, the
  refresher listens to the bus as long as it runs, and the ledger is in order
  (`Underway`).  So where everything rests, no fetch is on its way and the
  refresher runs, the service is at ease: an event that is posted there, in a
  body that is not too long to be read, makes a quote due that was not, just if
  it is the login and the service refreshes on it, and changes nothing else that
  can be seen.  The request for the quote that follows is then the only one that
  can make the remote fetch.

  Main results:
    * `underway` — what holds of a service after all deeds.
    * `triggersOn_iff` — which names make the quote due.
    * `events_endpoint` — what becomes of a name that is posted, up to the remote.
-/
import SingleFlight.Proofs.Diagnostics
import SingleFlight.Proofs.Posting
import SingleFlight.Proofs.Settling

namespace SingleFlight.Service

/-! ## §1. A service under way. -/

/-- What holds of the world of a service, whatever has happened to it. -/
structure Underway (config : Config) (w : World Bool (Quote Instant)) : Prop where
  reachable : World.Reachable w
  ledger : World.Ledger Quote.sequence w
  once : World.ReadsOnce w
  listens : World.Listens w
  handle : w.hasHandle = true
  freshness : w.cache.staleness.freshness = config.freshness
  pacing : w.cache.dispatcher.pacing = config.pacing
  reliable : World.Reliable w
  vigilant : w.refresher.isRunning = true → World.Vigilant w

/-- The channel on which the service hears of events. -/
theorem isLive_new : (Bus.new Server.busCapacity).IsLive := ⟨rfl, rfl, by decide⟩

/-- **What holds of a service after all deeds.** -/
theorem underway (config : Config) (shown : Instant → String) (deeds : List Deed) :
    Underway config ((Server.fresh config).run shown deeds).world := by
  have initial : World.Initial (World.selfRefreshing config.settings (some (Bus.new Server.busCapacity)) false :
      World Bool (Quote Instant)) := .selfRefreshing _ _ _
  have reachable : World.Reachable (Server.fresh config).world :=
    (World.Reachable.initial initial).move (.bind (remoteSource config.latency))
  have opened : World.Ledger Quote.sequence (Server.fresh config).world :=
    initial.ledger (numbers_remoteSource config.latency)
  have unread : World.ReadsOnce (Server.fresh config).world := fun s (seated : s ∈ []) => nomatch seated
  have listens : World.Listens (Server.fresh config).world := fun _ => ⟨_, rfl, isLive_new⟩
  rw [Server.run_world]
  have deed := (Server.fresh config).comesOfDeed_trace shown deeds
  have ordinary := (Server.fresh config).ordinary_trace shown deeds
  generalize (Server.fresh config).trace shown deeds = moves at deed ordinary ⊢
  -- what does not come of a deed is not among the moves
  have without {m : Move Bool (Quote Instant)} (never : Server.comesOfDeed m = false) : m ∉ moves := fun made => by
    cases never.symm.trans (deed m made)
  have run : (Server.fresh config).world.run moves
      = (World.selfRefreshing config.settings (some (Bus.new Server.busCapacity)) false :
          World Bool (Quote Instant)).run (.bind (remoteSource config.latency) :: moves) := rfl
  refine ⟨reachable.run moves, opened.run reachable ordinary, ?_, ?_, ?_, ?_, ?_, ?_, fun running => ?_⟩
  · refine unread.run fun reading role made => ?_
    have single := deed _ made
    simp only [Server.comesOfDeed, Bool.and_eq_true, Bool.not_eq_true', beq_iff_eq] at single
    exact ⟨by rw [single.2]; decide, single.1⟩
  · exact listens.run rfl (without rfl)
  · exact World.hasHandle_run (without rfl) _
  · exact World.freshness_run (without rfl) _
  · exact World.pacing_run reachable moves
  · exact run ▸ World.reliable_run _ _ _ _
  · rw [run] at running ⊢
    exact World.vigilant_run _ _ _ _ running

namespace Underway

variable {config : Config} {w : World Bool (Quote Instant)}

/-- A service is at ease where everything rests, no fetch is on its way, and the refresher runs. -/
theorem atEase (h : Underway config w) (settled : w.IsSettled) (unfetched : w.cache.dispatcher.running = [])
    (running : w.refresher.isRunning = true) : World.AtEase w where
  toOnDuty := h.reliable [] running
    (World.idle_of_unready (h.vigilant running) running settled.refresher).2
  toVacant := settled.vacant h.reachable h.once unfetched
  rests := settled.refresher
  handle := h.handle

/-- A fetch is held back for the window at most. -/
theorem holdBack_le (h : Underway config w) :
    w.cache.dispatcher.holdBack w.now ≤ Duration.ofMillis config.throttleMillis := by
  have pacing := h.pacing
  unfold Config.pacing at pacing
  split at pacing
  next =>
    rw [Dispatcher.holdBack, pacing]
    exact Nat.zero_le _
  next => exact World.holdBack_le pacing w.now

/-- The start of the next fetch lies within the window, unless the clock ends before that does. -/
theorem start_cases (h : Underway config w) :
    let start? := w.now.later? (w.cache.dispatcher.holdBack w.now)
    let latest : Instant := w.now + (Duration.ofMillis config.throttleMillis : Duration)
    (∃ start, start? = some start ∧ w.now ≤ start ∧ start ≤ latest)
      ∨ (start? = none ∧ Instant.horizon ≤ latest) := by
  intro start? latest
  have bound : w.now + (w.cache.dispatcher.holdBack w.now : Instant) ≤ latest :=
    Int.add_le_add_left (Int.ofNat_le.mpr h.holdBack_le) w.now
  show (∃ start, w.now.later? _ = some start ∧ _) ∨ (w.now.later? _ = none ∧ _)
  unfold Instant.later?
  split
  next => exact Or.inl ⟨_, rfl, Instant.le_add _ _, bound⟩
  next beyond => exact Or.inr ⟨rfl, Int.le_trans (Int.not_lt.mp fun ahead => beyond (Or.inr ahead)) bound⟩

end Underway

/-! ## §2. Names. -/

/-- The event of this name makes the quote due: it is the login, and the service refreshes on that. -/
def Config.refreshesOn (config : Config) (event : String) : Prop :=
  config.refreshOnLogin = true ∧ (Text.trim event = "login" ∨ Text.trim event = "logged_in")

instance (config : Config) (event : String) : Decidable (config.refreshesOn event) :=
  inferInstanceAs (Decidable (_ ∧ _))

/-- **The login is the only trigger, by its name or its alias**, and no custom event is taken for it. -/
theorem Config.triggersOn_iff (config : Config) (event : String) :
    config.freshness.triggersOn (EventRequest.signal ⟨event⟩) = true ↔ config.refreshesOn event := by
  have login : EventRequest.signal ⟨event⟩ = .loggedIn
      ↔ Text.trim event = "login" ∨ Text.trim event = "logged_in" := by
    unfold EventRequest.signal Signal.ofName
    split
    next own => exact iff_of_true rfl own
    next other =>
      refine iff_of_false (fun same => ?_) other
      split at same <;> cases same
  unfold Config.refreshesOn Config.freshness
  rw [← login]
  cases config.refreshOnLogin with
  | false => exact iff_of_false (fun triggers => nomatch triggers) fun h => nomatch h.1
  | true =>
      show [Signal.loggedIn].contains _ = true ↔ _
      simp

/-- White space is no name. -/
theorem Config.refreshesOn_of_blank (config : Config) {event : String} (blank : Text.IsBlank event) :
    ¬ config.refreshesOn event := by
  have nothing : Text.trim event = "" := String.isEmpty_iff.mp ((Text.trim_isEmpty_iff event).mpr blank)
  rw [refreshesOn, nothing]
  exact fun h => absurd h.2 (by decide)

/-! ## §3. Requests and steps. -/

/-- Whether a deed starts a read. -/
def Deed.reads : Deed → Bool
  | .take _ r => match r.route with
    | .endpoint .value _ | .endpoint .refresh _ => true
    | _ => false
  | _ => false

namespace Server

variable {shown : Instant → String}

theorem run_cons (s : Server) (d : Deed) (deeds : List Deed) :
    s.run shown (d :: deeds) = (s.perform shown d).run shown deeds := rfl

theorem run_append (s : Server) (deeds more : List Deed) :
    s.run shown (deeds ++ more) = (s.run shown deeds).run shown more := List.foldl_append

/-- Where only actors take steps, the world makes their moves. -/
theorem trace_acts (s : Server) (acts : List Actor) : s.trace shown (acts.map .act) = s.world.turns acts := by
  induction acts generalizing s with
  | nil => rfl
  | cons a acts ih => exact congrArg (s.world.nextMove a :: ·) (ih (s.perform shown (.act a)))

theorem run_acts_world (s : Server) (acts : List Actor) :
    (s.run shown (acts.map .act)).world = s.world.run (s.world.turns acts) := by
  rw [run_world, trace_acts]

/-- As long as no deed starts a read, nobody comes to read. -/
theorem unopened_trace (s : Server) {deeds : List Deed} (unread : ∀ d ∈ deeds, d.reads = false)
    (reading : Reading) (role : Role) : .openReader reading role ∉ s.trace shown deeds := by
  induction deeds generalizing s with
  | nil => exact List.not_mem_nil
  | cons d deeds ih =>
      intro made
      rcases List.mem_append.mp made with now | later
      · have silent := unread d List.mem_cons_self
        cases d with
        | take name r =>
            have made : r.move? = some (.openReader reading role) := Option.mem_toList.mp now
            simp only [Deed.reads] at silent
            simp only [Request.move?] at made
            cases route : r.route with
            | preflight | unknownPath | wrongMethod => simp [route] at made
            | endpoint e sendsBody =>
                cases e with
                | value | refresh => simp [route] at silent
                | invalidate | state | health => simp [route] at made
                | events | remote =>
                    simp only [route] at made
                    repeat' split at made
                    all_goals cases made
        | act a => exact (s.world.nextMove_plain a).2 reading role (List.mem_singleton.mp now).symm
        | leave | pass => cases List.mem_singleton.mp now
      · exact ih (s.perform shown d) (fun d h => unread d (List.mem_cons_of_mem _ h)) later

/-- The request for the quote starts a read. -/
theorem perform_getValue (s : Server) (name : String) :
    (s.perform shown (.take name getValue)).world = s.world.apply (.openReader .once .read) := by
  show (s.accept shown name getValue).1.world = _
  rw [accept, route_getValue]
  rfl

/-- The request that posts an event publishes it, or nothing. -/
theorem movesOf_postOf (s : Server) (name event : String) : s.movesOf (.take name (postOf event))
    = if IsEvent event then [.publish (EventRequest.signal ⟨event⟩)] else [] := by
  show (postOf event).move?.toList = _
  rw [Request.move?, route_postOf]
  simp only [readBody_postOf]
  by_cases made : IsEvent event
  · rw [if_pos made, if_pos made.1]
    simp only [EventRequest.refusal?_of_named ⟨event⟩ made.2]
    rfl
  · rw [if_neg made]
    by_cases fits : Fits event
    · have blank : Text.IsBlank event := by
        by_contra named
        exact made ⟨fits, named⟩
      rw [if_pos fits]
      simp only [EventRequest.refusal?_of_blank ⟨event⟩ blank]
      rfl
    · rw [if_neg fits]
      rfl

theorem movesOf_eq_nil_iff (s : Server) (name : String) {event : String} :
    s.movesOf (.take name (postOf event)) = [] ↔ ¬ IsEvent event := by
  rw [movesOf_postOf]
  by_cases made : IsEvent event
  · rw [if_pos made]
    exact iff_of_false (List.cons_ne_nil _ _) fun refused => refused made
  · rw [if_neg made]
    exact iff_of_true rfl made

/-! ## §4. An event that is posted to a service at ease. -/

/-- The world in which the request that posts an event has been taken in. -/
theorem perform_postOf (s : Server) (name event : String) : (s.perform shown (.take name (postOf event))).world
    = if IsEvent event then s.world.apply (.publish (EventRequest.signal ⟨event⟩)) else s.world := by
  rw [perform_world, movesOf_postOf]
  by_cases made : IsEvent event
  · rw [if_pos made, if_pos made]
    rfl
  · rw [if_neg made, if_neg made]
    rfl

section

variable {config : Config} {s : Server}

/-- **Everything comes to rest after an event that is posted where everything is at ease.** -/
theorem settles_after_post (h : Underway config s.world) (ease : World.AtEase s.world) (name event : String) :
    ∃ acts : List Actor, (s.run shown (.take name (postOf event) :: acts.map .act)).world.IsSettled := by
  obtain ⟨v, ⟨acts, rfl⟩, settled⟩ : ∃ v, World.Becomes (s.perform shown (.take name (postOf event))).world v
      ∧ v.IsSettled := by
    rw [perform_postOf]
    split
    · have sent : World.Vacant (s.world.apply (.publish (EventRequest.signal ⟨event⟩))) :=
        ⟨ease.unread, ease.unfetched⟩
      exact (sent.closing (h.reachable.move _) (h.ledger.toOneShot.apply h.reachable rfl)
        fun moves => h.reliable (_ :: moves)).settles
    · exact (ease.toVacant.closing h.reachable h.ledger.toOneShot h.reliable).settles
  refine ⟨acts, ?_⟩
  rwa [run_cons, run_acts_world]

/-- **What an event leaves that is posted where everything is at ease**: the quote is due if it was not, just if
the service refreshes on the name and the body was read. -/
theorem heeded_of_post (h : Underway config s.world) (ease : World.AtEase s.world)
    (fresh : s.world.cache.staleness.isDue s.world.now = false) {name event : String} {acts : List Actor} :
    let s' := s.run shown (.take name (postOf event) :: acts.map .act)
    s'.world.IsSettled → World.Heeded s.world s'.world (decide (Fits event ∧ config.refreshesOn event)) := by
  intro s' settled
  have world : s'.world = (s.perform shown (.take name (postOf event))).world.run
      ((s.perform shown (.take name (postOf event))).world.turns acts) := run_acts_world _ acts
  have unsignalled : s.world.cache.staleness.signalPending = false := by
    rw [Staleness.isDue, Bool.or_eq_false_iff, Bool.or_eq_false_iff] at fresh
    exact fresh.1.1
  rw [perform_postOf] at world
  split at world
  next made =>
    have heard : config.freshness.triggersOn (EventRequest.signal ⟨event⟩)
        = decide (Fits event ∧ config.refreshesOn event) :=
      Bool.eq_iff_iff.mpr (((config.triggersOn_iff event).trans (and_iff_right made.1).symm).trans
        decide_eq_true_iff.symm)
    have heeded := ease.signalled h.listens (EventRequest.signal ⟨event⟩) acts
      (world ▸ settled.refresher)
    rw [← world, unsignalled, Bool.false_or, World.triggersOn, h.freshness] at heeded
    rwa [heard] at heeded
  next refused =>
    -- nothing was published, so nobody has anything to do
    have unheard : ¬ (Fits event ∧ config.refreshesOn event) :=
      fun heard => refused ⟨heard.1, fun blank => config.refreshesOn_of_blank blank heard.2⟩
    rw [ease.undisturbed acts] at world
    rw [world, decide_eq_false unheard, ← unsignalled]
    exact ease.heeded_self

end

/-! ## §5. The request for the quote that follows. -/

/-- The remote has been called as listed, and is not called again until somebody asks for a quote. -/
def CallsStay (shown : Instant → String) (s : Server) (calls : List (Nat × Instant)) : Prop :=
  ∀ more : List Deed, (∀ d ∈ more, d.reads = false) → (s.run shown more).world.calls = calls

/-- The remote has been called as listed, and is called once more, by the attempt `n` at `start`, until somebody
asks for a quote. -/
structure CallsOnce (shown : Instant → String) (s : Server) (calls : List (Nat × Instant)) (n : Nat)
    (start : Instant) : Prop where
  /-- It has been called then, once everything is at rest at the start or later. -/
  once : ∀ more : List Deed, (∀ d ∈ more, d.reads = false) → s.world.isGradual (s.trace shown more) = true →
    (s.run shown more).world.IsSettled → start ≤ (s.run shown more).world.now →
      (s.run shown more).world.calls = (n, start) :: calls
  /-- And this comes about. -/
  comes : ∃ more : List Deed, (∀ d ∈ more, d.reads = false) ∧ s.world.isGradual (s.trace shown more) = true
    ∧ (s.run shown more).world.IsSettled ∧ start ≤ (s.run shown more).world.now

/-- Where everything is at rest at the start or later, the remote has been called. -/
theorem CallsOnce.called {s : Server} {calls : List (Nat × Instant)} {n : Nat} {start : Instant}
    (h : s.CallsOnce shown calls n start) (settled : s.world.IsSettled) (passed : start ≤ s.world.now) :
    s.world.calls = (n, start) :: calls :=
  h.once [] (fun _ made => nomatch made) rfl settled passed

theorem reads_acts (acts : List Actor) : ∀ d ∈ acts.map Deed.act, d.reads = false := by
  intro d made
  obtain ⟨a, _, rfl⟩ := List.mem_map.mp made
  rfl

/-- **What a request for the quote makes of a service at ease.** -/
theorem reads_at_ease (shown : Instant → String) {config : Config} {s : Server} (h : Underway config s.world)
    (ease : World.AtEase s.world) (held : s.world.cache.peek.isSome = true) (name : String) :
    let w := s.world
    let due := w.cache.staleness.isDue w.now
    let start? := w.now.later? (w.cache.dispatcher.holdBack w.now)
    (∃ acts : List Actor, (s.run shown (.take name getValue :: acts.map .act)).world.IsSettled)
      ∧ ∀ acts : List Actor, let q := s.run shown (.take name getValue :: acts.map .act)
        q.world.IsSettled →
          (due = false ∨ start? = none → q.CallsStay shown w.calls)
            ∧ (due = true → ∀ start, start? = some start →
                q.CallsOnce shown w.calls (w.cache.dispatcher.latest + 1) start) := by
  intro w due start?
  obtain ⟨content, holding⟩ : ∃ content, w.cache.cell.phase = .holding (.concealed content) := by
    obtain ⟨content, known⟩ := Option.isSome_iff_exists.mp (Option.isSome_map.symm.trans held)
    exact ⟨content, Phase.holding_of_value h.reachable.concealed known⟩
  obtain ⟨⟨v, ⟨acts, rfl⟩, settled⟩, all⟩ := ease.reads h.reachable h.ledger h.reliable holding
  refine ⟨⟨acts, ?_⟩, ?_⟩
  · rwa [run_cons, run_acts_world, perform_getValue]
  · intro acts q settled
    have world : q.world
        = (w.apply (.openReader .once .read)).run ((w.apply (.openReader .once .read)).turns acts) := by
      show ((s.perform shown (.take name getValue)).run shown (acts.map .act)).world = _
      rw [run_acts_world, perform_getValue]
    obtain ⟨calls, comes⟩ := all q.world ⟨acts, world⟩ settled
    refine ⟨fun spared more unread => ?_, fun isDue start named => ?_⟩
    · rw [run_world]
      refine (calls _ (ordinary_trace shown q more) (q.unopened_trace unread)).1 (spared.imp_right fun none => ?_)
      exact Option.isSome_eq_false_iff.mpr (Option.isNone_iff_eq_none.mpr none)
    · have isNamed : (w.now.later? (w.cache.dispatcher.holdBack w.now)).isSome = true :=
        Option.isSome_iff_exists.mpr ⟨start, named⟩
      obtain rfl : w.nextStart = start := by
        refine (Instant.later?_getD isNamed (s := 0)).symm.trans ?_
        rw [show w.now.later? (w.cache.dispatcher.holdBack w.now) = some start from named, Option.getD_some]
      refine ⟨fun more unread gradual rests passed => ?_, ?_⟩
      · rw [run_world] at rests passed ⊢
        exact (calls _ (ordinary_trace shown q more) (q.unopened_trace unread)).2 isDue isNamed gradual rests passed
      · -- time passes up to the start, and everything comes to rest there
        obtain ⟨d, u, gradual, ⟨acts', rfl⟩, rests, passed⟩ := comes isDue isNamed
        have trace : q.trace shown (.pass d :: acts'.map .act)
            = .pass d :: (q.world.apply (.pass d)).turns acts' := by
          rw [Server.trace, trace_acts]
          rfl
        have world : (q.run shown (.pass d :: acts'.map .act)).world
            = (q.world.apply (.pass d)).run ((q.world.apply (.pass d)).turns acts') :=
          run_acts_world (q.perform shown (.pass d)) acts'
        refine ⟨.pass d :: acts'.map .act, ?_, ?_, ?_⟩
        · exact List.forall_mem_cons.mpr ⟨rfl, reads_acts acts'⟩
        · rw [trace, World.isGradual_cons]
          exact ⟨gradual, World.isGradual_turns _ acts'⟩
        · rw [world]
          exact ⟨rests, passed⟩

/-! ## §6. From the request to the remote. -/

theorem diagnostics_of_heeded {s s' : Server} {signalPending : Bool}
    (h : World.Heeded s.world s'.world signalPending) : s'.diagnostics = s.diagnostics := by
  obtain ⟨_, calls, _, phase, counters, lastSuccess⟩ := h.frame
  rw [diagnostics, diagnostics, calls, phase, counters, lastSuccess]

/-- **What becomes of the name of an event that is posted**, whatever the name, and whatever has happened to the
service.  A body that is too long is refused with 413, and nothing is published.  Let it not be too long.  Then
the name is refused with 400 just if it is white space, and just then nothing is published.  Otherwise the
event is published that it stands for; the answer is 200, and acknowledges the event by its shown name, which
stands for the same event; and white space around the name makes no difference, unless it makes the body too
long.

Let besides everything rest, a quote be held and not be due, no fetch be on its way, and the refresher run.  Then
everything comes to rest again, and in whatever order the steps are taken, neither the state that is reported nor
the held quote has changed, and the quote is due just if the event is heeded: the body was read, the service
refreshes on the login, and the name is one of the login's.  A request for the quote that comes then, and
everything coming to rest again, makes the remote fetch just in that case: once, at once or at the end of the
window that began with the last fetch, unless the clock ends before that window.  Otherwise the remote is not
called until somebody asks for another quote. -/
theorem events_endpoint (config : Config) (shown : Instant → String) (deeds : List Deed) (name event : String) :
    let s := (fresh config).run shown deeds
    let w := s.world
    let e := EventRequest.signal ⟨event⟩
    let post := Deed.take name (postOf event)
    let answer := (s.accept shown name (postOf event)).2
    let heeds := Fits event ∧ config.refreshesOn event
    let latest : Instant := w.now + (Duration.ofMillis config.throttleMillis : Duration)
    (¬ Fits event → answer = some ⟨413, none⟩ ∧ s.movesOf post = [])
      ∧ (Fits event →
          (answer.map (·.status) = some 400 ↔ Text.IsBlank event)
            ∧ (s.movesOf post = [] ↔ Text.IsBlank event)
            ∧ (¬ Text.IsBlank event →
                answer = some ⟨200, some (ackDocument ("Event '" ++ e.name ++ "' published"))⟩
                  ∧ s.movesOf post = [.publish e] ∧ Signal.ofName e.name = e)
            ∧ ∀ before after, Text.IsBlank before → Text.IsBlank after → Fits (before ++ event ++ after) →
                s.accept shown name (postOf (before ++ event ++ after)) = s.accept shown name (postOf event))
      ∧ (w.IsSettled → w.cache.peek.isSome = true → w.cache.staleness.isDue w.now = false →
          w.cache.dispatcher.running = [] → w.refresher.isRunning = true →
          (∃ acts : List Actor, (s.run shown (post :: acts.map .act)).world.IsSettled)
            ∧ ∀ acts : List Actor, let s' := s.run shown (post :: acts.map .act)
              s'.world.IsSettled →
                s'.diagnostics = s.diagnostics ∧ s'.world.cache.peek = w.cache.peek ∧ s'.world.now = w.now
                  ∧ (s'.world.cache.staleness.isDue w.now = true ↔ heeds)
                  ∧ ∀ name' : String, let get := Deed.take name' getValue
                    (∃ acts' : List Actor, (s'.run shown (get :: acts'.map .act)).world.IsSettled)
                      ∧ ∀ acts' : List Actor, let q := s'.run shown (get :: acts'.map .act)
                        q.world.IsSettled →
                          (¬ heeds → q.CallsStay shown w.calls)
                            ∧ (heeds →
                                (∃ start, w.now ≤ start ∧ start ≤ latest
                                    ∧ q.CallsOnce shown w.calls (w.cache.dispatcher.latest + 1) start)
                                  ∨ (Instant.horizon ≤ latest ∧ q.CallsStay shown w.calls))) := by
  intro s w e post answer heeds latest
  have way : Underway config w := underway config shown deeds
  have answered := s.accept_postOf shown name event
  refine ⟨fun long => ⟨?_, ?_⟩, fun fits => ⟨s.refuses_iff shown name fits, ?_, fun named => ⟨?_, ?_, ?_⟩, ?_⟩, ?_⟩
  · show (s.accept shown name (postOf event)).2 = _
    rw [answered, if_neg fun made => long made.1, if_neg long]
  · exact (s.movesOf_eq_nil_iff name).mpr fun made => long made.1
  · rw [s.movesOf_eq_nil_iff, IsEvent, and_iff_right fits, not_not]
  · show (s.accept shown name (postOf event)).2 = _
    rw [answered, if_pos ⟨fits, named⟩]
  · exact (s.movesOf_postOf name event).trans (if_pos ⟨fits, named⟩)
  · exact Signal.ofName_name_ofName _
  · intro before after blank blank' padded
    exact s.accept_padded shown name event blank blank' padded
  · intro settled held fresh unfetched running
    have ease := way.atEase settled unfetched running
    refine ⟨settles_after_post way ease name event, ?_⟩
    intro acts s' settled'
    have heeded : World.Heeded w s'.world (decide heeds) := heeded_of_post way ease fresh settled'
    -- the service is under way as before, and at ease again
    have way' : Underway config s'.world := by
      have later := underway config shown (deeds ++ post :: acts.map .act)
      rwa [run_append] at later
    obtain ⟨now, calls, dispatcher, phase, _⟩ := heeded.frame
    have peek : s'.world.cache.peek = w.cache.peek := by rw [Cache.peek, Cache.peek, phase]
    have due := heeded.isDue fresh
    rw [now] at due
    refine ⟨diagnostics_of_heeded heeded, peek, now, ?_, fun name' => ?_⟩
    · rw [due, decide_eq_true_iff]
    · have reads := reads_at_ease shown way' heeded.ease (peek ▸ held) name'
      simp only [now, calls, dispatcher, due] at reads
      refine ⟨reads.1, ?_⟩
      intro acts' q rests
      obtain ⟨spared, launched⟩ := reads.2 acts' rests
      refine ⟨fun unheeded => spared (Or.inl (decide_eq_false unheeded)), fun login => ?_⟩
      rcases way.start_cases with ⟨start, named, bounds⟩ | ⟨beyond, ends⟩
      · exact Or.inl ⟨start, bounds.1, bounds.2, launched (decide_eq_true login) start named⟩
      · exact Or.inr ⟨ends, spared (Or.inr beyond)⟩

/-- A quote is fetched, and given to who asked for it. -/
def firstQuote : List Deed :=
  [.act .refresher, .take "a" getValue, .act (.reader 0), .act (.reader 0), .act (.attempt 1), .act (.attempt 1),
    .pass (.ofMillis 50), .act (.attempt 1), .act (.attempt 1), .act (.attempt 1), .act (.reader 0),
    .act .refresher, .act .refresher]

theorem events_endpoint_loginAlias :
    let shown := fun _ => ""
    let s := (fresh {}).run shown firstQuote
    let heard : List Actor := [.refresher, .refresher, .refresher, .refresher]
    let s' := s.run shown (.take "b" (postOf " logged_in\n") :: heard.map .act)
    let fetches : List Actor := [.reader 1, .reader 1, .attempt 2, .attempt 2]
    let q := s'.run shown (.take "c" getValue :: fetches.map .act)
    (s.accept shown "b" (postOf " logged_in\n")).2 = some ⟨200, some (ackDocument "Event 'login' published")⟩
      ∧ s'.world.IsSettled ∧ s'.diagnostics = s.diagnostics ∧ s'.world.cache.staleness.isDue s.world.now = true
      ∧ q.world.IsSettled ∧ q.world.calls = (2, s.world.now) :: s.world.calls := by
  intro shown s heard s' fetches q
  obtain ⟨_, read, ease⟩ := events_endpoint {} shown firstQuote "b" " logged_in\n"
  have fits : Fits " logged_in\n" := by decide +kernel
  obtain ⟨_, _, posted, _⟩ := read fits
  have settled : s.world.IsSettled := by
    unfold World.IsSettled
    decide +kernel
  have named : ¬ Text.IsBlank " logged_in\n" := by decide +kernel
  have login : ({} : Config).refreshesOn " logged_in\n" := by decide +kernel
  obtain ⟨_, after⟩ := ease settled (by decide +kernel) (by decide +kernel)
    (List.length_eq_zero_iff.mp (by decide +kernel)) (by decide +kernel)
  have heardOut : s'.world.IsSettled := by
    unfold World.IsSettled
    decide +kernel
  have rests : q.world.IsSettled := by
    unfold World.IsSettled
    decide +kernel
  obtain ⟨same, _, _, due, reads⟩ := after heard heardOut
  refine ⟨(posted named).1, heardOut, same, due.mpr ⟨fits, login⟩, rests, ?_⟩
  rcases ((reads "c").2 fetches rests).2 ⟨fits, login⟩ with ⟨start, since, within, once⟩ | ⟨ends, _⟩
  · -- without a window the start is now
    obtain rfl : s.world.now = start := Int.le_antisymm since (Int.le_trans within (by decide +kernel))
    have second : ((fresh {}).run shown firstQuote).world.cache.dispatcher.latest + 1 = 2 := by decide +kernel
    have called := once.called rests (by decide +kernel)
    rw [second] at called
    exact called
  · exact absurd ends (by decide +kernel)

/-- As much white space as a body may have octets. -/
def longBlank : String := String.ofList (List.replicate bodyLimit ' ')

/-- There is nothing wrong with the name but its length. -/
theorem events_endpoint_longLogin :
    let shown := fun _ => ""
    let s := (fresh {}).run shown firstQuote
    let event := "login" ++ longBlank
    s.world.IsSettled ∧ ¬ Text.IsBlank event ∧ Text.trim event = "login"
      ∧ (s.accept shown "b" (postOf event)).2 = some ⟨413, none⟩
      ∧ s.movesOf (.take "b" (postOf event)) = []
      ∧ (s.accept shown "b" (postOf "login")).2 = some ⟨200, some (ackDocument "Event 'login' published")⟩
      ∧ s.movesOf (.take "b" (postOf "login")) = [.publish .loggedIn] := by
  intro shown s event
  have settled : s.world.IsSettled := by
    unfold World.IsSettled
    decide +kernel
  have blanks : longBlank.toList = List.replicate bodyLimit ' ' := String.toList_ofList
  have blank : Text.IsBlank longBlank := by
    intro c member
    rw [blanks] at member
    rw [List.eq_of_mem_replicate member]
    rfl
  have trimmed : Text.trim event = "login" := by
    have padded : Text.trim ("" ++ "login" ++ longBlank) = Text.trim "login" :=
      Text.trim_padded (by decide) blank "login"
    rw [String.empty_append] at padded
    exact padded.trans (by decide +kernel)
  have named : ¬ Text.IsBlank event := by
    rw [← Text.trim_isEmpty_iff, trimmed]
    decide
  have long : ¬ Fits event := by
    refine not_fits_of_length ?_
    rw [String.toList_append, List.length_append, blanks, List.length_replicate]
    exact Nat.le_add_left _ _
  have login : IsEvent "login" := by decide +kernel
  refine ⟨settled, named, trimmed, ?_, ?_, ?_, ?_⟩
  · rw [accept_postOf, if_neg fun made => long made.1, if_neg long]
  · rw [movesOf_postOf, if_neg fun made => long made.1]
  · rw [accept_postOf, if_pos login]
    rfl
  · rw [movesOf_postOf, if_pos login]
    rfl

end Server

end SingleFlight.Service
