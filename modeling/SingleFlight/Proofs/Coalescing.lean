/-
  SingleFlight.Proofs.Coalescing — reads that come together are served by one attempt.

  A read is evaluated when it is given the held value or a ticket for an attempt.
  `evaluations` writes down the evaluations of a run.  As long as the value is
  not thrown away and no attempt reports, at most one of them launches: from
  then on the cell waits for the new attempt, and whoever comes joins it.
  `Coalesced` says so for every moment of such a run.

  Main results:
    * `Coalesced.run` — it holds until an invalidation or a report comes.
    * `evaluations_inTurn` — reads that are made one after another are evaluated
      once each.
    * `coalescing` — the two together.
-/
import SingleFlight.Proofs.Marks
import SingleFlight.Proofs.Refill

namespace SingleFlight

variable {ε V : Type}

/-! ## §1. Evaluations. -/

/-- Evaluations counted so far: every one launches, joins, or is given the held value. -/
def Counters.evaluations (c : Counters) : Nat := c.fetches + c.coalesced + c.deliveries

theorem Counters.evaluations_countFetch (c : Counters) :
    c.countFetch.evaluations = c.evaluations + 1 := by
  simp only [evaluations, countFetch]
  omega

theorem Counters.evaluations_countCoalesced (c : Counters) :
    c.countCoalesced.evaluations = c.evaluations + 1 := by
  simp only [evaluations, countCoalesced]
  omega

theorem Counters.evaluations_countDelivery (c : Counters) :
    c.countDelivery.evaluations = c.evaluations + 1 := by
  simp only [evaluations, countDelivery]
  omega

namespace Cache

/-- What the evaluation of a read makes of the cache, and what the read is given. -/
inductive Evaluated (c : Cache ε V) (now : Instant) : Cache ε V × Option (Access V) → Prop where
  /-- The read is not evaluated yet. -/
  | idle : Evaluated c now (c, none)
  /-- The reader took notice that the value is gone. -/
  | noticed (refetch : Bool) (h : c.cell.phase = .flushed ∨ c.cell.phase = .invalid false) :
      Evaluated c now (c.withCell (·.moveTo (.invalid refetch)), none)
  /-- An attempt has to serve it. -/
  | ticket {c' : Cache ε V} {t : Ticket} (h : Ticketed c now (c', t)) :
      Evaluated c now (c', some (.ticket t))
  /-- It is given the held value. -/
  | served {content : Sourced V} (h : c.cell.phase = .holding (.concealed content)) :
      Evaluated c now
        (c.withCell (·.tally Counters.countDelivery), some (.served content c.cell.revision))

theorem subscribe_cases (c : Cache ε V) :
    c.subscribe = c ∨ ((c.cell.phase = .flushed ∨ c.cell.phase = .invalid false)
      ∧ c.subscribe = c.withCell (·.moveTo (.invalid true))) := by
  unfold subscribe
  split
  next h => exact Or.inr ⟨Or.inl h, rfl⟩
  next h => exact Or.inr ⟨Or.inr h, rfl⟩
  next => exact Or.inl rfl

/-- Who has shown interest finds neither the mark of an invalidation nor a cell that nobody asks. -/
theorem subscribe_phase (c : Cache ε V) :
    c.subscribe.cell.phase ≠ .flushed ∧ c.subscribe.cell.phase ≠ .invalid false := by
  unfold subscribe
  split
  · exact ⟨fun h => (nomatch h), fun h => (nomatch h)⟩
  · exact ⟨fun h => (nomatch h), fun h => (nomatch h)⟩
  next flushed invalid => exact ⟨flushed, invalid⟩

end Cache

namespace Reader

/-- What the reader is given with its next step, if that step evaluates its read. -/
def evaluation? (r : Reader) (c : Cache ε V) (now : Instant) : Option (Access V) :=
  match r.stage with
  | .looking =>
    match (c.access now r.delivered).2 with
    | .nothing => none
    | access => some access
  | .demanding => some (.ticket (c.demand now).2)
  | _ => none

/-- **Every step of a reader evaluates its read or leaves the cell to the others.** -/
theorem step_evaluated (r : Reader) (c : Cache ε V) (now : Instant) :
    c.Evaluated now ((r.step c now).1, r.evaluation? c now) := by
  cases hs : r.stage with
  | subscribing =>
      simp only [step, evaluation?, hs]
      rcases c.subscribe_cases with same | ⟨gone, noticed⟩
      · rw [same]
        exact .idle
      · rw [noticed]
        exact .noticed true gone
  | looking =>
      simp only [step, evaluation?, hs]
      have looked := c.access_accessed now r.delivered
      generalize c.access now r.delivered = out at looked ⊢
      cases looked with
      | nothing => exact .idle
      | noticed h => exact .noticed false (Or.inl h)
      | served h => exact .served h
      | ticket h => exact .ticket h
  | demanding =>
      simp only [step, evaluation?, hs]
      exact .ticket (c.demand_ticketed now)
  | expecting | waiting =>
      simp only [step, evaluation?, hs]
      split <;> exact .idle
  | parked =>
      simp only [step, evaluation?, hs]
      split <;> exact .idle
  | closing | «over» | crashed =>
      simp only [step, evaluation?, hs]
      exact .idle

theorem holds_of_evaluation {r : Reader} {c : Cache ε V} {now : Instant} {access : Access V}
    (h : r.evaluation? c now = some access) : r.holdsCache = true := by
  unfold evaluation? at h
  unfold holdsCache
  split at h
  next hs => rw [hs]
  next hs => rw [hs]
  next => cases h

/-- A reader that is told to wait waits, and is given nothing for now. -/
theorem awaits_of_evaluation {r : Reader} {c : Cache ε V} {now : Instant} {n : Nat}
    (h : r.evaluation? c now = some (.ticket (.wait n))) :
    (r.step c now).2.1.awaits? = some n ∧ (r.step c now).2.2 = none ∧ r.isOpen = true := by
  cases hs : r.stage with
  | looking =>
      simp only [evaluation?, hs] at h
      have access : (c.access now r.delivered).2 = .ticket (.wait n) := by
        split at h
        · cases h
        · exact Option.some.inj h
      simp only [step, hs, access, isOpen]
      exact ⟨rfl, rfl, trivial⟩
  | demanding =>
      simp only [evaluation?, hs, Option.some.injEq, Access.ticket.injEq] at h
      simp only [step, hs, h, isOpen]
      exact ⟨rfl, rfl, trivial⟩
  | subscribing | expecting | waiting | parked | closing | «over» | crashed =>
      simp only [evaluation?, hs] at h
      cases h

end Reader

namespace World

/-- The evaluation of a read. -/
structure Evaluation (V : Type) where
  key : Nat
  reading : Reading
  /-- What it was given. -/
  came : Access V
  deriving DecidableEq, Repr

/-- The evaluation that a move makes. -/
def evaluation? (w : World ε V) : Move ε V → Option (Evaluation V)
  | .reader key =>
    match w.seat? key with
    | some seat => (seat.reader.evaluation? w.cache w.now).map (⟨key, seat.reader.reading, ·⟩)
    | none => none
  | _ => none

/-- Only a reader that takes a step is evaluated. -/
theorem evaluation?_eq_some {w : World ε V} {m : Move ε V} {e : Evaluation V}
    (h : w.evaluation? m = some e) :
    ∃ seat, m = .reader seat.key ∧ w.seat? seat.key = some seat
      ∧ e = ⟨seat.key, seat.reader.reading, e.came⟩
      ∧ seat.reader.evaluation? w.cache w.now = some e.came := by
  cases m with
  | reader key =>
      cases seated : w.seat? key with
      | none => simp [evaluation?, seated] at h
      | some seat =>
          obtain rfl := (seat?_mem seated).2
          simp only [evaluation?, seated, Option.map_eq_some_iff] at h
          obtain ⟨access, came, rfl⟩ := h
          exact ⟨seat, rfl, seated, rfl, came⟩
  | _ => cases h

/-- The evaluations along a run, oldest first. -/
def evaluations (w : World ε V) (moves : List (Move ε V)) : List (Evaluation V) :=
  w.observed evaluation? moves

/-- Whether a move makes an attempt report. -/
def reports (w : World ε V) : Move ε V → Bool
  | .attempt number =>
    match w.cache.dispatcher.attempt? number with
    | some a =>
      match a.progress with
      | .reporting _ => true
      | _ => false
    | none => false
  | _ => false

/-- Whether a move throws the value away or makes an attempt report. -/
def disturbs (w : World ε V) (m : Move ε V) : Bool := w.invalidates m || w.reports m

/-- Whether a launch runs beyond the clock with a move. -/
def overflows (w : World ε V) (m : Move ε V) : Bool :=
  (w.apply m).cache.dispatcher.latest != w.cache.dispatcher.latest
    && !(w.apply m).cache.cell.phase.isCalculating

theorem isCalculating_of_named {n n' : Nat} {phase : Phase (Sourced V)}
    (named : (n' != n && !phase.isCalculating) = false) (newer : n' ≠ n) : phase = .calculating := by
  have busy : phase.isCalculating = true := by simpa [newer] using named
  unfold Phase.isCalculating at busy
  split at busy
  · rfl
  · cases busy

/-! ## §2. What a step leaves alone. -/

/-- A cache that is in being was so before. -/
theorem Step.alive {w w' : World ε V} {m : Move ε V} (s : Step w m w')
    (h : w'.isCacheAlive = true) : w.isCacheAlive = true := by
  cases s with
  | aside ha | invalidate ha | poke ha => exact ha.alive h
  | pass | bind | subscribe => exact h
  | openReader reading role holds => simp [isCacheAlive, holds]
  | follow key => exact alive_of_follow h
  | dropReader ha => exact alive_of_filter (ha.alive h)
  | reader own seated ha => exact ha.alive h
  | attempt own running t => exact t.alive ▸ h

/-- A source that is bound stays bound, or another one is. -/
theorem Step.bound {w w' : World ε V} {m : Move ε V} (s : Step w m w') (ordered : Ordered w)
    (h : w.cache.dispatcher.binding.isSome = true) :
    w'.cache.dispatcher.binding.isSome = true := by
  have touched {c c' : Cache ε V} (t : c.Touch w.now c') (h : c.dispatcher.binding.isSome = true) :
      c'.dispatcher.binding.isSome = true := by
    rcases t.renewed with same | ⟨fresh, renewed, _⟩
    · rwa [same]
    · rwa [renewed.binding]
  cases s with
  | aside ha | dropReader ha => rwa [ha.dispatcher]
  | @invalidate asided ha | @poke asided ha =>
      show asided.cache.dispatcher.binding.isSome = true
      rwa [ha.dispatcher]
  | pass | openReader | follow => exact h
  | bind => rfl
  | subscribe => exact touched (Cache.subscribe_touch w.cache w.now) h
  | reader own seated ha =>
      rw [ha.dispatcher]
      exact touched (Reader.step_stepped _ _ _).touch h
  | attempt own running t =>
      rw [(t.progressed ordered.dispatcher (Dispatcher.attempt?_mem running).1).kept.binding]
      exact h

/-- An attempt that does not report leaves the cell alone. -/
theorem Turn.cell_of_silent {w w' : World ε V} {a : Attempt ε V} {left : Option (Attempt ε V)}
    (t : Turn w a w' left) (silent : ∀ report, a.progress ≠ .reporting report) :
    w'.cache.cell = w.cache.cell := by
  cases t with
  | ignored reporting | stored reporting | discarded reporting | failed reporting =>
      exact absurd reporting (silent _)
  | rest | wait | unbound | refused | called | opened | asked | finished | came | died | resumed
  | ended => rfl

/-- So does a move of an attempt that is no report. -/
theorem Turn.cell_of_unreported {w w' : World ε V} {a : Attempt ε V} {left : Option (Attempt ε V)}
    (t : Turn w a w' left) (running : w.cache.dispatcher.attempt? a.number = some a)
    (silent : w.reports (.attempt a.number) = false) : w'.cache.cell = w.cache.cell := by
  refine t.cell_of_silent fun report reporting => ?_
  simp [World.reports, running, reporting] at silent

/-! ## §3. One attempt for all. -/

/-- The value was thrown away. -/
def Gone (phase : Phase (Sourced V)) : Prop :=
  phase = .flushed ∨ ∃ refetch, phase = .invalid refetch

/-- At most one attempt was launched between the worlds `p` and `w`: either none, and the cell is as it
was but for the mark of an invalidation; or one, and the cell waits for it. -/
def LaunchedOnce (p w : World ε V) : Prop :=
  (w.cache.dispatcher.latest = p.cache.dispatcher.latest
      ∧ (w.cache.cell.phase = p.cache.cell.phase ∨ (Gone p.cache.cell.phase ∧ Gone w.cache.cell.phase)))
    ∨ (w.cache.dispatcher.latest = p.cache.dispatcher.latest + 1
      ∧ p.cache.cell.phase ≠ .calculating ∧ w.cache.cell.phase = .calculating)

/-- In the world `w` the read waits for the attempt that the cell waits for, or it was given the value
that was held in the world `p`. -/
def Joins (p w : World ε V) (e : Evaluation V) : Prop :=
  (e.came = .ticket (.wait w.cache.dispatcher.latest) ∧ w.cache.cell.phase = .calculating)
    ∨ ∃ content, p.cache.cell.phase = .holding (.concealed content)
        ∧ e.came = .served content p.cache.cell.revision

/-- If the read was told to wait, and takes a single value, it is given the answer of that attempt. -/
def Waits (w : World ε V) (e : Evaluation V) : Prop :=
  ∀ n, e.came = .ticket (.wait n) → e.reading.follows = false →
    e.key < w.nextKey ∧ Served [] e.key n w

/-- The cell has not left the place where it waits, or where it was before anybody launched. -/
def Rests (w w' : World ε V) : Prop :=
  w'.cache.dispatcher.latest = w.cache.dispatcher.latest
    ∧ (w'.cache.cell.phase = w.cache.cell.phase ∨ (Gone w.cache.cell.phase ∧ Gone w'.cache.cell.phase))

theorem Gone.not_calculating {phase : Phase (Sourced V)} (h : Gone phase) : phase ≠ .calculating := by
  rcases h with flushed | ⟨refetch, invalid⟩
  · rw [flushed]
    exact fun h => nomatch h
  · rw [invalid]
    exact fun h => nomatch h

theorem Rests.calculating {w w' : World ε V} (h : Rests w w')
    (busy : w.cache.cell.phase = .calculating) : w'.cache.cell.phase = .calculating := by
  rcases h.2 with same | ⟨gone, _⟩
  · exact same.trans busy
  · exact absurd busy gone.not_calculating

theorem LaunchedOnce.rests {p w w' : World ε V} (h : LaunchedOnce p w) (r : Rests w w') :
    LaunchedOnce p w' := by
  rcases h with ⟨same, rested⟩ | ⟨newer, idle, busy⟩
  · refine Or.inl ⟨r.1.trans same, ?_⟩
    rcases r.2 with stays | ⟨before, gone⟩
    · rw [stays]
      exact rested
    · rcases rested with same | ⟨gone₀, _⟩
      · exact Or.inr ⟨same ▸ before, gone⟩
      · exact Or.inr ⟨gone₀, gone⟩
  · exact Or.inr ⟨r.1.trans newer, idle, r.calculating busy⟩

/-- Whoever launches is the first to do so. -/
theorem LaunchedOnce.idle {p w : World ε V} (h : LaunchedOnce p w)
    (idle : w.cache.cell.phase ≠ .calculating) :
    w.cache.dispatcher.latest = p.cache.dispatcher.latest ∧ p.cache.cell.phase ≠ .calculating := by
  rcases h with ⟨same, stays | ⟨gone, _⟩⟩ | ⟨_, _, busy⟩
  · exact ⟨same, stays ▸ idle⟩
  · exact ⟨same, gone.not_calculating⟩
  · exact absurd busy idle

theorem Joins.rests {p w w' : World ε V} {e : Evaluation V} (h : Joins p w e) (r : Rests w w') :
    Joins p w' e :=
  h.imp_left fun ⟨came, busy⟩ => ⟨by rw [r.1]; exact came, r.calculating busy⟩

/-- What has come of the `reads` that were evaluated since the world `p`, in which a source was bound,
if the value was not thrown away since, no attempt has reported and no launch ran beyond the clock. -/
structure Coalesced (p : World ε V) (reads : List (Evaluation V)) (w : World ε V) : Prop where
  launched : LaunchedOnce p w
  revision : w.cache.cell.revision = p.cache.cell.revision
  joins : ∀ e ∈ reads, Joins p w e
  counted : w.cache.cell.counters.evaluations
    = p.cache.cell.counters.evaluations + reads.length
  alive : reads ≠ [] ∨ w.isCacheAlive = true → p.isCacheAlive = true
  waits : ∀ e ∈ reads, Waits w e

theorem Coalesced.refl (p : World ε V) : Coalesced p [] p :=
  ⟨Or.inl ⟨rfl, Or.inl rfl⟩, rfl, fun _ he => (nomatch he), rfl, fun h => h.resolve_left (fun h => h rfl),
    fun _ he => (nomatch he)⟩

section

variable {p w w' : World ε V} {reads : List (Evaluation V)} {m : Move ε V}

theorem Waits.step {e : Evaluation V} (h : Waits w e) (reachable : Reachable w) (s : Step w m w') :
    Waits w' e := by
  intro n came single
  obtain ⟨known, served⟩ := h n came single
  exact ⟨Nat.lt_of_lt_of_le known s.nextKey_le, served.step reachable known s⟩

/-- A step that evaluates nothing. -/
theorem Coalesced.quiet (h : Coalesced p reads w) (reachable : Reachable w) (s : Step w m w')
    (rests : Rests w w') (revision : w'.cache.cell.revision = w.cache.cell.revision)
    (counters : w'.cache.cell.counters.evaluations = w.cache.cell.counters.evaluations) :
    Coalesced p reads w' where
  launched := h.launched.rests rests
  revision := revision.trans h.revision
  joins e he := (h.joins e he).rests rests
  counted := counters.trans h.counted
  alive some := h.alive (some.imp_right s.alive)
  waits e he := (h.waits e he).step reachable s

/-- A step that evaluates one read. -/
theorem Coalesced.add (h : Coalesced p reads w) (reachable : Reachable w) (s : Step w m w')
    {e : Evaluation V} (alive : w.isCacheAlive = true) (launched : LaunchedOnce p w')
    (revision : w'.cache.cell.revision = w.cache.cell.revision)
    (others : ∀ e ∈ reads, Joins p w' e) (joins : Joins p w' e)
    (counters : w'.cache.cell.counters.evaluations = w.cache.cell.counters.evaluations + 1)
    (waits : Waits w' e) : Coalesced p (reads ++ [e]) w' := by
  refine ⟨launched, revision.trans h.revision, fun e' he => ?_, ?_, fun _ => h.alive (Or.inr alive),
    fun e' he => ?_⟩
  · rcases List.mem_append.mp he with old | new
    · exact others e' old
    · rw [List.mem_singleton.mp new]
      exact joins
  · rw [counters, h.counted, List.length_append]
    exact Nat.add_assoc _ _ _
  · rcases List.mem_append.mp he with old | new
    · exact (h.waits e' old).step reachable s
    · rw [List.mem_singleton.mp new]
      exact waits

/-- Whoever is told to wait for an attempt is given its answer. -/
theorem waits_of_advanced (reachable : Reachable w) {seat : Seat} (listed : seat ∈ w.seats)
    (advanced : Advanced w seat (seat.reader.step w.cache w.now) w') {access : Access V}
    (h : seat.reader.evaluation? w.cache w.now = some access) :
    Waits w' ⟨seat.key, seat.reader.reading, access⟩ := by
  rintro n rfl single
  obtain ⟨awaits, none, isOpen⟩ := Reader.awaits_of_evaluation h
  have items := advanced.itemsTo reachable.attended listed
  rw [none] at items
  refine ⟨Nat.lt_of_lt_of_le (reachable.attended.below seat listed) advanced.nextKey, Or.inl ⟨?_, ?_⟩⟩
  · exact items.trans (reachable.unserved.single seat listed single isOpen)
  · intro s hs hk
    rcases advanced.seats s hs with ⟨_, other⟩ | ⟨_, reader, _⟩
    · exact absurd hk other
    · rw [reader]
      exact awaits

/-- A read that has to be served waits for the newest attempt: for the one that owes its answer, or for
a new one if no fetch was on its way. -/
theorem wait_of_ticketed (reachable : Reachable w) (alive : w.isCacheAlive = true)
    (bound : w.cache.dispatcher.binding.isSome = true) {c : Cache ε V} {t : Ticket}
    (h : Cache.Ticketed w.cache w.now (c, t))
    (named : c.dispatcher.latest ≠ w.cache.dispatcher.latest → c.cell.phase = .calculating) :
    t = .wait c.dispatcher.latest ∧ c.cell.phase = .calculating
      ∧ c.cell.revision = w.cache.cell.revision
      ∧ c.cell.counters.evaluations = w.cache.cell.counters.evaluations + 1
      ∧ ((c.dispatcher.latest = w.cache.dispatcher.latest ∧ w.cache.cell.phase = .calculating)
        ∨ (c.dispatcher.latest = w.cache.dispatcher.latest + 1 ∧ w.cache.cell.phase ≠ .calculating)) := by
  cases h with
  | started sound idle hl =>
      have started := Dispatcher.launch_started hl
      refine ⟨?_, rfl, rfl, Counters.evaluations_countFetch _, Or.inr ⟨started.latest, idle⟩⟩
      rw [started.number]
      exact congrArg Ticket.wait started.latest.symm
  | joined sound busy hp =>
      refine ⟨?_, busy, rfl, Counters.evaluations_countCoalesced _, Or.inl ⟨rfl, busy⟩⟩
      exact congrArg Ticket.wait (reachable.ordered.dispatcher.pending _ hp).2
  | unbound sound idle hl =>
      obtain ⟨source, hb⟩ := Option.isSome_iff_exists.mp bound
      simp only [Dispatcher.launch, hb] at hl
      split at hl <;> cases hl
  | @overflow left sound idle hl =>
      refine absurd (named ?_) idle
      show left.latest ≠ _
      rw [(Dispatcher.launch_overflowed hl).latest]
      exact Nat.succ_ne_self _
  | lost busy hp =>
      have owed := reachable.coherent.owed alive busy
      rw [hp] at owed
      cases owed
  | broken hb =>
      rw [reachable.coherent.sound] at hb
      cases hb

/-- **A step of a reader evaluates at most one read**, and launches at most the first time. -/
theorem Coalesced.advanced (h : Coalesced p reads w) (reachable : Reachable w)
    (bound : w.cache.dispatcher.binding.isSome = true) {seat : Seat}
    (seated : w.seat? seat.key = some seat)
    (named : w.overflows (.reader seat.key) = false) :
    Coalesced p (reads ++ (w.evaluation? (.reader seat.key)).toList) (w.apply (.reader seat.key)) := by
  have advanced : Advanced w seat (seat.reader.step w.cache w.now) (w.apply (.reader seat.key)) :=
    advanceReader_advanced seated
  have s : Step w (.reader seat.key) (w.apply (.reader seat.key)) := .reader rfl seated advanced
  have listed := (seat?_mem seated).1
  have evaluated := seat.reader.step_evaluated w.cache w.now
  have cell := advanced.cell
  have dispatcher := advanced.dispatcher
  have observed : w.evaluation? (.reader seat.key)
      = (seat.reader.evaluation? w.cache w.now).map (⟨seat.key, seat.reader.reading, ·⟩) := by
    simp only [evaluation?, seated]
  rw [observed]
  unfold overflows at named
  generalize w.apply (.reader seat.key) = w' at advanced s cell dispatcher named ⊢
  -- who is evaluated holds the cache
  have alive {access : Access V} (h : seat.reader.evaluation? w.cache w.now = some access) :
      w.isCacheAlive = true := isCacheAlive_of_seat listed (Reader.holds_of_evaluation h)
  have waits {access : Access V} (h : seat.reader.evaluation? w.cache w.now = some access) :
      Waits w' ⟨seat.key, seat.reader.reading, access⟩ := waits_of_advanced reachable listed advanced h
  generalize ho : seat.reader.evaluation? w.cache w.now = outcome at evaluated ⊢
  generalize (seat.reader.step w.cache w.now).1 = cache at evaluated cell dispatcher
  cases evaluated with
  | idle =>
      rw [Option.map_none, Option.toList_none, List.append_nil]
      exact h.quiet reachable s ⟨by rw [dispatcher], Or.inl (by rw [cell])⟩ (by rw [cell]) (by rw [cell])
  | noticed refetch gone =>
      rw [Option.map_none, Option.toList_none, List.append_nil]
      refine h.quiet reachable s ⟨?_, Or.inr ⟨?_, ?_⟩⟩ ?_ ?_
      · rw [dispatcher]
        rfl
      · exact gone.imp_right fun invalid => ⟨false, invalid⟩
      · rw [cell]
        exact Or.inr ⟨refetch, rfl⟩
      · rw [cell]
        rfl
      · rw [cell]
        rfl
  | @served content held =>
      have rests : Rests w w' := ⟨by rw [dispatcher]; rfl, Or.inl (by rw [cell]; rfl)⟩
      -- nobody has launched, for the cell holds a value
      have was : p.cache.cell.phase = .holding (.concealed content) := by
        rcases h.launched with ⟨_, same | ⟨_, gone⟩⟩ | ⟨_, _, busy⟩
        · exact same.symm.trans held
        · rcases gone with flushed | ⟨_, invalid⟩
          · rw [held] at flushed
            cases flushed
          · rw [held] at invalid
            cases invalid
        · rw [held] at busy
          cases busy
      refine h.add reachable s (alive ho) (h.launched.rests rests) (by rw [cell]; rfl)
        (fun e he => (h.joins e he).rests rests) (Or.inr ⟨content, was, ?_⟩) ?_ (waits ho)
      · show Access.served content w.cache.cell.revision = _
        rw [h.revision]
      · rw [cell]
        exact Counters.evaluations_countDelivery _
  | @ticket _ t ticketed =>
      obtain ⟨rfl, busy, revision, counted, which⟩ :=
        wait_of_ticketed reachable (alive ho) bound ticketed fun newer => by
          rw [dispatcher, cell] at named
          exact isCalculating_of_named named newer
      rw [← dispatcher] at which
      rw [← cell] at busy revision counted
      have joins : Joins p w' ⟨seat.key, seat.reader.reading, .ticket (.wait cache.dispatcher.latest)⟩ :=
        Or.inl ⟨by rw [dispatcher], busy⟩
      rcases which with ⟨same, before⟩ | ⟨newer, idle⟩
      · have rests : Rests w w' := ⟨same, Or.inl (busy.trans before.symm)⟩
        exact h.add reachable s (alive ho) (h.launched.rests rests) revision
          (fun e he => (h.joins e he).rests rests) joins counted (waits ho)
      · -- whoever came before was given the held value
        obtain ⟨none, idle₀⟩ := h.launched.idle idle
        exact h.add reachable s (alive ho) (Or.inr ⟨by rw [newer, none], idle₀, busy⟩) revision
          (fun e he => (h.joins e he).imp_left fun ⟨_, calculating⟩ => absurd calculating idle)
          joins counted (waits ho)

/-- A move that takes no reader a step. -/
theorem Coalesced.aside (h : Coalesced p reads w) (reachable : Reachable w)
    (calm : w.disturbs m = false)
    (unread : ∀ seat, m = .reader seat.key → w.seat? seat.key ≠ some seat) (s : Step w m w') :
    Coalesced p reads w' := by
  obtain ⟨kept, silent⟩ := Bool.or_eq_false_iff.mp calm
  have same {w' : World ε V} (s : Step w m w') (cell : w'.cache.cell = w.cache.cell)
      (latest : w'.cache.dispatcher.latest = w.cache.dispatcher.latest) : Coalesced p reads w' :=
    h.quiet reachable s ⟨latest, Or.inl (by rw [cell])⟩ (by rw [cell]) (by rw [cell])
  have shown := s
  cases s with
  | aside ha | dropReader ha => exact same shown ha.cell (by rw [ha.dispatcher])
  | pass | bind | openReader | follow => exact same shown rfl rfl
  | subscribe =>
      rcases w.cache.subscribe_cases with unchanged | ⟨gone, noticed⟩
      · exact same shown (congrArg Cache.cell unchanged)
          (congrArg (fun c : Cache ε V => c.dispatcher.latest) unchanged)
      · have moved : (w.withCache Cache.subscribe).cache
            = w.cache.withCell (·.moveTo (.invalid true)) := noticed
        refine h.quiet reachable shown ⟨?_, Or.inr ⟨?_, ?_⟩⟩ ?_ ?_
        · rw [moved]
          rfl
        · exact gone.imp_right fun invalid => ⟨false, invalid⟩
        · rw [moved]
          exact Or.inr ⟨true, rfl⟩
        · rw [moved]
          rfl
        · rw [moved]
          rfl
  | invalidate ha own =>
      rw [own] at kept
      cases kept
  | @poke asided ha =>
      have cell : asided.cache.cell = w.cache.cell := ha.cell
      have latest : asided.cache.dispatcher.latest = w.cache.dispatcher.latest := by
        rw [ha.dispatcher]
      refine h.quiet reachable shown ⟨latest, Or.inl ?_⟩ ?_ ?_
      · show asided.cache.cell.phase = _
        rw [cell]
      · show asided.cache.cell.revision = _
        rw [cell]
      · show asided.cache.cell.counters.evaluations = _
        rw [cell]
  | reader own seated ha => exact absurd seated (unread _ own)
  | @attempt a left _ own running t =>
      exact same shown (t.cell_of_unreported running (own ▸ silent))
        (t.progressed reachable.ordered.dispatcher (Dispatcher.attempt?_mem running).1).kept.latest

/-- **Until an invalidation or a report comes, one attempt serves all.** -/
theorem Coalesced.run (h : Coalesced p reads w) (reachable : Reachable w)
    (bound : w.cache.dispatcher.binding.isSome = true) {moves : List (Move ε V)}
    (calm : w.never disturbs moves = true) (named : w.never overflows moves = true) :
    Coalesced p (reads ++ w.evaluations moves) (w.run moves) := by
  induction moves generalizing w reads with
  | nil =>
      show Coalesced p (reads ++ []) w
      rw [List.append_nil]
      exact h
  | cons m moves ih =>
      obtain ⟨calm, calms⟩ := never_cons.mp calm
      obtain ⟨named, names⟩ := never_cons.mp named
      show Coalesced p (reads ++ ((w.evaluation? m).toList ++ (w.apply m).evaluations moves)) _
      rw [← List.append_assoc]
      refine ih ?_ (reachable.move m) ((apply_step w m).bound reachable.ordered bound) calms names
      by_cases read : ∃ seat, m = .reader seat.key ∧ w.seat? seat.key = some seat
      · obtain ⟨seat, rfl, seated⟩ := read
        exact h.advanced reachable bound seated named
      · have unread (seat : Seat) (own : m = .reader seat.key) : w.seat? seat.key ≠ some seat :=
          fun seated => read ⟨seat, own, seated⟩
        have none : w.evaluation? m = none := by
          unfold evaluation?
          split
          next key =>
            split
            next seat seated =>
              obtain rfl := (seat?_mem seated).2
              exact absurd seated (unread seat rfl)
            next => rfl
          next => rfl
        rw [none, Option.toList_none, List.append_nil]
        exact h.aside reachable calm unread (apply_step w m)

end

/-! ## §4. Reads made one after another. -/

/-- The steps in which a read is evaluated. -/
def evaluate (key : Nat) (reading : Reading) : List (Move ε V) :=
  if reading.demands then [.reader key] else [.reader key, .reader key]

/-- Reads are made one after another, each with the next key, and each is evaluated before the next. -/
def inTurn (role : Role) : Nat → List Reading → List (Move ε V)
  | _, [] => []
  | key, reading :: rest =>
    .openReader reading role :: (evaluate key reading ++ inTurn role (key + 1) rest)

theorem untether_frame (w : World ε V) :
    w.untether.nextKey = w.nextKey ∧ w.untether.hasHandle = w.hasHandle := by
  unfold untether
  split
  · unfold stopRefresher
    split <;> exact ⟨rfl, rfl⟩
  · exact ⟨rfl, rfl⟩

theorem advanceReader_frame (w : World ε V) (key : Nat) :
    (w.advanceReader key).nextKey = w.nextKey ∧ (w.advanceReader key).hasHandle = w.hasHandle := by
  unfold advanceReader
  split
  · exact ⟨rfl, rfl⟩
  · dsimp only
    split
    · exact ⟨rfl, rfl⟩
    · split
      · exact untether_frame _
      · exact ⟨rfl, rfl⟩

/-- Who has shown interest and was given nothing so far is evaluated with the look that follows. -/
theorem access_of_interest {c : Cache ε V} (conceals : Conceals c.cell.phase) (now : Instant)
    (flushed : c.cell.phase ≠ .flushed) (invalid : c.cell.phase ≠ .invalid false) :
    (c.access now none).2 ≠ .nothing := by
  have looked := c.access_accessed now none
  generalize c.access now none = out at looked ⊢
  cases looked with
  | nothing h =>
      rcases h with gone | ⟨v, held, had⟩
      · exact absurd gone invalid
      · obtain ⟨content, rfl⟩ := conceals v held
        cases had content rfl
  | noticed h => exact absurd h flushed
  | served | ticket => exact fun h => nomatch h

theorem evaluation?_of_seat {w : World ε V} {key : Nat} {seat : Seat} {access : Access V}
    (seated : w.seat? key = some seat)
    (h : seat.reader.evaluation? w.cache w.now = some access) :
    w.evaluation? (.reader key) = some ⟨key, seat.reader.reading, access⟩ := by
  simp only [evaluation?, seated, h]
  rfl

theorem evaluation?_looking {r : Reader} {c : Cache ε V} {now : Instant} (hs : r.stage = .looking)
    (h : (c.access now r.delivered).2 ≠ .nothing) :
    r.evaluation? c now = some (c.access now r.delivered).2 := by
  unfold Reader.evaluation?
  rw [hs]
  dsimp only
  split
  next nothing => exact absurd nothing h
  next => rfl

/-- A demand is evaluated at once. -/
theorem evaluations_demand {w : World ε V} {key : Nat} {role : Role} {reading : Reading}
    (seated : w.seat? key = some ⟨key, role, .new reading⟩) (demands : reading.demands = true) :
    ∃ access, w.evaluations [.reader key] = [⟨key, reading, access⟩] := by
  have demanding : (Reader.new reading).stage = .demanding := by simp [Reader.new, demands]
  have evaluated : (Reader.new reading).evaluation? w.cache w.now
      = some (.ticket (w.cache.demand w.now).2) := by
    simp only [Reader.evaluation?, demanding]
  refine ⟨.ticket (w.cache.demand w.now).2, ?_⟩
  show (w.evaluation? (.reader key)).toList ++ [] = _
  rw [evaluation?_of_seat seated evaluated]
  rfl

/-- Whoever does not demand a fetch shows interest first, and is evaluated with the look that
follows. -/
theorem evaluations_look {w : World ε V} (h : Reachable w) {key : Nat} {role : Role}
    {reading : Reading} (seated : w.seat? key = some ⟨key, role, .new reading⟩)
    (demands : reading.demands = false) :
    ∃ access, w.evaluations [.reader key, .reader key] = [⟨key, reading, access⟩] := by
  have subscribing : (Reader.new reading).stage = .subscribing := by simp [Reader.new, demands]
  have shown := apply_subscribing seated subscribing
  have silent : w.evaluation? (.reader key) = none := by
    simp only [evaluation?, seated, Reader.evaluation?, subscribing, Option.map_none]
  have looked : (w.cache.subscribe.access w.now none).2 ≠ .nothing :=
    access_of_interest (conceals_touch (Cache.subscribe_touch w.cache w.now) h.concealed)
      w.now w.cache.subscribe_phase.1 w.cache.subscribe_phase.2
  have reseated := seat?_reseat seated w.cache.subscribe { Reader.new reading with stage := .looking }
  have second := evaluation?_of_seat reseated (evaluation?_looking rfl looked)
  refine ⟨(w.cache.subscribe.access w.now none).2, ?_⟩
  show (w.evaluation? (.reader key)).toList
    ++ (((w.apply (.reader key)).evaluation? (.reader key)).toList ++ []) = _
  rw [silent, shown, second]
  rfl

theorem evaluate_frame (w : World ε V) (key : Nat) (reading : Reading) :
    (w.run (evaluate key reading)).nextKey = w.nextKey
      ∧ (w.run (evaluate key reading)).hasHandle = w.hasHandle := by
  have first := advanceReader_frame w key
  have second := advanceReader_frame (w.advanceReader key) key
  unfold evaluate
  split
  · exact first
  · exact ⟨second.1.trans first.1, second.2.trans first.2⟩

/-- **A read that is made is evaluated once.** -/
theorem evaluations_evaluate {w : World ε V} (h : Reachable w) (handle : w.hasHandle = true)
    (role : Role) (reading : Reading) :
    let moves : List (Move ε V) := .openReader reading role :: evaluate w.nextKey reading
    (∃ access, w.evaluations moves = [⟨w.nextKey, reading, access⟩])
      ∧ (w.run moves).nextKey = w.nextKey + 1 ∧ (w.run moves).hasHandle = true := by
  intro moves
  have opened := h.attended.seat?_new reading role handle
  have reachable : Reachable (w.apply (.openReader reading role)) := h.move _
  have frame : (w.apply (.openReader reading role)).nextKey = w.nextKey + 1
      ∧ (w.apply (.openReader reading role)).hasHandle = true := by
    show (w.openReader reading role).nextKey = _ ∧ (w.openReader reading role).hasHandle = _
    rw [openReader, if_pos handle]
    exact ⟨rfl, handle⟩
  have evaluated := evaluate_frame (w.apply (.openReader reading role)) w.nextKey reading
  refine ⟨?_, evaluated.1.trans frame.1, evaluated.2.trans frame.2⟩
  show ∃ access, (w.apply (.openReader reading role)).evaluations (evaluate w.nextKey reading) = _
  unfold evaluate
  cases demands : reading.demands with
  | true => exact evaluations_demand opened demands
  | false => exact evaluations_look reachable opened demands

/-- **Reads that are made one after another are evaluated once each**, in their order. -/
theorem evaluations_inTurn {w : World ε V} (h : Reachable w) (handle : w.hasHandle = true)
    (role : Role) (readings : List Reading) :
    ((w.evaluations (inTurn role w.nextKey readings)).map fun e => (e.key, e.reading))
      = readings.mapIdx fun i reading => (w.nextKey + i, reading) := by
  induction readings generalizing w with
  | nil => rfl
  | cons reading rest ih =>
      obtain ⟨⟨access, first⟩, nextKey, handle'⟩ := evaluations_evaluate h handle role reading
      have reachable : Reachable (w.run (.openReader reading role :: evaluate w.nextKey reading)) :=
        h.run _
      have others := ih reachable handle'
      rw [nextKey] at others
      have split : w.evaluations (inTurn role w.nextKey (reading :: rest))
          = w.evaluations (.openReader reading role :: evaluate w.nextKey reading)
            ++ (w.run (.openReader reading role :: evaluate w.nextKey reading)).evaluations
              (inTurn role (w.nextKey + 1) rest) :=
        observed_append w evaluation? (.openReader reading role :: evaluate w.nextKey reading) _
      rw [split, List.map_append, first, others, List.mapIdx_cons]
      simp only [List.map_cons, List.map_nil, List.singleton_append, Nat.add_zero, List.cons.injEq,
        true_and]
      congr 1
      funext i reading
      rw [Nat.add_assoc, Nat.add_comm 1 i]

theorem mem_inTurn {role : Role} {key : Nat} {readings : List Reading} {m : Move ε V}
    (h : m ∈ inTurn role key readings) :
    (∃ reading, m = .openReader reading role) ∨ ∃ k, m = .reader k := by
  induction readings generalizing key with
  | nil => cases h
  | cons reading rest ih =>
      rcases List.mem_cons.mp h with rfl | h
      · exact Or.inl ⟨reading, rfl⟩
      · rcases List.mem_append.mp h with own | later
        · unfold evaluate at own
          split at own
          · exact Or.inr ⟨key, List.mem_singleton.mp own⟩
          · have own : m = .reader key := by simpa using own
            exact Or.inr ⟨key, own⟩
        · exact ih later

theorem never_of_forall {kind : World ε V → Move ε V → Bool} {moves : List (Move ε V)}
    (h : ∀ m ∈ moves, ∀ w, kind w m = false) (w : World ε V) : w.never kind moves = true := by
  induction moves generalizing w with
  | nil => rfl
  | cons m moves ih =>
      exact never_cons.mpr ⟨h m List.mem_cons_self w,
        ih (fun m' hm => h m' (List.mem_cons_of_mem m hm)) (w.apply m)⟩

/-- Nothing disturbs reads that are made one after another. -/
theorem calm_inTurn (w : World ε V) (role : Role) (key : Nat) (readings : List Reading) :
    w.never disturbs (inTurn role key readings) = true := by
  refine never_of_forall (fun m hm w => ?_) w
  rcases mem_inTurn hm with ⟨reading, rfl⟩ | ⟨k, rfl⟩
  · rfl
  · rfl

/-! ## §5. Coalescing. -/

section

variable {w q : World ε V} {reads : List (Evaluation V)}

theorem Coalesced.latest_le (h : Coalesced w reads q) :
    q.cache.dispatcher.latest ≤ w.cache.dispatcher.latest + 1 := by
  rcases h.launched with ⟨same, _⟩ | ⟨newer, _, _⟩
  · exact Nat.le_succ_of_le (Nat.le_of_eq same)
  · exact Nat.le_of_eq newer

/-- Unless a value was held, every read waits. -/
theorem Coalesced.all_wait (h : Coalesced w reads q)
    (unheld : ∀ content, w.cache.cell.phase ≠ .holding (.concealed content)) :
    ∀ e ∈ reads, e.came = .ticket (.wait q.cache.dispatcher.latest)
      ∧ q.cache.cell.phase = .calculating := by
  intro e he
  rcases h.joins e he with waits | ⟨content, held, _⟩
  · exact waits
  · exact absurd held (unheld content)

/-- If a fetch was on its way, every read joins it. -/
theorem Coalesced.all_join (h : Coalesced w reads q) (reachable : Reachable w)
    (busy : w.cache.cell.phase = .calculating) (made : reads ≠ []) :
    w.cache.dispatcher.pending = some q.cache.dispatcher.latest
      ∧ ∀ e ∈ reads, e.came = .ticket (.wait q.cache.dispatcher.latest) := by
  have same : q.cache.dispatcher.latest = w.cache.dispatcher.latest := by
    rcases h.launched with ⟨same, _⟩ | ⟨_, idle, _⟩
    · exact same
    · exact absurd busy idle
  refine ⟨?_, fun e he => (h.all_wait (fun content held => ?_) e he).1⟩
  · rw [same]
    exact reachable.coherent.owed (h.alive (Or.inl made)) busy
  · rw [busy] at held
    cases held

/-- If there was neither a value nor a fetch on its way, one new attempt serves every read. -/
theorem Coalesced.all_new (h : Coalesced w reads q)
    (idle : w.cache.cell.phase = .empty ∨ Gone w.cache.cell.phase) (made : reads ≠ []) :
    q.cache.dispatcher.latest = w.cache.dispatcher.latest + 1
      ∧ ∀ e ∈ reads, e.came = .ticket (.wait q.cache.dispatcher.latest) := by
  have unheld (content : Sourced V) : w.cache.cell.phase ≠ .holding (.concealed content) := by
    intro held
    rw [held] at idle
    rcases idle with empty | flushed | ⟨_, invalid⟩
    · cases empty
    · cases flushed
    · cases invalid
  have unbusy : w.cache.cell.phase ≠ .calculating := by
    intro busy
    rcases idle with empty | gone
    · rw [busy] at empty
      cases empty
    · exact gone.not_calculating busy
  have all := h.all_wait unheld
  refine ⟨?_, fun e he => (all e he).1⟩
  obtain ⟨e, he⟩ := List.exists_mem_of_ne_nil reads made
  have busy := (all e he).2
  rcases h.launched with ⟨_, same | ⟨_, gone⟩⟩ | ⟨newer, _, _⟩
  · -- the cell waits, and did not before
    exact absurd (same.symm.trans busy) unbusy
  · exact absurd busy gone.not_calculating
  · exact newer

end

/-- **Coalescing.**  Let a source be bound.  In any run in which the value is not thrown away, no attempt
reports and no launch runs beyond the clock, at most one attempt is launched.  Every read that is
evaluated is given the value that was held at the beginning, or waits for one and the same attempt: the
one that owed its answer already, if a fetch was on its way, and a new one, if there was no value.  The
counts of launches, joins and deliveries grow by one a read.  However the run goes on, every reader of a
single value that waits for the attempt is given its one answer.  And reads that are made one after
another, any number of them and of both kinds, are such a run, with one evaluation each. -/
theorem coalescing {w : World ε V} (h : Reachable w)
    (bound : w.cache.dispatcher.binding.isSome = true) :
    (∀ moves, w.never disturbs moves = true → w.never overflows moves = true →
      let q := w.run moves
      let reads := w.evaluations moves
      let n := q.cache.dispatcher.latest
      n ≤ w.cache.dispatcher.latest + 1
        ∧ (∀ e ∈ reads, e.came = .ticket (.wait n)
            ∨ ∃ content, w.cache.cell.phase = .holding (.concealed content)
                ∧ e.came = .served content w.cache.cell.revision)
        ∧ (w.cache.cell.phase = .calculating → reads ≠ [] →
            w.cache.dispatcher.pending = some n ∧ ∀ e ∈ reads, e.came = .ticket (.wait n))
        ∧ (w.cache.cell.phase = .empty ∨ w.cache.cell.phase = .flushed
              ∨ (∃ refetch, w.cache.cell.phase = .invalid refetch) → reads ≠ [] →
            n = w.cache.dispatcher.latest + 1 ∧ ∀ e ∈ reads, e.came = .ticket (.wait n))
        ∧ q.cache.cell.counters.evaluations = w.cache.cell.counters.evaluations + reads.length
        ∧ ∀ e ∈ reads, e.came = .ticket (.wait n) → e.reading.follows = false → ∀ more,
            let r := q.run more
            (r.itemsTo e.key = []
                ∨ ∃ answer later, r.cache.dispatcher.answer? n = some answer
                    ∧ r.itemsTo e.key = later ++ [.ofAnswer answer])
              ∧ ∀ answer, r.cache.dispatcher.answer? n = some answer → r.itemsTo e.key = [] →
                  (r.seat? e.key).isSome = true →
                  (r.apply (.reader e.key)).itemsTo e.key = [.ofAnswer answer])
      ∧ ∀ role readings, w.hasHandle = true →
          w.never disturbs (inTurn role w.nextKey readings) = true
            ∧ (w.evaluations (inTurn role w.nextKey readings)).map (fun e => (e.key, e.reading))
                = readings.mapIdx fun i reading => (w.nextKey + i, reading) := by
  refine ⟨fun moves calm named => ?_, fun role readings handle =>
    ⟨calm_inTurn w role _ readings, evaluations_inTurn h handle role readings⟩⟩
  intro q reads n
  have coalesced : Coalesced w reads q := (Coalesced.refl w).run h bound calm named
  have reachable : Reachable q := h.run moves
  refine ⟨coalesced.latest_le, fun e he => (coalesced.joins e he).imp_left And.left,
    coalesced.all_join h, coalesced.all_new, coalesced.counted, fun e he came single more => ?_⟩
  intro r
  obtain ⟨known, served⟩ := coalesced.waits e he n came single
  have served : Served [] e.key n r := served.run reachable known more
  refine ⟨served.imp_left And.left, fun answer answered none seats => ?_⟩
  obtain ⟨s, seated⟩ := Option.isSome_iff_exists.mp seats
  obtain ⟨listed, key⟩ := seat?_mem seated
  rw [apply_awaiting (reachable.run more) seated (served.waits none listed key) answered, none]

/-- Two reads of the value and one that demands a fetch, one after another. -/
def threeReads : List (Move Unit Nat) := inTurn .read 0 [.once, .anew, .once]

theorem coalescing_threeReads :
    let w : World Unit Nat := (selfRefreshing ⟨.periodic 60000, .unpaced⟩ none ()).run [.bind counting]
    let q := w.run threeReads
    w.cache.cell.phase = .empty ∧ (w.evaluations threeReads).length = 3
      ∧ q.cache.dispatcher.latest = 1
      ∧ (∀ e ∈ w.evaluations threeReads, e.came = .ticket (.wait 1))
      ∧ q.cache.cell.counters.evaluations = 0 + 3 := by
  have h := coalescing
    ((Reachable.initial (.selfRefreshing ⟨.periodic 60000, .unpaced⟩ none ())).run [.bind counting]) rfl
  obtain ⟨_, _, _, idle, counted, _⟩ := h.1 threeReads (by decide) (by decide)
  obtain ⟨newer, all⟩ := idle (Or.inl rfl) (by decide)
  exact ⟨rfl, rfl, newer, all, counted⟩

end World

end SingleFlight
