/-
  SingleFlight.Proofs.Dueness — when a held value is served, and when it is fetched anew.

  The book on staleness never sees the value that it is about.  It is told of a
  success by the section that stores a value, and by no other report; of a
  trigger by the program, or by the refresher that hears the bus.  So its last
  success is the time at which the held value was stored, and a trigger is
  pending just if one came since.  Both can be read off the run, and with them
  what a read of the held value comes to.

  Main results:
    * `apply_continues` — a move that stores nothing tells the book of the
      triggers that come with it, and of nothing else.
    * `Dated.run` — the book dates the newest value as long as no other is stored.
    * `refreshed_when_due` — a read is given the held value exactly as long as it
      is young and no trigger came; else it launches one attempt, whose outcome
      it is given.
-/
import SingleFlight.Proofs.StreamOrder

namespace SingleFlight

variable {ε V : Type}

/-! ## §1. The book between two successes. -/

/-- How long ago something was is the difference, unless it lies ahead. -/
theorem Instant.age_lt_iff {now t : Int} {d : Nat} (past : t ≤ now) :
    Instant.age now t < d ↔ now - t < d := by
  show (now - t).toNat < d ↔ now - t < (d : Int)
  omega

namespace Staleness

variable {s s' : Staleness}

/-- A trigger came since the last success. -/
def isPending (s : Staleness) : Bool := s.signalPending || s.flushPending

/-- The value is too old, or was never fetched. -/
def isAged (s : Staleness) (now : Instant) : Bool :=
  match s.lastSuccess with
  | none => true
  | some t => decide (s.freshness.interval ≤ now.age t)

theorem isDue_eq (s : Staleness) (now : Instant) : s.isDue now = (s.isPending || s.isAged now) := rfl

/-- The book `s'` is what the book `s` becomes without a success: a trigger came if `triggered`. -/
structure Continues (s : Staleness) (triggered : Bool) (s' : Staleness) : Prop where
  freshness : s'.freshness = s.freshness
  lastSuccess : s'.lastSuccess = s.lastSuccess
  isPending : s'.isPending = (s.isPending || triggered)

/-- Who takes the notices, and who listens, is of no matter. -/
theorem Continues.of_frame (freshness : s'.freshness = s.freshness)
    (lastSuccess : s'.lastSuccess = s.lastSuccess) (signal : s'.signalPending = s.signalPending)
    (flush : s'.flushPending = s.flushPending) : s.Continues false s' := by
  refine ⟨freshness, lastSuccess, ?_⟩
  rw [Bool.or_false, Staleness.isPending, Staleness.isPending, signal, flush]

theorem Continues.same (h : s' = s) : s.Continues false s' := by
  rw [h]
  exact .of_frame rfl rfl rfl rfl

theorem Continues.trans {s'' : Staleness} {first second : Bool} (h : s.Continues first s')
    (h' : s'.Continues second s'') : s.Continues (first || second) s'' := by
  refine ⟨h'.freshness.trans h.freshness, h'.lastSuccess.trans h.lastSuccess, ?_⟩
  rw [h'.isPending, h.isPending, Bool.or_assoc]

theorem continues_forceFlush (s : Staleness) : s.Continues true s.forceFlush := by
  obtain ⟨freshness, lastSuccess, _, flush, _⟩ := notify_frame { s with flushPending := true } .flush
  refine ⟨freshness, lastSuccess, ?_⟩
  rw [Staleness.isPending, forceFlush, flush, Bool.or_true, Bool.or_true]

/-- A signal triggers if it is one of the policy. -/
theorem continues_observe (s : Staleness) (x : Signal) :
    s.Continues (s.freshness.triggersOn x) (s.observe x).1 := by
  unfold observe
  cases s.freshness.triggersOn x with
  | false => exact .same rfl
  | true =>
      obtain ⟨freshness, lastSuccess, signal, _, _⟩ :=
        notify_frame { s with signalPending := true } .refresh
      refine ⟨freshness, lastSuccess, ?_⟩
      rw [if_pos rfl, Staleness.isPending, signal, Bool.true_or, Bool.or_true]

theorem recordSuccess_frame (s : Staleness) (t : Instant) :
    (s.recordSuccess t).freshness = s.freshness ∧ (s.recordSuccess t).lastSuccess = some t
      ∧ (s.recordSuccess t).isPending = false := by
  obtain ⟨freshness, lastSuccess, signal, flush, _⟩ := notify_frame
    { s with lastSuccess := some t, signalPending := false, flushPending := false } .reschedule
  refine ⟨freshness, lastSuccess, ?_⟩
  rw [Staleness.isPending, recordSuccess, signal, flush]
  rfl

/-- What was stored at an instant that has passed is due if a trigger is pending, or if as much time as
the interval has passed. -/
theorem isDue_eq_false_of_dated {stored now : Instant} (dated : s.lastSuccess = some stored)
    (past : stored ≤ now) :
    s.isDue now = false ↔ now - stored < s.freshness.interval ∧ s.isPending = false := by
  rw [isDue_eq_false_iff, ← Instant.age_lt_iff past, Staleness.isPending, Bool.or_eq_false_iff, dated]
  constructor
  · rintro ⟨signal, flush, t, same, young⟩
    cases same
    exact ⟨young, signal, flush⟩
  · rintro ⟨young, signal, flush⟩
    exact ⟨signal, flush, stored, rfl, young⟩

end Staleness

namespace World

/-! ## §2. What a move tells the book. -/

/-- Whether a trigger comes with a move: a flush is asked for, or a signal of the policy is observed, by
the program or by the refresher. -/
def triggers (w : World ε V) : Move ε V → Bool
  | .flush => true
  | .observe s => w.cache.staleness.freshness.triggersOn s
  | .react .signal =>
    match w.refresher, w.bus.bind Bus.receive? with
    | .armed _ _, some (.signal s, _) => w.cache.staleness.freshness.triggersOn s
    | _, _ => false
  | _ => false

/-- Whether a move stores a value. -/
def storesValue (w : World ε V) (m : Move ε V) : Bool := (w.stored? m).isSome

theorem revision_of_unstored {w : World ε V} {m : Move ε V} (h : w.storesValue m = false) :
    (w.apply m).cache.cell.revision = w.cache.cell.revision := by
  refine Decidable.byContradiction fun raised => ?_
  obtain ⟨_, _, content, _, _, holding, _⟩ := (apply_step w m).raised raised
  simp [storesValue, stored?, raised, holding, Phase.value?, Visibility.value?] at h

theorem continues_stopRefresher (w : World ε V) :
    w.cache.staleness.Continues false w.stopRefresher.cache.staleness := by
  unfold stopRefresher
  split
  · exact .of_frame rfl rfl rfl rfl
  · exact .same rfl

/-- Whoever lets go deafens the book at most. -/
theorem continues_untether {w w' : World ε V} (book : w'.cache.staleness = w.cache.staleness) :
    w.cache.staleness.Continues false w'.untether.cache.staleness := by
  rw [← book]
  unfold untether
  split
  · exact continues_stopRefresher w'
  · exact .same rfl

theorem continues_advanceReader (w : World ε V) (key : Nat) :
    w.cache.staleness.Continues false (w.advanceReader key).cache.staleness := by
  unfold advanceReader
  split
  next => exact .same rfl
  next seat _ =>
    have book := (seat.reader.step_stepped w.cache w.now).touch.staleness
    dsimp only
    split
    next => exact .same book
    next item _ =>
      split
      next => exact continues_untether book
      next => exact .same book

/-- An attempt tells the book of a value that is stored, and of nothing else. -/
theorem Turn.continues {w w' : World ε V} {a : Attempt ε V} {left : Option (Attempt ε V)}
    (t : Turn w a w' left) (same : w'.cache.cell.revision = w.cache.cell.revision) :
    w.cache.staleness.Continues false w'.cache.staleness := by
  cases t with
  | stored => exact absurd same (Nat.succ_ne_self _)
  | rest | wait | unbound | refused | called | opened | asked | finished | came | died | ignored
  | discarded | failed | resumed | ended => exact .same rfl

theorem continues_armRefresher (w : World ε V) :
    w.cache.staleness.Continues false w.armRefresher.cache.staleness := by
  unfold armRefresher
  split
  next =>
    split
    · exact continues_stopRefresher w
    · exact .same rfl
  next => exact .same rfl

/-- The refresher tells the book of the signals that it hears. -/
theorem continues_react (w : World ε V) (cue : Cue) :
    w.cache.staleness.Continues (w.triggers (.react cue)) (w.react cue).cache.staleness := by
  unfold react
  cases cue with
  | notice =>
      split
      next =>
        dsimp only
        split
        next notice rest _ => cases notice <;> exact .of_frame rfl rfl rfl rfl
        next => exact .same rfl
      next => exact .same rfl
  | timer =>
      split
      next =>
        dsimp only
        split <;> exact .same rfl
      next => exact .same rfl
  | signal =>
      unfold triggers
      cases w.refresher with
      | idle | arming | stopped => exact .same rfl
      | armed wokenFor deadline =>
          cases w.bus.bind Bus.receive? with
          | none => exact .same rfl
          | some found =>
              obtain ⟨received, bus⟩ := found
              cases received with
              | signal x => exact w.cache.staleness.continues_observe x
              | lagged | closed => exact .same rfl

/-- **A move that stores nothing tells the book of the triggers that come with it**, and of nothing
else, as long as the program does not record successes of its own. -/
theorem apply_continues {w : World ε V} {m : Move ε V} (unrecorded : m ≠ .recordSuccess)
    (same : (w.apply m).cache.cell.revision = w.cache.cell.revision) :
    w.cache.staleness.Continues (w.triggers m) (w.apply m).cache.staleness := by
  have guarded {b : Bool} {w' : World ε V} (h : w.cache.staleness.Continues false w'.cache.staleness) :
      w.cache.staleness.Continues false (if b then w' else w).cache.staleness := by
    cases b
    · exact .same rfl
    · exact h
  cases m with
  | bind source =>
      show w.cache.staleness.Continues false (w.bind source).cache.staleness
      unfold bind
      split <;> exact .same rfl
  | subscribe => exact guarded (.same (Cache.subscribe_touch w.cache w.now).staleness)
  | invalidate | poke => exact guarded (.same rfl)
  | flush => exact w.cache.staleness.continues_forceFlush
  | observe x => exact w.cache.staleness.continues_observe x
  | recordSuccess => exact absurd rfl unrecorded
  | takeNotices | dropNotices => exact guarded (.of_frame rfl rfl rfl rfl)
  | startRefresher => exact guarded (.same rfl)
  | stopRefresher => exact continues_stopRefresher w
  | openReader => exact guarded (.same rfl)
  | openLookout => exact guarded (.same rfl)
  | dropReader key => exact continues_untether rfl
  | dropHandle => exact continues_untether rfl
  | reader key => exact continues_advanceReader w key
  | attempt number =>
      show w.cache.staleness.Continues false (w.advanceAttempt number).cache.staleness
      have same : (w.advanceAttempt number).cache.cell.revision = w.cache.cell.revision := same
      unfold advanceAttempt at same ⊢
      split at same
      next a _ => exact (stepAttempt_turn w a).choose_spec.continues same
      next => exact .same rfl
  | arm => exact continues_armRefresher w
  | react cue => exact continues_react w cue
  | publish | closeBus | follow | pollLookout | dropLookout | dropOwner | surround | pass =>
      exact .same rfl

/-- Nothing that happens touches the policy. -/
theorem freshness_run {moves : List (Move ε V)} (unrecorded : .recordSuccess ∉ moves)
    (w : World ε V) : (w.run moves).cache.staleness.freshness = w.cache.staleness.freshness := by
  induction moves generalizing w with
  | nil => rfl
  | cons m moves ih =>
      refine (ih (List.not_mem_of_not_mem_cons unrecorded) (w.apply m)).trans ?_
      by_cases same : (w.apply m).cache.cell.revision = w.cache.cell.revision
      · exact (apply_continues (List.ne_of_not_mem_cons unrecorded).symm same).freshness
      · obtain ⟨_, _, _, _, _, _, _, recorded⟩ := (apply_step w m).raised same
        rw [recorded]
        exact (Staleness.recordSuccess_frame _ _).1

/-- **A run that stores nothing tells the book of its triggers**, and of nothing else. -/
theorem continues_run {moves : List (Move ε V)} (unrecorded : .recordSuccess ∉ moves) {w : World ε V}
    (kept : w.never storesValue moves = true) :
    w.cache.staleness.Continues (!w.never triggers moves) (w.run moves).cache.staleness := by
  induction moves generalizing w with
  | nil => exact .same rfl
  | cons m moves ih =>
      obtain ⟨now, later⟩ := never_cons.mp kept
      have first := apply_continues (List.ne_of_not_mem_cons unrecorded).symm (revision_of_unstored now)
      have rest := ih (List.not_mem_of_not_mem_cons unrecorded) later
      rw [never, Bool.not_and, Bool.not_not]
      exact first.trans rest

/-! ## §3. The date of the newest value. -/

/-- What is held along a run that stores nothing was held before. -/
theorem held_run {w : World ε V} {moves : List (Move ε V)} (kept : w.never storesValue moves = true)
    {v : Visibility (Sourced V)} (holding : (w.run moves).cache.cell.phase = .holding v) :
    w.cache.cell.phase = .holding v := by
  induction moves generalizing w with
  | nil => exact holding
  | cons m moves ih =>
      obtain ⟨now, later⟩ := never_cons.mp kept
      rcases (apply_step w m).holding_cases (ih later holding) with ⟨held, _⟩ | raised
      · exact held
      · have same := revision_of_unstored now
        omega

/-- Of the run `before ++ m :: after` of the world `w`, the move `m` is the last to store a value, and it
stores `content`. -/
structure LastStored (w : World ε V) (before : List (Move ε V)) (m : Move ε V) (after : List (Move ε V))
    (content : Sourced V) : Prop where
  stored : (w.run before).stored? m = some content
  kept : ((w.run before).apply m).never storesValue after = true

/-- Either nothing is stored along a run, or some move is the last to store a value. -/
theorem exists_lastStored (w : World ε V) (moves : List (Move ε V)) :
    w.never storesValue moves = true
      ∨ ∃ before m after content, moves = before ++ m :: after ∧ LastStored w before m after content := by
  induction moves generalizing w with
  | nil => exact Or.inl rfl
  | cons m moves ih =>
      rcases ih (w.apply m) with kept | ⟨before, m', after, content, rfl, last⟩
      · cases hm : w.stored? m with
        | none => exact Or.inl (never_cons.mpr ⟨by simp [storesValue, hm], kept⟩)
        | some content => exact Or.inr ⟨[], m, moves, content, rfl, hm, kept⟩
      · exact Or.inr ⟨m :: before, m', after, content, rfl, last.stored, last.kept⟩

/-- The book of the world `w` dates the newest value to `stored`; a trigger came since if `triggered`. -/
structure Dated (stored : Instant) (triggered : Bool) (w : World ε V) : Prop where
  lastSuccess : w.cache.staleness.lastSuccess = some stored
  isPending : w.cache.staleness.isPending = triggered
  past : stored ≤ w.now

/-- A value that is stored is dated, and settles the triggers that came before. -/
theorem Dated.of_stored {w : World ε V} {m : Move ε V} {content : Sourced V}
    (h : w.stored? m = some content) : Dated w.now false (w.apply m) := by
  have raised : (w.apply m).cache.cell.revision ≠ w.cache.cell.revision := by
    intro same
    rw [stored?, if_pos same] at h
    cases h
  obtain ⟨_, _, _, _, _, _, _, recorded⟩ := (apply_step w m).raised raised
  obtain ⟨_, lastSuccess, isPending⟩ := w.cache.staleness.recordSuccess_frame w.now
  rw [← recorded] at lastSuccess isPending
  exact ⟨lastSuccess, isPending, (apply_step w m).now_le⟩

/-- A move that stores nothing adds its triggers. -/
theorem Dated.step {w : World ε V} {m : Move ε V} {stored : Instant} {triggered : Bool}
    (h : Dated stored triggered w) (unrecorded : m ≠ .recordSuccess)
    (unstored : w.storesValue m = false) : Dated stored (triggered || w.triggers m) (w.apply m) := by
  have book := apply_continues unrecorded (revision_of_unstored unstored)
  refine ⟨book.lastSuccess.trans h.lastSuccess, ?_, Int.le_trans h.past (apply_step w m).now_le⟩
  rw [book.isPending, h.isPending]

/-- **The book dates the newest value as long as no other is stored**, and knows whether a trigger came
since. -/
theorem Dated.run {w : World ε V} {moves : List (Move ε V)} {stored : Instant} {triggered : Bool}
    (h : Dated stored triggered w) (unrecorded : .recordSuccess ∉ moves)
    (kept : w.never storesValue moves = true) :
    Dated stored (triggered || !w.never triggers moves) (w.run moves) := by
  induction moves generalizing w triggered with
  | nil =>
      rw [never, Bool.not_true, Bool.or_false]
      exact h
  | cons m moves ih =>
      obtain ⟨unstored, kept⟩ := never_cons.mp kept
      have next := h.step (List.ne_of_not_mem_cons unrecorded).symm unstored
      have dated := ih next (List.not_mem_of_not_mem_cons unrecorded) kept
      rw [never, Bool.not_and, Bool.not_not, ← Bool.or_assoc]
      exact dated

theorem run_split (w : World ε V) (before : List (Move ε V)) (m : Move ε V) (after : List (Move ε V)) :
    w.run (before ++ m :: after) = ((w.run before).apply m).run after := by
  rw [run_append, run_cons]

section

variable {w : World ε V} {before after : List (Move ε V)} {m : Move ε V} {content : Sourced V}

/-- What is held was stored by the last move that stored a value. -/
theorem LastStored.held (h : LastStored w before m after content) {v : Visibility (Sourced V)}
    (holding : (w.run (before ++ m :: after)).cache.cell.phase = .holding v) :
    v = .concealed content := by
  rw [run_split] at holding
  have held := held_run h.kept holding
  rw [(stored?_eq_some h.stored).2] at held
  cases held
  rfl

/-- **The book dates the held value to the move that stored it**, and knows whether a trigger came
since. -/
theorem LastStored.dated (h : LastStored w before m after content) (unrecorded : .recordSuccess ∉ after) :
    Dated (w.run before).now (!((w.run before).apply m).never triggers after)
      (w.run (before ++ m :: after)) := by
  have dated := (Dated.of_stored h.stored).run unrecorded h.kept
  rwa [Bool.false_or, ← run_split] at dated

end

/-! ## §4. What a read comes to. -/

/-- From the world `w` to the world `w'` one attempt was launched; the reader of the key was told to wait
for it, and was given nothing. -/
structure LaunchedFor (key : Nat) (w w' : World ε V) : Prop where
  started : w.cache.dispatcher.Started w'.cache.dispatcher w.now (w.cache.dispatcher.latest + 1)
  busy : w'.cache.cell.phase = .calculating
  waits : ∃ seat, w'.seat? key = some seat
    ∧ seat.reader.awaits? = some (w.cache.dispatcher.latest + 1)
  items : w'.itemsTo key = w.itemsTo key

/-- A look that has to launch launches, if a source is bound and the clock can name the start. -/
theorem launchedFor_of_look {w : World ε V} {key : Nat} {seat : Seat}
    (seated : w.seat? key = some seat) (looking : seat.reader.stage = .looking)
    (looks : w.cache.access w.now seat.reader.delivered = (w.cache.launch w.now).map id .ticket)
    (bound : w.cache.dispatcher.binding.isSome = true)
    (named : (w.now.later? (w.cache.dispatcher.holdBack w.now)).isSome = true) :
    LaunchedFor key w (w.apply (.reader key)) := by
  obtain ⟨next, n, launched⟩ := Dispatcher.launch_of_named bound named
  have started := Dispatcher.launch_started launched
  obtain rfl := started.number
  have looked : w.cache.access w.now seat.reader.delivered
      = (w.cache.begun next, .ticket (.wait (w.cache.dispatcher.latest + 1))) := by
    rw [looks, Cache.launch, launched]
    rfl
  have step : seat.reader.step w.cache w.now = (w.cache.begun next, { seat.reader with
      seen := w.cache.cell.version, stage := .waiting (w.cache.dispatcher.latest + 1) }, none) := by
    simp only [Reader.step, looking, looked, Reader.receive]
  rw [advanceReader_quiet seated step]
  exact ⟨started, rfl, ⟨_, seat?_reseat seated _ _, rfl⟩, rfl⟩

/-- In the world `w` the reader of the key, which was given the items `old` before it came to wait for the
attempt `n`, has been told what `n` reports next; or it has been told nothing since, and it will be within
three steps. -/
def Hears (key n : Nat) (report : Report V) (old : List (Item V)) (w : World ε V) : Prop :=
  (∃ later, w.itemsTo key = later ++ .ofReport report :: old)
    ∨ (w.itemsTo key = old ∧ ((w.seat? key).isSome = true →
        (w.run [.attempt n, .attempt n, .reader key]).itemsTo key = .ofReport report :: old))

/-- Once an attempt was given its first outcome, whoever waits for it hears of that. -/
theorem Served.hears {given : List (Nat × Yield V)} {w : World ε V} {key n : Nat} {old : List (Item V)}
    (h : Served old key n w) (faithful : Faithful given w) (reachable : Reachable w)
    (tracked : w.cache.dispatcher.Tracks n) {y : Yield V} (first : given.lookup n = some y) :
    Hears key n (y.report n 0) old w := by
  rcases h with ⟨none, waits⟩ | ⟨answer, later, answered, items⟩
  · refine Or.inr ⟨none, fun seats => ?_⟩
    exact faithful.told_soon reachable (Or.inl ⟨none, waits⟩) none tracked first seats
  · obtain ⟨y', first', same⟩ := faithful.answers n answer answered
    cases first.symm.trans first'
    rw [Item.ofAnswer, same] at items
    exact Or.inl ⟨later, items⟩

/-- The reader of the key, which waits for the attempt `n` after the run `moves`, hears of the first
outcome of the attempt, and of nothing before it, however the run goes on.  As long as the sources have
given nothing to the attempt, it is on its way. -/
def GetsOutcome (w₀ : World ε V) (moves : List (Move ε V)) (key n : Nat) : Prop :=
  ∀ more : List (Move ε V),
    let q := w₀.run (moves ++ more)
    match w₀.firstOutcome (moves ++ more) n with
    | none => q.itemsTo key = [] ∧ ∃ a ∈ q.cache.dispatcher.running, a.number = n
    | some y => Hears key n (y.report n 0) [] q

/-- Whoever waits for an attempt gets its outcome. -/
theorem getsOutcome_of_awaits {w₀ : World ε V} (initial : Initial w₀) {moves : List (Move ε V)}
    {seat : Seat} (seated : seat ∈ (w₀.run moves).seats) {n : Nat}
    (awaits : seat.reader.awaits? = some n) (nothing : (w₀.run moves).itemsTo seat.key = []) :
    GetsOutcome w₀ moves seat.key n := by
  intro more q
  have reachable : Reachable (w₀.run moves) := initial.reachable_run moves
  have known := reachable.attended.below seat seated
  have faithful : Faithful (w₀.yields (moves ++ more)) q :=
    (Faithful.initial initial).run (.initial initial) (moves ++ more)
  have whole : q = (w₀.run moves).run more := run_append w₀ moves more
  have tracked : q.cache.dispatcher.Tracks n := by
    rw [whole]
    exact tracks_run reachable (reachable.awaited.seats seat seated n awaits) more
  have served : Served [] seat.key n q := by
    rw [whole, ← nothing]
    exact (Served.of_awaits reachable seated awaits).run reachable known more
  split
  next unmade =>
    -- who has answered, or is answered, was given something
    have unanswered (answer : Answer V) : q.cache.dispatcher.answer? n ≠ some answer := by
      intro answered
      obtain ⟨y, made, _⟩ := faithful.answers n answer answered
      cases made.symm.trans unmade
    rcases served with ⟨none, _⟩ | ⟨answer, _, answered, _⟩
    · refine ⟨none, tracked.resolve_left fun answered => ?_⟩
      obtain ⟨answer, answered⟩ := Dispatcher.hasAnswered_iff.mp answered
      exact unanswered answer answered
    · exact absurd answered (unanswered answer)
  next y made => exact served.hears faithful (initial.reachable_run _) tracked made

theorem LaunchedFor.getsOutcome {w₀ : World ε V} {moves : List (Move ε V)} {m : Move ε V} {key : Nat}
    (h : LaunchedFor key (w₀.run moves) ((w₀.run moves).apply m)) (initial : Initial w₀)
    (nothing : (w₀.run moves).itemsTo key = []) :
    GetsOutcome w₀ (moves ++ [m]) key ((w₀.run moves).cache.dispatcher.latest + 1) := by
  obtain ⟨seat, seated, awaits⟩ := h.waits
  obtain ⟨listed, rfl⟩ := seat?_mem seated
  have items := h.items.trans nothing
  have whole : (w₀.run moves).apply m = w₀.run (moves ++ [m]) := (run_append w₀ moves [m]).symm
  rw [whole] at listed items
  exact getsOutcome_of_awaits initial listed awaits items

/-! ## §5. Reads of a held value. -/

/-- A value is held only where a source is bound. -/
theorem Reachable.bound_of_holding {w : World ε V} (h : Reachable w) :
    ∀ v, w.cache.cell.phase = .holding v → w.cache.dispatcher.binding.isSome = true := by
  refine h.invariant (P := fun w => ∀ v, w.cache.cell.phase = .holding v →
    w.cache.dispatcher.binding.isSome = true) (fun w hw => ?_) (fun w m w' reachable h s => ?_)
  · intro v holding
    cases hw <;> cases holding
  · intro v holding
    refine s.bound reachable.ordered ?_
    by_cases same : w'.cache.cell.revision = w.cache.cell.revision
    · rcases s.holding_cases holding with ⟨held, _⟩ | raised
      · exact h v held
      · omega
    · obtain ⟨a, ha, _⟩ := s.raised same
      exact (reachable.ordered.dispatcher.bound_of_mem ha).2

/-- Who looks at a held value gets it unless it is due. -/
theorem access_of_holding {c : Cache ε V} (sound : c.cell.broken = none) {content : Sourced V}
    (holding : c.cell.phase = .holding (.concealed content)) (now : Instant) :
    c.access now none = if c.staleness.isDue now then (c.launch now).map id .ticket
      else (c.withCell (·.tally Counters.countDelivery), .served content c.cell.revision) := by
  simp [Cache.access, sound, holding]

/-- A launch takes a new number, even if the clock cannot name its start. -/
theorem latest_launch {c : Cache ε V} (bound : c.dispatcher.binding.isSome = true) (now : Instant) :
    (c.launch now).1.dispatcher.latest = c.dispatcher.latest + 1 := by
  obtain ⟨source, binding⟩ := Option.isSome_iff_exists.mp bound
  unfold Cache.launch
  cases launched : c.dispatcher.launch now with
  | unbound =>
      simp only [Dispatcher.launch, binding] at launched
      split at launched <;> cases launched
  | overflow left => exact (Dispatcher.launch_overflowed launched).latest
  | started next n => exact (Dispatcher.launch_started launched).latest

/-- A read that comes to look at a held value is given it if it is not due, and leaves the attempts alone;
else it launches, and if the clock can name the start it waits for the new attempt. -/
theorem look_at_held {w : World ε V} (h : Reachable w) {seat : Seat}
    (seated : w.seat? seat.key = some seat) (reads : seat.reader.reading = .once)
    (looking : seat.reader.stage = .looking) {content : Sourced V}
    (holding : w.cache.cell.phase = .holding (.concealed content)) :
    let next := w.apply (.reader seat.key)
    w.itemsTo seat.key = []
      ∧ (w.cache.staleness.isDue w.now = false → next.itemsTo seat.key = [.value content]
          ∧ next.cache.dispatcher = w.cache.dispatcher)
      ∧ (w.cache.staleness.isDue w.now = true →
          next.cache.dispatcher.latest = w.cache.dispatcher.latest + 1
          ∧ ((w.now.later? (w.cache.dispatcher.holdBack w.now)).isSome = true →
              LaunchedFor seat.key w next)) := by
  intro next
  have listed := (seat?_mem seated).1
  have bound := h.bound_of_holding _ holding
  have single : seat.reader.reading.follows = false := by rw [reads]; rfl
  have isOpen : seat.reader.isOpen = true := by simp [Reader.isOpen, looking]
  have nothing := h.unserved.single seat listed single isOpen
  have unnoted := (h.isBare seat listed single isOpen).1
  have looks := access_of_holding h.coherent.sound holding w.now
  have advanced : Advanced w seat (seat.reader.step w.cache w.now) next := advanceReader_advanced seated
  have items := advanced.itemsTo h.attended listed
  have dispatcher := advanced.dispatcher
  have steps : seat.reader.step w.cache w.now = ((w.cache.access w.now none).1,
      { seat.reader with seen := w.cache.cell.version }.receive (w.cache.access w.now none).2) := by
    simp only [Reader.step, looking, unnoted]
  refine ⟨nothing, fun fresh => ?_, fun due => ⟨?_, fun named => ?_⟩⟩
  · rw [if_neg (by simp [fresh])] at looks
    rw [steps, looks] at items dispatcher
    rw [items, nothing]
    exact ⟨rfl, dispatcher⟩
  · rw [if_pos due] at looks
    rw [dispatcher, steps, looks]
    exact latest_launch bound w.now
  · rw [if_pos due, ← unnoted] at looks
    exact launchedFor_of_look seated looking looks bound named

/-- The value is due: a read of the held value that comes to look launches an attempt, and waits for it if
the clock can name its start. -/
structure Refetches (w : World ε V) : Prop where
  due : w.cache.staleness.isDue w.now = true
  launches : ∀ seat v, w.seat? seat.key = some seat → seat.reader.reading = .once →
    seat.reader.stage = .looking → w.cache.cell.phase = .holding v →
      (w.apply (.reader seat.key)).cache.dispatcher.latest = w.cache.dispatcher.latest + 1
        ∧ ((w.now.later? (w.cache.dispatcher.holdBack w.now)).isSome = true →
            LaunchedFor seat.key w (w.apply (.reader seat.key)))

/-- As long as a trigger is pending the value is fetched anew. -/
theorem Reachable.refetches {w : World ε V} (h : Reachable w)
    (pending : w.cache.staleness.isPending = true) : Refetches w := by
  have due : w.cache.staleness.isDue w.now = true := by rw [Staleness.isDue_eq, pending, Bool.true_or]
  refine ⟨due, fun seat v seated reads looking holding => ?_⟩
  obtain ⟨content, rfl⟩ := h.concealed v holding
  exact (look_at_held h seated reads looking holding).2.2 due

/-- **A held value is served exactly as long as it is young and nothing has triggered.**  Take any run in
which the program records no success of its own, and a reader of a single value that comes to look while
a value is held.  Some move of the run was the last to store a value, and it stored the held one.  The
reader is given that value, and nothing is launched, if and only if less than the interval has passed
since that move, and no move since then brought a trigger.  Else one attempt is launched, as long as the
clock can name its start, and the reader gets the outcome of that attempt.  So it is when the interval has
passed to the instant. -/
theorem refreshed_when_due {w₀ : World ε V} (initial : Initial w₀) {moves : List (Move ε V)}
    (unrecorded : .recordSuccess ∉ moves) {seat : Seat}
    (seated : (w₀.run moves).seat? seat.key = some seat) (reads : seat.reader.reading = .once)
    (looking : seat.reader.stage = .looking) {v : Visibility (Sourced V)}
    (holding : (w₀.run moves).cache.cell.phase = .holding v) :
    let q := w₀.run moves
    let next := q.apply (.reader seat.key)
    let named := (q.now.later? (q.cache.dispatcher.holdBack q.now)).isSome = true
    let launched := LaunchedFor seat.key q next
      ∧ GetsOutcome w₀ (moves ++ [.reader seat.key]) seat.key (q.cache.dispatcher.latest + 1)
    (∃ before m after content, moves = before ++ m :: after ∧ LastStored w₀ before m after content)
      ∧ ∀ before m after content, moves = before ++ m :: after →
          LastStored w₀ before m after content →
            let stored := (w₀.run before).now
            let interval := w₀.cache.staleness.freshness.interval
            let fresh := q.now - stored < interval
              ∧ ((w₀.run before).apply m).never triggers after = true
            v = .concealed content
              ∧ (next.itemsTo seat.key = [.value content]
                  ∧ next.cache.dispatcher = q.cache.dispatcher ↔ fresh)
              ∧ (¬fresh → named → launched)
              ∧ (q.now = stored + interval → named → launched) := by
  intro q next named launched
  have reachable : Reachable q := initial.reachable_run moves
  refine ⟨(exists_lastStored w₀ moves).resolve_left fun never => ?_, ?_⟩
  · -- a world begins without a value
    have held := held_run never holding
    cases initial <;> cases held
  · rintro before m after content rfl last
    have since : .recordSuccess ∉ after := fun recorded =>
      unrecorded (List.mem_append_right _ (List.mem_cons_of_mem _ recorded))
    have dated := last.dated since
    obtain rfl := last.held holding
    obtain ⟨nothing, serves, launches⟩ := look_at_held reachable seated reads looking holding
    have fresh_iff := Staleness.isDue_eq_false_of_dated dated.lastSuccess dated.past
    rw [dated.isPending, Bool.not_eq_false', freshness_run unrecorded w₀] at fresh_iff
    have goes (clock : named) (due : q.cache.staleness.isDue q.now = true) : launched := by
      have one := (launches due).2 clock
      exact ⟨one, one.getsOutcome initial nothing⟩
    refine ⟨rfl, ?_, fun stale clock => goes clock ?_, fun passed clock => goes clock ?_⟩
    · rw [← fresh_iff]
      refine ⟨fun served => ?_, serves⟩
      cases due : q.cache.staleness.isDue q.now with
      | false => rfl
      | true =>
          -- a launch does not leave the attempts as they are
          have same := congrArg Dispatcher.latest served.2
          exact absurd ((launches due).1.symm.trans same) (Nat.succ_ne_self _)
    · rw [← fresh_iff] at stale
      simpa using stale
    · refine Bool.of_not_eq_false fun fresh => ?_
      have young := (fresh_iff.mp fresh).1
      rw [passed, Int.add_comm, Int.add_sub_cancel] at young
      exact Int.lt_irrefl _ young

/-- The first value is about to be reported, half a second after the start. -/
def firstReported : List (Move Unit Nat) :=
  [.pass 500, .bind counting, .openReader .once .polled, .reader 0, .reader 0, .attempt 1, .attempt 1,
    .attempt 1]

/-- It is answered, another reader comes and shows interest, and the interval passes to the instant. -/
def intervalPassed : List (Move Unit Nat) :=
  [.attempt 1, .reader 0, .openReader .once .polled, .reader 1, .pass 1000]

theorem refreshed_when_due_toTheInstant :
    let w₀ : World Unit Nat := selfRefreshing ⟨.periodic 1000, .unpaced⟩ none ()
    let moves := firstReported ++ .attempt 1 :: intervalPassed
    let q := w₀.run moves
    .recordSuccess ∉ moves ∧ q.cache.cell.phase = .holding (.concealed ⟨10, 1, 0⟩)
      ∧ q.now = (w₀.run firstReported).now + 1000
      ∧ LaunchedFor 1 q (q.apply (.reader 1))
      ∧ GetsOutcome w₀ (moves ++ [.reader 1]) 1 2 := by
  have unrecorded : .recordSuccess ∉ firstReported ++ .attempt 1 :: intervalPassed := by
    simp [firstReported, intervalPassed]
  have h := (refreshed_when_due (.selfRefreshing ⟨.periodic 1000, .unpaced⟩ none ()) unrecorded
    (show _ = some ⟨1, .polled, ⟨.once, .looking, none, 0⟩⟩ from rfl) rfl rfl
    (show _ = Phase.holding (.concealed ⟨10, 1, 0⟩) from rfl)).2 firstReported (.attempt 1)
      intervalPassed ⟨10, 1, 0⟩ rfl ⟨rfl, by decide⟩
  exact ⟨unrecorded, rfl, rfl, h.2.2.2 rfl rfl⟩

end World

end SingleFlight
