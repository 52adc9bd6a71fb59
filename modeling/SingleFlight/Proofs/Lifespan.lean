/-
  SingleFlight.Proofs.Lifespan — how long the refresher lives, and what it does while it lives.

  As long as the program holds the cache there is one way for the refresher to
  end: it arms itself for a deadline that the clock cannot name.  The deadline
  is the last success and the interval on top.  Successes are recorded in the
  order of time, so a deadline beyond the clock is followed by none that the
  clock can name, and the next time the refresher arms itself is the last.

  While it runs it loses nothing: every flush that is asked for is counted as an
  invalidation, or waits as a notice, and every trigger leaves a notice that
  marks the cell when it is taken.  Once it has ended neither happens any more.

  Main results:
    * `lives_run` — the refresher runs, or its deadline is beyond the clock.
    * `owed_run` — a running refresher owes an invalidation for every flush.
    * `runs_unless_beyond_clock` — the refresher runs, and attends to whatever
      comes, exactly as long as the clock can name its deadline.
-/
import SingleFlight.Proofs.Cancellation
import SingleFlight.Proofs.Discharge
import SingleFlight.Proofs.Hearing

namespace SingleFlight

variable {ε V : Type}

/-! ## §1. Deadlines beyond the clock. -/

/-- The clock cannot name the deadline if the last success and the interval on top reach its horizon. -/
theorem Staleness.deadline_eq_overflow_iff {s : Staleness} :
    s.deadline = .overflow ↔ s.freshness.interval ≠ 0
      ∧ ∃ t : Instant, s.lastSuccess = some t ∧ Instant.horizon ≤ t + s.freshness.interval := by
  unfold deadline
  by_cases always : s.freshness.interval = 0
  · simp [always]
  · rw [if_neg always]
    cases s.lastSuccess with
    | none => simp
    | some t =>
        by_cases named : t + (s.freshness.interval : Instant) < Instant.horizon
        · simp [Instant.later?_eq named, Int.not_le.mpr named]
        · simp [Instant.later?, always, named, Int.not_lt.mp named]

/-- Whether the program lets go of the cache with a move, or ends the refresher itself. -/
def Move.isFarewell : Move ε V → Bool
  | .dropHandle | .stopRefresher => true
  | _ => false

namespace World

/-- A move leaves the policy alone, and the last success too unless it records one for now. -/
theorem dated_apply (w : World ε V) (m : Move ε V) :
    (w.apply m).cache.staleness.freshness = w.cache.staleness.freshness
      ∧ ((w.apply m).cache.staleness.lastSuccess = w.cache.staleness.lastSuccess
        ∨ (w.apply m).cache.staleness.lastSuccess = some w.now) := by
  have recorded {book : Staleness} (h : book = w.cache.staleness.recordSuccess w.now) :
      book.freshness = w.cache.staleness.freshness
        ∧ (book.lastSuccess = w.cache.staleness.lastSuccess ∨ book.lastSuccess = some w.now) := by
    obtain ⟨freshness, lastSuccess, _⟩ := w.cache.staleness.recordSuccess_frame w.now
    rw [h]
    exact ⟨freshness, Or.inr lastSuccess⟩
  -- a success is recorded by the program itself, or with a value that is stored
  by_cases own : m = .recordSuccess
  · subst own
    exact recorded rfl
  · by_cases same : (w.apply m).cache.cell.revision = w.cache.cell.revision
    · have book := apply_continues own same
      exact ⟨book.freshness, Or.inl book.lastSuccess⟩
    · obtain ⟨_, _, _, _, _, _, _, stored⟩ := (apply_step w m).raised same
      exact recorded stored

/-! ## §2. How a refresher ends. -/

/-- **While the program holds the cache a refresher ends by an overflow only**: it arms itself for a
deadline that the clock cannot name. -/
theorem running_apply {w : World ε V} (handle : w.hasHandle = true) {m : Move ε V}
    (stays : m.isFarewell = false) (running : w.refresher.isRunning = true) :
    (w.apply m).refresher.isRunning = true ∨ w.cache.staleness.deadline = .overflow := by
  refine ((apply_step w m).running running).imp_right fun may => ?_
  rcases may with gone | own | own | beyond
  · cases handle.symm.trans gone
  · rw [own] at stays
    cases stays
  · rw [own] at stays
    cases stays
  · exact beyond

/-- The refresher runs under this policy, or the clock cannot name its deadline. -/
structure Lives (policy : Freshness) (w : World ε V) : Prop where
  freshness : w.cache.staleness.freshness = policy
  past : ∀ t, w.cache.staleness.lastSuccess = some t → t ≤ w.now
  running : w.refresher.isRunning = true ∨ w.cache.staleness.deadline = .overflow

/-- Successes are recorded in the order of time, so a deadline beyond the clock is followed by none that the
clock can name. -/
theorem Lives.beyond {policy : Freshness} {w : World ε V} (h : Lives policy w)
    (beyond : w.cache.staleness.deadline = .overflow) (m : Move ε V) :
    (w.apply m).cache.staleness.deadline = .overflow := by
  obtain ⟨positive, t, last, far⟩ := Staleness.deadline_eq_overflow_iff.mp beyond
  obtain ⟨freshness, dated⟩ := dated_apply w m
  rw [Staleness.deadline_eq_overflow_iff, freshness]
  rcases dated with same | recorded
  · exact ⟨positive, t, same.trans last, far⟩
  -- the new success is no earlier than the one before
  · exact ⟨positive, w.now, recorded, Int.le_trans far (Int.add_le_add_right (h.past t last) _)⟩

theorem Lives.apply {policy : Freshness} {w : World ε V} (h : Lives policy w)
    (handle : w.hasHandle = true) {m : Move ε V} (stays : m.isFarewell = false) :
    Lives policy (w.apply m) := by
  obtain ⟨freshness, dated⟩ := dated_apply w m
  have later := (apply_step w m).now_le
  refine ⟨freshness.trans h.freshness, fun t last => ?_, ?_⟩
  · rcases dated with same | recorded
    · exact Int.le_trans (h.past t (same.symm.trans last)) later
    · cases recorded.symm.trans last
      exact later
  · rcases h.running with running | beyond
    · exact (running_apply handle stays running).imp_right fun beyond => h.beyond beyond m
    · exact Or.inr (h.beyond beyond m)

/-- **The refresher runs, or the clock cannot name its deadline**, as long as the program neither lets go
of the cache nor ends the refresher itself. -/
theorem lives_run {policy : Freshness} {w : World ε V} (h : Lives policy w) (handle : w.hasHandle = true)
    {moves : List (Move ε V)} (stays : moves.any Move.isFarewell = false) :
    (w.run moves).hasHandle = true ∧ Lives policy (w.run moves) := by
  induction moves generalizing w with
  | nil => exact ⟨handle, h⟩
  | cons m moves ih =>
      obtain ⟨now, later⟩ := Bool.or_eq_false_iff.mp stays
      have held : (w.apply m).hasHandle = true :=
        ((apply_step w m).hasHandle (by rintro rfl; cases now)).trans handle
      exact ih (h.apply handle now) held later

/-! ## §3. Invalidations, done and owed. -/

end World

namespace Cache

theorem invalidations_launch (c : Cache ε V) (now : Instant) :
    (c.launch now).1.cell.counters.invalidations = c.cell.counters.invalidations := by
  unfold launch
  split <;> rfl

theorem invalidations_join (c : Cache ε V) :
    c.join.1.cell.counters.invalidations = c.cell.counters.invalidations := by
  unfold join
  split <;> rfl

theorem invalidations_subscribe (c : Cache ε V) :
    c.subscribe.cell.counters.invalidations = c.cell.counters.invalidations := by
  unfold subscribe
  split <;> rfl

theorem invalidations_access (c : Cache ε V) (now : Instant) (delivered : Option Nat) :
    (c.access now delivered).1.cell.counters.invalidations = c.cell.counters.invalidations := by
  unfold access
  split
  · rfl
  · split
    · exact c.invalidations_launch now
    · exact c.invalidations_launch now
    · rfl
    · exact c.invalidations_join
    · rfl
    · split
      · exact c.invalidations_launch now
      · split <;> rfl
    · rfl
    · rfl

theorem invalidations_demand (c : Cache ε V) (now : Instant) :
    (c.demand now).1.cell.counters.invalidations = c.cell.counters.invalidations := by
  unfold demand
  split
  · rfl
  · split
    · exact c.invalidations_join
    · exact c.invalidations_launch now

end Cache

/-- No reader throws the value away. -/
theorem Reader.invalidations_step (r : Reader) (c : Cache ε V) (now : Instant) :
    (r.step c now).1.cell.counters.invalidations = c.cell.counters.invalidations := by
  unfold Reader.step
  cases r.stage with
  | subscribing => exact c.invalidations_subscribe
  | looking => exact c.invalidations_access now r.delivered
  | demanding => exact c.invalidations_demand now
  | expecting | waiting | parked =>
      dsimp only
      split <;> rfl
  | _ => rfl

namespace World

/-- **The counter counts the invalidations.** -/
theorem invalidations_apply (w : World ε V) (m : Move ε V) :
    (w.apply m).cache.cell.counters.invalidations
      = w.cache.cell.counters.invalidations + (w.invalidates m).toNat := by
  cases own : w.invalidates m with
  | true =>
      obtain ⟨w', aside, same⟩ := invalidates_spec own
      rw [same, ← aside.cell]
      rfl
  | false =>
      have s := apply_step w m
      generalize w.apply m = w' at s
      show _ = w.cache.cell.counters.invalidations
      cases s with
      | aside ha | dropReader ha => rw [ha.cell]
      | pass | bind | openReader | follow => rfl
      | subscribe => exact w.cache.invalidations_subscribe
      | invalidate _ invalidates => cases own.symm.trans invalidates
      | poke ha =>
          rw [← ha.cell]
          rfl
      | reader _ _ advanced => rw [advanced.cell, Reader.invalidations_step]
      | attempt _ _ turn => cases turn <;> rfl

end World

/-- Whether the program asks for a flush with a move. -/
def Move.isFlush : Move ε V → Bool
  | .flush => true
  | _ => false

/-- Whether the program throws the value away itself with a move. -/
def Move.isInvalidation : Move ε V → Bool
  | .invalidate => true
  | _ => false

theorem Refresher.heed_staleness (c : Cache ε V) (n : Notice) : (heed c n).staleness = c.staleness := by
  cases n <;> rfl

namespace Staleness

/-- Only a flush that is asked for leaves a notice of one. -/
theorem count_flush_notify {s : Staleness} {n : Notice} (other : n ≠ .flush) :
    (s.notify n).notices.count .flush = s.notices.count .flush := by
  unfold notify
  split
  · simp [List.count_append, other]
  · rfl

theorem count_flush_observe (s : Staleness) (x : Signal) :
    (s.observe x).1.notices.count .flush = s.notices.count .flush := by
  unfold observe
  split
  · exact count_flush_notify Notice.noConfusion
  · rfl

end Staleness

namespace World

/-- How many flushes wait to be noticed. -/
def flushes (w : World ε V) : Nat := w.cache.staleness.notices.count .flush

/-- How often the value was thrown away, and will be when the waiting notices are taken. -/
def owed (w : World ε V) : Nat := w.cache.cell.counters.invalidations + w.flushes

/-- A refresher that is running has not been ended. -/
theorem not_stopped {w : World ε V} (running : w.stopRefresher.refresher.isRunning = true) : False := by
  rw [stopRefresher_ended] at running
  cases running

theorem flushes_untether {w : World ε V} (running : w.untether.refresher.isRunning = true) :
    w.untether.flushes = w.flushes := by
  unfold untether at running ⊢
  split at running
  next => exact (not_stopped running).elim
  next goes => rw [if_neg goes]

theorem flushes_advanceReader {w : World ε V} (handle : w.hasHandle = true) (key : Nat) :
    (w.advanceReader key).flushes = w.flushes := by
  unfold advanceReader
  split
  next => rfl
  next seat _ =>
    have book := congrArg (·.notices.count .flush) (seat.reader.step_stepped w.cache w.now).touch.staleness
    dsimp only
    split
    next => exact book
    next =>
      split
      next =>
        rw [dropReader, untether_of_handle (by exact handle)]
        exact book
      next => exact book

theorem flushes_advanceAttempt (w : World ε V) (number : Nat) :
    (w.advanceAttempt number).flushes = w.flushes := by
  unfold advanceAttempt
  split
  next a _ =>
    obtain ⟨left, t⟩ := stepAttempt_turn w a
    generalize w.stepAttempt a = w' at t
    cases t with
    | stored => exact Staleness.count_flush_notify Notice.noConfusion
    | rest | wait | unbound | refused | called | opened | asked | finished | came | died | ignored
    | discarded | failed | resumed | ended => rfl
  next => rfl

theorem flushes_armRefresher {w : World ε V} (running : w.armRefresher.refresher.isRunning = true) :
    w.armRefresher.flushes = w.flushes := by
  unfold armRefresher at running ⊢
  cases hr : w.refresher with
  | idle | armed | stopped => rfl
  | arming wokenFor =>
      rw [hr] at running
      rcases Refresher.arm_cases wokenFor w.cache.staleness.deadline with ⟨deadline, armed⟩ | stopped
      · simp only [armed]
        rfl
      · simp only [stopped] at running
        exact (not_stopped running).elim

/-- A flush waits until the refresher throws the value away. -/
theorem flushes_react (w : World ε V) (cue : Cue) :
    (w.react cue).flushes + (w.invalidates (.react cue)).toNat = w.flushes := by
  unfold react
  cases hr : w.refresher with
  | idle | arming | stopped => cases cue <;> simp [invalidates, hr]
  | armed wokenFor deadline =>
      cases cue with
      | timer =>
          dsimp only
          split <;> rfl
      | signal =>
          dsimp only
          split
          next received bus _ =>
            cases received with
            | signal x => exact w.cache.staleness.count_flush_observe x
            | lagged | closed => rfl
          next => rfl
      | notice =>
          dsimp only
          cases hn : w.cache.staleness.notices with
          | nil => simp [invalidates, hr, hn]
          | cons notice rest =>
              cases notice <;> simp [invalidates, hr, hn, flushes, withCache, withStaleness, Refresher.heed,
                Cache.invalidate, Cache.poke, Cache.withCell]

/-- **A running refresher owes an invalidation for every flush**: a move adds the flush that it asks for or
the invalidation that it makes, and none is lost. -/
theorem owed_apply {w : World ε V} (handle : w.hasHandle = true) (spare : w.hasSpareEnd = false)
    (listening : w.cache.staleness.listening = true) {m : Move ε V}
    (running : (w.apply m).refresher.isRunning = true) :
    (w.apply m).owed = w.owed + m.isFlush.toNat + m.isInvalidation.toNat := by
  -- only a flush, an invalidation and the refresher's notices touch either summand
  have quiet (beside : w.invalidates m = false) (flush : m.isFlush = false) (own : m.isInvalidation = false)
      (same : (w.apply m).flushes = w.flushes) :
      (w.apply m).owed = w.owed + m.isFlush.toNat + m.isInvalidation.toNat := by
    rw [owed, invalidations_apply, beside, same, flush, own]
    rfl
  have guarded {b : Bool} {w' : World ε V} (h : w'.flushes = w.flushes) :
      (if b then w' else w).flushes = w.flushes := by
    cases b
    · rfl
    · exact h
  cases m with
  | invalidate =>
      have thrown : w.invalidates .invalidate = true := handle
      have same : (w.apply .invalidate).flushes = w.flushes := guarded rfl
      rw [owed, invalidations_apply, thrown, same]
      exact Nat.add_right_comm _ _ _
  | flush =>
      have noted : w.cache.staleness.forceFlush.notices = w.cache.staleness.notices ++ [.flush] :=
        congrArg Staleness.notices (if_pos listening)
      have more : (w.apply .flush).flushes = w.flushes + 1 := by
        show w.cache.staleness.forceFlush.notices.count .flush = _
        rw [noted, List.count_append]
        rfl
      rw [owed, invalidations_apply, more]
      rfl
  | react cue =>
      rw [owed, invalidations_apply, Nat.add_assoc, Nat.add_comm (w.invalidates _).toNat]
      exact congrArg _ (flushes_react w cue)
  | bind source =>
      refine quiet rfl rfl rfl ?_
      show (w.bind source).flushes = _
      unfold bind
      split <;> rfl
  | observe x => exact quiet rfl rfl rfl (w.cache.staleness.count_flush_observe x)
  | recordSuccess => exact quiet rfl rfl rfl (Staleness.count_flush_notify Notice.noConfusion)
  | takeNotices | dropNotices =>
      refine quiet rfl rfl rfl ?_
      show (if w.hasSpareEnd then _ else w).flushes = _
      rw [if_neg (by simp [spare])]
  | stopRefresher => exact (not_stopped running).elim
  | dropReader | dropHandle => exact quiet rfl rfl rfl (flushes_untether running)
  | subscribe =>
      exact quiet rfl rfl rfl
        (guarded (congrArg (·.notices.count .flush) (Cache.subscribe_touch w.cache w.now).staleness))
  | poke | startRefresher | openReader | openLookout => exact quiet rfl rfl rfl (guarded rfl)
  | reader key => exact quiet rfl rfl rfl (flushes_advanceReader handle key)
  | attempt number => exact quiet rfl rfl rfl (flushes_advanceAttempt w number)
  | arm => exact quiet rfl rfl rfl (flushes_armRefresher running)
  | publish | closeBus | follow | pollLookout | dropLookout | dropOwner | surround | pass =>
      exact quiet rfl rfl rfl rfl

/-- The program holds the cache, and the refresher alone takes the notices. -/
structure Alert (w : World ε V) : Prop where
  handle : w.hasHandle = true
  spare : w.hasSpareEnd = false
  listening : w.cache.staleness.listening = true

theorem Alert.apply {w : World ε V} (h : Alert w) {m : Move ε V} (stays : m.isFarewell = false)
    (running : (w.apply m).refresher.isRunning = true) : Alert (w.apply m) := by
  obtain ⟨spare, tended⟩ := apply_tended h.spare m
  refine ⟨((apply_step w m).hasHandle (by rintro rfl; cases stays)).trans h.handle, spare.trans h.spare, ?_⟩
  cases tended with
  | told book | heard _ book => exact book.listening.trans h.listening
  | heeded _ _ book | woke _ _ book | armed _ book =>
      rw [book]
      exact h.listening
  | ended task => cases task.symm.trans running

theorem Alert.run {w : World ε V} (h : Alert w) {moves : List (Move ε V)}
    (stays : moves.any Move.isFarewell = false) (running : (w.run moves).refresher.isRunning = true) :
    Alert (w.run moves) := by
  induction moves generalizing w with
  | nil => exact h
  | cons m moves ih =>
      obtain ⟨now, later⟩ := Bool.or_eq_false_iff.mp stays
      have running' := running_of_run ((apply_tended h.spare m).1.trans h.spare) running
      exact ih (h.apply now running') later running

/-- A running refresher owes an invalidation for every flush of a run. -/
theorem owed_run {w : World ε V} (h : Alert w) {moves : List (Move ε V)}
    (stays : moves.any Move.isFarewell = false) (running : (w.run moves).refresher.isRunning = true) :
    (w.run moves).owed = w.owed + moves.countP Move.isFlush + moves.countP Move.isInvalidation := by
  induction moves generalizing w with
  | nil => rfl
  | cons m moves ih =>
      obtain ⟨now, later⟩ := Bool.or_eq_false_iff.mp stays
      have running' := running_of_run ((apply_tended h.spare m).1.trans h.spare) running
      have first := owed_apply h.handle h.spare h.listening running'
      have rest := ih (h.apply now running') later running
      have counted (b : Bool) : (if b = true then 1 else 0) = b.toNat := by cases b <;> rfl
      rw [run_cons, rest, first, List.countP_cons, List.countP_cons, counted, counted]
      omega

/-! ## §4. Notices. -/

/-- Whatever triggers leaves a notice that marks the cell when it is taken. -/
theorem noticed_of_triggers {w : World ε V} (listening : w.cache.staleness.listening = true)
    {m : Move ε V} (triggered : w.triggers m = true) :
    ∃ n ∈ (w.apply m).cache.staleness.notices, n ≠ .reschedule := by
  have observed {x : Signal} (accepted : w.cache.staleness.freshness.triggersOn x = true) :
      .refresh ∈ (w.cache.staleness.observe x).1.notices := by
    rw [Staleness.observe, if_pos accepted]
    exact Staleness.mem_notify_self listening
  cases m with
  | flush => exact ⟨.flush, Staleness.mem_notify_self listening, Notice.noConfusion⟩
  | observe x => exact ⟨.refresh, observed triggered, Notice.noConfusion⟩
  | react cue =>
      cases cue with
      | notice | timer => cases triggered
      | signal =>
          simp only [triggers] at triggered
          split at triggered
          next wokenFor deadline x bus hr found =>
            refine ⟨.refresh, ?_, Notice.noConfusion⟩
            show .refresh ∈ (w.react .signal).cache.staleness.notices
            simp only [react, hr, found]
            exact observed triggered
          next => cases triggered
  | _ => cases triggered

/-- **A notice is not lost**: the cell is marked before it is gone, unless it says only that the deadline
moved. -/
theorem marked_of_noticed {w : World ε V} (spare : w.hasSpareEnd = false) {n : Notice}
    (counts : n ≠ .reschedule) (waits : n ∈ w.cache.staleness.notices) {moves : List (Move ε V)}
    (running : (w.run moves).refresher.isRunning = true)
    (taken : n ∉ (w.run moves).cache.staleness.notices) :
    w.cache.cell.version < (w.run moves).cache.cell.version := by
  induction moves generalizing w with
  | nil => exact absurd waits taken
  | cons m moves ih =>
      obtain ⟨kept, tended⟩ := apply_tended spare m
      have spare' := kept.trans spare
      have running' := running_of_run spare' running
      have marks := (apply_step w m).marks.le
      have still (waits : n ∈ (w.apply m).cache.staleness.notices) :
          w.cache.cell.version < (w.run (m :: moves)).cache.cell.version :=
        Nat.lt_of_le_of_lt marks (ih spare' waits running taken)
      cases tended with
      | told book | heard _ book => exact still (book.notices waits)
      | woke _ _ book | armed _ book => exact still (book ▸ waits)
      | ended task => cases task.symm.trans running'
      | @heeded wokenFor deadline notice rest armed notices book task marks =>
          -- either this is the notice that is taken, or it waits on behind it
          rw [notices] at waits
          rcases List.mem_cons.mp waits with rfl | later
          · exact Nat.lt_of_lt_of_le (marks counts) (marks_run (w.apply m) moves).le
          · exact still (by rw [book]; exact later)

/-- Two steps of the refresher: it arms itself, and takes a notice. -/
def round : List (Move ε V) := [.arm, .react .notice]

/-- So many rounds in a row. -/
def rounds : Nat → List (Move ε V)
  | 0 => []
  | n + 1 => round ++ rounds n

/-- In one round the refresher takes the first notice, as long as the clock can name its deadline. -/
theorem taken_round {w : World ε V} (running : w.refresher.isRunning = true)
    (nameable : w.cache.staleness.deadline ≠ .overflow) {n : Notice} {rest : List Notice}
    (notices : w.cache.staleness.notices = n :: rest) :
    (w.run round).cache.staleness = { w.cache.staleness with notices := rest }
      ∧ (w.run round).refresher.isRunning = true := by
  -- armed before or only now, it waits with the same cache
  have armed : ∃ wokenFor deadline, w.armRefresher.refresher = .armed wokenFor deadline
      ∧ w.armRefresher.cache = w.cache := by
    unfold armRefresher
    cases hr : w.refresher with
    | idle | stopped => simp [hr, Refresher.isRunning] at running
    | armed wokenFor deadline => exact ⟨wokenFor, deadline, hr, rfl⟩
    | arming wokenFor =>
        cases hd : w.cache.staleness.deadline with
        | unset | due => exact ⟨_, _, rfl, rfl⟩
        | overflow => exact absurd hd nameable
  obtain ⟨wokenFor, deadline, armed, cache⟩ := armed
  show (w.armRefresher.react .notice).cache.staleness = _
    ∧ (w.armRefresher.react .notice).refresher.isRunning = true
  simp only [react, armed, cache, notices]
  refine ⟨?_, rfl⟩
  show (Refresher.heed _ n).staleness = _
  rw [Refresher.heed_staleness, ← cache]
  rfl

/-- **The refresher takes all notices by itself**, in as many rounds as there are notices, as long as the
clock can name its deadline. -/
theorem taken_rounds {w : World ε V} (running : w.refresher.isRunning = true)
    (nameable : w.cache.staleness.deadline ≠ .overflow) :
    (w.run (rounds w.cache.staleness.notices.length)).cache.staleness.notices = []
      ∧ (w.run (rounds w.cache.staleness.notices.length)).refresher.isRunning = true := by
  generalize hn : w.cache.staleness.notices = notices
  induction notices generalizing w with
  | nil => exact ⟨hn, running⟩
  | cons n rest ih =>
      obtain ⟨book, running'⟩ := taken_round running nameable hn
      rw [List.length_cons, rounds, run_append]
      refine ih running' ?_ (congrArg Staleness.notices book)
      rw [book]
      exact nameable

/-! ## §5. How long the refresher runs. -/

/-- Along the moves `more` of the world `w` the refresher attends to whatever comes: each flush that waited
or is asked for has thrown the value away, like each invalidation of the program; and each trigger makes
the value due at once, and has by the end marked the cell, so that a reader which is still parked as it was
then is ready to look again. -/
structure Attends (w : World ε V) (more : List (Move ε V)) : Prop where
  discarded : (w.run more).cache.cell.counters.invalidations
    = w.cache.cell.counters.invalidations + w.flushes + more.countP Move.isFlush
      + more.countP Move.isInvalidation
  heeded : ∀ before m after, more = before ++ m :: after → (w.run before).triggers m = true →
    let p := (w.run before).apply m
    p.cache.staleness.isDue p.now = true
      ∧ ∀ seat ∈ (w.run more).seats, seat.reader.stage = .parked →
          seat.reader.seen ≤ p.cache.cell.version → seat.reader.isReady (w.run more).cache = true

/-- Along the moves `more` of the world `w` there is no refresher: no flush throws the value away, and no
signal is heard. -/
structure Deserted (w : World ε V) (more : List (Move ε V)) : Prop where
  ended : (w.run more).refresher.isRunning = false
  discarded : (w.run more).cache.cell.counters.invalidations
    = w.cache.cell.counters.invalidations + more.countP Move.isInvalidation
  unheard : w.heard more = []

/-- A running refresher that has taken all notices has attended to whatever came. -/
theorem attends_of_taken {w : World ε V} (h : Alert w) {more : List (Move ε V)}
    (stays : more.any Move.isFarewell = false) (running : (w.run more).refresher.isRunning = true)
    (taken : (w.run more).cache.staleness.notices = []) : Attends w more := by
  refine ⟨?_, ?_⟩
  · have conserved := owed_run h stays running
    rw [owed, flushes, taken] at conserved
    exact conserved
  · rintro before m after rfl triggered p
    rw [List.any_append, Bool.or_eq_false_iff] at stays
    rw [run_append] at running taken
    have alert := h.run stays.1 (running_of_run (spare_run h.spare before) running)
    -- the notice of the trigger waits after `m` and is gone in the end: the cell was marked in between
    obtain ⟨n, waits, counts⟩ := noticed_of_triggers alert.listening triggered
    have marked := marked_of_noticed ((apply_tended alert.spare m).1.trans alert.spare) counts waits running
      (taken ▸ List.not_mem_nil)
    refine ⟨?_, fun seat _ parked seen => ?_⟩
    · rw [Staleness.isDue_eq, isPending_of_triggers triggered, Bool.true_or]
    · rw [run_split]
      simp only [Reader.isReady, parked, bne_iff_ne]
      exact (Nat.ne_of_lt (Nat.lt_of_le_of_lt seen marked)).symm

/-- Where no refresher runs only the program itself throws the value away, and nobody hears the bus. -/
theorem ended_apply {w : World ε V} (handle : w.hasHandle = true) (ended : w.refresher.isRunning = false)
    (m : Move ε V) : w.invalidates m = m.isInvalidation ∧ w.heard? m = none := by
  cases m with
  | invalidate => exact ⟨handle, rfl⟩
  | react cue =>
      cases hr : w.refresher with
      | idle | arming | stopped => cases cue <;> simp [invalidates, heard?, hr, Move.isInvalidation]
      | armed => simp [hr, Refresher.isRunning] at ended
  | _ => exact ⟨rfl, rfl⟩

/-- **A refresher that has ended does not come back**, and nobody does its work. -/
theorem deserted_of_ended {w : World ε V} (handle : w.hasHandle = true) (spare : w.hasSpareEnd = false)
    (ended : w.refresher.isRunning = false) {more : List (Move ε V)}
    (stays : more.any Move.isFarewell = false) : Deserted w more := by
  induction more generalizing w with
  | nil => exact ⟨ended, rfl, rfl⟩
  | cons m more ih =>
      obtain ⟨now, later⟩ := Bool.or_eq_false_iff.mp stays
      obtain ⟨kept, tended⟩ := apply_tended spare m
      obtain ⟨own, silent⟩ := ended_apply handle ended m
      have ended' : (w.apply m).refresher.isRunning = false :=
        Bool.eq_false_iff.mpr fun running => by cases ended.symm.trans (tended.running running)
      have rest := ih (((apply_step w m).hasHandle (by rintro rfl; cases now)).trans handle) (kept.trans spare) ended' later
      refine ⟨rest.ended, ?_, ?_⟩
      · rw [run_cons, rest.discarded, invalidations_apply, own, List.countP_cons, Nat.add_right_comm,
          Nat.add_assoc]
        cases m.isInvalidation <;> rfl
      · have both : w.heard (m :: more) = (w.heard? m).toList ++ (w.apply m).heard more := rfl
        rw [both, silent, rest.unheard]
        rfl

/-- A refresher that has nothing to do has taken all notices, and has set its alarm for a deadline that the
clock can name. -/
theorem idle_of_unready {w : World ε V} (vigilant : Vigilant w) (running : w.refresher.isRunning = true)
    (unready : w.isRefresherReady = false) :
    w.cache.staleness.notices = [] ∧ w.cache.staleness.deadline ≠ .overflow := by
  cases hr : w.refresher with
  | idle | stopped => simp [hr, Refresher.isRunning] at running
  | arming => simp [isRefresherReady, hr] at unready
  | armed wokenFor deadline =>
      have taken : w.cache.staleness.notices = [] := by
        have silent : w.nextCue = none := by simpa [isRefresherReady, hr] using unready
        have unnoticed := List.find?_eq_none.mp silent .notice List.mem_cons_self
        simpa [hasCue] using unnoticed
      refine ⟨taken, fun beyond => ?_⟩
      rcases vigilant.armed wokenFor deadline hr with moved | set
      · rw [taken] at moved
        cases moved
      · rw [beyond] at set
        cases set

/-- **The refresher runs, and attends to whatever comes, as long as the clock can name its deadline.**  Take
any policy, any bus and any run of a cached value that refreshes itself, in which the program does not let
go of it.  The clock cannot name the deadline exactly if the interval is not zero, and on top of the last
success reaches the horizon of the clock.  Else the refresher is running, and takes all notices in as many
rounds as there are; and once it has nothing to do, it is running just if the clock can name its deadline.

However the run goes on, when a refresher that is still running has taken all notices, every flush has
thrown the value away, and every trigger has made it due and woken the readers.  A refresher that has ended
is gone for good: no flush throws the value away any more, and no signal is heard. -/
theorem runs_unless_beyond_clock (settings : Settings) (bus : Option Bus) (surroundings : ε)
    {moves : List (Move ε V)} (stays : moves.any Move.isFarewell = false) :
    let q := (selfRefreshing settings bus surroundings : World ε V).run moves
    let interval := settings.freshness.interval
    let beyond := q.cache.staleness.deadline = .overflow
    (beyond ↔ interval ≠ 0
        ∧ ∃ t : Instant, q.cache.staleness.lastSuccess = some t ∧ Instant.horizon ≤ t + interval)
      ∧ (¬beyond → q.refresher.isRunning = true
          ∧ let r := q.run (rounds q.cache.staleness.notices.length)
            r.refresher.isRunning = true ∧ r.cache.staleness.notices = [])
      ∧ (q.isRefresherReady = false → (q.refresher.isRunning = true ↔ ¬beyond))
      ∧ ∀ more, more.any Move.isFarewell = false →
          ((q.run more).refresher.isRunning = true → (q.run more).cache.staleness.notices = [] →
            Attends q more)
          ∧ (q.refresher.isRunning = false → Deserted q more) := by
  intro q interval beyond
  have start : Lives settings.freshness (selfRefreshing settings bus surroundings : World ε V) :=
    ⟨rfl, fun _ last => (nomatch last), Or.inl rfl⟩
  obtain ⟨handle, lives⟩ := lives_run start rfl stays
  have spare : q.hasSpareEnd = false := spare_run rfl moves
  have vigilant : q.refresher.isRunning = true → Vigilant q := vigilant_run settings bus surroundings moves
  have runs (named : ¬beyond) : q.refresher.isRunning = true := lives.running.resolve_right named
  refine ⟨?_, fun named => ?_, fun unready => ?_, fun more stays' => ⟨fun running taken => ?_, fun ended => ?_⟩⟩
  · have unnamed := Staleness.deadline_eq_overflow_iff (s := q.cache.staleness)
    rw [lives.freshness] at unnamed
    exact unnamed
  · exact ⟨runs named, (taken_rounds (runs named) named).symm⟩
  · exact ⟨fun running => (idle_of_unready (vigilant running) running unready).2, runs⟩
  · have running' := running_of_run spare running
    exact attends_of_taken ⟨handle, spare, (vigilant running').listening⟩ stays' running taken
  · exact deserted_of_ended handle spare ended stays'

/-- A flush is asked for and a login is heard; the refresher takes both notices. -/
def flushedAndTriggered : List (Move Unit Nat) :=
  [.flush, .publish .loggedIn, .react .signal] ++ rounds 2

theorem runs_unless_beyond_clock_minute :
    let q : World Unit Nat :=
      (selfRefreshing ⟨.periodicAndLogin (.ofSecs 60), .unpaced⟩ (some (.new 4)) ()).run readOnce
    let r := q.run flushedAndTriggered
    readOnce.any Move.isFarewell = false ∧ q.refresher.isRunning = true
      ∧ r.cache.cell.counters.invalidations = 0 + 0 + 1 + 0 ∧ r.cache.staleness.isDue r.now = true := by
  have stays : readOnce.any Move.isFarewell = false := rfl
  have h := runs_unless_beyond_clock ⟨.periodicAndLogin (.ofSecs 60), .unpaced⟩ (some (.new 4)) () stays
  have attends := (h.2.2.2 flushedAndTriggered rfl).1 rfl rfl
  exact ⟨stays, (h.2.1 (by decide)).1, attends.discarded, rfl⟩

/-- With the greatest interval in seconds the refresher ends as soon as the first value is stored.  A flush
that is asked for and a login that is sent then come to nothing, whatever the refresher is given to do: the
value is neither thrown away nor due by the login. -/
theorem refresher_ended_by_first_success :
    let w : World Unit Nat := (selfRefreshing ⟨.periodicAndLogin (.ofSecs 18446744073709551615), .unpaced⟩
      (some (.new 4)) ()).run readOnce
    let sent := w.run (.publish .loggedIn :: takenTwice)
    let flushed := sent.run (.flush :: rounds 4)
    w.cache.staleness.freshness.triggersOn .loggedIn = true
      ∧ w.cache.staleness.deadline = .overflow ∧ w.refresher = .stopped
      ∧ sent.isRefresherReady = false ∧ sent.cache.staleness.isDue sent.now = false
      ∧ flushed.isRefresherReady = false ∧ flushed.cache.cell.counters.invalidations = 0
      ∧ flushed.cache.cell.phase = .holding (.concealed ⟨10, 1, 0⟩) := by
  decide

end World

end SingleFlight
