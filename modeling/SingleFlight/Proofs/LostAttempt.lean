/-
  SingleFlight.Proofs.LostAttempt — an attempt that dies leaves the cell waiting for it.

  The phase says that a fetch is on its way from the launch to the report, and
  an attempt answers after its report.  So the newest attempt has not answered
  while the phase says so, except in one way: an attempt that dies over its
  first production, because nobody can copy it, answers its waiters without a
  report.  The cell waits on, and whoever reads joins an attempt that is dead
  and is given its failure.  After any other failure the next read launches.

  Main results:
    * `Accounted.run` — who has answered while a fetch is on its way.
    * `Reachable.sustained` — a failure leaves no value behind.
    * `lost_attempt` — when the next read launches after a failure.
-/
import SingleFlight.Proofs.Coalescing
import SingleFlight.Proofs.Filing
import SingleFlight.Proofs.LateFailure
import SingleFlight.World.Schedule

namespace SingleFlight

variable {ε V : Type}

open Dispatcher (Orderly)

namespace World

/-! ## §1. Who has answered while a fetch is on its way. -/

/-- An attempt that is given a value that nobody can copy dies with that step. -/
theorem stepAttempt_uncopyable {w : World ε V} {a : Attempt ε V}
    (gives : w.gives a = some (.came .uncopyable)) :
    w.stepAttempt a = { w with produced := w.produced + 1 }.withDispatcher (·.lose a.number)
      ∧ a.isAnswering = false := by
  unfold World.gives at gives
  split at gives
  next can =>
    cases hp : a.progress with
    | producing due outcome =>
        simp only [hp, Option.some.injEq, Yield.came.injEq] at gives
        refine ⟨?_, by simp [Attempt.isAnswering, hp]⟩
        rw [stepAttempt, if_pos can]
        simp only [hp, World.produce, gives]
    | queued =>
        -- a source whose owner is gone, or whose call crashes, gives something else
        simp only [hp] at gives
        split at gives
        · cases gives
        · split at gives
          · cases gives
          · split at gives <;> cases gives
    | asking =>
        simp only [hp] at gives
        split at gives <;> cases gives
    | launched | heldBack | reporting | answering | stuck =>
        simp only [hp] at gives
        cases gives
  next => cases gives

/-- An attempt that is given a value that nobody can copy has answered when it is dead. -/
theorem answered_of_uncopyable {w : World ε V} {a : Attempt ε V}
    (gives : w.gives a = some (.came .uncopyable)) :
    (w.stepAttempt a).cache.dispatcher.hasAnswered a.number = true := by
  rw [(stepAttempt_uncopyable gives).1]
  exact Dispatcher.hasAnswered_lose.mpr (Or.inr rfl)

/-- In the world `w`, after the sources have given what is `given`: whoever was given a value first that
nobody can copy has answered; and while a fetch is on its way, the newest attempt has answered only in
this way. -/
structure Accounted (given : List (Nat × Yield V)) (w : World ε V) : Prop where
  dead : ∀ n, given.lookup n = some (.came .uncopyable) → w.cache.dispatcher.hasAnswered n = true
  busy : w.isCacheAlive = true → w.cache.cell.phase = .calculating →
    w.cache.dispatcher.hasAnswered w.cache.dispatcher.latest = true →
      given.lookup w.cache.dispatcher.latest = some (.came .uncopyable)

/-- **A step of an attempt is accounted for.** -/
theorem Accounted.turn {given : List (Nat × Yield V)} {w : World ε V} {a : Attempt ε V}
    (h : Accounted given w) (reachable : Reachable w) (faithful : Faithful given w)
    (ha : a ∈ w.cache.dispatcher.running) :
    Accounted (given ++ ((w.gives a).map (a.number, ·)).toList) (w.stepAttempt a) := by
  have orderly := reachable.ordered.dispatcher
  obtain ⟨left, t⟩ := stepAttempt_turn w a
  have kept := (t.progressed orderly ha).kept
  refine ⟨fun n hn => ?_, fun alive busy answered => ?_⟩
  · -- what the sources gave before stands, and something new came to this attempt alone
    rw [lookup_given] at hn
    rcases Option.or_eq_some_iff.mp hn with old | ⟨_, new⟩
    · exact kept.answered n (h.dead n old)
    · split at new
      next same =>
        rw [same]
        exact answered_of_uncopyable new
      next => cases new
  · rw [t.alive] at alive
    have before := t.busy_before busy
    rw [kept.latest] at answered ⊢
    obtain ⟨answer, answered⟩ := Dispatcher.hasAnswered_iff.mp answered
    rw [lookup_given]
    rcases t.answer_source orderly ha answered with old | ⟨own, unanswered, said⟩
    · rw [h.busy alive before (Dispatcher.hasAnswered_iff.mpr ⟨answer, old⟩)]
      rfl
    · rcases said with ⟨continues, answering⟩ | ⟨_, gives, due, outcome, producing⟩
      · -- it has reported, and so the cell has moved on
        have answers : a.isAnswering = true := by simp [Attempt.isAnswering, answering]
        exact absurd before (reachable.coherent.reported alive a ha answers own.symm)
      · -- it is dead, and this was the first thing it was given
        have unanswered : w.cache.dispatcher.hasAnswered a.number = false := by
          rw [Dispatcher.hasAnswered, ← own, unanswered]
          rfl
        have news := faithful.news a ha (item_of_unanswered orderly ha unanswered)
        rw [Attempt.news?, producing] at news
        rw [own, Option.map_eq_none_iff.mp news.symm, if_pos rfl, gives]
        rfl

/-- A section of a reader is accounted for: an attempt that it launches has not answered. -/
theorem Accounted.touch {given : List (Nat × Yield V)} {w w' : World ε V} {c : Cache ε V}
    (h : Accounted given w) (orderly : Orderly w.now w.cache.dispatcher)
    (t : Cache.Touch w.cache w.now c) (cell : w'.cache.cell = c.cell)
    (dispatcher : w'.cache.dispatcher = c.dispatcher)
    (alive : w'.isCacheAlive = true → w.isCacheAlive = true) : Accounted given w' := by
  have answers (n : Nat) : w'.cache.dispatcher.hasAnswered n = w.cache.dispatcher.hasAnswered n := by
    unfold Dispatcher.hasAnswered
    rw [dispatcher, answer?_touch t orderly]
  refine ⟨fun n hn => (answers n).trans (h.dead n hn), fun held busy answered => ?_⟩
  rw [cell] at busy
  rw [answers, dispatcher] at answered
  rw [dispatcher]
  rcases t.phase_cases with same | ⟨refetch, phase, _⟩ | ⟨_, n, started⟩
  · rcases t.dispatcher_cases with rest | ⟨idle, _⟩
    · rw [rest] at answered ⊢
      exact h.busy (alive held) (same.symm.trans busy) answered
    · exact absurd (same.symm.trans busy) idle
  · cases phase.symm.trans busy
  · -- a number that is new cannot have answered
    have known := orderly.known _ answered
    rw [started.latest] at known
    omega

/-- A move that leaves the dispatcher alone, and starts no fetch, is accounted for. -/
theorem Accounted.same {given : List (Nat × Yield V)} {w w' : World ε V} (h : Accounted given w)
    (dispatcher : w'.cache.dispatcher = w.cache.dispatcher)
    (alive : w'.isCacheAlive = true → w.isCacheAlive = true)
    (busy : w'.cache.cell.phase = .calculating → w.cache.cell.phase = .calculating) :
    Accounted given w' := by
  refine ⟨by rw [dispatcher]; exact h.dead, fun held now answered => ?_⟩
  rw [dispatcher] at answered ⊢
  exact h.busy (alive held) (busy now) answered

/-- **Every move is accounted for.** -/
theorem Accounted.move {given : List (Nat × Yield V)} {w : World ε V} (h : Accounted given w)
    (reachable : Reachable w) (faithful : Faithful given w) (m : Move ε V) :
    Accounted (given ++ (w.yield? m).toList) (w.apply m) := by
  have orderly := reachable.ordered.dispatcher
  rcases w.yield?_cases m with ⟨a, running, yielded, applied⟩ | ⟨silent, unstepped⟩
  · rw [yielded, applied]
    exact h.turn reachable faithful running
  · rw [silent, Option.toList_none, List.append_nil]
    have s := apply_step w m
    have alive := s.alive
    generalize w.apply m = w' at s alive ⊢
    cases s with
    | aside ha | dropReader ha => exact h.same ha.dispatcher alive fun busy => ha.cell ▸ busy
    | poke ha =>
        refine h.same ha.dispatcher alive fun busy => ?_
        rw [← ha.cell]
        exact busy
    | invalidate ha =>
        refine h.same ha.dispatcher alive fun busy => ?_
        cases busy
    | pass | openReader | follow => exact h.same rfl alive id
    | bind => exact ⟨h.dead, h.busy⟩
    | subscribe =>
        exact h.touch orderly (Cache.subscribe_touch w.cache w.now) rfl rfl alive
    | reader own seated ha =>
        exact h.touch orderly (Reader.step_stepped _ _ _).touch ha.cell ha.dispatcher alive
    | attempt own running t => exact absurd running (unstepped _ own)

/-- **Every run is accounted for.** -/
theorem Accounted.run {given : List (Nat × Yield V)} {w : World ε V} (h : Accounted given w)
    (reachable : Reachable w) (faithful : Faithful given w) (moves : List (Move ε V)) :
    Accounted (given ++ w.yields moves) (w.run moves) :=
  -- what is accounted for hangs on what is faithful
  (reachable.yields_run (P := fun given w => Faithful given w ∧ Accounted given w)
    (fun _ _ m reachable h => ⟨h.1.move reachable m, h.2.move reachable h.1 m⟩) ⟨faithful, h⟩ moves).2

theorem Accounted.initial {w : World ε V} (h : Initial w) : Accounted [] w :=
  ⟨fun _ given => (nomatch given), fun _ busy => by cases h <;> cases busy⟩

/-- **Every reachable world is accounted for** by something that the sources have given. -/
theorem Reachable.accounted {w : World ε V} (h : Reachable w) :
    ∃ given, Faithful given w ∧ Accounted given w := by
  induction h with
  | initial h => exact ⟨[], .initial h, .initial h⟩
  | move h m ih =>
      obtain ⟨given, faithful, accounted⟩ := ih
      exact ⟨_, faithful.move h m, accounted.move h faithful m⟩

/-! ## §2. What a failure leaves behind. -/

/-- While a value is held, the newest attempt has not failed: if it has not answered yet, it is about to
answer with a value. -/
structure Sustained (w : World ε V) : Prop where
  answered : ∀ v, w.cache.cell.phase = .holding v → ∀ failure,
    w.cache.dispatcher.answer? w.cache.dispatcher.latest ≠ some (.error failure)
  running : ∀ v, w.cache.cell.phase = .holding v → ∀ a ∈ w.cache.dispatcher.running,
    a.number = w.cache.dispatcher.latest → w.cache.dispatcher.hasAnswered a.number = false →
      ∃ fetched continues, a.progress = .answering (.ok fetched) continues

/-- Whoever was about to answer has answered, or has not moved. -/
theorem Turn.answered_of_answering {w w' : World ε V} {a : Attempt ε V} {left : Option (Attempt ε V)}
    (t : Turn w a w' left) {answer : Answer V} {continues : Bool}
    (answering : a.progress = .answering answer continues) :
    w'.cache.dispatcher.hasAnswered a.number = true ∨ left = some a := by
  cases t with
  | rest => exact Or.inr rfl
  | resumed | ended => exact Or.inl (Dispatcher.hasAnswered_settle.mpr (Or.inr rfl))
  | wait waiting =>
      rw [Attempt.isExecuting, answering] at waiting
      cases waiting
  | unbound stage | refused stage | called stage | opened stage | asked stage | finished stage
  | came stage | died stage | ignored stage | stored stage | discarded stage | failed stage =>
      cases answering.symm.trans stage

/-- A value that is held was held before the step, or the attempt is about to answer with it. -/
theorem Turn.holding_left {w w' : World ε V} {a : Attempt ε V} {left : Option (Attempt ε V)}
    (t : Turn w a w' left) {v : Visibility (Sourced V)} (h : w'.cache.cell.phase = .holding v) :
    w.cache.cell.phase = .holding v
      ∨ (w.cache.dispatcher.latest = a.number ∧ ∃ fetched continues,
        left = some { a with progress := .answering (.ok fetched) continues }) := by
  cases t with
  | stored _ _ latest => exact Or.inr ⟨latest, _, _, rfl⟩
  | discarded | failed => cases h
  | rest | wait | unbound | refused | called | opened | asked | finished | came | died | ignored
  | resumed | ended => exact Or.inl h

/-- A step of an attempt sustains the value, or there is none. -/
theorem Sustained.turn {w w' : World ε V} {a : Attempt ε V} {left : Option (Attempt ε V)}
    (h : Sustained w) (reachable : Reachable w) (t : Turn w a w' left)
    (ha : a ∈ w.cache.dispatcher.running) : Sustained w' := by
  have orderly := reachable.ordered.dispatcher
  have kept := (t.progressed orderly ha).kept
  have before {n : Nat} (unanswered : w'.cache.dispatcher.hasAnswered n = false) :
      w.cache.dispatcher.hasAnswered n = false :=
    Bool.eq_false_iff.mpr fun answered => by simp [kept.answered n answered] at unanswered
  -- whoever stores a value says so next
  have stores {content : Sourced V} (reporting : a.progress = .reporting (.ok content))
      (latest : w.cache.dispatcher.latest = a.number) (keeps : w.cache.keeps a.item = true) :
      (∀ failure, w.cache.dispatcher.answer? a.number ≠ some (.error failure)) := by
    intro failure failed
    have answered : w.cache.dispatcher.hasAnswered a.number = true :=
      Dispatcher.hasAnswered_iff.mpr ⟨_, failed⟩
    have executes := (orderly.fits a ha).executes (by simp [Attempt.isExecuting, reporting])
    obtain ⟨fetched, went⟩ := reachable.productive.went a ha (executes.delivered.mp answered)
    cases went.symm.trans failed
  refine ⟨fun v holding failure failed => ?_, fun v holding b hb newest unanswered => ?_⟩
  · rw [kept.latest] at failed
    rcases t.answer_source orderly ha failed with old | ⟨own, unanswered, said⟩
    · rcases t.phase_cases with same | ⟨_, _, phase⟩ | ⟨_, latest, content, reporting, keeps, _⟩
      · exact h.answered v (same.symm.trans holding) failure old
      · cases phase.symm.trans holding
      · rw [latest] at old
        exact stores reporting latest keeps failure old
    · have unanswered : w.cache.dispatcher.hasAnswered a.number = false := by
        rw [Dispatcher.hasAnswered, ← own, unanswered]
        rfl
      -- it was about to answer with a value, or holds nothing
      rcases t.phase_cases with same | ⟨_, _, phase⟩ | ⟨_, _, content, reporting, _, _⟩
      · obtain ⟨fetched, continues, answering⟩ :=
          h.running v (same.symm.trans holding) a ha own.symm unanswered
        rcases said with ⟨_, given⟩ | ⟨_, _, _, _, producing⟩
        · cases answering.symm.trans given
        · cases answering.symm.trans producing
      · cases phase.symm.trans holding
      · rcases said with ⟨_, given⟩ | ⟨_, _, _, _, producing⟩
        · cases reporting.symm.trans given
        · cases reporting.symm.trans producing
  · rw [kept.latest] at newest
    have waited := before unanswered
    rcases t.holding_left holding with held | ⟨latest, fetched, continues, stored⟩
    · rcases t.mem_cases hb with ⟨old, _⟩ | stepped | ⟨old, _⟩
      · exact h.running v held b old newest waited
      · have number := t.number stepped
        rw [number] at newest waited unanswered
        obtain ⟨fetched, continues, answering⟩ := h.running v held a ha newest waited
        -- it answers with its next step, or has not moved
        rcases t.answered_of_answering answering with answered | same
        · rw [answered] at unanswered
          cases unanswered
        · obtain rfl : b = a := Option.some.inj (stepped.symm.trans same)
          exact ⟨fetched, continues, answering⟩
      · exact h.running v held b old newest waited
    · rcases t.mem_cases hb with ⟨_, other⟩ | stepped | ⟨old, same⟩
      · exact absurd (newest.trans latest) other
      · obtain rfl := Option.some.inj (stored.symm.trans stepped)
        exact ⟨fetched, continues, rfl⟩
      · obtain rfl := orderly.eq_of_number old ha (newest.trans latest)
        have answers := Option.some.inj (stored.symm.trans same)
        exact ⟨fetched, continues, answers ▸ rfl⟩

/-- A section of a reader sustains the value, or there is none. -/
theorem Sustained.touch {w w' : World ε V} {c : Cache ε V} (h : Sustained w)
    (orderly : Orderly w.now w.cache.dispatcher) (t : Cache.Touch w.cache w.now c)
    (cell : w'.cache.cell = c.cell) (dispatcher : w'.cache.dispatcher = c.dispatcher) :
    Sustained w' := by
  have held {v : Visibility (Sourced V)} (holding : w'.cache.cell.phase = .holding v) :
      w.cache.cell.phase = .holding v := t.holding (cell ▸ holding)
  have answers (n : Nat) : w'.cache.dispatcher.answer? n = w.cache.dispatcher.answer? n := by
    rw [dispatcher, answer?_touch t orderly]
  rcases t.dispatcher_cases with same | ⟨_, ⟨n, started, busy⟩ | ⟨overflowed, _⟩⟩
  · rw [same] at dispatcher
    refine ⟨fun v holding => ?_, fun v holding => ?_⟩
    · rw [dispatcher]
      exact h.answered v (held holding)
    · rw [dispatcher]
      exact h.running v (held holding)
  · -- a fetch is on its way
    have valueless (v : Visibility (Sourced V)) : w'.cache.cell.phase ≠ .holding v := by
      rw [cell, busy]
      exact fun holding => nomatch holding
    exact ⟨fun v holding => absurd holding (valueless v), fun v holding => absurd holding (valueless v)⟩
  · -- the number of a launch that failed is nobody's
    have latest : w'.cache.dispatcher.latest = w.cache.dispatcher.latest + 1 := by
      rw [dispatcher]
      exact overflowed.latest
    refine ⟨fun v _ failure failed => ?_, fun v _ b hb newest => ?_⟩
    · rw [latest, answers] at failed
      have known := orderly.known _ (Dispatcher.hasAnswered_iff.mpr ⟨_, failed⟩)
      omega
    · rw [dispatcher] at hb
      have known := (orderly.bounded b (overflowed.mem_running hb)).2
      omega

/-- **A value that is held was not followed by a failure**, in every reachable world. -/
theorem Reachable.sustained {w : World ε V} (h : Reachable w) : Sustained w := by
  refine h.invariant (fun w hw => ?_) (fun w m w' reachable h s => ?_)
  · cases hw <;> exact ⟨fun _ holding => (nomatch holding), fun _ holding => (nomatch holding)⟩
  · have orderly := reachable.ordered.dispatcher
    have same {w' : World ε V} (dispatcher : w'.cache.dispatcher = w.cache.dispatcher)
        (held : ∀ v, w'.cache.cell.phase = .holding v → w.cache.cell.phase = .holding v) :
        Sustained w' := by
      refine ⟨fun v holding => ?_, fun v holding => ?_⟩
      · rw [dispatcher]
        exact h.answered v (held v holding)
      · rw [dispatcher]
        exact h.running v (held v holding)
    cases s with
    | aside ha | dropReader ha => exact same ha.dispatcher fun v holding => ha.cell ▸ holding
    | poke ha =>
        refine same ha.dispatcher fun v holding => ?_
        rw [← ha.cell]
        exact holding
    | invalidate ha => exact same ha.dispatcher fun v holding => nomatch holding
    | pass | openReader | follow => exact same rfl fun v holding => holding
    | bind => exact ⟨h.answered, h.running⟩
    | subscribe => exact h.touch orderly (Cache.subscribe_touch w.cache w.now) rfl rfl
    | reader own seated ha =>
        exact h.touch orderly (Reader.step_stepped _ _ _).touch ha.cell ha.dispatcher
    | attempt own running t => exact h.turn reachable t (Dispatcher.attempt?_mem running).1

/-! ## §3. The next read after a failure. -/

/-- A read of a cell that waits for a fetch joins the attempt that owes its answer. -/
theorem joins_of_busy {w : World ε V} (reachable : Reachable w) (handle : w.hasHandle = true)
    (busy : w.cache.cell.phase = .calculating) (role : Role) :
    let p := w.run [.openReader .once role, .reader w.nextKey, .reader w.nextKey]
    p.cache.dispatcher = w.cache.dispatcher ∧ p.calls = w.calls ∧ p.itemsTo w.nextKey = []
      ∧ ∃ seat, p.seat? w.nextKey = some seat
        ∧ seat.reader.stage = .waiting w.cache.dispatcher.latest := by
  intro p
  have alive : w.isCacheAlive = true := by simp [isCacheAlive, handle]
  -- its interest changes nothing, and its look finds the attempt
  have interest : w.cache.subscribe = w.cache := by simp only [Cache.subscribe, busy]
  have looks : w.cache.subscribe.access w.now none
      = (w.cache.withCell (·.tally Counters.countCoalesced),
        .ticket (.wait w.cache.dispatcher.latest)) := by
    simp only [interest, Cache.access, reachable.coherent.sound, busy, Cache.join,
      reachable.coherent.owed alive busy, Prod.map, id]
  have ran : p = _ := reachable.attended.asked_waits role handle looks
  rw [ran]
  exact ⟨rfl, rfl, itemsTo_unknown reachable.unserved.noted (Nat.le_refl _), _,
    reachable.attended.seat?_newest rfl, rfl⟩

/-- **When the next read launches after a failure.**  Take any run, with the cache in being at its end.
While a fetch is on its way, the newest attempt has answered exactly if it was given a value first that
nobody can copy.  After it has answered with a failure, the next read launches an attempt, unless it died
in this way and the cell still waits for it.  Then the next read launches nothing and calls no source:
it joins the dead attempt, and is given the same failure. -/
theorem lost_attempt {w₀ : World ε V} (initial : Initial w₀) (moves : List (Move ε V))
    (alive : (w₀.run moves).isCacheAlive = true) :
    let w := w₀.run moves
    let n := w.cache.dispatcher.latest
    (w.cache.cell.phase = .calculating →
        (w.cache.dispatcher.hasAnswered n = true
          ↔ w₀.firstOutcome moves n = some (.came .uncopyable)))
      ∧ ∀ failure, w.cache.dispatcher.answer? n = some (.error failure) →
        (w₀.firstOutcome moves n ≠ some (.came .uncopyable) ∨ w.cache.cell.phase ≠ .calculating →
          w.FetchesNext)
        ∧ (w.cache.cell.phase = .calculating → w.hasHandle = true → ∀ role,
          let p := w.run [.openReader .once role, .reader w.nextKey, .reader w.nextKey,
            .reader w.nextKey]
          p.cache.dispatcher.latest = n ∧ p.calls = w.calls
            ∧ p.itemsTo w.nextKey = [.failed failure]) := by
  intro w n
  have reachable : Reachable w := initial.reachable_run moves
  have accounted : Accounted (w₀.yields moves) w := by
    have start : Accounted [] w₀ :=
      ⟨fun _ given => (nomatch given), fun _ busy => by cases initial <;> cases busy⟩
    exact start.run (.initial initial) (.initial initial) moves
  refine ⟨fun busy => ⟨accounted.busy alive busy, accounted.dead n⟩, fun failure failed => ⟨?_, ?_⟩⟩
  · intro spared
    refine fetchesNext_of_idle reachable (fun v holding => ?_) (fun busy => ?_)
    · exact reachable.sustained.answered v holding failure failed
    · rcases spared with other | idle
      · exact other (accounted.busy alive busy (Dispatcher.hasAnswered_iff.mpr ⟨_, failed⟩))
      · exact idle busy
  · intro busy handle role p
    obtain ⟨dispatcher, calls, none, seat, seated, stage⟩ := joins_of_busy reachable handle busy role
    have joined : Reachable (w.run [.openReader .once role, .reader w.nextKey, .reader w.nextKey]) :=
      reachable.run _
    have last : p = (w.run [.openReader .once role, .reader w.nextKey, .reader w.nextKey]).apply
        (.reader w.nextKey) := rfl
    rw [last]
    generalize w.run [.openReader .once role, .reader w.nextKey, .reader w.nextKey] = q
      at dispatcher calls none seated joined ⊢
    have failed : q.cache.dispatcher.answer? n = some (.error failure) := by rw [dispatcher]; exact failed
    have awaits : seat.reader.awaits? = some n := Reader.awaits?_eq_some_iff.mpr (Or.inr stage)
    have advanced := advanceReader_advanced seated
    have idle : (seat.reader.step q.cache q.now).1 = q.cache := by
      simp only [Reader.step, stage]
      split <;> rfl
    refine ⟨?_, advanced.calls.trans calls, ?_⟩
    · show (q.advanceReader w.nextKey).cache.dispatcher.latest = n
      rw [advanced.dispatcher, idle, dispatcher]
    · rw [apply_awaiting joined seated awaits failed, none]
      rfl

/-- A source whose first value nobody can copy. -/
def uncopiedAtFirst : Source Unit Nat where
  shape := .oneShot fun n => some ⟨0, fun _ _ => if n = 1 then .uncopyable else .value 20⟩

/-- A source that fails at first. -/
def failedAtFirst : Source Unit Nat where
  shape := .oneShot fun n => some ⟨0, fun _ _ => if n = 1 then .failed "offline" else .value 20⟩

/-- The value is read, and the reader is given what became of the first attempt. -/
def firstRead (source : Source Unit Nat) : List (Move Unit Nat) :=
  [.bind source, .openReader .once .read, .reader 0, .reader 0, .attempt 1, .attempt 1, .attempt 1,
    .attempt 1, .attempt 1, .reader 0]

theorem lost_attempt_failed :
    let w : World Unit Nat :=
      (selfRefreshing ⟨.periodic 60000, .unpaced⟩ none ()).run (firstRead failedAtFirst)
    w.isCacheAlive = true ∧ w.itemsTo 0 = [.failed (.fetchFailed 1 "offline")] ∧ w.FetchesNext := by
  have h := lost_attempt (.selfRefreshing ⟨.periodic 60000, .unpaced⟩ none ()) (firstRead failedAtFirst)
    (by decide)
  exact ⟨by decide, by decide, (h.2 (.fetchFailed 1 "offline") rfl).1 (Or.inl (by decide))⟩

/-- **A dead attempt is joined.**  The first attempt has died over a value that nobody can copy, and its
reader has been told.  Nobody can take a step, and the cell waits for the dead attempt; the next read
launches none and is given the same failure. -/
theorem dead_attempt_joined :
    let w : World Unit Nat :=
      (selfRefreshing ⟨.periodic 60000, .unpaced⟩ none ()).run (firstRead uncopiedAtFirst ++ [.arm])
    let p := w.run [.openReader .once .read, .reader 1, .reader 1, .reader 1]
    w.IsSettled ∧ w.cache.cell.phase = .calculating
      ∧ w.cache.dispatcher.hasAnswered w.cache.dispatcher.latest = true
      ∧ w.itemsTo 0 = [.failed (.fetchFailed 1 Failure.lostReason)]
      ∧ p.itemsTo 1 = [.failed (.fetchFailed 1 Failure.lostReason)]
      ∧ p.calls = [(1, 0)] ∧ ¬w.FetchesNext := by
  refine ⟨by unfold IsSettled; decide, by decide, by decide, by decide, by decide, by decide, ?_⟩
  intro fetches
  exact absurd (fetches .read rfl rfl rfl) (by decide)

end World

end SingleFlight
