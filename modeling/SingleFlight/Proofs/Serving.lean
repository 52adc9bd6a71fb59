/-
  SingleFlight.Proofs.Serving — one read, from its first look to its result, with nothing beside it.

  A read that comes alone goes through a fixed course of stages: it shows
  interest and looks, or demands a fetch; a fetch is launched, calls the
  source, waits for the production, reports and answers; the reader takes the
  answer.  At each stage one can tell what will come of it, in terms of the
  memo that the world amounts to.  The refresher has its own things to do
  meanwhile, and none of them is of any matter to the read.

  Main results:
    * `Serving.move` — every step leaves the read on its way to the same result, or at it.
    * `Serving.waits` — it waits for its production, and for nothing else.
    * `Serving.ends` — it comes to its end, however far it has come.
-/
import SingleFlight.Proofs.Awaiting
import SingleFlight.Proofs.Coalescing

namespace SingleFlight

variable {ε V : Type}

/-- An attempt with nothing to wait for and nothing to replace. -/
def Attempt.alone (number : Nat) (progress : Attempt.Progress ε V) : Attempt ε V where
  number := number
  delay := 0
  predecessor := none
  supersedes := none
  progress := progress

/-- The report of an attempt that comes to this result. -/
def reportOfResult (number : Nat) : Result V → Report V
  | .ok v => .ok ⟨v, number, 0⟩
  | .error reason => .error (.fetchFailed number reason)

/-- The answer that follows from it is of this result. -/
theorem result?_answerOf (number : Nat) (result : Result V) (verdict : Verdict) :
    (Item.ofAnswer (Attempt.answerOf (reportOfResult number result) verdict)).result? = some result := by
  cases result <;> rfl

namespace World

/-! ## §1. A world between two reads. -/

/-- The memo that a world amounts to. -/
def memo (w : World ε V) : Memo V where
  held := match w.cache.cell.phase with
    | .holding (.concealed content) => w.cache.staleness.lastSuccess.map fun t => (content.value, t)
    | _ => none
  dirty := w.cache.staleness.signalPending
  calls := w.calls.length
  now := w.now

/-- No fetch is on its way, and a held value is due only by its age or by a signal, or because it is
going to be thrown away. -/
structure Collected (w : World ε V) : Prop where
  resting : w.cache.cell.phase ≠ .calculating
  held : ∀ v, w.cache.cell.phase = .holding v →
    ∃ content t, v = .concealed content ∧ w.cache.staleness.lastSuccess = some t
      ∧ (w.cache.staleness.flushPending = true → .flush ∈ w.cache.staleness.notices)

/-- No attempt is on its way: each one has called the source. -/
structure Poised (seats : List Seat) (w : World ε V) : Prop extends Collected w where
  seats : w.seats = seats
  unattempted : w.cache.dispatcher.running = []
  unowed : w.cache.dispatcher.pending = none
  counted : w.cache.dispatcher.latest = w.calls.length

/-- A world that is kept up, with nothing to come but what was begun: no value is going to be thrown
away, and no signal waits to be heard.  The reads before have given these results. -/
structure Tranquil (terms : Terms ε V) (limit : Instant) (before : List (Option (Result V)))
    (w : World ε V) : Prop extends Upkeep terms limit w where
  unflushed : .flush ∉ w.cache.staleness.notices
  heard : w.unheard = []
  results : w.results = before

variable {terms : Terms ε V} {limit : Instant} {before : List (Option (Result V))} {w : World ε V}
variable {key : Nat} {reader : Reader} {fate : Memo V × Result V}

/-- While nothing else is to come, the refresher changes nothing that matters. -/
theorem Tranquil.minds (h : Tranquil terms limit before w) {m : Move ε V} (chore : m.isChore = true) :
    ∃ refresher version notices, w.apply m = w.tended refresher version notices
      ∧ Tranquil terms limit before (w.tended refresher version notices) := by
  have tends := h.tends chore
  have kept := h.toUpkeep.tended tends
  generalize w.apply m = w' at tends kept ⊢
  cases tends with
  | minds refresher version notices running taken =>
      have unflushed : .flush ∉ notices := by
        intro flush
        rcases taken with same | ⟨n, _, more⟩
        · exact h.unflushed (same ▸ flush)
        · exact h.unflushed (more ▸ List.mem_cons_of_mem n flush)
      exact ⟨refresher, version, notices, rfl,
        { kept with unflushed, heard := h.heard, results := h.results }⟩
  | flushes _ _ _ _ taken => exact absurd (taken ▸ List.mem_cons_self) h.unflushed
  | hears _ b s queue _ bus taken =>
      have heard := h.heard
      simp [unheard, bus, taken] at heard

/-- What is held can be read if it is not due. -/
theorem Poised.fresh?_eq {seats : List Seat} (p : Poised seats w) (h : Tranquil terms limit before w)
    {content : Sourced V} (holding : w.cache.cell.phase = .holding (.concealed content)) :
    w.memo.fresh? terms.freshness.interval
      = if w.cache.staleness.isDue w.now then none else some content.value := by
  obtain ⟨_, t, same, last, flushed⟩ := p.held _ holding
  have pending : w.cache.staleness.flushPending = false :=
    Bool.eq_false_iff.mpr fun flush => h.unflushed (flushed flush)
  unfold Memo.fresh? memo Staleness.isDue
  simp only [holding, last, pending, h.freshness, Option.map_some]
  cases w.cache.staleness.signalPending <;> by_cases due : terms.freshness.interval ≤ w.now.age t <;>
    simp [due, Nat.not_lt.mpr, Nat.lt_of_not_le]

/-! ## §2. The only reader. -/

/-- A reader that is alone takes a step, and hands out nothing. -/
theorem apply_quiet {reader' : Reader} {cache : Cache ε V} (alone : w.seats = [⟨key, .read, reader⟩])
    (quiet : reader.step w.cache w.now = (cache, reader', none)) :
    w.apply (.reader key) = { w with cache, seats := [⟨key, .read, reader'⟩] } := by
  have seated : w.seat? key = some ⟨key, .read, reader⟩ := by simp [seat?, alone]
  rw [advanceReader_quiet seated quiet, reseat, alone]
  simp

/-- A reader that is alone hands out its item, and is gone. -/
theorem apply_hands {reader' : Reader} {cache : Cache ε V} {item : Item V}
    (alone : w.seats = [⟨key, .read, reader⟩]) (handle : w.hasHandle = true)
    (hands : reader.step w.cache w.now = (cache, reader', some item)) :
    w.apply (.reader key)
      = { w with
          cache, seats := []
          deliveries := ⟨key, w.now, presented .read item, cache.staleness.lastSuccess⟩
            :: w.deliveries } := by
  have seated : w.seat? key = some ⟨key, .read, reader⟩ := by simp [seat?, alone]
  show w.advanceReader key = _
  unfold advanceReader
  simp [seated, hands, reseat, alone, noteDelivery, endsTask, dropReader, untether, handle]

/-- There is no other reader to take a step. -/
theorem apply_reader_other {other : Nat} (alone : w.seats = [⟨key, .read, reader⟩]) (h : other ≠ key) :
    w.apply (.reader other) = w :=
  apply_unseated (by simp [seat?, alone, Ne.symm h])

/-! ## §3. The stages of a read. -/

/-- How a read stands that has not been seen to, and what will come of it. -/
inductive Asks (terms : Terms ε V) (w : World ε V) : Reader → Memo V × Result V → Prop where
  | subscribing (seen : Nat) : Asks terms w ⟨.once, .subscribing, none, seen⟩ (w.memo.read terms)
  | looking (seen : Nat) (interested : w.cache.cell.phase ≠ .flushed
      ∧ w.cache.cell.phase ≠ .invalid false) :
      Asks terms w ⟨.once, .looking, none, seen⟩ (w.memo.read terms)
  | demanding (seen : Nat) : Asks terms w ⟨.anew, .demanding, none, seen⟩ (w.memo.fetch terms)

/-- How far the attempt `n` has come that serves the read, and what will come of it. -/
inductive Underway (terms : Terms ε V) (w : World ε V) (n : Nat) :
    Attempt.Progress ε V → Memo V × Result V → Prop where
  | launched (busy : w.cache.cell.phase = .calculating) (uncalled : n = w.calls.length + 1) :
      Underway terms w n .launched (w.memo.fetch terms)
  | queued (busy : w.cache.cell.phase = .calculating) (uncalled : n = w.calls.length + 1) :
      Underway terms w n .queued (w.memo.fetch terms)
  | producing {due : Instant} {outcome : ε → Instant → Outcome V}
      (busy : w.cache.cell.phase = .calculating) (called : n = w.calls.length) (ahead : w.now ≤ due)
      (copied : outcome terms.surroundings due ≠ .uncopyable) :
      Underway terms w n (.producing due outcome)
        ({ w.memo with now := due }.land (outcome terms.surroundings due).result)
  | reporting {result : Result V} (busy : w.cache.cell.phase = .calculating)
      (called : n = w.calls.length) :
      Underway terms w n (.reporting (reportOfResult n result)) (w.memo.land result)
  | answering {result : Result V} {verdict : Verdict} (collected : Collected w)
      (called : n = w.calls.length) :
      Underway terms w n (.answering (Attempt.answerOf (reportOfResult n result) verdict) false)
        (w.memo, result)

section Stages

variable (terms : Terms ε V) (limit : Instant) (before : List (Option (Result V))) (key : Nat)
variable (reader : Reader)

/-- A read that has not been seen to. -/
structure Asking (fate : Memo V × Result V) (w : World ε V) : Prop
    extends Tranquil terms limit before w, Poised [⟨key, .read, reader⟩] w where
  asks : Asks terms w reader fate

/-- A reader that waits for the newest attempt. -/
structure Expects (w : World ε V) : Prop extends Tranquil terms limit before w where
  alone : w.seats = [⟨key, .read, reader⟩]
  awaits : reader.awaits? = some w.cache.dispatcher.latest

/-- A read that is served by an attempt. -/
structure Fetching (progress : Attempt.Progress ε V) (fate : Memo V × Result V) (w : World ε V) : Prop
    extends Expects terms limit before key reader w where
  attempted : w.cache.dispatcher.running = [.alone w.cache.dispatcher.latest progress]
  pending : w.cache.dispatcher.pending = some w.cache.dispatcher.latest
  unanswered : w.cache.dispatcher.hasAnswered w.cache.dispatcher.latest = false
  underway : Underway terms w w.cache.dispatcher.latest progress fate

/-- A read whose attempt has answered. -/
structure Answered (fate : Memo V × Result V) (w : World ε V) : Prop
    extends Expects terms limit before key reader w, Poised [⟨key, .read, reader⟩] w where
  answered : ∃ answer, w.cache.dispatcher.answer? w.cache.dispatcher.latest = some answer
    ∧ (Item.ofAnswer answer).result? = some fate.2
  memo : w.memo = fate.1

/-- A read that has its result. -/
structure Fulfilled (fate : Memo V × Result V) (w : World ε V) : Prop
    extends Tranquil terms limit (before ++ [some fate.2]) w, Poised [] w where
  memo : w.memo = fate.1

end Stages

/-! ## §4. From stage to stage. -/

/-- The dispatcher after a launch at `now`, with no other attempt on its way. -/
def launched (d : Dispatcher ε V) (now : Instant) : Dispatcher ε V :=
  { d with
    sealed := true
    latest := d.latest + 1
    pending := some (d.latest + 1)
    stream := none
    lastStart := some now
    running := [.alone (d.latest + 1) .launched] }

/-- A launch, with no attempt on its way. -/
theorem Upkeep.launch (h : Upkeep terms limit w) {seats : List Seat} (p : Poised seats w) :
    w.cache.launch w.now
      = (w.cache.begun (launched w.cache.dispatcher w.now), .wait (w.cache.dispatcher.latest + 1)) := by
  obtain ⟨source, binding, shape⟩ := h.bound
  have delay : w.cache.dispatcher.holdBack w.now = 0 := by
    simp only [Dispatcher.holdBack, h.pacing]
  have isOneShot : source.isContinuous = false := by
    simp only [Source.isContinuous, shape]
  have launch : w.cache.dispatcher.launch w.now
      = .started (launched w.cache.dispatcher w.now) (w.cache.dispatcher.latest + 1) := by
    unfold Dispatcher.launch
    simp [binding, delay, isOneShot, Instant.later?, Dispatcher.clear, Dispatcher.answeredStream,
      Dispatcher.unansweredStream, Dispatcher.dismiss, h.stream, p.unowed, p.unattempted,
      Attempt.alone, launched]
  simp only [Cache.launch, launch]
  rfl

/-- **A launch leaves a fetch that is about to start.** -/
theorem Tranquil.fetches (h : Tranquil terms limit before w) {seats : List Seat} (p : Poised seats w)
    (reachable : Reachable w) (awaits : reader.awaits? = some (w.cache.dispatcher.latest + 1)) :
    Fetching terms limit before key reader .launched (w.memo.fetch terms)
      { w with
        cache := w.cache.begun (launched w.cache.dispatcher w.now)
        seats := [⟨key, .read, reader⟩] } := by
  have unanswered : w.cache.dispatcher.hasAnswered (w.cache.dispatcher.latest + 1) = false := by
    refine Bool.eq_false_iff.mpr fun answered => ?_
    have known := reachable.ordered.dispatcher.known _ answered
    omega
  -- the launch drops what was held, and so the memo of the new world holds nothing
  rw [← Memo.fetch_held w.memo none]
  exact { h with
    stream := rfl
    alone := rfl
    awaits
    attempted := rfl
    pending := rfl
    unanswered
    underway := .launched rfl (congrArg (· + 1) p.counted) }

/-- A reader that shows interest looks next. -/
theorem Asking.shows (h : Asking terms limit before key reader fate w)
    (stage : reader.stage = .subscribing) :
    Asking terms limit before key { reader with stage := .looking } fate (w.apply (.reader key)) := by
  cases h.asks with
  | looking | demanding => cases stage
  | subscribing seen =>
      rw [apply_quiet h.seats rfl]
      have interested := w.cache.subscribe_phase
      rcases w.cache.subscribe_cases with same | ⟨gone, turned⟩
      · rw [same] at interested ⊢
        exact { h with seats := rfl, asks := .looking seen interested }
      · -- the interest turns the phase, but there was nothing to read before either
        rw [turned] at interested ⊢
        have valueless : w.memo.held = none := by rcases gone with phase | phase <;> simp [memo, phase]
        have read : w.memo.read terms = { w.memo with held := none }.read terms := by rw [← valueless]
        rw [read]
        exact { h with
          seats := rfl
          resting := nofun
          held := nofun
          asks := .looking seen interested }

/-- A look that launches leaves a fetch that is about to start. -/
theorem Asking.launches {seen : Nat}
    (h : Asking terms limit before key ⟨.once, .looking, none, seen⟩ (w.memo.read terms) w)
    (reachable : Reachable w) (due : w.memo.fresh? terms.freshness.interval = none)
    (look : w.cache.access w.now none = (w.cache.launch w.now).map id .ticket) :
    ∃ reader', Fetching terms limit before key reader' .launched (w.memo.read terms)
      (w.apply (.reader key)) := by
  have step : Reader.step ⟨.once, .looking, none, seen⟩ w.cache w.now
      = (w.cache.begun (launched w.cache.dispatcher w.now),
        ⟨.once, .waiting (w.cache.dispatcher.latest + 1), none, w.cache.cell.version⟩, none) := by
    unfold Reader.step
    simp only [look, h.launch h.toPoised]
    rfl
  have fetches : w.memo.read terms = w.memo.fetch terms := by
    unfold Memo.read
    rw [due]
  rw [apply_quiet h.seats step, fetches]
  exact ⟨_, h.toTranquil.fetches h.toPoised reachable rfl⟩

/-- **A reader that looks is given the held value, or has a fetch launched.** -/
theorem Asking.looks (h : Asking terms limit before key reader fate w) (reachable : Reachable w)
    (stage : reader.stage = .looking) :
    (∃ reader', Fetching terms limit before key reader' .launched fate (w.apply (.reader key)))
      ∨ Fulfilled terms limit before fate (w.apply (.reader key)) := by
  cases asks : h.asks with
  | subscribing | demanding => cases stage
  | looking seen interested =>
      have sound := h.sound
      cases phase : w.cache.cell.phase with
      | calculating => exact absurd phase h.resting
      | flushed => exact absurd phase interested.1
      | empty =>
          refine Or.inl (h.launches reachable (by simp [Memo.fresh?, memo, phase]) ?_)
          simp only [Cache.access, sound, phase]
      | invalid refetch =>
          cases refetch with
          | false => exact absurd phase interested.2
          | true =>
              refine Or.inl (h.launches reachable (by simp [Memo.fresh?, memo, phase]) ?_)
              simp only [Cache.access, sound, phase]
      | holding v =>
          obtain ⟨content, _, rfl, _⟩ := h.held v phase
          -- the book and the memo agree on whether it is due, to the instant
          have fresh := h.toPoised.fresh?_eq h.toTranquil phase
          cases due : w.cache.staleness.isDue w.now with
          | true =>
              rw [due] at fresh
              refine Or.inl (h.launches reachable fresh ?_)
              simp only [Cache.access, sound, phase, due, if_true]
          | false =>
              rw [due] at fresh
              have read : w.memo.read terms = (w.memo, .ok content.value) := by
                unfold Memo.read
                rw [fresh]
                rfl
              have step : Reader.step ⟨.once, .looking, none, seen⟩ w.cache w.now
                  = (w.cache.withCell (·.tally Counters.countDelivery),
                    ⟨.once, .closing, some w.cache.cell.revision, w.cache.cell.version⟩,
                    some (.value content)) := by
                simp [Reader.step, Cache.access, sound, phase, due, Reader.receive,
                  Reader.stageAfterValue, Reading.once]
              rw [apply_hands h.seats h.handle step, read]
              refine Or.inr { h with seats := rfl, results := ?_, memo := rfl }
              rw [← h.results]
              simp [World.results, presented, Item.result?]

/-- **A reader that demands a fetch has one launched.** -/
theorem Asking.demands (h : Asking terms limit before key reader fate w) (reachable : Reachable w)
    (stage : reader.stage = .demanding) :
    ∃ reader', Fetching terms limit before key reader' .launched fate (w.apply (.reader key)) := by
  cases h.asks with
  | subscribing | looking => cases stage
  | demanding seen =>
      have demand : w.cache.demand w.now = w.cache.launch w.now := by
        have resting := h.resting
        unfold Cache.demand
        rw [h.sound]
        cases phase : w.cache.cell.phase with
        | calculating => exact absurd phase resting
        | empty | flushed | invalid | holding => rfl
      have step : Reader.step ⟨.anew, .demanding, none, seen⟩ w.cache w.now
          = (w.cache.begun (launched w.cache.dispatcher w.now),
            ⟨.anew, .expecting (w.cache.dispatcher.latest + 1), none, seen⟩, none) := by
        unfold Reader.step
        simp only [demand, h.launch h.toPoised]
        rfl
      rw [apply_quiet h.seats step]
      exact ⟨_, h.toTranquil.fetches h.toPoised reachable rfl⟩

/-! ## §5. The attempt that serves the read. -/

/-- The step of an attempt that is alone. -/
theorem apply_alone {n : Nat} {progress : Attempt.Progress ε V}
    (alone : w.cache.dispatcher.running = [.alone n progress]) :
    w.apply (.attempt n) = w.stepAttempt (.alone n progress) := by
  have found : w.cache.dispatcher.attempt? n = some (.alone n progress) := by
    simp [Dispatcher.attempt?, alone, Attempt.alone]
  exact apply_attempt found

/-- An attempt that is alone goes on. -/
theorem advanceTo_alone {n : Nat} {progress : Attempt.Progress ε V}
    (alone : w.cache.dispatcher.running = [.alone n progress]) (next : Attempt.Progress ε V) :
    w.advanceTo (.alone n progress) next
      = w.withDispatcher fun d => { d with running := [.alone n next] } := by
  simp [advanceTo, withDispatcher, withCache, Dispatcher.update, alone, Attempt.alone]

theorem Fetching.starts (h : Fetching terms limit before key reader .launched fate w) :
    Fetching terms limit before key reader .queued fate
      (w.apply (.attempt w.cache.dispatcher.latest)) := by
  have step : w.apply (.attempt w.cache.dispatcher.latest)
      = w.advanceTo (.alone w.cache.dispatcher.latest .launched) .queued := apply_alone h.attempted
  rw [step, advanceTo_alone h.attempted]
  cases h.underway with
  | launched busy uncalled => exact { h with attempted := rfl, underway := .queued busy uncalled }

/-- What comes of the call of the source. -/
theorem Upkeep.callSource (h : Upkeep terms limit w) {n : Nat} {progress : Attempt.Progress ε V} :
    let called := w.noteCall (.alone n progress)
    w.callSource (.alone n progress) = called.advanceTo (.alone n progress)
      (match terms.call (w.calls.length + 1) with
        | none => .reporting (reportOfResult n (.error Failure.crashReason))
        | some p => .producing (w.now + p.delay) p.outcome) := by
  obtain ⟨source, binding, shape⟩ := h.bound
  have spared : w.withDispatcher (·.dismiss (Attempt.alone n progress).supersedes) = w := rfl
  intro called
  unfold World.callSource
  rw [spared]
  simp only [binding, h.owner, if_true, shape]
  show (match terms.call (w.calls.length + 1) with | none => _ | some p => _) = _
  cases terms.call (w.calls.length + 1) <;> rfl

/-- The attempt calls the source: it waits for a production, or the call has crashed. -/
theorem Fetching.calls (h : Fetching terms limit before key reader .queued fate w) :
    let w' := w.apply (.attempt w.cache.dispatcher.latest)
    (∃ due outcome, Fetching terms limit before key reader (.producing due outcome) fate w')
      ∨ ∃ report, Fetching terms limit before key reader (.reporting report) fate w' := by
  have step : w.apply (.attempt w.cache.dispatcher.latest)
      = w.callSource (.alone w.cache.dispatcher.latest .queued) := by
    rw [apply_alone h.attempted]
    rfl
  intro w'
  show (∃ due outcome, Fetching _ _ _ _ _ _ _ (w.apply _)) ∨ ∃ report, Fetching _ _ _ _ _ _ _ (w.apply _)
  rw [step, h.callSource, advanceTo_alone (w := w.noteCall _) h.attempted]
  cases h.underway with
  | queued busy uncalled =>
      -- the attempt has the number of the call it makes, and so has the fetch of the memo
      have called : w.cache.dispatcher.latest = w.calls.length + 1 := uncalled
      unfold Memo.fetch
      cases call : terms.call (w.calls.length + 1) with
      | none =>
          refine Or.inr ⟨reportOfResult w.cache.dispatcher.latest (.error Failure.crashReason), ?_⟩
          simp only [memo, call]
          exact { h with attempted := rfl, underway := .reporting busy called }
      | some p =>
          refine Or.inl ⟨w.now + p.delay, p.outcome, ?_⟩
          simp only [memo, call]
          exact { h with
            attempted := rfl
            underway := .producing busy called (w.now.le_add p.delay) (h.copied _ p call _) }

/-- The production comes out. -/
theorem Fetching.produces {due : Instant} {outcome : ε → Instant → Outcome V}
    (h : Fetching terms limit before key reader (.producing due outcome) fate w) (come : due ≤ w.now) :
    ∃ report, Fetching terms limit before key reader (.reporting report) fate
      (w.apply (.attempt w.cache.dispatcher.latest)) := by
  cases h.underway with
  | producing busy called ahead copied =>
      -- time never passes beyond a timer, so this is the very instant at which it is due
      obtain rfl : due = w.now := Int.le_antisymm come ahead
      have step : w.apply (.attempt w.cache.dispatcher.latest)
          = w.produce (.alone w.cache.dispatcher.latest (.producing w.now outcome)) outcome := by
        rw [apply_alone h.attempted]
        exact if_pos (decide_eq_true come)
      have produce : w.produce (.alone w.cache.dispatcher.latest (.producing w.now outcome)) outcome
          = { w with produced := w.produced + 1 }.advanceTo
            (.alone w.cache.dispatcher.latest (.producing w.now outcome))
            (.reporting (reportOfResult w.cache.dispatcher.latest
              (outcome terms.surroundings w.now).result)) := by
        unfold World.produce
        rw [h.surroundings]
        cases came : outcome terms.surroundings w.now with
        | value | failed | crashed => rfl
        | uncopyable => exact absurd came copied
      rw [step, produce, advanceTo_alone (w := { w with produced := w.produced + 1 }) h.attempted]
      exact ⟨_, { h with attempted := rfl, underway := .reporting busy called }⟩

/-- The cache takes in the report of an attempt that is alone. -/
theorem report_alone {n : Nat} {progress : Attempt.Progress ε V}
    (alone : w.cache.dispatcher.running = [.alone n progress]) (handle : w.hasHandle = true)
    {report : Report V} {cell : Cell V} {staleness : Staleness} {verdict : Verdict}
    (take : w.cache.take w.now n 0 report = (⟨cell, staleness, w.cache.dispatcher⟩, verdict)) :
    w.report (.alone n progress) report
      = { w with
          cache.cell := cell
          cache.staleness := staleness
          cache.dispatcher.running :=
            [.alone n (.answering (Attempt.answerOf report verdict) false)] } := by
  have alive : w.isCacheAlive = true := by simp [isCacheAlive, handle]
  have last : (Attempt.alone n progress).goesOn report verdict = false := by
    simp [Attempt.goesOn, Attempt.alone]
  unfold World.report
  rw [if_pos alive, show w.cache.take w.now (Attempt.alone n progress).number
    (Attempt.alone n progress).item report = _ from take]
  dsimp only
  rw [last, advanceTo_alone (w := { w with cache := ⟨cell, staleness, w.cache.dispatcher⟩ }) alone]
  rfl

/-- The attempt reports: a value is stored, and a failure leaves none. -/
theorem Fetching.reports {report : Report V}
    (h : Fetching terms limit before key reader (.reporting report) fate w) :
    ∃ answer, Fetching terms limit before key reader (.answering answer false) fate
      (w.apply (.attempt w.cache.dispatcher.latest)) := by
  have step : w.apply (.attempt w.cache.dispatcher.latest)
      = w.report (.alone w.cache.dispatcher.latest (.reporting report)) report := by
    rw [apply_alone h.attempted]
    rfl
  rw [step]
  cases h.underway with
  | @reporting result busy called =>
      cases result with
      | ok v =>
          have keeps : w.cache.keeps 0 = true := by simp [Cache.keeps, busy, Phase.isCalculating]
          have book : w.cache.staleness.recordSuccess w.now
              = { w.cache.staleness with
                  lastSuccess := some w.now, signalPending := false, flushPending := false
                  notices := w.cache.staleness.notices ++ [.reschedule] } := by
            simp [Staleness.recordSuccess, Staleness.notify, h.listening]
          have take : w.cache.take w.now w.cache.dispatcher.latest 0
              (reportOfResult w.cache.dispatcher.latest (.ok v))
              = ((w.cache.withCell (·.tally Counters.countSuccess)).store w.now
                  ⟨v, w.cache.dispatcher.latest, 0⟩, .stored (w.cache.cell.revision + 1)) := by
            simp only [Cache.take, reportOfResult, keeps, ne_eq, not_true_eq_false, if_false, if_true]
          unfold Cache.store Cache.withCell at take
          dsimp only at take
          rw [book] at take
          rw [report_alone h.attempted h.handle take]
          refine ⟨_, { h with
            dated := fun t last => Option.some.inj last ▸ h.now
            unflushed := fun flush => ?_
            attempted := rfl
            underway := .answering ⟨fun busy => ?_, fun u held => ?_⟩ called }⟩
          · -- the success leaves a notice, but none to throw the value away
            rcases List.mem_append.mp flush with old | new
            · exact h.unflushed old
            · cases List.mem_singleton.mp new
          · cases busy
          · refine ⟨_, w.now, (Phase.holding.inj held).symm, rfl, fun flush => ?_⟩
            cases flush
      | error reason =>
          have take : w.cache.take w.now w.cache.dispatcher.latest 0
              (reportOfResult w.cache.dispatcher.latest (.error reason))
              = (w.cache.withCell fun cell => (cell.tally Counters.countFailure).moveTo (.invalid false),
                  .discarded) := by
            simp only [Cache.take, reportOfResult, ne_eq, not_true_eq_false, if_false]
          rw [report_alone h.attempted h.handle take]
          refine ⟨_, { h with
            attempted := rfl
            underway := .answering ⟨fun busy => ?_, fun v held => ?_⟩ called }⟩
          · cases busy
          · cases held

/-- The attempt answers. -/
theorem Fetching.answers {answer : Answer V}
    (h : Fetching terms limit before key reader (.answering answer false) fate w) :
    Answered terms limit before key reader fate (w.apply (.attempt w.cache.dispatcher.latest)) := by
  have step : w.apply (.attempt w.cache.dispatcher.latest)
      = w.answer (.alone w.cache.dispatcher.latest (.answering answer false)) answer false := by
    rw [apply_alone h.attempted]
    rfl
  have settle : w.answer (.alone w.cache.dispatcher.latest (.answering answer false)) answer false
      = w.withDispatcher fun d =>
        { d with answers := (d.latest, answer) :: d.answers, pending := none, running := [] } := by
    simp [World.answer, withDispatcher, withCache, Dispatcher.settle, Dispatcher.noteAnswer,
      Dispatcher.retire, h.unanswered, h.attempted, h.pending, Attempt.alone]
  rw [step, settle]
  cases h.underway with
  | @answering result verdict collected called =>
      have answered : ((w.cache.dispatcher.latest,
          Attempt.answerOf (reportOfResult w.cache.dispatcher.latest result) verdict)
            :: w.cache.dispatcher.answers).lookup w.cache.dispatcher.latest
          = some (Attempt.answerOf (reportOfResult w.cache.dispatcher.latest result) verdict) := by
        simp
      exact { h with
        resting := collected.resting
        held := collected.held
        seats := h.alone
        unattempted := rfl
        unowed := rfl
        counted := called
        answered := ⟨_, answered, result?_answerOf _ result verdict⟩
        memo := rfl }

/-- The reader takes the answer. -/
theorem Answered.takes (h : Answered terms limit before key reader fate w) :
    Fulfilled terms limit before fate (w.apply (.reader key)) := by
  obtain ⟨answer, answered, result⟩ := h.answered
  have step : ∃ reader', reader.step w.cache w.now = (w.cache, reader', some (.ofAnswer answer)) := by
    have hands : (reader.step w.cache w.now).2.2 = some (.ofAnswer answer) := by
      rcases Reader.step_awaiting h.awaits w.cache w.now with ⟨none, _⟩ | ⟨given, same, hands⟩
      · cases none.symm.trans answered
      · rw [hands, Option.some.inj (same.symm.trans answered)]
    have idle : (reader.step w.cache w.now).1 = w.cache := by
      rcases Reader.awaits?_eq_some_iff.mp h.awaits with stage | stage <;>
        simp only [Reader.step, stage, answered]
    exact ⟨_, Prod.ext idle (Prod.ext rfl hands)⟩
  obtain ⟨reader', step⟩ := step
  have presented : (presented .read (Item.ofAnswer answer)).result? = some fate.2 := by
    rw [← result]
    cases answer <;> rfl
  rw [apply_hands h.alone h.handle step]
  refine { h with seats := rfl, results := ?_, memo := h.memo }
  rw [← h.results]
  simp [World.results, presented]

/-! ## §6. The course of a read. -/

/-- What is held is what it was, unless the refresher takes a notice to throw it away. -/
theorem Collected.tended {notices : List Notice} (h : Collected w)
    (spared : .flush ∈ w.cache.staleness.notices → .flush ∈ notices) (refresher : Refresher)
    (version : Nat) : Collected (w.tended refresher version notices) where
  resting := h.resting
  held v holding := by
    obtain ⟨content, t, same, last, flushed⟩ := h.held v holding
    exact ⟨content, t, same, last, fun flush => spared (flushed flush)⟩

/-- A read is on its way, and `fate` will come of it. -/
inductive Serving (terms : Terms ε V) (limit : Instant) (before : List (Option (Result V))) (key : Nat)
    (fate : Memo V × Result V) (w : World ε V) : Prop where
  | asking {reader : Reader} (h : Asking terms limit before key reader fate w)
  | fetching {reader : Reader} {progress : Attempt.Progress ε V}
      (h : Fetching terms limit before key reader progress fate w)
  | answered {reader : Reader} (h : Answered terms limit before key reader fate w)

theorem Serving.tranquil (h : Serving terms limit before key fate w) :
    Tranquil terms limit before w := by
  cases h with
  | asking h => exact h.toTranquil
  | fetching h => exact h.toTranquil
  | answered h => exact h.toTranquil

theorem Serving.seats (h : Serving terms limit before key fate w) :
    ∃ reader, w.seats = [⟨key, .read, reader⟩] := by
  cases h with
  | asking h => exact ⟨_, h.seats⟩
  | fetching h => exact ⟨_, h.alone⟩
  | answered h => exact ⟨_, h.alone⟩

theorem Poised.tended {seats : List Seat} {notices : List Notice} (h : Poised seats w)
    (spared : .flush ∈ w.cache.staleness.notices → .flush ∈ notices) (refresher : Refresher)
    (version : Nat) : Poised seats (w.tended refresher version notices) :=
  { h.toCollected.tended spared refresher version with
    seats := h.seats
    unattempted := h.unattempted
    unowed := h.unowed
    counted := h.counted }

theorem Expects.tended {refresher : Refresher} {version : Nat} {notices : List Notice}
    (h : Expects terms limit before key reader w)
    (t : Tranquil terms limit before (w.tended refresher version notices)) :
    Expects terms limit before key reader (w.tended refresher version notices) :=
  { t with alone := h.alone, awaits := h.awaits }

theorem Fetching.tended {progress : Attempt.Progress ε V} {refresher : Refresher} {version : Nat}
    {notices : List Notice} (h : Fetching terms limit before key reader progress fate w)
    (t : Tranquil terms limit before (w.tended refresher version notices)) :
    Fetching terms limit before key reader progress fate (w.tended refresher version notices) := by
  have underway : Underway terms (w.tended refresher version notices) w.cache.dispatcher.latest
      progress fate := by
    cases h.underway with
    | launched busy uncalled => exact .launched busy uncalled
    | queued busy uncalled => exact .queued busy uncalled
    | producing busy called ahead copied => exact .producing busy called ahead copied
    | reporting busy called => exact .reporting busy called
    | answering collected called =>
        exact .answering (collected.tended (absurd · h.unflushed) _ _) called
  exact { h.toExpects.tended t with
    attempted := h.attempted, pending := h.pending, unanswered := h.unanswered, underway }

/-- The refresher leaves the read where it is. -/
theorem Serving.chore (h : Serving terms limit before key fate w) {m : Move ε V}
    (chore : m.isChore = true) : Serving terms limit before key fate (w.apply m) := by
  obtain ⟨refresher, version, notices, same, t⟩ := h.tranquil.minds chore
  have spared : .flush ∈ w.cache.staleness.notices → .flush ∈ notices :=
    fun flush => absurd flush h.tranquil.unflushed
  rw [same]
  cases h with
  | @asking reader h =>
      have asks : Asks terms (w.tended refresher version notices) reader fate := by
        cases h.asks with
        | subscribing seen => exact .subscribing seen
        | looking seen interested => exact .looking seen interested
        | demanding seen => exact .demanding seen
      exact .asking { h.toPoised.tended spared refresher version, t with asks }
  | fetching h => exact .fetching (h.tended t)
  | answered h =>
      exact .answered { h.toPoised.tended spared refresher version, h.toExpects.tended t with
        answered := h.answered, memo := h.memo }

/-- A reader whose attempt has not answered stays as it is. -/
theorem Fetching.waits {progress : Attempt.Progress ε V}
    (h : Fetching terms limit before key reader progress fate w) : w.apply (.reader key) = w := by
  have step : reader.step w.cache w.now = (w.cache, reader, none) := by
    rcases Reader.step_awaiting h.awaits w.cache w.now with ⟨_, waits⟩ | ⟨answer, answered, _⟩
    · exact waits
    · have unanswered := h.unanswered
      simp [Dispatcher.hasAnswered, answered] at unanswered
  rw [apply_quiet h.alone step, ← h.alone]

/-- The attempt that serves the read takes its step. -/
theorem Fetching.step {progress : Attempt.Progress ε V}
    (h : Fetching terms limit before key reader progress fate w) :
    Serving terms limit before key fate (w.apply (.attempt w.cache.dispatcher.latest)) := by
  cases underway : h.underway with
  | launched => exact .fetching h.starts
  | queued =>
      rcases h.calls with ⟨_, _, waits⟩ | ⟨_, crashed⟩
      · exact .fetching waits
      · exact .fetching crashed
  | @producing due outcome busy called ahead copied =>
      by_cases come : due ≤ w.now
      · obtain ⟨_, reports⟩ := h.produces come
        exact .fetching reports
      · have stays : w.apply (.attempt w.cache.dispatcher.latest) = w := by
          rw [apply_alone h.attempted]
          exact if_neg (by simpa [canStep, Attempt.alone] using come)
        rw [stays]
        exact .fetching h
  | reporting =>
      obtain ⟨_, answers⟩ := h.reports
      exact .fetching answers
  | answering => exact .answered h.answers

/-- **Every step leaves the read on its way to the same result, or at it.** -/
theorem Serving.move (h : Serving terms limit before key fate w) (reachable : Reachable w)
    {m : Move ε V} (own : m.isOwn = true) :
    Serving terms limit before key fate (w.apply m) ∨ Fulfilled terms limit before fate (w.apply m) := by
  obtain ⟨_, alone⟩ := h.seats
  cases m with
  | arm => exact Or.inl (h.chore rfl)
  | react cue => exact Or.inl (h.chore rfl)
  | reader other =>
      by_cases same : other = key
      · subst same
        cases h with
        | asking h =>
            cases h.asks with
            | subscribing => exact Or.inl (.asking (h.shows rfl))
            | looking =>
                rcases h.looks reachable rfl with ⟨_, fetching⟩ | fulfilled
                · exact Or.inl (.fetching fetching)
                · exact Or.inr fulfilled
            | demanding =>
                obtain ⟨_, fetching⟩ := h.demands reachable rfl
                exact Or.inl (.fetching fetching)
        | fetching h =>
            rw [h.waits]
            exact Or.inl (.fetching h)
        | answered h => exact Or.inr h.takes
      · rw [apply_reader_other alone same]
        exact Or.inl h
  | attempt n =>
      have others (absent : w.cache.dispatcher.attempt? n = none) :
          Serving terms limit before key fate (w.apply (.attempt n)) := by
        rw [apply_absent absent]
        exact h
      refine Or.inl ?_
      cases h with
      | asking h => exact others (by simp [Dispatcher.attempt?, h.unattempted])
      | answered h => exact others (by simp [Dispatcher.attempt?, h.unattempted])
      | fetching h =>
          by_cases same : n = w.cache.dispatcher.latest
          · rw [same]
            exact h.step
          · exact others (by simp [Dispatcher.attempt?, h.attempted, Attempt.alone, Ne.symm same])
  | _ => cases own

/-! ## §7. The read waits for a production, and for nothing else. -/

theorem Fetching.due_eq {due : Instant} {outcome : ε → Instant → Outcome V}
    (h : Fetching terms limit before key reader (.producing due outcome) fate w) : fate.1.now = due := by
  cases h.underway with
  | producing => exact Memo.land_now _ _

/-- Time passes, and the production is still to come. -/
theorem Fetching.later {due : Instant} {outcome : ε → Instant → Outcome V} {d : Duration}
    (h : Fetching terms limit before key reader (.producing due outcome) fate w)
    (within : fate.1.now ≤ limit) (ahead : w.now + d ≤ due) :
    Fetching terms limit before key reader (.producing due outcome) fate (w.apply (.pass d)) := by
  have now : w.now + d ≤ limit := Int.le_trans ahead (h.due_eq ▸ within)
  rw [h.toUpkeep.pass now]
  cases h.underway with
  | producing busy called _ copied =>
      exact { h with now, underway := .producing busy called ahead copied }

/-- **A read waits for its production, and for nothing else.** -/
theorem Serving.waits (h : Serving terms limit before key fate w) (reachable : Reachable w)
    (settled : w.IsSettled) :
    ∃ reader due outcome, Fetching terms limit before key reader (.producing due outcome) fate w
      ∧ due ∈ w.timers := by
  have waiting {reader : Reader} (alone : w.seats = [⟨key, .read, reader⟩]) :
      reader.isReady w.cache = false :=
    settled.reader reachable.attended (s := ⟨key, .read, reader⟩) (by simp [alone]) (by simp)
  cases h with
  | asking h =>
      have idle := waiting h.seats
      cases h.asks <;> cases idle
  | answered h =>
      have idle := waiting h.seats
      obtain ⟨answer, answered, _⟩ := h.answered
      rcases Reader.awaits?_eq_some_iff.mp h.awaits with stage | stage <;>
        simp [Reader.isReady, stage, Dispatcher.hasAnswered, answered] at idle
  | @fetching reader progress h =>
      have stuck : w.canStep (.alone w.cache.dispatcher.latest progress) = false := by
        have idle := settled (.attempt w.cache.dispatcher.latest)
          (by simp [actors, h.attempted, Attempt.alone])
        simpa [isReady, Dispatcher.attempt?, h.attempted, Attempt.alone] using idle
      cases h.underway with
      -- at every other stage the attempt takes its step at once
      | launched | queued | reporting | answering => cases stuck
      | @producing due outcome =>
          refine ⟨reader, due, outcome, h, List.mem_append_right _ ?_⟩
          simp [h.attempted, Attempt.alone, Attempt.timer?]

/-- Time passes, and the read is still on its way. -/
theorem Serving.pass (h : Serving terms limit before key fate w) (reachable : Reachable w)
    (within : fate.1.now ≤ limit) {d : Duration} (idles : w.Idles none d) :
    Serving terms limit before key fate (w.apply (.pass d)) := by
  obtain ⟨reader, due, outcome, fetching, timer⟩ := h.waits reachable idles.settled
  exact .fetching (fetching.later within (idles.timers due timer))

/-- While a read is on its way, it is not over. -/
theorem Serving.not_over (h : Serving terms limit before key fate w) : ¬ w.IsOver none := by
  obtain ⟨reader, alone⟩ := h.seats
  intro ended
  have reads := ended.1
  simp [hasReads, alone] at reads

/-! ## §8. The read can be awaited. -/

/-- A read whose attempt is about to report comes to its end. -/
theorem Fetching.ends_reporting {report : Report V}
    (h : Fetching terms limit before key reader (.reporting report) fate w)
    (last : ∀ p, Fulfilled terms limit before fate p → Ends none p) : Ends none w := by
  obtain ⟨answer, answers⟩ := h.reports
  exact ((Ends.move (last _ answers.answers.takes) rfl).move rfl).move rfl

/-- Until the production is due, nobody but the refresher can take a step. -/
theorem Fetching.settled {due : Instant} {outcome : ε → Instant → Outcome V}
    (h : Fetching terms limit before key reader (.producing due outcome) fate w)
    (idle : w.isRefresherReady = false) (early : w.now < due) : w.IsSettled := by
  intro actor listed
  simp only [actors, h.alone, h.attempted, List.map_cons, List.map_nil, List.mem_append, List.mem_cons,
    List.not_mem_nil, or_false] at listed
  rcases listed with (rfl | rfl) | rfl
  · exact idle
  · have unready : reader.isReady w.cache = false := by
      rcases Reader.awaits?_eq_some_iff.mp h.awaits with stage | stage <;>
        simp only [Reader.isReady, stage, h.unanswered]
    simp [isReady, seat?, h.alone, unready]
  · have stuck : w.canStep (.alone w.cache.dispatcher.latest (.producing due outcome)) = false :=
      decide_eq_false (Int.not_le.mpr early)
    simpa [isReady, Dispatcher.attempt?, h.attempted, Attempt.alone] using stuck

/-- A read that waits for a production comes to its end. -/
theorem Fetching.ends_producing {due : Instant} {outcome : ε → Instant → Outcome V}
    (h : Fetching terms limit before key reader (.producing due outcome) fate w)
    (within : fate.1.now ≤ limit) (last : ∀ p, Fulfilled terms limit before fate p → Ends none p) :
    Ends none w := by
  have waiting : Waiting terms limit none due
      (Fetching terms limit before key reader (.producing due outcome) fate) := by
    constructor
    case kept => exact fun p hp => hp.toUpkeep
    case within => exact h.due_eq ▸ within
    case pass => exact fun p d hp ahead => hp.later within ahead
    case sleeps => exact nofun
    case ahead =>
      intro p hp
      cases hp.underway with
      | producing _ _ ahead _ => exact ahead
    case chore =>
      intro p m hp chore
      obtain ⟨_, _, _, same, t⟩ := hp.minds chore
      rw [same]
      exact hp.tended t
    case rests =>
      intro p hp idle early
      exact ⟨hp.settled idle early, (Serving.fetching hp).not_over⟩
    case timers =>
      intro p hp a ha t timer
      rw [hp.attempted, List.mem_singleton] at ha
      subst ha
      exact Int.le_of_eq (Option.some.inj timer)
    case arrived =>
      intro p hp _ now
      obtain ⟨_, reports⟩ := hp.produces (Int.le_of_eq now.symm)
      exact (reports.ends_reporting last).move rfl
  exact waiting.ends h

/-- A read whose attempt is about to call the source comes to its end. -/
theorem Fetching.ends_queued (h : Fetching terms limit before key reader .queued fate w)
    (within : fate.1.now ≤ limit) (last : ∀ p, Fulfilled terms limit before fate p → Ends none p) :
    Ends none w := by
  rcases h.calls with ⟨_, _, waits⟩ | ⟨_, crashed⟩
  · exact (waits.ends_producing within last).move rfl
  · exact (crashed.ends_reporting last).move rfl

/-- A read that is served by an attempt comes to its end. -/
theorem Fetching.ends {progress : Attempt.Progress ε V}
    (h : Fetching terms limit before key reader progress fate w) (within : fate.1.now ≤ limit)
    (last : ∀ p, Fulfilled terms limit before fate p → Ends none p) : Ends none w := by
  cases underway : h.underway with
  | launched => exact (h.starts.ends_queued within last).move rfl
  | queued => exact h.ends_queued within last
  | producing => exact h.ends_producing within last
  | reporting => exact h.ends_reporting last
  | answering => exact (Ends.move (last _ h.answers.takes) rfl).move rfl

/-- A read that looks comes to its end. -/
theorem Asking.ends_looking (h : Asking terms limit before key reader fate w) (reachable : Reachable w)
    (stage : reader.stage = .looking) (within : fate.1.now ≤ limit)
    (last : ∀ p, Fulfilled terms limit before fate p → Ends none p) : Ends none w := by
  rcases h.looks reachable stage with ⟨_, fetching⟩ | fulfilled
  · exact (fetching.ends within last).move rfl
  · exact (last _ fulfilled).move rfl

/-- **A read comes to its end**, however far it has come. -/
theorem Serving.ends (h : Serving terms limit before key fate w) (reachable : Reachable w)
    (within : fate.1.now ≤ limit) (last : ∀ p, Fulfilled terms limit before fate p → Ends none p) :
    Ends none w := by
  cases h with
  | fetching h => exact h.ends within last
  | answered h => exact (last _ h.takes).move rfl
  | asking h =>
      cases asks : h.asks with
      | subscribing =>
          exact ((h.shows rfl).ends_looking (reachable.move _) rfl within last).move rfl
      | looking => exact h.ends_looking reachable rfl within last
      | demanding =>
          obtain ⟨_, fetching⟩ := h.demands reachable rfl
          exact (fetching.ends within last).move rfl

end World

end SingleFlight
