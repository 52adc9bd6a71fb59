/-
  SingleFlight.Proofs.Outcomes — what becomes of every attempt.

  A launch is counted once, and from then on one of three things is true of the
  attempt: it has not reported yet, it has died over a first item that nobody
  can copy, or it has made a first report, which the cache counted or dropped.
  `outcomes_balance` says so for every run, with the attempts themselves and
  not with their number only.  A stream goes on to report, and every later item
  is counted with the same counters; so these count the reports that were taken
  in, and not the attempts.

  Main results:
    * `Balance.stepped` — what a step of an attempt adds to the counters.
    * `balance_apply`, `balance_run` — nobody is counted twice, or forgotten.
    * `outcomes_balance` — when the outcomes are no more than the launches.
-/
import SingleFlight.Proofs.Holding
import SingleFlight.Proofs.Ledger
import SingleFlight.Proofs.LostAttempt

namespace SingleFlight

variable {ε V : Type}

open Dispatcher (Orderly)

/-! ## §1. Reports and deaths along a run. -/

/-- Whether the attempt has not reported anything yet. -/
def Attempt.isSilent (a : Attempt ε V) : Bool := a.item == 0 && !a.isAnswering

/-- A report that was made, and how the cache took it. -/
structure Statement (V : Type) where
  attempt : Nat
  item : Nat
  report : Report V
  verdict : Verdict

namespace Statement

/-- Whether the report was of the first item of its attempt. -/
def isFirst (s : Statement V) : Bool := s.item == 0

/-- Whether the report was dropped. -/
def isDropped (s : Statement V) : Bool := s.verdict == .superseded

/-- Whether a value was counted. -/
def isSuccess (s : Statement V) : Bool := s.report.isOk && !s.isDropped

/-- Whether a failure was counted. -/
def isFailure (s : Statement V) : Bool := !s.report.isOk && !s.isDropped

/-- Whether a value was counted and not stored. -/
def isDiscarded (s : Statement V) : Bool := s.report.isOk && s.verdict == .discarded

/-- Whether a later item was counted. -/
def isExtra (s : Statement V) : Bool := !s.isFirst && !s.isDropped

end Statement

/-- The attempts that made these first reports. -/
def firsts (said : List (Statement V)) : List Nat := (said.filter Statement.isFirst).map Statement.attempt

namespace World

/-- What the attempt says to the cache with its next step. -/
def utters (w : World ε V) (a : Attempt ε V) : Option (Statement V) :=
  (w.reported? a.number).map fun (report, verdict) => ⟨a.number, a.item, report, verdict⟩

/-- The report that a move makes. -/
def statement? (w : World ε V) : Move ε V → Option (Statement V)
  | .attempt number => (w.cache.dispatcher.attempt? number).bind w.utters
  | _ => none

/-- The reports along a run, oldest first. -/
def statements (w : World ε V) (moves : List (Move ε V)) : List (Statement V) :=
  w.observed statement? moves

/-- Whether the attempt dies with its next step, and has not reported before: its first item cannot be
copied. -/
def perishes (w : World ε V) (a : Attempt ε V) : Bool :=
  match w.gives a with
  | some (.came .uncopyable) => a.item == 0
  | _ => false

/-- The attempt that dies with a move without a report. -/
def death? (w : World ε V) : Move ε V → Option Nat
  | .attempt number => (w.cache.dispatcher.attempt? number).bind fun a =>
    if w.perishes a then some a.number else none
  | _ => none

/-- The attempts that die along a run without a report, oldest first. -/
def deaths (w : World ε V) (moves : List (Move ε V)) : List Nat := w.observed death? moves

/-- The attempt that a move launches. -/
def launched? (w : World ε V) (m : Move ε V) : Option Nat :=
  if w.launches m then some (w.apply m).cache.dispatcher.latest else none

/-- The attempts that are launched along a run, oldest first. -/
def launchings (w : World ε V) (moves : List (Move ε V)) : List Nat := w.observed launched? moves

/-- The attempts on the list that have not reported yet. -/
def silent (w : World ε V) : List Nat :=
  (w.cache.dispatcher.running.filter Attempt.isSilent).map (·.number)

theorem count_silent (w : World ε V) (n : Nat) :
    w.silent.count n
      = w.cache.dispatcher.running.countP fun b => b.isSilent && b.number == n := by
  rw [silent, List.count, List.countP_map, List.countP_filter]
  refine List.countP_congr fun b _ => ?_
  rw [Bool.and_comm]
  rfl

/-! ## §2. What a move adds. -/

/-- How the world `w'` came of `w`, in which the attempts `fresh` were launched meanwhile, the reports `said`
were made and the attempts `dead` died without one.  A launch is counted once, a report is unless it was
dropped, and a value that was counted is stored or discarded.  And nobody gets lost: who had not reported,
or was launched, has made a first report, is dead, or has not reported yet. -/
structure Balance (w w' : World ε V) (fresh : List Nat) (said : List (Statement V)) (dead : List Nat) :
    Prop where
  fetches : w'.cache.cell.counters.fetches = w.cache.cell.counters.fetches + fresh.length
  successes : w'.cache.cell.counters.successes
    = w.cache.cell.counters.successes + said.countP Statement.isSuccess
  failures : w'.cache.cell.counters.failures
    = w.cache.cell.counters.failures + said.countP Statement.isFailure
  revision : w'.cache.cell.revision + said.countP Statement.isDiscarded
    = w.cache.cell.revision + said.countP Statement.isSuccess
  attempts : ∀ n, w.silent.count n + fresh.count n
    = (firsts said).count n + dead.count n + w'.silent.count n

theorem Balance.trans {w w' w'' : World ε V} {fresh fresh' : List Nat} {said said' : List (Statement V)}
    {dead dead' : List Nat} (h : Balance w w' fresh said dead) (h' : Balance w' w'' fresh' said' dead') :
    Balance w w'' (fresh ++ fresh') (said ++ said') (dead ++ dead') where
  fetches := by rw [h'.fetches, h.fetches, List.length_append, Nat.add_assoc]
  successes := by rw [h'.successes, h.successes, List.countP_append, Nat.add_assoc]
  failures := by rw [h'.failures, h.failures, List.countP_append, Nat.add_assoc]
  revision := by
    have first := h.revision
    have second := h'.revision
    simp only [List.countP_append]
    omega
  attempts n := by
    have first := h.attempts n
    have second := h'.attempts n
    have both : firsts (said ++ said') = firsts said ++ firsts said' := by
      simp only [firsts, List.filter_append, List.map_append]
    simp only [both, List.count_append]
    omega

/-- A move that launches nobody, and makes nobody report or die. -/
theorem Balance.quiet {w w' : World ε V} (cell : w'.cache.cell.counters.fetches = w.cache.cell.counters.fetches
      ∧ w'.cache.cell.counters.successes = w.cache.cell.counters.successes
      ∧ w'.cache.cell.counters.failures = w.cache.cell.counters.failures
      ∧ w'.cache.cell.revision = w.cache.cell.revision)
    (running : w'.cache.dispatcher.running = w.cache.dispatcher.running) : Balance w w' [] [] [] := by
  obtain ⟨fetches, successes, failures, revision⟩ := cell
  refine ⟨fetches, successes, failures, revision, fun n => ?_⟩
  rw [count_silent, count_silent, running]
  exact Nat.add_comm _ _

/-- Whoever has answered has reported. -/
theorem spoken_of_answered {d : Dispatcher ε V} {now : Instant} (orderly : Orderly now d) {b : Attempt ε V}
    (hb : b ∈ d.running) (answered : d.hasAnswered b.number = true) : b.isSilent = false := by
  have fits := orderly.fits b hb
  -- it has turned to the source, and is beyond its first item
  have item : b.item ≠ 0 := by
    by_cases executes : b.isExecuting = true
    · exact (fits.executes executes).delivered.mp answered
    · have unanswered := (fits.queues (by simpa using executes)).unanswered
      rw [answered] at unanswered
      cases unanswered
  simp [Attempt.isSilent, item]

/-- A launch stops nobody who has not reported. -/
theorem silent_clear {d : Dispatcher ε V} {now : Instant} (orderly : Orderly now d) (n : Nat) :
    d.clear.running.countP (fun b => b.isSilent && b.number == n)
      = d.running.countP (fun b => b.isSilent && b.number == n) :=
  Dispatcher.countP_dismiss fun b hb stopped => by
    rw [spoken_of_answered orderly hb (orderly.answeredStream stopped).2, Bool.false_and]

/-- A section of a reader counts what it launches, and whoever is launched has not reported yet. -/
theorem Balance.billed {w w' : World ε V} (ordered : Ordered w) {c : Cache ε V}
    {fresh : Option (Attempt ε V)} (b : Cache.Billed w.cache w.now fresh c) (cell : w'.cache.cell = c.cell)
    (dispatcher : w'.cache.dispatcher = c.dispatcher) :
    Balance w w' (fresh.map (·.number)).toList [] [] := by
  have length : (fresh.map (·.number)).toList.length = fresh.toList.length := by cases fresh <;> rfl
  refine ⟨?_, cell ▸ b.successes, cell ▸ b.failures, cell ▸ b.revision, fun n => ?_⟩
  · rw [cell, length]
    exact b.fetches
  · obtain ⟨kept, same, running⟩ := b.running
    have stays : kept.countP (fun b => b.isSilent && b.number == n)
        = w.cache.dispatcher.running.countP (fun b => b.isSilent && b.number == n) := by
      rcases same with rfl | rfl
      · rfl
      · exact silent_clear ordered.dispatcher n
    have launched : fresh.toList.countP (fun b => b.isSilent && b.number == n)
        = (fresh.map (·.number)).toList.count n := by
      cases fresh with
      | none => rfl
      | some a =>
          rw [b.newest a rfl]
          rfl
    rw [count_silent, count_silent, dispatcher, running, List.countP_append, stays, launched]
    simp [firsts]

/-- The cache `c'` is what `c` became when the report `s` was taken in, or dropped. -/
structure Counted (c c' : Cache ε V) (s : Statement V) : Prop where
  dispatcher : c'.dispatcher = c.dispatcher
  fetches : c'.cell.counters.fetches = c.cell.counters.fetches
  successes : c'.cell.counters.successes
    = c.cell.counters.successes + [s].countP Statement.isSuccess
  failures : c'.cell.counters.failures
    = c.cell.counters.failures + [s].countP Statement.isFailure
  revision : c'.cell.revision + [s].countP Statement.isDiscarded
    = c.cell.revision + [s].countP Statement.isSuccess

theorem counted_dropped (c : Cache ε V) (n item : Nat) (report : Report V) :
    Counted c c ⟨n, item, report, .superseded⟩ := by
  cases report <;> exact ⟨rfl, rfl, rfl, rfl, rfl⟩

theorem counted_take (c : Cache ε V) (now : Instant) (n item : Nat) (report : Report V) :
    Counted c (c.take now n item report).1 ⟨n, item, report, (c.take now n item report).2⟩ := by
  unfold Cache.take
  split
  · exact counted_dropped c n item report
  · cases report with
    | error failure => exact ⟨rfl, rfl, rfl, rfl, rfl⟩
    | ok content =>
        dsimp only
        split <;> exact ⟨rfl, rfl, rfl, rfl, rfl⟩

/-- What a report makes of the world. -/
theorem report_counted {w : World ε V} {a : Attempt ε V} {report : Report V}
    (running : w.cache.dispatcher.attempt? a.number = some a) (reporting : a.progress = .reporting report) :
    ∃ c s answer continues, w.utters a = some s ∧ s.attempt = a.number ∧ s.item = a.item
      ∧ Counted w.cache c s
      ∧ w.report a report = { w with cache := c }.advanceTo a (.answering answer continues) := by
  have said := reported?_eq running reporting
  unfold utters World.report
  rw [said]
  cases w.isCacheAlive with
  | false => exact ⟨_, _, _, _, rfl, rfl, rfl, counted_dropped w.cache a.number a.item report, rfl⟩
  | true => exact ⟨_, _, _, _, rfl, rfl, rfl, counted_take w.cache w.now a.number a.item report, rfl⟩

/-- An attempt that reports is silent no more. -/
theorem Balance.reported {w : World ε V} (ordered : Ordered w) {a : Attempt ε V} {report : Report V}
    (ha : a ∈ w.cache.dispatcher.running) (reporting : a.progress = .reporting report) :
    Balance w (w.report a report) [] (w.utters a).toList [] := by
  obtain ⟨c, s, answer, continues, said, attempt, item, counted, reported⟩ :=
    report_counted (ordered.dispatcher.attempt?_of_mem ha) reporting
  rw [said, reported]
  refine ⟨counted.fetches, counted.successes, counted.failures, counted.revision, fun n => ?_⟩
  have same : ({ a with progress := .answering answer continues } : Attempt ε V).number = a.number := rfl
  have moved := Dispatcher.countP_update ordered.dispatcher.sorted ha same fun b => b.isSilent && b.number == n
  have own : [a].countP (fun b => b.isSilent && b.number == n) = (firsts [s]).count n := by
    by_cases first : a.item = 0
    · simp [firsts, Statement.isFirst, Attempt.isSilent, Attempt.isAnswering, reporting, first, item,
        attempt, List.count_cons, List.countP_cons]
    · simp [firsts, Statement.isFirst, Attempt.isSilent, first, item]
  have answered : [({ a with progress := .answering answer continues } : Attempt ε V)].countP
      (fun b => b.isSilent && b.number == n) = 0 := by
    simp [Attempt.isSilent, Attempt.isAnswering]
  have dispatcher : ({ w with cache := c }.advanceTo a (.answering answer continues)).cache.dispatcher
      = w.cache.dispatcher.update { a with progress := .answering answer continues } := by
    show c.dispatcher.update _ = _
    rw [counted.dispatcher]
  rw [count_silent, count_silent, dispatcher]
  simp only [Option.toList_some, List.count_nil]
  omega

/-- An attempt that dies over its first item is silent no more. -/
theorem Balance.died {w : World ε V} (ordered : Ordered w) {a : Attempt ε V}
    (ha : a ∈ w.cache.dispatcher.running) (gives : w.gives a = some (.came .uncopyable)) :
    Balance w (w.stepAttempt a) [] [] (if w.perishes a then some a.number else none).toList := by
  obtain ⟨dies, unanswering⟩ := stepAttempt_uncopyable gives
  rw [dies]
  refine ⟨rfl, rfl, rfl, rfl, fun n => ?_⟩
  have moved := Dispatcher.countP_retire ordered.dispatcher.sorted ha fun b => b.isSilent && b.number == n
  have own : [a].countP (fun b => b.isSilent && b.number == n)
      = (if w.perishes a then some a.number else none).toList.count n := by
    by_cases first : a.item = 0 <;>
      simp [Attempt.isSilent, perishes, gives, first, unanswering, List.count_cons, List.countP_cons]
  have dispatcher : ({ w with produced := w.produced + 1 }.withDispatcher
        (·.lose a.number)).cache.dispatcher.running = (w.cache.dispatcher.retire a.number).running :=
    (Dispatcher.noteAnswer_frame _ _ _).1
  rw [count_silent, count_silent, dispatcher]
  simp only [firsts, List.filter_nil, List.map_nil, List.count_nil]
  omega

/-- Any other step of an attempt leaves it as silent as it was. -/
theorem Turn.silent_left {w w' : World ε V} {a : Attempt ε V} {left : Option (Attempt ε V)}
    (t : Turn w a w' left) (ordered : Ordered w) (ha : a ∈ w.cache.dispatcher.running)
    (unreported : ∀ report, a.progress ≠ .reporting report)
    (lives : w.gives a ≠ some (.came .uncopyable)) (n : Nat) :
    left.toList.countP (fun b => b.isSilent && b.number == n)
      = [a].countP (fun b => b.isSilent && b.number == n) := by
  cases t with
  | rest => rfl
  | wait waiting hp =>
      have unanswering : a.isAnswering = false := by
        unfold Attempt.isExecuting at waiting
        unfold Attempt.isAnswering
        split <;> simp_all
      rcases hp with rfl | ⟨t, rfl⟩ <;>
        simp [Attempt.isSilent, unanswering, List.countP_cons] <;> simp [Attempt.isAnswering]
  | unbound _ absent =>
      have bound := (ordered.dispatcher.bound_of_mem ha).2
      rw [absent] at bound
      cases bound
  | refused queued | opened queued => simp [Attempt.isSilent, Attempt.isAnswering, queued, List.countP_cons]
  | called queued ready hp =>
      rcases hp with rfl | ⟨due, outcome, rfl⟩ <;>
        simp [Attempt.isSilent, Attempt.isAnswering, queued, List.countP_cons]
  | asked asking hp =>
      rcases hp with ⟨due, outcome, rfl⟩ | rfl | ⟨rfl, _⟩ <;>
        simp [Attempt.isSilent, Attempt.isAnswering, asking, List.countP_cons]
  | came producing => simp [Attempt.isSilent, Attempt.isAnswering, producing, List.countP_cons]
  | finished asking item => simp [Attempt.isSilent, item]
  | died _ gives => exact absurd gives lives
  | ignored reporting | stored reporting | discarded reporting | failed reporting =>
      exact absurd reporting (unreported _)
  | resumed answering | ended answering => simp [Attempt.isSilent, Attempt.isAnswering, answering]

/-- Only an attempt that is about to report does. -/
theorem statement?_eq_some {w : World ε V} {m : Move ε V} {s : Statement V} (h : w.statement? m = some s) :
    ∃ a, m = .attempt a.number ∧ w.cache.dispatcher.attempt? a.number = some a
      ∧ a.progress = .reporting s.report
      ∧ s = ⟨a.number, a.item, s.report,
        if w.isCacheAlive then (w.cache.take w.now a.number a.item s.report).2 else .superseded⟩ := by
  cases m with
  | attempt number =>
      obtain ⟨a, running, said⟩ := Option.bind_eq_some_iff.mp h
      obtain rfl := (Dispatcher.attempt?_mem running).2
      obtain ⟨⟨report, verdict⟩, reported, rfl⟩ := Option.map_eq_some_iff.mp said
      unfold reported? at reported
      rw [running] at reported
      dsimp only at reported
      split at reported
      next reporting =>
        obtain ⟨rfl, rfl⟩ := Prod.mk.inj (Option.some.inj reported)
        exact ⟨a, rfl, running, reporting, rfl⟩
      next => cases reported
  | _ => cases h

/-- Who does not report says nothing. -/
theorem utters_eq_none {w : World ε V} {a : Attempt ε V} (running : w.cache.dispatcher.attempt? a.number = some a)
    (unreported : ∀ report, a.progress ≠ .reporting report) : w.utters a = none := by
  have silent : w.reported? a.number = none := by
    unfold reported?
    rw [running]
    dsimp only
    split
    next reporting => exact absurd reporting (unreported _)
    next => rfl
  rw [utters, silent, Option.map_none]

/-- **A step of an attempt leaves the books balanced.** -/
theorem Balance.stepped {w : World ε V} (ordered : Ordered w) {a : Attempt ε V}
    (ha : a ∈ w.cache.dispatcher.running) :
    Balance w (w.stepAttempt a) [] (w.utters a).toList
      (if w.perishes a then some a.number else none).toList := by
  have running := ordered.dispatcher.attempt?_of_mem ha
  -- it reports, or dies over its first item, or leaves the cell alone and is as silent as before
  by_cases reports : ∃ report, a.progress = .reporting report
  · obtain ⟨report, reporting⟩ := reports
    have lives : w.perishes a = false := by simp [perishes, gives, reporting]
    rw [← apply_attempt running, apply_report running reporting, lives]
    exact Balance.reported ordered ha reporting
  · have unreported (report : Report V) : a.progress ≠ .reporting report := fun own => reports ⟨report, own⟩
    rw [utters_eq_none running unreported]
    by_cases dies : w.gives a = some (.came .uncopyable)
    · exact Balance.died ordered ha dies
    · have lives : w.perishes a = false := by
        unfold perishes
        split
        next uncopyable => exact absurd uncopyable dies
        next => rfl
      obtain ⟨left, t⟩ := stepAttempt_turn w a
      have cell := t.cell_of_silent unreported
      rw [lives]
      refine ⟨by rw [cell]; rfl, by rw [cell]; rfl, by rw [cell]; rfl, by rw [cell]; rfl, fun n => ?_⟩
      have moved := t.countP (p := fun b => b.isSilent && b.number == n) ordered.dispatcher ha
        fun queued ready b hb replaced => by
          have q := (ordered.dispatcher.fits a ha).queues (by simp [Attempt.isExecuting, queued])
          rw [spoken_of_answered ordered.dispatcher hb (ordered.dispatcher.stopped q ready b hb replaced),
            Bool.false_and]
      have kept := t.silent_left ordered ha unreported dies n
      rw [count_silent, count_silent]
      simp only [firsts, Option.toList_none, List.filter_nil, List.map_nil, List.count_nil,
        Bool.false_eq_true, if_false]
      omega

theorem launched?_eq_none {w : World ε V} {m : Move ε V}
    (same : (w.apply m).cache.dispatcher.latest = w.cache.dispatcher.latest) : w.launched? m = none := by
  simp [launched?, launches, same]

/-- The attempt that a section of a reader launches. -/
theorem launched?_billed {w : World ε V} {m : Move ε V} {c : Cache ε V} {fresh : Option (Attempt ε V)}
    (b : Cache.Billed w.cache w.now fresh c) (cell : (w.apply m).cache.cell = c.cell)
    (dispatcher : (w.apply m).cache.dispatcher = c.dispatcher) :
    w.launched? m = fresh.map (·.number) := by
  have busy : c.cell.phase.isCalculating = true ↔ c.cell.phase = .calculating :=
    ⟨Phase.eq_calculating, fun phase => by rw [phase]; rfl⟩
  have launches : w.launches m = fresh.isSome := by
    rw [Bool.eq_iff_iff, ← b.launched, World.launches, cell, dispatcher, Bool.and_eq_true, bne_iff_ne, busy]
  rw [launched?, launches]
  cases fresh with
  | none => rfl
  | some a =>
      rw [dispatcher, b.latest rfl, b.newest a rfl]
      rfl

/-- **Every move leaves the books balanced.** -/
theorem balance_apply {w : World ε V} (reachable : Reachable w) (m : Move ε V) :
    Balance w (w.apply m) (w.launched? m).toList (w.statement? m).toList (w.death? m).toList := by
  have ordered := reachable.ordered
  by_cases stepped : ∃ a, m = .attempt a.number ∧ w.cache.dispatcher.attempt? a.number = some a
  · obtain ⟨a, rfl, running⟩ := stepped
    have ha := (Dispatcher.attempt?_mem running).1
    obtain ⟨left, t⟩ := stepAttempt_turn w a
    have applied := apply_attempt running
    rw [launched?_eq_none (applied ▸ (t.progressed ordered.dispatcher ha).kept.latest)]
    simp only [statement?, death?, running, Option.bind_some, applied]
    exact .stepped ordered ha
  · -- nobody but an attempt that takes a step reports, or dies
    have unsaid : w.statement? m = none ∧ w.death? m = none := by
      cases m with
      | attempt number =>
          cases running : w.cache.dispatcher.attempt? number with
          | none => simp only [statement?, death?, running, Option.bind_none, and_self]
          | some a =>
              obtain rfl := (Dispatcher.attempt?_mem running).2
              exact absurd ⟨a, rfl, running⟩ stepped
      | _ => exact ⟨rfl, rfl⟩
    rw [unsaid.1, unsaid.2]
    have s := apply_step w m
    have quiet (cell : (w.apply m).cache.cell.counters.fetches = w.cache.cell.counters.fetches
          ∧ (w.apply m).cache.cell.counters.successes = w.cache.cell.counters.successes
          ∧ (w.apply m).cache.cell.counters.failures = w.cache.cell.counters.failures
          ∧ (w.apply m).cache.cell.revision = w.cache.cell.revision)
        (running : (w.apply m).cache.dispatcher.running = w.cache.dispatcher.running)
        (latest : (w.apply m).cache.dispatcher.latest = w.cache.dispatcher.latest) :
        Balance w (w.apply m) (w.launched? m).toList [] [] := by
      rw [launched?_eq_none latest]
      exact .quiet cell running
    have billed {c : Cache ε V} {fresh : Option (Attempt ε V)} (b : Cache.Billed w.cache w.now fresh c)
        (cell : (w.apply m).cache.cell = c.cell) (dispatcher : (w.apply m).cache.dispatcher = c.dispatcher) :
        Balance w (w.apply m) (w.launched? m).toList [] [] := by
      rw [launched?_billed b cell dispatcher]
      exact .billed ordered b cell dispatcher
    generalize w.apply m = w' at s quiet billed ⊢
    cases s with
    | aside ha | dropReader ha =>
        refine quiet ?_ (congrArg Dispatcher.running ha.dispatcher) (congrArg Dispatcher.latest ha.dispatcher)
        rw [ha.cell]
        exact ⟨rfl, rfl, rfl, rfl⟩
    | @invalidate asided ha | @poke asided ha =>
        refine quiet ?_ (congrArg Dispatcher.running ha.dispatcher) (congrArg Dispatcher.latest ha.dispatcher)
        have cell : asided.cache.cell = w.cache.cell := ha.cell
        exact ⟨congrArg (·.counters.fetches) cell, congrArg (·.counters.successes) cell,
          congrArg (·.counters.failures) cell, congrArg (·.revision) cell⟩
    | pass | bind | openReader | follow => exact quiet ⟨rfl, rfl, rfl, rfl⟩ rfl rfl
    | subscribe =>
        obtain ⟨fresh, b⟩ := w.cache.subscribe_billed w.now
        exact billed b rfl rfl
    | @reader seat _ own seated ha =>
        obtain ⟨fresh, b⟩ := seat.reader.step_billed w.cache w.now
        exact billed b ha.cell ha.dispatcher
    | attempt own running => exact absurd ⟨_, own, running⟩ stepped

/-- **The books are balanced after every run.** -/
theorem balance_run {w : World ε V} (reachable : Reachable w) (moves : List (Move ε V)) :
    Balance w (w.run moves) (w.launchings moves) (w.statements moves) (w.deaths moves) := by
  induction moves generalizing w with
  | nil => exact .quiet ⟨rfl, rfl, rfl, rfl⟩ rfl
  | cons m moves ih => exact (balance_apply reachable m).trans (ih (reachable.move m))

/-! ## §3. Launches and outcomes. -/

/-- What is launched along a run bears new numbers. -/
theorem launchings_range {w : World ε V} (reachable : Reachable w) (moves : List (Move ε V)) :
    ∀ n ∈ w.launchings moves, w.cache.dispatcher.latest < n := by
  induction moves generalizing w with
  | nil => exact fun n launched => nomatch launched
  | cons m moves ih =>
      intro n launched
      have latest := ((apply_step w m).remembers reachable.ordered).latest
      rcases List.mem_append.mp launched with now | later
      · unfold launched? at now
        split at now
        next launches =>
          have newer := (Bool.and_eq_true_iff.mp launches).1
          rw [bne_iff_ne] at newer
          rw [List.mem_singleton.mp now]
          exact Nat.lt_of_le_of_ne latest newer.symm
        next => cases now
      · exact Nat.lt_of_le_of_lt latest (ih (reachable.move m) n later)

/-- **Nobody is launched twice.** -/
theorem launchings_increase {w : World ε V} (reachable : Reachable w) (moves : List (Move ε V)) :
    (w.launchings moves).Pairwise (· < ·) := by
  induction moves generalizing w with
  | nil => exact .nil
  | cons m moves ih =>
      have later := launchings_range (reachable.move m) moves
      have increase := ih (reachable.move m)
      show ((w.launched? m).toList ++ (w.apply m).launchings moves).Pairwise (· < ·)
      unfold launched?
      split
      · exact List.pairwise_cons.mpr ⟨later, increase⟩
      · exact increase

end World

/-- A report that was counted is the first of its attempt, or one too many; a first report was counted or
dropped. -/
theorem countP_outcomes (said : List (Statement V)) :
    said.countP Statement.isSuccess + said.countP Statement.isFailure
        + said.countP (fun s => s.isFirst && s.isDropped)
      = (firsts said).length + said.countP Statement.isExtra := by
  rw [firsts, List.length_map, ← List.countP_eq_length_filter]
  induction said with
  | nil => rfl
  | cons s said ih =>
      -- a report adds as much on either side, of whichever kind it is
      have one : (s.isSuccess.toNat + s.isFailure.toNat + (s.isFirst && s.isDropped).toNat)
          = s.isFirst.toNat + s.isExtra.toNat := by
        unfold Statement.isSuccess Statement.isFailure Statement.isExtra
        cases s.report.isOk <;> cases s.isFirst <;> cases s.isDropped <;> rfl
      have counts (p : Statement V → Bool) : (s :: said).countP p = said.countP p + (p s).toNat := by
        rw [List.countP_cons]
        cases p s <;> rfl
      rw [counts, counts, counts, counts, counts]
      omega

namespace World

/-- Where no source offers sequences nobody reports a later item. -/
theorem first_of_single {w : World ε V} (reachable : Reachable w) {moves : List (Move ε V)}
    (single : IsOneShot (w.run moves)) : ∀ s ∈ w.statements moves, s.isFirst = true := by
  induction moves generalizing w with
  | nil => exact fun s said => nomatch said
  | cons m moves ih =>
      intro s said
      rcases List.mem_append.mp said with now | later
      · obtain ⟨a, _, running, _, same⟩ := statement?_eq_some (Option.mem_toList.mp now)
        have ha := (Dispatcher.attempt?_mem running).1
        have atEnd : IsOneShot (w.run (m :: moves)) := single
        have before : IsOneShot w := .of_run reachable atEnd
        have sealed := (reachable.ordered.dispatcher.bound_of_mem ha).1
        rw [same]
        exact beq_iff_eq.mpr (reachable.ordered.first (before sealed) ha).1
      · exact ih (reachable.move m) single s later

/-- **What becomes of every attempt, and what the counters make of it.**  In every run, whatever source is
bound: each launch counts one fetch; each attempt that was launched has made one first report, has died
without one, or has not reported yet; the counters count the reports that were not dropped, be they first or
later ones.  So the outcomes are no more than the fetches exactly if the later items that were counted are no
more than the first reports that were dropped, the attempts that died and those that have not reported yet;
and without a stream there are no later items. -/
theorem outcomes_balance {w₀ : World ε V} (initial : Initial w₀) (moves : List (Move ε V)) :
    let w := w₀.run moves
    let counters := w.cache.cell.counters
    let said := w₀.statements moves
    let unreported := said.countP (fun s => s.isFirst && s.isDropped) + (w₀.deaths moves).length
      + w.silent.length
    counters.fetches = (w₀.launchings moves).length
      ∧ (w₀.launchings moves).Pairwise (· < ·)
      ∧ (firsts said ++ w₀.deaths moves ++ w.silent).Perm (w₀.launchings moves)
      ∧ counters.successes = said.countP Statement.isSuccess
      ∧ counters.failures = said.countP Statement.isFailure
      ∧ counters.fetches + said.countP Statement.isExtra
        = counters.successes + counters.failures + unreported
      ∧ (counters.successes + counters.failures ≤ counters.fetches
          ↔ said.countP Statement.isExtra ≤ unreported)
      ∧ (IsOneShot w → said.countP Statement.isExtra = 0) := by
  intro w counters said unreported
  have reachable := Reachable.initial initial
  have balance := balance_run reachable moves
  -- at the beginning nothing was counted, so what was added is the whole
  have fresh : w₀.silent = [] ∧ w₀.cache.cell.counters = {} := by
    cases initial <;> exact ⟨rfl, rfl⟩
  have counted {p : Counters → Nat} (none : p {} = 0) {k : Nat}
      (added : p counters = p w₀.cache.cell.counters + k) : p counters = k := by
    rw [added, fresh.2, none, Nat.zero_add]
  have fetches : counters.fetches = (w₀.launchings moves).length := counted rfl balance.fetches
  have successes : counters.successes = said.countP Statement.isSuccess := counted rfl balance.successes
  have failures : counters.failures = said.countP Statement.isFailure := counted rfl balance.failures
  have attempts : (firsts said ++ w₀.deaths moves ++ w.silent).Perm (w₀.launchings moves) := by
    refine List.perm_iff_count.mpr fun n => ?_
    have own := balance.attempts n
    rw [fresh.1, List.count_nil, Nat.zero_add] at own
    rw [List.count_append, List.count_append]
    exact own.symm
  have lengths := attempts.length_eq
  rw [List.length_append, List.length_append] at lengths
  have outcomes := countP_outcomes said
  have sum : counters.fetches + said.countP Statement.isExtra
      = counters.successes + counters.failures + unreported := by omega
  refine ⟨fetches, launchings_increase reachable moves, attempts, successes, failures, sum, by omega,
    fun single => ?_⟩
  refine List.countP_eq_zero.mpr fun s hs => ?_
  simp [Statement.isExtra, first_of_single reachable single s hs]

/-- A stream is asked for its first two items. -/
def twoItems : List (Move Unit Nat) :=
  [.bind ticking, .openReader .once .read, .reader 0, .reader 0, .attempt 1, .attempt 1, .attempt 1,
    .attempt 1, .attempt 1, .attempt 1, .attempt 1, .attempt 1, .attempt 1]

theorem outcomes_balance_twoItems :
    let w₀ : World Unit Nat := .selfRefreshing ⟨.periodic 60000, .unpaced⟩ none ()
    let counters := (w₀.run twoItems).cache.cell.counters
    counters.fetches = 1 ∧ counters.fetches + 1 = counters.successes + counters.failures + 0 := by
  obtain ⟨_, _, _, _, _, sum, _, _⟩ :=
    outcomes_balance (.selfRefreshing ⟨.periodic 60000, .unpaced⟩ none ()) twoItems
  exact ⟨by decide, sum⟩

/-- **A stream counts a success for every item.**  One attempt is launched, and two successes are counted. -/
theorem second_item_counted :
    let w₀ : World Unit Nat := .selfRefreshing ⟨.periodic 60000, .unpaced⟩ none ()
    let w := w₀.run twoItems
    w.cache.dispatcher.IsStreaming ∧ w.cache.cell.counters.fetches = 1
      ∧ w.cache.cell.counters.successes = 2
      ∧ ¬ w.cache.cell.counters.successes + w.cache.cell.counters.failures
        ≤ w.cache.cell.counters.fetches := by
  exact ⟨⟨ticking, rfl, rfl⟩, by decide, by decide, by decide⟩

end World

end SingleFlight
