/-
  SingleFlight.Proofs.Recovery — what a failure leaves behind, and how the next read mends it.

  A source can fail in many ways, and every one of them comes to the cache as
  the same report.  Of the newest attempt it empties the cell and counts; of an
  older one it is ignored.  Neither touches the book on staleness, nor the
  source.  The empty cell is marked so that nobody fetches until somebody shows
  interest, which is the first thing that a read does.  The attempt that it
  launches is then expected by the cell until it reports, unless the value is
  thrown away: nobody else can launch in the meantime.

  Main results:
    * `reports_failure` — every way to fail ends in a report of the failure.
    * `Expected.run` — the cell expects an attempt until it has had its say.
    * `retries_of_invalid` — after a failure the next read fetches anew, and is
      given the value that it stores.
    * `failure_isolated` — what a failure changes, what it leaves alone, who is
      told of it, and what the next read does.
-/
import SingleFlight.Proofs.Dueness

namespace SingleFlight

variable {ε V : Type}

open Dispatcher (Orderly)

namespace World

/-! ## §1. Ways to fail. -/

/-- The failure that the attempt `n` reports of what it was given for an item: an error, a crash of the
call or of what it made, an end before the first item, an owner that is gone.  A value is no failure, nor
is the end of a sequence of items; and what cannot be copied is not reported. -/
def Yield.failure? (n item : Nat) : Yield V → Option Failure
  | came (.failed reason) => some (.fetchFailed n reason)
  | came .crashed => some (.fetchFailed n Failure.crashReason)
  | exhausted => if item = 0 then some (.fetchFailed n Failure.emptyReason) else none
  | ownerGone owner => some (.ownerGone owner)
  | came (.value _) | came .uncopyable => none

theorem Yield.report_of_failure {n item : Nat} {y : Yield V} {failure : Failure}
    (h : y.failure? n item = some failure) : y.report n item = .error failure := by
  unfold failure? at h
  split at h
  · cases h
    rfl
  · cases h
    rfl
  · split at h
    · cases h
      rfl
    · cases h
  · cases h
    rfl
  · cases h
  · cases h

/-- **Every way to fail ends in a report of the failure**, and nothing else comes of it before. -/
theorem reports_failure {w : World ε V} (h : Reachable w) {a : Attempt ε V}
    (running : w.cache.dispatcher.attempt? a.number = some a) {y : Yield V} (gives : w.gives a = some y)
    {failure : Failure} (fails : y.failure? a.number a.item = some failure) :
    let p := w.apply (.attempt a.number)
    p.cache.cell = w.cache.cell ∧ p.cache.staleness = w.cache.staleness
      ∧ p.cache.dispatcher.attempt? a.number
        = some { a with progress := .reporting (.error failure) } := by
  intro p
  obtain ⟨left, t⟩ := stepAttempt_turn w a
  rw [show p = w.stepAttempt a from apply_attempt running]
  have reports := Yield.report_of_failure fails
  have listed := (Dispatcher.attempt?_mem running).1
  -- an attempt that calls the source stops another one, and stays on the list itself
  have stays (queued : a.progress = .queued) :
      ((w.replaced a).cache.dispatcher.attempt? a.number).isSome = true := by
    refine Dispatcher.attempt?_isSome_iff.mpr ⟨a, Dispatcher.mem_dismiss_iff.mpr ⟨listed, ?_⟩, rfl⟩
    intro itself
    have queues := (h.ordered.dispatcher.fits a listed).queues (by simp [Attempt.isExecuting, queued])
    have before := queues.supersedes a.number itself
    omega
  have updated {d : Dispatcher ε V} (on : (d.attempt? a.number).isSome = true)
      (progress : Attempt.Progress ε V) :
      (d.update { a with progress }).attempt? a.number = some { a with progress } :=
    attempt?_update (a := { a with progress }) on
  have on : (w.cache.dispatcher.attempt? a.number).isSome = true := by rw [running]; rfl
  generalize w.stepAttempt a = w' at t
  cases t with
  | refused queued ready owner same =>
      cases gives.symm.trans same
      cases fails
      exact ⟨rfl, rfl, updated (stays queued) _⟩
  | called queued ready hp same =>
      rcases hp with rfl | ⟨due, outcome, rfl⟩
      · cases gives.symm.trans same
        cases fails
        exact ⟨rfl, rfl, updated (stays queued) _⟩
      · cases gives.symm.trans same
  | asked asking hp same =>
      rcases hp with ⟨due, outcome, rfl⟩ | rfl | ⟨rfl, first⟩
      · cases gives.symm.trans same
      · cases gives.symm.trans same
      · cases gives.symm.trans same
        simp only [Yield.failure?, first, if_true] at fails
        cases fails
        exact ⟨rfl, rfl, updated on _⟩
  | came producing hr same =>
      obtain ⟨y', given, report⟩ := same
      cases gives.symm.trans given
      obtain rfl := report.symm.trans reports
      exact ⟨rfl, rfl, updated on _⟩
  | finished asking later same =>
      cases gives.symm.trans same
      simp [Yield.failure?, later] at fails
  | died producing same =>
      cases gives.symm.trans same
      cases fails
  | rest same | wait _ _ same | opened _ _ _ _ same => cases gives.symm.trans same
  | unbound queued unbound =>
      simp [World.gives, queued, unbound] at gives
  | ignored progress | stored progress | discarded progress | failed progress | resumed progress
  | ended progress => simp [World.gives, progress] at gives

/-! ## §2. What an attempt has to say reaches its waiters. -/

/-- A report that does not count leaves the cache as it is. -/
theorem apply_ignored {w : World ε V} {a : Attempt ε V} {report : Report V}
    (running : w.cache.dispatcher.attempt? a.number = some a) (reporting : a.progress = .reporting report)
    (ignored : w.isCacheAlive = false ∨ w.cache.dispatcher.latest ≠ a.number) :
    w.apply (.attempt a.number)
      = w.advanceTo a (.answering (Attempt.answerOf report .superseded) false) := by
  have goesOn : a.goesOn report .superseded = false := by simp [Attempt.goesOn]
  have taken : (if w.isCacheAlive then w.cache.take w.now a.number a.item report
      else (w.cache, .superseded)) = (w.cache, .superseded) := by
    rcases ignored with gone | older
    · rw [gone, if_neg (by simp)]
    · split
      · exact if_pos older
      · rfl
  rw [apply_report running reporting, World.report, taken]
  simp only [goesOn]

/-- Whoever waits for an attempt that has not answered hears what it reports. -/
theorem hears_report {w : World ε V} (h : Reachable w) {a : Attempt ε V}
    (ha : a ∈ w.cache.dispatcher.running) {report : Report V} (reporting : a.progress = .reporting report)
    (unanswered : w.cache.dispatcher.hasAnswered a.number = false) {seat : Seat} (seated : seat ∈ w.seats)
    (awaits : seat.reader.awaits? = some a.number) (more : List (Move ε V)) :
    Hears seat.key a.number report (w.itemsTo seat.key) (w.run more) := by
  obtain ⟨given, faithful⟩ := h.faithful
  -- what it reports of its first item is what it was given first
  have news := faithful.news a ha (item_of_unanswered h.ordered.dispatcher ha unanswered)
  rw [Attempt.news?, reporting] at news
  obtain ⟨y, first, rfl⟩ := Option.map_eq_some_iff.mp news.symm
  have still : (given ++ w.yields more).lookup a.number = some y := by
    rw [List.lookup_append, first]
    rfl
  have served := (Served.of_awaits h seated awaits).run h (h.attended.below seat seated) more
  have tracked := tracks_run h (h.awaited.seats seat seated _ awaits) more
  exact served.hears (faithful.run h more) (h.run more) tracked still

/-! ## §3. What the cell expects. -/

/-- The cell waits for the attempt `n`, or the attempt has had its say. -/
def Expected (n : Nat) (w : World ε V) : Prop :=
  (w.cache.cell.phase = .calculating ∧ w.cache.dispatcher.latest = n) ∨ Spoken ⟨n, 0⟩ w

/-- The cell stops waiting for an attempt only when the attempt has reported. -/
theorem Turn.answering_of_phase {w w' : World ε V} {a : Attempt ε V} {left : Option (Attempt ε V)}
    (t : Turn w a w' left) :
    w'.cache.cell.phase = w.cache.cell.phase
      ∨ (w.cache.dispatcher.latest = a.number ∧ ∀ b, left = some b → b.isAnswering = true) := by
  cases t with
  | stored _ _ latest | discarded _ _ latest | failed _ _ latest =>
      refine Or.inr ⟨latest, fun b hb => ?_⟩
      cases hb
      rfl
  | rest | wait | unbound | refused | called | opened | asked | finished | came | died | ignored
  | resumed | ended => exact Or.inl rfl

theorem Expected.turn {n : Nat} {w w' : World ε V} {a : Attempt ε V} {left : Option (Attempt ε V)}
    (h : Expected n w) (orderly : Orderly w.now w.cache.dispatcher) (t : Turn w a w' left)
    (ha : a ∈ w.cache.dispatcher.running) : Expected n w' := by
  have kept := (t.progressed orderly ha).kept
  rcases h with ⟨busy, latest⟩ | spoken
  · rcases t.answering_of_phase with same | ⟨own, speaks⟩
    · exact Or.inl ⟨same.trans busy, kept.latest.trans latest⟩
    · refine Or.inr ⟨Nat.le_of_eq (kept.latest.trans latest).symm, fun b hb number => ?_⟩
      have number : b.number = a.number := number.trans (latest.symm.trans own)
      have said : b.isAnswering = true := by
        rcases t.mem_cases hb with ⟨_, other⟩ | hleft | ⟨old, hleft⟩
        · exact absurd number other
        · exact speaks b hleft
        · rw [orderly.eq_of_number old ha number]
          exact speaks a hleft
      rcases Nat.eq_zero_or_pos b.item with first | later
      · exact Or.inr ⟨first.symm, said⟩
      · exact Or.inl later
  · exact Or.inr (spoken.turn orderly t ha)

/-- While the cell waits nobody launches. -/
theorem Expected.touch {n : Nat} {w w' : World ε V} {c : Cache ε V} (h : Expected n w)
    (t : Cache.Touch w.cache w.now c) (cell : w'.cache.cell = c.cell)
    (dispatcher : w'.cache.dispatcher = c.dispatcher) : Expected n w' := by
  rcases h with ⟨busy, latest⟩ | spoken
  · refine Or.inl ⟨?_, ?_⟩
    · rw [cell]
      rcases t.phase_cases with same | ⟨_, _, flushed | invalid⟩ | ⟨calculating, _⟩
      · exact same.trans busy
      · cases busy.symm.trans flushed
      · cases busy.symm.trans invalid
      · exact calculating
    · rw [dispatcher]
      rcases t.dispatcher_cases with same | ⟨idle, _⟩
      · rw [same]
        exact latest
      · exact absurd busy idle
  · exact Or.inr (spoken.touch t dispatcher)

/-- A step that does not throw the value away leaves the cell expecting the attempt. -/
theorem Expected.step {n : Nat} {w w' : World ε V} {m : Move ε V} (h : Expected n w)
    (reachable : Reachable w) (s : Step w m w') (kept : w.invalidates m = false) : Expected n w' := by
  have same {w' : World ε V} (phase : w'.cache.cell.phase = w.cache.cell.phase)
      (dispatcher : w'.cache.dispatcher = w.cache.dispatcher) : Expected n w' := by
    refine h.imp (fun ⟨busy, latest⟩ => ⟨phase.trans busy, ?_⟩) (·.same dispatcher)
    rw [dispatcher]
    exact latest
  cases s with
  | aside ha | dropReader ha => exact same (congrArg Cell.phase ha.cell) ha.dispatcher
  | pass | openReader | follow => exact same rfl rfl
  | bind => exact h.imp_right fun spoken => ⟨spoken.latest, spoken.next⟩
  | subscribe => exact h.touch (Cache.subscribe_touch w.cache w.now) rfl rfl
  | invalidate _ own =>
      rw [own] at kept
      cases kept
  | @poke asided ha =>
      have phase : asided.cache.cell.phase = w.cache.cell.phase := congrArg Cell.phase ha.cell
      exact same phase ha.dispatcher
  | reader own seated ha => exact h.touch (Reader.step_stepped _ _ _).touch ha.cell ha.dispatcher
  | attempt own running t =>
      exact h.turn reachable.ordered.dispatcher t (Dispatcher.attempt?_mem running).1

/-- **The cell expects an attempt until it has had its say**, as long as the value is not thrown away. -/
theorem Expected.run {n : Nat} {w : World ε V} (h : Expected n w) (reachable : Reachable w)
    {moves : List (Move ε V)} (kept : w.never invalidates moves = true) : Expected n (w.run moves) := by
  induction moves generalizing w with
  | nil => exact h
  | cons m moves ih =>
      obtain ⟨now, later⟩ := never_cons.mp kept
      exact ih (h.step reachable (apply_step w m) now) (reachable.move m) later

/-- An attempt that is about to report its first item is the one that the cell waits for. -/
theorem Expected.busy {w : World ε V} {a : Attempt ε V} (h : Expected a.number w)
    (ha : a ∈ w.cache.dispatcher.running) (first : a.item = 0) {report : Report V}
    (reporting : a.progress = .reporting report) :
    w.cache.cell.phase = .calculating ∧ w.cache.dispatcher.latest = a.number := by
  refine h.resolve_right fun spoken => ?_
  rcases spoken.next a ha rfl with later | ⟨_, said⟩
  · exact absurd first (Nat.ne_of_gt later)
  · simp [Attempt.isAnswering, reporting] at said

/-! ## §4. The next read. -/

/-- The attempt `n` is about to report `content` in the world `w`: the value is stored with that report,
and two steps later the reader of the key has been given it, while it is held. -/
structure Succeeds (key n : Nat) (content : Sourced V) (w : World ε V) : Prop where
  origin : content.origin = ⟨n, 0⟩
  stored : w.stored? (.attempt n) = some content
  given : (w.run [.attempt n, .attempt n, .reader key]).itemsTo key = [.value content]
  held : (w.run [.attempt n, .attempt n, .reader key]).cache.cell.phase = .holding (.concealed content)

/-- A value that the cell keeps is stored. -/
theorem apply_stores {w : World ε V} {a : Attempt ε V} {content : Sourced V}
    (running : w.cache.dispatcher.attempt? a.number = some a)
    (reporting : a.progress = .reporting (.ok content)) (alive : w.isCacheAlive = true)
    (latest : w.cache.dispatcher.latest = a.number) (keeps : w.cache.keeps a.item = true) :
    w.apply (.attempt a.number)
      = (w.withCache fun c => (c.withCell (·.tally Counters.countSuccess)).store w.now content).advanceTo a
        (.answering (.ok ⟨content, some (w.cache.cell.revision + 1)⟩) a.offers.isSome) := by
  have goesOn : a.goesOn (.ok content) (.stored (w.cache.cell.revision + 1)) = a.offers.isSome := by
    simp [Attempt.goesOn, Except.isOk, Except.toBool]
  rw [apply_report running reporting]
  simp only [World.report, alive, if_true, Cache.take, latest, ne_eq, not_true_eq_false, if_false, keeps,
    goesOn]
  rfl

/-- An attempt that answers leaves the cell alone. -/
theorem cell_of_answering {w : World ε V} {a : Attempt ε V} {answer : Answer V} {continues : Bool}
    (running : w.cache.dispatcher.attempt? a.number = some a)
    (answering : a.progress = .answering answer continues) :
    (w.apply (.attempt a.number)).cache.cell = w.cache.cell := by
  obtain ⟨left, t⟩ := stepAttempt_turn w a
  rw [apply_attempt running]
  refine t.cell_of_silent fun report reporting => ?_
  rw [answering] at reporting
  cases reporting

/-- A reader that waits leaves the cell alone. -/
theorem cell_of_awaiting {w : World ε V} {key k : Nat} {seat : Seat} (seated : w.seat? key = some seat)
    (awaits : seat.reader.awaits? = some k) : (w.apply (.reader key)).cache.cell = w.cache.cell := by
  obtain ⟨_, rfl⟩ := seat?_mem seated
  have cell := (advanceReader_advanced seated).cell
  have stays : (seat.reader.step w.cache w.now).1 = w.cache := by
    rcases Reader.awaits?_eq_some_iff.mp awaits with hs | hs
    · simp only [Reader.step, hs]
      split <;> rfl
    · simp only [Reader.step, hs]
      split <;> rfl
  rw [stays] at cell
  exact cell

/-- **A value that the cell expects is stored, and is given to whoever waits for it.** -/
theorem succeeds_of_expected {w : World ε V} (h : Reachable w) {a : Attempt ε V}
    (expected : Expected a.number w) (running : w.cache.dispatcher.attempt? a.number = some a)
    (first : a.item = 0) {content : Sourced V} (reporting : a.progress = .reporting (.ok content))
    {seat : Seat} (seated : w.seat? seat.key = some seat) (awaits : seat.reader.awaits? = some a.number)
    (nothing : w.itemsTo seat.key = []) : Succeeds seat.key a.number content w := by
  have ha := (Dispatcher.attempt?_mem running).1
  have listed := (seat?_mem seated).1
  obtain ⟨busy, latest⟩ := expected.busy ha first reporting
  have keeps : w.cache.keeps a.item = true := by
    rw [Cache.keeps, if_pos first, busy]
    rfl
  have executes := (h.ordered.dispatcher.fits a ha).executes (by simp [Attempt.isExecuting, reporting])
  have unanswered : w.cache.dispatcher.hasAnswered a.number = false := by
    rw [Bool.eq_false_iff, ne_eq, executes.delivered]
    exact not_not_intro first
  have hears := hears_report h ha reporting unanswered listed awaits []
  rw [nothing] at hears
  have stores := apply_stores running reporting (alive_of_awaits listed awaits) latest keeps
  obtain ⟨answer, continues, next⟩ := apply_reports running reporting
  refine ⟨?_, ?_, ?_, ?_⟩
  · rw [(h.filed.reports ha reporting).1, first]
  · rw [stored?, stores]
    exact if_neg (Nat.succ_ne_self _)
  · rcases hears with ⟨later, told⟩ | ⟨_, soon⟩
    · have told : w.itemsTo seat.key = _ := told
      rw [nothing] at told
      cases later <;> cases told
    · exact soon (Option.isSome_iff_exists.mpr ⟨seat, seated⟩)
  · -- the answer and the reader leave the cell as the report left it
    have answers : ((w.apply (.attempt a.number)).apply (.attempt a.number)).cache.cell
        = (w.apply (.attempt a.number)).cache.cell :=
      cell_of_answering (a := { a with progress := .answering answer continues }) next rfl
    have seats : ((w.apply (.attempt a.number)).apply (.attempt a.number)).seats = w.seats :=
      (apply_attempt_seats _ _).1.trans (apply_attempt_seats w _).1
    have seated : ((w.apply (.attempt a.number)).apply (.attempt a.number)).seat? seat.key
        = some seat := by
      rw [seat?, seats]
      exact seated
    show ((((w.apply (.attempt a.number)).apply (.attempt a.number)).apply
      (.reader seat.key)).cache.cell.phase) = _
    rw [cell_of_awaiting seated awaits, answers, stores]
    rfl

/-- The next read mends the world `w`.  Its first step marks the cell for a fetch.  If the cell is still so
marked when the read comes to look, whatever has happened in between, one attempt is launched from the
source that was bound all along, as long as the clock can name its start.  And when that attempt reports
a value, the value not having been thrown away since, it is stored and the read is given it. -/
def Retries (w : World ε V) : Prop :=
  ∀ role, w.hasHandle = true →
    let key := w.nextKey
    let asked := w.run [.openReader .once role, .reader key]
    asked.cache.cell.phase = .invalid true
      ∧ (∃ seat, asked.seat? key = some seat ∧ seat.reader.stage = .looking)
      ∧ ∀ between : List (Move ε V),
        let q := asked.run between
        let next := q.apply (.reader key)
        let n := q.cache.dispatcher.latest + 1
        q.cache.cell.phase = .invalid true →
        (∃ seat, q.seat? key = some seat ∧ seat.reader.stage = .looking) →
        (q.now.later? (q.cache.dispatcher.holdBack q.now)).isSome = true →
          LaunchedFor key q next ∧ next.cache.dispatcher.binding = w.cache.dispatcher.binding
            ∧ ∀ rest : List (Move ε V), next.never invalidates rest = true →
              let r := next.run rest
              ∀ a content, r.cache.dispatcher.attempt? n = some a → a.item = 0 →
                a.progress = .reporting (.ok content) → (r.seat? key).isSome = true →
                  Succeeds key n content r

/-- The source is bound for good once an attempt was launched. -/
theorem binding_run {w : World ε V} (h : Reachable w) (isSealed : w.cache.dispatcher.sealed = true)
    (moves : List (Move ε V)) :
    (w.run moves).cache.dispatcher.sealed = true
      ∧ (w.run moves).cache.dispatcher.binding = w.cache.dispatcher.binding := by
  induction moves generalizing w with
  | nil => exact ⟨isSealed, rfl⟩
  | cons m moves ih =>
      obtain ⟨now, same⟩ := ((apply_step w m).remembers h.ordered).binding isSealed
      obtain ⟨last, later⟩ := ih (h.move m) now
      exact ⟨last, later.trans same⟩

/-- A reader that has just come shows interest, and then is about to look. -/
theorem shows_interest {w : World ε V} (h : Reachable w) (role : Role) (handle : w.hasHandle = true) :
    let asked := w.run [.openReader .once role, .reader w.nextKey]
    asked.cache = w.cache.subscribe
      ∧ ∃ seat, asked.seat? w.nextKey = some seat ∧ seat.reader.stage = .looking := by
  intro asked
  have shown : asked = _ := h.attended.asked role handle
  rw [shown]
  exact ⟨rfl, _, h.attended.seat?_newest rfl, rfl⟩

/-- An attempt that is launched for a reader succeeds if it comes to report a value, as long as the value is
not thrown away in the meantime. -/
theorem LaunchedFor.succeeds {key : Nat} {q w : World ε V} (launched : LaunchedFor key q w)
    (h : Reachable w) (nothing : w.itemsTo key = []) {rest : List (Move ε V)}
    (kept : w.never invalidates rest = true) {a : Attempt ε V} {content : Sourced V}
    (running : (w.run rest).cache.dispatcher.attempt? (q.cache.dispatcher.latest + 1) = some a)
    (first : a.item = 0) (reporting : a.progress = .reporting (.ok content))
    (stays : ((w.run rest).seat? key).isSome = true) :
    Succeeds key (q.cache.dispatcher.latest + 1) content (w.run rest) := by
  obtain ⟨waiter, sits, awaits⟩ := launched.waits
  obtain ⟨listed, rfl⟩ := seat?_mem sits
  obtain ⟨ha, number⟩ := Dispatcher.attempt?_mem running
  have expected : Expected (q.cache.dispatcher.latest + 1) w :=
    Or.inl ⟨launched.busy, launched.started.latest⟩
  have expects := expected.run h kept
  have served := (Served.of_awaits h listed awaits).run h (h.attended.below waiter listed) rest
  have reachable := h.run rest
  rw [nothing] at served
  rw [← number] at running awaits served expects ⊢
  generalize w.run rest = r at *
  obtain ⟨seat, seated⟩ := Option.isSome_iff_exists.mp stays
  obtain ⟨sitting, hk⟩ := seat?_mem seated
  -- the attempt has not answered, so the reader still waits, and was given nothing
  rcases served with ⟨none, waits⟩ | ⟨answer, _, answered, _⟩
  · rw [← hk] at seated none ⊢
    exact succeeds_of_expected reachable expects running first reporting seated
      (waits seat sitting hk) none
  · have executes := (reachable.ordered.dispatcher.fits a ha).executes
      (by simp [Attempt.isExecuting, reporting])
    exact absurd first (executes.delivered.mp (Dispatcher.hasAnswered_iff.mpr ⟨answer, answered⟩))

/-- **After a failure the next read fetches anew**, and is given the value that it stores. -/
theorem retries_of_invalid {w : World ε V} (h : Reachable w) (isSealed : w.cache.dispatcher.sealed = true)
    (invalid : w.cache.cell.phase = .invalid false) : Retries w := by
  intro role handle key asked
  obtain ⟨cache, looking⟩ := shows_interest h role handle
  refine ⟨?_, looking, ?_⟩
  · show asked.cache.cell.phase = _
    rw [cache]
    simp [Cache.subscribe, invalid, Cache.withCell, Cell.moveTo, Cell.mark]
  · intro between q next n phase sits named
    obtain ⟨streams, known⟩ := Streams.opened h handle .once role
    have opened := h.move (.openReader .once role)
    have reachable : Reachable q := opened.run (.reader key :: between)
    have telling : Streams false key q := streams.run opened known (.reader key :: between)
    obtain ⟨stillSealed, binding⟩ :=
      binding_run h isSealed (.openReader .once role :: .reader key :: between)
    have bound := reachable.ordered.dispatcher.bound stillSealed
    obtain ⟨seat, seated, looks⟩ := sits
    obtain ⟨listed, hk⟩ := seat?_mem seated
    have access : q.cache.access q.now seat.reader.delivered = (q.cache.launch q.now).map id .ticket := by
      simp only [Cache.access, reachable.coherent.sound, phase]
    have launched : LaunchedFor key q next := launchedFor_of_look seated looks access bound named
    have nothing : next.itemsTo key = [] := by
      have none := reachable.unserved.single seat listed (telling.reads seat listed hk)
        (by simp [Reader.isOpen, looks])
      rw [hk] at none
      exact launched.items.trans none
    exact ⟨launched, launched.started.binding.trans binding, fun rest kept a content running first
      reporting stays =>
        launched.succeeds (reachable.move (.reader key)) nothing kept running first reporting stays⟩

/-! ## §5. Isolation. -/

/-- **A failure empties the cell, and harms nothing else.**  Let an attempt take a step.  If the source
fails it in any way, the attempt is about to report that failure, and nothing else has come of it.  If the
attempt is about to report a failure, it is the newest one and the cache is in being, then the cell is
left without a value and counts the failure; its revision is as it was, and so is the book on staleness.
As long as the cell is left so, the next read fetches anew, from the same source.  If the attempt is not
the newest one, the cell and the book are left alone.  Either way, whoever waits for the attempt hears of
the failure, and of nothing before it, unless the attempt has answered already. -/
theorem failure_isolated {w : World ε V} (h : Reachable w) {a : Attempt ε V}
    (running : w.cache.dispatcher.attempt? a.number = some a) :
    let p := w.apply (.attempt a.number)
    (∀ y failure, w.gives a = some y → y.failure? a.number a.item = some failure →
        p.cache.cell = w.cache.cell ∧ p.cache.staleness = w.cache.staleness
          ∧ p.cache.dispatcher.attempt? a.number
            = some { a with progress := .reporting (.error failure) })
      ∧ ∀ failure, a.progress = .reporting (.error failure) →
        (w.isCacheAlive = true → w.cache.dispatcher.latest = a.number →
            p.cache.cell.phase = .invalid false ∧ p.cache.peek = none
              ∧ p.cache.cell.counters = { w.cache.cell.counters with
                  failures := w.cache.cell.counters.failures + 1 }
              ∧ p.cache.cell.revision = w.cache.cell.revision
              ∧ p.cache.staleness = w.cache.staleness
              ∧ ∀ more : List (Move ε V),
                let q := p.run more
                q.cache.cell.phase = .invalid false →
                  q.cache.dispatcher.binding = w.cache.dispatcher.binding ∧ Retries q)
          ∧ (w.isCacheAlive = false ∨ w.cache.dispatcher.latest ≠ a.number →
              p.cache.cell = w.cache.cell ∧ p.cache.staleness = w.cache.staleness)
          ∧ (w.cache.dispatcher.hasAnswered a.number = false →
              ∀ seat ∈ w.seats, seat.reader.awaits? = some a.number → ∀ more : List (Move ε V),
                Hears seat.key a.number (.error failure) (w.itemsTo seat.key) (w.run more)) := by
  intro p
  have ha := (Dispatcher.attempt?_mem running).1
  refine ⟨fun y failure gives fails => reports_failure h running gives fails,
    fun failure reporting => ⟨fun alive latest => ?_, fun ignored => ?_,
      fun unanswered seat seated awaits more =>
        hears_report h ha reporting unanswered seated awaits more⟩⟩
  · have failed : p = _ := apply_fails running reporting alive latest
    have phase : p.cache.cell.phase = .invalid false := by
      rw [failed]
      rfl
    have isSealed := (h.ordered.dispatcher.bound_of_mem ha).1
    refine ⟨phase, ?_, ?_, ?_, ?_, ?_⟩
    · rw [Cache.peek, phase]
      rfl
    · rw [failed]
      rfl
    · rw [failed]
      rfl
    · rw [failed]
      rfl
    · intro more q invalid
      obtain ⟨stillSealed, binding⟩ := binding_run h isSealed (.attempt a.number :: more)
      exact ⟨binding, retries_of_invalid ((h.move _).run more) stillSealed invalid⟩
  · have same : p = _ := apply_ignored running reporting ignored
    rw [same]
    exact ⟨rfl, rfl⟩

/-- A source whose first call fails, and no other. -/
def recovering : Source Unit Nat where
  shape := .oneShot fun n => some ⟨0, fun _ _ => if n = 1 then .failed "offline" else .value (10 * n)⟩

/-- A reader waits, and the first call is about to report its failure. -/
def firstFails : List (Move Unit Nat) :=
  [.bind recovering, .openReader .once .polled, .reader 0, .reader 0, .attempt 1, .attempt 1, .attempt 1]

theorem failure_isolated_retried :
    let w : World Unit Nat := (selfRefreshing ⟨.periodic 60000, .unpaced⟩ none ()).run firstFails
    let p := w.apply (.attempt 1)
    let q := p.run [.attempt 1, .reader 0]
    let asked := q.run [.openReader .once .polled, .reader q.nextKey]
    let r := (asked.apply (.reader q.nextKey)).run [.attempt 2, .attempt 2, .attempt 2]
    w.cache.dispatcher.latest = 1 ∧ p.cache.peek = none
      ∧ Hears 0 1 (.error (.fetchFailed 1 "offline")) [] p
      ∧ asked.cache.cell.phase = .invalid true
      ∧ q.nextKey = 1 ∧ asked.cache.dispatcher.latest + 1 = 2
      ∧ Succeeds q.nextKey (asked.cache.dispatcher.latest + 1) ⟨20, 2, 0⟩ r := by
  have reachable : Reachable ((selfRefreshing ⟨.periodic 60000, .unpaced⟩ none ()).run firstFails) :=
    (Reachable.initial (.selfRefreshing _ _ _)).run _
  have h := (failure_isolated reachable
    (a := ⟨1, 0, none, none, none, 0, .reporting (.error (.fetchFailed 1 "offline"))⟩) rfl).2
      (.fetchFailed 1 "offline") rfl
  obtain ⟨_, peek, _, _, _, retries⟩ := h.1 rfl rfl
  have hears := h.2.2 rfl ⟨0, .polled, ⟨.once, .waiting 1, none, 0⟩⟩ (by decide) rfl [.attempt 1]
  obtain ⟨interest, _, launches⟩ := (retries [.attempt 1, .reader 0] rfl).2 .polled rfl
  have launched := launches [] rfl ⟨⟨1, .polled, ⟨.once, .looking, none, 0⟩⟩, rfl, rfl⟩ rfl
  have succeeds := launched.2.2 [.attempt 2, .attempt 2, .attempt 2] (by decide)
    ⟨2, 0, none, none, none, 0, .reporting (.ok ⟨20, 2, 0⟩)⟩ ⟨20, 2, 0⟩ rfl rfl rfl rfl
  exact ⟨rfl, peek, hears, interest, rfl, rfl, succeeds⟩

end World

end SingleFlight
