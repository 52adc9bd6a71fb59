/-
  SingleFlight.Proofs.Throttling — what becomes of a burst of reads under a window.

  Let nobody owe an answer.  The first read that has to be served launches an
  attempt, and the window says when that calls the source: a window after the
  previous start, or at once if that has gone by.  While the attempt waits, and
  while the source works, the cell waits for it.  So whoever else comes to be
  evaluated joins it, and is given its answer, whatever happens to the reader or
  to anybody else in between.  That goes on until it answers if nobody can come
  between its report and its answer: where tasks take turns, nobody can, and on
  threads of their own a fresh value may be demanded there.  A window of nothing
  changes nothing.

  Main results:
    * `Reachable.joined` — whoever is told to wait gets the answer next.
    * `Spanned.run` — one attempt and one call for all who come before its answer.
    * `throttling` — when the call is made, and for whom.
-/
import SingleFlight.Proofs.Punctual
import SingleFlight.Proofs.Repacing
import SingleFlight.Proofs.Strides

namespace SingleFlight

variable {ε V : Type}

open Dispatcher (Orderly Begun)

namespace World

/-! ## §1. Joining. -/

/-- The reader of the key waits for the attempt `n`.  However the run goes on, the answer of `n` is what it is
given next, with its first step when the answer is there. -/
structure Joined (key n : Nat) (w : World ε V) : Prop where
  waits : ∃ seat, w.seat? key = some seat ∧ seat.reader.awaits? = some n
  served : ∀ more, Served (w.itemsTo key) key n (w.run more)
  soon : ∀ more, let q := w.run more
    q.itemsTo key = w.itemsTo key → (q.seat? key).isSome = true →
      ∀ answer, q.cache.dispatcher.answer? n = some answer →
        (q.apply (.reader key)).itemsTo key = .ofAnswer answer :: w.itemsTo key

/-- **Whoever is told to wait for an attempt is given its answer next.** -/
theorem Reachable.joined {w : World ε V} (h : Reachable w) {key n : Nat} {seat : Seat}
    (seated : w.seat? key = some seat)
    (told : seat.reader.evaluation? w.cache w.now = some (.ticket (.wait n))) :
    Joined key n (w.apply (.reader key)) := by
  obtain ⟨awaits, quiet, _⟩ := Reader.awaits_of_evaluation told
  obtain ⟨_, rfl⟩ := seat?_mem seated
  have reachable := h.move (.reader seat.key)
  have step : seat.reader.step w.cache w.now
      = ((seat.reader.step w.cache w.now).1, (seat.reader.step w.cache w.now).2.1, none) := by
    rw [← quiet]
  have sits : (w.apply (.reader seat.key)).seat? seat.key
      = some { seat with reader := (seat.reader.step w.cache w.now).2.1 } := by
    rw [advanceReader_quiet seated step]
    exact seat?_reseat seated _ _
  have listed := (seat?_mem sits).1
  have served (more : List (Move ε V)) : Served ((w.apply (.reader seat.key)).itemsTo seat.key) seat.key n
      ((w.apply (.reader seat.key)).run more) :=
    (Served.of_awaits reachable listed awaits).run reachable (reachable.attended.below _ listed) more
  refine ⟨⟨_, sits, awaits⟩, served, ?_⟩
  intro more q nothing seats answer given
  obtain ⟨s, hs⟩ := Option.isSome_iff_exists.mp seats
  obtain ⟨mem, same⟩ := seat?_mem hs
  rw [apply_awaiting (reachable.run more) hs ((served more).waits nothing mem same) given, nothing]

/-! ## §2. The span of an attempt. -/

/-- Whether a move falls outside the span of the attempt `n`: it comes after its answer, or it throws the value
away. -/
def leaves (n : Nat) (w : World ε V) (m : Move ε V) : Bool :=
  w.cache.dispatcher.hasAnswered n || w.invalidates m

/-- While the cell waits for an attempt, no other is launched. -/
theorem Step.latest_of_busy {w w' : World ε V} {m : Move ε V} (s : Step w m w') (ordered : Ordered w)
    (busy : w.cache.cell.phase = .calculating) :
    w'.cache.dispatcher.latest = w.cache.dispatcher.latest := by
  have touched {c : Cache ε V} (t : Cache.Touch w.cache w.now c) :
      c.dispatcher.latest = w.cache.dispatcher.latest := by
    rcases t.dispatcher_cases with same | ⟨idle, _⟩
    · rw [same]
    · exact absurd busy idle
  cases s with
  | aside ha | dropReader ha | invalidate ha | poke ha => exact congrArg Dispatcher.latest ha.dispatcher
  | pass | bind | openReader | follow => rfl
  | subscribe => exact touched (Cache.subscribe_touch w.cache w.now)
  | reader own seated ha =>
      rw [ha.dispatcher]
      exact touched (Reader.step_stepped _ _ _).touch
  | attempt own running t =>
      exact (t.progressed ordered.dispatcher (Dispatcher.attempt?_mem running).1).kept.latest

/-- No attempt launches another. -/
theorem latest_of_stepOf {w : World ε V} (ordered : Ordered w) {n : Nat} {m : Move ε V}
    (own : isStepOf n m = true) : (w.apply m).cache.dispatcher.latest = w.cache.dispatcher.latest := by
  unfold isStepOf at own
  split at own
  next k =>
    show (w.advanceAttempt k).cache.dispatcher.latest = _
    unfold advanceAttempt
    split
    next a running =>
      obtain ⟨left, t⟩ := stepAttempt_turn w a
      exact (t.progressed ordered.dispatcher (Dispatcher.attempt?_mem running).1).kept.latest
    next => rfl
  next => cases own

/-- The world `w` lies in the span of the attempt `n`, or at its end; `before` are the calls that were made
before. -/
structure Spanned (n : Nat) (before : List (Nat × Instant)) (w : World ε V) : Prop where
  latest : w.cache.dispatcher.latest = n
  earlier : ∀ k, 0 < k → k < n → w.cache.dispatcher.hasAnswered k = true
  calls : w.calls = before ∨ ∃ t, w.calls = (n, t) :: before
  expected : Expected n w
  tracked : w.cache.dispatcher.Tracks n

/-- Within the span of an attempt, the cell waits for it unless it is about to answer. -/
theorem Spanned.busy {n : Nat} {before : List (Nat × Instant)} {w : World ε V} (h : Spanned n before w)
    (ordered : Ordered w) (unanswered : w.cache.dispatcher.hasAnswered n = false) :
    w.cache.cell.phase = .calculating
      ∨ ∃ a ∈ w.cache.dispatcher.running, a.number = n ∧ a.isAnswering = true := by
  refine h.expected.imp And.left fun spoken => ?_
  rcases h.tracked with answered | ⟨a, ha, number⟩
  · rw [unanswered] at answered
    cases answered
  · rcases spoken.next a ha number with later | ⟨_, said⟩
    · -- whoever is at a later item has answered
      have fits := ordered.dispatcher.fits a ha
      have item : a.item ≠ 0 := Nat.ne_of_gt later
      have executes : a.isExecuting = true := by
        refine Bool.of_not_eq_false fun waiting => ?_
        exact item (fits.queues waiting).fresh.1
      have answered := (fits.executes executes).delivered.mpr item
      rw [number, unanswered] at answered
      cases answered
    · exact ⟨a, ha, number, said⟩

theorem Spanned.apply {n : Nat} {before : List (Nat × Instant)} {w : World ε V} (h : Spanned n before w)
    (reachable : Reachable w) {m : Move ε V} (within : w.leaves n m = false)
    (prompt : w.isPrompt [m] = true) : Spanned n before (w.apply m) := by
  have ordered := reachable.ordered
  have s := apply_step w m
  obtain ⟨unanswered, kept⟩ := Bool.or_eq_false_iff.mp within
  have latest : (w.apply m).cache.dispatcher.latest = w.cache.dispatcher.latest := by
    rcases h.busy ordered unanswered with busy | ⟨a, ha, number, answering⟩
    · exact s.latest_of_busy ordered busy
    · -- it answers now, and nobody else does anything
      have own := List.all_eq_true.mp (Bool.and_eq_true_iff.mp prompt).1 a ha
      rw [answering, number, Bool.not_true, Bool.false_or] at own
      exact latest_of_stepOf ordered own
  refine ⟨latest.trans h.latest, fun k hk hlt => ?_, ?_, h.expected.step reachable s kept,
    s.tracks ordered h.tracked⟩
  · obtain ⟨answer, given⟩ := Dispatcher.hasAnswered_iff.mp (h.earlier k hk hlt)
    exact Dispatcher.hasAnswered_iff.mpr ⟨answer, (s.remembers ordered).answers k answer given⟩
  · rcases s.calls_cases with same | ⟨a, ha, queued, calls⟩
    · rw [same]
      exact h.calls
    · -- only the newest attempt still waits, and it calls once
      have waiting : a.isExecuting = false := by rw [Attempt.isExecuting, queued]
      obtain ⟨positive, known⟩ := ordered.dispatcher.bounded a ha
      have owes := ((ordered.dispatcher.fits a ha).queues waiting).unanswered
      have number : a.number = n := by
        rcases Nat.lt_or_eq_of_le (h.latest ▸ known) with older | newest
        · rw [h.earlier a.number positive older] at owes
          cases owes
        · exact newest
      rcases h.calls with none | ⟨t, once⟩
      · exact Or.inr ⟨w.now, by rw [calls, none, number]⟩
      · refine absurd (List.mem_map.mpr ⟨(n, t), ?_, number.symm⟩) (ordered.uncalled ha waiting)
        rw [once]
        exact List.mem_cons_self

/-- **The span of an attempt has room for no other**, and for one call, unless somebody comes between a report
and its answer. -/
theorem Spanned.run {n : Nat} {before : List (Nat × Instant)} {w : World ε V} (h : Spanned n before w)
    (reachable : Reachable w) {moves : List (Move ε V)} (within : w.never (leaves n) moves = true)
    (prompt : w.isPrompt moves = true) : Spanned n before (w.run moves) := by
  induction moves generalizing w with
  | nil => exact h
  | cons m moves ih =>
      obtain ⟨here, later⟩ := never_cons.mp within
      obtain ⟨own, rest⟩ := isPrompt_cons.mp prompt
      exact ih (h.apply reachable here own) (reachable.move m) later rest

/-- While the cell waits for an attempt, every read that comes to be evaluated joins it. -/
theorem evaluation_of_busy {w : World ε V} (h : Reachable w) (busy : w.cache.cell.phase = .calculating)
    {seat : Seat} (listed : seat ∈ w.seats)
    (comes : seat.reader.stage = .looking ∨ seat.reader.stage = .demanding) :
    seat.reader.evaluation? w.cache w.now = some (.ticket (.wait w.cache.dispatcher.latest)) := by
  have coherent := h.coherent
  have alive : w.isCacheAlive = true := by
    refine isCacheAlive_of_seat listed ?_
    rcases comes with hs | hs <;> rw [Reader.holdsCache, hs]
  have owed := coherent.owed alive busy
  rcases comes with hs | hs
  · simp only [Reader.evaluation?, hs, Cache.access, coherent.sound, busy, Cache.join, owed, Prod.map, id]
  · simp only [Reader.evaluation?, hs, Cache.demand, coherent.sound, busy, Phase.isCalculating, if_true,
      Cache.join, owed]

/-- **Whoever comes to be evaluated within the span of an attempt joins it**, where every attempt waits. -/
theorem Spanned.joins {n : Nat} {before : List (Nat × Instant)} {w : World ε V} (h : Spanned n before w)
    (reachable : Reachable w) (stilled : Stilled w) {seat : Seat} (seated : w.seat? seat.key = some seat)
    (comes : seat.reader.stage = .looking ∨ seat.reader.stage = .demanding)
    (unanswered : w.cache.dispatcher.hasAnswered n = false) :
    w.evaluation? (.reader seat.key) = some ⟨seat.key, seat.reader.reading, .ticket (.wait n)⟩
      ∧ Joined seat.key n (w.apply (.reader seat.key)) := by
  have busy : w.cache.cell.phase = .calculating := by
    refine (h.busy reachable.ordered unanswered).resolve_right ?_
    rintro ⟨a, ha, _, answering⟩
    cases answering.symm.trans (Attempt.isAnswering_of_unsaid (stilled a ha))
  have told := evaluation_of_busy reachable busy (seat?_mem seated).1 comes
  rw [h.latest] at told
  exact ⟨evaluation?_of_seat seated told, reachable.joined seated told⟩

/-! ## §3. Under a window. -/

/-- When the next call of the source is due: a window after the previous start, or at once if that has gone
by. -/
def dueStart (w : World ε V) (window : Duration) : Instant :=
  match w.cache.dispatcher.lastStart with
  | none => w.now
  | some previous => max w.now (previous + window)

theorem nextStart_eq_dueStart {w : World ε V} {window : Duration}
    (paced : w.cache.dispatcher.pacing = .spaced window)
    (passed : ∀ previous, w.cache.dispatcher.lastStart = some previous → previous ≤ w.now) :
    w.nextStart = w.dueStart window := by
  unfold dueStart
  cases last : w.cache.dispatcher.lastStart with
  | none =>
      unfold nextStart Dispatcher.holdBack
      rw [paced, last]
      exact Int.add_zero _
  | some previous => rw [nextStart_eq paced last, Int.min_eq_left (passed previous last)]

/-- The move `m` launches an attempt in the world `w`, and the window says when that calls the source. -/
structure Throttles (window : Duration) (w : World ε V) (m : Move ε V) : Prop where
  /-- The start that was set last does not lie ahead. -/
  passed : ∀ previous, w.cache.dispatcher.lastStart = some previous → previous ≤ w.now
  recorded : (w.apply m).cache.dispatcher.lastStart = some (w.dueStart window)
  bounded : w.now ≤ w.dueStart window ∧ w.dueStart window ≤ w.now + window
  /-- In a gradual run the attempt turns to the source at that time, and at no other. -/
  turns : ∀ moves, (w.apply m).isGradual moves = true → let v := (w.apply m).run moves
    ∀ m', ¬ v.cache.dispatcher.Begun (w.cache.dispatcher.latest + 1) →
      (v.apply m').cache.dispatcher.Begun (w.cache.dispatcher.latest + 1) → v.now = w.dueStart window
  /-- It has done so by the time that the clock moves on, or nobody can take a step. -/
  begun : ∀ moves, (w.apply m).isGradual moves = true → let v := (w.apply m).run moves
    (w.dueStart window < v.now
        ∨ (w.dueStart window = v.now ∧ ∀ a ∈ v.cache.dispatcher.running, v.canStep a = false)) →
      v.cache.dispatcher.Begun (w.cache.dispatcher.latest + 1)
  /-- And so the source is called at that time; one that belongs to an owner who is gone refuses the call. -/
  called : ∀ moves, (w.apply m).isGradual moves = true → let v := (w.apply m).run moves
    v.cache.dispatcher.Begun (w.cache.dispatcher.latest + 1) →
      (w.cache.dispatcher.latest + 1, w.dueStart window) ∈ v.calls ∨ OwnerGone v
  only : ∀ moves, (w.apply m).isGradual moves = true → ∀ t,
    (w.cache.dispatcher.latest + 1, t) ∈ ((w.apply m).run moves).calls → t = w.dueStart window
  reached : ∃ moves, (w.apply m).isGradual moves = true ∧ let v := (w.apply m).run moves
    (w.cache.dispatcher.latest + 1, w.dueStart window) ∈ v.calls ∨ OwnerGone v
  /-- It was launched for a reader, who waits for it. -/
  launcher : ∃ key reading, m = .reader key
    ∧ w.evaluation? m = some ⟨key, reading, .ticket (.wait (w.cache.dispatcher.latest + 1))⟩
    ∧ Joined key (w.cache.dispatcher.latest + 1) (w.apply m)
  /-- Until it has answered no other attempt is launched, and the source is called for nobody else, where tasks
  take turns. -/
  single : ∀ moves, let steps := (w.apply m).strides moves
    (w.apply m).never (leaves (w.cache.dispatcher.latest + 1)) steps = true →
      let v := (w.apply m).run steps
      v.cache.dispatcher.latest = w.cache.dispatcher.latest + 1
        ∧ (v.calls = w.calls ∨ ∃ t, v.calls = (w.cache.dispatcher.latest + 1, t) :: w.calls)
  /-- Whoever comes to be evaluated in that span joins it. -/
  joins : ∀ moves, let steps := (w.apply m).strides moves
    (w.apply m).never (leaves (w.cache.dispatcher.latest + 1)) steps = true →
      let v := (w.apply m).run steps
      v.cache.dispatcher.hasAnswered (w.cache.dispatcher.latest + 1) = false →
      ∀ seat, v.seat? seat.key = some seat →
        (seat.reader.stage = .looking ∨ seat.reader.stage = .demanding) →
        v.evaluation? (.reader seat.key)
            = some ⟨seat.key, seat.reader.reading, .ticket (.wait (w.cache.dispatcher.latest + 1))⟩
          ∧ Joined seat.key (w.cache.dispatcher.latest + 1) (v.apply (.reader seat.key))

theorem holdBack_le {d : Dispatcher ε V} {window : Duration} (paced : d.pacing = .spaced window)
    (now : Instant) : d.holdBack now ≤ window := by
  unfold Dispatcher.holdBack
  rw [paced]
  cases d.lastStart with
  | none => exact Nat.zero_le _
  | some start => exact Nat.sub_le _ _

section

variable {w : World ε V} {seat : Seat} {next : Dispatcher ε V}

/-- An attempt that is launched when nobody owes an answer has nobody to wait for. -/
theorem Unowing.ready (unowing : Unowing w) (h : Reachable w)
    (launched : w.cache.dispatcher.launch w.now = .started next (w.cache.dispatcher.latest + 1))
    (m : Move ε V) :
    (w.cache.dispatcher.newest w.now).predecessor.all (w.apply m).cache.dispatcher.hasAnswered = true := by
  rw [Option.all_eq_true]
  intro k hk
  have pending : w.cache.dispatcher.pending = some k := hk
  obtain ⟨positive, last⟩ := h.ordered.dispatcher.pending k pending
  have answered := unowing.answered h launched positive (Nat.le_of_eq last)
  obtain ⟨answer, given⟩ := Dispatcher.hasAnswered_iff.mp answered
  have remembers := (apply_step w m).remembers h.ordered
  exact Dispatcher.hasAnswered_iff.mpr ⟨answer, remembers.answers k answer given⟩

/-- An attempt that is launched when nobody owes an answer is on time. -/
theorem Unowing.onTime (unowing : Unowing w) (h : Reachable w) (seated : w.seat? seat.key = some seat)
    (launched : w.cache.dispatcher.launch w.now = .started next (w.cache.dispatcher.latest + 1))
    (dispatcher : (w.apply (.reader seat.key)).cache.dispatcher = next) :
    OnTime (w.cache.dispatcher.latest + 1) w.nextStart (w.apply (.reader seat.key)) := by
  have now : (w.apply (.reader seat.key)).now = w.now := (advanceReader_advanced seated).now
  refine .waits (w.cache.dispatcher.newest w.now) ?_ rfl ?_ (unowing.ready h launched _) ?_
  · rw [dispatcher, unowing.running h launched]
    exact List.mem_singleton_self _
  · rw [now]
    rfl
  · rw [now]
    exact Instant.le_add _ _

/-- An attempt that is launched when nobody owes an answer begins its span. -/
theorem Unowing.spanned (unowing : Unowing w) (h : Reachable w) (seated : w.seat? seat.key = some seat)
    (launched : w.cache.dispatcher.launch w.now = .started next (w.cache.dispatcher.latest + 1))
    (dispatcher : (w.apply (.reader seat.key)).cache.dispatcher = next)
    (busy : (w.apply (.reader seat.key)).cache.cell.phase = .calculating) :
    Spanned (w.cache.dispatcher.latest + 1) w.calls (w.apply (.reader seat.key)) := by
  have started := Dispatcher.launch_started launched
  have latest : (w.apply (.reader seat.key)).cache.dispatcher.latest = w.cache.dispatcher.latest + 1 := by
    rw [dispatcher]
    exact started.latest
  refine ⟨latest, fun k hk hlt => ?_, Or.inl (advanceReader_advanced seated).calls,
    Or.inl ⟨busy, latest⟩, ?_⟩
  · have answered := unowing.answered h launched hk (Nat.le_of_lt_succ hlt)
    obtain ⟨answer, given⟩ := Dispatcher.hasAnswered_iff.mp answered
    exact Dispatcher.hasAnswered_iff.mpr
      ⟨answer, ((apply_step w (.reader seat.key)).remembers h.ordered).answers k answer given⟩
  · rw [dispatcher]
    exact tracks_started started

end

/-- **A launch under a window is on time and alone**, if nobody owes an answer. -/
theorem Unowing.throttles {w : World ε V} (unowing : Unowing w) (h : Reachable w) {window : Duration}
    (paced : w.cache.dispatcher.pacing = .spaced window) {m : Move ε V} (launches : w.launches m = true) :
    Throttles window w m := by
  obtain ⟨seat, next, rfl, seated, launched, dispatcher, busy, told⟩ := launch_cases h launches
  have reachable := h.move (.reader seat.key)
  have passed (previous : Instant) (last : w.cache.dispatcher.lastStart = some previous) : previous ≤ w.now :=
    unowing.start_passed h launched last
  have due := nextStart_eq_dueStart paced passed
  have onTime := unowing.onTime h seated launched dispatcher
  have spanned := unowing.spanned h seated launched dispatcher busy
  rw [due] at onTime
  have alone : (w.apply (.reader seat.key)).cache.dispatcher.running
      = [w.cache.dispatcher.newest w.now] := by
    rw [dispatcher]
    exact unowing.running h launched
  have stilled : Stilled (w.apply (.reader seat.key)) := by
    intro a ha
    rw [alone] at ha
    rw [List.mem_singleton.mp ha]
    rfl
  have tracked (moves : List (Move ε V)) :
      ((w.apply (.reader seat.key)).run moves).cache.dispatcher.Tracks (w.cache.dispatcher.latest + 1) :=
    tracks_run reachable spanned.tracked moves
  refine ⟨passed, ?_, ⟨?_, ?_⟩, fun moves gradual => ?_, fun moves gradual => ?_, fun moves gradual => ?_,
    fun moves gradual t called => ?_, ?_, ?_, fun moves => ?_, fun moves => ?_⟩
  · rw [dispatcher, Dispatcher.launch_lastStart launched]
    exact congrArg some due
  · rw [← due]
    exact Instant.le_add _ _
  · rw [← due]
    exact Int.add_le_add_left (Int.ofNat_le.mpr (holdBack_le paced w.now)) _
  · intro v m' before begun
    exact (onTime.run reachable gradual).turns (reachable.run moves).ordered (tracked moves) before begun
  · intro v past
    exact (onTime.run reachable gradual).begun (reachable.run moves).ordered (tracked moves) past
  · intro v begun
    exact (onTime.run reachable gradual).calls (reachable.run moves).ordered begun
  · exact (onTime.run reachable gradual).only (reachable.run moves).ordered called
  · obtain ⟨start, named⟩ := (Dispatcher.launch_started launched).named
    have now : (w.apply (.reader seat.key)).now = w.now := (advanceReader_advanced seated).now
    have named : ((w.apply (.reader seat.key)).now.later? (w.cache.dispatcher.newest w.now).delay).isSome
        = true := by
      rw [now]
      exact Option.isSome_iff_exists.mpr ⟨start, named⟩
    have reached := exists_gradual reachable alone rfl (unowing.ready h launched _) named
    rw [now] at reached
    rw [← due]
    exact reached
  · exact ⟨seat.key, _, rfl, evaluation?_of_seat seated told, h.joined seated told⟩
  · intro steps within
    have spanned := spanned.run reachable within (isPrompt_strides stilled reachable moves).2
    exact ⟨spanned.latest, spanned.calls⟩
  · intro steps within v unanswered s sits comes
    obtain ⟨waiting, prompt⟩ := isPrompt_strides stilled reachable moves
    exact (spanned.run reachable within prompt).joins (reachable.run steps) waiting sits comes unanswered

/-- The pacing is settled from the start. -/
theorem pacing_run {w : World ε V} (h : Reachable w) (moves : List (Move ε V)) :
    (w.run moves).cache.dispatcher.pacing = w.cache.dispatcher.pacing := by
  induction moves generalizing w with
  | nil => rfl
  | cons m moves ih => exact (ih (h.move m)).trans ((apply_step w m).pacing h.ordered)

/-- The first fetch takes 150, and has answered when a fresh value is demanded. -/
def firstReturned : List (Move Unit Nat) :=
  firstCalled ++ [.pass 150, .attempt 1, .attempt 1, .attempt 1, .openReader .anew .follow]

/-- The next fetch is held back for the rest of the window, and a live read comes in the meantime. -/
def joinedWhileHeld : List (Move Unit Nat) :=
  [.attempt 2, .pass 20, .openReader .live .follow, .reader 2]

/-- The window opens, and the fetch comes to its end at once. -/
def windowOpens : List (Move Unit Nat) :=
  [.reader 2, .pass 30, .attempt 2, .attempt 2, .attempt 2, .attempt 2, .attempt 2]

end World

end SingleFlight
