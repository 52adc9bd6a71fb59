/-
  SingleFlight.Proofs.Settling — a world comes to rest.

  Take a world in which whoever reads is committed, and at most one attempt is on
  its way.  Everybody has a number of steps before it that its own steps wear
  down: the attempt until it has to wait or is through, the readers until they
  wait or are gone, and the refresher until it has taken all there is.  Who is
  done is not woken by those who come after it, so the three come to rest in
  turn.

  Main results:
    * `becomes_until` — what is worn down comes to an end.
    * `OneShot.attempt_wears` — a step of the only attempt leaves it fewer.
    * `Closing.settles` — everything comes to rest.
    * `AtEase.reads` — what comes of a read where everything is at ease.
-/
import SingleFlight.Proofs.AtEase

namespace SingleFlight

variable {ε V : Type}

namespace World

variable {w v u : World ε V}

/-! ## §1. What comes of a world. -/

/-- The world `v` comes of the world `w` by steps that its actors take of their own accord. -/
def Becomes (w v : World ε V) : Prop := ∃ actors, v = w.run (w.turns actors)

theorem Becomes.refl (w : World ε V) : Becomes w w := ⟨[], rfl⟩

theorem Becomes.step (a : Actor) (h : Becomes (w.apply (w.nextMove a)) v) : Becomes w v := by
  obtain ⟨actors, rfl⟩ := h
  exact ⟨a :: actors, rfl⟩

theorem Becomes.trans (h : Becomes w v) (h' : Becomes v u) : Becomes w u := by
  obtain ⟨actors, rfl⟩ := h
  induction actors generalizing w with
  | nil => exact h'
  | cons a actors ih => exact .step a (ih h')

/-- **What is worn down comes to an end**: the invariant `P` holds, and as long as `R` does not, somebody can
take a step that keeps `P` and leaves less. -/
theorem becomes_until {P R : World ε V → Prop} (size : World ε V → Nat)
    (goes : ∀ w, P w → ¬ R w → ∃ a, P (w.apply (w.nextMove a)) ∧ size (w.apply (w.nextMove a)) < size w)
    (h : P w) : ∃ v, Becomes w v ∧ P v ∧ R v := by
  induction left : size w using Nat.strongRecOn generalizing w with
  | _ n ih =>
      by_cases rests : R w
      · exact ⟨w, .refl w, h, rests⟩
      · obtain ⟨a, keeps, fewer⟩ := goes w h rests
        obtain ⟨v, becomes, ends⟩ := ih _ (left ▸ fewer) keeps rfl
        exact ⟨v, .step a becomes, ends⟩

end World

/-! ## §2. The only attempt. -/

/-- How many steps an attempt at a single value has before it at most. -/
def Attempt.Progress.steps : Attempt.Progress ε V → Nat
  | .launched => 6
  | .heldBack _ => 5
  | .queued => 4
  | .asking => 3
  | .producing _ _ => 3
  | .reporting _ => 2
  | .answering _ _ => 1
  | .stuck => 0

namespace World

variable {w v : World ε V} {number : V → Nat}

/-- How many steps the attempt has before it that was launched first of those on their way. -/
def errand (w : World ε V) : Nat := w.cache.dispatcher.running.head?.elim 0 (·.progress.steps)

/-- At most one attempt is on its way, with fewer than `n` steps before it. -/
def Wears (n : Nat) (w : World ε V) : Prop := w.cache.dispatcher.running.length ≤ 1 ∧ w.errand < n

/-- **A step of the only attempt wears it down**, if the source gives single values. -/
theorem OneShot.attempt_wears (h : OneShot number w) (reachable : Reachable w) {a : Attempt ε V}
    (alone : w.cache.dispatcher.running = [a]) (can : w.canStep a = true) :
    Wears w.errand (w.apply (.attempt a.number)) := by
  have listed : a ∈ w.cache.dispatcher.running := alone ▸ List.mem_singleton_self a
  obtain ⟨supersedes, offers⟩ := h.alone a listed
  obtain ⟨first, unresumed⟩ := h.first reachable listed
  have before : w.errand = a.progress.steps := by simp [errand, alone]
  -- a step either advances the attempt, or takes it off the list
  have advances {v : World ε V} {d : Dispatcher ε V} (same : d.running = w.cache.dispatcher.running)
      {p : Attempt.Progress ε V} (fewer : p.steps < a.progress.steps)
      (dispatcher : v.cache.dispatcher = d.update { a with progress := p }) : Wears w.errand v := by
    have only : v.cache.dispatcher.running = [{ a with progress := p }] := by
      rw [dispatcher, Dispatcher.update, same, alone]
      simp
    rw [Wears, before, errand, only]
    simpa using fewer
  have leaves {v : World ε V} {d : Dispatcher ε V} (same : d.running = w.cache.dispatcher.running)
      (some : 0 < a.progress.steps) (running : v.cache.dispatcher.running = (d.retire a.number).running) :
      Wears w.errand v := by
    have none : v.cache.dispatcher.running = [] := by
      rw [running, Dispatcher.retire, same, alone]
      simp
    rw [Wears, before, errand, none]
    exact ⟨Nat.zero_le 1, some⟩
  rw [apply_attempt (attempt?_alone alone), World.stepAttempt, if_pos can]
  cases progress : a.progress with
  | launched =>
      refine advances rfl ?_ rfl
      split <;> simp [progress, Attempt.Progress.steps]
  | heldBack resume => exact advances rfl (by simp [progress, Attempt.Progress.steps]) rfl
  | queued =>
      -- there is an owner, and the source offers one value: the call is made, and its outcome awaited
      obtain ⟨source, bound, call, shape, _⟩ := h.bound
      have dismissed : w.withDispatcher (·.dismiss a.supersedes) = w := by rw [supersedes]; rfl
      simp only [callSource, dismissed, bound, h.owned, shape, if_true]
      split <;> exact advances rfl (by simp [progress, Attempt.Progress.steps]) rfl
  | asking =>
      simp only [askNext, offers, first, if_true, Option.map_none]
      exact advances rfl (by simp [progress, Attempt.Progress.steps]) rfl
  | producing due outcome =>
      simp only [produce]
      split
      next => exact advances rfl (by simp [progress, Attempt.Progress.steps]) rfl
      next => exact advances rfl (by simp [progress, Attempt.Progress.steps]) rfl
      next => exact advances rfl (by simp [progress, Attempt.Progress.steps]) rfl
      next =>
        -- it dies, and is lost
        exact leaves rfl (by simp [progress, Attempt.Progress.steps]) (Dispatcher.noteAnswer_frame _ _ _).1
  | reporting report =>
      have same : (if w.isCacheAlive then w.cache.take w.now a.number a.item report
          else (w.cache, .superseded)).1.dispatcher = w.cache.dispatcher := by
        split
        · exact take_dispatcher _ _ _ _ _
        · rfl
      exact advances (congrArg (·.running) same) (by simp [progress, Attempt.Progress.steps]) rfl
  | answering answer continues =>
      have last : continues = false := by
        cases continues with
        | false => rfl
        | true => simp [Attempt.isResuming, progress] at unresumed
      simp only [World.answer, last, Bool.false_eq_true, if_false]
      exact leaves (Dispatcher.settle_frame _ _ _).1 (by simp [progress, Attempt.Progress.steps]) rfl
  | stuck =>
      rw [canStep, progress] at can
      cases can

end World

/-! ## §3. Readers that are served. -/

namespace Reader

variable {r : Reader} {c c' : Cache ε V}

/-- A committed reader that can take a step is given something. -/
theorem item_of_ready (committed : r.isCommitted = true) (ready : r.isReady c = true) (now : Instant) :
    ∃ item, (r.step c now).2.2 = some item := by
  have stage := (Bool.and_eq_true_iff.mp committed).2
  have answered {k : Nat} (ready : c.dispatcher.hasAnswered k = true) :
      ∃ answer, c.dispatcher.answer? k = some answer := Dispatcher.hasAnswered_iff.mp ready
  cases hs : r.stage with
  | subscribing | looking | demanding | parked => simp [hs] at stage
  | expecting k =>
      rw [isReady, hs] at ready
      obtain ⟨answer, given⟩ := answered ready
      simp only [step, hs, given]
      cases answer with
      | ok =>
          dsimp only [receiveExpected]
          split <;> exact ⟨_, rfl⟩
      | error => exact ⟨_, rfl⟩
  | waiting k =>
      rw [isReady, hs] at ready
      obtain ⟨answer, given⟩ := answered ready
      simp only [step, hs, given]
      cases answer <;> exact ⟨_, rfl⟩
  | closing | «over» | crashed =>
      simp only [step, hs]
      exact ⟨_, rfl⟩

/-- Whether a committed reader can take a step is a matter of the answers. -/
theorem isReady_of_committed (committed : r.isCommitted = true) (same : c'.dispatcher = c.dispatcher) :
    r.isReady c' = r.isReady c := by
  have stage := (Bool.and_eq_true_iff.mp committed).2
  unfold isReady
  split
  · rw [same]
  · rw [same]
  next parked => simp [parked] at stage
  · rfl

end Reader

namespace World

variable {w v : World ε V} {number : V → Nat}

/-- A reader that is given something goes, if it reads for a task that ends with that. -/
theorem length_seats_lt {seat : Seat} {item : Item V} (listed : seat ∈ w.seats)
    (advanced : Advanced w seat (seat.reader.step w.cache w.now) v)
    (given : (seat.reader.step w.cache w.now).2.2 = some item) (ends : endsTask seat.role item = true) :
    v.seats.length < w.seats.length := by
  -- the seats are among the old ones, in their order, and this one is not
  have gone : seat.key ∉ v.seats.map (·.key) := fun stays => by
    obtain ⟨s, hs, key⟩ := List.mem_map.mp stays
    rcases advanced.seats s hs with ⟨_, other⟩ | ⟨_, _, _, goesOn⟩
    · exact other key
    · cases ends.symm.trans (goesOn item given)
  have fewer := advanced.keys.length_le
  refine Nat.lt_of_le_of_ne (by simpa using fewer) fun same => gone ?_
  rw [advanced.keys.eq_of_length (by simpa using same)]
  exact List.mem_map.mpr ⟨seat, listed, rfl⟩

/-! ## §4. Everybody in turn. -/

/-- Whatever happens, the refresher is at work as long as it runs and the clock can name its deadline. -/
def Reliable (w : World ε V) : Prop := ∀ moves, let v := w.run moves
  v.refresher.isRunning = true → v.cache.staleness.deadline ≠ .overflow → v.OnDuty

theorem reliable_run (settings : Settings) (bus : Option Bus) (surroundings : ε) (moves : List (Move ε V)) :
    Reliable ((selfRefreshing settings bus surroundings : World ε V).run moves) := by
  intro more
  rw [← run_append]
  exact onDuty_run settings bus surroundings (moves ++ more)

/-- Nobody comes to read any more: whoever reads is committed, and one attempt is on its way at most. -/
structure Closing (number : V → Nat) (w : World ε V) : Prop where
  reachable : Reachable w
  oneShot : OneShot number w
  few : w.cache.dispatcher.running.length ≤ 1
  committed : AllCommitted w
  tasked : ∀ s ∈ w.seats, s.role = .read
  reliable : Reliable w

variable {number : V → Nat}

/-- A step that an actor takes is ordinary, and lets nobody in. -/
theorem nextMove_plain (w : World ε V) (a : Actor) :
    (w.nextMove a).isOrdinary = true ∧ ∀ reading role, w.nextMove a ≠ .openReader reading role := by
  cases a with
  | reader | attempt => exact ⟨rfl, fun _ _ => nofun⟩
  | refresher =>
      have chore := w.isChore_refresher
      generalize w.nextMove .refresher = m at chore ⊢
      cases m with
      | arm | react => exact ⟨rfl, fun _ _ => nofun⟩
      | _ => cases chore

/-- What a committed reader does touches no attempt, and nobody's role. -/
theorem Closing.reader_frame (h : Closing number w) (key : Nat) : let v := w.apply (.reader key)
    v.cache.dispatcher = w.cache.dispatcher ∧ ∀ s ∈ v.seats, ∃ s₀ ∈ w.seats, s₀.role = s.role := by
  intro v
  show (w.apply (.reader key)).cache.dispatcher = _ ∧ ∀ s ∈ (w.apply (.reader key)).seats, _
  cases seated : w.seat? key with
  | none =>
      rw [apply_unseated seated]
      exact ⟨rfl, fun s hs => ⟨s, hs, rfl⟩⟩
  | some seat =>
      have advanced := advanceReader_advanced seated
      have same := (Reader.step_of_committed (h.committed seat (seat?_mem seated).1) w.cache w.now).1
      exact ⟨advanced.dispatcher.trans (congrArg (·.dispatcher) same), fun s => advanced.role_eq⟩

/-- An attempt that is on its way among one at most is the only one. -/
theorem Closing.alone (h : Closing number w) {a : Attempt ε V} (listed : a ∈ w.cache.dispatcher.running) :
    w.cache.dispatcher.running = [a] := by
  obtain ⟨b, only⟩ := List.length_eq_one_iff.mp
    (Nat.le_antisymm h.few (List.length_pos_of_mem listed))
  rw [only] at listed ⊢
  rw [List.mem_singleton.mp listed]

/-- What an attempt does leaves one on its way at most. -/
theorem Closing.attempt_few (h : Closing number w) (n : Nat) :
    (w.apply (.attempt n)).cache.dispatcher.running.length ≤ 1 := by
  cases running : w.cache.dispatcher.attempt? n with
  | none =>
      rw [apply_absent running]
      exact h.few
  | some a =>
      obtain ⟨listed, rfl⟩ := Dispatcher.attempt?_mem running
      by_cases can : w.canStep a = true
      · exact (h.oneShot.attempt_wears h.reachable (h.alone listed) can).1
      · rw [apply_attempt running, World.stepAttempt, if_neg can]
        exact h.few

/-- **Nobody comes by a step that an actor takes.** -/
theorem Closing.next (h : Closing number w) (a : Actor) : Closing number (w.apply (w.nextMove a)) := by
  obtain ⟨ordinary, unopened⟩ := w.nextMove_plain a
  have keeps (few : (w.apply (w.nextMove a)).cache.dispatcher.running.length ≤ 1)
      (roles : ∀ s ∈ (w.apply (w.nextMove a)).seats, ∃ s₀ ∈ w.seats, s₀.role = s.role) :
      Closing number (w.apply (w.nextMove a)) := by
    refine ⟨h.reachable.move _, h.oneShot.apply h.reachable ordinary, few, (h.committed.apply unopened).1,
      fun s hs => ?_, fun moves => h.reliable (w.nextMove a :: moves)⟩
    obtain ⟨s₀, old, same⟩ := roles s hs
    exact same ▸ h.tasked s₀ old
  cases a with
  | reader key =>
      obtain ⟨dispatcher, roles⟩ := h.reader_frame key
      exact keeps (dispatcher ▸ h.few) roles
  | attempt n =>
      refine keeps (h.attempt_few n) fun s hs => ⟨s, ?_, rfl⟩
      exact (apply_attempt_seats w n).1 ▸ hs
  | refresher =>
      obtain ⟨_, dispatcher, seats⟩ := w.chore_frame w.isChore_refresher
      exact keeps (dispatcher ▸ h.few) fun s hs => ⟨s, seats ▸ hs, rfl⟩

/-- No attempt can take a step. -/
def Stuck (w : World ε V) : Prop := ∀ a ∈ w.cache.dispatcher.running, w.canStep a = false

/-- Whether an attempt can take a step is a matter of the clock, and of the attempts. -/
theorem Stuck.still (h : Stuck w) (now : v.now = w.now) (dispatcher : v.cache.dispatcher = w.cache.dispatcher) :
    Stuck v := by
  intro a listed
  have same : v.canStep a = w.canStep a := by
    unfold canStep
    rw [now, dispatcher]
  exact same.trans (h a (dispatcher ▸ listed))

/-- No reader can take a step. -/
def Unready (w : World ε V) : Prop := ∀ s ∈ w.seats, s.reader.isReady w.cache = false

/-- The attempts come to wait, or end. -/
theorem Closing.attempts_rest (h : Closing number w) : ∃ v, Becomes w v ∧ Closing number v ∧ Stuck v := by
  refine becomes_until errand (fun w closing stirs => ?_) h
  obtain ⟨a, listed, can⟩ : ∃ a ∈ w.cache.dispatcher.running, w.canStep a = true := by
    simpa [Stuck] using stirs
  have wears := closing.oneShot.attempt_wears closing.reachable (closing.alone listed) can
  exact ⟨.attempt a.number, closing.next (.attempt a.number), wears.2⟩

/-- The readers that are served go. -/
theorem Closing.readers_rest (h : Closing number w) (stuck : Stuck w) :
    ∃ v, Becomes w v ∧ (Closing number v ∧ Stuck v) ∧ Unready v := by
  refine becomes_until (fun w => w.seats.length) (fun w ⟨closing, stuck⟩ stirs => ?_) ⟨h, stuck⟩
  obtain ⟨s, listed, ready⟩ : ∃ s ∈ w.seats, s.reader.isReady w.cache = true := by
    simpa [Unready] using stirs
  have advanced := advanceReader_advanced (closing.reachable.attended.seat?_eq listed)
  obtain ⟨item, given⟩ := Reader.item_of_ready (closing.committed s listed) ready w.now
  -- whatever it is given is the last thing that its task wants
  have fewer := length_seats_lt listed advanced given (by rw [closing.tasked s listed]; rfl)
  have still := stuck.still advanced.now (closing.reader_frame s.key).1
  exact ⟨.reader s.key, ⟨closing.next (.reader s.key), still⟩, fewer⟩

/-- Nobody but the refresher can take a step. -/
structure Unwoken (number : V → Nat) (w : World ε V) : Prop extends Closing number w where
  stuck : Stuck w
  unready : Unready w

theorem Unwoken.settled (h : Unwoken number w) (rests : w.isRefresherReady = false) : w.IsSettled := by
  intro a _
  cases a with
  | refresher => exact rests
  | reader key =>
      cases seated : w.seat? key with
      | none => rw [isReady, seated, Option.any_none]
      | some s => rw [isReady, seated, Option.any_some, h.unready s (seat?_mem seated).1, Bool.and_false]
  | attempt n =>
      cases running : w.cache.dispatcher.attempt? n with
      | none => rw [isReady, running, Option.any_none]
      | some a => rw [isReady, running, Option.any_some, h.stuck a (Dispatcher.attempt?_mem running).1]

/-- The refresher wakes nobody else. -/
theorem Unwoken.next (h : Unwoken number w) : Unwoken number (w.apply (w.nextMove .refresher)) := by
  obtain ⟨now, dispatcher, seats⟩ := w.chore_frame w.isChore_refresher
  refine ⟨h.toClosing.next .refresher, h.stuck.still now dispatcher, fun s listed => ?_⟩
  rw [seats] at listed
  exact (Reader.isReady_of_committed (h.committed s listed) dispatcher).trans (h.unready s listed)

/-! ## §5. The refresher. -/

/-- How many steps the refresher has before it at most: it sets its alarm after each reaction. -/
def toil (w : World ε V) : Nat :=
  2 * w.load + match w.refresher with
    | .arming _ => 1
    | _ => 0

/-- Each step that a refresher at work takes of its own accord leaves fewer. -/
theorem OnDuty.toils (h : w.OnDuty) (ready : w.isRefresherReady = true) :
    (w.apply (w.nextMove .refresher)).toil < w.toil := by
  have load := (h.round w.isChore_refresher).load h
  unfold isRefresherReady at ready
  cases task : w.refresher with
  | idle | stopped => simp [task] at ready
  | arming wokenFor =>
      obtain ⟨alarm, sets⟩ := h.sets wokenFor
      have arms : w.nextMove .refresher = .arm := by simp [nextMove, task]
      have armed : (w.apply .arm).refresher = .armed wokenFor alarm := by
        show w.armRefresher.refresher = _
        simp only [armRefresher, task, sets]
      rw [arms] at load ⊢
      rw [toil, toil, task, armed]
      show 2 * (w.apply .arm).load + 0 < 2 * w.load + 1
      omega
  | armed wokenFor alarm =>
      rw [task] at ready
      obtain ⟨cue, next⟩ := Option.isSome_iff_exists.mp ready
      have takes : w.nextMove .refresher = .react cue := by simp [nextMove, task, next]
      have has : w.hasCue cue = true := List.find?_some next
      have reacts : w.reacts (.react cue) = true := by
        rw [World.reacts, task]
        exact has
      rw [takes, reacts] at load
      rw [takes, toil, toil, task]
      split <;> simp only [Bool.toNat_true] at load <;> omega

/-- A refresher at work comes to rest. -/
theorem Unwoken.settles_on_duty (h : Unwoken number w) (duty : w.OnDuty) : ∃ v, Becomes w v ∧ v.IsSettled := by
  have rests : ∃ v, Becomes w v ∧ (Unwoken number v ∧ v.OnDuty) ∧ v.isRefresherReady = false := by
    refine becomes_until toil (fun w ⟨unwoken, duty⟩ stirs => ?_) ⟨h, duty⟩
    have round := duty.round w.isChore_refresher
    exact ⟨.refresher, ⟨unwoken.next, duty.after round⟩, duty.toils (Bool.of_not_eq_false stirs)⟩
  obtain ⟨v, becomes, ⟨unwoken, _⟩, rests⟩ := rests
  exact ⟨v, becomes, unwoken.settled rests⟩

/-- A refresher that is to set its alarm for a deadline that the clock cannot name ends. -/
theorem rests_of_overflow {wokenFor : Option Instant} (arming : w.refresher = .arming wokenFor)
    (beyond : w.cache.staleness.deadline = .overflow) :
    (w.apply (w.nextMove .refresher)).isRefresherReady = false := by
  have arms : w.nextMove .refresher = .arm := by simp [nextMove, arming]
  have ends : w.armRefresher = w.stopRefresher := by
    simp only [armRefresher, arming, beyond, Refresher.arm]
  have stopped : w.stopRefresher.refresher = .stopped := by
    rw [stopRefresher, if_pos (by rw [arming]; rfl)]
  rw [arms]
  show w.armRefresher.isRefresherReady = false
  rw [ends, isRefresherReady, stopped]

/-- A refresher that reacts is to set its alarm next, for the same deadline. -/
theorem arming_of_react {cue : Cue} {wokenFor alarm : Option Instant} (armed : w.refresher = .armed wokenFor alarm)
    (has : w.hasCue cue = true) : (∃ wokenFor', (w.react cue).refresher = .arming wokenFor')
      ∧ (w.react cue).cache.staleness.deadline = w.cache.staleness.deadline := by
  have book := continues_react w cue
  refine ⟨?_, Staleness.deadline_eq book.freshness book.lastSuccess⟩
  unfold react
  rw [armed]
  cases cue with
  | notice =>
      cases taken : w.cache.staleness.notices with
      | nil => simp [hasCue, taken] at has
      | cons => exact ⟨_, rfl⟩
  | signal =>
      cases found : w.bus.bind Bus.receive? with
      | none => simp [hasCue, found] at has
      | some => exact ⟨_, rfl⟩
  | timer =>
      dsimp only
      rw [if_pos has]
      exact ⟨_, rfl⟩

/-- A refresher whose deadline the clock cannot name ends. -/
theorem Unwoken.settles_beyond (h : Unwoken number w) (beyond : w.cache.staleness.deadline = .overflow) :
    ∃ v, Becomes w v ∧ v.IsSettled := by
  cases ready : w.isRefresherReady with
  | false => exact ⟨w, .refl w, h.settled ready⟩
  | true =>
      have ends {v : World ε V} (h : Unwoken number v) {wokenFor : Option Instant}
          (arming : v.refresher = .arming wokenFor) (beyond : v.cache.staleness.deadline = .overflow) :
          ∃ u, Becomes v u ∧ u.IsSettled :=
        ⟨_, .step .refresher (.refl _), h.next.settled (rests_of_overflow arming beyond)⟩
      unfold isRefresherReady at ready
      cases task : w.refresher with
      | idle | stopped => simp [task] at ready
      | arming wokenFor => exact ends h task beyond
      | armed wokenFor alarm =>
          -- it reacts once more, and ends where it is to set its alarm
          rw [task] at ready
          obtain ⟨cue, next⟩ := Option.isSome_iff_exists.mp ready
          have takes : w.nextMove .refresher = .react cue := by simp [nextMove, task, next]
          obtain ⟨⟨wokenFor', arming⟩, same⟩ := arming_of_react task (List.find?_some next)
          have h' := h.next
          rw [takes] at h'
          obtain ⟨v, becomes, settled⟩ := ends h' arming (same.trans beyond)
          exact ⟨v, .step .refresher (takes ▸ becomes), settled⟩

/-- **Everything comes to rest**, where nobody comes to read any more. -/
theorem Closing.settles (h : Closing number w) : ∃ v, Becomes w v ∧ v.IsSettled := by
  obtain ⟨u, becomes, closing, stuck⟩ := h.attempts_rest
  obtain ⟨v, becomes', ⟨closing, stuck⟩, unready⟩ := closing.readers_rest stuck
  -- what is left is the refresher, which wakes nobody
  have unwoken : Unwoken number v := ⟨closing, stuck, unready⟩
  have rest : ∃ q, Becomes v q ∧ q.IsSettled := by
    by_cases beyond : v.cache.staleness.deadline = .overflow
    · exact unwoken.settles_beyond beyond
    · cases running : v.refresher.isRunning with
      | true => exact unwoken.settles_on_duty (closing.reliable [] running beyond)
      | false =>
          refine ⟨v, .refl v, unwoken.settled ?_⟩
          unfold isRefresherReady
          cases task : v.refresher with
          | idle | stopped => rfl
          | arming | armed => simp [task, Refresher.isRunning] at running
  obtain ⟨q, becomes'', settled⟩ := rest
  exact ⟨q, (becomes.trans becomes').trans becomes'', settled⟩

/-! ## §6. The start of an attempt. -/

/-- No call of the source lies ahead. -/
theorem Reachable.calls_past (h : Reachable w) : ∀ c ∈ w.calls, c.2 ≤ w.now := by
  induction h with
  | initial initial => cases initial <;> exact fun c hc => nomatch hc
  | @move w reachable m ih =>
      intro c hc
      have since := (apply_step w m).now_le
      rcases (apply_step w m).calls_cases with same | ⟨a, _, _, called⟩
      · exact Int.le_trans (ih c (same ▸ hc)) since
      · rw [called] at hc
        rcases List.mem_cons.mp hc with rfl | before
        · exact since
        · exact Int.le_trans (ih c before) since

/-- Time passes, and nobody comes. -/
theorem Closing.pass (h : Closing number w) (d : Duration) : Closing number (w.apply (.pass d)) :=
  ⟨h.reachable.move _, h.oneShot.apply h.reachable rfl, h.few, h.committed, h.tasked,
    fun moves => h.reliable (.pass d :: moves)⟩

/-- Where nobody can take a step, the only attempt sleeps until its start at most, if it is on time and the start
lies ahead. -/
theorem Closing.sleeps (h : Closing number w) {n : Nat} {start : Instant} (onTime : OnTime n start w)
    (stuck : Stuck w) (ahead : w.now < start) {a : Attempt ε V} (listed : a ∈ w.cache.dispatcher.running) :
    a.timer? = some start := by
  have can := stuck a listed
  cases onTime with
  | waits b waits number earliest ready =>
      obtain rfl : a = b := by
        rw [h.alone waits] at listed
        exact List.mem_singleton.mp listed
      unfold Attempt.earliest? at earliest
      unfold canStep at can
      unfold Attempt.timer?
      split at earliest
      next progress => simp [progress] at can
      next progress => simpa [progress] using earliest
      next progress => simp [progress, ready] at can
      next => cases earliest
  | called call => exact absurd (h.reachable.calls_past _ call) (Int.not_le.mpr ahead)
  | refused gone => cases gone.1.symm.trans h.oneShot.owned

/-- **The start of an attempt that is on time can be reached**, and then everything comes to rest again. -/
theorem Closing.reaches (h : Closing number w) {n : Nat} {start : Instant} (onTime : OnTime n start w)
    (settled : w.IsSettled) (named : start ≤ w.now ∨ start < Instant.horizon) :
    ∃ d v, w.isGradual [.pass d] = true ∧ Becomes (w.apply (.pass d)) v ∧ v.IsSettled ∧ start ≤ v.now := by
  obtain ⟨d, gradual, passed⟩ : ∃ d, w.isGradual [.pass d] = true ∧ start ≤ (w.apply (.pass d)).now := by
    have passes (d : Duration) : (w.apply (.pass d)).now = (w.now.later? d).getD w.now := rfl
    by_cases come : start ≤ w.now
    · have still : (w.apply (.pass 0)).now = w.now := by simp [passes, Instant.later?]
      exact ⟨0, by simp [isGradual, still], still.symm ▸ come⟩
    · -- the attempt, if there is one, sleeps as long: the time passes up to its start in one go
      have ahead : w.now < start := Int.not_le.mp come
      have reaches : w.now + ((start - w.now).toNat : Duration) = start := by
        rw [Int.toNat_of_nonneg (Int.sub_nonneg_of_le (Int.le_of_lt ahead))]
        exact (Int.sub_eq_iff_eq_add'.mp rfl).symm
      have passed : (w.apply (.pass (start - w.now).toNat)).now = start := by
        rw [passes, Instant.later?_eq (reaches.symm ▸ named.resolve_left come), Option.getD_some, reaches]
      have stuck : Stuck w := fun a listed => settled.attempt h.reachable.ordered listed
      refine ⟨_, ?_, Int.le_of_eq passed.symm⟩
      rw [isGradual, passed, Bool.and_eq_true, Bool.or_eq_true, List.all_eq_true]
      refine ⟨Or.inr fun a listed => ?_, rfl⟩
      rw [stuck a listed, h.sleeps onTime stuck ahead listed]
      simp
  obtain ⟨v, becomes, rests⟩ := (h.pass d).settles
  refine ⟨d, v, gradual, becomes, rests, ?_⟩
  obtain ⟨actors, rfl⟩ := becomes
  rw [now_run_turns]
  exact passed

/-! ## §7. A signal or a read where nothing else goes on. -/

theorem turns_plain (w : World ε V) (actors : List Actor) : (∀ m ∈ w.turns actors, m.isOrdinary = true)
    ∧ ∀ reading role, .openReader reading role ∉ w.turns actors := by
  induction actors generalizing w with
  | nil => exact ⟨fun m made => (nomatch made), fun _ _ => List.not_mem_nil⟩
  | cons a actors ih =>
      obtain ⟨ordinary, unopened⟩ := w.nextMove_plain a
      obtain ⟨ordinary', unopened'⟩ := ih (w.apply (w.nextMove a))
      refine ⟨fun m made => ?_, fun reading role made => ?_⟩
      · rcases List.mem_cons.mp made with rfl | later
        · exact ordinary
        · exact ordinary' m later
      · rcases List.mem_cons.mp made with own | later
        · exact unopened reading role own.symm
        · exact unopened' reading role later

theorem Closing.becomes (h : Closing number w) (becomes : Becomes w v) : Closing number v := by
  obtain ⟨actors, rfl⟩ := becomes
  induction actors generalizing w with
  | nil => exact h
  | cons a actors ih => exact ih (h.next a)

/-- Nobody comes to read where nobody is. -/
theorem Vacant.closing (h : Vacant w) (reachable : Reachable w) (oneShot : OneShot number w)
    (reliable : Reliable w) : Closing number w where
  reachable := reachable
  oneShot := oneShot
  few := by rw [h.unfetched]; exact Nat.zero_le 1
  committed := fun s seated => by rw [h.unread] at seated; cases seated
  tasked := fun s seated => by rw [h.unread] at seated; cases seated
  reliable := reliable

/-- After the look of a read that came where everything was at ease, nobody comes any more. -/
theorem Looked.closing {content : Sourced V} (l : Looked content w (w.run w.lookMoves)) (reachable : Reachable w)
    (ledger : Ledger number w) (reliable : Reliable w) : Closing number (w.run w.lookMoves) where
  reachable := reachable.run _
  oneShot := (ledger.run reachable w.ordinary_lookMoves).toOneShot
  few := by
    cases due : w.cache.staleness.isDue w.now with
    | false => rw [(l.served due).2]; exact Nat.zero_le 1
    | true =>
        cases named : (w.now.later? (w.cache.dispatcher.holdBack w.now)).isSome with
        | true => rw [(l.launched due named).1]; exact Nat.le_refl 1
        | false => rw [(l.crashed due named).2]; exact Nat.zero_le 1
  committed := l.committed
  tasked := l.tasked
  reliable := fun moves => by
    rw [← run_append]
    exact reliable _

/-- The start of the next attempt has come already, or the clock can name it. -/
theorem named_nextStart (named : (w.now.later? (w.cache.dispatcher.holdBack w.now)).isSome = true) :
    w.nextStart ≤ w.now ∨ w.nextStart < Instant.horizon := by
  unfold Instant.later? at named
  split at named
  next h =>
    refine h.imp_left fun prompt => ?_
    rw [nextStart, prompt]
    exact Int.le_of_eq (Int.add_zero _)
  next => cases named

/-- **What comes of a read where everything is at ease.**  Everything comes to rest, in one order of the steps
at least.  Whatever the order, and whatever happens next, as long as nobody else reads: if the held value is not
due, or if the clock cannot name the start of a fetch, the source is not called.  Otherwise the start of the
fetch can be reached, and once everything is at rest there or later, the source has been called once, at that
start. -/
theorem AtEase.reads (h : AtEase w) (reachable : Reachable w) (ledger : Ledger number w) (reliable : Reliable w)
    {content : Sourced V} (holding : w.cache.cell.phase = .holding (.concealed content)) :
    let asked := w.apply (.openReader .once .read)
    let due := w.cache.staleness.isDue w.now
    let named := (w.now.later? (w.cache.dispatcher.holdBack w.now)).isSome
    (∃ v, Becomes asked v ∧ v.IsSettled)
      ∧ ∀ v, Becomes asked v → v.IsSettled →
        (∀ moves : List (Move ε V), (∀ m ∈ moves, m.isOrdinary = true) →
          (∀ reading role, .openReader reading role ∉ moves) → let q := v.run moves
            (due = false ∨ named = false → q.calls = w.calls)
              ∧ (due = true → named = true → v.isGradual moves = true → q.IsSettled → w.nextStart ≤ q.now →
                  q.calls = (w.cache.dispatcher.latest + 1, w.nextStart) :: w.calls))
          ∧ (due = true → named = true → ∃ d u, v.isGradual [.pass d] = true ∧ Becomes (v.apply (.pass d)) u
              ∧ u.IsSettled ∧ w.nextStart ≤ u.now) := by
  intro asked due named
  have l := h.looked reachable holding
  have closing := l.closing reachable ledger reliable
  have looks : Becomes asked (w.run w.lookMoves) :=
    .step (.reader w.nextKey) (.step (.reader w.nextKey) (.refl _))
  refine ⟨?_, fun v becomes settled => ?_⟩
  · obtain ⟨v, becomes, settled⟩ := closing.settles
    exact ⟨v, looks.trans becomes, settled⟩
  · obtain ⟨actors, rfl⟩ := becomes
    obtain ⟨rest, same⟩ := h.looks reachable holding settled
    have now : (asked.run (asked.turns actors)).now = w.now := by
      rw [now_run_turns]
      show (w.openReader .once .read).now = w.now
      unfold openReader
      split <;> rfl
    rw [same] at settled now ⊢
    refine ⟨fun moves ordinary unopened => ?_, fun isDue isNamed => ?_⟩
    · obtain ⟨ordinary', unopened'⟩ := (w.run w.lookMoves).turns_plain rest
      have ordinary : ∀ m ∈ (w.run w.lookMoves).turns rest ++ moves, m.isOrdinary = true := fun m made =>
        (List.mem_append.mp made).elim (ordinary' m) (ordinary m)
      have calls := h.calls reachable ledger holding ordinary fun reading role made =>
        (List.mem_append.mp made).elim (unopened' reading role) (unopened reading role)
      simp only [run_append] at calls
      exact ⟨calls.1, fun isDue isNamed gradual =>
        calls.2 isDue isNamed (isGradual_append.mpr ⟨isGradual_turns _ rest, gradual⟩)⟩
    · have onTime := (l.launched isDue isNamed).2.run (reachable.run _) (isGradual_turns _ rest)
      exact (closing.becomes ⟨rest, rfl⟩).reaches onTime settled (now ▸ named_nextStart isNamed)

end World

end SingleFlight
