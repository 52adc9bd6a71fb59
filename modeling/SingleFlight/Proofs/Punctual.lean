/-
  SingleFlight.Proofs.Punctual — the moment at which an attempt calls the source.

  A start that was set keeps the attempt from calling the source too early.
  That it does not call late either takes two things: nobody else stands in the
  way, and the clock is moved with care, from one timer to the next and only
  when no attempt has anything to do.  When nobody owes an answer both the start
  that was set last and everybody who could stand in the way have passed; so the
  next attempt calls at its start, to the instant.

  Main results:
    * `Reachable.start_passed` — whoever has turned to the source has let its
      start pass.
    * `launch_cases` — a launch is the doing of one reader, whose read it serves.
    * `OnTime.run`, `OnTime.turns` — in a gradual run an attempt turns to the
      source at its start, and at no other instant.
    * `exists_gradual` — there is a gradual run that comes to that call.
-/
import SingleFlight.Proofs.Spacing
import SingleFlight.Proofs.Superseded

namespace SingleFlight

variable {ε V : Type}

open Dispatcher (Orderly Begun)

namespace World

/-! ## §1. Starts that have passed. -/

/-- Of those who wait, only one that queues turns to the source. -/
theorem Turn.queued_of_executing {w w' : World ε V} {a b : Attempt ε V} (t : Turn w a w' (some b))
    (waiting : a.isExecuting = false) (executes : b.isExecuting = true) : a.progress = .queued := by
  have late (turned : a.isExecuting = true) : False := by
    rw [waiting] at turned
    cases turned
  cases t with
  | refused queued | called queued | opened queued => exact queued
  | rest => exact (late executes).elim
  | wait _ hp => rcases hp with rfl | ⟨_, rfl⟩ <;> cases executes
  | asked progress | came progress | ignored progress | stored progress | discarded progress
  | failed progress => exact (late (by rw [Attempt.isExecuting, progress])).elim
  | resumed progress => exact (late (by rw [Attempt.isExecuting, progress])).elim

/-- Whoever has turned to the source after a step had done so before, or waited for nothing but that. -/
theorem Step.begun_cases {w w' : World ε V} {m : Move ε V} (s : Step w m w') (ordered : Ordered w) {n : Nat}
    (begun : w'.cache.dispatcher.Begun n) :
    w.cache.dispatcher.Begun n
      ∨ ∃ a ∈ w.cache.dispatcher.running, a.number = n ∧ a.progress = .queued := by
  have touched {c : Cache ε V} (t : Cache.Touch w.cache w.now c) (begun : c.dispatcher.Begun n) :
      w.cache.dispatcher.Begun n := by
    rcases begun with answered | ⟨b, hb, number, executes⟩
    · refine Or.inl ?_
      rwa [Dispatcher.hasAnswered, answer?_touch t ordered.dispatcher] at answered
    · rcases mem_touch t hb with old | rfl
      · exact Or.inr ⟨b, old, number, executes⟩
      · cases executes
  cases s with
  | aside ha | dropReader ha => exact Or.inl (ha.dispatcher ▸ begun)
  | @invalidate asided ha | @poke asided ha =>
      have begun : asided.cache.dispatcher.Begun n := begun
      exact Or.inl (ha.dispatcher ▸ begun)
  | pass | openReader | follow | bind => exact Or.inl begun
  | subscribe => exact Or.inl (touched (Cache.subscribe_touch w.cache w.now) begun)
  | reader own seated ha =>
      rw [ha.dispatcher] at begun
      exact Or.inl (touched (Reader.step_stepped _ _ _).touch begun)
  | @attempt a left _ own running t =>
      have ha := (Dispatcher.attempt?_mem running).1
      rcases begun with answered | ⟨b, hb, number, executes⟩
      · obtain ⟨answer, given⟩ := Dispatcher.hasAnswered_iff.mp answered
        rcases t.answer_source ordered.dispatcher ha given with old | ⟨own, _, said⟩
        · exact Or.inl (Or.inl (Dispatcher.hasAnswered_iff.mpr ⟨answer, old⟩))
        · refine Or.inl (Or.inr ⟨a, ha, own.symm, ?_⟩)
          rcases said with ⟨_, progress⟩ | ⟨_, _, _, _, progress⟩
          · rw [Attempt.isExecuting, progress]
          · rw [Attempt.isExecuting, progress]
      · have own (hleft : left = some b) : a.number = n := (t.number hleft).symm.trans number
        rcases t.mem_cases hb with ⟨old, _⟩ | hleft | ⟨old, _⟩
        · exact Or.inl (Or.inr ⟨b, old, number, executes⟩)
        · by_cases turned : a.isExecuting = true
          · exact Or.inl (Or.inr ⟨a, ha, own hleft, turned⟩)
          · subst hleft
            exact Or.inr ⟨a, ha, own rfl, t.queued_of_executing (by simpa using turned) executes⟩
        · exact Or.inl (Or.inr ⟨b, old, number, executes⟩)

/-- An attempt that is yet to be launched has not turned to the source. -/
theorem Ordered.not_begun {w : World ε V} (h : Ordered w) {n : Nat} (unborn : w.cache.dispatcher.latest < n) :
    ¬ w.cache.dispatcher.Begun n := by
  rintro (answered | ⟨a, ha, rfl, _⟩)
  · exact absurd (h.dispatcher.known n answered) (Nat.not_le.mpr unborn)
  · exact absurd (h.dispatcher.bounded a ha).2 (Nat.not_le.mpr unborn)

/-- **Whoever has turned to the source has let its start pass.** -/
theorem Reachable.start_passed {w : World ε V} (h : Reachable w) {start : Instant}
    (last : w.cache.dispatcher.lastStart = some start)
    (begun : w.cache.dispatcher.Begun w.cache.dispatcher.latest) : start ≤ w.now := by
  induction h with
  | initial hw => cases hw <;> cases last
  | @move w reachable m ih =>
      have ordered := reachable.ordered
      have s := apply_step w m
      -- an attempt that was launched just now has not turned to anybody
      have unborn (latest : (w.apply m).cache.dispatcher.latest = w.cache.dispatcher.latest + 1) : False := by
        rw [latest] at begun
        rcases s.begun_cases ordered begun with before | ⟨a, ha, number, _⟩
        · exact ordered.not_begun (Nat.lt_succ_self _) before
        · have known := (ordered.dispatcher.bounded a ha).2
          omega
      cases s.schedules ordered with
      | launches latest | overflows latest => exact (unborn latest).elim
      | keeps latest lastStart =>
          rw [latest] at begun
          rw [lastStart] at last
          refine Int.le_trans ?_ s.now_le
          rcases s.begun_cases ordered begun with before | ⟨a, ha, number, queued⟩
          · exact ih last before
          · -- it turns to the source now, which its start allows
            exact (reachable.scheduled last).waits a ha number w.now (by rw [Attempt.earliest?, queued])

/-- A start was set for somebody. -/
theorem Reachable.latest_pos {w : World ε V} (h : Reachable w) {start : Instant}
    (last : w.cache.dispatcher.lastStart = some start) : 0 < w.cache.dispatcher.latest := by
  induction h with
  | initial hw => cases hw <;> cases last
  | @move w reachable m ih =>
      cases (apply_step w m).schedules reachable.ordered with
      | launches latest | overflows latest =>
          rw [latest]
          exact Nat.succ_pos _
      | keeps latest lastStart =>
          rw [latest]
          exact ih (lastStart.symm.trans last)

/-! ## §2. Launches. -/

end World

theorem Phase.eq_calculating {p : Phase V} (busy : p.isCalculating = true) : p = .calculating := by
  cases p with
  | calculating => rfl
  | empty | flushed | invalid | holding => cases busy

namespace World

/-- **A launch is the doing of one reader**: its read is evaluated, and is told to wait for the attempt. -/
theorem launch_cases {w : World ε V} (h : Reachable w) {m : Move ε V} (launched : w.launches m = true) :
    ∃ seat next, m = .reader seat.key ∧ w.seat? seat.key = some seat
      ∧ w.cache.dispatcher.launch w.now = .started next (w.cache.dispatcher.latest + 1)
      ∧ (w.apply m).cache.dispatcher = next ∧ (w.apply m).cache.cell.phase = .calculating
      ∧ seat.reader.evaluation? w.cache w.now
        = some (.ticket (.wait (w.cache.dispatcher.latest + 1))) := by
  unfold launches at launched
  rw [Bool.and_eq_true, bne_iff_ne] at launched
  obtain ⟨newer, busy⟩ := launched
  have busy := Phase.eq_calculating busy
  have s := apply_step w m
  generalize w.apply m = w' at newer busy s ⊢
  have same (dispatcher : w'.cache.dispatcher = w.cache.dispatcher) : False :=
    newer (congrArg Dispatcher.latest dispatcher)
  cases s with
  | aside ha | dropReader ha => exact (same ha.dispatcher).elim
  | @invalidate asided ha | @poke asided ha =>
      have dispatcher : asided.cache.dispatcher = w.cache.dispatcher := ha.dispatcher
      exact (same dispatcher).elim
  | pass | openReader | follow => exact (same rfl).elim
  | bind => exact (newer rfl).elim
  | subscribe => exact (same w.cache.subscribe_dispatcher).elim
  | attempt own running t =>
      exact (newer (t.progressed h.ordered.dispatcher (Dispatcher.attempt?_mem running).1).kept.latest).elim
  | @reader seat _ own seated ha =>
      have evaluated := seat.reader.step_evaluated w.cache w.now
      have cell := ha.cell
      have dispatcher := ha.dispatcher
      generalize (seat.reader.step w.cache w.now).1 = c at evaluated cell dispatcher
      generalize told : seat.reader.evaluation? w.cache w.now = came at evaluated
      cases evaluated with
      | idle | noticed | served => exact (same dispatcher).elim
      | ticket fate =>
          cases fate with
          | unbound | joined | lost | broken => exact (same dispatcher).elim
          | overflow sound idle launched =>
              -- who runs beyond the clock leaves nothing to wait for
              rw [cell] at busy
              exact absurd busy idle
          | @started next n sound idle launched =>
              obtain rfl := (Dispatcher.launch_started launched).number
              exact ⟨seat, next, own, seated, launched, dispatcher, congrArg Cell.phase cell, told⟩

/-- Nobody on the list owes an answer. -/
def Unowing (w : World ε V) : Prop :=
  ∀ a ∈ w.cache.dispatcher.running, w.cache.dispatcher.hasAnswered a.number = true

instance (w : World ε V) : Decidable (Unowing w) :=
  inferInstanceAs (Decidable (∀ a ∈ w.cache.dispatcher.running,
    w.cache.dispatcher.hasAnswered a.number = true))

section

variable {w : World ε V} {next : Dispatcher ε V} {n : Nat}

/-- When nobody on the list owes an answer and a launch succeeds, everybody so far has answered. -/
theorem Unowing.answered (unowing : Unowing w) (h : Reachable w)
    (launched : w.cache.dispatcher.launch w.now = .started next n) {k : Nat} (hk : 0 < k)
    (known : k ≤ w.cache.dispatcher.latest) : w.cache.dispatcher.hasAnswered k = true := by
  have orderly := h.ordered.dispatcher
  have unjammed : ¬ Dispatcher.Jammed w.now w.cache.dispatcher := fun jam => by
    obtain ⟨start, named⟩ := (Dispatcher.launch_started launched).named
    rw [jam.overflows h.ordered.named] at named
    cases named
  cases hp : w.cache.dispatcher.pending with
  | none => exact orderly.idle.resolve_left unjammed hp k hk known
  | some last =>
      -- the attempt in the pending place is the newest, and has answered without leaving it
      have newest := (orderly.pending last hp).2
      have answered : w.cache.dispatcher.hasAnswered last = true := by
        rcases h.awaited.pending last hp with answered | ⟨a, ha, rfl⟩
        · exact answered
        · exact unowing a ha
      rcases Nat.lt_or_eq_of_le known with before | rfl
      · exact orderly.closed last k answered hk (newest ▸ before)
      · exact newest ▸ answered

/-- Then the attempt is launched alone: a stream that went on is stopped. -/
theorem Unowing.running (unowing : Unowing w) (h : Reachable w)
    (launched : w.cache.dispatcher.launch w.now = .started next n) :
    next.running = [w.cache.dispatcher.newest w.now] := by
  have orderly := h.ordered.dispatcher
  have spared : w.cache.dispatcher.clear.running = [] := by
    refine List.eq_nil_iff_forall_not_mem.mpr fun b hb => ?_
    obtain ⟨hb, spared⟩ := Dispatcher.mem_clear_iff.mp hb
    have fits := orderly.fits b hb
    have said := unowing b hb
    have executes : b.isExecuting = true := by
      refine Bool.of_not_eq_false fun waiting => ?_
      rw [(fits.queues waiting).unanswered] at said
      cases said
    -- it is the newest, since the newest has answered and outlives no older one
    obtain ⟨some, le⟩ := orderly.bounded b hb
    have last := unowing.answered h launched (Nat.lt_of_lt_of_le some le) (Nat.le_refl _)
    have newest := Nat.le_antisymm le (orderly.passed _ last b hb)
    exact (fits.executes executes).delivered.mp said (orderly.item_of_spared hb spared newest)
  rw [(Dispatcher.launch_started launched).running, spared]
  rfl

/-- Then the start that was set last has passed. -/
theorem Unowing.start_passed (unowing : Unowing w) (h : Reachable w)
    (launched : w.cache.dispatcher.launch w.now = .started next n) {start : Instant}
    (last : w.cache.dispatcher.lastStart = some start) : start ≤ w.now :=
  h.start_passed last (Or.inl (unowing.answered h launched (h.latest_pos last) (Nat.le_refl _)))

end

/-! ## §3. Who stays on the list. -/

/-- Whoever is on the list after a step was on it before, or has been launched, or has taken the step. -/
theorem Step.mem_cases {w w' : World ε V} {m : Move ε V} (s : Step w m w') {b : Attempt ε V}
    (hb : b ∈ w'.cache.dispatcher.running) :
    b ∈ w.cache.dispatcher.running ∨ b = w.cache.dispatcher.newest w.now ∨ m = .attempt b.number := by
  have stays (hb : b ∈ w.cache.dispatcher.running) :
      b ∈ w.cache.dispatcher.running ∨ b = w.cache.dispatcher.newest w.now ∨ m = .attempt b.number :=
    Or.inl hb
  cases s with
  | aside ha | dropReader ha => exact stays (ha.dispatcher ▸ hb)
  | invalidate ha | poke ha =>
      refine stays ?_
      rw [← ha.dispatcher]
      exact hb
  | pass | bind | openReader | follow => exact stays hb
  | subscribe => exact (mem_touch (Cache.subscribe_touch w.cache w.now) hb).imp_right Or.inl
  | @reader seat _ own seated ha =>
      rw [ha.dispatcher] at hb
      exact (mem_touch (seat.reader.step_stepped w.cache w.now).touch hb).imp_right Or.inl
  | attempt own running t =>
      rcases t.mem_running hb with old | left
      · exact stays old
      · exact Or.inr (Or.inr (t.number left ▸ own))

/-- An attempt that owes its answer stays as it is until it takes a step itself. -/
theorem Step.stays {w w' : World ε V} {m : Move ε V} (s : Step w m w') (ordered : Ordered w)
    {a : Attempt ε V} (ha : a ∈ w.cache.dispatcher.running)
    (unanswered : w.cache.dispatcher.hasAnswered a.number = false) (other : m ≠ .attempt a.number) :
    a ∈ w'.cache.dispatcher.running := by
  rcases s.tracks ordered (Or.inr ⟨a, ha, rfl⟩) with answered | ⟨b, hb, number⟩
  · rcases s.answer_source ordered answered with before | own
    · rw [unanswered] at before
      cases before
    · exact absurd own other
  · rcases s.mem_cases hb with old | rfl | own
    · rw [← ordered.dispatcher.eq_of_number old ha number]
      exact hb
    · have known := (ordered.dispatcher.bounded a ha).2
      have number : w.cache.dispatcher.latest + 1 = a.number := number
      omega
    · exact absurd (number ▸ own) other

/-- The source that the attempts call belongs to an owner who is gone. -/
def OwnerGone (w : World ε V) : Prop :=
  w.hasOwner = false
    ∧ ∃ source owner, w.cache.dispatcher.binding = some source ∧ source.owner = some owner

theorem OwnerGone.apply {w : World ε V} (h : OwnerGone w) (reachable : Reachable w)
    (isSealed : w.cache.dispatcher.sealed = true) (m : Move ε V) : OwnerGone (w.apply m) := by
  obtain ⟨gone, source, owner, bound, owned⟩ := h
  have same := (((apply_step w m).remembers reachable.ordered).binding isSealed).2
  refine ⟨?_, source, owner, same.trans bound, owned⟩
  by_cases leaves : m = .dropOwner
  · rw [leaves]
    rfl
  · exact ((apply_step w m).hasOwner leaves).trans gone

/-! ## §4. On time. -/

/-- Whether the clock moves from one timer to the next: it stands still as long as an attempt can take a
step, and passes by no timer of an attempt. -/
def isGradual (w : World ε V) : List (Move ε V) → Bool
  | [] => true
  | m :: moves =>
    (decide ((w.apply m).now = w.now) || w.cache.dispatcher.running.all fun a =>
      !w.canStep a && a.timer?.all fun t => decide ((w.apply m).now ≤ t))
      && isGradual (w.apply m) moves

theorem isGradual_cons {w : World ε V} {m : Move ε V} {moves : List (Move ε V)} :
    w.isGradual (m :: moves) = true ↔ w.isGradual [m] = true ∧ (w.apply m).isGradual moves = true := by
  simp only [isGradual, Bool.and_eq_true, and_true]

theorem isGradual_append {w : World ε V} {moves more : List (Move ε V)} :
    w.isGradual (moves ++ more) = true ↔ w.isGradual moves = true ∧ (w.run moves).isGradual more = true := by
  induction moves generalizing w with
  | nil => exact (and_iff_right rfl).symm
  | cons m moves ih =>
      rw [List.cons_append, isGradual_cons, ih, ← and_assoc]
      exact and_congr_left' isGradual_cons.symm

/-- An attempt leaves the clock alone. -/
theorem now_attempt (w : World ε V) (n : Nat) : (w.apply (.attempt n)).now = w.now := by
  show (w.advanceAttempt n).now = _
  unfold advanceAttempt
  split
  next a _ => exact (stepAttempt_turn w a).choose_spec.now
  next => rfl

theorem isGradual_attempt (w : World ε V) (n : Nat) : w.isGradual [.attempt n] = true := by
  simp only [isGradual, now_attempt, decide_true, Bool.true_or, Bool.and_self]

/-- The attempt `n` calls the source at the instant `due`, or has done so; if the owner of the source is gone
by then, it does not call at all. -/
inductive OnTime (n : Nat) (due : Instant) (w : World ε V) : Prop where
  /-- It waits for that instant, and for nothing else. -/
  | waits (a : Attempt ε V) (listed : a ∈ w.cache.dispatcher.running) (number : a.number = n)
      (earliest : a.earliest? w.now = some due)
      (ready : a.predecessor.all w.cache.dispatcher.hasAnswered = true) (ahead : w.now ≤ due)
  | called (h : (n, due) ∈ w.calls)
  /-- It has turned to a source that was not there any more. -/
  | refused (gone : OwnerGone w) (launched : 0 < n ∧ n ≤ w.cache.dispatcher.latest)
      (uncalled : n ∉ w.called)
      (spent : ∀ a ∈ w.cache.dispatcher.running, a.number = n → a.isExecuting = true)

/-- An attempt that turns to the source calls it at once, unless the owner is gone. -/
theorem callSource_calls {w : World ε V} {a : Attempt ε V} {source : Source ε V}
    (bound : w.cache.dispatcher.binding = some source) :
    (w.callSource a).calls = (a.number, w.now) :: w.calls
      ∨ ((w.callSource a).calls = w.calls ∧ w.hasOwner = false
        ∧ ∃ owner, source.owner = some owner) := by
  have bound : (w.replaced a).cache.dispatcher.binding = some source := by
    simpa [replaced, withDispatcher, withCache] using bound
  unfold callSource
  dsimp only
  simp only [replaced] at bound
  rw [bound]
  dsimp only
  split
  next owner gone =>
    have gone : (if w.hasOwner then none else source.owner) = some owner := gone
    split at gone
    next => cases gone
    next absent => exact Or.inr ⟨rfl, by simpa using absent, owner, gone⟩
  next =>
    refine Or.inl ?_
    split
    · split <;> rfl
    · split <;> rfl

section

variable {w : World ε V} {a : Attempt ε V}

theorem apply_launched (running : w.cache.dispatcher.attempt? a.number = some a)
    (launched : a.progress = .launched) : w.apply (.attempt a.number)
      = w.advanceTo a (if a.delay = 0 then .queued else .heldBack (w.now + a.delay)) := by
  rw [apply_attempt running]
  simp only [World.stepAttempt, canStep, launched, if_true]

theorem apply_heldBack (running : w.cache.dispatcher.attempt? a.number = some a) {resume : Instant}
    (held : a.progress = .heldBack resume) (now : resume ≤ w.now) :
    w.apply (.attempt a.number) = w.advanceTo a .queued := by
  rw [apply_attempt running]
  simp only [World.stepAttempt, canStep, held, now, decide_true, if_true]

theorem apply_queued (running : w.cache.dispatcher.attempt? a.number = some a) (queued : a.progress = .queued)
    (ready : a.predecessor.all w.cache.dispatcher.hasAnswered = true) :
    w.apply (.attempt a.number) = w.callSource a := by
  rw [apply_attempt running]
  simp only [World.stepAttempt, canStep, queued, ready, if_true]

end

/-- An attempt that waits takes its own steps on time. -/
theorem OnTime.stepAttempt {n : Nat} {due : Instant} {w : World ε V} (reachable : Reachable w)
    {a : Attempt ε V} (running : w.cache.dispatcher.attempt? n = some a)
    (earliest : a.earliest? w.now = some due)
    (ready : a.predecessor.all w.cache.dispatcher.hasAnswered = true) (ahead : w.now ≤ due) :
    OnTime n due (w.apply (.attempt n)) := by
  obtain ⟨listed, rfl⟩ := Dispatcher.attempt?_mem running
  have ordered := reachable.ordered
  have waiting := Attempt.isExecuting_of_earliest earliest
  have advanced {p : Attempt.Progress ε V} (same : { a with progress := p }.earliest? w.now = some due) :
      OnTime a.number due (w.advanceTo a p) :=
    .waits { a with progress := p } (Dispatcher.mem_update_iff.mpr (Or.inr ⟨rfl, a, listed, rfl⟩)) rfl same
      ready ahead
  cases hp : a.progress with
  | launched =>
      rw [Attempt.earliest?, hp] at earliest
      have held := Option.some.inj earliest
      rw [apply_launched running hp]
      refine advanced ?_
      by_cases prompt : a.delay = 0
      · rw [if_pos prompt, ← held, prompt]
        exact congrArg some (Int.add_zero _).symm
      · rw [if_neg prompt, held]
        rfl
  | heldBack resume =>
      rw [Attempt.earliest?, hp] at earliest
      obtain rfl := Option.some.inj earliest
      by_cases now : resume ≤ w.now
      · rw [apply_heldBack running hp now]
        exact advanced (congrArg some (Int.le_antisymm ahead now))
      · have rests : w.apply (.attempt a.number) = w := by
          rw [apply_attempt running]
          simp only [World.stepAttempt, canStep, hp, now, decide_false, Bool.false_eq_true, if_false]
        rw [rests]
        exact .waits a listed rfl (by rw [Attempt.earliest?, hp]) ready ahead
  | queued =>
      rw [Attempt.earliest?, hp] at earliest
      obtain rfl := Option.some.inj earliest
      have stepped := apply_queued running hp ready
      obtain ⟨isSealed, bound⟩ := ordered.dispatcher.bound_of_mem listed
      obtain ⟨source, bound⟩ := Option.isSome_iff_exists.mp bound
      rw [stepped]
      rcases callSource_calls bound with called | ⟨uncalled, gone, owner, owned⟩
      · refine .called ?_
        rw [called]
        exact List.mem_cons_self
      · have remembers := (apply_step w (.attempt a.number)).remembers ordered
        have gone : OwnerGone w := ⟨gone, source, owner, bound, owned⟩
        obtain ⟨positive, known⟩ := ordered.dispatcher.bounded a listed
        rw [stepped] at remembers
        refine .refused ?_ ⟨positive, Nat.le_trans known remembers.latest⟩ ?_
          fun b hb number => executing_of_callSource hb number
        · rw [← stepped]
          exact gone.apply reachable isSealed _
        · rw [called_eq uncalled]
          exact ordered.uncalled listed waiting
  | asking | producing | reporting | answering | stuck =>
      rw [Attempt.earliest?, hp] at earliest
      cases earliest

/-- While others act an attempt that waits is left as it is; and when time passes the clock stops for it. -/
theorem OnTime.others {due : Instant} {w : World ε V} (reachable : Reachable w) {m : Move ε V}
    (gradual : w.isGradual [m] = true) {a : Attempt ε V} (listed : a ∈ w.cache.dispatcher.running)
    (earliest : a.earliest? w.now = some due)
    (ready : a.predecessor.all w.cache.dispatcher.hasAnswered = true) (ahead : w.now ≤ due)
    (other : m ≠ .attempt a.number) : OnTime a.number due (w.apply m) := by
  have ordered := reachable.ordered
  have s := apply_step w m
  have remembers := s.remembers ordered
  have waiting := Attempt.isExecuting_of_earliest earliest
  have unanswered := ((ordered.dispatcher.fits a listed).queues waiting).unanswered
  have stays := s.stays ordered listed unanswered other
  have ready' : a.predecessor.all (w.apply m).cache.dispatcher.hasAnswered = true := by
    rw [Option.all_eq_true] at ready ⊢
    intro k hk
    obtain ⟨answer, given⟩ := Dispatcher.hasAnswered_iff.mp (ready k hk)
    exact Dispatcher.hasAnswered_iff.mpr ⟨answer, remembers.answers k answer given⟩
  unfold isGradual at gradual
  rw [Bool.and_eq_true, Bool.or_eq_true, decide_eq_true_iff] at gradual
  rcases gradual.1 with still | idle
  · refine .waits a stays rfl ?_ ready' ?_
    · rw [still]
      exact earliest
    · rw [still]
      exact ahead
  · -- time passes, so the attempt is held back
    have idle := List.all_eq_true.mp idle a listed
    rw [Bool.and_eq_true, Bool.not_eq_true'] at idle
    obtain ⟨stuck, timers⟩ := idle
    cases hp : a.progress with
    | launched => simp [canStep, hp] at stuck
    | queued =>
        rw [canStep, hp] at stuck
        rw [ready] at stuck
        cases stuck
    | heldBack resume =>
        rw [Attempt.earliest?, hp] at earliest
        obtain rfl := Option.some.inj earliest
        simp only [Attempt.timer?, hp, Option.all_some, decide_eq_true_eq] at timers
        exact .waits a stays rfl (by rw [Attempt.earliest?, hp]) ready' timers
    | asking | producing | reporting | answering | stuck =>
        rw [Attempt.earliest?, hp] at earliest
        cases earliest

/-- An attempt whose source is gone does not call it later either. -/
theorem OnTime.still_refused {n : Nat} {due : Instant} {w : World ε V} (reachable : Reachable w)
    (gone : OwnerGone w) (launched : 0 < n ∧ n ≤ w.cache.dispatcher.latest) (uncalled : n ∉ w.called)
    (spent : ∀ a ∈ w.cache.dispatcher.running, a.number = n → a.isExecuting = true) (m : Move ε V) :
    OnTime n due (w.apply m) := by
  have ordered := reachable.ordered
  have s := apply_step w m
  have remembers := s.remembers ordered
  have isSealed : w.cache.dispatcher.sealed = true := by
    refine Bool.of_not_eq_false fun unsealed => ?_
    have none := ordered.dispatcher.unsealed unsealed
    omega
  -- only an attempt that waits calls the source, and nobody of this number does
  have waits (a : Attempt ε V) (ha : a ∈ w.cache.dispatcher.running) (waiting : a.isExecuting = false) :
      a.number ≠ n := by
    intro number
    rw [spent a ha number] at waiting
    cases waiting
  refine .refused (gone.apply reachable isSealed m)
    ⟨launched.1, Nat.le_trans launched.2 remembers.latest⟩ ?_ fun b hb number => Bool.of_not_eq_false fun waiting => ?_
  · rcases s.calls_cases with same | ⟨a, ha, queued, calls⟩
    · rw [called_eq same]
      exact uncalled
    · have other := waits a ha (by rw [Attempt.isExecuting, queued])
      unfold World.called at uncalled ⊢
      rw [calls]
      exact List.not_mem_cons_of_ne_of_not_mem other.symm uncalled
  · rcases s.waiting hb waiting with ⟨a, ha, same, before⟩ | rfl
    · exact waits a ha before (same.trans number)
    · have number : w.cache.dispatcher.latest + 1 = n := number
      omega

/-- **Whatever a move does, the attempt stays on time**, if the clock moves from one timer to the next. -/
theorem OnTime.apply {n : Nat} {due : Instant} {w : World ε V} (h : OnTime n due w) (reachable : Reachable w)
    {m : Move ε V} (gradual : w.isGradual [m] = true) : OnTime n due (w.apply m) := by
  cases h with
  | waits a listed number earliest ready ahead =>
      subst number
      by_cases own : m = .attempt a.number
      · rw [own]
        exact .stepAttempt reachable (reachable.ordered.dispatcher.attempt?_of_mem listed) earliest ready ahead
      · exact .others reachable gradual listed earliest ready ahead own
  | called h =>
      refine .called ?_
      rcases (apply_step w m).calls_cases with same | ⟨_, _, _, calls⟩
      · rw [same]
        exact h
      · rw [calls]
        exact List.mem_cons_of_mem _ h
  | refused gone launched uncalled spent => exact .still_refused reachable gone launched uncalled spent m

/-- **In a gradual run an attempt calls the source at its start.** -/
theorem OnTime.run {n : Nat} {due : Instant} {w : World ε V} (h : OnTime n due w) (reachable : Reachable w)
    {moves : List (Move ε V)} (gradual : w.isGradual moves = true) : OnTime n due (w.run moves) := by
  induction moves generalizing w with
  | nil => exact h
  | cons m moves ih =>
      obtain ⟨here, later⟩ := isGradual_cons.mp gradual
      exact ih (h.apply reachable here) (reachable.move m) later

/-- An attempt calls the source at most once. -/
theorem Ordered.calls_once {w : World ε V} (h : Ordered w) {n : Nat} {t t' : Instant}
    (first : (n, t) ∈ w.calls)
    (second : (n, t') ∈ w.calls) : t = t' := by
  have inOrder : w.calls.reverse.Pairwise (fun c c' : Nat × Instant => c.1 < c'.1) :=
    List.pairwise_reverse.mpr (List.pairwise_map.mp h.inOrder)
  exact congrArg Prod.snd
    (eq_of_increasing inOrder (List.mem_reverse.mpr first) (List.mem_reverse.mpr second) rfl)

/-- An attempt that is on time calls at no other instant. -/
theorem OnTime.only {n : Nat} {due : Instant} {w : World ε V} (h : OnTime n due w) (ordered : Ordered w)
    {t : Instant} (called : (n, t) ∈ w.calls) : t = due := by
  have known : n ∈ w.called := List.mem_map.mpr ⟨_, called, rfl⟩
  cases h with
  | waits a listed number earliest =>
      exact absurd (number ▸ known) (ordered.uncalled listed (Attempt.isExecuting_of_earliest earliest))
  | called h => exact ordered.calls_once called h
  | refused _ _ uncalled => exact absurd known uncalled

/-- An attempt that is on time and has not turned to the source waits for its start. -/
theorem OnTime.waiting {n : Nat} {due : Instant} {w : World ε V} (h : OnTime n due w) (ordered : Ordered w)
    (tracked : w.cache.dispatcher.Tracks n) (before : ¬ w.cache.dispatcher.Begun n) :
    ∃ a ∈ w.cache.dispatcher.running, a.number = n ∧ a.earliest? w.now = some due
      ∧ a.predecessor.all w.cache.dispatcher.hasAnswered = true ∧ w.now ≤ due := by
  cases h with
  | waits a listed number earliest ready ahead => exact ⟨a, listed, number, earliest, ready, ahead⟩
  | called h => exact absurd (ordered.begun n (List.mem_map.mpr ⟨_, h, rfl⟩)) before
  | refused _ _ _ spent =>
      rcases tracked with answered | ⟨a, listed, number⟩
      · exact absurd (Or.inl answered) before
      · exact absurd (Or.inr ⟨a, listed, number, spent a listed number⟩) before

/-- An attempt that is on time has turned to the source once its start has passed, or if nobody can take a
step at its start. -/
theorem OnTime.begun {n : Nat} {due : Instant} {w : World ε V} (h : OnTime n due w) (ordered : Ordered w)
    (tracked : w.cache.dispatcher.Tracks n)
    (past : due < w.now ∨ (due = w.now ∧ ∀ a ∈ w.cache.dispatcher.running, w.canStep a = false)) :
    w.cache.dispatcher.Begun n := by
  refine Classical.byContradiction fun before => ?_
  obtain ⟨a, listed, _, earliest, ready, ahead⟩ := h.waiting ordered tracked before
  rcases past with late | ⟨now, stuck⟩
  · exact absurd ahead (Int.not_le.mpr late)
  · have stuck := stuck a listed
    unfold Attempt.earliest? at earliest
    unfold canStep at stuck
    split at earliest
    next hp => simp [hp] at stuck
    next hp =>
      cases earliest
      simp [hp, now] at stuck
    next hp =>
      simp only [hp] at stuck
      rw [ready] at stuck
      cases stuck
    next => cases earliest

/-- **An attempt that is on time turns to the source at its start**, and at no other instant. -/
theorem OnTime.turns {n : Nat} {due : Instant} {w : World ε V} (h : OnTime n due w) (ordered : Ordered w)
    (tracked : w.cache.dispatcher.Tracks n) {m : Move ε V} (before : ¬ w.cache.dispatcher.Begun n)
    (begun : (w.apply m).cache.dispatcher.Begun n) : w.now = due := by
  obtain ⟨a, listed, number, earliest, _, _⟩ := h.waiting ordered tracked before
  rcases (apply_step w m).begun_cases ordered begun with already | ⟨b, hb, same, queued⟩
  · exact absurd already before
  · rw [ordered.dispatcher.eq_of_number listed hb (number.trans same.symm), Attempt.earliest?, queued] at earliest
    exact Option.some.inj earliest

/-- An attempt that is on time and has turned to the source has called it, if there was an owner to call. -/
theorem OnTime.calls {n : Nat} {due : Instant} {w : World ε V} (h : OnTime n due w) (ordered : Ordered w)
    (begun : w.cache.dispatcher.Begun n) : (n, due) ∈ w.calls ∨ OwnerGone w := by
  cases h with
  | called h => exact Or.inl h
  | refused gone => exact Or.inr gone
  | waits a listed number earliest =>
      exfalso
      have waiting := Attempt.isExecuting_of_earliest earliest
      rcases begun with answered | ⟨b, hb, same, executes⟩
      · rw [← number, ((ordered.dispatcher.fits a listed).queues waiting).unanswered] at answered
        cases answered
      · rw [ordered.dispatcher.eq_of_number hb listed (same.trans number.symm), waiting] at executes
        cases executes

/-- An attempt that queues for nobody has called after its next step. -/
theorem OnTime.of_queued {n : Nat} {due : Instant} {w : World ε V} (reachable : Reachable w) {a : Attempt ε V}
    (running : w.cache.dispatcher.attempt? n = some a) (queued : a.progress = .queued)
    (ready : a.predecessor.all w.cache.dispatcher.hasAnswered = true) (now : w.now = due) :
    (n, due) ∈ (w.apply (.attempt n)).calls ∨ OwnerGone (w.apply (.attempt n)) := by
  have earliest : a.earliest? w.now = some due := by rw [Attempt.earliest?, queued, now]
  have onTime := OnTime.stepAttempt reachable running earliest ready (Int.le_of_eq now)
  obtain ⟨_, rfl⟩ := Dispatcher.attempt?_mem running
  cases onTime with
  | called h => exact Or.inl h
  | refused gone => exact Or.inr gone
  | waits b listed number earliest =>
      -- it has turned to the source, and so it does not wait
      rw [apply_queued running queued ready] at listed
      have executes := executing_of_callSource listed number
      rw [Attempt.isExecuting_of_earliest earliest] at executes
      cases executes

/-! ## §5. A run that comes to the start. -/

/-- A gradual run that comes to a call may begin with a gradual move. -/
theorem exists_gradual_cons {w : World ε V} {m : Move ε V} (here : w.isGradual [m] = true) {n : Nat}
    {due : Instant} (later : ∃ moves : List (Move ε V), (w.apply m).isGradual moves = true
      ∧ ((n, due) ∈ ((w.apply m).run moves).calls ∨ OwnerGone ((w.apply m).run moves))) :
    ∃ moves : List (Move ε V), w.isGradual moves = true
      ∧ ((n, due) ∈ (w.run moves).calls ∨ OwnerGone (w.run moves)) := by
  obtain ⟨moves, gradual, comes⟩ := later
  exact ⟨m :: moves, isGradual_cons.mpr ⟨here, gradual⟩, comes⟩

section

variable {w : World ε V} {a : Attempt ε V}

theorem attempt?_alone (alone : w.cache.dispatcher.running = [a]) :
    w.cache.dispatcher.attempt? a.number = some a := by
  unfold Dispatcher.attempt?
  rw [alone]
  simp

/-- An attempt that is alone stays alone as it goes on. -/
theorem running_advanceTo (alone : w.cache.dispatcher.running = [a]) (p : Attempt.Progress ε V) :
    (w.advanceTo a p).cache.dispatcher.running = [{ a with progress := p }] := by
  show (w.cache.dispatcher.update { a with progress := p }).running = _
  unfold Dispatcher.update
  rw [alone]
  simp

/-- The clock may move to the timer of an attempt that is held back alone. -/
theorem isGradual_pass (alone : w.cache.dispatcher.running = [a]) {resume : Instant}
    (held : a.progress = .heldBack resume) (ahead : w.now < resume) {d : Duration}
    (reaches : (w.apply (.pass d)).now ≤ resume) : w.isGradual [.pass d] = true := by
  have stays : w.canStep a = false := by
    rw [canStep, held]
    exact decide_eq_false (Int.not_le.mpr ahead)
  have timer : a.timer? = some resume := by rw [Attempt.timer?, held]
  have unpassed : (w.cache.dispatcher.running.all fun b =>
      !w.canStep b && b.timer?.all fun t => decide ((w.apply (.pass d)).now ≤ t)) = true := by
    rw [alone]
    simp only [List.all_cons, List.all_nil, stays, timer, Option.all_some, reaches, decide_true,
      Bool.not_false, Bool.and_self]
  rw [isGradual, unpassed, Bool.or_true]
  rfl

theorem exists_gradual_queued (reachable : Reachable w) (alone : w.cache.dispatcher.running = [a])
    (queued : a.progress = .queued) (ready : a.predecessor.all w.cache.dispatcher.hasAnswered = true)
    {due : Instant} (now : w.now = due) :
    ∃ moves : List (Move ε V), w.isGradual moves = true
      ∧ ((a.number, due) ∈ (w.run moves).calls ∨ OwnerGone (w.run moves)) :=
  ⟨[.attempt a.number], isGradual_attempt _ _,
    OnTime.of_queued reachable (attempt?_alone alone) queued ready now⟩

theorem exists_gradual_heldBack (reachable : Reachable w) (alone : w.cache.dispatcher.running = [a])
    {due : Instant} (held : a.progress = .heldBack due) (now : w.now = due)
    (ready : a.predecessor.all w.cache.dispatcher.hasAnswered = true) :
    ∃ moves : List (Move ε V), w.isGradual moves = true
      ∧ ((a.number, due) ∈ (w.run moves).calls ∨ OwnerGone (w.run moves)) := by
  refine exists_gradual_cons (isGradual_attempt w a.number) ?_
  have reachable := reachable.move (.attempt a.number)
  rw [apply_heldBack (attempt?_alone alone) held (Int.le_of_eq now.symm)] at reachable ⊢
  exact exists_gradual_queued (a := { a with progress := .queued }) reachable (running_advanceTo alone _) rfl
    ready now

/-- **The start of an attempt can be reached**: a gradual run that wakes nobody else comes to its call. -/
theorem exists_gradual (reachable : Reachable w) (alone : w.cache.dispatcher.running = [a])
    (fresh : a.progress = .launched) (ready : a.predecessor.all w.cache.dispatcher.hasAnswered = true)
    (named : (w.now.later? a.delay).isSome = true) :
    ∃ moves : List (Move ε V), w.isGradual moves = true
      ∧ ((a.number, w.now + a.delay) ∈ (w.run moves).calls ∨ OwnerGone (w.run moves)) := by
  refine exists_gradual_cons (isGradual_attempt w a.number) ?_
  have reachable := reachable.move (.attempt a.number)
  rw [apply_launched (attempt?_alone alone) fresh] at reachable ⊢
  by_cases prompt : a.delay = 0
  · rw [if_pos prompt] at reachable ⊢
    have now : w.now = w.now + (a.delay : Instant) := by
      rw [prompt]
      exact (Int.add_zero _).symm
    exact exists_gradual_queued (a := { a with progress := .queued }) reachable (running_advanceTo alone _) rfl
      ready now
  · rw [if_neg prompt] at reachable ⊢
    -- it is held back, and the clock moves on to its timer
    have now : ((w.advanceTo a (.heldBack (w.now + a.delay))).apply (.pass a.delay)).now = w.now + a.delay :=
      Instant.later?_getD named
    have ahead : w.now < w.now + (a.delay : Instant) :=
      Int.lt_add_of_pos_right _ (Int.natCast_pos.mpr (Nat.pos_of_ne_zero prompt))
    refine exists_gradual_cons (isGradual_pass (running_advanceTo alone _) rfl ahead (Int.le_of_eq now)) ?_
    exact exists_gradual_heldBack (a := { a with progress := .heldBack (w.now + a.delay) })
      (reachable.move (.pass a.delay)) (running_advanceTo alone _) rfl now ready

end

end World

end SingleFlight
