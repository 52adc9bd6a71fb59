/-
  SingleFlight.Proofs.Spacing — how far apart the calls of a source are.

  Under a window, a launch sets a start for its attempt: at once, or when the
  rest of the window since the previous start is over.  An attempt never calls
  the source before its start, but it may call later, when it has to wait for
  its predecessor; and it may be launched while the previous start lies ahead.
  The next launch goes by the start that was set and takes one that lies ahead
  for one of this moment, so it is only in between that the window is kept.

  Main results:
    * `Reachable.scheduled` — nobody calls the source before its start.
    * `spacing` — when two successive calls are a window apart.
    * `apart_of_prompt` — all calls are, if the launches come in time.
-/
import SingleFlight.Proofs.Invalidation

namespace SingleFlight

variable {ε V : Type}

/-! ## §1. When an attempt may call the source. -/

namespace Attempt

/-- The earliest time at which the attempt can call the source, as far as the pacing has a say: none
if it has turned to the source already. -/
def earliest? (a : Attempt ε V) (now : Instant) : Option Instant :=
  match a.progress with
  | .launched => some (now + a.delay)
  | .heldBack resume => some resume
  | .queued => some now
  | _ => none

theorem isExecuting_of_earliest {a : Attempt ε V} {now t : Instant} (h : a.earliest? now = some t) :
    a.isExecuting = false := by
  unfold earliest? at h
  split at h
  next hp => simp only [isExecuting, hp]
  next hp => simp only [isExecuting, hp]
  next hp => simp only [isExecuting, hp]
  next => cases h

/-- Time does not bring the call forward. -/
theorem earliest_mono {a : Attempt ε V} {now later t : Instant} (since : now ≤ later)
    (h : a.earliest? later = some t) : ∃ t₀, a.earliest? now = some t₀ ∧ t₀ ≤ t := by
  unfold earliest? at h ⊢
  split at h
  next hp =>
    cases h
    exact ⟨_, rfl, Int.add_le_add_right since _⟩
  next hp =>
    cases h
    exact ⟨_, rfl, Int.le_refl _⟩
  next hp =>
    cases h
    exact ⟨_, rfl, since⟩
  next => cases h

end Attempt

namespace World

/-- Whoever calls the source has turned to it. -/
theorem executing_of_callSource {w : World ε V} {a b : Attempt ε V}
    (hb : b ∈ (w.callSource a).cache.dispatcher.running) (same : b.number = a.number) :
    b.isExecuting = true := by
  -- the attempt is left with what the call gave, or is off the list
  have updated {d : Dispatcher ε V} {p : Attempt.Progress ε V} {offers : Option (Nat → Offer ε V)}
      (executes : { a with offers, progress := p }.isExecuting = true)
      (hb : b ∈ (d.update { a with offers, progress := p }).running) : b.isExecuting = true := by
    rcases Dispatcher.mem_update_iff.mp hb with ⟨_, other⟩ | ⟨rfl, _⟩
    · exact absurd same other
    · exact executes
  unfold callSource at hb
  dsimp only at hb
  split at hb
  next => exact absurd same (Dispatcher.mem_lose_iff.mp hb).2
  next =>
    split at hb
    next => exact updated rfl hb
    next =>
      split at hb
      next =>
        split at hb
        next => exact updated rfl hb
        next => exact updated rfl hb
      next =>
        split at hb
        next => exact updated rfl hb
        next => exact updated rfl hb

/-- Whoever has turned to the source does not turn back. -/
theorem Turn.executing {w w' : World ε V} {a a' : Attempt ε V} {left : Option (Attempt ε V)}
    (t : Turn w a w' left) (executes : a.isExecuting = true) (h : left = some a') :
    a'.isExecuting = true := by
  cases t with
  | rest => cases h; exact executes
  | wait waiting =>
      rw [waiting] at executes
      cases executes
  | called queued | opened queued | refused queued | unbound queued =>
      rw [Attempt.isExecuting, queued] at executes
      cases executes
  | asked asking hp =>
      cases h
      rcases hp with ⟨due, outcome, rfl⟩ | rfl | ⟨rfl, _⟩ <;> rfl
  | came | ignored | stored | discarded | failed | resumed => cases h; rfl
  | finished | died | ended => cases h

/-- No step of an attempt brings its own call forward. -/
theorem earliest_stepAttempt {w : World ε V} {a b : Attempt ε V} (ordered : Ordered w)
    (ha : a ∈ w.cache.dispatcher.running) (hb : b ∈ (w.stepAttempt a).cache.dispatcher.running)
    (same : b.number = a.number) {t : Instant} (h : b.earliest? w.now = some t) :
    ∃ t₀, a.earliest? w.now = some t₀ ∧ t₀ ≤ t := by
  have waiting := Attempt.isExecuting_of_earliest h
  have updated {p : Attempt.Progress ε V} (hb : b ∈ (w.advanceTo a p).cache.dispatcher.running) :
      b = { a with progress := p } := by
    rcases Dispatcher.mem_update_iff.mp hb with ⟨_, other⟩ | ⟨changed, _⟩
    · exact absurd same other
    · exact changed
  by_cases executes : a.isExecuting = true
  · -- an attempt that has turned to the source does not wait any more
    obtain ⟨left, turn⟩ := stepAttempt_turn w a
    have executing : b.isExecuting = true := by
      rcases turn.mem_cases hb with ⟨_, other⟩ | stepped | ⟨old, _⟩
      · exact absurd same other
      · exact turn.executing executes stepped
      · rw [ordered.dispatcher.eq_of_number old ha same]
        exact executes
    rw [executing] at waiting
    cases waiting
  · unfold stepAttempt at hb
    by_cases can : w.canStep a = true
    · rw [if_pos can] at hb
      cases hp : a.progress with
      | launched =>
          rw [hp] at hb
          have stepped := updated hb
          have due : a.earliest? w.now = some (w.now + a.delay) := by rw [Attempt.earliest?, hp]
          refine ⟨_, due, ?_⟩
          -- it queues at once, or is held back until the start
          by_cases prompt : a.delay = 0
          · rw [stepped, if_pos prompt] at h
            cases h
            simp [prompt]
          · rw [stepped, if_neg prompt] at h
            cases h
            exact Int.le_refl _
      | heldBack resume =>
          rw [hp] at hb
          have passed : resume ≤ w.now := by simpa [canStep, hp] using can
          rw [updated hb] at h
          cases h
          exact ⟨resume, by rw [Attempt.earliest?, hp], passed⟩
      | queued =>
          rw [hp] at hb
          rw [executing_of_callSource hb same] at waiting
          cases waiting
      | asking | producing | reporting | answering | stuck =>
          exact absurd (by rw [Attempt.isExecuting, hp]) executes
    · rw [if_neg can] at hb
      rw [ordered.dispatcher.eq_of_number hb ha same] at h
      exact ⟨t, h, Int.le_refl _⟩

/-! ## §2. Starts. -/

/-- The attempt `k` does not call the source before `start`. -/
structure NotBefore (start : Instant) (k : Nat) (w : World ε V) : Prop where
  waits : ∀ a ∈ w.cache.dispatcher.running, a.number = k →
    ∀ t, a.earliest? w.now = some t → start ≤ t
  called : ∀ t, (k, t) ∈ w.calls → start ≤ t

/-- Of an attempt that was never launched anything can be said. -/
theorem NotBefore.unborn {start : Instant} {k : Nat} {w : World ε V} (ordered : Ordered w)
    (unborn : w.cache.dispatcher.latest < k) : NotBefore start k w := by
  refine ⟨fun a ha number => ?_, fun t ht => ?_⟩
  · have known := (ordered.dispatcher.bounded a ha).2
    omega
  · have known := ordered.called_le (n := k) (List.mem_map.mpr ⟨(k, t), ht, rfl⟩)
    omega

/-- Others leave the start of an attempt as it is. -/
theorem NotBefore.same {start : Instant} {k : Nat} {w w' : World ε V} (h : NotBefore start k w)
    (since : w.now ≤ w'.now) (calls : w'.calls = w.calls)
    (running : ∀ a ∈ w'.cache.dispatcher.running, a.number = k → a ∈ w.cache.dispatcher.running) :
    NotBefore start k w' := by
  refine ⟨fun a ha number t ht => ?_, by rw [calls]; exact h.called⟩
  obtain ⟨t₀, before, le⟩ := Attempt.earliest_mono since ht
  exact Int.le_trans (h.waits a (running a ha number) number t₀ before) le

theorem NotBefore.turn {start : Instant} {k : Nat} {w : World ε V} {a : Attempt ε V}
    (h : NotBefore start k w) (ordered : Ordered w) (ha : a ∈ w.cache.dispatcher.running) :
    NotBefore start k (w.stepAttempt a) := by
  obtain ⟨left, turn⟩ := stepAttempt_turn w a
  have now := turn.now
  refine ⟨fun b hb number t ht => ?_, fun t ht => ?_⟩
  · rw [now] at ht
    by_cases own : b.number = a.number
    · obtain ⟨t₀, before, le⟩ := earliest_stepAttempt ordered ha hb own ht
      exact Int.le_trans (h.waits a ha (own.symm.trans number) t₀ before) le
    · rcases turn.mem_cases hb with ⟨old, _⟩ | stepped | ⟨old, _⟩
      · exact h.waits b old number t ht
      · exact absurd (turn.number stepped) own
      · exact h.waits b old number t ht
  · rcases turn.called_cases with same | ⟨calls, queued, _⟩
    · rw [same] at ht
      exact h.called t ht
    · rw [calls] at ht
      rcases List.mem_cons.mp ht with now | before
      · -- it calls the source now, and so it was free to do so
        cases now
        exact h.waits a ha rfl w.now (by rw [Attempt.earliest?, queued])
      · exact h.called t before

/-- **A start that was set is kept to.** -/
theorem NotBefore.apply {start : Instant} {k : Nat} {w : World ε V} (h : NotBefore start k w)
    (ordered : Ordered w) (launched : k ≤ w.cache.dispatcher.latest) (m : Move ε V) :
    NotBefore start k (w.apply m) := by
  have s := apply_step w m
  generalize after : w.apply m = w' at s ⊢
  have newest : (w.cache.dispatcher.newest w.now).number ≠ k := by
    show w.cache.dispatcher.latest + 1 ≠ k
    omega
  cases s with
  | aside ha =>
      exact h.same (Int.le_of_eq ha.now.symm) ha.calls fun a running _ => ha.dispatcher ▸ running
  | invalidate ha | poke ha =>
      refine h.same (Int.le_of_eq ha.now.symm) ha.calls fun a running _ => ?_
      rw [← ha.dispatcher]
      exact running
  | dropReader ha =>
      exact h.same (Int.le_of_eq ha.now.symm) ha.calls fun a running _ => ha.dispatcher ▸ running
  | pass since => exact h.same since rfl fun a running _ => running
  | bind | openReader | follow => exact h.same (Int.le_refl _) rfl fun a running _ => running
  | subscribe =>
      refine h.same (Int.le_refl _) rfl fun a running number => ?_
      rcases mem_touch (Cache.subscribe_touch w.cache w.now) running with old | new
      · exact old
      · exact absurd (new ▸ number) newest
  | @reader seat _ own seated ha =>
      refine h.same (Int.le_of_eq ha.now.symm) ha.calls fun a running number => ?_
      rw [ha.dispatcher] at running
      rcases mem_touch (seat.reader.step_stepped w.cache w.now).touch running with old | new
      · exact old
      · exact absurd (new ▸ number) newest
  | @attempt a left _ own running t =>
      have stepped : w' = w.stepAttempt a := by
        rw [← after, own]
        show w.advanceAttempt a.number = w.stepAttempt a
        unfold advanceAttempt
        rw [running]
      rw [stepped]
      exact h.turn ordered (Dispatcher.attempt?_mem running).1

theorem NotBefore.run {start : Instant} {k : Nat} {w : World ε V} (h : NotBefore start k w)
    (reachable : Reachable w) (launched : k ≤ w.cache.dispatcher.latest) (moves : List (Move ε V)) :
    NotBefore start k (w.run moves) := by
  induction moves generalizing w with
  | nil => exact h
  | cons m moves ih =>
      have ordered := reachable.ordered
      exact ih (h.apply ordered launched m) (reachable.move m)
        (Nat.le_trans launched ((apply_step w m).remembers ordered).latest)

/-! ## §3. Launches. -/

end World

theorem Dispatcher.launch_lastStart {d next : Dispatcher ε V} {now : Instant} {n : Nat}
    (h : d.launch now = .started next n) : next.lastStart = some (now + d.holdBack now) := by
  unfold launch at h
  cases hb : d.binding with
  | none => simp [hb] at h
  | some source =>
      cases hl : now.later? (d.holdBack now) with
      | none => simp [hb, hl] at h
      | some start =>
          simp only [hb, hl, Launch.started.injEq] at h
          obtain ⟨rfl, _⟩ := h
          unfold Instant.later? at hl
          split at hl
          · exact hl.symm
          · cases hl

/-- What a section of a reader makes of the start that was set last: a launch sets another, unless it
runs beyond the clock. -/
theorem schedule_touch {c c' : Cache ε V} {now : Instant} (t : Cache.Touch c now c') :
    (c'.dispatcher.latest = c.dispatcher.latest ∧ c'.dispatcher.lastStart = c.dispatcher.lastStart)
      ∨ (c'.dispatcher.latest = c.dispatcher.latest + 1
        ∧ (c'.dispatcher.lastStart = some (now + c.dispatcher.holdBack now)
          ∨ (c'.dispatcher.lastStart = c.dispatcher.lastStart
            ∧ ∀ a ∈ c'.dispatcher.running, a ∈ c.dispatcher.running))) := by
  cases t with
  | tally | noticed | lost => exact Or.inl ⟨rfl, rfl⟩
  | started idle h =>
      exact Or.inr ⟨(Dispatcher.launch_started h).latest, Or.inl (Dispatcher.launch_lastStart h)⟩
  | overflow idle h =>
      have overflowed := Dispatcher.launch_overflowed h
      exact Or.inr ⟨overflowed.latest, Or.inr ⟨overflowed.lastStart, fun a ha => overflowed.mem_running ha⟩⟩

namespace World

/-- The start that a launch sets now. -/
def nextStart (w : World ε V) : Instant := w.now + w.cache.dispatcher.holdBack w.now

/-- What a move has to do with starts: nothing, or it launches an attempt. -/
inductive Schedules (w w' : World ε V) : Prop where
  /-- Nobody was launched. -/
  | keeps (latest : w'.cache.dispatcher.latest = w.cache.dispatcher.latest)
      (lastStart : w'.cache.dispatcher.lastStart = w.cache.dispatcher.lastStart)
  /-- An attempt was launched, which does not call the source before its start. -/
  | launches (latest : w'.cache.dispatcher.latest = w.cache.dispatcher.latest + 1)
      (lastStart : w'.cache.dispatcher.lastStart = some w.nextStart)
      (now : w'.now = w.now) (calls : w'.calls = w.calls)
      (running : ∀ a ∈ w'.cache.dispatcher.running,
        a ∈ w.cache.dispatcher.running ∨ a = w.cache.dispatcher.newest w.now)
  /-- A launch ran beyond the clock. -/
  | overflows (latest : w'.cache.dispatcher.latest = w.cache.dispatcher.latest + 1)
      (lastStart : w'.cache.dispatcher.lastStart = w.cache.dispatcher.lastStart)
      (now : w'.now = w.now) (calls : w'.calls = w.calls)
      (running : ∀ a ∈ w'.cache.dispatcher.running, a ∈ w.cache.dispatcher.running)

theorem schedules_touch {w w' : World ε V} {c : Cache ε V} (t : Cache.Touch w.cache w.now c)
    (now : w'.now = w.now) (calls : w'.calls = w.calls)
    (dispatcher : w'.cache.dispatcher = c.dispatcher) : Schedules w w' := by
  rcases schedule_touch t with ⟨latest, lastStart⟩ | ⟨latest, set | ⟨lastStart, running⟩⟩
  · rw [← dispatcher] at latest lastStart
    exact .keeps latest lastStart
  · rw [← dispatcher] at latest set
    refine .launches latest set now calls fun a ha => ?_
    rw [dispatcher] at ha
    exact mem_touch t ha
  · rw [← dispatcher] at latest lastStart running
    exact .overflows latest lastStart now calls running

theorem Step.schedules {w w' : World ε V} {m : Move ε V} (s : Step w m w') (ordered : Ordered w) :
    Schedules w w' := by
  cases s with
  | aside ha | invalidate ha | poke ha | dropReader ha =>
      exact .keeps (congrArg Dispatcher.latest ha.dispatcher)
        (congrArg Dispatcher.lastStart ha.dispatcher)
  | pass | bind | openReader | follow => exact .keeps rfl rfl
  | subscribe => exact schedules_touch (Cache.subscribe_touch w.cache w.now) rfl rfl rfl
  | @reader seat _ own seated ha =>
      exact schedules_touch (seat.reader.step_stepped w.cache w.now).touch ha.now ha.calls ha.dispatcher
  | attempt own running t =>
      have kept := (t.progressed ordered.dispatcher (Dispatcher.attempt?_mem running).1).kept
      exact .keeps kept.latest kept.lastStart

/-- An attempt that has just been launched does not call the source before its start. -/
theorem NotBefore.launched {w w' : World ε V} (ordered : Ordered w) (now : w'.now = w.now)
    (calls : w'.calls = w.calls) (running : ∀ a ∈ w'.cache.dispatcher.running,
      a ∈ w.cache.dispatcher.running ∨ a = w.cache.dispatcher.newest w.now) :
    NotBefore w.nextStart (w.cache.dispatcher.latest + 1) w' := by
  refine ⟨fun a ha number t ht => ?_, fun t ht => ?_⟩
  · rcases running a ha with old | rfl
    · have known := (ordered.dispatcher.bounded a old).2
      omega
    · rw [now] at ht
      cases ht
      exact Int.le_refl _
  · rw [calls] at ht
    exact (NotBefore.unborn ordered (Nat.lt_succ_self _)).called t ht

/-- **Nobody calls the source before its start.**  In every reachable world, the start that was set
last is one that the newest attempt keeps to. -/
theorem Reachable.scheduled {w : World ε V} (h : Reachable w) {start : Instant}
    (last : w.cache.dispatcher.lastStart = some start) :
    NotBefore start w.cache.dispatcher.latest w := by
  induction h with
  | initial hw => cases hw <;> cases last
  | @move w reachable m ih =>
      have ordered := reachable.ordered
      have unborn : NotBefore start (w.cache.dispatcher.latest + 1) w :=
        .unborn ordered (Nat.lt_succ_self _)
      cases (apply_step w m).schedules ordered with
      | keeps latest lastStart =>
          rw [latest]
          exact (ih (lastStart.symm.trans last)).apply ordered (Nat.le_refl _) m
      | launches latest set now calls running =>
          obtain rfl : w.nextStart = start := Option.some.inj (set.symm.trans last)
          rw [latest]
          exact .launched ordered now calls running
      | overflows latest lastStart now calls running =>
          -- the number was used up for nobody, and the start that was set is still the last
          rw [latest]
          exact unborn.same (Int.le_of_eq now.symm) calls fun a ha _ => running a ha

/-- The start that is set a window after the previous one, or after now if that one lies ahead; and
never before now. -/
theorem rest_start_eq {now previous : Int} {window : Nat} :
    now + ((window - (now - previous).toNat : Nat) : Int)
      = max now (min previous now + window) := by
  omega

theorem nextStart_eq {w : World ε V} {window : Duration} {previous : Instant}
    (paced : w.cache.dispatcher.pacing = .spaced window)
    (last : w.cache.dispatcher.lastStart = some previous) :
    w.nextStart = max w.now (min previous w.now + window) := by
  unfold nextStart Dispatcher.holdBack
  rw [paced, last]
  exact rest_start_eq

/-- When a call that is not before its start is a window after the call before. -/
theorem apart_of_starts {now previous first second : Int} {window : Nat} (early : previous ≤ first)
    (late : max now (min previous now + window) ≤ second) :
    (first + window ≤ now ∨ (first = previous ∧ first ≤ now) → first + window ≤ second)
      ∧ (second = max now (min previous now + window) → first + window ≤ second →
        first + window ≤ now ∨ (first = previous ∧ first ≤ now)) := by
  omega

/-- **When two successive calls are a window apart.**  Let a move launch an attempt under a window,
with `previous` the start that was set for the attempt before it, and let both have called the source
in the end.  The earlier one did not call before `previous`, nor the later one before the start that
follows from it.  The calls are a window apart if the later attempt was launched a window after the
call of the earlier, or if the earlier one called on schedule and no later than that launch; and if
the later one calls on schedule, then only if so. -/
theorem spacing {w : World ε V} (h : Reachable w) {window : Duration} {previous : Instant}
    (paced : w.cache.dispatcher.pacing = .spaced window)
    (last : w.cache.dispatcher.lastStart = some previous) (m : Move ε V)
    (launches : (w.apply m).cache.dispatcher.latest = w.cache.dispatcher.latest + 1)
    (more : List (Move ε V)) :
    let start := max w.now (min previous w.now + window)
    let q := (w.apply m).run more
    ∀ first second, (w.cache.dispatcher.latest, first) ∈ q.calls →
      (w.cache.dispatcher.latest + 1, second) ∈ q.calls →
      previous ≤ first ∧ start ≤ second
        ∧ (first + window ≤ w.now ∨ (first = previous ∧ first ≤ w.now) → first + window ≤ second)
        ∧ (second = start → first + window ≤ second →
          first + window ≤ w.now ∨ (first = previous ∧ first ≤ w.now)) := by
  intro start q first second earlier later
  have ordered := h.ordered
  -- each of the two keeps to the start that was set for it; the rest is arithmetic
  have early : previous ≤ first := by
    have kept := (h.scheduled last).run h (Nat.le_refl _) (m :: more)
    exact kept.called first earlier
  have late : start ≤ second := by
    have set : NotBefore start (w.cache.dispatcher.latest + 1) (w.apply m) := by
      cases (apply_step w m).schedules ordered with
      | keeps latest => omega
      | launches _ _ now calls running =>
          have launched := NotBefore.launched ordered now calls running
          rwa [nextStart_eq paced last] at launched
      | overflows _ _ now calls running =>
          exact (NotBefore.unborn ordered (Nat.lt_succ_self _)).same (Int.le_of_eq now.symm) calls
            fun a ha _ => running a ha
    exact (set.run (h.move m) (Nat.le_of_eq launches.symm) more).called second later
  exact ⟨early, late, apart_of_starts early late⟩

/-- A source that takes its time for the first call. -/
def slowAtFirst : Source Unit Nat where
  shape := .oneShot fun n => some ⟨if n = 1 then 150 else 0, fun _ _ => .value n⟩

/-- The value is read, and the fetch calls the source at once. -/
def firstCalled : List (Move Unit Nat) :=
  [.bind slowAtFirst, .openReader .once .read, .reader 0, .reader 0, .attempt 1, .attempt 1]

/-- It is thrown away and read again 30 later: the next fetch waits for the rest of the window, and then
for its predecessor. -/
def secondWaits : List (Move Unit Nat) :=
  firstCalled ++ [.pass 30, .invalidate, .openReader .once .read, .reader 1, .reader 1, .attempt 2,
    .pass 70, .attempt 2, .pass 50, .attempt 1, .attempt 1, .attempt 1, .attempt 2]

/-- The second launch comes after the call of the first attempt, which was on schedule. -/
theorem spacing_firstTwo :
    let w : World Unit Nat := (selfRefreshing ⟨.periodic 60000, .spaced 100⟩ none ()).run
      (firstCalled ++ [.pass 30, .invalidate, .openReader .once .read, .reader 1])
    let q := (w.apply (.reader 1)).run [.attempt 2, .pass 70, .attempt 2, .pass 50, .attempt 1,
      .attempt 1, .attempt 1, .attempt 2]
    q.calls = [(2, 150), (1, 0)] ∧ w.now = 30 ∧ (0 : Instant) + (100 : Duration) ≤ 150 := by
  have reachable := (Reachable.initial (.selfRefreshing ⟨.periodic 60000, .spaced 100⟩ none ())).run
    (firstCalled ++ [.pass 30, .invalidate, .openReader .once .read, .reader 1])
  have apart := spacing reachable (show _ = Pacing.spaced 100 from rfl)
    (show _ = some (0 : Instant) from by decide) (.reader 1) (by decide) [.attempt 2, .pass 70,
      .attempt 2, .pass 50, .attempt 1, .attempt 1, .attempt 1, .attempt 2] 0 150 (by decide) (by decide)
  exact ⟨by decide, by decide, apart.2.2.1 (Or.inr (by decide))⟩

/-- **Two calls can be less than a window apart.**  The second attempt was to start at 100 and called
the source at 150, after its predecessor.  A fetch that is demanded 10 later goes by the start that was
set, and calls the source at 200. -/
theorem late_start_unnoticed :
    let w : World Unit Nat := (selfRefreshing ⟨.periodic 60000, .spaced 100⟩ none ()).run
      (secondWaits ++ [.attempt 2, .attempt 2, .attempt 2, .pass 10, .openReader .anew .read, .reader 2,
        .attempt 3, .pass 40, .attempt 3, .attempt 3])
    w.calls = [(3, 200), (2, 150), (1, 0)] ∧ ¬ (150 : Instant) + (100 : Duration) ≤ 200 := by
  decide

/-! ## §4. Launches in time. -/

/-- Along the run, an attempt is launched only when the one before it has called the source, and at the
start that was set for it. -/
def Prompt (w : World ε V) : List (Move ε V) → Prop
  | [] => True
  | m :: moves =>
    ((w.apply m).cache.dispatcher.latest ≠ w.cache.dispatcher.latest →
      ∀ start, w.cache.dispatcher.lastStart = some start →
        (w.cache.dispatcher.latest, start) ∈ w.calls)
      ∧ (w.apply m).Prompt moves

/-- An attempt that has not turned to the source has not called it. -/
theorem Ordered.uncalled {w : World ε V} (h : Ordered w) {a : Attempt ε V}
    (ha : a ∈ w.cache.dispatcher.running) (waiting : a.isExecuting = false) : a.number ∉ w.called := by
  intro called
  rcases h.begun a.number called with answered | ⟨b, hb, same, executes⟩
  · rw [((h.dispatcher.fits a ha).queues waiting).unanswered] at answered
    cases answered
  · rw [h.dispatcher.eq_of_number hb ha same, waiting] at executes
    cases executes

/-- Whoever waits after a step waited before, or has just been launched. -/
theorem Step.waiting {w w' : World ε V} {m : Move ε V} (s : Step w m w') {b : Attempt ε V}
    (hb : b ∈ w'.cache.dispatcher.running) (waiting : b.isExecuting = false) :
    (∃ a ∈ w.cache.dispatcher.running, a.number = b.number ∧ a.isExecuting = false)
      ∨ b = w.cache.dispatcher.newest w.now := by
  have stays (hb : b ∈ w.cache.dispatcher.running) :
      (∃ a ∈ w.cache.dispatcher.running, a.number = b.number ∧ a.isExecuting = false)
        ∨ b = w.cache.dispatcher.newest w.now := Or.inl ⟨b, hb, rfl, waiting⟩
  cases s with
  | aside ha | dropReader ha => exact stays (ha.dispatcher ▸ hb)
  | invalidate ha | poke ha =>
      refine stays ?_
      rw [← ha.dispatcher]
      exact hb
  | pass | bind | openReader | follow => exact stays hb
  | subscribe =>
      rcases mem_touch (Cache.subscribe_touch w.cache w.now) hb with old | new
      · exact stays old
      · exact Or.inr new
  | @reader seat _ own seated ha =>
      rw [ha.dispatcher] at hb
      rcases mem_touch (seat.reader.step_stepped w.cache w.now).touch hb with old | new
      · exact stays old
      · exact Or.inr new
  | @attempt a left _ own running t =>
      rcases t.mem_cases hb with ⟨old, _⟩ | stepped | ⟨old, _⟩
      · exact stays old
      · refine Or.inl ⟨a, (Dispatcher.attempt?_mem running).1, (t.number stepped).symm, ?_⟩
        refine Bool.eq_false_iff.mpr fun executes => ?_
        rw [t.executing executes stepped] at waiting
        cases waiting
      · exact stays old

/-- A call is made by an attempt that waited, and is the only thing that happens then. -/
theorem Step.calls_cases {w w' : World ε V} {m : Move ε V} (s : Step w m w') :
    w'.calls = w.calls ∨ ∃ a ∈ w.cache.dispatcher.running, a.progress = .queued
      ∧ w'.calls = (a.number, w.now) :: w.calls := by
  cases s with
  | aside ha | invalidate ha | poke ha | dropReader ha => exact Or.inl ha.calls
  | reader _ _ ha => exact Or.inl ha.calls
  | pass | bind | subscribe | openReader | follow => exact Or.inl rfl
  | attempt own running t =>
      rcases t.called_cases with same | ⟨calls, queued, _⟩
      · exact Or.inl same
      · exact Or.inr ⟨_, (Dispatcher.attempt?_mem running).1, queued, calls⟩

theorem Step.pacing {w w' : World ε V} {m : Move ε V} (s : Step w m w') (ordered : Ordered w) :
    w'.cache.dispatcher.pacing = w.cache.dispatcher.pacing := by
  have touched {c : Cache ε V} (t : Cache.Touch w.cache w.now c) :
      c.dispatcher.pacing = w.cache.dispatcher.pacing := by
    rcases t.renewed with same | ⟨fresh, renewed, _⟩
    · rw [same]
    · exact renewed.pacing
  cases s with
  | aside ha | invalidate ha | poke ha | dropReader ha =>
      exact congrArg Dispatcher.pacing ha.dispatcher
  | pass | bind | openReader | follow => rfl
  | subscribe => exact touched (Cache.subscribe_touch w.cache w.now)
  | @reader seat _ own seated ha =>
      rw [ha.dispatcher]
      exact touched (seat.reader.step_stepped w.cache w.now).touch
  | attempt own running t =>
      exact (t.progressed ordered.dispatcher (Dispatcher.attempt?_mem running).1).kept.pacing

/-- The calls so far are a window apart, and so is the next one from all of them. -/
structure Apart (window : Duration) (w : World ε V) : Prop where
  paced : w.cache.dispatcher.pacing = .spaced window
  calls : w.calls.Pairwise fun later earlier : Nat × Instant => earlier.2 + (window : Instant) ≤ later.2
  past : ∀ c ∈ w.calls, c.2 ≤ w.now
  unset : w.cache.dispatcher.lastStart = none → w.calls = []
  /-- Only the newest attempt still waits, and its start is a window after every call. -/
  waits : ∀ a ∈ w.cache.dispatcher.running, a.isExecuting = false →
    a.number = w.cache.dispatcher.latest ∧ ∃ start, w.cache.dispatcher.lastStart = some start
      ∧ ∀ c ∈ w.calls, c.2 + window ≤ start

/-- Once the newest attempt has called the source, its call is the last. -/
theorem Apart.le_of_newest {window : Duration} {w : World ε V} (h : Apart window w)
    (ordered : Ordered w) {start : Instant} (newest : (w.cache.dispatcher.latest, start) ∈ w.calls)
    {c : Nat × Instant} (hc : c ∈ w.calls) : c.2 ≤ start := by
  have inOrder := ordered.inOrder
  have apart := h.calls
  have known : ∀ c ∈ w.calls, c.1 ≤ w.cache.dispatcher.latest := fun c hc =>
    ordered.called_le (List.mem_map.mpr ⟨c, hc, rfl⟩)
  unfold World.called at inOrder
  cases calls : w.calls with
  | nil =>
      rw [calls] at hc
      cases hc
  | cons last before =>
      rw [calls] at newest hc inOrder apart known
      have older := (List.pairwise_cons.mp inOrder).1
      obtain rfl : (w.cache.dispatcher.latest, start) = last := by
        rcases List.mem_cons.mp newest with same | old
        · exact same
        · have lt := older _ (List.mem_map.mpr ⟨_, old, rfl⟩)
          have le := known last List.mem_cons_self
          exact absurd lt (Nat.not_lt.mpr le)
      rcases List.mem_cons.mp hc with rfl | hc
      · exact Int.le_refl _
      · have earlier := (List.pairwise_cons.mp apart).1 c hc
        exact Int.le_trans (Instant.le_add _ window) earlier

/-- A start that is set when the previous one has passed is a window after it. -/
theorem le_nextStart {w : World ε V} {window : Duration} {previous : Instant}
    (paced : w.cache.dispatcher.pacing = .spaced window)
    (last : w.cache.dispatcher.lastStart = some previous) (passed : previous ≤ w.now) :
    previous + window ≤ w.nextStart := by
  rw [nextStart_eq paced last, Int.min_eq_left passed]
  exact Int.le_max_right _ _

theorem Apart.apply {window : Duration} {w : World ε V} (h : Apart window w) (reachable : Reachable w)
    (m : Move ε V) (prompt : (w.apply m).cache.dispatcher.latest ≠ w.cache.dispatcher.latest →
      ∀ start, w.cache.dispatcher.lastStart = some start →
        (w.cache.dispatcher.latest, start) ∈ w.calls) : Apart window (w.apply m) := by
  have ordered := reachable.ordered
  have ordered' := (reachable.move m).ordered
  have s := apply_step w m
  have now := s.now_le
  -- with a launch nobody else is left waiting
  have nobody (launched : (w.apply m).cache.dispatcher.latest ≠ w.cache.dispatcher.latest)
      {a : Attempt ε V} (ha : a ∈ w.cache.dispatcher.running) : a.isExecuting ≠ false := by
    intro waiting
    obtain ⟨number, start, last, _⟩ := h.waits a ha waiting
    have called := prompt launched start last
    exact ordered.uncalled ha waiting (number ▸ List.mem_map.mpr ⟨_, called, rfl⟩)
  cases s.schedules ordered with
  | keeps latest lastStart =>
      have waits (b : Attempt ε V) (hb : b ∈ (w.apply m).cache.dispatcher.running)
          (waiting : b.isExecuting = false) : ∃ a ∈ w.cache.dispatcher.running,
          a.number = b.number ∧ a.isExecuting = false := by
        rcases s.waiting hb waiting with before | rfl
        · exact before
        · have known : w.cache.dispatcher.latest + 1 ≤ (w.apply m).cache.dispatcher.latest :=
            (ordered'.dispatcher.bounded _ hb).2
          omega
      rcases s.calls_cases with same | ⟨a, ha, queued, calls⟩
      · refine ⟨(s.pacing ordered).trans h.paced, same ▸ h.calls, fun c hc => ?_, ?_, ?_⟩
        · exact Int.le_trans (h.past c (same ▸ hc)) now
        · rw [lastStart, same]
          exact h.unset
        · intro b hb waiting
          -- whoever waits has waited before, for the same start
          obtain ⟨a, ha, number, waited⟩ := waits b hb waiting
          rw [← number, latest, lastStart, same]
          exact h.waits a ha waited
      · have waiting : a.isExecuting = false := by rw [Attempt.isExecuting, queued]
        obtain ⟨number, start, last, apart⟩ := h.waits a ha waiting
        have started : start ≤ w.now := by
          refine (reachable.scheduled last).waits a ha number w.now ?_
          rw [Attempt.earliest?, queued]
        refine ⟨(s.pacing ordered).trans h.paced, ?_, fun c hc => ?_, fun unset => ?_, ?_⟩
        · rw [calls]
          exact List.pairwise_cons.mpr ⟨fun c hc => Int.le_trans (apart c hc) started, h.calls⟩
        · rw [calls] at hc
          rcases List.mem_cons.mp hc with rfl | hc
          · exact now
          · exact Int.le_trans (h.past c hc) now
        · rw [lastStart, last] at unset
          cases unset
        · -- the one that waited has called
          intro b hb waiting
          obtain ⟨a', ha', same, waited⟩ := waits b hb waiting
          have called : b.number ∈ (w.apply m).called := by
            unfold World.called
            rw [calls, ← same, (h.waits a' ha' waited).1, ← number]
            exact List.mem_cons_self
          exact absurd called (ordered'.uncalled hb waiting)
  | launches latest set since calls running =>
      have launched : (w.apply m).cache.dispatcher.latest ≠ w.cache.dispatcher.latest := by omega
      refine ⟨(s.pacing ordered).trans h.paced, calls ▸ h.calls, fun c hc => ?_, fun unset => ?_, ?_⟩
      · exact Int.le_trans (h.past c (calls ▸ hc)) now
      · rw [set] at unset
        cases unset
      · intro b hb waiting
        rcases running b hb with old | rfl
        · exact absurd waiting (nobody launched old)
        · refine ⟨latest.symm, w.nextStart, set, fun c hc => ?_⟩
          rw [calls] at hc
          -- its start is a window after the newest call, which is the last of all
          cases last : w.cache.dispatcher.lastStart with
          | none =>
              rw [h.unset last] at hc
              cases hc
          | some start =>
              have newest := prompt launched start last
              have ahead := le_nextStart h.paced last (h.past _ newest)
              have le := h.le_of_newest ordered newest hc
              exact Int.le_trans (Int.add_le_add_right le _) ahead
  | overflows latest lastStart since calls running =>
      have launched : (w.apply m).cache.dispatcher.latest ≠ w.cache.dispatcher.latest := by omega
      refine ⟨(s.pacing ordered).trans h.paced, calls ▸ h.calls, fun c hc => ?_, ?_, ?_⟩
      · exact Int.le_trans (h.past c (calls ▸ hc)) now
      · rw [lastStart, calls]
        exact h.unset
      · exact fun b hb waiting => absurd waiting (nobody launched (running b hb))

/-- **Calls are a window apart when launches come in time**: if every attempt is launched only after the
one before it has called the source, and that on schedule. -/
theorem apart_of_prompt {w : World ε V} (initial : Initial w) {window : Duration}
    (paced : w.cache.dispatcher.pacing = .spaced window) {moves : List (Move ε V)}
    (prompt : w.Prompt moves) :
    (w.run moves).calls.Pairwise fun later earlier : Nat × Instant => earlier.2 + (window : Instant) ≤ later.2 := by
  have outlasts : ∀ (moves : List (Move ε V)) (w : World ε V), Reachable w → Apart window w →
      w.Prompt moves → Apart window (w.run moves) := by
    intro moves
    induction moves with
    | nil => exact fun w _ apart _ => apart
    | cons m moves ih =>
        intro w reachable apart prompt
        exact ih (w.apply m) (reachable.move m) (apart.apply reachable m prompt.1) prompt.2
  refine (outlasts moves w (.initial initial) ⟨paced, ?_, ?_, ?_, ?_⟩ prompt).calls
  · cases initial <;> exact .nil
  · cases initial <;> exact fun _ hc => nomatch hc
  · cases initial <;> exact fun _ => rfl
  · cases initial <;> exact fun _ ha => nomatch ha

end World

end SingleFlight
