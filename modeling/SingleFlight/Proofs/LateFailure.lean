/-
  SingleFlight.Proofs.LateFailure — whom the failure of an attempt reaches.

  When a report of a failure counts, the cell moves on to a phase without a
  value, and keeps nothing of the failure.  The failure itself is only in the
  attempt's answer, which goes to those who wait for it, and an attempt answers
  but once.  So a live reader learns of the failure if it waits for the attempt
  and this is the attempt's first outcome; a live reader that follows the cell,
  and has been given a value of the attempt already, does not.

  Main results:
    * `Reachable.concluded` — a failure is the last thing that a reader tells of.
    * `Missed.run` — who does not wait for a failed attempt never learns of its
      failure.
    * `failure_reaches_waiters` — who is told of a failure, and who is not.
-/
import SingleFlight.Proofs.FirstOutcome
import SingleFlight.Proofs.Marks

namespace SingleFlight

variable {ε V : Type}

open Dispatcher (Orderly)

/-! ## §1. A failure ends a reader. -/

namespace Reader

theorem step_through {r : Reader} (h : r.IsThrough) (c : Cache ε V) (now : Instant) :
    (r.step c now).2.1.IsThrough ∧ (r.step c now).2.2 = some .finished := by
  rcases h with hs | hs
  · simp only [step, hs, IsThrough]
    exact ⟨Or.inr trivial, trivial⟩
  · simp only [step, hs, IsThrough]
    exact ⟨Or.inr trivial, trivial⟩

/-- Whoever tells of a failure is through. -/
theorem through_of_failed {r : Reader} {c : Cache ε V} {now : Instant} {failure : Failure}
    (h : (r.step c now).2.2 = some (.failed failure)) : (r.step c now).2.1.IsThrough := by
  have act := r.step_act c now
  generalize r.step c now = out at act h ⊢
  cases act with
  | refused _ _ through | failed _ _ through => exact through
  | subscribed | unserved | served | joined | demanded | broke | answered | started | satisfied | idle
  | woken | finished | crashed => cases h

end Reader

/-- Who is told to wait is told to wait for a new attempt, or for the one that owes its answer. -/
theorem Cache.told_to_wait {c c' : Cache ε V} {now : Instant} {k : Nat}
    (t : Cache.Ticketed c now (c', .wait k)) :
    k = c.dispatcher.latest + 1 ∨ (c.cell.phase = .calculating ∧ c.dispatcher.pending = some k) := by
  cases t with
  | started sound idle h => exact Or.inl (Dispatcher.launch_started h).number
  | joined sound busy h => exact Or.inr ⟨busy, h⟩

namespace World

/-- After a failure a reader tells its end, and nothing else. -/
structure Concluded (w : World ε V) : Prop where
  last : ∀ key later failure old, w.itemsTo key = later ++ .failed failure :: old →
    ∀ item ∈ later, item = .finished
  through : ∀ key failure, .failed failure ∈ w.itemsTo key →
    ∀ s ∈ w.seats, s.key = key → s.reader.IsThrough

/-- **A failure is the last thing that a reader tells of**, but for its end. -/
theorem Reachable.concluded {w : World ε V} (h : Reachable w) : Concluded w := by
  refine h.invariant (fun w hw => ?_) (fun w m w' reachable h s => ?_)
  · cases hw
    · exact ⟨fun _ later _ _ none => by simp [itemsTo, selfRefreshing] at none,
        fun _ _ none => (nomatch none)⟩
    · exact ⟨fun _ later _ _ none => by simp [itemsTo, bare] at none, fun _ _ none => (nomatch none)⟩
  · -- nobody with an unknown key was told anything
    have unknown {key : Nat} (hk : ¬key < w.nextKey) : w'.itemsTo key = [] :=
      itemsTo_unknown (s.noted reachable.attended reachable.unserved.noted) (Nat.not_lt.mp hk)
    refine ⟨fun key later failure old told item hi => ?_, fun key failure told r hr hk => ?_⟩
    · by_cases known : key < w.nextKey
      · rcases s.reader_cases known with ⟨same, _⟩ | ⟨seat, seated, _, advanced⟩
        · exact h.last key later failure old (same ▸ told) item hi
        · obtain ⟨listed, rfl⟩ := seat?_mem seated
          have items := advanced.itemsTo reachable.attended listed
          rw [told] at items
          cases given : (seat.reader.step w.cache w.now).2.2 with
          | none =>
              rw [given] at items
              exact h.last seat.key later failure old items.symm item hi
          | some newest =>
              rw [given] at items
              cases later with
              | nil => cases hi
              | cons first earlier =>
                  -- the failure was told before, so the newest item is the end
                  have items : first :: (earlier ++ .failed failure :: old)
                      = newest :: w.itemsTo seat.key := items
                  obtain ⟨rfl, before⟩ := List.cons.inj items
                  have told : .failed failure ∈ w.itemsTo seat.key := by
                    rw [← before]
                    exact List.mem_append_right _ List.mem_cons_self
                  have final := (Reader.step_through (h.through seat.key failure told seat listed rfl)
                    w.cache w.now).2
                  rcases List.mem_cons.mp hi with rfl | older
                  · exact Option.some.inj (given.symm.trans final)
                  · exact h.last seat.key earlier failure old before.symm item older
      · rw [unknown known] at told
        simp at told
    · by_cases known : key < w.nextKey
      · rcases s.reader_cases known with ⟨same, seats⟩ | ⟨seat, seated, _, advanced⟩
        · obtain ⟨r₀, hr₀, hk₀, reader⟩ := seats r hr hk
          rw [← reader]
          exact h.through key failure (same ▸ told) r₀ hr₀ hk₀
        · obtain ⟨listed, rfl⟩ := seat?_mem seated
          have items := advanced.itemsTo reachable.attended listed
          rcases advanced.seats r hr with ⟨_, other⟩ | ⟨_, reader, _⟩
          · exact absurd hk other
          · rw [reader]
            rw [items] at told
            rcases List.mem_append.mp told with new | old
            · exact Reader.through_of_failed (Option.mem_toList.mp new)
            · exact (Reader.step_through (h.through seat.key failure old seat listed rfl)
                w.cache w.now).1
      · rw [unknown known] at told
        cases told

/-! ## §2. Attempts that go on. -/

/-- An attempt goes on to another item with a value only, and by then it has answered with one. -/
structure Productive (d : Dispatcher ε V) : Prop where
  goesOn : ∀ a ∈ d.running, ∀ answer, a.progress = .answering answer true →
    ∃ fetched, answer = .ok fetched
  went : ∀ a ∈ d.running, a.item ≠ 0 → ∃ fetched, d.answer? a.number = some (.ok fetched)

/-- Whoever is at a later item was so before the step, or has just answered. -/
theorem Turn.item_left {w w' : World ε V} {a b : Attempt ε V} {left : Option (Attempt ε V)}
    (t : Turn w a w' left) (hleft : left = some b) :
    b.item = a.item ∨ ∃ answer, a.progress = .answering answer true
      ∧ w'.cache.dispatcher.answer? a.number
        = (w.cache.dispatcher.answer? a.number).or (some answer) := by
  cases t with
  | @resumed answer answering =>
      refine Or.inr ⟨answer, answering, ?_⟩
      refine (Dispatcher.answer?_settle _ _ _ _).trans ?_
      rw [Dispatcher.answer?_noteAnswer, if_pos rfl]
  | unbound | finished | died | ended => cases hleft
  | rest | wait | refused | called | opened | asked | came | ignored | stored | discarded | failed =>
      cases hleft
      exact Or.inl rfl

theorem Productive.turn {w w' : World ε V} {a : Attempt ε V} {left : Option (Attempt ε V)}
    (h : Productive w.cache.dispatcher) (orderly : Orderly w.now w.cache.dispatcher)
    (t : Turn w a w' left) (ha : a ∈ w.cache.dispatcher.running) :
    Productive w'.cache.dispatcher := by
  refine ⟨fun b hb answer answering => ?_, fun b hb item => ?_⟩
  · rcases t.mem_running hb with old | hleft
    · exact h.goesOn b old answer answering
    · rcases t.answering_left hleft answering with rfl | ⟨ends, _⟩ | ⟨fetched, value, _⟩
      · exact h.goesOn b ha answer answering
      · cases ends
      · exact ⟨fetched, value⟩
  · rcases t.mem_running hb with old | hleft
    · obtain ⟨fetched, answered⟩ := h.went b old item
      exact ⟨fetched, t.answer_mono answered⟩
    · rw [t.number hleft]
      rcases t.item_left hleft with same | ⟨answer, answering, settled⟩
      · obtain ⟨fetched, answered⟩ := h.went a ha (same ▸ item)
        exact ⟨fetched, t.answer_mono answered⟩
      · obtain ⟨fetched, rfl⟩ := h.goesOn a ha answer answering
        by_cases first : a.item = 0
        · -- this is its first answer
          have executes := (orderly.fits a ha).executes (by simp [Attempt.isExecuting, answering])
          have unanswered : w.cache.dispatcher.answer? a.number = none := by
            cases ha' : w.cache.dispatcher.answer? a.number with
            | none => rfl
            | some early =>
                have answered := Dispatcher.hasAnswered_iff.mpr ⟨early, ha'⟩
                exact absurd first (executes.delivered.mp answered)
          rw [unanswered] at settled
          exact ⟨fetched, settled⟩
        · obtain ⟨fetched, answered⟩ := h.went a ha first
          exact ⟨fetched, t.answer_mono answered⟩

/-- A section of a reader launches attempts at their first item, and answers nobody. -/
theorem Productive.touch {c c' : Cache ε V} {now : Instant} (h : Productive c.dispatcher)
    (orderly : Orderly now c.dispatcher) (t : Cache.Touch c now c') : Productive c'.dispatcher := by
  refine ⟨fun b hb answer answering => ?_, fun b hb item => ?_⟩
  · rcases mem_touch t hb with old | rfl
    · exact h.goesOn b old answer answering
    · cases answering
  · rcases mem_touch t hb with old | rfl
    · rw [answer?_touch t orderly]
      exact h.went b old item
    · exact absurd rfl item

/-- **An attempt that goes on has answered with a value**, in every reachable world. -/
theorem Reachable.productive {w : World ε V} (h : Reachable w) : Productive w.cache.dispatcher := by
  refine h.invariant (P := fun w => Productive w.cache.dispatcher) (fun w hw => ?_)
    (fun w m w' reachable h s => ?_)
  · cases hw <;> exact ⟨fun _ ha => (nomatch ha), fun _ ha => (nomatch ha)⟩
  · have orderly := reachable.ordered.dispatcher
    cases s with
    | aside ha | dropReader ha =>
        rw [ha.dispatcher]
        exact h
    | @invalidate asided ha | @poke asided ha =>
        show Productive asided.cache.dispatcher
        rw [ha.dispatcher]
        exact h
    | pass | openReader | follow => exact h
    | bind => exact ⟨h.goesOn, h.went⟩
    | subscribe => exact h.touch orderly (Cache.subscribe_touch w.cache w.now)
    | reader own seated ha =>
        rw [ha.dispatcher]
        exact h.touch orderly (Reader.step_stepped _ _ _).touch
    | attempt own running t => exact h.turn orderly t (Dispatcher.attempt?_mem running).1

/-! ## §3. Who misses a failure. -/

/-- Whoever reads under the key does not wait for the attempt `n`, or waits for its value; and whoever
comes to wait from now on waits for a newer one. -/
structure Missed (n key : Nat) (w : World ε V) : Prop where
  latest : n ≤ w.cache.dispatcher.latest
  /-- The fetch that the cell waits for is a newer one. -/
  moved : w.cache.cell.phase = .calculating → n < w.cache.dispatcher.latest
  apart : (∃ fetched, w.cache.dispatcher.answer? n = some (.ok fetched))
    ∨ ∀ s ∈ w.seats, s.key = key → s.reader.awaits? ≠ some n

/-- A step launches, or it puts the cell to wait for nobody new. -/
theorem Step.calculating {w w' : World ε V} {m : Move ε V} (s : Step w m w')
    (busy : w'.cache.cell.phase = .calculating) :
    w.cache.cell.phase = .calculating
      ∨ w.cache.dispatcher.latest < w'.cache.dispatcher.latest := by
  have touched {c c' : Cache ε V} (t : c.Touch w.now c') (busy : c'.cell.phase = .calculating) :
      c.cell.phase = .calculating ∨ c.dispatcher.latest < c'.dispatcher.latest := by
    rcases t.phase_cases with same | ⟨refetch, phase, _⟩ | ⟨_, n, started⟩
    · exact Or.inl (same ▸ busy)
    · rw [phase] at busy
      cases busy
    · rw [started.latest]
      exact Or.inr (Nat.lt_succ_self _)
  cases s with
  | aside ha | dropReader ha => exact Or.inl (ha.cell ▸ busy)
  | pass | bind | openReader | follow => exact Or.inl busy
  | invalidate => cases busy
  | @poke asided ha =>
      have busy : asided.cache.cell.phase = .calculating := busy
      exact Or.inl (ha.cell ▸ busy)
  | subscribe => exact touched (Cache.subscribe_touch w.cache w.now) busy
  | reader own seated ha =>
      rw [ha.cell] at busy
      rw [ha.dispatcher]
      exact touched (Reader.step_stepped _ _ _).touch busy
  | attempt own running t => exact Or.inl (t.busy_before busy)

theorem Missed.step {n key : Nat} {w w' : World ε V} {m : Move ε V} (h : Missed n key w)
    (reachable : Reachable w) (known : key < w.nextKey) (s : Step w m w') : Missed n key w' := by
  have ordered := reachable.ordered
  have r := s.remembers ordered
  refine ⟨Nat.le_trans h.latest r.latest, fun busy => ?_, ?_⟩
  · rcases s.calculating busy with before | newer
    · exact Nat.lt_of_lt_of_le (h.moved before) r.latest
    · exact Nat.lt_of_le_of_lt h.latest newer
  · rcases h.apart with ⟨fetched, answered⟩ | apart
    · exact Or.inl ⟨fetched, r.answers n _ answered⟩
    · refine Or.inr fun q hq hk awaits => ?_
      rcases s.reader_cases known with ⟨_, seats⟩ | ⟨seat, seated, _, advanced⟩
      · obtain ⟨q₀, hq₀, hk₀, reader⟩ := seats q hq hk
        exact apart q₀ hq₀ hk₀ (reader ▸ awaits)
      · obtain ⟨listed, rfl⟩ := seat?_mem seated
        rcases advanced.seats q hq with ⟨_, other⟩ | ⟨_, reader, _⟩
        · exact absurd hk other
        · have stepped := seat.reader.step_stepped w.cache w.now
          rw [reader] at awaits
          cases given : (seat.reader.step w.cache w.now).2.2 with
          | some item =>
              rw [(stepped.hands item given).2] at awaits
              cases awaits
          | none =>
              rcases (stepped.quiet given).2 n awaits with before | told
              · exact apart seat listed rfl before
              · -- it is told to wait for a newer attempt
                have latest := h.latest
                rcases Cache.told_to_wait told with number | ⟨busy, pending⟩
                · omega
                · have number := (ordered.dispatcher.pending n pending).2
                  have newer := h.moved busy
                  omega

/-- Whoever misses the failure of an attempt is not told of it with the next step. -/
theorem Missed.item {n key : Nat} {w : World ε V} {reason : String} (h : Missed n key w)
    (reachable : Reachable w) {seat : Seat} (listed : seat ∈ w.seats) (hk : seat.key = key) :
    (seat.reader.step w.cache w.now).2.2 ≠ some (.failed (.fetchFailed n reason)) := by
  intro given
  have hands := ((seat.reader.step_stepped w.cache w.now).hands _ given).1
  cases hands with
  | @refused k _ awaits answered =>
      -- a failure names the attempt that failed, and that is the one it waited for
      have stems := reachable.genuine.answers k _ answered
      have same : n = k := stems.1
      rw [← same] at awaits answered
      rcases h.apart with ⟨fetched, value⟩ | apart
      · rw [value] at answered
        cases answered
      · exact apart seat listed hk awaits

/-- **Who misses the failure of an attempt is never told of it**, however the run goes on. -/
theorem Missed.run {n key : Nat} {w : World ε V} (h : Missed n key w) (reachable : Reachable w)
    (known : key < w.nextKey) (moves : List (Move ε V)) (reason : String) :
    ∃ new, (w.run moves).itemsTo key = new ++ w.itemsTo key
      ∧ .failed (.fetchFailed n reason) ∉ new := by
  induction moves generalizing w with
  | nil => exact ⟨[], rfl, fun none => nomatch none⟩
  | cons m moves ih =>
      have s := apply_step w m
      obtain ⟨new, items, untold⟩ := ih (h.step reachable known s) (reachable.move m)
        (Nat.lt_of_lt_of_le known s.nextKey_le)
      rw [run_cons, items]
      rcases s.reader_cases known with ⟨same, _⟩ | ⟨seat, seated, _, advanced⟩
      · exact ⟨new, by rw [same], untold⟩
      · obtain ⟨listed, rfl⟩ := seat?_mem seated
        refine ⟨new ++ (seat.reader.step w.cache w.now).2.2.toList, ?_, fun told => ?_⟩
        · rw [advanced.itemsTo reachable.attended listed, List.append_assoc]
        · rcases List.mem_append.mp told with later | now
          · exact untold later
          · exact h.item reachable listed rfl (Option.mem_toList.mp now)

/-! ## §4. Who is left waiting. -/

/-- Whether a move comes from somebody else who takes an interest in the value, or throws it away. -/
def intrudes (key : Nat) (w : World ε V) : Move ε V → Bool
  | .subscribe => true
  | .reader k => k != key
  | m => w.invalidates m

/-- The cell has no value and nobody asks for one, the newest attempt `n` has nothing more to report,
and whoever reads under the key waits for a mark or looks in vain. -/
structure Hushed (n key : Nat) (items : List (Item V)) (w : World ε V) : Prop where
  phase : w.cache.cell.phase = .invalid false
  latest : w.cache.dispatcher.latest = n
  ended : ∀ a ∈ w.cache.dispatcher.running, a.number = n →
    ∃ answer, a.progress = .answering answer false
  items : w.itemsTo key = items
  looks : ∀ s ∈ w.seats, s.key = key →
    s.reader.reading.follows = true ∧ (s.reader.stage = .looking ∨ s.reader.stage = .parked)

/-- Who looks in vain parks, and who is parked looks again when there is a mark. -/
theorem step_hushed {r : Reader} {c : Cache ε V} (now : Instant) (sound : c.cell.broken = none)
    (phase : c.cell.phase = .invalid false) (follows : r.reading.follows = true)
    (looks : r.stage = .looking ∨ r.stage = .parked) :
    (r.step c now).1 = c ∧ (r.step c now).2.2 = none
      ∧ ((r.step c now).2.1.stage = .looking ∨ (r.step c now).2.1.stage = .parked) := by
  rcases looks with hs | hs
  · have access : c.access now r.delivered = (c, .nothing) := by
      simp only [Cache.access, sound, phase]
    simp only [Reader.step, hs, access, Reader.receive, follows, if_true]
    exact ⟨trivial, trivial, Or.inr trivial⟩
  · simp only [Reader.step, hs]
    split
    · exact ⟨rfl, rfl, Or.inr hs⟩
    · exact ⟨rfl, rfl, Or.inl rfl⟩

/-- An attempt that is about to answer for the last time answers, and is gone. -/
theorem Turn.left_of_ending {w w' : World ε V} {a b : Attempt ε V} {left : Option (Attempt ε V)}
    (t : Turn w a w' left) {answer : Answer V} (ending : a.progress = .answering answer false)
    (hleft : left = some b) : b = a := by
  cases t with
  | rest =>
      cases hleft
      rfl
  | wait waiting =>
      unfold Attempt.isExecuting at waiting
      rw [ending] at waiting
      cases waiting
  | unbound | finished | died | ended => cases hleft
  | refused queued | called queued | opened queued =>
      rw [ending] at queued
      cases queued
  | asked asking =>
      rw [ending] at asking
      cases asking
  | came producing =>
      rw [ending] at producing
      cases producing
  | ignored reporting | stored reporting | discarded reporting | failed reporting =>
      rw [ending] at reporting
      cases reporting
  | resumed answering =>
      rw [ending] at answering
      cases answering

theorem Hushed.same {n key : Nat} {items : List (Item V)} {w w' : World ε V} (h : Hushed n key items w)
    (phase : w'.cache.cell.phase = w.cache.cell.phase)
    (dispatcher : w'.cache.dispatcher = w.cache.dispatcher)
    (quiet : w'.itemsTo key = w.itemsTo key
      ∧ ∀ s ∈ w'.seats, s.key = key → ∃ s₀ ∈ w.seats, s₀.key = key ∧ s₀.reader = s.reader) :
    Hushed n key items w' := by
  refine ⟨phase.trans h.phase, by rw [dispatcher]; exact h.latest, by rw [dispatcher]; exact h.ended,
    quiet.1.trans h.items, fun s hs hk => ?_⟩
  obtain ⟨s₀, hs₀, hk₀, reader⟩ := quiet.2 s hs hk
  rw [← reader]
  exact h.looks s₀ hs₀ hk₀

theorem Hushed.advanced {n : Nat} {items : List (Item V)} {w w' : World ε V} {seat : Seat}
    (h : Hushed n seat.key items w) (reachable : Reachable w) (listed : seat ∈ w.seats)
    (ha : Advanced w seat (seat.reader.step w.cache w.now) w') : Hushed n seat.key items w' := by
  obtain ⟨follows, looks⟩ := h.looks seat listed rfl
  obtain ⟨cache, none, still⟩ := step_hushed w.now reachable.coherent.sound h.phase follows looks
  have cell : w'.cache.cell = w.cache.cell := ha.cell.trans (congrArg Cache.cell cache)
  have dispatcher : w'.cache.dispatcher = w.cache.dispatcher :=
    ha.dispatcher.trans (congrArg Cache.dispatcher cache)
  have quiet := ha.itemsTo reachable.attended listed
  rw [none] at quiet
  refine ⟨by rw [cell]; exact h.phase, by rw [dispatcher]; exact h.latest,
    by rw [dispatcher]; exact h.ended, quiet.trans h.items, fun s hs hk => ?_⟩
  rcases ha.seats s hs with ⟨_, other⟩ | ⟨_, reader, _⟩
  · exact absurd hk other
  · rw [reader]
    exact ⟨(seat.reader.reading_step w.cache w.now) ▸ follows, still⟩

theorem Hushed.turn {n key : Nat} {items : List (Item V)} {w w' : World ε V} {a : Attempt ε V}
    {left : Option (Attempt ε V)} (h : Hushed n key items w) (orderly : Orderly w.now w.cache.dispatcher)
    (t : Turn w a w' left) (ha : a ∈ w.cache.dispatcher.running) : Hushed n key items w' := by
  obtain ⟨seats, _, deliveries⟩ := t.seats
  have latest := (t.progressed orderly ha).kept.latest
  refine ⟨?_, latest.trans h.latest, fun b hb number => ?_, (itemsTo_eq deliveries key).trans h.items,
    fun s hs => h.looks s (seats ▸ hs)⟩
  · rcases t.phase_cases with same | ⟨_, _, phase⟩ | ⟨_, newest, content, reporting, _⟩
    · exact same.trans h.phase
    · exact phase
    · -- only the newest attempt could store a value, and it has nothing to report
      obtain ⟨answer, ending⟩ := h.ended a ha (newest.symm.trans h.latest)
      rw [reporting] at ending
      cases ending
  · rcases t.mem_running hb with old | hleft
    · exact h.ended b old number
    · obtain ⟨answer, ending⟩ := h.ended a ha ((t.number hleft).symm.trans number)
      rw [t.left_of_ending ending hleft]
      exact ⟨answer, ending⟩

/-- **As long as nobody else takes an interest, nothing happens.** -/
theorem Hushed.step {n key : Nat} {items : List (Item V)} {w w' : World ε V} {m : Move ε V}
    (h : Hushed n key items w) (reachable : Reachable w) (known : key < w.nextKey) (s : Step w m w')
    (alone : w.intrudes key m = false) : Hushed n key items w' := by
  rcases s.reader_cases known with quiet | ⟨seat, seated, _, advanced⟩
  · cases s with
    | aside ha | dropReader ha => exact h.same (by rw [ha.cell]) ha.dispatcher quiet
    | pass | openReader | follow => exact h.same rfl rfl quiet
    | bind => exact ⟨h.phase, h.latest, h.ended, h.items, h.looks⟩
    | subscribe own =>
        rw [own] at alone
        cases alone
    | invalidate ha own =>
        unfold intrudes at alone
        split at alone
        · cases alone
        · cases own
        · rw [own] at alone
          cases alone
    | @poke asided ha =>
        have phase : asided.cache.cell.phase = w.cache.cell.phase := by rw [ha.cell]
        exact h.same phase ha.dispatcher quiet
    | @reader seat _ own seated ha =>
        rw [own] at alone
        have mine : seat.key = key := by simpa [intrudes] using alone
        obtain rfl := mine
        exact h.advanced reachable (seat?_mem seated).1 ha
    | attempt own running t =>
        exact h.turn reachable.ordered.dispatcher t (Dispatcher.attempt?_mem running).1
  · obtain ⟨listed, rfl⟩ := seat?_mem seated
    exact h.advanced reachable listed advanced

theorem Hushed.run {n key : Nat} {items : List (Item V)} {w : World ε V} (h : Hushed n key items w)
    (reachable : Reachable w) (known : key < w.nextKey) {moves : List (Move ε V)}
    (alone : w.never (intrudes key) moves = true) : Hushed n key items (w.run moves) := by
  induction moves generalizing w with
  | nil => exact h
  | cons m moves ih =>
      have s := apply_step w m
      obtain ⟨alone, rest⟩ := never_cons.mp alone
      exact ih (h.step reachable known s alone) (reachable.move m)
        (Nat.lt_of_lt_of_le known s.nextKey_le) rest

/-! ## §5. Whom a failure reaches. -/

/-- A failure that counts is taken in, and then it is the attempt's last answer. -/
theorem apply_fails {w : World ε V} {a : Attempt ε V} {failure : Failure}
    (running : w.cache.dispatcher.attempt? a.number = some a)
    (reporting : a.progress = .reporting (.error failure)) (alive : w.isCacheAlive = true)
    (latest : w.cache.dispatcher.latest = a.number) :
    w.apply (.attempt a.number)
      = (w.withCache fun c => c.withCell fun cell =>
          (cell.tally Counters.countFailure).moveTo (.invalid false)).advanceTo a
            (.answering (.error failure) false) := by
  have goesOn : a.goesOn (.error failure) .discarded = false := by
    simp [Attempt.goesOn, Except.isOk, Except.toBool]
  rw [apply_report running reporting]
  simp only [report, alive, if_true, Cache.take, latest, ne_eq, not_true_eq_false, if_false, goesOn]
  rfl

/-- What the failure of the attempt `a` leaves behind when it is taken in. -/
structure TookIn (a : Attempt ε V) (failure : Failure) (w p : World ε V) : Prop where
  phase : p.cache.cell.phase = .invalid false
  failures : p.cache.cell.counters.failures = w.cache.cell.counters.failures + 1
  latest : p.cache.dispatcher.latest = a.number
  ending : p.cache.dispatcher.attempt? a.number
    = some { a with progress := .answering (.error failure) false }
  ended : ∀ b ∈ p.cache.dispatcher.running, b.number = a.number →
    ∃ answer, b.progress = .answering answer false
  seats : p.seats = w.seats
  items : ∀ key, p.itemsTo key = w.itemsTo key

theorem tookIn_apply {w : World ε V} {a : Attempt ε V} {failure : Failure}
    (running : w.cache.dispatcher.attempt? a.number = some a)
    (reporting : a.progress = .reporting (.error failure)) (alive : w.isCacheAlive = true)
    (latest : w.cache.dispatcher.latest = a.number) :
    TookIn a failure w (w.apply (.attempt a.number)) := by
  rw [apply_fails running reporting alive latest]
  refine ⟨rfl, rfl, latest, ?_, fun b hb number => ?_, rfl, fun _ => rfl⟩
  · exact attempt?_update (a := { a with progress := .answering (.error failure) false })
      (Option.isSome_iff_exists.mpr ⟨a, running⟩)
  · rcases Dispatcher.mem_update_iff.mp hb with ⟨_, other⟩ | ⟨rfl, _⟩
    · exact absurd number other
    · exact ⟨_, rfl⟩

/-- An attempt that is about to make a failure known, and has not answered, answers with it. -/
theorem answers_failure {w : World ε V} (h : Reachable w) {a : Attempt ε V} {failure : Failure}
    (ha : a ∈ w.cache.dispatcher.running) (reporting : a.progress = .reporting (.error failure))
    (first : a.item = 0) (more : List (Move ε V)) {answer : Answer V}
    (answered : (w.run more).cache.dispatcher.answer? a.number = some answer) :
    answer = .error failure := by
  obtain ⟨given, faithful⟩ := h.faithful
  -- what it says is what it was given first, and so is what it answers
  have news := faithful.news a ha first
  rw [Attempt.news?, reporting] at news
  obtain ⟨y, hy, report⟩ := Option.map_eq_some_iff.mp news.symm
  obtain ⟨y', hy', same⟩ := (faithful.run h more).answers a.number answer answered
  have still : (given ++ w.yields more).lookup a.number = some y := by
    rw [List.lookup_append, hy]
    rfl
  rw [Option.some.inj (hy'.symm.trans still), report] at same
  cases answer with
  | ok fetched => cases same
  | error failure' =>
      obtain rfl := Except.error.inj same
      rfl

/-- A reader whose task goes on keeps its seat. -/
theorem seat?_advanceReader {w : World ε V} {key : Nat} {seat : Seat} {cache : Cache ε V}
    {reader : Reader} {item : Item V} (seated : w.seat? key = some seat)
    (stepped : seat.reader.step w.cache w.now = (cache, reader, some item))
    (stays : endsTask seat.role item = false) :
    (w.advanceReader key).seat? key = some { seat with reader } := by
  have reseated := seat?_reseat seated cache reader
  unfold advanceReader
  simp only [seated, stepped, stays, if_neg Bool.false_ne_true]
  exact reseated

/-- **Who waits for a failure is told of it, and then of its end.** -/
theorem told_failure {w : World ε V} (h : Reachable w) {seat : Seat}
    (seated : w.seat? seat.key = some seat) (role : seat.role ≠ .read) {n : Nat}
    (awaits : seat.reader.awaits? = some n) {failure : Failure}
    (answered : w.cache.dispatcher.answer? n = some (.error failure)) :
    (w.run [.reader seat.key, .reader seat.key]).itemsTo seat.key
      = .finished :: .failed failure :: w.itemsTo seat.key := by
  have given : (seat.reader.step w.cache w.now).2.2 = some (.failed failure) := by
    rcases seat.reader.step_awaiting awaits w.cache w.now with ⟨none, _⟩ | ⟨answer, ha, given⟩
    · rw [none] at answered
      cases answered
    · rw [given, Option.some.inj (ha.symm.trans answered)]
      rfl
  have first : (w.advanceReader seat.key).itemsTo seat.key = .failed failure :: w.itemsTo seat.key :=
    apply_awaiting h seated awaits answered
  have through := Reader.through_of_failed given
  have stays : endsTask seat.role (.failed failure : Item V) = false := by
    cases hr : seat.role with
    | read => exact absurd hr role
    | follow => rfl
    | polled => rfl
  have stepped : seat.reader.step w.cache w.now = ((seat.reader.step w.cache w.now).1,
      (seat.reader.step w.cache w.now).2.1, some (.failed failure)) :=
    Prod.ext rfl (Prod.ext rfl given)
  have again := seat?_advanceReader seated stepped stays
  have reachable : Reachable (w.advanceReader seat.key) := h.move (.reader seat.key)
  show ((w.advanceReader seat.key).advanceReader seat.key).itemsTo seat.key = _
  generalize w.advanceReader seat.key = w₁ at first again reachable ⊢
  have second := reachable.attended.itemsTo_apply again
  rw [(Reader.step_through through w₁.cache w₁.now).2] at second
  refine second.trans ?_
  show Item.finished :: w₁.itemsTo seat.key = _
  rw [first]

section

variable {w p : World ε V} {a : Attempt ε V} {failure : Failure} {seat : Seat}

/-- Whoever waits for the first item of an attempt that has failed is told of nothing else. -/
theorem failure_first (h : Reachable w) (listed : a ∈ w.cache.dispatcher.running)
    (reporting : a.progress = .reporting (.error failure)) (first : a.item = 0)
    (sits : seat ∈ w.seats) (awaits : seat.reader.awaits? = some a.number) (more : List (Move ε V)) :
    (w.run more).itemsTo seat.key = w.itemsTo seat.key
      ∨ ∃ later, (w.run more).itemsTo seat.key = later ++ .failed failure :: w.itemsTo seat.key
        ∧ ∀ item ∈ later, item = .finished := by
  have served := (Served.of_awaits h sits awaits).run h (h.attended.below seat sits) more
  rcases served with ⟨none, _⟩ | ⟨answer, later, answered, told⟩
  · exact Or.inl none
  · rw [answers_failure h listed reporting first more answered] at told
    have told : (w.run more).itemsTo seat.key = later ++ .failed failure :: w.itemsTo seat.key := told
    exact Or.inr ⟨later, told, (h.run more).concluded.last _ _ _ _ told⟩

/-- The attempt answers, and then the reader takes two steps. -/
theorem failure_next (h : Reachable w) (listed : a ∈ w.cache.dispatcher.running)
    (reporting : a.progress = .reporting (.error failure)) (first : a.item = 0)
    (took : TookIn a failure w (w.apply (.attempt a.number)))
    (seated : w.seat? seat.key = some seat) (role : seat.role ≠ .read)
    (awaits : seat.reader.awaits? = some a.number) :
    ((w.apply (.attempt a.number)).run
        [.attempt a.number, .reader seat.key, .reader seat.key]).itemsTo seat.key
      = .finished :: .failed failure :: w.itemsTo seat.key := by
  have reachable : Reachable ((w.apply (.attempt a.number)).apply (.attempt a.number)) :=
    (h.move _).move _
  have answers := apply_answers (a := { a with progress := .answering (.error failure) false })
    took.ending rfl
  obtain ⟨answer, answered⟩ := Dispatcher.hasAnswered_iff.mp answers
  rw [answers_failure h listed reporting first [.attempt a.number, .attempt a.number] answered]
    at answered
  obtain ⟨seats, deliveries⟩ := apply_attempt_seats (w.apply (.attempt a.number)) a.number
  have seated' : ((w.apply (.attempt a.number)).apply (.attempt a.number)).seat? seat.key
      = some seat := by
    unfold seat? at seated ⊢
    rw [seats, took.seats]
    exact seated
  show (((w.apply (.attempt a.number)).apply (.attempt a.number)).run
    [.reader seat.key, .reader seat.key]).itemsTo seat.key = _
  rw [told_failure reachable seated' role awaits answered, itemsTo_eq deliveries, took.items]

/-- Whoever does not wait for the attempt, or waits for a value that it gave before, misses its
failure. -/
theorem missed_of_tookIn (h : Reachable w) (listed : a ∈ w.cache.dispatcher.running)
    (took : TookIn a failure w (w.apply (.attempt a.number))) (sits : seat ∈ w.seats)
    (apart : seat.reader.awaits? ≠ some a.number ∨ a.item ≠ 0) :
    Missed a.number seat.key (w.apply (.attempt a.number)) := by
  refine ⟨Nat.le_of_eq took.latest.symm, fun busy => ?_, ?_⟩
  · rw [took.phase] at busy
    cases busy
  · by_cases first : a.item = 0
    · refine Or.inr fun s hs hk => ?_
      rw [took.seats] at hs
      rw [eq_of_increasing h.attended.distinct hs sits hk]
      exact apart.resolve_right (fun later => later first)
    · obtain ⟨fetched, answered⟩ := h.productive.went a listed first
      exact Or.inl ⟨fetched, answer?_run h answered [.attempt a.number]⟩

/-- Whoever follows the cell when a failure is taken in is hushed. -/
theorem hushed_of_tookIn (h : Reachable w) (took : TookIn a failure w p) (sits : seat ∈ w.seats)
    (follows : seat.reader.reading.follows = true)
    (looks : seat.reader.stage = .looking ∨ seat.reader.stage = .parked) :
    Hushed a.number seat.key (w.itemsTo seat.key) p := by
  refine ⟨took.phase, took.latest, took.ended, took.items _, fun s hs hk => ?_⟩
  rw [took.seats] at hs
  rw [eq_of_increasing h.attended.distinct hs sits hk]
  exact ⟨follows, looks⟩

end

/-- **Whom the failure of an attempt reaches.**  Let the newest attempt report a failure to a cache in
being, and let somebody follow the value with a live reader.  The report counts, and leaves the cell
without a value.  If the reader waits for the attempt, and the attempt has given nothing before, the
failure is the next thing that the reader is told, and then its end.  Otherwise the reader is never told
of this failure, however the run goes on; and if it follows the cell, it is told nothing at all until
somebody else takes an interest in the value or throws it away. -/
theorem failure_reaches_waiters {w : World ε V} (h : Reachable w) {a : Attempt ε V}
    {failure : Failure} (running : w.cache.dispatcher.attempt? a.number = some a)
    (reporting : a.progress = .reporting (.error failure)) (alive : w.isCacheAlive = true)
    (latest : w.cache.dispatcher.latest = a.number) {seat : Seat}
    (seated : w.seat? seat.key = some seat) (follows : seat.reader.reading.follows = true)
    (role : seat.role ≠ .read) :
    let p := w.apply (.attempt a.number)
    let old := w.itemsTo seat.key
    (p.cache.cell.phase = .invalid false
        ∧ p.cache.cell.counters.failures = w.cache.cell.counters.failures + 1)
      ∧ (seat.reader.awaits? = some a.number → a.item = 0 →
        (∀ more, (p.run more).itemsTo seat.key = old
            ∨ ∃ later, (p.run more).itemsTo seat.key = later ++ .failed failure :: old
                ∧ ∀ item ∈ later, item = .finished)
          ∧ (p.run [.attempt a.number, .reader seat.key, .reader seat.key]).itemsTo seat.key
              = .finished :: .failed failure :: old)
      ∧ (seat.reader.awaits? ≠ some a.number ∨ a.item ≠ 0 → ∀ reason,
          failure = .fetchFailed a.number reason → ∀ more, ∃ new,
            (p.run more).itemsTo seat.key = new ++ old ∧ .failed failure ∉ new)
      ∧ (seat.reader.stage = .looking ∨ seat.reader.stage = .parked → ∀ more,
          p.never (intrudes seat.key) more = true →
            (p.run more).itemsTo seat.key = old
              ∧ (p.run more).cache.cell.phase = .invalid false) := by
  intro p old
  obtain ⟨listed, _⟩ := Dispatcher.attempt?_mem running
  have sits := (seat?_mem seated).1
  have reachable : Reachable p := h.move _
  have known : seat.key < p.nextKey := h.attended.known sits _
  have took : TookIn a failure w p := tookIn_apply running reporting alive latest
  refine ⟨⟨took.phase, took.failures⟩, fun awaits first => ⟨fun more => ?_, ?_⟩,
    fun apart reason hf more => ?_, fun looks more alone => ?_⟩
  · exact failure_first h listed reporting first sits awaits (.attempt a.number :: more)
  · exact failure_next h listed reporting first took seated role awaits
  · obtain ⟨new, items, untold⟩ :=
      (missed_of_tookIn h listed took sits apart).run reachable known more reason
    exact ⟨new, by rw [items, took.items], by rw [hf]; exact untold⟩
  · have hushed := (hushed_of_tookIn h took sits follows looks).run reachable known alone
    exact ⟨hushed.items, hushed.phase⟩

/-- A source whose calls fail. -/
def failing : Source Unit Nat where
  shape := .oneShot fun _ => some ⟨0, fun _ _ => .failed "offline"⟩

/-- A live reader waits, and the call that it waits for has failed. -/
def firstFailure : List (Move Unit Nat) :=
  [.bind failing, .openReader .live .polled, .follow 0, .reader 0, .reader 0, .attempt 1, .attempt 1,
    .attempt 1]

theorem failure_reaches_waiters_first :
    let w : World Unit Nat := (selfRefreshing ⟨.periodic 60000, .unpaced⟩ none ()).run firstFailure
    (w.seats.map fun s => s.reader.awaits?) = [some 1]
      ∧ (w.run [.attempt 1, .attempt 1, .reader 0, .reader 0]).itemsTo 0
        = [.finished, .failed (.fetchFailed 1 "offline")] := by
  have reachable : Reachable ((selfRefreshing ⟨.periodic 60000, .unpaced⟩ none ()).run firstFailure) :=
    (Reachable.initial (.selfRefreshing _ _ _)).run _
  have told := (failure_reaches_waiters reachable
    (a := ⟨1, 0, none, none, none, 0, .reporting (.error (.fetchFailed 1 "offline"))⟩) rfl rfl rfl rfl
    (show _ = some ⟨0, .follow, ⟨.live, .waiting 1, none, 0⟩⟩ from rfl) rfl (by decide)).2.1 rfl rfl
  exact ⟨rfl, told.2⟩

/-- A sequence that gives a value, and fails a second later. -/
def breaking : Source Unit Nat where
  shape := .continuous fun _ => some fun item =>
    .item ⟨1000 * item, fun _ _ => if item = 0 then .value 10 else .failed "offline"⟩

/-- A live reader is given the value, and reads on while the sequence fails. -/
def secondFailure : List (Move Unit Nat) :=
  [.bind breaking, .openReader .live .polled, .follow 0, .reader 0, .reader 0, .attempt 1, .attempt 1,
    .attempt 1, .attempt 1, .attempt 1, .attempt 1, .reader 0, .reader 0, .attempt 1, .pass 1000,
    .attempt 1, .attempt 1, .attempt 1, .reader 0, .reader 0]

/-- **A live reader is not told of a failure that comes after a value.**  The failure is counted, and
the cell is left without a value; no attempt is on its way any more, and the reader, which has taken
every step that it could take, waits for a mark. -/
theorem late_failure_untold :
    let w : World Unit Nat := (selfRefreshing ⟨.periodic 60000, .unpaced⟩ none ()).run secondFailure
    w.cache.cell.counters.failures = 1 ∧ w.cache.cell.phase = .invalid false
      ∧ w.cache.dispatcher.running.length = 0
      ∧ (w.seats.map fun s => (s.reader.stage, s.reader.isReady w.cache)) = [(.parked, false)]
      ∧ w.itemsTo 0 = [.value ⟨10, 1, 0⟩] := by
  decide

end World

end SingleFlight
