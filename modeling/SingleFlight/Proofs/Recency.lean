/-
  SingleFlight.Proofs.Recency — reads never go back in time.

  A value carries its origin, and origins are ordered as values are fetched: by
  attempt, and within an attempt by item.  `Passed` says that a world has come
  past an origin: its attempt has had its say about the item (`Spoken`), nothing
  that is held comes earlier, whatever is stored from then on comes later, and
  whoever starts to wait waits for a later attempt.  Every step keeps that, and
  every value that was given to somebody is of an origin that the world has come
  past, whether that value was stored or not.

  Main results:
    * `Passed.run` — a world that has come past an origin stays past it.
    * `Reachable.surpassed` — it has come past every first answer.
    * `Reachable.passed_delivered` — it has come past everything it gave.
    * `monotonic_reads` — who starts to read after a value was given is given
      nothing older, and who demands a fetch is given something newer.
-/
import SingleFlight.Proofs.Coalescing
import SingleFlight.Proofs.Quiescence

namespace SingleFlight

variable {ε V : Type}

open Dispatcher (Orderly)

/-! ## §1. The order of origins. -/

namespace Origin

/-- Origins are ordered by attempt, and then by item. -/
instance : LT Origin where
  lt o o' := o.attempt < o'.attempt ∨ (o.attempt = o'.attempt ∧ o.item < o'.item)

instance : LE Origin where
  le o o' := o.attempt < o'.attempt ∨ (o.attempt = o'.attempt ∧ o.item ≤ o'.item)

theorem lt_iff {o o' : Origin} :
    o < o' ↔ o.attempt < o'.attempt ∨ (o.attempt = o'.attempt ∧ o.item < o'.item) := Iff.rfl

theorem le_iff {o o' : Origin} :
    o ≤ o' ↔ o.attempt < o'.attempt ∨ (o.attempt = o'.attempt ∧ o.item ≤ o'.item) := Iff.rfl

theorem le_refl (o : Origin) : o ≤ o := Or.inr ⟨rfl, Nat.le_refl _⟩

theorem le_of_lt {o o' : Origin} (h : o < o') : o ≤ o' := by
  rw [lt_iff] at h
  rw [le_iff]
  omega

theorem attempt_le {o o' : Origin} (h : o ≤ o') : o.attempt ≤ o'.attempt := by
  rw [le_iff] at h
  omega

/-- Of two origins that differ, the one that comes no earlier comes later. -/
theorem lt_of_le_of_ne {o o' : Origin} (h : o ≤ o') (differ : o' ≠ o) : o < o' := by
  obtain ⟨attempt, item⟩ := o
  obtain ⟨attempt', item'⟩ := o'
  rw [ne_eq, Origin.mk.injEq] at differ
  simp only [le_iff] at h
  simp only [lt_iff]
  omega

end Origin

namespace World

/-! ## §2. Coming past an origin. -/

/-- The attempt of the origin `o` has had its say about the item: if it is still on its way in the world
`w`, it is about to answer with the item, or has gone on to a later one. -/
structure Spoken (o : Origin) (w : World ε V) : Prop where
  latest : o.attempt ≤ w.cache.dispatcher.latest
  next : ∀ a ∈ w.cache.dispatcher.running, a.number = o.attempt →
    o.item < a.item ∨ (o.item = a.item ∧ a.isAnswering = true)

theorem Spoken.same {o : Origin} {w w' : World ε V} (h : Spoken o w)
    (dispatcher : w'.cache.dispatcher = w.cache.dispatcher) : Spoken o w' :=
  ⟨by rw [dispatcher]; exact h.latest, by rw [dispatcher]; exact h.next⟩

theorem Spoken.touch {o : Origin} {w w' : World ε V} {c : Cache ε V} (h : Spoken o w)
    (t : Cache.Touch w.cache w.now c) (dispatcher : w'.cache.dispatcher = c.dispatcher) :
    Spoken o w' := by
  have latest := latest_touch t
  have before := h.latest
  refine ⟨?_, fun a ha number => ?_⟩
  · rw [dispatcher]
    omega
  · rw [dispatcher] at ha
    rcases mem_touch t ha with old | rfl
    · exact h.next a old number
    · -- the new attempt has a new number
      have number : w.cache.dispatcher.latest + 1 = o.attempt := number
      omega

theorem Spoken.turn {o : Origin} {w w' : World ε V} {a : Attempt ε V} {left : Option (Attempt ε V)}
    (h : Spoken o w) (orderly : Orderly w.now w.cache.dispatcher) (t : Turn w a w' left)
    (ha : a ∈ w.cache.dispatcher.running) : Spoken o w' := by
  refine ⟨?_, fun b hb number => ?_⟩
  · rw [(t.progressed orderly ha).kept.latest]
    exact h.latest
  · have own (hleft : left = some b) :
        o.item < b.item ∨ (o.item = b.item ∧ b.isAnswering = true) := by
      have past := h.next a ha ((t.number hleft).symm.trans number)
      rcases t.item_cases hleft with later | ⟨item, stays⟩
      · omega
      · rw [item]
        exact past.imp_right fun ⟨same, answering⟩ => ⟨same, stays answering⟩
    rcases t.mem_cases hb with ⟨old, _⟩ | hleft | ⟨old, _⟩
    · exact h.next b old number
    · exact own hleft
    · exact h.next b old number

/-- The world has come past the origin `o`. -/
structure Passed (o : Origin) (w : World ε V) : Prop extends Spoken o w where
  /-- A fetch on its way is a later attempt. -/
  busy : w.cache.cell.phase = .calculating → o.attempt < w.cache.dispatcher.latest
  held : ∀ content, w.cache.cell.phase = .holding (.concealed content) → o ≤ content.origin

/-- A move that leaves the attempts alone, and stores nothing, takes nothing back. -/
theorem Passed.same {o : Origin} {w w' : World ε V} (h : Passed o w)
    (dispatcher : w'.cache.dispatcher = w.cache.dispatcher)
    (busy : w'.cache.cell.phase = .calculating → w.cache.cell.phase = .calculating)
    (holds : ∀ v, w'.cache.cell.phase = .holding v → w.cache.cell.phase = .holding v) :
    Passed o w' := by
  refine ⟨h.toSpoken.same dispatcher, fun calculating => ?_, fun content holding => ?_⟩
  · rw [dispatcher]
    exact h.busy (busy calculating)
  · exact h.held content (holds _ holding)

/-- A section of a reader stores nothing, and launches a later attempt if any. -/
theorem Passed.touch {o : Origin} {w w' : World ε V} {c : Cache ε V} (h : Passed o w)
    (t : Cache.Touch w.cache w.now c) (cell : w'.cache.cell = c.cell)
    (dispatcher : w'.cache.dispatcher = c.dispatcher) : Passed o w' := by
  have latest := latest_touch t
  have before := h.latest
  refine ⟨h.toSpoken.touch t dispatcher, fun calculating => ?_, fun content holding => ?_⟩
  · rw [dispatcher]
    rw [cell] at calculating
    rcases t.phase_cases with same | ⟨refetch, phase, _⟩ | ⟨_, n, started⟩
    · have := h.busy (same.symm.trans calculating)
      omega
    · rw [phase] at calculating
      cases calculating
    · rw [started.latest]
      omega
  · rw [cell] at holding
    exact h.held content (t.holding holding)

/-- What the newest attempt reports comes later than everything that the world has come past. -/
theorem Passed.lt_reported {o : Origin} {w : World ε V} (h : Passed o w) (filed : Filed w)
    {a : Attempt ε V} (ha : a ∈ w.cache.dispatcher.running)
    (latest : w.cache.dispatcher.latest = a.number) {content : Sourced V}
    (reporting : a.progress = .reporting (.ok content)) : o < content.origin := by
  obtain ⟨origin, silent⟩ := filed.reports ha reporting
  have before := h.latest
  have next := h.next a ha
  rw [silent] at next
  rw [origin, Origin.lt_iff]
  rw [latest] at before
  rcases Nat.lt_or_eq_of_le before with older | own
  · exact Or.inl older
  · rcases next own.symm with item | ⟨_, answering⟩
    · exact Or.inr ⟨own, item⟩
    · cases answering

/-- A step of an attempt takes nothing back. -/
theorem Passed.turn {o : Origin} {w w' : World ε V} {a : Attempt ε V} {left : Option (Attempt ε V)}
    (h : Passed o w) (reachable : Reachable w) (t : Turn w a w' left)
    (ha : a ∈ w.cache.dispatcher.running) : Passed o w' := by
  have orderly := reachable.ordered.dispatcher
  refine ⟨h.toSpoken.turn orderly t ha, fun calculating => ?_, fun content holding => ?_⟩
  · rw [(t.progressed orderly ha).kept.latest]
    exact h.busy (t.busy_before calculating)
  · rcases t.phase_cases with same | ⟨_, _, phase⟩ | ⟨_, newest, content, reporting, _, phase⟩
    · exact h.held content (same.symm.trans holding)
    · rw [phase] at holding
      cases holding
    · rw [phase] at holding
      cases holding
      exact Origin.le_of_lt (h.lt_reported reachable.filed ha newest reporting)

/-- **No step takes a world back behind an origin.** -/
theorem Passed.step {o : Origin} {w w' : World ε V} {m : Move ε V} (h : Passed o w)
    (reachable : Reachable w) (s : Step w m w') : Passed o w' := by
  cases s with
  | aside ha | dropReader ha =>
      refine h.same ha.dispatcher ?_ ?_
      · rw [ha.cell]
        exact id
      · rw [ha.cell]
        exact fun _ => id
  | pass | openReader | follow => exact h.same rfl id fun _ => id
  | bind => exact ⟨⟨h.latest, h.next⟩, h.busy, h.held⟩
  | invalidate ha => exact h.same ha.dispatcher (fun busy => nomatch busy) fun _ holding => nomatch holding
  | @poke asided ha =>
      have phase : asided.cache.cell.phase = w.cache.cell.phase := by rw [ha.cell]
      exact h.same ha.dispatcher (phase.symm.trans ·) fun _ holding => phase.symm.trans holding
  | subscribe => exact h.touch (Cache.subscribe_touch w.cache w.now) rfl rfl
  | reader own seated ha => exact h.touch (Reader.step_stepped _ _ _).touch ha.cell ha.dispatcher
  | attempt own running t => exact h.turn reachable t (Dispatcher.attempt?_mem running).1

theorem Passed.run {o : Origin} {w : World ε V} (h : Passed o w) (reachable : Reachable w)
    (moves : List (Move ε V)) : Passed o (w.run moves) := by
  induction moves generalizing w with
  | nil => exact h
  | cons m moves ih => exact ih (h.step reachable (apply_step w m)) (reachable.move m)

/-! ## §3. What the world has come past. -/

/-- A world has come past the value that it holds. -/
theorem Reachable.passed_held {w : World ε V} (h : Reachable w) {content : Sourced V}
    (holding : w.cache.cell.phase = .holding (.concealed content)) : Passed content.origin w := by
  refine ⟨⟨?_, fun a ha number => ?_⟩, fun busy => ?_, fun content' holding' => ?_⟩
  · exact h.ordered.called_le (h.genuine.held content (by rw [holding]; rfl))
  · exact h.filed.past content holding a ha number.symm
  · rw [holding] at busy
    cases busy
  · rw [holding] at holding'
    cases holding'
    exact Origin.le_refl _

/-- Nobody on the list was launched after the attempt of the held value. -/
def Leads (w : World ε V) : Prop :=
  ∀ content, w.cache.cell.phase = .holding (.concealed content) →
    ∀ a ∈ w.cache.dispatcher.running, a.number ≤ content.origin.attempt

theorem Leads.same {w w' : World ε V} (h : Leads w)
    (dispatcher : w'.cache.dispatcher = w.cache.dispatcher)
    (holds : ∀ v, w'.cache.cell.phase = .holding v → w.cache.cell.phase = .holding v) : Leads w' := by
  intro content holding
  rw [dispatcher]
  exact h content (holds _ holding)

theorem Leads.touch {w w' : World ε V} {c : Cache ε V} (h : Leads w)
    (t : Cache.Touch w.cache w.now c) (cell : w'.cache.cell = c.cell)
    (dispatcher : w'.cache.dispatcher = c.dispatcher) : Leads w' := by
  intro content holding a ha
  rw [cell] at holding
  rw [dispatcher] at ha
  have before := h content (t.holding holding)
  -- a launch either leaves a fetch on its way behind, or runs beyond the clock and starts nobody
  rcases t.dispatcher_cases with same | ⟨_, ⟨n, _, phase⟩ | ⟨overflowed, _⟩⟩
  · rw [same] at ha
    exact before a ha
  · rw [phase] at holding
    cases holding
  · exact before a (overflowed.mem_running ha)

theorem Reachable.leads {w : World ε V} (h : Reachable w) : Leads w := by
  refine h.invariant (fun w hw => ?_) (fun w m w' reachable h s => ?_)
  · intro content holding
    cases hw <;> cases holding
  · cases s with
    | aside ha | dropReader ha => exact h.same ha.dispatcher (by rw [ha.cell]; exact fun _ => id)
    | pass | bind | openReader | follow => exact h
    | invalidate ha => exact h.same ha.dispatcher fun _ holding => nomatch holding
    | @poke asided ha =>
        have phase : asided.cache.cell.phase = w.cache.cell.phase := by rw [ha.cell]
        exact h.same ha.dispatcher fun _ holding => phase.symm.trans holding
    | subscribe => exact h.touch (Cache.subscribe_touch w.cache w.now) rfl rfl
    | reader own seated ha => exact h.touch (Reader.step_stepped _ _ _).touch ha.cell ha.dispatcher
    | @attempt a _ _ own running t =>
        intro content holding b hb
        obtain ⟨ha, _⟩ := Dispatcher.attempt?_mem running
        obtain ⟨c, hc, number⟩ := (t.progressed reachable.ordered.dispatcher ha).kept.mem hb
        rw [← number]
        rcases t.phase_cases with same | ⟨_, _, phase⟩ | ⟨_, newest, content, reporting, _, phase⟩
        · exact h content (same.symm.trans holding) c hc
        · rw [phase] at holding
          cases holding
        · -- only the newest attempt stores
          rw [phase] at holding
          cases holding
          obtain ⟨origin, _⟩ := reachable.filed.reports ha reporting
          rw [origin, ← newest]
          exact (reachable.ordered.dispatcher.bounded c hc).2

/-- The world has come past every first value that was answered, and that is about to be. -/
structure Surpassed (w : World ε V) : Prop where
  answered : ∀ n fetched, w.cache.dispatcher.answer? n = some (.ok fetched) → Passed ⟨n, 0⟩ w
  answering : ∀ a ∈ w.cache.dispatcher.running, a.item = 0 → ∀ fetched continues,
    a.progress = .answering (.ok fetched) continues → Passed ⟨a.number, 0⟩ w

/-- When an attempt has reported its first value, the world has come past it: it was stored, or the
cell stopped waiting for it, or a later attempt was launched. -/
theorem Turn.passed_reported {w w' : World ε V} {a b : Attempt ε V} {left : Option (Attempt ε V)}
    (t : Turn w a w' left) (reachable : Reachable w') (before : Reachable w)
    (ha : a ∈ w.cache.dispatcher.running) (hleft : left = some b) (hb : b ∈ w'.cache.dispatcher.running)
    (alive : w.isCacheAlive = true) (item : b.item = 0) {fetched : Fetched V} {continues : Bool}
    (answering : b.progress = .answering (.ok fetched) continues) (moved : b ≠ a) :
    Passed ⟨b.number, 0⟩ w' := by
  have said : b.isAnswering = true := by simp [Attempt.isAnswering, answering]
  have orderly := reachable.ordered.dispatcher
  have latest := (t.progressed before.ordered.dispatcher ha).kept.latest
  refine ⟨⟨(orderly.bounded b hb).2, fun c hc number => ?_⟩, fun busy => ?_, fun content holding => ?_⟩
  · have same : c = b := orderly.eq_of_number hc hb number
    rw [same, item]
    exact Or.inr ⟨rfl, said⟩
  · -- the newest attempt does not answer before the cell has moved on
    show b.number < w'.cache.dispatcher.latest
    rcases t.answering_cases hleft said with same | gone | older | idle
    · exact absurd same moved
    · rw [alive] at gone
      cases gone
    · have bound := (before.ordered.dispatcher.bounded a ha).2
      rw [latest, t.number hleft]
      omega
    · exact absurd busy idle
  · have number := reachable.leads content holding b hb
    rw [Origin.le_iff]
    show b.number < _ ∨ (b.number = _ ∧ 0 ≤ _)
    omega

theorem Surpassed.turn {w w' : World ε V} {a : Attempt ε V} {left : Option (Attempt ε V)}
    (h : Surpassed w) (reachable : Reachable w) (after : Reachable w') (t : Turn w a w' left)
    (ha : a ∈ w.cache.dispatcher.running) (alive : w.isCacheAlive = true) : Surpassed w' := by
  have orderly := reachable.ordered.dispatcher
  constructor
  · intro n fetched answered
    rcases t.answer_source orderly ha answered with old | ⟨rfl, unanswered, said⟩
    · exact (h.answered n fetched old).turn reachable t ha
    · -- what is answered now was about to be
      have item := item_of_unanswered orderly ha (by simp [Dispatcher.hasAnswered, unanswered])
      rcases said with ⟨continues, answering⟩ | ⟨lost, _⟩
      · exact (h.answering a ha item fetched continues answering).turn reachable t ha
      · cases lost
  · intro b hb item fetched continues answering
    have stays (old : b ∈ w.cache.dispatcher.running) : Passed ⟨b.number, 0⟩ w' :=
      (h.answering b old item fetched continues answering).turn reachable t ha
    rcases t.mem_running hb with old | hleft
    · exact stays old
    · by_cases same : b = a
      · rw [same] at stays ⊢
        exact stays ha
      · exact t.passed_reported after reachable ha hleft hb alive item answering same

/-- **A world has come past every first value that was answered**, as long as the cache is in being. -/
theorem Reachable.surpassed {w : World ε V} (h : Reachable w) (alive : w.isCacheAlive = true) :
    Surpassed w := by
  induction h with
  | initial h =>
      constructor
      · intro n fetched answered
        cases h <;> cases answered
      · intro a ha
        cases h <;> cases ha
  | @move w reachable m ih =>
      have s := apply_step w m
      have after := reachable.move m
      generalize w.apply m = w' at s after alive ⊢
      have before : w.isCacheAlive = true := s.alive alive
      have h := ih before
      -- others than attempts answer nobody
      have others (answers : ∀ n, w'.cache.dispatcher.answer? n = w.cache.dispatcher.answer? n)
          (runs : ∀ b ∈ w'.cache.dispatcher.running, b ∈ w.cache.dispatcher.running
            ∨ b.isAnswering = false) : Surpassed w' := by
        constructor
        · intro n fetched answered
          rw [answers] at answered
          exact (h.answered n fetched answered).step reachable s
        · intro b hb item fetched continues answering
          rcases runs b hb with old | silent
          · exact (h.answering b old item fetched continues answering).step reachable s
          · simp [Attempt.isAnswering, answering] at silent
      have untouched (dispatcher : w'.cache.dispatcher = w.cache.dispatcher) : Surpassed w' := by
        refine others (fun n => by rw [dispatcher]) fun b hb => ?_
        rw [dispatcher] at hb
        exact Or.inl hb
      have touched {c : Cache ε V} (t : Cache.Touch w.cache w.now c)
          (dispatcher : w'.cache.dispatcher = c.dispatcher) : Surpassed w' := by
        refine others (fun n => ?_) fun b hb => ?_
        · rw [dispatcher, answer?_touch t reachable.ordered.dispatcher]
        · rw [dispatcher] at hb
          exact (mem_touch t hb).imp_right fun launched => by rw [launched]; rfl
      cases s with
      | aside ha | invalidate ha | poke ha | dropReader ha => exact untouched ha.dispatcher
      | pass | openReader | follow => exact untouched rfl
      | bind => exact others (fun _ => rfl) fun _ => Or.inl
      | subscribe => exact touched (Cache.subscribe_touch w.cache w.now) rfl
      | reader own seated ha => exact touched (Reader.step_stepped _ _ _).touch ha.dispatcher
      | attempt own running t =>
          exact h.turn reachable after t (Dispatcher.attempt?_mem running).1 before

/-- Whoever waits for an attempt holds the cache. -/
theorem alive_of_awaits {w : World ε V} {seat : Seat} (seated : seat ∈ w.seats) {k : Nat}
    (awaits : seat.reader.awaits? = some k) : w.isCacheAlive = true := by
  refine isCacheAlive_of_seat seated ?_
  unfold Reader.holdsCache
  rcases Reader.awaits?_eq_some_iff.mp awaits with hs | hs <;> rw [hs]

/-- A world has come past every value that one of its readers is about to hand out. -/
theorem Reachable.passed_handed {w : World ε V} (h : Reachable w) {seat : Seat} (seated : seat ∈ w.seats)
    {content : Sourced V} (hands : seat.reader.Hands w.cache (.value content)) :
    Passed content.origin w := by
  generalize hitem : (Item.value content : Item V) = item at hands
  cases hands with
  | held holding =>
      cases hitem
      exact h.passed_held holding
  | @answered k fetched awaits answered =>
      cases hitem
      have surpassed := h.surpassed (alive_of_awaits seated awaits)
      rw [h.answered_first answered]
      exact surpassed.answered k fetched answered
  | refused | unbound | broken | crashed | finished => cases hitem

/-- **A world has come past every value that it gave**, in every reachable world. -/
theorem Reachable.passed_delivered {w : World ε V} (h : Reachable w) :
    ∀ d ∈ w.deliveries, ∀ content, d.item = .value content → Passed content.origin w := by
  refine h.invariant (P := fun w => ∀ d ∈ w.deliveries, ∀ content, d.item = .value content →
    Passed content.origin w) (fun w hw => ?_) (fun w m w' reachable h s => ?_)
  · intro d hd
    cases hw <;> cases hd
  · intro d hd content item
    have stays (old : d ∈ w.deliveries) : Passed content.origin w' :=
      (h d old content item).step reachable s
    have kept := s
    cases s with
    | aside ha | invalidate ha | poke ha | dropReader ha =>
        have same := ha.deliveries
        exact stays (same ▸ hd)
    | pass | bind | subscribe | openReader | follow => exact stays hd
    | attempt own running t => exact stays (t.seats.2.2 ▸ hd)
    | @reader seat _ own seated ha =>
        rcases ha.deliveries with ⟨_, same⟩ | ⟨given, time, some, new⟩
        · exact stays (same ▸ hd)
        · rw [new] at hd
          rcases List.mem_cons.mp hd with rfl | old
          · obtain ⟨listed, _⟩ := seat?_mem seated
            have hands := ((seat.reader.step_stepped w.cache w.now).hands given some).1
            have shown : presented seat.role given = .value content := item
            rw [presented_eq (reachable.attended.isOpen seat listed) hands] at shown
            rw [shown] at hands
            exact (reachable.passed_handed listed hands).step reachable kept
          · exact stays old

/-! ## §4. What is stored. -/

/-- The value that a move stores, if it stores one: the one that is held under a new revision. -/
def stored? (w : World ε V) (m : Move ε V) : Option (Sourced V) :=
  if (w.apply m).cache.cell.revision = w.cache.cell.revision then none
  else (w.apply m).cache.cell.phase.value?

/-- The values that are stored along a run, oldest first. -/
def stores (w : World ε V) (moves : List (Move ε V)) : List (Sourced V) := w.observed stored? moves

/-- Only a report of the newest attempt raises the revision, and then its value is held, and the book is
told of a success. -/
theorem Step.raised {w w' : World ε V} {m : Move ε V} (s : Step w m w')
    (raised : w'.cache.cell.revision ≠ w.cache.cell.revision) :
    ∃ a ∈ w.cache.dispatcher.running, ∃ content, a.progress = .reporting (.ok content)
      ∧ w.cache.dispatcher.latest = a.number
      ∧ w'.cache.cell.phase = .holding (.concealed content)
      ∧ w'.cache.cell.revision = w.cache.cell.revision + 1
      ∧ w'.cache.staleness = w.cache.staleness.recordSuccess w.now := by
  have same {c : Cell V} (cell : w'.cache.cell = c) (revision : c.revision = w.cache.cell.revision) :
      False := raised (by rw [cell, revision])
  cases s with
  | aside ha | dropReader ha => exact (same ha.cell rfl).elim
  | @invalidate asided ha | @poke asided ha =>
      have revision : asided.cache.cell.revision = w.cache.cell.revision := by rw [ha.cell]
      exact (raised revision).elim
  | pass | bind | openReader | follow => exact (raised rfl).elim
  | subscribe => exact (same rfl (Cache.subscribe_touch w.cache w.now).revision).elim
  | reader own seated ha => exact (same ha.cell (Reader.step_stepped _ _ _).touch.revision).elim
  | @attempt a _ _ own running t =>
      cases t with
      | stored reporting alive latest keeps =>
          exact ⟨a, (Dispatcher.attempt?_mem running).1, _, reporting, latest, rfl, rfl, rfl⟩
      | rest | wait | unbound | refused | called | opened | asked | finished | came | died | ignored
      | discarded | failed | resumed | ended => exact (raised rfl).elim

theorem stored?_eq_some {w : World ε V} {m : Move ε V} {content : Sourced V}
    (h : w.stored? m = some content) :
    (∃ a ∈ w.cache.dispatcher.running, a.progress = .reporting (.ok content)
        ∧ w.cache.dispatcher.latest = a.number)
      ∧ (w.apply m).cache.cell.phase = .holding (.concealed content) := by
  unfold stored? at h
  split at h
  next => cases h
  next raised =>
    obtain ⟨a, ha, content', reporting, latest, holding, _⟩ := (apply_step w m).raised raised
    rw [holding] at h
    cases h
    exact ⟨⟨a, ha, reporting, latest⟩, holding⟩

/-- A value is stored for every revision. -/
theorem stores_length (w : World ε V) (moves : List (Move ε V)) :
    w.cache.cell.revision + (w.stores moves).length = (w.run moves).cache.cell.revision := by
  induction moves generalizing w with
  | nil => rfl
  | cons m moves ih =>
      show w.cache.cell.revision + ((w.stored? m).toList ++ (w.apply m).stores moves).length = _
      rw [List.length_append, run_cons, ← ih]
      unfold stored?
      split
      next same =>
        rw [same]
        simp
      next raised =>
        obtain ⟨_, _, content, _, _, holding, next, _⟩ := (apply_step w m).raised raised
        rw [holding, next]
        simp [Phase.value?, Visibility.value?]
        omega

/-- What is stored comes later than everything that the world has come past. -/
theorem Passed.lt_stores {o : Origin} {w : World ε V} (h : Passed o w) (reachable : Reachable w)
    (moves : List (Move ε V)) : ∀ content ∈ w.stores moves, o < content.origin := by
  induction moves generalizing w with
  | nil =>
      intro content stored
      cases stored
  | cons m moves ih =>
      intro content stored
      rcases List.mem_append.mp stored with now | later
      · obtain ⟨⟨a, ha, reporting, latest⟩, _⟩ := stored?_eq_some (Option.mem_toList.mp now)
        exact h.lt_reported reachable.filed ha latest reporting
      · exact ih (h.step reachable (apply_step w m)) (reachable.move m) content later

/-- **The origins of the values that are stored one after another strictly increase.** -/
theorem Reachable.stores_increase {w : World ε V} (h : Reachable w) (moves : List (Move ε V)) :
    (w.stores moves).Pairwise (·.origin < ·.origin) := by
  induction moves generalizing w with
  | nil => exact .nil
  | cons m moves ih =>
      refine List.pairwise_append.mpr ⟨?_, ih (h.move m), fun content now => ?_⟩
      · cases w.stored? m with
        | none => exact .nil
        | some content => exact List.pairwise_singleton _ _
      · obtain ⟨_, holding⟩ := stored?_eq_some (Option.mem_toList.mp now)
        exact ((h.move m).passed_held holding).lt_stores (h.move m) moves

/-! ## §5. Who starts to read later. -/

/-- What a step has to do with a reader that sits after it: the reader sat there before and nothing
was given to it; or it has just come; or the step was its own. -/
theorem Step.seat_cases {w w' : World ε V} {m : Move ε V} (s : Step w m w') (attended : Attended w)
    {r : Seat} (seated : r ∈ w'.seats) :
    (∃ r₀ ∈ w.seats, r₀.key = r.key ∧ r₀.reader = r.reader ∧ w'.itemsTo r.key = w.itemsTo r.key)
      ∨ (w.nextKey ≤ r.key ∧ ∃ reading, r.reader = .new reading)
      ∨ ∃ seat ∈ w.seats, seat.key = r.key ∧ r.reader = (seat.reader.step w.cache w.now).2.1
          ∧ Advanced w seat (seat.reader.step w.cache w.now) w' := by
  by_cases known : r.key < w.nextKey
  · rcases s.reader_cases known with ⟨items, seats⟩ | ⟨seat, taken, _, advanced⟩
    · obtain ⟨r₀, hr₀, hk, reader⟩ := seats r seated rfl
      exact Or.inl ⟨r₀, hr₀, hk, reader, items⟩
    · obtain ⟨listed, key⟩ := seat?_mem taken
      rcases advanced.seats r seated with ⟨_, other⟩ | ⟨_, reader, _⟩
      · exact absurd key.symm other
      · exact Or.inr (Or.inr ⟨seat, listed, key, reader, advanced⟩)
  · obtain ⟨reading, new⟩ := s.newcomer attended
    have unknown : w.nextKey ≤ r.key := Nat.not_lt.mp known
    exact Or.inr (Or.inl ⟨unknown, reading, new r seated unknown⟩)

/-- A reader that has not taken a step waits for nobody, and still has to start if it demands. -/
theorem new_idle (reading : Reading) :
    (Reader.new reading).awaits? = none
      ∧ (reading.demands = true → (Reader.new reading).isStarting = true) := by
  unfold Reader.new Reader.awaits? Reader.isStarting
  cases reading.demands <;> simp

/-- Who has not started is as it was opened. -/
theorem new_of_not_started {w : World ε V} {s : Seat} (seated : s ∈ w.seats)
    (late : w.hasStarted s.key = false) : s.reader = .new s.reader.reading := by
  by_cases fresh : s.reader = .new s.reader.reading
  · exact fresh
  · have started : w.hasStarted s.key = true := List.any_eq_true.mpr ⟨s, seated, by simp [fresh]⟩
    rw [late] at started
    cases started

/-- In the world `w`, which came after the world `p`, a reader that had not started then waits for
attempts after that of `o` only; and if it demands a fetch, it still has to start, or it has come past
the first item of such an attempt. -/
def Later (p : World ε V) (o : Origin) (w : World ε V) : Prop :=
  ∀ s ∈ w.seats, p.hasStarted s.key = false →
    (∀ k, s.reader.awaits? = some k → o.attempt < k)
      ∧ (s.reader.reading.demands = true → s.reader.isOpen = true →
          s.reader.isStarting = true ∨ ∃ k, o.attempt < k ∧ Passed ⟨k, 0⟩ w)

theorem Later.refl (p : World ε V) (o : Origin) : Later p o p := by
  intro s seated late
  have fresh := new_of_not_started seated late
  obtain ⟨idle, starting⟩ := new_idle s.reader.reading
  rw [← fresh] at idle starting
  refine ⟨fun k awaits => ?_, fun demands _ => Or.inl (starting demands)⟩
  rw [idle] at awaits
  cases awaits

/-- Whoever is told to wait is told to wait for a later attempt. -/
theorem Passed.told {o : Origin} {w : World ε V} (h : Passed o w) (ordered : Ordered w)
    {c : Cache ε V} {k : Nat} (t : Cache.Ticketed w.cache w.now (c, .wait k)) : o.attempt < k := by
  have latest := h.latest
  cases t with
  | started sound idle hl =>
      rw [(Dispatcher.launch_started hl).number]
      omega
  | joined sound busy hp =>
      rw [(ordered.dispatcher.pending k hp).2]
      exact h.busy busy

/-- A reader that demands a fetch goes on when the fetch has answered with a value, and not before. -/
theorem isStarting_cases {r : Reader} {c : Cache ε V} {now : Instant} (starting : r.isStarting = true)
    (isOpen : (r.step c now).2.1.isOpen = true) :
    (r.step c now).2.1.isStarting = true
      ∨ ∃ k fetched, r.awaits? = some k ∧ c.dispatcher.answer? k = some (.ok fetched) := by
  have act := r.step_act c now
  generalize r.step c now = out at act isOpen ⊢
  cases act with
  | demanded => exact Or.inl rfl
  | idle => exact Or.inl starting
  | started hs answer =>
      exact Or.inr ⟨_, _, Reader.awaits?_eq_some_iff.mpr (Or.inl hs), answer⟩
  | refused _ _ through | failed _ _ through =>
      rw [Reader.isOpen_of_through through] at isOpen
      cases isOpen
  | broke _ _ crashed => simp [Reader.isOpen, crashed] at isOpen
  | crashed hs => simp [Reader.isOpen, hs] at isOpen
  | satisfied | finished => cases isOpen
  | subscribed hs | unserved hs | served hs | joined hs | answered hs | woken hs =>
      simp [Reader.isStarting, hs] at starting

theorem Later.step {p w w' : World ε V} {o : Origin} {m : Move ε V} (h : Later p o w)
    (passed : Passed o w) (reachable : Reachable w) (s : Step w m w') : Later p o w' := by
  intro r seated late
  rcases s.seat_cases reachable.attended seated with
    ⟨r₀, hr₀, key, reader, _⟩ | ⟨_, reading, new⟩ | ⟨seat, listed, key, reader, advanced⟩
  · obtain ⟨waits, demands⟩ := h r₀ hr₀ (by rw [key]; exact late)
    rw [← reader]
    refine ⟨waits, fun demand isOpen => (demands demand isOpen).imp_right ?_⟩
    rintro ⟨k, later, past⟩
    exact ⟨k, later, past.step reachable s⟩
  · obtain ⟨idle, starting⟩ := new_idle reading
    rw [new]
    refine ⟨fun k awaits => ?_, fun demand _ => Or.inl (starting demand)⟩
    rw [idle] at awaits
    cases awaits
  · obtain ⟨waits, demands⟩ := h seat listed (by rw [key]; exact late)
    have stepped := seat.reader.step_stepped w.cache w.now
    rw [reader, Reader.reading_step]
    refine ⟨fun k awaits => ?_, fun demand isOpen => ?_⟩
    · cases hitem : (seat.reader.step w.cache w.now).2.2 with
      | some item =>
          rw [(stepped.hands item hitem).2] at awaits
          cases awaits
      | none =>
          rcases (stepped.quiet hitem).2 k awaits with before | told
          · exact waits k before
          · exact passed.told reachable.ordered told
    · rcases demands demand (Reader.isOpen_of_step isOpen) with starting | ⟨k, later, past⟩
      · refine (isStarting_cases starting isOpen).imp_right ?_
        rintro ⟨k, fetched, awaits, answered⟩
        have surpassed := reachable.surpassed (alive_of_awaits listed awaits)
        exact ⟨k, waits k awaits, (surpassed.answered k fetched answered).step reachable s⟩
      · exact Or.inr ⟨k, later, past.step reachable s⟩

theorem Later.run {p w : World ε V} {o : Origin} (h : Later p o w) (passed : Passed o w)
    (reachable : Reachable w) (moves : List (Move ε V)) : Later p o (w.run moves) := by
  induction moves generalizing w with
  | nil => exact h
  | cons m moves ih =>
      have s := apply_step w m
      exact ih (h.step passed reachable s) (passed.step reachable s) (reachable.move m)

/-! ## §6. Monotonic reads. -/

/-- A reader whose step shows one more item hands out that item. -/
theorem hands_of_itemsTo {w : World ε V} (h : Reachable w) {seat : Seat}
    (seated : w.seat? seat.key = some seat) {item : Item V}
    (given : (w.apply (.reader seat.key)).itemsTo seat.key = item :: w.itemsTo seat.key) :
    (seat.reader.step w.cache w.now).2.2 = some item := by
  have items := h.attended.itemsTo_apply seated
  have same := items.symm.trans given
  cases hitem : (seat.reader.step w.cache w.now).2.2 with
  | none =>
      rw [hitem] at same
      have length := congrArg List.length same
      simp at length
  | some other =>
      rw [hitem] at same
      exact congrArg some (List.cons.inj same).1

/-- Who hands out a value is open, and takes the held one, whose revision it has not noted, or waits for
the attempt that answered with it. -/
theorem value_cases {r : Reader} {c : Cache ε V} {now : Instant} {content : Sourced V}
    (given : (r.step c now).2.2 = some (.value content)) :
    r.isOpen = true
      ∧ ((r.isStarting = false ∧ c.cell.phase = .holding (.concealed content)
          ∧ r.delivered ≠ some c.cell.revision)
        ∨ ∃ k fetched, r.awaits? = some k ∧ c.dispatcher.answer? k = some (.ok fetched)
            ∧ fetched.content = content) := by
  have act := r.step_act c now
  generalize r.step c now = out at act given
  cases act with
  | served hs looked =>
      cases looked with
      | served holding fresh unseen =>
          cases given
          exact ⟨by simp [Reader.isOpen, hs],
            Or.inl ⟨by simp [Reader.isStarting, hs], holding, unseen⟩⟩
  | answered hs answer =>
      cases given
      have awaits := Reader.awaits?_eq_some_iff.mpr (Or.inr hs)
      exact ⟨by simp [Reader.isOpen, hs], Or.inr ⟨_, _, awaits, answer, rfl⟩⟩
  | started hs answer | satisfied hs answer =>
      cases given
      have awaits := Reader.awaits?_eq_some_iff.mpr (Or.inl hs)
      exact ⟨by simp [Reader.isOpen, hs], Or.inr ⟨_, _, awaits, answer, rfl⟩⟩
  | subscribed | unserved | joined | demanded | refused | broke | failed | idle | woken | finished
  | crashed => cases given

/-- What a reader that started later hands out comes no earlier than `o`, and if it demands a fetch,
from a later attempt. -/
theorem Later.given {p w : World ε V} {o : Origin} (h : Later p o w) (passed : Passed o w)
    (reachable : Reachable w) {seat : Seat} (seated : seat ∈ w.seats)
    (late : p.hasStarted seat.key = false) {content : Sourced V}
    (given : (seat.reader.step w.cache w.now).2.2 = some (.value content)) :
    o ≤ content.origin
      ∧ (seat.reader.reading.demands = true → o.attempt < content.origin.attempt) := by
  obtain ⟨waits, demands⟩ := h seat seated late
  obtain ⟨isOpen, ⟨started, holding, _⟩ | ⟨k, fetched, awaits, answered, rfl⟩⟩ := value_cases given
  · refine ⟨passed.held content holding, fun demand => ?_⟩
    rcases demands demand isOpen with starting | ⟨k, later, past⟩
    · rw [started] at starting
      cases starting
    · -- it goes on after its own attempt
      exact Nat.lt_of_lt_of_le later (Origin.attempt_le (past.held content holding))
  · have later := waits k awaits
    rw [reachable.answered_first answered]
    exact ⟨Or.inl later, fun _ => later⟩

/-- **Reads never go back in time.**  Take any run, and any value `old` that a reader had been given
at some point of it, whether that value was ever stored or not.  However the run goes on: what the cell
holds comes no earlier than `old`; a reader that had not started at that point is given nothing earlier
than `old`, and if it demands a fetch, only values of later attempts.  And the origins of the values
that were stored in the whole run, one for each revision, strictly increase. -/
theorem monotonic_reads {w₀ : World ε V} (initial : Initial w₀) (before after : List (Move ε V)) :
    let p := w₀.run before
    let q := p.run after
    (∀ d ∈ p.deliveries, ∀ old, d.item = .value old →
        (∀ content, q.cache.cell.phase.value? = some content → old.origin ≤ content.origin)
        ∧ ∀ seat content, q.seat? seat.key = some seat → p.hasStarted seat.key = false →
            (q.apply (.reader seat.key)).itemsTo seat.key = .value content :: q.itemsTo seat.key →
              old.origin ≤ content.origin
              ∧ (seat.reader.reading.demands = true →
                  old.origin.attempt < content.origin.attempt))
      ∧ (w₀.stores (before ++ after)).Pairwise (·.origin < ·.origin)
      ∧ (w₀.stores (before ++ after)).length = q.cache.cell.revision := by
  intro p q
  have reachable : Reachable p := initial.reachable_run before
  have reached : Reachable q := reachable.run after
  refine ⟨fun d delivered old item => ?_, (Reachable.initial initial).stores_increase _, ?_⟩
  · have start := reachable.passed_delivered d delivered old item
    have passed : Passed old.origin q := start.run reachable after
    have later : Later p old.origin q := (Later.refl p old.origin).run start reachable after
    refine ⟨fun content held => ?_, fun seat content seated late given => ?_⟩
    · obtain ⟨v, holding, shown⟩ : ∃ v, q.cache.cell.phase = .holding v ∧ v.value? = some content := by
        unfold Phase.value? at held
        split at held
        next v holding => exact ⟨v, holding, held⟩
        next => cases held
      -- only concealed values are ever held
      obtain ⟨content', rfl⟩ := reached.concealed v holding
      cases shown
      exact passed.held content holding
    · exact later.given passed reached (seat?_mem seated).1 late (hands_of_itemsTo reached seated given)
  · have length := stores_length w₀ (before ++ after)
    rw [run_append] at length
    have fresh : w₀.cache.cell.revision = 0 := by cases initial <;> rfl
    rw [fresh, Nat.zero_add] at length
    exact length

/-- A reader is given the value of the first attempt, which was never stored: it was thrown away while
it was fetched, and a second attempt is on its way. -/
def givenUnstored : List (Move Unit Nat) :=
  [.bind counting, .openReader .once .polled, .reader 0, .reader 0, .invalidate,
    .openReader .anew .polled, .reader 1, .attempt 1, .attempt 1, .attempt 1, .attempt 1, .attempt 1,
    .attempt 1, .reader 0]

/-- Another reader demands a fetch, and joins the second attempt, which stores its value and answers. -/
def secondAnswers : List (Move Unit Nat) :=
  [.openReader .anew .polled, .reader 2, .attempt 2, .attempt 2, .attempt 2, .attempt 2, .attempt 2,
    .attempt 2]

theorem monotonic_reads_unstored :
    let w₀ : World Unit Nat := selfRefreshing ⟨.periodic 60000, .unpaced⟩ none ()
    let p := w₀.run givenUnstored
    let q := p.run secondAnswers
    p.itemsTo 0 = [.value ⟨10, 1, 0⟩] ∧ p.hasStarted 2 = false
      ∧ w₀.stores (givenUnstored ++ secondAnswers) = [⟨20, 2, 0⟩]
      ∧ (q.apply (.reader 2)).itemsTo 2 = .value ⟨20, 2, 0⟩ :: q.itemsTo 2
      ∧ (⟨1, 0⟩ : Origin) ≤ ⟨2, 0⟩ ∧ 1 < 2 := by
  have h := monotonic_reads (.selfRefreshing ⟨.periodic 60000, .unpaced⟩ none ()) givenUnstored
    secondAnswers
  have given : (⟨0, 0, .value ⟨10, 1, 0⟩, none⟩ : Delivery Nat)
      ∈ ((selfRefreshing ⟨.periodic 60000, .unpaced⟩ none ()).run givenUnstored).deliveries :=
    List.mem_singleton_self _
  have second := (h.1 _ given ⟨10, 1, 0⟩ rfl).2 ⟨2, .polled, ⟨.anew, .expecting 2, none, 0⟩⟩
    ⟨20, 2, 0⟩ rfl (by decide) (by decide)
  exact ⟨rfl, rfl, by decide, by decide, second.1, second.2 rfl⟩

end World

end SingleFlight
