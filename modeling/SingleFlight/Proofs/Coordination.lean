/-
  SingleFlight.Proofs.Coordination — the cell and the dispatcher agree.

  The cell says that a fetch is on its way, the dispatcher says which attempt
  owes its answer, and the two are changed by different sections: a launch, a
  report, an answer.  While somebody holds the cache they agree all the same,
  because an attempt that counts moves the cell on before it answers.  So
  whoever looks always finds an attempt to wait for, and no reader is ever
  told that the bookkeeping is broken.

  Main results:
    * `Reachable.coherent` — cell and dispatcher agree in every reachable world.
    * `Reachable.attended` — readers are served by the rules.
    * `coordination` — the two together.
-/
import SingleFlight.Proofs.Provenance

namespace SingleFlight

variable {ε V : Type}

open Dispatcher (Orderly)

namespace World

/-! ## §1. Agreement. -/

/-- The cell and the dispatcher agree, as long as the cache is in being. -/
structure Agree (alive : Bool) (cell : Cell V) (d : Dispatcher ε V) : Prop where
  /-- If a fetch is on its way, the newest attempt owes its answer. -/
  owed : alive = true → cell.phase = .calculating → d.pending = some d.latest
  /-- When the newest attempt comes to answer, the cell has moved on. -/
  reported : alive = true → ∀ a ∈ d.running, a.isAnswering = true → a.number = d.latest →
    cell.phase ≠ .calculating
  sound : cell.broken = none

/-- Cell and dispatcher of the world agree. -/
def Coherent (w : World ε V) : Prop := Agree w.isCacheAlive w.cache.cell w.cache.dispatcher

/-- A cache that is gone needs no agreement. -/
theorem Agree.mono {alive alive' : Bool} {cell : Cell V} {d : Dispatcher ε V}
    (h : Agree alive cell d) (mono : alive' = true → alive = true) : Agree alive' cell d :=
  ⟨fun ha => h.owed (mono ha), fun ha => h.reported (mono ha), h.sound⟩

/-- An attempt neither takes hold of the cache nor lets go of it. -/
theorem Turn.alive {w w' : World ε V} {a : Attempt ε V} {left : Option (Attempt ε V)}
    (t : Turn w a w' left) : w'.isCacheAlive = w.isCacheAlive := by
  cases t <;> rfl

theorem Turn.broken {w w' : World ε V} {a : Attempt ε V} {left : Option (Attempt ε V)}
    (t : Turn w a w' left) : w'.cache.cell.broken = w.cache.cell.broken := by
  cases t <;> rfl

/-- Only an answer frees the pending place, and only of the attempt that gives it. -/
theorem Turn.pending_cases {w w' : World ε V} {a : Attempt ε V} {left : Option (Attempt ε V)}
    (t : Turn w a w' left) :
    w'.cache.dispatcher.pending = w.cache.dispatcher.pending
      ∨ (a.isAnswering = true ∧ w.cache.dispatcher.pending = some a.number) := by
  have dismissed : (w.cache.dispatcher.dismiss a.supersedes).pending = w.cache.dispatcher.pending :=
    (Dispatcher.dismiss_frame _ _).2.1
  cases t with
  | refused | called | opened => exact Or.inl dismissed
  | unbound => exact Or.inl ((Dispatcher.lose_frame _ _).2.1.trans dismissed)
  | died => exact Or.inl (Dispatcher.lose_frame _ _).2.1
  | resumed answering | ended answering =>
      have said : a.isAnswering = true := by simp [Attempt.isAnswering, answering]
      exact (Dispatcher.settle_pending_cases _ _ _).imp id fun freed => ⟨said, freed.1⟩
  | rest | wait | asked | finished | came | ignored | stored | discarded | failed => exact Or.inl rfl

/-- Whoever comes to answer has moved the cell on, unless its report did not count. -/
theorem Turn.answering_cases {w w' : World ε V} {a b : Attempt ε V} {left : Option (Attempt ε V)}
    (t : Turn w a w' left) (hleft : left = some b) (answering : b.isAnswering = true) :
    b = a ∨ w.isCacheAlive = false ∨ w.cache.dispatcher.latest ≠ a.number
      ∨ w'.cache.cell.phase ≠ .calculating := by
  cases t with
  | rest =>
      cases hleft
      exact Or.inl rfl
  | ignored reporting h => exact Or.inr (h.imp_right Or.inl)
  | stored => exact Or.inr (Or.inr (Or.inr (by intro h; cases h)))
  | discarded => exact Or.inr (Or.inr (Or.inr (by intro h; cases h)))
  | failed => exact Or.inr (Or.inr (Or.inr (by intro h; cases h)))
  | wait waiting hp =>
      cases hleft
      rcases hp with rfl | ⟨t, rfl⟩ <;> cases answering
  | called queued ready hp =>
      cases hleft
      rcases hp with rfl | ⟨due, outcome, rfl⟩ <;> cases answering
  | asked asking hp =>
      cases hleft
      rcases hp with ⟨due, outcome, rfl⟩ | rfl | ⟨rfl, _⟩ <;> cases answering
  | refused | opened | came | resumed =>
      cases hleft
      cases answering
  | unbound | finished | died | ended => cases hleft

/-- A step of an attempt keeps cell and dispatcher in agreement. -/
theorem Coherent.turn {w w' : World ε V} {a : Attempt ε V} {left : Option (Attempt ε V)}
    (h : Coherent w) (ordered : Ordered w) (t : Turn w a w' left)
    (ha : a ∈ w.cache.dispatcher.running) : Coherent w' := by
  have latest := (t.progressed ordered.dispatcher ha).kept.latest
  have phase : w'.cache.cell.phase = .calculating → w.cache.cell.phase = .calculating := t.busy_before
  refine ⟨fun alive busy => ?_, fun alive b hb answering hn busy => ?_, by rw [t.broken]; exact h.sound⟩
  · rw [t.alive] at alive
    -- were the pending place freed now, the newest attempt would have reported before, and the cell moved on
    have owed := h.owed alive (phase busy)
    rw [latest]
    rcases t.pending_cases with same | ⟨answering, pending⟩
    · rw [same]
      exact owed
    · rw [owed] at pending
      exact absurd (phase busy) (h.reported alive a ha answering (Option.some.inj pending).symm)
  · rw [t.alive] at alive
    rw [latest] at hn
    rcases t.mem_running hb with old | hleft
    · exact h.reported alive b old answering hn (phase busy)
    · rw [t.number hleft] at hn
      rcases t.answering_cases hleft answering with rfl | gone | older | moved
      · exact h.reported alive b ha answering hn (phase busy)
      · rw [gone] at alive
        cases alive
      · exact older hn.symm
      · exact moved busy

/-- A section of a reader keeps cell and dispatcher in agreement.  If it finds the pending place empty,
the cache is not in being. -/
theorem Agree.touch {alive : Bool} {c c' : Cache ε V} {now : Instant}
    (h : Agree alive c.cell c.dispatcher) (orderly : Orderly now c.dispatcher)
    (t : Cache.Touch c now c') (held : alive = true ∨ c'.cell.broken = c.cell.broken) :
    Agree alive c'.cell c'.dispatcher := by
  cases t with
  | tally f => exact ⟨h.owed, h.reported, h.sound⟩
  | noticed refetch hp =>
      exact ⟨fun _ busy => (nomatch busy), fun _ _ _ _ _ busy => (nomatch busy), h.sound⟩
  | @started next number idle hl =>
      have started := Dispatcher.launch_started hl
      refine ⟨fun _ _ => ?_, fun _ b hb answering hlast => ?_, h.sound⟩
      · show next.pending = some next.latest
        rw [started.pending, started.latest, started.number]
      · have hlast : b.number = next.latest := hlast
        -- the only one with the newest number has just been launched
        rw [started.latest] at hlast
        rcases started.mem hb with spared | launched
        · have := (orderly.bounded b (Dispatcher.mem_clear_iff.mp spared).1).2
          omega
        · rw [← Option.some.inj launched] at answering
          cases answering
  | overflow idle hl => exact ⟨fun _ busy => absurd busy idle, fun _ _ _ _ _ => idle, h.sound⟩
  | lost busy hp =>
      rcases held with alive | sound
      -- a fetch is on its way, so somebody owes its answer
      · have owed := h.owed alive busy
        rw [hp] at owed
        cases owed
      · rw [h.sound] at sound
        cases sound

theorem subscribe_broken (c : Cache ε V) : c.subscribe.cell.broken = c.cell.broken := by
  unfold Cache.subscribe
  split <;> rfl

/-- A reader with a task of its own reads on as before. -/
theorem alive_of_follow {w : World ε V} {key : Nat} (h : (w.follow key).isCacheAlive = true) :
    w.isCacheAlive = true := by
  simp only [isCacheAlive, Bool.or_eq_true, List.any_eq_true] at h
  rcases h with h | ⟨s, hs, hold⟩
  · simp only [isCacheAlive, Bool.or_eq_true]
    exact Or.inl h
  · obtain ⟨s₀, hs₀, rfl⟩ := List.mem_map.mp hs
    refine isCacheAlive_of_seat hs₀ ?_
    split at hold
    · exact hold
    · exact hold

/-- **Cell and dispatcher agree in every reachable world.** -/
theorem Reachable.coherent {w : World ε V} (h : Reachable w) : Coherent w := by
  refine h.invariant (fun w hw => ?_) (fun w m w' reachable h s => ?_)
  · cases hw <;> exact ⟨fun _ busy => (nomatch busy), fun _ _ ha => (nomatch ha), rfl⟩
  · have ordered := reachable.ordered
    cases s with
    | aside ha =>
        unfold Coherent
        rw [ha.cell, ha.dispatcher]
        exact h.mono ha.alive
    | pass since named => exact h
    | bind source unsealed => exact ⟨h.owed, h.reported, h.sound⟩
    | subscribe own =>
        exact h.touch ordered.dispatcher (Cache.subscribe_touch w.cache w.now)
          (Or.inr (subscribe_broken w.cache))
    | @invalidate asided ha =>
        refine ⟨fun _ busy => (nomatch busy), fun _ _ _ _ _ busy => (nomatch busy), ?_⟩
        show asided.cache.cell.broken = none
        rw [ha.cell]
        exact h.sound
    | @poke asided ha =>
        have still : Agree asided.isCacheAlive asided.cache.cell asided.cache.dispatcher := by
          rw [ha.cell, ha.dispatcher]
          exact h.mono ha.alive
        exact ⟨still.owed, still.reported, still.sound⟩
    | openReader reading role holds =>
        exact h.mono fun _ => by simp [isCacheAlive, holds]
    | follow key => exact h.mono alive_of_follow
    | dropReader ha =>
        unfold Coherent
        -- the cache may be gone with the reader, but it does not come back
        rw [ha.cell, ha.dispatcher]
        exact h.mono fun alive => alive_of_filter (ha.alive alive)
    | @reader seat _ own seated ha =>
        have touch := (seat.reader.step_stepped w.cache w.now).touch
        unfold Coherent
        rw [ha.cell, ha.dispatcher]
        refine Agree.mono (h.touch ordered.dispatcher touch ?_) ha.alive
        cases holds : seat.reader.holdsCache with
        -- a reader that could find the pending place empty holds the cache
        | true => exact Or.inl (isCacheAlive_of_seat (seat?_mem seated).1 holds)
        | false =>
            rw [Reader.step_idle holds]
            exact Or.inr rfl
    | attempt own running t => exact h.turn ordered t (Dispatcher.attempt?_mem running).1

/-! ## §2. Readers. -/

/-- Readers are told apart by their keys, one that reads a single result is gone once it has given
an item, and nobody has been told that the bookkeeping is broken. -/
structure Attended (w : World ε V) : Prop where
  distinct : w.seats.Pairwise (·.key < ·.key)
  below : ∀ s ∈ w.seats, s.key < w.nextKey
  isOpen : ∀ s ∈ w.seats, s.role = .read → s.reader.isOpen = true
  delivered : ∀ d ∈ w.deliveries, ∀ fault, d.item ≠ .failed (.internal fault)

/-- A reader of a single result is gone before it comes to its end, so every item is seen as it is. -/
theorem presented_eq {c : Cache ε V} {seat : Seat}
    (isOpen : seat.role = .read → seat.reader.isOpen = true) {item : Item V}
    (h : seat.reader.Hands c item) : presented seat.role item = item := by
  cases h with
  | finished closed =>
      cases hrole : seat.role with
      | read =>
          rw [isOpen hrole] at closed
          cases closed
      | follow => rfl
      | polled => rfl
  | held | answered | refused | unbound | broken | crashed => cases seat.role <;> rfl

/-- A reader never finds the bookkeeping broken. -/
theorem Coherent.not_broken {w : World ε V} {seat : Seat} (h : Coherent w) (seated : seat ∈ w.seats)
    (holds : seat.reader.holdsCache = true) {fault : String} :
    ¬(w.cache.cell.broken = some fault
      ∨ (w.cache.cell.phase = .calculating ∧ w.cache.dispatcher.pending = none)) := by
  rintro (hb | ⟨busy, hp⟩)
  · rw [h.sound] at hb
    cases hb
  · rw [h.owed (isCacheAlive_of_seat seated holds) busy] at hp
    cases hp

/-- A reader never passes on that the bookkeeping is broken, for it is not. -/
theorem item_not_internal {w : World ε V} {seat : Seat} (coherent : Coherent w) (genuine : Genuine w)
    (seated : seat ∈ w.seats) {item : Item V} (h : seat.reader.Hands w.cache item) (fault : String) :
    item ≠ .failed (.internal fault) := by
  rintro rfl
  cases h with
  | refused awaits ha => exact genuine.answers _ _ ha
  | broken holds hb => exact coherent.not_broken seated holds hb

/-- A reader's step keeps the readers attended to. -/
theorem Attended.advanced {w w' : World ε V} {seat : Seat} (h : Attended w) (coherent : Coherent w)
    (genuine : Genuine w) (seated : seat ∈ w.seats)
    (ha : Advanced w seat (seat.reader.step w.cache w.now) w') : Attended w' := by
  have stepped := seat.reader.step_stepped w.cache w.now
  refine ⟨?_, fun s hs => ?_, fun s hs hrole => ?_, fun d hd fault => ?_⟩
  · have keys : (w.seats.map (·.key)).Pairwise (· < ·) := List.pairwise_map.mpr h.distinct
    exact List.pairwise_map.mp (keys.sublist ha.keys)
  · have hk : s.key ∈ w.seats.map (·.key) := ha.keys.subset (List.mem_map.mpr ⟨s, hs, rfl⟩)
    obtain ⟨s₀, hs₀, same⟩ := List.mem_map.mp hk
    rw [← same]
    exact Nat.lt_of_lt_of_le (h.below s₀ hs₀) ha.nextKey
  · rcases ha.seats s hs with ⟨hs, _⟩ | ⟨hk, reader, ⟨s₀, hs₀, hk₀, hrole₀⟩, stays⟩
    · exact h.isOpen s hs hrole
    · have same : s₀ = seat := eq_of_increasing h.distinct hs₀ seated hk₀
      have read : seat.role = .read := by rw [← same, hrole₀, hrole]
      rw [reader]
      -- had it given an item, its task would have ended
      cases hitem : (seat.reader.step w.cache w.now).2.2 with
      | none => exact (stepped.quiet hitem).1
      | some item =>
          have ends := stays item hitem
          rw [read] at ends
          cases ends
  · rcases ha.deliveries with ⟨_, same⟩ | ⟨item, time, hitem, new⟩
    · rw [same] at hd
      exact h.delivered d hd fault
    · rw [new] at hd
      rcases List.mem_cons.mp hd with rfl | hd
      · have hands := (stepped.hands item hitem).1
        show presented seat.role item ≠ _
        rw [presented_eq (h.isOpen seat seated) hands]
        exact item_not_internal coherent genuine seated hands fault
      · exact h.delivered d hd fault

/-- A move that leaves the readers alone keeps them attended to. -/
theorem Attended.same {w w' : World ε V} (h : Attended w) (seats : w'.seats = w.seats)
    (nextKey : w.nextKey ≤ w'.nextKey) (deliveries : w'.deliveries = w.deliveries) : Attended w' := by
  refine ⟨by rw [seats]; exact h.distinct, fun s hs => ?_, by rw [seats]; exact h.isOpen,
    by rw [deliveries]; exact h.delivered⟩
  rw [seats] at hs
  exact Nat.lt_of_lt_of_le (h.below s hs) nextKey

/-- Attempts and readers do not get in each other's seats. -/
theorem Turn.seats {w w' : World ε V} {a : Attempt ε V} {left : Option (Attempt ε V)}
    (t : Turn w a w' left) :
    w'.seats = w.seats ∧ w'.nextKey = w.nextKey ∧ w'.deliveries = w.deliveries := by
  cases t <;> exact ⟨rfl, rfl, rfl⟩

theorem mem_follow {w : World ε V} {key : Nat} {s : Seat} (hs : s ∈ (w.follow key).seats) :
    ∃ s₀ ∈ w.seats, s.key = s₀.key ∧ s.reader = s₀.reader ∧ (s.role = s₀.role ∨ s.role = .follow) := by
  obtain ⟨s₀, hs₀, rfl⟩ := List.mem_map.mp hs
  refine ⟨s₀, hs₀, ?_⟩
  by_cases hk : s₀.key = key
  · rw [if_pos hk]
    exact ⟨rfl, rfl, Or.inr rfl⟩
  · rw [if_neg hk]
    exact ⟨rfl, rfl, Or.inl rfl⟩

/-- **What every role has, and every reader keeps, everybody in a seat has and keeps.** -/
theorem Step.seats_forall {w w' : World ε V} {m : Move ε V} (s : Step w m w') {P : Role → Prop}
    {Q : Reader → Prop} (h : ∀ r ∈ w.seats, P r.role ∧ Q r.reader)
    (opens : ∀ reading role, m = .openReader reading role → P role ∧ Q (.new reading))
    (follows : P .follow) (steps : ∀ r (c : Cache ε V) now, Q r → Q (r.step c now).2.1) :
    ∀ r ∈ w'.seats, P r.role ∧ Q r.reader := by
  cases s with
  | aside ha | invalidate ha | poke ha => exact fun r hr => h r (ha.seats ▸ hr)
  | pass | bind | subscribe => exact h
  | attempt own running t => exact fun r hr => h r (t.seats.1 ▸ hr)
  | dropReader ha => exact fun r hr => h r (List.mem_filter.mp (ha.seats ▸ hr)).1
  | openReader reading role holds own =>
      intro r hr
      rcases List.mem_append.mp hr with old | new
      · exact h r old
      · rw [List.mem_singleton.mp new]
        exact opens reading role own
  | follow key =>
      intro r hr
      obtain ⟨r₀, hr₀, _, reader, role⟩ := mem_follow hr
      rw [reader]
      exact ⟨role.elim (fun same => same ▸ (h r₀ hr₀).1) (fun new => new ▸ follows), (h r₀ hr₀).2⟩
  | @reader seat _ own seated ha =>
      intro r hr
      rcases ha.seats r hr with ⟨old, _⟩ | ⟨_, reader, ⟨r₀, hr₀, _, role⟩, _⟩
      · exact h r old
      · rw [reader, ← role]
        exact ⟨(h r₀ hr₀).1, steps seat.reader w.cache w.now (h seat (seat?_mem seated).1).2⟩

theorem follow_keys (w : World ε V) (key : Nat) :
    (w.follow key).seats.map (·.key) = w.seats.map (·.key) := by
  simp only [World.follow, List.map_map]
  apply List.map_congr_left
  intro s _
  by_cases hk : s.key = key <;> simp [hk]

/-- **Readers are attended to in every reachable world.** -/
theorem Reachable.attended {w : World ε V} (h : Reachable w) : Attended w := by
  refine h.invariant (fun w hw => ?_) (fun w m w' reachable h s => ?_)
  · cases hw <;>
      exact ⟨.nil, fun _ hs => (nomatch hs), fun _ hs => (nomatch hs), fun _ hd => (nomatch hd)⟩
  · cases s with
    | aside ha => exact h.same ha.seats ha.nextKey ha.deliveries
    | pass since named => exact h.same rfl (Nat.le_refl _) rfl
    | bind source unsealed => exact h.same rfl (Nat.le_refl _) rfl
    | subscribe own => exact h.same rfl (Nat.le_refl _) rfl
    | invalidate ha => exact h.same ha.seats ha.nextKey ha.deliveries
    | poke ha => exact h.same ha.seats ha.nextKey ha.deliveries
    | openReader reading role holds =>
        refine ⟨List.pairwise_append.mpr ⟨h.distinct, List.pairwise_singleton _ _, ?_⟩, ?_, ?_,
          h.delivered⟩
        · intro s hs s' hs'
          rw [List.mem_singleton.mp hs']
          exact h.below s hs
        · intro s hs
          rcases List.mem_append.mp hs with hs | hs
          · exact Nat.lt_succ_of_lt (h.below s hs)
          · rw [List.mem_singleton.mp hs]
            exact Nat.lt_succ_self _
        · intro s hs hrole
          rcases List.mem_append.mp hs with hs | hs
          · exact h.isOpen s hs hrole
          · rw [List.mem_singleton.mp hs]
            unfold Reader.new Reader.isOpen
            cases reading.demands <;> rfl
    | follow key =>
        refine ⟨?_, fun s hs => ?_, fun s hs hrole => ?_, h.delivered⟩
        · have keys : (w.seats.map (·.key)).Pairwise (· < ·) := List.pairwise_map.mpr h.distinct
          rw [← follow_keys w key] at keys
          exact List.pairwise_map.mp keys
        · obtain ⟨s₀, hs₀, hk, _⟩ := mem_follow hs
          rw [hk]
          exact h.below s₀ hs₀
        · obtain ⟨s₀, hs₀, _, reader, role⟩ := mem_follow hs
          rw [reader]
          rcases role with same | follows
          · exact h.isOpen s₀ hs₀ (by rw [← same]; exact hrole)
          · rw [follows] at hrole
            cases hrole
    | dropReader ha =>
        refine ⟨?_, fun s hs => ?_, fun s hs => ?_, by rw [ha.deliveries]; exact h.delivered⟩
        · rw [ha.seats]
          exact h.distinct.sublist List.filter_sublist
        · rw [ha.seats] at hs
          exact Nat.lt_of_lt_of_le (h.below s (List.mem_filter.mp hs).1) ha.nextKey
        · rw [ha.seats] at hs
          exact h.isOpen s (List.mem_filter.mp hs).1
    | reader own seated ha =>
        exact h.advanced reachable.coherent reachable.genuine (seat?_mem seated).1 ha
    | attempt own running t =>
        obtain ⟨seats, nextKey, deliveries⟩ := t.seats
        exact h.same seats (Nat.le_of_eq nextKey.symm) deliveries

/-- **The bookkeeping never breaks.**  In every reachable world: if the cell says that a fetch is on
its way, and somebody still holds the cache, an attempt owes its answer; whoever owes an answer is the
newest attempt; and so the bookkeeping is never found broken, and no reader is ever told so. -/
theorem coordination {w : World ε V} (h : Reachable w) :
    (w.isCacheAlive = true → w.cache.cell.phase = .calculating →
        w.cache.dispatcher.pending.isSome = true)
      ∧ (∀ n, w.cache.dispatcher.pending = some n → n = w.cache.dispatcher.latest)
      ∧ w.cache.cell.broken = none
      ∧ ∀ d ∈ w.deliveries, ∀ fault, d.item ≠ .failed (.internal fault) := by
  have coherent := h.coherent
  refine ⟨fun alive busy => ?_, fun n hn => ?_, coherent.sound, h.attended.delivered⟩
  · rw [coherent.owed alive busy]
    rfl
  · exact (h.ordered.dispatcher.pending n hn).2

/-- A source whose value nobody can copy. -/
def uncopied : Source Unit Nat where
  shape := .oneShot fun _ => some ⟨0, fun _ _ => .uncopyable⟩

/-- An attempt dies before it can report or answer. -/
def deadAttempt : List (Move Unit Nat) :=
  [.bind uncopied, .openReader .once .polled, .reader 0, .reader 0,
    .attempt 1, .attempt 1, .attempt 1]

theorem coordination_deadAttempt :
    let w₀ : World Unit Nat := .bare ⟨.periodic 1000, .unpaced⟩ none ()
    let w := w₀.run deadAttempt
    w.cache.dispatcher.running.length = 0 ∧ w.isCacheAlive = true
      ∧ w.cache.cell.phase = .calculating ∧ w.cache.dispatcher.pending.isSome = true
      ∧ w.cache.cell.broken = none := by
  have h := coordination ((Reachable.initial (.bare ⟨.periodic 1000, .unpaced⟩ none ())).run deadAttempt)
  exact ⟨by decide, by decide, by decide, h.1 (by decide) (by decide), h.2.2.1⟩

end World

end SingleFlight
