/-
  SingleFlight.Proofs.Waiting — what somebody who waits for an attempt is given.

  A reader that waits for an attempt takes no notice of the cell.  So whatever
  anybody else does, it goes on waiting until the attempt has answered, and
  then it hands that answer out.  And it never waits in vain: an attempt stays
  on the list until it has answered.

  Main results:
    * `Served.run` — a reader that waits is given the answer first.
    * `Reachable.awaited` — whoever is waited for has answered, or is on the
      list.
-/
import SingleFlight.Proofs.Invalidation

namespace SingleFlight

variable {ε V : Type}

open Dispatcher (Orderly)

/-! ## §1. Handing out an answer. -/

/-- The item that tells of a report. -/
def Item.ofReport : Report V → Item V
  | .ok content => .value content
  | .error failure => .failed failure

/-- The item that hands out an answer. -/
def Item.ofAnswer (answer : Answer V) : Item V := .ofReport (reportOf answer)

namespace Reader

theorem awaits?_eq_some_iff {r : Reader} {k : Nat} :
    r.awaits? = some k ↔ r.stage = .expecting k ∨ r.stage = .waiting k := by
  unfold awaits?
  split <;> simp_all

/-- **A reader that waits stays as it is until the answer is there**, and then hands it out. -/
theorem step_awaiting {r : Reader} {k : Nat} (awaits : r.awaits? = some k) (c : Cache ε V)
    (now : Instant) :
    (c.dispatcher.answer? k = none ∧ r.step c now = (c, r, none))
      ∨ ∃ answer, c.dispatcher.answer? k = some answer
          ∧ (r.step c now).2.2 = some (.ofAnswer answer) := by
  cases ha : c.dispatcher.answer? k with
  | none =>
      refine Or.inl ⟨rfl, ?_⟩
      rcases awaits?_eq_some_iff.mp awaits with hs | hs <;> simp only [step, hs, ha]
  | some answer =>
      refine Or.inr ⟨answer, rfl, ?_⟩
      rcases awaits?_eq_some_iff.mp awaits with hs | hs
      · simp only [step, hs, ha]
        cases answer with
        | error failure => rfl
        | ok fetched =>
            -- the item is the same, whether the reader goes on or not
            simp only [receiveExpected]
            split <;> rfl
      · simp only [step, hs, ha]
        cases answer <;> rfl

end Reader

/-! ## §2. Who is on the list until it has answered. -/

namespace Dispatcher

/-- The attempt of this number has answered, or is on its way. -/
def Tracks (d : Dispatcher ε V) (n : Nat) : Prop :=
  d.hasAnswered n = true ∨ ∃ a ∈ d.running, a.number = n

theorem Tracks.update {d : Dispatcher ε V} {n : Nat} (h : d.Tracks n) (a : Attempt ε V) :
    (d.update a).Tracks n := by
  refine h.imp id fun ⟨b, hb, hn⟩ => ?_
  by_cases same : b.number = a.number
  · exact ⟨a, mem_update_iff.mpr (Or.inr ⟨rfl, b, hb, same⟩), same.symm.trans hn⟩
  · exact ⟨b, mem_update_iff.mpr (Or.inl ⟨hb, same⟩), hn⟩

theorem Tracks.lose {d : Dispatcher ε V} {n : Nat} (h : d.Tracks n) (m : Nat) :
    (d.lose m).Tracks n := by
  by_cases same : n = m
  · exact Or.inl (hasAnswered_lose.mpr (Or.inr same))
  · rcases h with answered | ⟨b, hb, hn⟩
    · exact Or.inl (hasAnswered_lose.mpr (Or.inl answered))
    · exact Or.inr ⟨b, mem_lose_iff.mpr ⟨hb, by rwa [hn]⟩, hn⟩

theorem Tracks.dismiss {d : Dispatcher ε V} {n : Nat} (h : d.Tracks n) (o : Option Nat) :
    (d.dismiss o).Tracks n := by
  cases o with
  | none => exact h
  | some m =>
      show (d.abort m).Tracks n
      unfold abort
      split
      · exact h.lose m
      · exact h

theorem Tracks.settle {d : Dispatcher ε V} {n : Nat} (h : d.Tracks n) (m : Nat)
    (answer : Answer V) : (d.settle m answer).Tracks n := by
  refine h.imp (fun answered => hasAnswered_settle.mpr (Or.inl answered)) fun ⟨b, hb, hn⟩ => ?_
  exact ⟨b, by rwa [(settle_frame d m answer).1], hn⟩

/-- An attempt that has answered may leave the list. -/
theorem Tracks.retire {d : Dispatcher ε V} {n m : Nat} (h : d.Tracks n)
    (answered : d.hasAnswered m = true) : (d.retire m).Tracks n := by
  by_cases same : n = m
  · rw [same]
    exact Or.inl answered
  · exact h.imp id fun ⟨b, hb, hn⟩ => ⟨b, mem_retire_iff.mpr ⟨hb, by rwa [hn]⟩, hn⟩

/-- A launch loses sight of nobody. -/
theorem Tracks.renewed {d next : Dispatcher ε V} {fresh : Option (Attempt ε V)} {n : Nat}
    (h : d.Tracks n) (r : Renewed d next fresh) : next.Tracks n := by
  have cleared : d.clear.Tracks n := h.dismiss d.answeredStream
  rcases cleared with answered | ⟨b, hb, hn⟩
  · refine Or.inl ?_
    unfold hasAnswered answer? at answered ⊢
    rwa [r.answers]
  · exact Or.inr ⟨b, by rw [r.running]; exact List.mem_append_left _ hb, hn⟩

end Dispatcher

namespace World

/-- A step of an attempt loses sight of nobody. -/
theorem Turn.tracks {w w' : World ε V} {a : Attempt ε V} {left : Option (Attempt ε V)}
    (t : Turn w a w' left) (h : Orderly w.now w.cache.dispatcher)
    (ha : a ∈ w.cache.dispatcher.running) {n : Nat} (hn : w.cache.dispatcher.Tracks n) :
    w'.cache.dispatcher.Tracks n := by
  cases t with
  | rest => exact hn
  | unbound => exact (hn.dismiss _).lose _
  | refused | called | opened => exact (hn.dismiss _).update _
  | wait | asked | came | ignored | stored | discarded | failed => exact hn.update _
  | died => exact hn.lose _
  | finished asking hitem =>
      -- it has delivered, so it has answered
      have executes := (h.fits a ha).executes (by simp [Attempt.isExecuting, asking])
      exact hn.retire (executes.delivered.mpr hitem)
  | resumed => exact (hn.settle _ _).update _
  | ended => exact (hn.settle _ _).retire (Dispatcher.hasAnswered_settle.mpr (Or.inr rfl))

theorem tracks_touch {c c' : Cache ε V} {now : Instant} (t : Cache.Touch c now c') {n : Nat}
    (hn : c.dispatcher.Tracks n) : c'.dispatcher.Tracks n := by
  rcases t.renewed with same | ⟨fresh, renewed, _⟩
  · rwa [same]
  · exact hn.renewed renewed

/-- No step loses sight of anybody. -/
theorem Step.tracks {w w' : World ε V} {m : Move ε V} (s : Step w m w') (h : Ordered w) {n : Nat}
    (hn : w.cache.dispatcher.Tracks n) : w'.cache.dispatcher.Tracks n := by
  cases s with
  | aside ha | dropReader ha => rwa [ha.dispatcher]
  | @invalidate asided ha | @poke asided ha =>
      show asided.cache.dispatcher.Tracks n
      rwa [ha.dispatcher]
  | pass | openReader | follow => exact hn
  | bind => exact hn
  | subscribe => exact tracks_touch (Cache.subscribe_touch w.cache w.now) hn
  | reader own seated ha =>
      rw [ha.dispatcher]
      exact tracks_touch (Reader.step_stepped _ _ _).touch hn
  | attempt own running t => exact t.tracks h.dispatcher (Dispatcher.attempt?_mem running).1 hn

theorem tracks_run {w : World ε V} (h : Reachable w) {n : Nat} (hn : w.cache.dispatcher.Tracks n)
    (moves : List (Move ε V)) : (w.run moves).cache.dispatcher.Tracks n := by
  induction moves generalizing w with
  | nil => exact hn
  | cons m moves ih => exact ih (h.move m) ((apply_step w m).tracks h.ordered hn)

/-- An answer stays as it was given, however the run goes on. -/
theorem answer?_run {w : World ε V} (h : Reachable w) {n : Nat} {answer : Answer V}
    (hn : w.cache.dispatcher.answer? n = some answer) (moves : List (Move ε V)) :
    (w.run moves).cache.dispatcher.answer? n = some answer := by
  induction moves generalizing w with
  | nil => exact hn
  | cons m moves ih =>
      exact ih (h.move m) (((apply_step w m).remembers h.ordered).answers n answer hn)

/-! ## §3. One reader among all. -/

/-- The items handed out to the reader of a key so far, newest first. -/
def itemsTo (w : World ε V) (key : Nat) : List (Item V) :=
  (w.deliveries.filter (·.key == key)).map Delivery.item

theorem itemsTo_eq {w w' : World ε V} (h : w'.deliveries = w.deliveries) (key : Nat) :
    w'.itemsTo key = w.itemsTo key := by
  unfold itemsTo
  rw [h]

theorem itemsTo_cons {w w' : World ε V} {d : Delivery V} (h : w'.deliveries = d :: w.deliveries)
    (key : Nat) :
    w'.itemsTo key = if d.key = key then d.item :: w.itemsTo key else w.itemsTo key := by
  unfold itemsTo
  rw [h]
  by_cases hk : d.key = key <;> simp [hk]

theorem Step.nextKey_le {w w' : World ε V} {m : Move ε V} (s : Step w m w') :
    w.nextKey ≤ w'.nextKey := by
  cases s with
  | aside ha | invalidate ha | poke ha | dropReader ha | reader _ _ ha => exact ha.nextKey
  | pass | bind | subscribe | follow => exact Nat.le_refl _
  | openReader => exact Nat.le_succ _
  | attempt own running t => exact Nat.le_of_eq t.seats.2.1.symm

/-- What a step has to do with the reader of a key that is known: nothing that it could notice, unless
it is the reader's own. -/
theorem Step.reader_cases {w w' : World ε V} {m : Move ε V} (s : Step w m w') {key : Nat}
    (known : key < w.nextKey) :
    (w'.itemsTo key = w.itemsTo key
        ∧ ∀ s ∈ w'.seats, s.key = key → ∃ s₀ ∈ w.seats, s₀.key = key ∧ s₀.reader = s.reader)
      ∨ ∃ seat, w.seat? key = some seat ∧ m = .reader key
          ∧ Advanced w seat (seat.reader.step w.cache w.now) w' := by
  have stays {w' : World ε V} (seats : w'.seats = w.seats) (deliveries : w'.deliveries = w.deliveries) :
      w'.itemsTo key = w.itemsTo key
        ∧ ∀ s ∈ w'.seats, s.key = key → ∃ s₀ ∈ w.seats, s₀.key = key ∧ s₀.reader = s.reader :=
    ⟨itemsTo_eq deliveries key, fun s hs hk => ⟨s, by rwa [← seats], hk, rfl⟩⟩
  cases s with
  | aside ha => exact Or.inl (stays ha.seats ha.deliveries)
  | invalidate ha => exact Or.inl (stays ha.seats ha.deliveries)
  | poke ha => exact Or.inl (stays ha.seats ha.deliveries)
  | pass | bind | subscribe => exact Or.inl (stays rfl rfl)
  | attempt own running t => exact Or.inl (stays t.seats.1 t.seats.2.2)
  | openReader reading role holds =>
      refine Or.inl ⟨rfl, fun s hs hk => ?_⟩
      rcases List.mem_append.mp hs with old | new
      · exact ⟨s, old, hk, rfl⟩
      · -- a new reader has a new key
        rw [List.mem_singleton.mp new] at hk
        exact absurd known (Nat.not_lt.mpr (Nat.le_of_eq hk))
  | follow key' =>
      refine Or.inl ⟨rfl, fun s hs hk => ?_⟩
      obtain ⟨s₀, hs₀, same, reader, _⟩ := mem_follow hs
      exact ⟨s₀, hs₀, same.symm.trans hk, reader.symm⟩
  | dropReader ha =>
      refine Or.inl ⟨itemsTo_eq ha.deliveries key, fun s hs hk => ⟨s, ?_, hk, rfl⟩⟩
      rw [ha.seats] at hs
      exact (List.mem_filter.mp hs).1
  | @reader seat _ own seated ha =>
      by_cases hk : seat.key = key
      · rw [hk] at own seated
        exact Or.inr ⟨seat, seated, own, ha⟩
      · refine Or.inl ⟨?_, fun s hs hks => ?_⟩
        · rcases ha.deliveries with ⟨_, same⟩ | ⟨item, time, _, new⟩
          · exact itemsTo_eq same key
          · rw [itemsTo_cons new, if_neg hk]
        · rcases ha.seats s hs with ⟨old, _⟩ | ⟨same, _⟩
          · exact ⟨s, old, hks, rfl⟩
          · exact absurd (same.symm.trans hks) hk

/-- Whoever sits after a step sat there before, or has just come; or the step is a reader's own. -/
theorem Step.readers {w w' : World ε V} {m : Move ε V} (s : Step w m w') :
    (∀ r ∈ w'.seats, (∃ r₀ ∈ w.seats, r₀.reader = r.reader) ∨ ∃ reading, r.reader = .new reading)
      ∨ ∃ seat ∈ w.seats, Advanced w seat (seat.reader.step w.cache w.now) w' := by
  have stays {w' : World ε V} (seats : ∀ r ∈ w'.seats, r ∈ w.seats) :
      ∀ r ∈ w'.seats, (∃ r₀ ∈ w.seats, r₀.reader = r.reader) ∨ ∃ reading, r.reader = .new reading :=
    fun r hr => Or.inl ⟨r, seats r hr, rfl⟩
  cases s with
  | aside ha | invalidate ha | poke ha => exact Or.inl (stays fun _ => ha.seats ▸ id)
  | pass | bind | subscribe => exact Or.inl (stays fun _ => id)
  | attempt own running t => exact Or.inl (stays fun _ => t.seats.1 ▸ id)
  | dropReader ha => exact Or.inl (stays fun _ hr => (List.mem_filter.mp (ha.seats ▸ hr)).1)
  | openReader reading role holds =>
      refine Or.inl fun r hr => ?_
      rcases List.mem_append.mp hr with old | new
      · exact Or.inl ⟨r, old, rfl⟩
      · rw [List.mem_singleton.mp new]
        exact Or.inr ⟨reading, rfl⟩
  | follow key =>
      refine Or.inl fun r hr => ?_
      obtain ⟨r₀, hr₀, _, reader, _⟩ := mem_follow hr
      exact Or.inl ⟨r₀, hr₀, reader.symm⟩
  | reader own seated ha => exact Or.inr ⟨_, (seat?_mem seated).1, ha⟩

/-- What outlasts every step while the key is known outlasts every run. -/
theorem Reachable.outlasts {P : World ε V → Prop} {key : Nat}
    (step : ∀ w m w', Reachable w → key < w.nextKey → P w → Step w m w' → P w') {w : World ε V}
    (h : Reachable w) (known : key < w.nextKey) (start : P w) (moves : List (Move ε V)) :
    P (w.run moves) := by
  induction moves generalizing w with
  | nil => exact start
  | cons m moves ih =>
      have s := apply_step w m
      exact ih (h.move m) (Nat.lt_of_lt_of_le known s.nextKey_le) (step w m _ h known start s)

/-- Whoever sits has a key that is known, and stays known. -/
theorem Attended.known {w : World ε V} (h : Attended w) {seat : Seat} (seated : seat ∈ w.seats)
    (m : Move ε V) : seat.key < (w.apply m).nextKey :=
  Nat.lt_of_lt_of_le (h.below seat seated) (apply_step w m).nextKey_le

/-- Whoever takes a step that hands out an item hands it out as it is. -/
theorem Advanced.itemsTo {w w' : World ε V} {seat : Seat} (attended : Attended w)
    (seated : seat ∈ w.seats) (ha : Advanced w seat (seat.reader.step w.cache w.now) w') :
    w'.itemsTo seat.key
      = (seat.reader.step w.cache w.now).2.2.toList ++ w.itemsTo seat.key := by
  rcases ha.deliveries with ⟨none, same⟩ | ⟨item, time, some, new⟩
  · rw [none]
    exact itemsTo_eq same _
  · have hands := ((seat.reader.step_stepped w.cache w.now).hands item some).1
    rw [itemsTo_cons new, if_pos rfl, some]
    show presented seat.role item :: w.itemsTo seat.key = _
    rw [presented_eq (attended.isOpen seat seated) hands]
    rfl

/-- What a reader is given with a step of its own. -/
theorem Attended.itemsTo_apply {w : World ε V} (h : Attended w) {key : Nat} {seat : Seat}
    (seated : w.seat? key = some seat) :
    (w.apply (.reader key)).itemsTo key
      = (seat.reader.step w.cache w.now).2.2.toList ++ w.itemsTo key := by
  obtain ⟨listed, rfl⟩ := seat?_mem seated
  exact (advanceReader_advanced seated).itemsTo h listed

/-- Who was given something has been given it for good. -/
theorem Attended.told_apply {w : World ε V} (h : Attended w) {key : Nat} (told : w.itemsTo key ≠ []) :
    (w.apply (.reader key)).itemsTo key ≠ [] := by
  cases seated : w.seat? key with
  | none =>
      show (w.advanceReader key).itemsTo key ≠ []
      rw [advanceReader, seated]
      exact told
  | some seat =>
      rw [h.itemsTo_apply seated]
      exact List.append_ne_nil_of_right_ne_nil _ told

/-! ## §4. Waiting. -/

/-- Whoever is waited for has answered or is on the list, and so is the attempt that owes its
answer. -/
structure Awaited (w : World ε V) : Prop where
  seats : ∀ s ∈ w.seats, ∀ k, s.reader.awaits? = some k → w.cache.dispatcher.Tracks k
  pending : ∀ k, w.cache.dispatcher.pending = some k → w.cache.dispatcher.Tracks k

theorem tracks_started {d next : Dispatcher ε V} {now : Instant} {n : Nat}
    (h : d.Started next now n) : next.Tracks n := by
  refine Or.inr ⟨d.newest now, ?_, h.number.symm⟩
  rw [h.running]
  exact List.mem_append_right _ (List.mem_singleton_self _)

/-- Whoever is told to wait is told to wait for an attempt on the list. -/
theorem tracks_ticketed {c c' : Cache ε V} {now : Instant} {k : Nat}
    (pending : ∀ k, c.dispatcher.pending = some k → c.dispatcher.Tracks k)
    (t : Cache.Ticketed c now (c', .wait k)) : c'.dispatcher.Tracks k := by
  cases t with
  | started sound idle h => exact tracks_started (Dispatcher.launch_started h)
  | joined sound busy h => exact pending k h

/-- A section of a reader leaves the pending place to an attempt on the list. -/
theorem pending_touch {c c' : Cache ε V} {now : Instant} (t : Cache.Touch c now c')
    (pending : ∀ k, c.dispatcher.pending = some k → c.dispatcher.Tracks k) :
    ∀ k, c'.dispatcher.pending = some k → c'.dispatcher.Tracks k := by
  intro k hk
  rcases t.dispatcher_cases with same | ⟨_, ⟨n, started, _⟩ | ⟨overflowed, _⟩⟩
  · rw [same] at hk ⊢
    exact pending k hk
  · rw [started.pending] at hk
    cases hk
    exact tracks_started started
  · rw [overflowed.pending] at hk
    cases hk

/-- **Nobody waits in vain**: in every reachable world, whoever is waited for has answered or is on
the list. -/
theorem Reachable.awaited {w : World ε V} (h : Reachable w) : Awaited w := by
  refine h.invariant (fun w hw => ?_) (fun w m w' reachable h s => ?_)
  · cases hw <;> exact ⟨fun _ hs => (nomatch hs), fun _ hk => (nomatch hk)⟩
  · have tracks (n : Nat) := s.tracks reachable.ordered (n := n)
    refine ⟨fun r hr k awaits => ?_, ?_⟩
    · rcases s.readers with others | ⟨seat, seated, ha⟩
      · rcases others r hr with ⟨r₀, hr₀, same⟩ | ⟨reading, new⟩
        · rw [← same] at awaits
          exact tracks k (h.seats r₀ hr₀ k awaits)
        · rw [new] at awaits
          cases hd : reading.demands <;> simp [Reader.new, Reader.awaits?, hd] at awaits
      · have stepped := seat.reader.step_stepped w.cache w.now
        rcases ha.seats r hr with ⟨old, _⟩ | ⟨_, reader, _⟩
        · exact tracks k (h.seats r old k awaits)
        · rw [reader] at awaits
          cases hitem : (seat.reader.step w.cache w.now).2.2 with
          | some item =>
              rw [(stepped.hands item hitem).2] at awaits
              cases awaits
          | none =>
              -- it waits as before, or for the attempt that it was just told to wait for
              rcases (stepped.quiet hitem).2 k awaits with before | told
              · exact tracks k (h.seats seat seated k before)
              · rw [ha.dispatcher]
                exact tracks_ticketed h.pending told
    · have spared {d : Dispatcher ε V} (same : d.pending = w.cache.dispatcher.pending) {k : Nat}
          (hk : d.pending = some k) : w'.cache.dispatcher.Tracks k :=
        tracks k (h.pending k (same ▸ hk))
      cases s with
      | aside ha | dropReader ha => exact fun k => spared (congrArg Dispatcher.pending ha.dispatcher)
      | @invalidate asided ha | @poke asided ha =>
          have same : asided.cache.dispatcher = w.cache.dispatcher := ha.dispatcher
          exact fun k => spared (congrArg Dispatcher.pending same)
      | pass | bind | openReader | follow => exact fun k => spared rfl
      | subscribe => exact pending_touch (Cache.subscribe_touch w.cache w.now) h.pending
      | @reader seat _ own seated ha =>
          rw [ha.dispatcher]
          exact pending_touch (seat.reader.step_stepped w.cache w.now).touch h.pending
      | attempt own running t =>
          intro k hk
          rcases t.pending_cases with same | ⟨answering, pending⟩
          · exact spared same hk
          · -- the answer of the attempt may free the pending place, and fills it with nobody
            have kept := t.progressed reachable.ordered.dispatcher (Dispatcher.attempt?_mem running).1
            rcases kept.kept.pending with same | freed
            · exact spared same hk
            · rw [freed] at hk
              cases hk

/-- The reader of the key, which came to wait for the attempt `k` when it had been given the items
`old`: it has been given nothing since and still waits, or the answer of `k` is the next thing that it
was given. -/
def Served (old : List (Item V)) (key k : Nat) (w : World ε V) : Prop :=
  (w.itemsTo key = old ∧ ∀ s ∈ w.seats, s.key = key → s.reader.awaits? = some k)
    ∨ ∃ answer later, w.cache.dispatcher.answer? k = some answer
        ∧ w.itemsTo key = later ++ .ofAnswer answer :: old

theorem Served.step {old : List (Item V)} {w w' : World ε V} {m : Move ε V} {key k : Nat}
    (h : Served old key k w) (reachable : Reachable w) (known : key < w.nextKey) (s : Step w m w') :
    Served old key k w' := by
  have r := s.remembers reachable.ordered
  rcases s.reader_cases known with ⟨same, seats⟩ | ⟨seat, seated, _, advanced⟩
  · -- others act, and the reader takes no notice
    rcases h with ⟨none, waits⟩ | ⟨answer, later, answered, given⟩
    · refine Or.inl ⟨same.trans none, fun s hs hk => ?_⟩
      obtain ⟨s₀, hs₀, hk₀, reader⟩ := seats s hs hk
      rw [← reader]
      exact waits s₀ hs₀ hk₀
    · exact Or.inr ⟨answer, later, r.answers k answer answered, same.trans given⟩
  · obtain ⟨listed, rfl⟩ := seat?_mem seated
    have items := advanced.itemsTo reachable.attended listed
    rcases h with ⟨none, waits⟩ | ⟨answer, later, answered, given⟩
    · rcases Reader.step_awaiting (waits seat listed rfl) w.cache w.now with
        ⟨_, idle⟩ | ⟨answer, answered, given⟩
      · rw [idle] at items advanced
        refine Or.inl ⟨items.trans none, fun s hs hk => ?_⟩
        rcases advanced.seats s hs with ⟨hs₀, _⟩ | ⟨_, reader, _⟩
        · exact waits s hs₀ hk
        · rw [reader]
          exact waits seat listed rfl
      · rw [given, none] at items
        exact Or.inr ⟨answer, [], r.answers k answer answered, items⟩
    · rw [given, ← List.append_assoc] at items
      exact Or.inr ⟨answer, _, r.answers k answer answered, items⟩

/-- **A reader that waits for an attempt is given its answer first**, whatever happens in between. -/
theorem Served.run {old : List (Item V)} {w : World ε V} {key k : Nat} (h : Served old key k w)
    (reachable : Reachable w) (known : key < w.nextKey) (moves : List (Move ε V)) :
    Served old key k (w.run moves) :=
  reachable.outlasts (fun _ _ _ reachable known h s => h.step reachable known s) known h moves

/-- A reader that waits is served from then on. -/
theorem Served.of_awaits {w : World ε V} (reachable : Reachable w) {seat : Seat}
    (seated : seat ∈ w.seats) {k : Nat} (awaits : seat.reader.awaits? = some k) :
    Served (w.itemsTo seat.key) seat.key k w := by
  refine Or.inl ⟨rfl, fun s hs hk => ?_⟩
  rw [eq_of_increasing reachable.attended.distinct hs seated hk]
  exact awaits

/-- Whoever has not been given anything since still waits. -/
theorem Served.waits {old : List (Item V)} {w : World ε V} {key k : Nat} (h : Served old key k w)
    (none : w.itemsTo key = old) {s : Seat} (hs : s ∈ w.seats) (hk : s.key = key) :
    s.reader.awaits? = some k := by
  rcases h with ⟨_, waits⟩ | ⟨answer, later, _, given⟩
  · exact waits s hs hk
  · rw [none] at given
    have length := congrArg List.length given
    simp at length
    omega

/-- What a waiting reader is given with a step is the answer of its attempt. -/
theorem apply_waiter {w : World ε V} (h : Attended w) {key k : Nat} {seat : Seat}
    (seated : w.seat? key = some seat) (awaits : seat.reader.awaits? = some k) :
    (w.apply (.reader key)).itemsTo key
      = ((w.cache.dispatcher.answer? k).map Item.ofAnswer).toList ++ w.itemsTo key := by
  rw [h.itemsTo_apply seated]
  rcases Reader.step_awaiting awaits w.cache w.now with ⟨unanswered, quiet⟩ | ⟨answer, answered, given⟩
  · rw [unanswered, quiet]
    rfl
  · rw [answered, given]
    rfl

/-- A reader whose answer is there hands it out with its next step. -/
theorem apply_awaiting {w : World ε V} (h : Reachable w) {key k : Nat} {seat : Seat}
    (seated : w.seat? key = some seat) (awaits : seat.reader.awaits? = some k) {answer : Answer V}
    (answered : w.cache.dispatcher.answer? k = some answer) :
    (w.apply (.reader key)).itemsTo key = .ofAnswer answer :: w.itemsTo key := by
  rw [apply_waiter h.attended seated awaits, answered]
  rfl

end World

/-! ## §5. Readers of a single value. -/

namespace Reader

theorem reading_step (r : Reader) (c : Cache ε V) (now : Instant) :
    (r.step c now).2.1.reading = r.reading := by
  have act := r.step_act c now
  generalize r.step c now = out at act ⊢
  cases act with
  | refused _ _ _ same | broke _ _ _ same => exact same.1
  | subscribed | unserved | served | joined | demanded | answered | started | satisfied | failed
  | idle | woken | finished | crashed => rfl

/-- Nobody opens again. -/
theorem isOpen_of_step {r : Reader} {c : Cache ε V} {now : Instant}
    (h : (r.step c now).2.1.isOpen = true) : r.isOpen = true := by
  have act := r.step_act c now
  generalize r.step c now = out at act h
  cases act with
  | subscribed hs | unserved hs | served hs | joined hs | demanded hs | answered hs | started hs
  | satisfied hs | woken hs => simp [isOpen, hs]
  | refused _ _ through | failed _ _ through =>
      rw [isOpen_of_through through] at h
      cases h
  | broke _ _ crashed => simp [isOpen, crashed] at h
  | idle | crashed => exact h
  | finished => cases h

/-- A reader of a single value that is open after a step has just been given nothing. -/
theorem quiet_of_open {r : Reader} {c : Cache ε V} {now : Instant} (single : r.reading.follows = false)
    (h : (r.step c now).2.1.isOpen = true) : (r.step c now).2.2 = none := by
  have act := r.step_act c now
  generalize r.step c now = out at act h ⊢
  cases act with
  | subscribed | unserved | joined | demanded | idle | woken => rfl
  | served | answered =>
      -- a value is its last item
      simp [isOpen, stageAfterValue, single] at h
  | started _ _ follows =>
      rw [single] at follows
      cases follows
  | refused _ _ through | failed _ _ through =>
      rw [isOpen_of_through through] at h
      cases h
  | broke _ _ crashed => simp [isOpen, crashed] at h
  | satisfied | finished => cases h
  | crashed hs => simp [isOpen, hs] at h

end Reader

namespace World

/-- Items were handed out to known readers only, and none to a reader of a single value that is still
open. -/
structure Unserved (w : World ε V) : Prop where
  noted : ∀ d ∈ w.deliveries, d.key < w.nextKey
  single : ∀ s ∈ w.seats, s.reader.reading.follows = false → s.reader.isOpen = true →
    w.itemsTo s.key = []

theorem itemsTo_unknown {w : World ε V} {n key : Nat} (noted : ∀ d ∈ w.deliveries, d.key < n)
    (unknown : n ≤ key) : w.itemsTo key = [] := by
  unfold itemsTo
  rw [List.map_eq_nil_iff, List.filter_eq_nil_iff]
  intro d hd same
  have := noted d hd
  have : d.key = key := eq_of_beq same
  omega

/-- A step hands out an item to a known reader only. -/
theorem Step.noted {w w' : World ε V} {m : Move ε V} (s : Step w m w') (attended : Attended w)
    (h : ∀ d ∈ w.deliveries, d.key < w.nextKey) : ∀ d ∈ w'.deliveries, d.key < w.nextKey := by
  cases s with
  | aside ha | invalidate ha | poke ha | dropReader ha =>
      have same := ha.deliveries
      exact fun d hd => h d (same ▸ hd)
  | pass | bind | subscribe | openReader | follow => exact h
  | attempt own running t => exact fun d hd => h d (t.seats.2.2 ▸ hd)
  | reader own seated ha =>
      rcases ha.deliveries with ⟨_, same⟩ | ⟨item, time, _, new⟩
      · exact fun d hd => h d (same ▸ hd)
      · intro d hd
        rw [new] at hd
        rcases List.mem_cons.mp hd with rfl | hd
        · exact attended.below _ (seat?_mem seated).1
        · exact h d hd

theorem Reachable.unserved {w : World ε V} (h : Reachable w) : Unserved w := by
  refine h.invariant (fun w hw => ?_) (fun w m w' reachable h s => ?_)
  · cases hw <;> exact ⟨fun _ hd => (nomatch hd), fun _ hs => (nomatch hs)⟩
  · have noted := s.noted reachable.attended h.noted
    refine ⟨fun d hd => Nat.lt_of_lt_of_le (noted d hd) s.nextKey_le, fun r hr single isOpen => ?_⟩
    by_cases known : r.key < w.nextKey
    · rcases s.reader_cases known with ⟨same, seats⟩ | ⟨seat, seated, _, advanced⟩
      · obtain ⟨r₀, hr₀, hk, reader⟩ := seats r hr rfl
        rw [same, ← hk]
        rw [← reader] at single isOpen
        exact h.single r₀ hr₀ single isOpen
      · obtain ⟨listed, key⟩ := seat?_mem seated
        rcases advanced.seats r hr with ⟨_, other⟩ | ⟨_, reader, _⟩
        · exact absurd key.symm other
        · rw [reader] at single isOpen
          rw [Reader.reading_step] at single
          -- it was open before, and was given nothing with this step either
          have before := Reader.isOpen_of_step isOpen
          have quiet := Reader.quiet_of_open single isOpen
          have items := advanced.itemsTo reachable.attended listed
          rw [quiet, key] at items
          rw [items, ← key]
          exact h.single seat listed single before
    · exact itemsTo_unknown noted (Nat.not_lt.mp known)

end World

end SingleFlight
