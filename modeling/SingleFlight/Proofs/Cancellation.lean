/-
  SingleFlight.Proofs.Cancellation — a read that is cancelled changes nothing for anybody else.

  Whoever waits for an attempt holds no more of it than its number; the attempt
  itself is with the dispatcher, and answers whoever is left.  And a read of a
  single value that was evaluated once never touches the cell again: it waits
  for an attempt, or it is through.  So a world in which such reads were let go
  is the world in which they went on, but for their seats and for what they
  were told.

  Main results:
    * `without_apply` — no move reads what committed readers leave out.
    * `Dormant.run` — a committed reader stays committed.
    * `cancellation` — the run with the cancellations is the run without them.
-/
import SingleFlight.Proofs.LostAttempt
import SingleFlight.Proofs.Recovery

namespace SingleFlight

variable {ε V : Type}

/-! ## §1. Readers that never touch the cell again. -/

namespace Reader

/-- A read of a single value that waits for an attempt, or is through. -/
def isCommitted (r : Reader) : Bool :=
  !r.reading.follows && match r.stage with
    | .expecting _ | .waiting _ | .closing | .over | .crashed => true
    | _ => false

variable {r : Reader}

/-- A committed reader leaves the cache alone, and stays committed. -/
theorem step_of_committed (h : r.isCommitted = true) (c : Cache ε V) (now : Instant) :
    (r.step c now).1 = c ∧ (r.step c now).2.1.isCommitted = true := by
  obtain ⟨single, stage⟩ := Bool.and_eq_true_iff.mp h
  have single : r.reading.follows = false := by simpa using single
  have stays (stage : Stage) (hs : stage = .closing ∨ stage = .over) (delivered : Option Nat) :
      ({ r with delivered, stage } : Reader).isCommitted = true := by
    rcases hs with rfl | rfl <;> simp [isCommitted, single]
  cases hs : r.stage with
  | subscribing | looking | demanding | parked => simp [hs] at stage
  | expecting n =>
      simp only [step, hs]
      split
      next answer _ =>
        refine ⟨rfl, ?_⟩
        cases answer with
        | ok fetched =>
            simp only [receiveExpected, single]
            exact stays .over (Or.inr rfl) r.delivered
        | error => exact stays .over (Or.inr rfl) r.delivered
      next => exact ⟨rfl, h⟩
  | waiting n =>
      simp only [step, hs]
      split
      next answer _ =>
        refine ⟨rfl, ?_⟩
        cases answer with
        | ok fetched =>
            simp only [receiveAnswer, stageAfterValue, single]
            exact stays .closing (Or.inl rfl) _
        | error => exact stays .closing (Or.inl rfl) r.delivered
      next => exact ⟨rfl, h⟩
  | closing =>
      simp only [step, hs]
      exact ⟨trivial, stays .over (Or.inr rfl) r.delivered⟩
  | «over» | crashed =>
      simp only [step, hs]
      exact ⟨trivial, h⟩

/-- **A read of a single value that is evaluated is committed.** -/
theorem isCommitted_of_evaluation {c : Cache ε V} {now : Instant} {access : Access V}
    (single : r.reading.follows = false) (h : r.evaluation? c now = some access) :
    (r.step c now).2.1.isCommitted = true := by
  unfold evaluation? at h
  cases hs : r.stage with
  | looking =>
      simp only [hs] at h
      simp only [step, hs]
      generalize (c.access now r.delivered).2 = came at h ⊢
      cases came with
      | nothing => cases h
      | served content revision => simp [receive, stageAfterValue, isCommitted, single]
      | ticket t => cases t <;> simp [receive, isCommitted, single]
  | demanding =>
      simp only [step, hs]
      cases (c.demand now).2 <;> simp [receiveTicket, isCommitted, single]
  | subscribing | expecting | waiting | parked | closing | «over» | crashed => simp [hs] at h

end Reader

/-- Whether a move lets a reader of one of these keys go. -/
def Move.cancels (keys : List Nat) : Move ε V → Bool
  | .dropReader key => decide (key ∈ keys)
  | _ => false

namespace World

/-! ## §2. The world without some readers. -/

/-- The world without the readers of these keys, and without what they were told. -/
def without (w : World ε V) (keys : List Nat) : World ε V :=
  { w with
    seats := w.seats.filter (·.key ∉ keys)
    deliveries := w.deliveries.filter (·.key ∉ keys) }

section

variable (w : World ε V) (keys : List Nat)

@[simp] theorem without_cache : (w.without keys).cache = w.cache := rfl
@[simp] theorem without_bus : (w.without keys).bus = w.bus := rfl
@[simp] theorem without_refresher : (w.without keys).refresher = w.refresher := rfl
@[simp] theorem without_hasHandle : (w.without keys).hasHandle = w.hasHandle := rfl

theorem without_seat? {key : Nat} (kept : key ∉ keys) : (w.without keys).seat? key = w.seat? key := by
  unfold seat? without
  rw [List.find?_filter]
  congr 1
  funext s
  by_cases hk : s.key = key <;> simp [hk, kept]

theorem without_seat?_none {key : Nat} (left : key ∈ keys) : (w.without keys).seat? key = none := by
  unfold seat? without
  rw [List.find?_filter, List.find?_eq_none]
  intro s _
  by_cases hk : s.key = key <;> simp [hk, left]

end

/-- The readers of these keys have come, and are committed as far as they are still there. -/
structure Dormant (keys : List Nat) (w : World ε V) : Prop where
  known : ∀ k ∈ keys, k < w.nextKey
  committed : ∀ s ∈ w.seats, s.key ∈ keys → s.reader.isCommitted = true

/-- Committed readers stay committed, whatever happens. -/
theorem Dormant.apply {keys : List Nat} {w : World ε V} (h : Dormant keys w) (m : Move ε V) :
    Dormant keys (w.apply m) := by
  have s := apply_step w m
  refine ⟨fun k hk => Nat.lt_of_lt_of_le (h.known k hk) s.nextKey_le, fun r hr listed => ?_⟩
  rcases s.reader_cases (h.known _ listed) with ⟨_, seats⟩ | ⟨seat, taken, _, advanced⟩
  · obtain ⟨r₀, hr₀, key, reader⟩ := seats r hr rfl
    rw [← reader]
    exact h.committed r₀ hr₀ (key ▸ listed)
  · obtain ⟨seated, key⟩ := seat?_mem taken
    rcases advanced.seats r hr with ⟨old, _⟩ | ⟨_, reader, _⟩
    · exact h.committed r old listed
    · rw [reader]
      exact (Reader.step_of_committed (h.committed seat seated (key ▸ listed)) w.cache w.now).2

theorem Dormant.run {keys : List Nat} {w : World ε V} (h : Dormant keys w) (moves : List (Move ε V)) :
    Dormant keys (w.run moves) := by
  induction moves generalizing w with
  | nil => exact h
  | cons m moves ih => exact ih (h.apply m)

/-! ## §3. The refresher and the attempts know nothing of the readers. -/

section

variable (w : World ε V) (keys : List Nat)

theorem without_stopRefresher : w.stopRefresher.without keys = (w.without keys).stopRefresher := by
  unfold stopRefresher
  rw [apply_ite (without · keys)]
  rfl

theorem without_callSource (a : Attempt ε V) :
    (w.callSource a).without keys = (w.without keys).callSource a := by
  unfold callSource
  dsimp only [without, withDispatcher, withCache]
  cases (w.cache.dispatcher.dismiss a.supersedes).binding with
  | none => rfl
  | some source =>
      dsimp only
      cases (if w.hasOwner then none else source.owner) with
      | some owner => rfl
      | none =>
          dsimp only [noteCall]
          cases source.shape with
          | oneShot call =>
              dsimp only
              generalize call _ = p
              cases p <;> rfl
          | continuous call =>
              dsimp only
              generalize call _ = p
              cases p <;> rfl

theorem without_askNext (a : Attempt ε V) :
    (w.askNext a).without keys = (w.without keys).askNext a := by
  unfold askNext
  cases a.offers.map fun offers : Nat → Offer ε V => offers a.item with
  | none => exact apply_ite (without · keys) ..
  | some offer =>
      cases offer with
      | item p => rfl
      | never => rfl
      | done => exact apply_ite (without · keys) ..

theorem without_produce (a : Attempt ε V) (outcome : ε → Instant → Outcome V) :
    (w.produce a outcome).without keys = (w.without keys).produce a outcome := by
  unfold produce
  dsimp only [without]
  cases outcome w.surroundings w.now <;> rfl

theorem without_answer (a : Attempt ε V) (answer : Answer V) (continues : Bool) :
    (w.answer a answer continues).without keys = (w.without keys).answer a answer continues := by
  unfold World.answer
  cases continues <;> rfl

theorem without_armRefresher : w.armRefresher.without keys = (w.without keys).armRefresher := by
  unfold armRefresher
  rw [without_refresher, without_cache]
  cases w.refresher with
  | arming wokenFor =>
      dsimp only
      cases Refresher.arm wokenFor w.cache.staleness.deadline with
      | stopped => exact without_stopRefresher w keys
      | idle | arming | armed => rfl
  | idle | armed | stopped => rfl

theorem without_react (cue : Cue) : (w.react cue).without keys = (w.without keys).react cue := by
  unfold react
  rw [without_refresher, without_cache, without_bus]
  cases w.refresher with
  | idle | arming | stopped => rfl
  | armed wokenFor deadline =>
      cases cue with
      | notice =>
          dsimp only
          cases w.cache.staleness.notices <;> rfl
      | signal =>
          dsimp only
          cases w.bus.bind Bus.receive? <;> rfl
      | timer => exact apply_ite (without · keys) ..

variable {w}

theorem without_report (handle : w.hasHandle = true) (a : Attempt ε V) (result : Report V) :
    (w.report a result).without keys = (w.without keys).report a result := by
  have alive : w.isCacheAlive = true := by simp [isCacheAlive, handle]
  have alive' : (w.without keys).isCacheAlive = true := by simp [isCacheAlive, without, handle]
  unfold World.report
  rw [if_pos alive, if_pos alive']
  rfl

theorem without_stepAttempt (handle : w.hasHandle = true) (a : Attempt ε V) :
    (w.stepAttempt a).without keys = (w.without keys).stepAttempt a := by
  unfold stepAttempt
  have can : (w.without keys).canStep a = w.canStep a := rfl
  rw [can]
  split
  next =>
    cases a.progress with
    | launched => rfl
    | heldBack => rfl
    | queued => exact without_callSource w keys a
    | asking => exact without_askNext w keys a
    | producing _ outcome => exact without_produce w keys a outcome
    | reporting result => exact without_report keys handle a result
    | answering answer continues => exact without_answer w keys a answer continues
    | stuck => rfl
  next => rfl

theorem without_advanceAttempt (handle : w.hasHandle = true) (number : Nat) :
    (w.advanceAttempt number).without keys = (w.without keys).advanceAttempt number := by
  unfold advanceAttempt
  rw [without_cache]
  split
  next a _ => exact without_stepAttempt keys handle a
  next => rfl

end

/-! ## §4. What readers leave behind. -/

/-- While the handle is held, whoever lets go leaves the refresher alone. -/
theorem untether_of_handle {w : World ε V} (handle : w.hasHandle = true) : w.untether = w := by
  rw [untether, if_neg (by simp [handle])]

section

variable (w : World ε V) (keys : List Nat)

/-- A change that is made to the seat of one key, and leaves its key, does not change who is left out. -/
theorem filter_map_seats (seats : List Seat) (change : Seat → Seat) (same : ∀ s, (change s).key = s.key) :
    (seats.map change).filter (·.key ∉ keys) = (seats.filter (·.key ∉ keys)).map change := by
  rw [List.filter_map]
  congr 2
  funext s
  simp [same]

theorem without_reseat (key : Nat) (cache : Cache ε V) (reader : Reader) :
    (w.reseat key cache reader).without keys = (w.without keys).reseat key cache reader := by
  have seats := filter_map_seats keys w.seats (fun s => if s.key = key then { s with reader } else s)
    fun s => by split <;> rfl
  unfold reseat without
  dsimp only
  rw [seats]

theorem without_follow (key : Nat) : (w.follow key).without keys = (w.without keys).follow key := by
  have seats := filter_map_seats keys w.seats (fun s => if s.key = key then { s with role := .follow } else s)
    fun s => by split <;> rfl
  unfold follow without
  dsimp only
  rw [seats]

theorem without_noteDelivery {key : Nat} (kept : key ∉ keys) (item : Item V) :
    (w.noteDelivery key item).without keys = (w.without keys).noteDelivery key item := by
  unfold noteDelivery without
  dsimp only
  rw [List.filter_cons_of_pos (by simpa using kept)]

variable {w}

theorem without_dropReader (handle : w.hasHandle = true) (key : Nat) :
    (w.dropReader key).without keys = (w.without keys).dropReader key := by
  have dropped : w.dropReader key = { w with seats := w.seats.filter (·.key != key) } :=
    untether_of_handle handle
  have dropped' : (w.without keys).dropReader key
      = { w.without keys with seats := (w.without keys).seats.filter (·.key != key) } :=
    untether_of_handle handle
  rw [dropped, dropped']
  unfold without
  dsimp only
  rw [List.filter_filter, List.filter_filter]
  congr 2
  funext s
  exact Bool.and_comm ..

/-- Whoever does not sit there cannot take a seat again. -/
theorem reseat_absent {key : Nat} (absent : ∀ s ∈ w.seats, s.key ≠ key) (reader : Reader) :
    w.reseat key w.cache reader = w := by
  have same : (w.seats.map fun s => if s.key = key then { s with reader } else s) = w.seats :=
    (List.map_congr_left fun s hs => if_neg (absent s hs)).trans (List.map_id' _)
  unfold reseat
  rw [same]

/-- Whoever does not sit there cannot go. -/
theorem dropReader_absent (handle : w.hasHandle = true) {key : Nat} (absent : ∀ s ∈ w.seats, s.key ≠ key) :
    w.dropReader key = w := by
  have same : w.seats.filter (·.key != key) = w.seats :=
    List.filter_eq_self.mpr fun s hs => by simpa using absent s hs
  unfold dropReader
  rw [same]
  exact untether_of_handle handle

variable {keys}

theorem without_noteDelivery_left {key : Nat} (left : key ∈ keys) (item : Item V) :
    (w.noteDelivery key item).without keys = w.without keys := by
  unfold noteDelivery without
  dsimp only
  rw [List.filter_cons_of_neg (by simpa using left)]

theorem without_openReader (known : ∀ k ∈ keys, k < w.nextKey) (reading : Reading) (role : Role) :
    (w.openReader reading role).without keys = (w.without keys).openReader reading role := by
  have kept : w.nextKey ∉ keys := fun listed => Nat.lt_irrefl _ (known _ listed)
  unfold openReader
  rw [without_hasHandle, apply_ite (without · keys)]
  congr 1
  unfold without
  dsimp only
  rw [List.filter_append, List.filter_cons_of_pos (by simpa using kept), List.filter_nil]

/-- Nobody sits under a key that is left out. -/
theorem ne_of_left {key : Nat} (left : key ∈ keys) : ∀ s ∈ (w.without keys).seats, s.key ≠ key := by
  intro s listed same
  have kept : s.key ∉ keys := by simpa using (List.mem_filter.mp listed).2
  exact kept (same ▸ left)

/-- A committed reader that takes a step changes nothing but its seat and what it was told. -/
theorem without_advanceReader_left (handle : w.hasHandle = true) (dormant : Dormant keys w) {key : Nat}
    (left : key ∈ keys) : (w.advanceReader key).without keys = w.without keys := by
  unfold advanceReader
  cases taken : w.seat? key with
  | none => rfl
  | some seat =>
      obtain ⟨seated, rfl⟩ := seat?_mem taken
      have absent := ne_of_left (w := w) left
      -- its step leaves the cache as it is, and its seat and its items are left out
      have same := (Reader.step_of_committed (dormant.committed seat seated left) w.cache w.now).1
      dsimp only
      generalize seat.reader.step w.cache w.now = out at same
      obtain ⟨cache, reader, item⟩ := out
      obtain rfl : cache = w.cache := same
      have reseated : (w.reseat seat.key w.cache reader).without keys = w.without keys := by
        rw [without_reseat]
        exact reseat_absent absent reader
      dsimp only
      cases item with
      | none => exact reseated
      | some item =>
          have noted := (without_noteDelivery_left (w := w.reseat seat.key w.cache reader) left
            (presented seat.role item)).trans reseated
          dsimp only
          split
          · have dropped := without_dropReader keys (w := (w.reseat seat.key w.cache reader).noteDelivery
              seat.key (presented seat.role item)) handle seat.key
            rw [dropped, noted]
            exact dropReader_absent (w := w.without keys) handle absent
          · exact noted

/-- The step of a reader that stays is the same without those that are left out. -/
theorem without_advanceReader (handle : w.hasHandle = true) (dormant : Dormant keys w) (key : Nat) :
    (w.advanceReader key).without keys = (w.without keys).advanceReader key := by
  by_cases left : key ∈ keys
  · rw [without_advanceReader_left handle dormant left]
    unfold advanceReader
    rw [without_seat?_none w keys left]
  · -- it finds the same seat and the same cache in both worlds, so it takes the same step
    unfold advanceReader
    rw [without_seat? w keys left, without_cache]
    split
    next => rfl
    next seat _ =>
      have now : (w.without keys).now = w.now := rfl
      rw [now]
      generalize seat.reader.step w.cache w.now = out
      obtain ⟨cache, reader, item⟩ := out
      have reseated := without_reseat w keys key cache reader
      dsimp only
      cases item with
      | none => exact reseated
      | some item =>
          have noted := without_noteDelivery (w.reseat key cache reader) keys left
            (presented seat.role item)
          rw [reseated] at noted
          dsimp only
          split
          · have dropped := without_dropReader keys (w := (w.reseat key cache reader).noteDelivery key
              (presented seat.role item)) handle key
            rw [dropped, noted]
          · exact noted

/-- **No move reads what committed readers leave out**, as long as the handle is held. -/
theorem without_apply (handle : w.hasHandle = true) (dormant : Dormant keys w) {m : Move ε V}
    (keeps : m ≠ .dropHandle) : (w.apply m).without keys = (w.without keys).apply m := by
  have guarded {b : Bool} {w₁ : World ε V} {w₂ : World ε V} (h : w₁.without keys = w₂) :
      (if b then w₁ else w).without keys = if b then w₂ else w.without keys := by
    rw [apply_ite (without · keys), h]
  cases m with
  | bind source =>
      show (w.bind source).without keys = (w.without keys).bind source
      unfold bind
      rw [without_cache]
      cases w.cache.dispatcher.bind source <;> rfl
  | subscribe | invalidate | poke | takeNotices | dropNotices | startRefresher | openLookout =>
      exact guarded rfl
  | stopRefresher => exact without_stopRefresher w keys
  | openReader reading role => exact without_openReader dormant.known reading role
  | follow key => exact without_follow w keys key
  | dropReader key => exact without_dropReader keys handle key
  | pollLookout key =>
      have alive : w.isCacheAlive = true := by simp [isCacheAlive, handle]
      have alive' : (w.without keys).isCacheAlive = true := by simp [isCacheAlive, handle]
      have sight (l : Lookout) : (w.without keys).sight l = w.sight l := by
        unfold sight
        rw [alive, alive', without_cache]
      show (w.pollLookout key).without keys = (w.without keys).pollLookout key
      unfold pollLookout
      simp only [sight]
      rfl
  | dropHandle => exact absurd rfl keeps
  | reader key => exact without_advanceReader handle dormant key
  | attempt number => exact without_advanceAttempt keys handle number
  | arm => exact without_armRefresher w keys
  | react cue => exact without_react w keys cue
  | flush | observe | recordSuccess | publish | closeBus | dropLookout | dropOwner | surround | pass => rfl

end

/-! ## §5. The run with the cancellations and the run without them. -/

/-- The moves without those that let a reader of one of these keys go. -/
def uncancelled (keys : List Nat) (moves : List (Move ε V)) : List (Move ε V) :=
  moves.filter (!·.cancels keys)

/-- Along the run, the readers of these keys are let go only once they have been evaluated, as reads of a
single value. -/
def CancelsEvaluated (w : World ε V) (keys : List Nat) (moves : List (Move ε V)) : Prop :=
  ∀ before key after, moves = before ++ .dropReader key :: after → key ∈ keys →
    ∃ e ∈ w.evaluations before, e.key = key ∧ e.reading.follows = false

/-- A read of a single value that is evaluated with a move is committed after it. -/
theorem dormant_of_evaluation {w : World ε V} (h : Reachable w) {m : Move ε V} {e : Evaluation V}
    (evaluated : w.evaluation? m = some e) (single : e.reading.follows = false) :
    Dormant [e.key] (w.apply m) := by
  obtain ⟨seat, rfl, taken, same, came⟩ := evaluation?_eq_some evaluated
  rw [same] at single ⊢
  have seated := (seat?_mem taken).1
  have advanced := advanceReader_advanced taken
  refine ⟨fun k hk => ?_, fun s hs listed => ?_⟩
  · rw [List.mem_singleton.mp hk]
    exact Nat.lt_of_lt_of_le (h.attended.below seat seated) advanced.nextKey
  · rcases advanced.seats s hs with ⟨_, other⟩ | ⟨_, reader, _⟩
    · exact absurd (List.mem_singleton.mp listed) other
    · rw [reader]
      exact Reader.isCommitted_of_evaluation single came

/-- **Once a read of a single value was evaluated, it is committed for good.** -/
theorem dormant_of_evaluations {w : World ε V} (h : Reachable w) {moves : List (Move ε V)}
    {e : Evaluation V} (evaluated : e ∈ w.evaluations moves) (single : e.reading.follows = false) :
    Dormant [e.key] (w.run moves) := by
  induction moves generalizing w with
  | nil => cases evaluated
  | cons m moves ih =>
      rcases List.mem_append.mp evaluated with now | later
      · exact (dormant_of_evaluation h (by simpa using now) single).run moves
      · exact ih (h.move m) later

/-- Who is left out twice is left out once. -/
theorem without_without (w : World ε V) {gone keys : List Nat} (sub : gone ⊆ keys) :
    (w.without gone).without keys = w.without keys := by
  have filters {α : Type} (key : α → Nat) (l : List α) :
      (l.filter (key · ∉ gone)).filter (key · ∉ keys) = l.filter (key · ∉ keys) := by
    rw [List.filter_filter]
    refine List.filter_congr fun x _ => ?_
    by_cases listed : key x ∈ gone
    · simp [sub listed]
    · simp [listed]
  unfold without
  dsimp only
  rw [filters Seat.key, filters Delivery.key]

theorem Dormant.cons {w : World ε V} {key : Nat} {keys : List Nat} (one : Dormant [key] w)
    (rest : Dormant keys w) : Dormant (key :: keys) w where
  known k hk := by
    rcases List.mem_cons.mp hk with rfl | hk
    · exact one.known k (List.mem_singleton_self k)
    · exact rest.known k hk
  committed s hs listed := by
    rcases List.mem_cons.mp listed with rfl | listed
    · exact one.committed s hs (List.mem_singleton_self _)
    · exact rest.committed s hs listed

/-- Whoever stays in a world without some readers is committed there if he is in the whole one. -/
theorem Dormant.of_agrees {u w : World ε V} {gone keys : List Nat} (h : Dormant keys w) (dormant : Dormant gone u)
    (agrees : u.without gone = w.without gone) : Dormant keys u := by
  refine ⟨fun k hk => ?_, fun s hs listed => ?_⟩
  · have nextKey : (u.without gone).nextKey = (w.without gone).nextKey := by rw [agrees]
    exact Nat.lt_of_lt_of_eq (h.known k hk) nextKey.symm
  · by_cases left : s.key ∈ gone
    · exact dormant.committed s hs left
    · have stays : s ∈ (u.without gone).seats := List.mem_filter.mpr ⟨hs, by simpa using left⟩
      rw [agrees] at stays
      exact h.committed s (List.mem_filter.mp stays).1 listed

/-- A committed reader that is let go takes nothing with it but its seat. -/
theorem without_dropReader_left {w : World ε V} (handle : w.hasHandle = true) {key : Nat} {keys : List Nat}
    (left : key ∈ keys) : (w.dropReader key).without keys = w.without keys := by
  rw [without_dropReader keys handle]
  exact dropReader_absent (w := w.without keys) handle (ne_of_left left)

/-- **A run with cancellations agrees with the run without them**, but for the readers that were let go. -/
theorem agree_run {w₀ : World ε V} (initial : Initial w₀) (keys : List Nat) {before moves : List (Move ε V)}
    (held : .dropHandle ∉ moves) (late : CancelsEvaluated w₀ keys (before ++ moves)) {u : World ε V}
    {gone : List Nat} (sub : gone ⊆ keys) (handle : u.hasHandle = true) (dormant : Dormant gone u)
    (dormant' : Dormant gone (w₀.run before)) (agrees : u.without gone = (w₀.run before).without gone) :
    (u.run (uncancelled keys moves)).without keys = (w₀.run (before ++ moves)).without keys := by
  -- `gone` are those that were let go so far: the run without the cancellations still has them
  induction moves generalizing before u gone with
  | nil =>
      rw [List.append_nil, ← without_without _ sub, ← without_without (w₀.run before) sub, ← agrees]
      rfl
  | cons m moves ih =>
      have whole : before ++ m :: moves = (before ++ [m]) ++ moves := by simp
      have next : w₀.run (before ++ [m]) = (w₀.run before).apply m := run_append w₀ before [m]
      have handle' : (w₀.run before).hasHandle = true := by
        rw [← without_hasHandle _ gone, ← agrees]
        exact handle
      have held' := List.not_mem_of_not_mem_cons held
      rw [whole] at late ⊢
      cases cancels : m.cancels keys with
      | true =>
          -- one run lets the reader go, the other makes no move: it is one more of those that are left out
          have dropped : uncancelled keys (m :: moves) = uncancelled keys moves :=
            List.filter_cons_of_neg (by simp [cancels])
          rw [dropped]
          cases m with
          | dropReader key =>
              have listed : key ∈ keys := by simpa [Move.cancels] using cancels
              obtain ⟨e, evaluated, rfl, single⟩ := late before key moves (by simp) listed
              have one := dormant_of_evaluations (.initial initial) evaluated single
              refine ih held' late (List.cons_subset.mpr ⟨listed, sub⟩) handle
                ((one.of_agrees dormant agrees).cons dormant) ?_ ?_
              · rw [next]
                exact (one.cons dormant').apply _
              · have more : gone ⊆ e.key :: gone := List.subset_cons_self e.key gone
                rw [next, ← without_without u more, agrees, without_without _ more]
                exact (without_dropReader_left handle' List.mem_cons_self).symm
          | _ => cases cancels
      | false =>
          -- both runs make the move, which reads nothing of those in whom they differ
          have kept : uncancelled keys (m :: moves) = m :: uncancelled keys moves :=
            List.filter_cons_of_pos (by simp [cancels])
          have keeps : m ≠ .dropHandle := (List.ne_of_not_mem_cons held).symm
          rw [kept]
          refine ih held' late (u := u.apply m) sub (((apply_step u m).hasHandle keeps).trans handle)
            (dormant.apply m) (next ▸ dormant'.apply m) ?_
          rw [next, without_apply handle dormant keeps, agrees, without_apply handle' dormant' keeps]

/-! ## §6. What a fetch comes to. -/

/-- A fetch that is on its way, and was given a value, is stored with the next step of its attempt, and
answers with the step after it, whoever waits for it. -/
theorem stored_anyway {w₀ : World ε V} (initial : Initial w₀) {moves : List (Move ε V)}
    (alive : (w₀.run moves).isCacheAlive = true) (busy : (w₀.run moves).cache.cell.phase = .calculating)
    {v : V} (came : w₀.firstOutcome moves (w₀.run moves).cache.dispatcher.latest = some (.came (.value v))) :
    let q := w₀.run moves
    let n := q.cache.dispatcher.latest
    q.stored? (.attempt n) = some ⟨v, n, 0⟩
      ∧ (q.apply (.attempt n)).cache.cell.phase = .holding (.concealed ⟨v, n, 0⟩)
      ∧ (q.run [.attempt n, .attempt n]).cache.dispatcher.hasAnswered n = true := by
  intro q n
  have reachable : Reachable q := initial.reachable_run moves
  have faithful : Faithful (w₀.yields moves) q := (Faithful.initial initial).run (.initial initial) moves
  have accounted : Accounted (w₀.yields moves) q :=
    (Accounted.initial initial).run (.initial initial) (.initial initial) moves
  have tracked : q.cache.dispatcher.Tracks n :=
    reachable.awaited.pending n (reachable.coherent.owed alive busy)
  -- an attempt that answers while the cell waits for it was given nothing but what cannot be copied
  have unanswered : q.cache.dispatcher.hasAnswered n = false := by
    refine Bool.eq_false_iff.mpr fun answered => ?_
    cases came.symm.trans (accounted.busy alive busy answered)
  have listed : ∃ a ∈ q.cache.dispatcher.running, a.number = n :=
    tracked.resolve_left (by simp [unanswered])
  obtain ⟨a, running⟩ := Option.isSome_iff_exists.mp (Dispatcher.attempt?_isSome_iff.mpr listed)
  obtain ⟨ha, number⟩ := Dispatcher.attempt?_mem running
  have item := item_of_unanswered reachable.ordered.dispatcher ha (by rw [number]; exact unanswered)
  have news := faithful.news a ha item
  rw [number, show (w₀.yields moves).lookup n = _ from came, Attempt.news?] at news
  -- it has not had its say yet, for the cell still waits for it
  have reporting : a.progress = .reporting (.ok ⟨v, n, 0⟩) := by
    cases progress : a.progress with
    | reporting report =>
        rw [progress] at news
        rw [Option.some.inj news]
        rfl
    | answering answer continues =>
        have said : a.isAnswering = true := by simp [Attempt.isAnswering, progress]
        exact absurd busy (reachable.coherent.reported alive a ha said number)
    | launched | heldBack | queued | asking | producing | stuck =>
        rw [progress] at news
        cases news
  have keeps : q.cache.keeps a.item = true := by
    rw [item]
    simp [Cache.keeps, q, busy, Phase.isCalculating]
  have stores := apply_stores (by rw [number]; exact running) reporting alive number.symm keeps
  rw [number] at stores
  refine ⟨?_, ?_, faithful.answers_soon reachable tracked came⟩
  · rw [stored?, stores]
    exact if_neg (Nat.succ_ne_self _)
  · rw [stores]
    rfl

theorem hasHandle_run {moves : List (Move ε V)} (held : .dropHandle ∉ moves) (w : World ε V) :
    (w.run moves).hasHandle = w.hasHandle := by
  induction moves generalizing w with
  | nil => rfl
  | cons m moves ih =>
      exact (ih (List.not_mem_of_not_mem_cons held) (w.apply m)).trans
        ((apply_step _ _).hasHandle (List.ne_of_not_mem_cons held).symm)

/-- Whoever else is ready is ready without them. -/
theorem isReady_without (w : World ε V) {keys : List Nat} {a : Actor}
    (other : ∀ key ∈ keys, a ≠ .reader key) : (w.without keys).isReady a = w.isReady a := by
  cases a with
  | refresher | attempt => rfl
  | reader key =>
      have kept : key ∉ keys := fun listed => other key listed rfl
      simp only [isReady, without_seat? w keys kept, without_cache]

theorem deliveries_without (w : World ε V) {keys : List Nat} {key : Nat} (kept : key ∉ keys) :
    (w.without keys).deliveries.filter (·.key == key) = w.deliveries.filter (·.key == key) := by
  unfold without
  dsimp only
  rw [List.filter_filter]
  refine List.filter_congr fun d _ => ?_
  by_cases same : d.key = key <;> simp [same, kept]

/-- **Cancelling reads changes nothing for anybody else.**  Take any run that keeps the handle, and let
some reads of a single value be cancelled along it, each at any time after it was evaluated, be it the one
that launched the attempt.  Take the same run without the cancellations, in which those reads may take
any further steps.  The two runs agree in everything but the cancelled reads: in the time, the cell with
its counters, the book on staleness, the attempts and the calls of the source, in who is ready to move, and
in where each other reader stands and what it was given when.  As this holds of every run, it holds at
every point of it.  An attempt that was launched stays on its way until it has answered; and the newest,
once it was given a value while the cell waits for it, has this value stored with its next step and
answers with the step after, even if nobody waits for it. -/
theorem cancellation {w₀ : World ε V} (initial : Initial w₀) {moves : List (Move ε V)}
    (held : .dropHandle ∉ moves) {keys : List Nat} (late : CancelsEvaluated w₀ keys moves) :
    let q := w₀.run moves
    let u := w₀.run (uncancelled keys moves)
    let n := q.cache.dispatcher.latest
    q.without keys = u.without keys
      ∧ (q.now = u.now ∧ q.cache = u.cache ∧ q.calls = u.calls)
      ∧ (∀ a, (∀ key ∈ keys, a ≠ .reader key) → q.isReady a = u.isReady a)
      ∧ (∀ key ∉ keys, q.seat? key = u.seat? key
          ∧ q.deliveries.filter (·.key == key) = u.deliveries.filter (·.key == key))
      ∧ (∀ k, q.cache.dispatcher.Tracks k → ∀ more, (q.run more).cache.dispatcher.Tracks k)
      ∧ ∀ v, q.cache.cell.phase = .calculating → w₀.firstOutcome moves n = some (.came (.value v)) →
          q.stored? (.attempt n) = some ⟨v, n, 0⟩
            ∧ (q.apply (.attempt n)).cache.cell.phase = .holding (.concealed ⟨v, n, 0⟩)
            ∧ (q.run [.attempt n, .attempt n]).cache.dispatcher.hasAnswered n = true := by
  intro q u n
  have handle : w₀.hasHandle = true := by cases initial <;> rfl
  have same : q.without keys = u.without keys :=
    (agree_run initial keys held (show CancelsEvaluated w₀ keys ([] ++ moves) from late)
      (List.nil_subset keys) handle
      ⟨fun _ hk => (nomatch hk), fun _ _ hk => (nomatch hk)⟩
      ⟨fun _ hk => (nomatch hk), fun _ _ hk => (nomatch hk)⟩ rfl).symm
  refine ⟨same, ⟨?_, ?_, ?_⟩, fun a other => ?_, fun key kept => ⟨?_, ?_⟩,
    fun k tracked more => tracks_run (initial.reachable_run moves) tracked more, fun v busy came => ?_⟩
  · show (q.without keys).now = (u.without keys).now
    rw [same]
  · rw [← without_cache q keys, same, without_cache]
  · show (q.without keys).calls = (u.without keys).calls
    rw [same]
  · rw [← isReady_without q other, same, isReady_without u other]
  · rw [← without_seat? q keys kept, same, without_seat? u keys kept]
  · rw [← deliveries_without q kept, same, deliveries_without u kept]
  · have alive : q.isCacheAlive = true := by
      simp [isCacheAlive, (hasHandle_run held w₀).trans handle, q]
    exact stored_anyway initial alive busy came

/-- Two reads wait for one attempt; the one that launched it is cancelled before the source is called, the
other while the source is at work. -/
def launcherCancelled : List (Move Unit Nat) :=
  [.bind counting, .openReader .once .read, .reader 0, .reader 0, .openReader .once .read, .reader 1,
    .reader 1, .dropReader 0, .attempt 1, .attempt 1, .dropReader 1, .attempt 1]

theorem cancellation_launcher :
    let w₀ : World Unit Nat := selfRefreshing ⟨.periodic 60000, .unpaced⟩ none ()
    let q := w₀.run launcherCancelled
    let u := w₀.run (uncancelled [0, 1] launcherCancelled)
    q.seats = [] ∧ u.seats.length = 2 ∧ q.without [0, 1] = u.without [0, 1]
      ∧ (q.apply (.attempt 1)).cache.cell.phase = .holding (.concealed ⟨10, 1, 0⟩) := by
  have late : CancelsEvaluated (selfRefreshing ⟨.periodic 60000, .unpaced⟩ none () : World Unit Nat) [0, 1]
      launcherCancelled := by
    intro before key after split listed
    have there : launcherCancelled[before.length]? = some (.dropReader key) := by
      rw [split, List.getElem?_append_right (Nat.le_refl _), Nat.sub_self]
      rfl
    have taken : before = launcherCancelled.take before.length := by
      rw [split, List.take_left]
    rw [taken]
    generalize before.length = i at there
    match i, there with
    | 7, there =>
        cases there
        exact ⟨⟨0, .once, .ticket (.wait 1)⟩, by decide, rfl, rfl⟩
    | 10, there =>
        cases there
        exact ⟨⟨1, .once, .ticket (.wait 1)⟩, by decide, rfl, rfl⟩
    | 11, there | _ + 12, there => cases there
  have h := cancellation (.selfRefreshing ⟨.periodic 60000, .unpaced⟩ none ())
    (by simp [launcherCancelled]) late
  exact ⟨rfl, rfl, h.1, (h.2.2.2.2.2 10 rfl rfl).2.1⟩

end World

end SingleFlight
