/-
  SingleFlight.Proofs.Hearing — which signals of a burst the refresher hears.

  The bus keeps as many signals as its capacity.  What is sent beyond that
  before the refresher runs pushes the oldest out; the refresher is told how
  many it missed, and lets the readers look again, but tells the book nothing.
  So a burst makes the value due exactly if one of the signals that survive it
  is of the policy.

  Main results:
    * `apply_bused` — what a move makes of the bus.
    * `heard_run` — what the refresher hears is what was left on the bus.
    * `due_after_burst` — when the value is due once a burst has been handled.
-/
import SingleFlight.Proofs.Dueness

namespace SingleFlight

variable {ε V : Type}

/-! ## §1. The bus. -/

namespace Bus

/-- The signals that are left of `signals` when only the newest `capacity` are kept. -/
def newest (capacity : Nat) (signals : List Signal) : List Signal :=
  signals.drop (signals.length - capacity)

theorem newest_of_le {capacity : Nat} {signals : List Signal} (fits : signals.length ≤ capacity) :
    newest capacity signals = signals := by
  rw [newest, Nat.sub_eq_zero_of_le fits, List.drop_zero]

/-- Who keeps the newest of what was kept keeps the newest of all. -/
theorem newest_append (capacity : Nat) (old new : List Signal) :
    newest capacity (newest capacity old ++ new) = newest capacity (old ++ new) := by
  unfold newest
  by_cases fits : old.length ≤ capacity
  · rw [Nat.sub_eq_zero_of_le fits, List.drop_zero]
  · -- `old` alone fills the bus, so every signal of `new` pushes one out
    have kept : (old.drop (old.length - capacity)).length = capacity := by
      rw [List.length_drop]
      omega
    have split : (old ++ new).length - capacity = (old.length - capacity) + new.length := by
      rw [List.length_append]
      omega
    rw [split, ← List.drop_drop, List.drop_append_of_le_length (Nat.sub_le _ _), List.length_append, kept,
      Nat.add_sub_cancel_left]

/-- A bus of `n` signals: it keeps no more than its capacity, and nothing for a receiver that has gone. -/
structure Sound (n : Nat) (b : Bus) : Prop where
  capacity : b.capacity = (new n).capacity
  bounded : b.queue.length ≤ b.capacity
  left : b.hasReceiver = false → b.queue = []

theorem Sound.new (n : Nat) : Sound n (new n) := ⟨rfl, Nat.zero_le _, fun _ => rfl⟩

variable {n : Nat} {b : Bus}

theorem send_eq (receives : b.hasReceiver = true) (s : Signal) :
    (b.send s).1 = { b with
      queue := newest b.capacity (b.queue ++ [s])
      missed := b.missed + ((b.queue ++ [s]).length - b.capacity) } := by
  rw [send, if_pos receives]
  rfl

theorem Sound.send (h : b.Sound n) (s : Signal) : (b.send s).1.Sound n := by
  cases receives : b.hasReceiver with
  | false =>
      rw [Bus.send, if_neg (by simp [receives])]
      exact h
  | true =>
      rw [send_eq receives]
      refine ⟨h.capacity, ?_, fun gone => ?_⟩
      · show (newest b.capacity (b.queue ++ [s])).length ≤ b.capacity
        rw [newest, List.length_drop]
        omega
      · cases receives.symm.trans gone

theorem Sound.close (h : b.Sound n) : b.close.Sound n := ⟨h.capacity, h.bounded, h.left⟩

theorem Sound.leave (h : b.Sound n) : b.leave.Sound n := ⟨h.capacity, Nat.zero_le _, fun _ => rfl⟩

end Bus

/-- The signal that was received, if it was one. -/
def Received.signal? : Received → Option Signal
  | .signal s => some s
  | .lagged _ | .closed => none

namespace Bus

variable {n : Nat} {b b' : Bus} {received : Received}

/-- What is received was waiting in front. -/
theorem receive?_queue (found : b.receive? = some (received, b')) :
    b.queue = received.signal?.toList ++ b'.queue := by
  unfold receive? at found
  split at found
  · split at found
    · cases found
      rfl
    · split at found
      next queue =>
        cases found
        exact queue
      next queue =>
        split at found
        · cases found
        · cases found
          rfl
  · cases found

theorem Sound.receive (h : b.Sound n) (found : b.receive? = some (received, b')) : b'.Sound n := by
  have queue := receive?_queue found
  have frame : b'.capacity = b.capacity ∧ b'.hasReceiver = b.hasReceiver := by
    unfold receive? at found
    split at found
    · split at found
      · cases found
        exact ⟨rfl, rfl⟩
      · split at found
        · cases found
          exact ⟨rfl, rfl⟩
        · split at found
          · cases found
          · cases found
            exact ⟨rfl, rfl⟩
    · cases found
  refine ⟨frame.1.trans h.capacity, ?_, fun gone => ?_⟩
  · have bounded := h.bounded
    rw [queue, List.length_append] at bounded
    rw [frame.1]
    omega
  · have empty := h.left (frame.2.symm.trans gone)
    rw [queue] at empty
    exact (List.append_eq_nil_iff.mp empty).2

/-- Who is told that nothing will come has received everything. -/
theorem queue_of_closed (found : b.receive? = some (.closed, b')) : b'.queue = [] := by
  unfold receive? at found
  split at found
  · split at found
    · cases found
    · split at found
      · cases found
      next queue =>
        split at found
        · cases found
        · cases found
          exact queue
  · cases found

/-- Where nothing is left to receive nothing waits. -/
theorem Sound.queue_of_drained (h : b.Sound n) (drained : b.receive? = none) : b.queue = [] := by
  unfold receive? at drained
  split at drained
  next =>
    split at drained
    · cases drained
    · split at drained
      · cases drained
      next queue => exact queue
  next gone => exact h.left (by simpa using gone)

end Bus

namespace World

/-! ## §2. What a move makes of the bus. -/

/-- The signal that the refresher hears with a move. -/
def heard? (w : World ε V) : Move ε V → Option Signal
  | .react .signal =>
    match w.refresher, w.bus.bind Bus.receive? with
    | .armed _ _, some (received, _) => received.signal?
    | _, _ => none
  | _ => none

/-- The signals that the refresher hears along a run, oldest first. -/
def heard (w : World ε V) (moves : List (Move ε V)) : List Signal := w.observed heard? moves

/-- The signals on the bus that the refresher has not heard yet. -/
def unread (w : World ε V) : List Signal := w.bus.elim [] Bus.queue

/-- What the move `m` makes of the bus. -/
inductive Bused (w : World ε V) (m : Move ε V) (w' : World ε V) : Prop where
  /-- Nothing. -/
  | still (silent : w.heard? m = none) (bus : w'.bus = w.bus)
  /-- A signal is sent. -/
  | sent (s : Signal) (own : m = .publish s)
      (bus : w'.bus = w.bus.map fun b => if b.isOpen then (b.send s).1 else b)
  /-- The sender goes. -/
  | closed (own : m = .closeBus) (bus : w'.bus = w.bus.map Bus.close)
  /-- The refresher hears what is in front, and goes if nothing will come. -/
  | heard {b b' : Bus} {received : Received} (own : m = .react .signal) (before : w.bus = some b)
      (found : b.receive? = some (received, b')) (told : w.heard? m = received.signal?)
      (bus : w'.bus = some (if received = .closed then b'.leave else b'))
  /-- The refresher has ended. -/
  | ended (silent : w.heard? m = none) (task : w'.refresher.isRunning = false)
      (bus : w'.bus = w.bus ∨ w'.bus = w.bus.map Bus.leave)

theorem bused_stopRefresher {w w' : World ε V} {m : Move ε V} (silent : w.heard? m = none)
    (bus : w'.bus = w.bus) : Bused w m w'.stopRefresher := by
  refine .ended silent (stopRefresher_ended w') ?_
  rw [← bus]
  unfold stopRefresher
  split
  · exact Or.inr rfl
  · exact Or.inl rfl

theorem bused_untether {w w' : World ε V} {m : Move ε V} (silent : w.heard? m = none)
    (bus : w'.bus = w.bus) : Bused w m w'.untether := by
  unfold untether
  split
  · exact bused_stopRefresher silent bus
  · exact .still silent bus

theorem bused_advanceReader (w : World ε V) (key : Nat) :
    Bused w (.reader key) (w.advanceReader key) := by
  unfold advanceReader
  split
  next => exact .still rfl rfl
  next =>
    dsimp only
    split
    next => exact .still rfl rfl
    next =>
      split
      next => exact bused_untether rfl rfl
      next => exact .still rfl rfl

theorem bused_react (w : World ε V) (cue : Cue) : Bused w (.react cue) (w.react cue) := by
  cases hr : w.refresher with
  | idle | arming | stopped =>
      rw [react, hr]
      refine .still ?_ rfl
      cases cue <;> simp [heard?, hr]
  | armed wokenFor deadline =>
      rw [react, hr]
      cases cue with
      | notice =>
          dsimp only
          split <;> exact .still rfl rfl
      | timer =>
          dsimp only
          split <;> exact .still rfl rfl
      | signal =>
          dsimp only
          split
          next received b' found =>
            obtain ⟨b, before, found'⟩ := Option.bind_eq_some_iff.mp found
            exact .heard rfl before found' (by simp [heard?, hr, found]) rfl
          next none => exact .still (by simp [heard?, hr, none]) rfl

/-- **What a move makes of the bus.** -/
theorem apply_bused (w : World ε V) (m : Move ε V) : Bused w m (w.apply m) := by
  have guarded {b : Bool} {w' : World ε V} (silent : w.heard? m = none) (bus : w'.bus = w.bus) :
      Bused w m (if b then w' else w) := by
    cases b
    · exact .still silent rfl
    · exact .still silent bus
  cases m with
  | bind source =>
      show Bused w _ (w.bind source)
      unfold bind
      split <;> exact .still rfl rfl
  | subscribe | invalidate | poke | takeNotices | dropNotices | startRefresher | openReader
  | openLookout => exact guarded rfl rfl
  | publish s => exact .sent s rfl rfl
  | closeBus => exact .closed rfl rfl
  | stopRefresher => exact bused_stopRefresher rfl rfl
  | dropReader | dropHandle => exact bused_untether rfl rfl
  | reader key => exact bused_advanceReader w key
  | attempt number =>
      show Bused w _ (w.advanceAttempt number)
      unfold advanceAttempt
      split
      next a _ =>
        obtain ⟨left, t⟩ := stepAttempt_turn w a
        generalize w.stepAttempt a = w' at t
        refine .still rfl ?_
        cases t <;> rfl
      next => exact .still rfl rfl
  | arm =>
      show Bused w _ w.armRefresher
      unfold armRefresher
      split
      next =>
        split
        next => exact bused_stopRefresher rfl rfl
        next => exact .still rfl rfl
      next => exact .still rfl rfl
  | react cue => exact bused_react w cue
  | flush | observe | recordSuccess | follow | pollLookout | dropLookout | dropOwner | surround | pass =>
      exact .still rfl rfl

/-- A sound bus stays sound, whatever happens. -/
theorem sound_run {n : Nat} {w : World ε V} (sound : ∀ b, w.bus = some b → b.Sound n)
    (moves : List (Move ε V)) : ∀ b, (w.run moves).bus = some b → b.Sound n := by
  induction moves generalizing w with
  | nil => exact sound
  | cons m moves ih =>
      refine ih fun b' after => ?_
      cases apply_bused w m with
      | still _ bus => exact sound b' (bus ▸ after)
      | sent s own bus =>
          rw [bus] at after
          obtain ⟨b, before, rfl⟩ := Option.map_eq_some_iff.mp after
          split
          · exact (sound b before).send s
          · exact sound b before
      | closed _ bus =>
          rw [bus] at after
          obtain ⟨b, before, rfl⟩ := Option.map_eq_some_iff.mp after
          exact (sound b before).close
      | heard _ before found _ bus =>
          cases bus.symm.trans after
          have received := (sound _ before).receive found
          split
          · exact received.leave
          · exact received
      | ended _ _ bus =>
          rcases bus with same | leaves
          · exact sound b' (same ▸ after)
          · rw [leaves] at after
            obtain ⟨b, before, rfl⟩ := Option.map_eq_some_iff.mp after
            exact (sound b before).leave

/-- What the refresher hears with a move was waiting in front of what waits after it. -/
theorem unread_step {w : World ε V} {m : Move ε V} (unsent : ∀ s, m ≠ .publish s)
    (running : (w.apply m).refresher.isRunning = true) :
    w.unread = (w.heard? m).toList ++ (w.apply m).unread := by
  cases apply_bused w m with
  | still silent bus =>
      rw [silent, unread, unread, bus]
      rfl
  | sent s own => exact absurd own (unsent s)
  | closed own bus =>
      rw [unread, unread, bus, own]
      cases w.bus <;> rfl
  | @heard b b' received _ before found told bus =>
      rw [told, unread, unread, bus, before]
      show b.queue = _
      rw [Bus.receive?_queue found]
      split
      -- who goes because nothing will come leaves nothing behind
      next closed =>
        subst closed
        rw [Bus.queue_of_closed found]
        rfl
      next => rfl
  | ended _ task =>
      rw [task] at running
      cases running

/-- A refresher that is running in the end was running all along, once the receiving end of the notices is
with it. -/
theorem running_of_run {w : World ε V} (spare : w.hasSpareEnd = false) {moves : List (Move ε V)}
    (running : (w.run moves).refresher.isRunning = true) : w.refresher.isRunning = true := by
  induction moves generalizing w with
  | nil => exact running
  | cons m moves ih =>
      obtain ⟨kept, tended⟩ := apply_tended spare m
      exact tended.running (ih (kept.trans spare) running)

theorem spare_run {w : World ε V} (spare : w.hasSpareEnd = false) (moves : List (Move ε V)) :
    (w.run moves).hasSpareEnd = false := by
  induction moves generalizing w with
  | nil => exact spare
  | cons m moves ih => exact ih ((apply_tended spare m).1.trans spare)

/-- **What the refresher hears is what was left on the bus**, in this order, until something else is
sent. -/
theorem heard_run {w : World ε V} (spare : w.hasSpareEnd = false) {moves : List (Move ε V)}
    (unsent : ∀ s, .publish s ∉ moves) (running : (w.run moves).refresher.isRunning = true) :
    w.unread = w.heard moves ++ (w.run moves).unread := by
  induction moves generalizing w with
  | nil => rfl
  | cons m moves ih =>
      have spare' := (apply_tended spare m).1.trans spare
      have first := unread_step (fun s same => unsent s (same ▸ List.mem_cons_self))
        (running_of_run spare' running)
      have rest := ih spare' (fun s later => unsent s (List.mem_cons_of_mem _ later)) running
      rw [first, rest, ← List.append_assoc]
      rfl

/-- A refresher that does not look at the bus hears nothing. -/
theorem heard_of_unheard {moves : List (Move ε V)} (unheard : .react .signal ∉ moves) (w : World ε V) :
    w.heard moves = [] := by
  induction moves generalizing w with
  | nil => rfl
  | cons m moves ih =>
      have silent : w.heard? m = none := by
        unfold heard?
        split
        next => exact absurd List.mem_cons_self unheard
        next => rfl
      have rest : (w.apply m).heard moves = [] := ih (List.not_mem_of_not_mem_cons unheard) _
      rw [heard, observed, silent]
      exact rest

/-- The signals that are sent along a run, oldest first. -/
def sent (moves : List (Move ε V)) : List Signal :=
  moves.filterMap fun
    | .publish s => some s
    | _ => none

/-- The signals `signals` have been sent on the bus `b`, to a receiver that has not looked since. -/
structure Filled (b : Bus) (signals : List Signal) (w : World ε V) : Prop where
  bus : ∃ b', w.bus = some b' ∧ b'.capacity = b.capacity ∧ b'.isOpen = true ∧ b'.hasReceiver = true
    ∧ b'.queue = Bus.newest b.capacity (b.queue ++ signals)

/-- A signal that is sent is put behind the others. -/
theorem Filled.publish {b : Bus} {signals : List Signal} {w : World ε V} (h : Filled b signals w)
    (s : Signal) : Filled b (signals ++ [s]) (w.apply (.publish s)) := by
  obtain ⟨b', bus, capacity, isOpen, receives, queue⟩ := h.bus
  refine ⟨(b'.send s).1, ?_, ?_⟩
  · show (w.publish s).bus = _
    simp only [World.publish, bus, Option.map_some, isOpen, if_true]
  · rw [Bus.send_eq receives]
    refine ⟨capacity, isOpen, receives, ?_⟩
    show Bus.newest b'.capacity (b'.queue ++ [s]) = _
    rw [capacity, queue, Bus.newest_append, List.append_assoc]

/-- **While the refresher does not look, the bus fills**: it keeps the newest of what it held and of what
is sent. -/
theorem Filled.run {b : Bus} {signals : List Signal} {w : World ε V} (h : Filled b signals w)
    (spare : w.hasSpareEnd = false) {moves : List (Move ε V)} (unclosed : .closeBus ∉ moves)
    (unheard : .react .signal ∉ moves) (running : (w.run moves).refresher.isRunning = true) :
    Filled b (signals ++ sent moves) (w.run moves) := by
  induction moves generalizing w signals with
  | nil =>
      rw [sent, List.filterMap_nil, List.append_nil]
      exact h
  | cons m moves ih =>
      have spare' := (apply_tended spare m).1.trans spare
      have rest {signals' : List Signal} (next : Filled b signals' (w.apply m)) :=
        ih next spare' (List.not_mem_of_not_mem_cons unclosed) (List.not_mem_of_not_mem_cons unheard) running
      -- whatever else happens leaves the bus alone, since the refresher does not look and has not ended
      have quiet (unsent : ∀ s, m ≠ .publish s) (same : sent (m :: moves) = sent moves) :
          Filled b (signals ++ sent (m :: moves)) (w.run (m :: moves)) := by
        rw [same]
        refine rest ⟨?_⟩
        have bus : (w.apply m).bus = w.bus := by
          cases apply_bused w m with
          | still _ bus => exact bus
          | sent s own => exact absurd own (unsent s)
          | closed own => exact absurd own.symm (List.ne_of_not_mem_cons unclosed)
          | heard own => exact absurd own.symm (List.ne_of_not_mem_cons unheard)
          | ended _ task =>
              have still := running_of_run spare' running
              rw [task] at still
              cases still
        rw [bus]
        exact h.bus
      cases m with
      | publish s =>
          have both : signals ++ sent (.publish s :: moves) = (signals ++ [s]) ++ sent moves := by
            rw [List.append_assoc]
            rfl
          rw [both]
          exact rest (h.publish s)
      | _ => exact quiet (fun s same => nomatch same) rfl

/-! ## §3. What becomes of a burst. -/

end World

/-- Whether the program itself brings a trigger with a move. -/
def Move.triggersFor (policy : Freshness) : Move ε V → Bool
  | .flush => true
  | .observe s => policy.triggersOn s
  | _ => false

namespace World

/-- A trigger is brought by the program, or heard on the bus. -/
theorem triggers_eq (w : World ε V) (m : Move ε V) :
    w.triggers m = (m.triggersFor w.cache.staleness.freshness
      || (w.heard? m).any w.cache.staleness.freshness.triggersOn) := by
  cases m with
  | flush | observe => simp [triggers, Move.triggersFor, heard?]
  | react cue =>
      cases cue with
      | notice | timer => rfl
      | signal =>
          unfold triggers heard?
          cases w.refresher with
          | idle | arming | stopped => rfl
          | armed wokenFor deadline =>
              cases w.bus.bind Bus.receive? with
              | none => rfl
              | some found =>
                  obtain ⟨received, bus⟩ := found
                  cases received <;> rfl
  | _ => rfl

/-- The triggers of a run are those that the program brings, and those among the signals that the
refresher hears. -/
theorem never_triggers_run {moves : List (Move ε V)} (unrecorded : .recordSuccess ∉ moves) (w : World ε V) :
    (!w.never triggers moves) = (moves.any (·.triggersFor w.cache.staleness.freshness)
      || (w.heard moves).any w.cache.staleness.freshness.triggersOn) := by
  induction moves generalizing w with
  | nil => rfl
  | cons m moves ih =>
      have alone : .recordSuccess ∉ [m] := by simpa using List.ne_of_not_mem_cons unrecorded
      have policy : (w.apply m).cache.staleness.freshness = w.cache.staleness.freshness :=
        freshness_run alone w
      have rest := ih (List.not_mem_of_not_mem_cons unrecorded) (w.apply m)
      have both : w.heard (m :: moves) = (w.heard? m).toList ++ (w.apply m).heard moves := rfl
      rw [never, Bool.not_and, Bool.not_not, rest, policy, triggers_eq, both, List.any_append, List.any_cons]
      cases w.heard? m <;> simp [Bool.or_assoc, Bool.or_left_comm]

/-- Whether the burst `signals` leaves a trigger on the bus `b`, which keeps the newest signals only. -/
def leavesTrigger (policy : Freshness) (b : Bus) (signals : List Signal) : Bool :=
  (Bus.newest b.capacity (b.queue ++ signals)).any policy.triggersOn

/-- **What the refresher hears of a burst**: the newest of what the bus held and of what is sent before the
refresher looks again, once nothing is left to be taken. -/
theorem heard_burst {w : World ε V} {n : Nat} (sound : ∀ b, w.bus = some b → b.Sound n)
    (spare : w.hasSpareEnd = false) {b : Bus} (bus : w.bus = some b) (isOpen : b.isOpen = true)
    (receives : b.hasReceiver = true) {burst more : List (Move ε V)} (unclosed : .closeBus ∉ burst)
    (unheard : .react .signal ∉ burst) (unsent : ∀ s, .publish s ∉ more)
    (running : ((w.run burst).run more).refresher.isRunning = true)
    (drained : ((w.run burst).run more).hasCue .signal = false) :
    w.heard (burst ++ more) = Bus.newest b.capacity (b.queue ++ sent burst) := by
  have spare' : (w.run burst).hasSpareEnd = false := spare_run spare burst
  have filled : Filled b ([] ++ sent burst) (w.run burst) := by
    refine Filled.run ⟨b, bus, rfl, isOpen, receives, ?_⟩ spare unclosed unheard
      (running_of_run spare' running)
    rw [List.append_nil, Bus.newest_of_le (sound b bus).bounded]
  obtain ⟨b', bus', _, _, _, queue⟩ := filled.bus
  have silent : w.heard burst = [] := heard_of_unheard unheard w
  -- what has been heard and what is left make up the bus as it was after the burst; nothing is left
  have conserved := heard_run spare' unsent running
  have nothing : ((w.run burst).run more).unread = [] := by
    have sounds := sound_run (sound_run sound burst) more
    cases left : ((w.run burst).run more).bus with
    | none => rw [unread, left, Option.elim_none]
    | some b'' =>
        rw [unread, left, Option.elim_some]
        refine (sounds b'' left).queue_of_drained ?_
        simpa [hasCue, left] using drained
  rw [nothing, List.append_nil, unread, bus', Option.elim_some, queue, List.nil_append] at conserved
  rw [heard] at silent conserved ⊢
  rw [observed_append, silent, ← conserved, List.nil_append]

/-- **When the value is due once a burst has been handled.**  Take any run of a cached value that
refreshes itself, on a bus of any capacity that is still open, and let signals be sent, any number of them,
before the refresher looks at the bus again.  Then let any moves follow that send nothing, until nothing is
left on the bus, the refresher still running; let no success be recorded meanwhile.  Now the value is due
exactly if it was before by a trigger, or is by its age; or if the program brought a trigger meanwhile; or
if one of the signals that are left when the bus keeps the newest of what it held and of the burst is of
the policy.  If the burst fits on the bus these are all of it.  A value that is due in the last way stays
due until the next success. -/
theorem due_after_burst (settings : Settings) (n : Nat) (surroundings : ε)
    (moves burst more : List (Move ε V)) :
    let w := (selfRefreshing settings (some (.new n)) surroundings : World ε V).run moves
    let policy := w.cache.staleness.freshness
    let q := (w.run burst).run more
    ∀ b, w.bus = some b → b.isOpen = true → b.hasReceiver = true →
      .closeBus ∉ burst → .react .signal ∉ burst → (∀ s, .publish s ∉ more) →
      .recordSuccess ∉ burst ++ more → w.never storesValue (burst ++ more) = true →
      q.refresher.isRunning = true → q.hasCue .signal = false →
        q.cache.staleness.isDue q.now = (w.cache.staleness.isPending
            || (burst ++ more).any (·.triggersFor policy) || leavesTrigger policy b (sent burst)
            || q.cache.staleness.isAged q.now)
          ∧ (b.queue.length + (sent burst).length ≤ (Bus.new n).capacity →
              Bus.newest b.capacity (b.queue ++ sent burst) = b.queue ++ sent burst)
          ∧ (leavesTrigger policy b (sent burst) = true → ∀ later, .recordSuccess ∉ later →
              q.never storesValue later = true → (q.run later).Refetches) := by
  intro w policy q b bus isOpen receives unclosed unheard unsent unrecorded kept running drained
  have reachable : Reachable w := (Reachable.initial (.selfRefreshing _ _ _)).run moves
  have sound : ∀ b, w.bus = some b → b.Sound n :=
    sound_run (fun b same => Option.some.inj same ▸ .new n) moves
  have spare : w.hasSpareEnd = false := spare_run rfl moves
  have pending : q.cache.staleness.isPending = (w.cache.staleness.isPending
      || (burst ++ more).any (·.triggersFor policy) || leavesTrigger policy b (sent burst)) := by
    -- no success came in between, so the book has gained the triggers of the run and lost none
    have book := (continues_run unrecorded kept).isPending
    rw [never_triggers_run unrecorded w,
      heard_burst sound spare bus isOpen receives unclosed unheard unsent running drained, run_append,
      ← Bool.or_assoc] at book
    exact book
  refine ⟨?_, fun fits => ?_, fun left later silent kept => ?_⟩
  · rw [Staleness.isDue_eq, pending]
  · rw [← (sound b bus).capacity, ← List.length_append] at fits
    exact Bus.newest_of_le fits
  · refine (((reachable.run _).run more).run later).refetches ?_
    rw [(continues_run silent kept).isPending, pending, left, Bool.or_true, Bool.true_or]

/-- A value is fetched and read; the refresher takes the notice of the success, and sets its alarm. -/
def readOnce : List (Move Unit Nat) :=
  [.bind counting, .openReader .once .read, .reader 0, .reader 0, .arm, .attempt 1, .attempt 1, .attempt 1,
    .attempt 1, .attempt 1, .reader 0, .react .notice, .arm]

/-- The refresher takes two things from the bus. -/
def takenTwice : List (Move Unit Nat) := [.react .signal, .arm, .react .signal, .arm]

theorem due_after_burst_fits :
    let w : World Unit Nat :=
      (selfRefreshing ⟨.periodicAndLogin 60000, .unpaced⟩ (some (.new 2)) ()).run readOnce
    let q := (w.run ([.loggedIn, .foreground].map .publish)).run takenTwice
    w.cache.staleness.isDue w.now = false ∧ w.bus = some (.new 2) ∧ q.hasCue .signal = false
      ∧ (q.run [.pass 1000]).Refetches := by
  have h := due_after_burst ⟨.periodicAndLogin 60000, .unpaced⟩ 2 () readOnce
    ([.loggedIn, .foreground].map .publish) takenTwice (.new 2) (by decide) rfl rfl (by simp) (by simp)
    (by simp [takenTwice]) (by simp [takenTwice]) rfl rfl rfl
  exact ⟨rfl, by decide, rfl, h.2.2 rfl [.pass 1000] (by simp) rfl⟩

/-- The bus keeps one signal.  A login is pushed out by another signal before the refresher runs; when it
has taken all there is, the value is not due, and the next read is given the held one. -/
theorem login_pushed_out :
    let w : World Unit Nat :=
      (selfRefreshing ⟨.periodicAndLogin 60000, .unpaced⟩ (some (.new 1)) ()).run readOnce
    let q := (w.run ([.loggedIn, .foreground].map .publish)).run takenTwice
    let r := q.run [.openReader .once .read, .reader 1, .reader 1]
    w.cache.staleness.freshness.triggersOn .loggedIn = true ∧ q.hasCue .signal = false
      ∧ q.refresher.isRunning = true ∧ q.cache.staleness.lastSuccess = w.cache.staleness.lastSuccess
      ∧ q.cache.staleness.isDue q.now = false ∧ r.itemsTo 1 = [.value ⟨10, 1, 0⟩]
      ∧ r.calls = w.calls := by
  decide

end World

end SingleFlight
