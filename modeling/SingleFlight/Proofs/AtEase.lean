/-
  SingleFlight.Proofs.AtEase — a signal, and the read that follows it, where nothing else goes on.

  A world is at ease when nobody reads, no attempt is on its way, and the
  refresher is at work but has nothing to do.  A signal that is sent there is
  heard by the refresher alone.  Whatever the order of the steps, what is left in
  the end is the same world, but that a trigger is pending if the signal is one.
  A read that follows is then the only one to take a step until it has looked:
  it is given the held value, or it launches the one attempt that is on its way
  from there on.

  Main results:
    * `IsSettled.vacant` — where nobody can take a step and no attempt is on its way, nobody reads.
    * `AtEase.signalled` — what a signal leaves.
    * `AtEase.looks` — a read comes to look before anything else happens.
    * `AtEase.looked`, `AtEase.calls` — what its look comes to, and what it makes the source do.
-/
import SingleFlight.Proofs.Cancellation
import SingleFlight.Proofs.Conservation
import SingleFlight.Proofs.Rounds
import SingleFlight.Proofs.Throttling

namespace SingleFlight

variable {ε V : Type}

/-! ## §1. The bus. -/

namespace Bus

variable {b b' : Bus} {received : Received}

/-- What the receiver takes leaves the ends of the channel as they are, and it learns that nothing will come
only from a channel that is closed. -/
theorem receive?_frame (found : b.receive? = some (received, b')) :
    b'.isOpen = b.isOpen ∧ b'.hasReceiver = b.hasReceiver ∧ b'.capacity = b.capacity
      ∧ (received = .closed → b.isOpen = false) := by
  unfold receive? at found
  split at found
  · split at found
    · cases found
      exact ⟨rfl, rfl, rfl, fun h => nomatch h⟩
    · split at found
      · cases found
        exact ⟨rfl, rfl, rfl, fun h => nomatch h⟩
      · split at found
        next => cases found
        next closed =>
          cases found
          exact ⟨rfl, rfl, rfl, fun _ => Bool.eq_false_iff.mpr closed⟩
  · cases found

/-- Somebody sends on the channel, somebody listens, and there is room. -/
structure IsLive (b : Bus) : Prop where
  isOpen : b.isOpen = true
  hasReceiver : b.hasReceiver = true
  capacity : 0 < b.capacity

theorem IsLive.send (h : b.IsLive) (s : Signal) : (b.send s).1.IsLive := by
  rw [send_eq h.hasReceiver]
  exact ⟨h.isOpen, h.hasReceiver, h.capacity⟩

theorem IsLive.receive (h : b.IsLive) (found : b.receive? = some (received, b')) :
    b'.IsLive ∧ received ≠ .closed := by
  obtain ⟨isOpen, receiver, capacity, closed⟩ := receive?_frame found
  refine ⟨⟨isOpen.trans h.isOpen, receiver.trans h.hasReceiver, capacity ▸ h.capacity⟩, fun none => ?_⟩
  have gone := closed none
  rw [h.isOpen] at gone
  cases gone

theorem IsLive.heardOut_eq (h : b.IsLive) : b.heardOut = { b with queue := [], missed := 0 } := by
  rw [heardOut, if_pos h.hasReceiver, if_pos h.isOpen]

/-- A signal that is sent on an empty channel is all that there is to hear. -/
theorem IsLive.heard_of_send (h : b.IsLive) (none : b.receive? = none) (s : Signal) :
    (b.send s).1.audible = [s] ∧ (b.send s).1.heardOut = b := by
  obtain ⟨heardOut, empty, _⟩ := eq_heardOut none
  rw [audible, if_pos h.hasReceiver] at empty
  have room : ([] ++ [s]).length ≤ b.capacity := h.capacity
  have kept : newest b.capacity (b.queue ++ [s]) = [s] := by
    rw [empty]
    exact newest_of_le room
  refine ⟨?_, ?_⟩
  · rw [send_eq h.hasReceiver, kept]
    exact if_pos h.hasReceiver
  · refine Eq.trans ?_ heardOut
    rw [(h.send s).heardOut_eq, h.heardOut_eq, send_eq h.hasReceiver]

end Bus

namespace World

variable {w : World ε V} {m : Move ε V}

/-- As long as the refresher runs, it listens on a channel on which somebody sends. -/
def Listens (w : World ε V) : Prop :=
  w.refresher.isRunning = true → ∃ b, w.bus = some b ∧ b.IsLive

theorem Listens.run {w : World ε V} (h : Listens w) (spare : w.hasSpareEnd = false)
    {moves : List (Move ε V)} (unclosed : .closeBus ∉ moves) : Listens (w.run moves) := by
  induction moves generalizing w with
  | nil => exact h
  | cons m moves ih =>
      obtain ⟨kept, tended⟩ := apply_tended spare m
      refine ih (fun running => ?_) (kept.trans spare) (List.not_mem_of_not_mem_cons unclosed)
      obtain ⟨b, before, live⟩ := h (tended.running running)
      cases apply_bused w m with
      | still _ bus => exact ⟨b, bus.trans before, live⟩
      | sent s _ bus =>
          rw [before, Option.map_some, if_pos live.isOpen] at bus
          exact ⟨_, bus, live.send s⟩
      | closed own => exact absurd own (List.ne_of_not_mem_cons unclosed).symm
      | heard _ before' found _ bus =>
          cases before'.symm.trans before
          obtain ⟨live', goesOn⟩ := live.receive found
          rw [if_neg goesOn] at bus
          exact ⟨_, bus, live'⟩
      | ended _ task =>
          rw [task] at running
          cases running

/-! ## §2. Readers that read once. -/

end World

namespace Reader

/-- A reader of a single value; it never parks. -/
def IsSingle (r : Reader) : Prop := r.reading.follows = false ∧ r.stage ≠ .parked

theorem IsSingle.step {r : Reader} (h : r.IsSingle) (c : Cache ε V) (now : Instant) :
    (r.step c now).2.1.IsSingle := by
  refine ⟨(congrArg Reading.follows (r.reading_step c now)).trans h.1, fun parked => ?_⟩
  rcases parked_of_step parked with ⟨before, _⟩ | ⟨_, _, follows, _⟩
  · exact h.2 before
  · cases h.1.symm.trans follows

theorem isSingle_new {reading : Reading} (single : reading.follows = false) : (new reading).IsSingle := by
  refine ⟨single, ?_⟩
  unfold new
  split <;> exact fun parked => nomatch parked

end Reader

namespace World

variable {w : World ε V}

/-- Everybody reads a single value, in a task of its own. -/
def ReadsOnce (w : World ε V) : Prop := ∀ s ∈ w.seats, s.role ≠ .polled ∧ s.reader.IsSingle

theorem ReadsOnce.run {w : World ε V} (h : ReadsOnce w) {moves : List (Move ε V)}
    (opens : ∀ reading role, .openReader reading role ∈ moves → role ≠ .polled ∧ reading.follows = false) :
    ReadsOnce (w.run moves) := by
  induction moves generalizing w with
  | nil => exact h
  | cons m moves ih =>
      refine ih ?_ fun reading role later => opens reading role (List.mem_cons_of_mem _ later)
      refine (apply_step w m).seats_forall (P := (· ≠ .polled)) (Q := Reader.IsSingle) h
        (fun reading role own => ?_) (by decide) fun r c now single => single.step c now
      obtain ⟨tasked, single⟩ := opens reading role (own ▸ List.mem_cons_self)
      exact ⟨tasked, Reader.isSingle_new single⟩

/-- Nobody reads, and no attempt is on its way. -/
structure Vacant (w : World ε V) : Prop where
  unread : w.seats = []
  unfetched : w.cache.dispatcher.running = []

/-- **Where nobody can take a step and no attempt is on its way, nobody reads**, if all want a single value. -/
theorem IsSettled.vacant (settled : w.IsSettled) (reachable : Reachable w) (once : ReadsOnce w)
    (running : w.cache.dispatcher.running = []) : Vacant w := by
  refine ⟨List.eq_nil_iff_forall_not_mem.mpr fun s seated => ?_, running⟩
  obtain ⟨tasked, single⟩ := once s seated
  have unready := settled.reader reachable.attended seated tasked
  -- whoever waits for an attempt waits for one on its way, or one that has answered
  have answered {k : Nat} (awaits : s.reader.awaits? = some k) : w.cache.dispatcher.hasAnswered k = true := by
    rcases reachable.awaited.seats s seated k awaits with answered | ⟨a, listed, _⟩
    · exact answered
    · rw [running] at listed
      cases listed
  cases stage : s.reader.stage with
  | expecting k | waiting k =>
      have answered := answered (show s.reader.awaits? = some k by rw [Reader.awaits?, stage])
      rw [Reader.isReady, stage] at unready
      cases answered.symm.trans unready
  | parked => exact single.2 stage
  | subscribing | looking | demanding | closing | «over» | crashed =>
      rw [Reader.isReady, stage] at unready
      cases unready

/-! ## §3. Steps that change nothing. -/

/-- The moves by which actors take their steps, one after another. -/
def turns (w : World ε V) : List Actor → List (Move ε V)
  | [] => []
  | a :: actors => w.nextMove a :: (w.apply (w.nextMove a)).turns actors

theorem run_turns_cons (a : Actor) (actors : List Actor) : w.run (w.turns (a :: actors))
    = (w.apply (w.nextMove a)).run ((w.apply (w.nextMove a)).turns actors) := rfl

/-- The refresher does its chores. -/
theorem isChore_refresher (w : World ε V) : (w.nextMove .refresher).isChore = true := by
  dsimp only [nextMove]
  split <;> rfl

/-- A chore touches neither the readers nor the attempts. -/
theorem chore_frame (w : World ε V) {m : Move ε V} (chore : m.isChore = true) :
    (w.apply m).now = w.now ∧ (w.apply m).cache.dispatcher = w.cache.dispatcher
      ∧ (w.apply m).seats = w.seats := by
  cases m with
  | arm =>
      have ha : Aside .arm w w.armRefresher := aside_armRefresher w
      exact ⟨ha.now, ha.dispatcher, ha.seats⟩
  | react cue =>
      show (w.react cue).now = w.now ∧ (w.react cue).cache.dispatcher = w.cache.dispatcher
        ∧ (w.react cue).seats = w.seats
      unfold react
      split
      next =>
        cases cue with
        | notice =>
            dsimp only
            split
            next notice _ _ => cases notice <;> exact ⟨rfl, rfl, rfl⟩
            next => exact ⟨rfl, rfl, rfl⟩
        | signal =>
            dsimp only
            split
            next received _ _ => cases received <;> exact ⟨rfl, rfl, rfl⟩
            next => exact ⟨rfl, rfl, rfl⟩
        | timer =>
            dsimp only
            split <;> exact ⟨rfl, rfl, rfl⟩
      next => exact ⟨rfl, rfl, rfl⟩
  | _ => cases chore

/-- Nobody moves the clock with a step of its own. -/
theorem now_nextMove (w : World ε V) (a : Actor) : (w.apply (w.nextMove a)).now = w.now := by
  cases a with
  | attempt n => exact now_attempt w n
  | reader key =>
      cases seated : w.seat? key with
      | none => rw [nextMove, apply_unseated seated]
      | some seat => exact (advanceReader_advanced seated).now
  | refresher => exact (w.chore_frame w.isChore_refresher).1

theorem now_run_turns (w : World ε V) (actors : List Actor) : (w.run (w.turns actors)).now = w.now := by
  induction actors generalizing w with
  | nil => rfl
  | cons a actors ih => exact (ih (w.apply (w.nextMove a))).trans (w.now_nextMove a)

theorem isGradual_turns (w : World ε V) (actors : List Actor) : w.isGradual (w.turns actors) = true := by
  induction actors generalizing w with
  | nil => rfl
  | cons a actors ih =>
      refine isGradual_cons.mpr ⟨?_, ih (w.apply (w.nextMove a))⟩
      simp only [isGradual, now_nextMove, decide_true, Bool.true_or, Bool.and_self]

/-- A refresher that is not ready does nothing. -/
theorem apply_unready (unready : w.isRefresherReady = false) : w.apply (w.nextMove .refresher) = w := by
  unfold isRefresherReady at unready
  cases task : w.refresher with
  | idle | stopped => simp [nextMove, apply, armRefresher, task]
  | arming => simp [task] at unready
  | armed wokenFor alarm =>
      have silent : w.nextCue = none := by simpa [task] using unready
      simp [nextMove, apply, armRefresher, task, silent]

theorem Vacant.apply_reader (h : Vacant w) (key : Nat) : w.apply (w.nextMove (.reader key)) = w :=
  apply_unseated (by rw [seat?, h.unread]; rfl)

theorem Vacant.apply_attempt (h : Vacant w) (n : Nat) : w.apply (w.nextMove (.attempt n)) = w :=
  apply_absent (by rw [Dispatcher.attempt?, h.unfetched]; rfl)

/-- The refresher lets nobody in. -/
theorem Vacant.after {w' : World ε V} {reacted : Bool} (h : Vacant w) (round : Round w w' reacted) :
    Vacant w' := by
  have left := round.attended .idle 0
  exact ⟨(congrArg (·.seats) left).trans h.unread,
    (congrArg (·.cache.dispatcher.running) left).trans h.unfetched⟩

/-- Where nobody else is, the refresher alone takes steps. -/
theorem OnDuty.run_turns (duty : w.OnDuty) (vacant : Vacant w) (actors : List Actor) :
    ∃ chores : List (Move ε V), chores.all Move.isChore = true ∧ w.run (w.turns actors) = w.run chores := by
  induction actors generalizing w with
  | nil => exact ⟨[], rfl, rfl⟩
  | cons a actors ih =>
      rw [run_turns_cons]
      cases a with
      | refresher =>
          have chore := w.isChore_refresher
          have round := duty.round chore
          obtain ⟨chores, all, same⟩ := ih (duty.after round) (vacant.after round)
          exact ⟨w.nextMove .refresher :: chores, by rw [List.all_cons, chore, all]; rfl, same⟩
      | reader key =>
          rw [vacant.apply_reader key]
          exact ih duty vacant
      | attempt n =>
          rw [vacant.apply_attempt n]
          exact ih duty vacant

/-! ## §4. A signal. -/

/-- The refresher is at work but has nothing to do, nobody reads, and no attempt is on its way. -/
structure AtEase (w : World ε V) : Prop extends OnDuty w, Vacant w where
  rests : w.isRefresherReady = false
  handle : w.hasHandle = true

/-- The world `q`, at ease, is the world `w` but for the refresher's own state, the mark on the cell, and whether
a trigger is pending. -/
structure Heeded (w q : World ε V) (signalPending : Bool) : Prop where
  ease : AtEase q
  same : q = w.leaving q.refresher q.cache.cell.version w.cache.cell.phase w.cache.cell.counters.invalidations
    signalPending w.bus

/-- A world at ease stays as it is as long as nothing comes from outside. -/
theorem AtEase.undisturbed (h : AtEase w) (actors : List Actor) : w.run (w.turns actors) = w := by
  induction actors with
  | nil => rfl
  | cons a actors ih =>
      have still : w.apply (w.nextMove a) = w := by
        cases a with
        | refresher => exact apply_unready h.rests
        | reader key => exact h.toVacant.apply_reader key
        | attempt n => exact h.toVacant.apply_attempt n
      rw [run_turns_cons, still, ih]

theorem AtEase.heeded_self (h : AtEase w) : Heeded w w w.cache.staleness.signalPending := by
  obtain ⟨_, _, _, notices, _⟩ := h.rest h.rests
  refine ⟨h, ?_⟩
  rw [leaving, ← notices]

/-- Nothing can be seen of a signal but whether the value is due. -/
theorem Heeded.frame {w q : World ε V} {signalPending : Bool} (h : Heeded w q signalPending) :
    q.now = w.now ∧ q.calls = w.calls ∧ q.cache.dispatcher = w.cache.dispatcher
      ∧ q.cache.cell.phase = w.cache.cell.phase ∧ q.cache.cell.counters = w.cache.cell.counters
      ∧ q.cache.staleness.lastSuccess = w.cache.staleness.lastSuccess := by
  rw [h.same]
  exact ⟨rfl, rfl, rfl, rfl, rfl, rfl⟩

/-- A value that is not due is due after a signal just if that is a trigger. -/
theorem Heeded.isDue {w q : World ε V} {signalPending : Bool} (h : Heeded w q signalPending)
    (fresh : w.cache.staleness.isDue w.now = false) : q.cache.staleness.isDue q.now = signalPending := by
  rw [Staleness.isDue, Bool.or_eq_false_iff, Bool.or_eq_false_iff] at fresh
  rw [h.same]
  show (signalPending || w.cache.staleness.flushPending || _) = signalPending
  rw [fresh.1.2, Bool.or_false]
  exact (congrArg (signalPending || ·) fresh.2).trans (Bool.or_false _)

/-- **A signal is heard, and makes the value due if it is a trigger**; nothing else comes of it, in whatever
order the steps are taken. -/
theorem AtEase.signalled (h : AtEase w) (listens : Listens w) (s : Signal) (actors : List Actor) :
    let sent := w.apply (.publish s)
    let q := sent.run (sent.turns actors)
    q.isRefresherReady = false → Heeded w q (w.cache.staleness.signalPending || w.triggersOn s) := by
  intro sent q rests
  obtain ⟨b, bus, live⟩ := listens h.running
  obtain ⟨_, _, _, notices, silent, _⟩ := h.rest h.rests
  obtain ⟨audible, heardOut⟩ := live.heard_of_send (silent b bus) s
  have onBus : sent.bus = some (b.send s).1 := by
    show (w.bus.map fun b => if b.isOpen then (b.send s).1 else b) = _
    rw [bus, Option.map_some, if_pos live.isOpen]
  have duty : sent.OnDuty := ⟨h.running, h.spare, h.listening, h.named⟩
  -- what the refresher has done once it rests is settled before it does it: it has heard out the bus
  have left (refresher : Refresher) (version : Nat) : sent.attended refresher version
      = w.leaving refresher version w.cache.cell.phase w.cache.cell.counters.invalidations
        (w.cache.staleness.signalPending || w.triggersOn s) w.bus := by
    have untold : sent.cache.staleness.notices = [] := notices
    rw [World.attended, World.audible, onBus, untold, Option.map_some, Option.elim_some, audible, heardOut, ← bus]
    simp only [List.not_mem_nil, if_false, List.count_nil, Nat.add_zero, List.any_cons, List.any_nil,
      Bool.or_false]
    rfl
  obtain ⟨chores, all, same⟩ := duty.run_turns ⟨h.unread, h.unfetched⟩ actors
  have duty' : q.OnDuty := by
    show (sent.run (sent.turns actors)).OnDuty
    rw [same]
    exact (duty.rounds all).duty
  have ends := duty.ends all (same ▸ rests)
  rw [← same, left] at ends
  refine ⟨⟨duty', ⟨?_, ?_⟩, rests, ?_⟩, ends⟩
  · exact (congrArg (·.seats) ends).trans h.unread
  · exact (congrArg (·.cache.dispatcher.running) ends).trans h.unfetched
  · exact (congrArg (·.hasHandle) ends).trans h.handle

/-! ## §5. A read. -/

/-- Where the refresher rests and no attempt is on its way, nobody acts but a reader that sits there alone. -/
theorem run_turns_until {v : World ε V} {key : Nat} (rests : v.isRefresherReady = false)
    (unfetched : v.cache.dispatcher.running = []) (only : ∀ s ∈ v.seats, s.key = key) (actors : List Actor) :
    v.run (v.turns actors) = v
      ∨ ∃ rest, v.run (v.turns actors) = (v.apply (.reader key)).run ((v.apply (.reader key)).turns rest) := by
  -- the world does not change up to the reader's first turn, so the induction stays in `v`
  induction actors with
  | nil => exact Or.inl rfl
  | cons a actors ih =>
      rw [run_turns_cons]
      have still (same : v.apply (v.nextMove a) = v) : (v.apply (v.nextMove a)).run
          ((v.apply (v.nextMove a)).turns actors) = v.run (v.turns actors) := by rw [same]
      cases a with
      | refresher => rw [still (apply_unready rests)]; exact ih
      | attempt n =>
          rw [still (apply_absent (by rw [Dispatcher.attempt?, unfetched]; rfl))]
          exact ih
      | reader other =>
          by_cases own : other = key
          · exact Or.inr ⟨actors, by rw [own]; rfl⟩
          · rw [still (apply_unseated ?_)]
            · exact ih
            · exact List.find?_eq_none.mpr fun s seated same => own ((eq_of_beq same).symm.trans (only s seated))

/-- A read of a single value is asked for, and looks. -/
def lookMoves (w : World ε V) : List (Move ε V) :=
  [.openReader .once .read, .reader w.nextKey, .reader w.nextKey]

/-- A read that is asked for, when it is about to look. -/
def onlooker (w : World ε V) : Seat := ⟨w.nextKey, .read, { Reader.new .once with stage := .looking }⟩

/-- The world in which a read that was asked for has shown interest. -/
def attentive (w : World ε V) : World ε V := { w with seats := [w.onlooker], nextKey := w.nextKey + 1 }

theorem seat?_attentive (w : World ε V) : w.attentive.seat? w.onlooker.key = some w.onlooker := by
  simp [seat?, attentive]

theorem AtEase.interested (h : AtEase w) (reachable : Reachable w) {content : Sourced V}
    (holding : w.cache.cell.phase = .holding (.concealed content)) :
    w.run [.openReader .once .read, .reader w.nextKey] = w.attentive := by
  have same : w.cache.subscribe = w.cache := by rw [Cache.subscribe, holding]
  rw [reachable.attended.asked .read h.handle, same, h.unread]
  rfl

/-- **A read that is asked for comes to look before anything else happens**, in whatever order the steps are
taken. -/
theorem AtEase.looks (h : AtEase w) (reachable : Reachable w) {content : Sourced V}
    (holding : w.cache.cell.phase = .holding (.concealed content)) {actors : List Actor} :
    let asked := w.apply (.openReader .once .read)
    let looked := w.run w.lookMoves
    (asked.run (asked.turns actors)).IsSettled →
      ∃ rest, asked.run (asked.turns actors) = looked.run (looked.turns rest) := by
  intro asked looked settled
  have opened : asked = { w with
      seats := [⟨w.nextKey, .read, .new .once⟩], nextKey := w.nextKey + 1 } := by
    show w.openReader .once .read = _
    rw [openReader, if_pos h.handle, h.unread]
    rfl
  have interested := h.interested reachable holding
  -- whoever is to show interest, or to look, is ready to
  have goes {v : World ε V} (reachable : Reachable v) {seat : Seat} {actors : List Actor}
      (sits : v.seats = [seat]) (key : seat.key = w.nextKey) (tasked : seat.role = .read)
      (ready : seat.reader.isReady v.cache = true) (rests : v.isRefresherReady = false)
      (unfetched : v.cache.dispatcher.running = []) (settled : (v.run (v.turns actors)).IsSettled) :
      ∃ rest, v.run (v.turns actors)
        = (v.apply (.reader w.nextKey)).run ((v.apply (.reader w.nextKey)).turns rest) := by
    refine (run_turns_until rests unfetched (fun s seated => ?_) actors).resolve_left fun same => ?_
    · rw [sits] at seated
      rw [List.mem_singleton.mp seated, key]
    · have seated : seat ∈ v.seats := sits ▸ List.mem_singleton_self _
      rw [same] at settled
      cases (settled.reader reachable.attended seated (by rw [tasked]; decide)).symm.trans ready
  obtain ⟨later, shown⟩ := goes (v := asked) (reachable.move _) (by rw [opened]) rfl rfl rfl
    (by rw [opened]; exact h.rests) (by rw [opened]; exact h.unfetched) settled
  rw [shown] at settled ⊢
  exact goes (v := w.run [.openReader .once .read, .reader w.nextKey]) (reachable.run _) (by rw [interested]; rfl)
    rfl rfl rfl (by rw [interested]; exact h.rests) (by rw [interested]; exact h.unfetched) settled

/-! ## §6. What comes of it. -/

/-- A step of an attempt launches nobody. -/
theorem Turn.fetches {w w' : World ε V} {a : Attempt ε V} {left : Option (Attempt ε V)} (t : Turn w a w' left) :
    w'.cache.cell.counters.fetches = w.cache.cell.counters.fetches := by
  cases t <;> rfl

/-- Everybody who reads wants a single value, and waits for an attempt or is through. -/
def AllCommitted (w : World ε V) : Prop := ∀ s ∈ w.seats, s.reader.isCommitted = true

/-- **Where everybody is committed nobody is launched**, until somebody else comes to read. -/
theorem AllCommitted.apply (h : AllCommitted w) {m : Move ε V}
    (unopened : ∀ reading role, m ≠ .openReader reading role) :
    AllCommitted (w.apply m)
      ∧ (w.apply m).cache.cell.counters.fetches = w.cache.cell.counters.fetches := by
  have s := apply_step w m
  refine ⟨fun r hr => ?_, ?_⟩
  · exact (s.seats_forall (P := fun _ => True) (Q := (·.isCommitted = true)) (fun r hr => ⟨trivial, h r hr⟩)
      (fun reading role own => absurd own (unopened reading role)) trivial
      (fun r c now committed => (Reader.step_of_committed committed c now).2) r hr).2
  · generalize w.apply m = w' at s ⊢
    cases s with
    | aside ha | invalidate ha | poke ha | dropReader ha => exact congrArg (·.counters.fetches) ha.cell
    | pass | bind | openReader | follow => rfl
    | subscribe =>
        show w.cache.subscribe.cell.counters.fetches = _
        unfold Cache.subscribe
        split <;> rfl
    | attempt _ _ t => exact t.fetches
    | @reader seat _ _ seated ha =>
        rw [ha.cell, (Reader.step_of_committed (h seat (seat?_mem seated).1) w.cache w.now).1]

theorem AllCommitted.run (h : AllCommitted w) {moves : List (Move ε V)}
    (unopened : ∀ reading role, .openReader reading role ∉ moves) :
    (w.run moves).cache.cell.counters.fetches = w.cache.cell.counters.fetches := by
  induction moves generalizing w with
  | nil => rfl
  | cons m moves ih =>
      obtain ⟨committed, same⟩ := h.apply fun reading role own => unopened reading role (own ▸ List.mem_cons_self)
      exact (ih committed fun reading role => List.not_mem_of_not_mem_cons (unopened reading role)).trans same

/-- A step of a reader changes nobody's role. -/
theorem Advanced.role_eq {v : World ε V} {seat s : Seat} {out : Cache ε V × Reader × Option (Item V)}
    (h : Advanced w seat out v) (listed : s ∈ v.seats) : ∃ s₀ ∈ w.seats, s₀.role = s.role := by
  rcases h.seats s listed with ⟨old, _⟩ | ⟨_, _, ⟨s₀, old, _, role⟩, _⟩
  · exact ⟨s, old, rfl⟩
  · exact ⟨s₀, old, role⟩

/-- What a read that was asked for where everything is at ease has come to with its look. -/
structure Looked (content : Sourced V) (w looked : World ε V) : Prop where
  committed : AllCommitted looked
  tasked : ∀ s ∈ looked.seats, s.role = .read
  calls : looked.calls = w.calls
  /-- It is given the held value, if that is not due. -/
  served : w.cache.staleness.isDue w.now = false →
    looked.itemsTo w.nextKey = [.value content] ∧ looked.cache.dispatcher.running = []
  /-- If it is due, an attempt is launched that will call the source at its start, if the clock can name that. -/
  launched : w.cache.staleness.isDue w.now = true →
    (w.now.later? (w.cache.dispatcher.holdBack w.now)).isSome = true →
      looked.cache.dispatcher.running = [w.cache.dispatcher.newest w.now]
        ∧ OnTime (w.cache.dispatcher.latest + 1) w.nextStart looked
  /-- Otherwise the reader crashes. -/
  crashed : w.cache.staleness.isDue w.now = true →
    (w.now.later? (w.cache.dispatcher.holdBack w.now)).isSome = false →
      looked.itemsTo w.nextKey = [.crashed] ∧ looked.cache.dispatcher.running = []

section Look

variable {content : Sourced V} (h : AtEase w) (reachable : Reachable w)
  (holding : w.cache.cell.phase = .holding (.concealed content))
include h reachable holding

theorem AtEase.attentive : Reachable w.attentive := h.interested reachable holding ▸ reachable.run _

/-- The read takes its look, and what the cell gives it. -/
theorem AtEase.advanced :
    Advanced w.attentive w.onlooker ((w.cache.access w.now none).1,
      { w.onlooker.reader with seen := w.cache.cell.version }.receive (w.cache.access w.now none).2)
      (w.run w.lookMoves) := by
  show Advanced _ _ _ ((w.run [.openReader .once .read, .reader w.nextKey]).apply (.reader w.nextKey))
  rw [h.interested reachable holding]
  exact advanceReader_advanced w.seat?_attentive

theorem AtEase.itemsTo_looked : (w.run w.lookMoves).itemsTo w.nextKey
    = ({ w.onlooker.reader with seen := w.cache.cell.version }.receive (w.cache.access w.now none).2).2.toList := by
  have reached := h.attentive reachable holding
  have listed := (seat?_mem w.seat?_attentive).1
  refine ((h.advanced reachable holding).itemsTo reached.attended listed).trans ?_
  rw [reached.unserved.single _ listed rfl rfl, List.append_nil]
  rfl

theorem AtEase.committed_looked : AllCommitted (w.run w.lookMoves) := by
  intro s hs
  rcases (h.advanced reachable holding).seats s hs with ⟨old, other⟩ | ⟨_, reader, _⟩
  · exact absurd (congrArg Seat.key (List.mem_singleton.mp old)) other
  · have came : (w.cache.access w.now none).2 ≠ .nothing := by
      rw [access_of_holding reachable.coherent.sound holding w.now]
      split <;> (intro withheld; cases withheld)
    rw [reader]
    exact Reader.isCommitted_of_evaluation rfl (evaluation?_looking (r := w.onlooker.reader) rfl came)

/-- What is not due is given. -/
theorem AtEase.looked_served (fresh : w.cache.staleness.isDue w.now = false) :
    (w.run w.lookMoves).itemsTo w.nextKey = [.value content]
      ∧ (w.run w.lookMoves).cache.dispatcher.running = [] := by
  have looks := access_of_holding reachable.coherent.sound holding w.now
  rw [if_neg (by simp [fresh])] at looks
  rw [h.itemsTo_looked reachable holding, (h.advanced reachable holding).dispatcher, looks]
  exact ⟨rfl, h.unfetched⟩

/-- If the value is due, the look is a launch. -/
theorem AtEase.looked_due (due : w.cache.staleness.isDue w.now = true) {left : Cache ε V} {t : Ticket}
    (launch : w.cache.launch w.now = (left, t)) :
    (w.run w.lookMoves).cache.dispatcher = left.dispatcher
      ∧ (w.run w.lookMoves).itemsTo w.nextKey
        = ({ w.onlooker.reader with seen := w.cache.cell.version }.receive (.ticket t : Access V)).2.toList := by
  have looks := access_of_holding reachable.coherent.sound holding w.now
  rw [if_pos due, launch] at looks
  rw [h.itemsTo_looked reachable holding, (h.advanced reachable holding).dispatcher, looks]
  exact ⟨rfl, rfl⟩

theorem AtEase.looked_launched (due : w.cache.staleness.isDue w.now = true)
    (named : (w.now.later? (w.cache.dispatcher.holdBack w.now)).isSome = true) :
    (w.run w.lookMoves).cache.dispatcher.running = [w.cache.dispatcher.newest w.now]
      ∧ OnTime (w.cache.dispatcher.latest + 1) w.nextStart (w.run w.lookMoves) := by
  obtain ⟨next, n, launched⟩ := Dispatcher.launch_of_named (reachable.bound_of_holding _ holding) named
  obtain rfl := (Dispatcher.launch_started launched).number
  have unowing : Unowing w.attentive := fun a listed => absurd listed (h.unfetched ▸ List.not_mem_nil)
  have launch : w.cache.launch w.now = (w.cache.begun next, .wait (w.cache.dispatcher.latest + 1)) := by
    rw [Cache.launch, launched]
    rfl
  have dispatcher : (w.run w.lookMoves).cache.dispatcher = next := (h.looked_due reachable holding due launch).1
  have reached := h.attentive reachable holding
  refine ⟨?_, ?_⟩
  · rw [dispatcher]
    exact unowing.running reached launched
  · have looked : w.run w.lookMoves = w.attentive.apply (.reader w.nextKey) :=
      congrArg (World.apply · (.reader w.nextKey)) (h.interested reachable holding)
    rw [looked] at dispatcher ⊢
    exact unowing.onTime reached w.seat?_attentive launched dispatcher

theorem AtEase.looked_crashed (due : w.cache.staleness.isDue w.now = true)
    (beyond : (w.now.later? (w.cache.dispatcher.holdBack w.now)).isSome = false) :
    (w.run w.lookMoves).itemsTo w.nextKey = [.crashed]
      ∧ (w.run w.lookMoves).cache.dispatcher.running = [] := by
  have bound := reachable.bound_of_holding _ holding
  cases launched : w.cache.dispatcher.launch w.now with
  | unbound =>
      rw [Dispatcher.launch_unbound_iff.mp launched] at bound
      cases bound
  | started next n =>
      obtain ⟨start, named⟩ := (Dispatcher.launch_started launched).named
      rw [named] at beyond
      cases beyond
  | overflow left =>
      have launch : w.cache.launch w.now = ({ w.cache with dispatcher := left }, .crashed) := by
        rw [Cache.launch, launched]
      obtain ⟨dispatcher, items⟩ := h.looked_due reachable holding due launch
      refine ⟨items, List.eq_nil_iff_forall_not_mem.mpr fun a listed => ?_⟩
      rw [dispatcher] at listed
      have old := (Dispatcher.launch_overflowed launched).mem_running listed
      rw [h.unfetched] at old
      cases old

theorem AtEase.looked : Looked content w (w.run w.lookMoves) where
  committed := h.committed_looked reachable holding
  tasked s hs := by
    obtain ⟨s₀, old, role⟩ := (h.advanced reachable holding).role_eq hs
    rw [← role, List.mem_singleton.mp old]
    rfl
  calls := (h.advanced reachable holding).calls
  served := h.looked_served reachable holding
  launched := h.looked_launched reachable holding
  crashed := h.looked_crashed reachable holding

end Look

theorem ordinary_lookMoves (w : World ε V) : ∀ m ∈ w.lookMoves, m.isOrdinary = true := by
  simp [lookMoves, Move.isOrdinary]

/-- An attempt that is on time has called the source at its start once nobody can take a step after it, if there
is an owner to call. -/
theorem OnTime.called_when_settled {n : Nat} {due : Instant} (h : OnTime n due w) (reachable : Reachable w)
    {a : Attempt ε V} (listed : a ∈ w.cache.dispatcher.running) (number : a.number = n)
    {moves : List (Move ε V)} (owned : (w.run moves).hasOwner = true) (gradual : w.isGradual moves = true)
    (settled : (w.run moves).IsSettled) (past : due ≤ (w.run moves).now) : (n, due) ∈ (w.run moves).calls := by
  have ordered := (reachable.run moves).ordered
  have onTime := h.run reachable gradual
  have begun := onTime.begun ordered (tracks_run reachable (Or.inr ⟨a, listed, number⟩) moves)
    ((Int.lt_or_eq_of_le past).imp_right fun now => ⟨now, fun b running => settled.attempt ordered running⟩)
  refine (onTime.calls ordered begun).resolve_right fun gone => ?_
  cases owned.symm.trans gone.1

/-- **What a read makes the source do where everything is at ease**, whatever happens next, as long as nobody
else reads.  If the held value is not due, or if the clock cannot name the start of a fetch, the source is not
called.  Otherwise it is called once, at the start that is set for the fetch. -/
theorem AtEase.calls {number : V → Nat} (h : AtEase w) (reachable : Reachable w) (ledger : Ledger number w)
    {content : Sourced V} (holding : w.cache.cell.phase = .holding (.concealed content))
    {moves : List (Move ε V)} (ordinary : ∀ m ∈ moves, m.isOrdinary = true)
    (unopened : ∀ reading role, .openReader reading role ∉ moves) :
    let looked := w.run w.lookMoves
    let q := looked.run moves
    let named := (w.now.later? (w.cache.dispatcher.holdBack w.now)).isSome
    (w.cache.staleness.isDue w.now = false ∨ named = false → q.calls = w.calls)
      ∧ (w.cache.staleness.isDue w.now = true → named = true → looked.isGradual moves = true → q.IsSettled →
          w.nextStart ≤ q.now → q.calls = (w.cache.dispatcher.latest + 1, w.nextStart) :: w.calls) := by
  intro looked q named
  have l : Looked content w looked := h.looked reachable holding
  have reached : Reachable looked := reachable.run _
  have ordered : Ordered q := (reached.run moves).ordered
  have lookedLedger : Ledger number looked := ledger.run reachable w.ordinary_lookMoves
  have qLedger : Ledger number q := lookedLedger.run reached ordinary
  have fetches : q.cache.cell.counters.fetches = looked.cache.cell.counters.fetches := l.committed.run unopened
  have bounded : q.calls.length ≤ w.calls.length + looked.heldUp.length := by
    have before := lookedLedger.launched
    have after := qLedger.launched
    rw [l.calls] at before
    omega
  have suffix : w.calls <:+ q.calls := l.calls ▸ calls_suffix_run looked moves
  have uncalled (none : looked.cache.dispatcher.running = []) : q.calls = w.calls := by
    rw [heldUp, none] at bounded
    exact (suffix.eq_of_length_le bounded).symm
  refine ⟨fun unlaunched => ?_, fun due isNamed gradual settled past => ?_⟩
  · cases due : w.cache.staleness.isDue w.now with
    | false => exact uncalled (l.served due).2
    | true =>
        have beyond : named = false := unlaunched.resolve_left (by simp [due])
        exact uncalled (l.crashed due beyond).2
  · obtain ⟨alone, onTime⟩ := l.launched due isNamed
    have called := onTime.called_when_settled reached (alone ▸ List.mem_singleton_self _) rfl qLedger.owned gradual
      settled past
    have unborn : (w.cache.dispatcher.latest + 1, w.nextStart) ∉ w.calls := fun before =>
      reachable.ordered.not_begun (Nat.lt_succ_self _)
        (reachable.ordered.begun _ (List.mem_map.mpr ⟨_, before, rfl⟩))
    have one : looked.heldUp.length = 1 := by rw [heldUp, alone]; rfl
    rw [one] at bounded
    -- the calls are the old ones with at most one more in front, and there is one that is not old
    obtain ⟨front, split⟩ := suffix
    rw [← split, List.length_append] at bounded
    rw [← split] at called
    have added : (w.cache.dispatcher.latest + 1, w.nextStart) ∈ front :=
      (List.mem_append.mp called).resolve_right unborn
    obtain ⟨first, only⟩ := List.length_eq_one_iff.mp
      (Nat.le_antisymm (by omega) (List.length_pos_of_mem added) : front.length = 1)
    rw [only, List.mem_singleton] at added
    rw [← split, only, added]
    rfl

end World

end SingleFlight
