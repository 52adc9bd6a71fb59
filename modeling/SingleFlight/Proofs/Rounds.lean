/-
  SingleFlight.Proofs.Rounds — the refresher's order of choice does not matter.

  When several things are ready at once the refresher may take them in any order: notices, what is
  on the bus, and the deadline that has come.  Some of them leave others behind, since a trigger
  heard on the bus becomes a notice.  `attended` names the world that is left when everything has been
  taken; no step of the refresher changes it, so every order ends there.  `load` counts what is
  left to take, and every reaction lowers it, so every order ends.

  Main results:
    * `World.Round.attended` — no step changes what is going to be left.
    * `World.Round.load` — every reaction leaves less to react to.
    * `World.rounds_confluent` — every order comes to rest, in the same world.
-/
import SingleFlight.Proofs.Awaiting
import SingleFlight.Proofs.Dueness
import SingleFlight.Proofs.Hearing

namespace SingleFlight

variable {ε V : Type}

/-! ## §1. What there is to take. -/

namespace Bus

/-- The signals that the receiver is going to find. -/
def audible (b : Bus) : List Signal := if b.hasReceiver then b.queue else []

/-- The channel after the receiver has taken all there is; it leaves a channel that is closed. -/
def heardOut (b : Bus) : Bus :=
  if b.hasReceiver then if b.isOpen then { b with queue := [], missed := 0 } else b.leave else b

/-- How often the receiver is going to find that it lost something. -/
def lags (b : Bus) : Nat := if b.hasReceiver ∧ 0 < b.missed then 1 else 0

/-- How often the receiver is going to find something: that it lost something, a signal, or the end. -/
def stock (b : Bus) : Nat :=
  b.lags + b.audible.length + if b.hasReceiver ∧ b.isOpen = false then 1 else 0

/-- The channel `b'` is what the receiver leaves of `b` when it has taken one thing: the signals `heard`, or
the news of `lost` losses, or neither when it finds that nothing will come. -/
structure Leaves (b b' : Bus) (heard : List Signal) (lost : Nat) : Prop where
  heardOut : b'.heardOut = b.heardOut
  audible : b.audible = heard ++ b'.audible
  lags : b.lags = b'.lags + lost
  stock : b.stock = b'.stock + 1

/-- **The receiver takes one thing at a time**, and what it leaves is what it is going to find. -/
theorem receive?_leaves {b b' : Bus} {r : Received} (h : b.receive? = some (r, b')) :
    match r with
    | .lagged _ => b.Leaves b' [] 1
    | .signal s => b.Leaves b' [s] 0
    | .closed => b.Leaves b'.leave [] 0 := by
  unfold receive? at h
  split at h
  next receiver =>
    split at h
    next missed =>
      cases h
      constructor <;> simp [heardOut, audible, lags, stock, receiver, missed]
      · rfl
      · omega
    next missed =>
      have missed : b.missed = 0 := Nat.eq_zero_of_not_pos missed
      split at h
      next s queue taken =>
        cases h
        constructor <;> simp [heardOut, audible, lags, stock, receiver, missed, taken]
        · rfl
        · omega
      next empty =>
        split at h
        · cases h
        next closed =>
          cases h
          constructor <;> simp [heardOut, audible, lags, stock, receiver, missed, empty, closed, leave]
  next => cases h

/-- A receiver that finds nothing has taken all there is. -/
theorem eq_heardOut {b : Bus} (h : b.receive? = none) :
    b.heardOut = b ∧ b.audible = [] ∧ b.lags = 0 := by
  unfold receive? at h
  split at h
  next receiver =>
    split at h
    · cases h
    next missed =>
      have missed : b.missed = 0 := Nat.eq_zero_of_not_pos missed
      split at h
      · cases h
      next empty =>
        split at h
        next isOpen =>
          refine ⟨?_, ?_, ?_⟩
          · rw [heardOut, if_pos receiver, if_pos isOpen, ← empty, ← missed]
          · rw [audible, if_pos receiver, empty]
          · simp [lags, missed]
        · cases h
  next gone => simp [heardOut, audible, lags, gone]

end Bus

namespace Refresher

/-- The task has an alarm set as it would set it now, or is about to set it. -/
def IsCurrent (deadline : Deadline) : Refresher → Prop
  | armed wokenFor alarm => arm wokenFor deadline = armed wokenFor alarm
  | _ => True

/-- How often an alarm that is set for the deadline on the book is going to go off at `now`. -/
def overdue (deadline : Deadline) (now : Instant) (wokenFor : Option Instant) : Nat :=
  match deadline with
  | .due t => if t ≤ now ∧ wokenFor ≠ some t then 1 else 0
  | _ => 0

/-- How often the alarm can go off at `now`.  One that was set for a deadline that has moved since may
go off before the one for the deadline on the book. -/
def rings (deadline : Deadline) (now : Instant) : Refresher → Nat
  | arming wokenFor | armed wokenFor none => overdue deadline now wokenFor
  | armed wokenFor (some t) =>
    max (overdue deadline now wokenFor) (if t ≤ now then 1 + overdue deadline now (some t) else 0)
  | _ => 0

/-- The deadline that the task has woken the readers for when there is nothing left to take. -/
def foreseen (deadline : Deadline) (now : Instant) (wokenFor : Option Instant) : Option Instant :=
  match deadline with
  | .due t => if t ≤ now then some t else wokenFor
  | _ => wokenFor

variable {deadline : Deadline} {now : Instant} {wokenFor alarm : Option Instant} {t : Instant}

/-- Who has woken for a deadline does not set an alarm for it again. -/
theorem overdue_self : overdue (.due t) now (some t) = 0 := by
  simp [overdue]

theorem rings_armed_ge (alarm : Option Instant) :
    overdue deadline now wokenFor ≤ rings deadline now (armed wokenFor alarm) := by
  cases alarm with
  | none => exact Nat.le_refl _
  | some t => exact Nat.le_max_left _ _

/-- An alarm that goes off has one less before it. -/
theorem overdue_lt_rings (wokenFor : Option Instant) (come : t ≤ now) :
    overdue deadline now (some t) < rings deadline now (armed wokenFor (some t)) := by
  have less : 1 + overdue deadline now (some t) ≤ rings deadline now (armed wokenFor (some t)) := by
    rw [rings, if_pos come]
    exact Nat.le_max_right _ _
  omega

/-- To set the alarm is no reason for it to go off more often. -/
theorem rings_arm_le (now : Instant) (wokenFor : Option Instant) (named : deadline ≠ .overflow) :
    rings deadline now (arm wokenFor deadline) ≤ overdue deadline now wokenFor := by
  cases deadline with
  | unset => exact Nat.le_refl _
  | overflow => exact absurd rfl named
  | due t =>
      by_cases woken : wokenFor = some t
      · simp [arm, woken, rings]
      · by_cases come : t ≤ now <;> simp [arm, woken, rings, overdue, come]

/-- A current alarm that goes off goes off for the deadline on the book. -/
theorem IsCurrent.deadline_eq (current : (armed wokenFor (some t)).IsCurrent deadline) :
    deadline = .due t ∧ wokenFor ≠ some t := by
  cases deadline with
  | unset | overflow => cases current
  | due t' =>
      by_cases woken : wokenFor = some t' <;> simp [IsCurrent, arm, woken] at current
      rw [← current]
      exact ⟨rfl, woken⟩

end Refresher

/-! ## §2. What is left when everything has been taken. -/

namespace World

/-- A refresher that is at work: it takes the notices, nobody else does, and the clock can name its
deadline. -/
structure OnDuty (w : World ε V) : Prop where
  running : w.refresher.isRunning = true
  spare : w.hasSpareEnd = false
  listening : w.cache.staleness.listening = true
  named : w.cache.staleness.deadline ≠ .overflow

/-- The signals that the refresher is going to hear. -/
def audible (w : World ε V) : List Signal := w.bus.elim [] Bus.audible

/-- Whether a signal makes the value due. -/
def triggersOn (w : World ε V) (s : Signal) : Bool := w.cache.staleness.freshness.triggersOn s

/-- The same but for what the refresher may change: its own state, the mark and the phase of the cell, the
count of invalidations, the pending trigger, and the bus.  No notice waits. -/
def leaving (w : World ε V) (refresher : Refresher) (version : Nat) (phase : Phase (Sourced V))
    (invalidations : Nat) (signalPending : Bool) (bus : Option Bus) : World ε V :=
  { w with
    refresher, bus
    cache := { w.cache with
      cell := { w.cache.cell with
        phase, version
        counters := { w.cache.cell.counters with invalidations } }
      staleness := { w.cache.staleness with notices := [], signalPending } } }

/-- The world when the refresher has taken all there is.  The value is gone if a notice says so, every such
notice is counted, and a trigger is pending if one was, or is heard. -/
def attended (w : World ε V) (refresher : Refresher) (version : Nat) : World ε V :=
  w.leaving refresher version
    (if .flush ∈ w.cache.staleness.notices then .flushed else w.cache.cell.phase)
    (w.cache.cell.counters.invalidations + w.cache.staleness.notices.count .flush)
    (w.cache.staleness.signalPending || w.audible.any w.triggersOn)
    (w.bus.map Bus.heardOut)

/-- How often the refresher is going to react before it has taken all there is. -/
def load (w : World ε V) : Nat :=
  w.cache.staleness.notices.length + w.bus.elim 0 Bus.stock + w.audible.countP w.triggersOn
    + w.refresher.rings w.cache.staleness.deadline w.now

/-- How often the refresher is going to mark the cell for what waits, apart from its alarm: for each notice but
one that the deadline moved, for each loss, and for each trigger. -/
def news (w : World ε V) : Nat :=
  w.cache.staleness.notices.countP (· ≠ .reschedule) + w.bus.elim 0 Bus.lags
    + w.audible.countP w.triggersOn

/-- How often the refresher, if its alarm is current, is going to mark the cell before it has taken all there
is. -/
def marks (w : World ε V) : Nat :=
  w.news + Refresher.overdue w.cache.staleness.deadline w.now w.refresher.wokenFor?

/-- What one step of the refresher makes of the world, and whether it reacts to something. -/
inductive Round (w : World ε V) : World ε V → Bool → Prop where
  /-- There is nothing to do. -/
  | rest : Round w w false
  /-- It sets its alarm. -/
  | armed {wokenFor alarm : Option Instant} (arming : w.refresher = .arming wokenFor)
      (sets : Refresher.arm wokenFor w.cache.staleness.deadline = .armed wokenFor alarm) :
      Round w { w with refresher := .armed wokenFor alarm } false
  /-- It takes the oldest notice. -/
  | heeded {wokenFor alarm : Option Instant} {notice : Notice} {rest : List Notice}
      (armed : w.refresher = .armed wokenFor alarm) (taken : w.cache.staleness.notices = notice :: rest) :
      Round w { (w.withStaleness ({ · with notices := rest })).withCache (Refresher.heed · notice) with
        refresher := .arming wokenFor } true
  /-- It learns that it lost some signals. -/
  | lagged {wokenFor alarm : Option Instant} {b b' : Bus} (armed : w.refresher = .armed wokenFor alarm)
      (bus : w.bus = some b) (leaves : b.Leaves b' [] 1) :
      Round w { w.withCache Cache.poke with bus := some b', refresher := .arming wokenFor } true
  /-- It hears a signal that is no trigger, or that no signal will come. -/
  | spared {wokenFor alarm : Option Instant} {b b' : Bus} {heard : List Signal}
      (armed : w.refresher = .armed wokenFor alarm) (bus : w.bus = some b)
      (leaves : b.Leaves b' heard 0) (spares : ∀ s ∈ heard, w.triggersOn s = false) :
      Round w { w with bus := some b', refresher := .arming wokenFor } true
  /-- It hears a trigger, which makes the value due and leaves a notice. -/
  | triggered {wokenFor alarm : Option Instant} {b b' : Bus} {s : Signal}
      (armed : w.refresher = .armed wokenFor alarm) (bus : w.bus = some b)
      (leaves : b.Leaves b' [s] 0) (triggers : w.triggersOn s = true) :
      Round w { (w.withStaleness fun book =>
          { book with signalPending := true, notices := book.notices ++ [.refresh] }) with
        bus := some b', refresher := .arming wokenFor } true
  /-- Its alarm goes off. -/
  | woke {wokenFor : Option Instant} {t : Instant} (armed : w.refresher = .armed wokenFor (some t))
      (come : t ≤ w.now) :
      Round w { w.withCache Cache.poke with refresher := .arming (some t) } true

/-- Whether a move is a reaction of the refresher to something. -/
def reacts (w : World ε V) : Move ε V → Bool
  | .react cue => match w.refresher with
    | .armed .. => w.hasCue cue
    | _ => false
  | _ => false

variable {w : World ε V} {m : Move ε V}

/-- A trigger makes the value due, and who listens finds a notice of it. -/
theorem OnDuty.observe (h : w.OnDuty) (s : Signal) :
    (w.cache.staleness.observe s).1 = if w.triggersOn s then
      { w.cache.staleness with
        signalPending := true, notices := w.cache.staleness.notices ++ [.refresh] }
    else w.cache.staleness := by
  show (if w.triggersOn s then _ else _ : Staleness × Bool).1 = _
  split
  · rw [Staleness.notify, if_pos h.listening]
  · rfl

/-- A refresher at work can set its alarm. -/
theorem OnDuty.sets (h : w.OnDuty) (wokenFor : Option Instant) :
    ∃ alarm, Refresher.arm wokenFor w.cache.staleness.deadline = .armed wokenFor alarm := by
  have named := h.named
  cases deadline : w.cache.staleness.deadline with
  | overflow => exact absurd deadline named
  | unset | due => exact ⟨_, rfl⟩

/-- **What a step of a refresher at work makes of the world.** -/
theorem OnDuty.round (h : w.OnDuty) (chore : m.isChore = true) : Round w (w.apply m) (w.reacts m) := by
  cases m with
  | arm =>
      show Round w w.armRefresher false
      unfold armRefresher
      cases task : w.refresher with
      | idle | armed | stopped => exact .rest
      | arming wokenFor =>
          dsimp only
          obtain ⟨alarm, sets⟩ := h.sets wokenFor
          rw [sets]
          exact .armed task sets
  | react cue =>
      show Round w (w.react cue) (w.reacts (.react cue))
      unfold react reacts
      cases task : w.refresher with
      | idle | arming | stopped => exact .rest
      | armed wokenFor alarm =>
          dsimp only
          cases cue with
          | notice =>
              cases taken : w.cache.staleness.notices with
              | nil => simpa [hasCue, taken] using Round.rest
              | cons notice rest => simpa [hasCue, taken] using Round.heeded task taken
          | signal =>
              cases bus : w.bus with
              | none => simpa [hasCue, bus] using Round.rest
              | some b =>
                  cases found : b.receive? with
                  | none => simpa [hasCue, bus, found] using Round.rest
                  | some found' =>
                      obtain ⟨received, b'⟩ := found'
                      have has : w.hasCue .signal = true := by simp [hasCue, bus, found]
                      have leaves := Bus.receive?_leaves found
                      rw [has, Option.bind_some, found]
                      cases received with
                      | lagged n => exact .lagged task bus leaves
                      | closed => exact .spared task bus leaves (fun s mem => absurd mem List.not_mem_nil)
                      | signal s =>
                          have observed := h.observe s
                          show Round w { w with
                            cache := { w.cache with staleness := (w.cache.staleness.observe s).1 }
                            bus := some b', refresher := .arming wokenFor } true
                          cases triggers : w.triggersOn s with
                          | false =>
                              rw [triggers] at observed
                              rw [observed]
                              exact .spared task bus leaves
                                (fun s' mem => List.mem_singleton.mp mem ▸ triggers)
                          | true =>
                              rw [triggers] at observed
                              rw [observed]
                              exact .triggered task bus leaves triggers
          | timer =>
              cases come : w.hasCue .timer with
              | false => exact .rest
              | true =>
                  cases alarm with
                  | none => simp [hasCue, task, Refresher.timer?] at come
                  | some t => exact .woke task (by simpa [hasCue, task, Refresher.timer?] using come)
  | _ => cases chore

/-! ## §3. No step changes what is going to be left. -/

variable {w' : World ε V} {reacted : Bool}

/-- A step of the refresher leaves the clock, the policy and the last success alone. -/
theorem Round.book (r : Round w w' reacted) :
    w'.now = w.now ∧ w'.cache.staleness.freshness = w.cache.staleness.freshness
      ∧ w'.cache.staleness.lastSuccess = w.cache.staleness.lastSuccess
      ∧ w'.cache.staleness.listening = w.cache.staleness.listening
      ∧ w'.hasSpareEnd = w.hasSpareEnd := by
  cases r with
  | rest | armed | lagged | spared | triggered | woke => exact ⟨rfl, rfl, rfl, rfl, rfl⟩
  | @heeded _ _ notice _ _ _ => cases notice <;> exact ⟨rfl, rfl, rfl, rfl, rfl⟩

theorem Round.deadline (r : Round w w' reacted) :
    w'.cache.staleness.deadline = w.cache.staleness.deadline :=
  Staleness.deadline_eq r.book.2.1 r.book.2.2.1

/-- The refresher stays at work. -/
theorem OnDuty.after (h : w.OnDuty) (r : Round w w' reacted) : w'.OnDuty := by
  obtain ⟨_, _, _, listening, spare⟩ := r.book
  refine ⟨?_, spare.trans h.spare, listening.trans h.listening, r.deadline ▸ h.named⟩
  cases r with
  | rest => exact h.running
  | armed | heeded | lagged | spared | triggered | woke => rfl

/-- **No step of the refresher changes what is going to be left.** -/
theorem Round.attended (r : Round w w' reacted) (refresher : Refresher) (version : Nat) :
    w'.attended refresher version = w.attended refresher version := by
  cases r with
  | rest | armed | woke => rfl
  | @heeded _ _ notice rest _ taken =>
      cases notice with
      | flush =>
          show w.leaving refresher version (if _ then _ else .flushed) (_ + 1 + _) _ _ = _
          rw [World.attended, taken, ite_self, if_pos List.mem_cons_self, List.count_cons_self,
            Nat.add_assoc, Nat.add_comm 1]
          rfl
      | refresh | reschedule =>
          show w.leaving refresher version (if .flush ∈ rest then _ else _) (_ + rest.count .flush) _ _ = _
          rw [World.attended, taken]
          simp
          rfl
  | @lagged _ _ b b' _ bus leaves =>
      show w.leaving refresher version (if .flush ∈ w.cache.staleness.notices then _ else _) (_ + _)
        (_ || b'.audible.any w.triggersOn) (some b'.heardOut) = _
      rw [World.attended, World.audible, bus, Option.map_some, Option.elim_some, leaves.audible,
        leaves.heardOut]
      rfl
  | @spared _ _ b b' heard _ bus leaves spares =>
      have nothing : heard.any w.triggersOn = false := by simpa using spares
      show w.leaving refresher version _ _ (_ || b'.audible.any w.triggersOn) (some b'.heardOut) = _
      rw [World.attended, World.audible, bus, Option.map_some, Option.elim_some, leaves.audible,
        leaves.heardOut, List.any_append, nothing, Bool.false_or]
  | @triggered _ _ b b' s _ bus leaves triggers =>
      have heard : w.audible.any w.triggersOn = true := by
        rw [World.audible, bus, Option.elim_some, leaves.audible, List.any_append, List.any_cons, triggers]
        rfl
      have flush : .flush ∈ w.cache.staleness.notices ++ [.refresh]
          ↔ .flush ∈ w.cache.staleness.notices := by simp
      have count : (w.cache.staleness.notices ++ [Notice.refresh]).count .flush
          = w.cache.staleness.notices.count .flush := by simp
      show w.leaving refresher version
        (if .flush ∈ w.cache.staleness.notices ++ [.refresh] then .flushed else w.cache.cell.phase)
        (w.cache.cell.counters.invalidations + (w.cache.staleness.notices ++ [Notice.refresh]).count .flush)
        (true || b'.audible.any w.triggersOn) (some b'.heardOut) = _
      rw [World.attended, bus, Option.map_some, leaves.heardOut, heard, Bool.true_or, Bool.or_true, count]
      simp only [flush]

/-- What an armed refresher has to take before it hears the bus: one thing more than after. -/
theorem load_of_leaves {b b' : Bus} {heard : List Signal} {lost : Nat} {wokenFor alarm : Option Instant}
    (armed : w.refresher = .armed wokenFor alarm) (bus : w.bus = some b) (leaves : b.Leaves b' heard lost) :
    w.cache.staleness.notices.length + (b'.stock + 1)
        + (heard.countP w.triggersOn + b'.audible.countP w.triggersOn)
        + Refresher.overdue w.cache.staleness.deadline w.now wokenFor ≤ w.load := by
  have rings : Refresher.overdue w.cache.staleness.deadline w.now wokenFor ≤ _ :=
    Refresher.rings_armed_ge alarm
  rw [World.load, World.audible, bus, armed, Option.elim_some, Option.elim_some, leaves.stock,
    leaves.audible, List.countP_append]
  exact Nat.add_le_add_left rings _

/-- **Every reaction leaves less to react to.** -/
theorem Round.load (h : w.OnDuty) (r : Round w w' reacted) : w'.load + reacted.toNat ≤ w.load := by
  cases r with
  | rest => exact Nat.le_refl _
  | @armed wokenFor alarm arming sets =>
      have rings := Refresher.rings_arm_le w.now wokenFor h.named
      show w.cache.staleness.notices.length + w.bus.elim 0 Bus.stock + w.audible.countP w.triggersOn
        + Refresher.rings _ _ (.armed wokenFor alarm) ≤ w.load
      rw [World.load, arming, ← sets]
      exact Nat.add_le_add_left rings _
  | @heeded wokenFor alarm notice rest armed taken =>
      have rings : Refresher.overdue w.cache.staleness.deadline w.now wokenFor ≤ _ :=
        Refresher.rings_armed_ge alarm
      have fewer : rest.length + w.bus.elim 0 Bus.stock + w.audible.countP w.triggersOn
          + Refresher.overdue w.cache.staleness.deadline w.now wokenFor + 1 ≤ w.load := by
        rw [World.load, taken, armed, List.length_cons]
        omega
      cases notice <;> exact fewer
  | @lagged wokenFor alarm b b' armed bus leaves =>
      have load := load_of_leaves armed bus leaves
      show w.cache.staleness.notices.length + b'.stock + b'.audible.countP w.triggersOn
          + Refresher.overdue w.cache.staleness.deadline w.now wokenFor + 1 ≤ w.load
      omega
  | @spared wokenFor alarm b b' heard armed bus leaves spares =>
      have load := load_of_leaves armed bus leaves
      show w.cache.staleness.notices.length + b'.stock + b'.audible.countP w.triggersOn
          + Refresher.overdue w.cache.staleness.deadline w.now wokenFor + 1 ≤ w.load
      omega
  | @triggered wokenFor alarm b b' s armed bus leaves triggers =>
      have load := load_of_leaves armed bus leaves
      rw [List.countP_singleton, if_pos triggers] at load
      show (w.cache.staleness.notices ++ [Notice.refresh]).length + b'.stock
          + b'.audible.countP w.triggersOn
          + Refresher.overdue w.cache.staleness.deadline w.now wokenFor + 1 ≤ w.load
      rw [List.length_append, List.length_singleton]
      omega
  | @woke wokenFor t armed come =>
      have rings : Refresher.overdue w.cache.staleness.deadline w.now (some t) < _ :=
        Refresher.overdue_lt_rings wokenFor come
      show w.cache.staleness.notices.length + w.bus.elim 0 Bus.stock + w.audible.countP w.triggersOn
          + Refresher.overdue w.cache.staleness.deadline w.now (some t) + 1 ≤ w.load
      rw [World.load, armed]
      omega

/-- What is news before the bus is heard: what is still on it, what was heard, and what was lost. -/
theorem news_of_leaves {b b' : Bus} {heard : List Signal} {lost : Nat} (bus : w.bus = some b)
    (leaves : b.Leaves b' heard lost) :
    w.news = w.cache.staleness.notices.countP (· ≠ .reschedule) + (b'.lags + lost)
      + (heard.countP w.triggersOn + b'.audible.countP w.triggersOn) := by
  rw [World.news, World.audible, bus, Option.elim_some, Option.elim_some, leaves.lags, leaves.audible,
    List.countP_append]

/-- **Every notice, loss and trigger marks the cell once**, and so does an alarm that is current. -/
theorem Round.marks (current : w.refresher.IsCurrent w.cache.staleness.deadline)
    (r : Round w w' reacted) :
    w'.cache.cell.version + w'.marks = w.cache.cell.version + w.marks := by
  have kept (news : w'.cache.cell.version + w'.news = w.cache.cell.version + w.news)
      (woken : w'.refresher.wokenFor? = w.refresher.wokenFor?) :
      w'.cache.cell.version + w'.marks = w.cache.cell.version + w.marks := by
    rw [World.marks, World.marks, r.deadline, r.book.1, woken]
    omega
  cases r with
  | rest => rfl
  | armed arming => exact kept rfl (by rw [arming]; rfl)
  | @heeded _ _ notice rest armed taken =>
      have news : w.news = rest.countP (· ≠ .reschedule) + (if notice ≠ .reschedule then 1 else 0)
          + w.bus.elim 0 Bus.lags + w.audible.countP w.triggersOn := by
        rw [World.news, taken, List.countP_cons]
        simp only [decide_eq_true_eq]
      cases notice with
      | flush | refresh =>
          refine kept ?_ (by rw [armed]; rfl)
          rw [news]
          show w.cache.cell.version + 1 + (rest.countP _ + w.bus.elim 0 Bus.lags + w.audible.countP w.triggersOn)
            = w.cache.cell.version + (rest.countP _ + 1 + _ + _)
          omega
      | reschedule => exact kept (congrArg _ news.symm) (by rw [armed]; rfl)
  | @lagged _ _ b b' armed bus leaves =>
      refine kept ?_ (by rw [armed]; rfl)
      rw [news_of_leaves bus leaves, List.countP_nil, Nat.zero_add]
      show w.cache.cell.version + 1 + (w.cache.staleness.notices.countP _ + b'.lags
        + b'.audible.countP w.triggersOn) = _
      omega
  | @spared _ _ b b' heard armed bus leaves spares =>
      refine kept ?_ (by rw [armed]; rfl)
      have nothing : heard.countP w.triggersOn = 0 :=
        List.countP_eq_zero.mpr fun s mem => Bool.eq_false_iff.mp (spares s mem)
      rw [news_of_leaves bus leaves, nothing, Nat.zero_add]
      rfl
  | @triggered _ _ b b' s armed bus leaves triggers =>
      refine kept ?_ (by rw [armed]; rfl)
      have told : (w.cache.staleness.notices ++ [Notice.refresh]).countP (· ≠ .reschedule)
          = w.cache.staleness.notices.countP (· ≠ .reschedule) + 1 := List.countP_append
      rw [news_of_leaves bus leaves, List.countP_singleton, if_pos triggers]
      show w.cache.cell.version + ((w.cache.staleness.notices ++ [Notice.refresh]).countP (· ≠ .reschedule)
        + b'.lags + b'.audible.countP w.triggersOn) = _
      rw [told]
      omega
  | @woke wokenFor t armed come =>
      rw [armed] at current
      obtain ⟨deadline, woken⟩ := current.deadline_eq
      have before : w.marks = w.news + 1 := by
        rw [World.marks, armed, deadline]
        show _ + Refresher.overdue (.due t) w.now wokenFor = _
        rw [Refresher.overdue, if_pos ⟨come, woken⟩]
      show w.cache.cell.version + 1 + (w.news + Refresher.overdue w.cache.staleness.deadline w.now (some t)) = _
      rw [before, deadline, Refresher.overdue_self]
      omega

/-- An alarm that is current stays so. -/
theorem Round.current (current : w.refresher.IsCurrent w.cache.staleness.deadline)
    (r : Round w w' reacted) : w'.refresher.IsCurrent w'.cache.staleness.deadline := by
  rw [r.deadline]
  cases r with
  | rest => exact current
  | armed _ sets => exact sets
  | heeded | lagged | spared | triggered | woke => trivial

/-- The deadline that the refresher will have woken the readers for when it has taken all there is. -/
def foreseen (w : World ε V) : Option Instant :=
  Refresher.foreseen w.cache.staleness.deadline w.now w.refresher.wokenFor?

/-- An alarm that is current goes off for the deadline on the book. -/
theorem Round.foreseen (current : w.refresher.IsCurrent w.cache.staleness.deadline)
    (r : Round w w' reacted) : w'.foreseen = w.foreseen := by
  have kept (woken : w'.refresher.wokenFor? = w.refresher.wokenFor?) : w'.foreseen = w.foreseen := by
    rw [World.foreseen, World.foreseen, r.deadline, r.book.1, woken]
  cases r with
  | rest => rfl
  | armed arming => exact kept (by rw [arming]; rfl)
  | heeded armed | lagged armed | spared armed | triggered armed => exact kept (by rw [armed]; rfl)
  | @woke wokenFor t armed come =>
      rw [armed] at current
      rw [World.foreseen, World.foreseen, armed]
      show Refresher.foreseen w.cache.staleness.deadline w.now (some t) = _
      rw [current.deadline_eq.1, Refresher.foreseen, Refresher.foreseen, if_pos come, if_pos come]

/-! ## §4. Where there is nothing left to take. -/

/-- A refresher at work that is not ready has taken all there is, and its alarm is ahead. -/
theorem OnDuty.rest (h : w.OnDuty) (unready : w.isRefresherReady = false) :
    ∃ wokenFor alarm, w.refresher = .armed wokenFor alarm ∧ w.cache.staleness.notices = []
      ∧ (∀ b, w.bus = some b → b.receive? = none) ∧ ∀ t, alarm = some t → w.now < t := by
  have running := h.running
  unfold isRefresherReady at unready
  cases task : w.refresher with
  | idle | stopped => simp [task, Refresher.isRunning] at running
  | arming => simp [task] at unready
  | armed wokenFor alarm =>
      rw [task] at unready
      have none (cue : Cue) : w.hasCue cue = false := by
        have found := List.find?_eq_none.mp (Option.isSome_eq_false_iff.mp unready |> Option.isNone_iff_eq_none.mp)
        cases cue <;> exact Bool.eq_false_iff.mpr (found _ (by simp))
      refine ⟨wokenFor, alarm, rfl, ?_, fun b bus => ?_, fun t set => ?_⟩
      · simpa [hasCue] using none .notice
      · simpa [hasCue, bus] using none .signal
      · simpa [hasCue, task, Refresher.timer?, set] using none .timer

/-- What is going to be left of a world where nothing waits is that world. -/
theorem OnDuty.attended_self (h : w.OnDuty) (unready : w.isRefresherReady = false) :
    w.attended w.refresher w.cache.cell.version = w := by
  obtain ⟨_, _, _, notices, bus, _⟩ := h.rest unready
  have taken : w.bus.map Bus.heardOut = w.bus ∧ w.audible = [] := by
    unfold World.audible
    cases there : w.bus with
    | none => exact ⟨rfl, rfl⟩
    | some b =>
        obtain ⟨heardOut, audible, _⟩ := Bus.eq_heardOut (bus b there)
        exact ⟨congrArg some heardOut, audible⟩
  rw [World.attended, notices, taken.1, taken.2]
  simp only [List.not_mem_nil, if_false, List.count_nil, Nat.add_zero, List.any_nil, Bool.or_false]
  rw [leaving, ← notices]

/-- Where nothing waits and the alarm is current, the refresher has woken the readers for the deadline if it
has come, and marks the cell no more. -/
theorem OnDuty.current_rest (h : w.OnDuty) (unready : w.isRefresherReady = false)
    (current : w.refresher.IsCurrent w.cache.staleness.deadline) :
    w.refresher = Refresher.arm w.foreseen w.cache.staleness.deadline ∧ w.marks = 0 := by
  obtain ⟨wokenFor, alarm, armed, notices, bus, ahead⟩ := h.rest unready
  have news : w.news = 0 := by
    unfold World.news World.audible
    rw [notices]
    cases there : w.bus with
    | none => rfl
    | some b =>
        obtain ⟨_, audible, lags⟩ := Bus.eq_heardOut (bus b there)
        rw [Option.elim_some, Option.elim_some, audible, lags]
        rfl
  rw [armed] at current
  rw [World.marks, World.foreseen, news, armed]
  show _ = Refresher.arm (Refresher.foreseen _ _ wokenFor) _ ∧ 0 + Refresher.overdue _ _ wokenFor = 0
  have sets : Refresher.arm wokenFor w.cache.staleness.deadline = .armed wokenFor alarm := current
  cases deadline : w.cache.staleness.deadline with
  | overflow => exact absurd deadline h.named
  | unset => exact ⟨(deadline ▸ sets).symm, rfl⟩
  | due t =>
      rw [deadline] at sets
      by_cases come : t ≤ w.now
      · -- an alarm for this deadline would be ringing
        have woken : wokenFor = some t := by
          refine Decidable.byContradiction fun unwoken => ?_
          simp only [Refresher.arm, if_neg unwoken, Refresher.armed.injEq, true_and] at sets
          exact absurd (ahead t sets.symm) (Int.not_lt.mpr come)
        rw [Refresher.foreseen, if_pos come, ← woken]
        refine ⟨sets.symm, ?_⟩
        rw [woken, Refresher.overdue_self]
      · rw [Refresher.foreseen, if_neg come]
        refine ⟨sets.symm, ?_⟩
        rw [Refresher.overdue, if_neg fun both => come both.1]

/-! ## §5. Many steps. -/

/-- How often the refresher reacts to something in a list of moves. -/
def reactions (w : World ε V) : List (Move ε V) → Nat
  | [] => 0
  | m :: moves => (w.reacts m).toNat + (w.apply m).reactions moves

/-- What any number of steps of the refresher make of the world. -/
structure Rounds (w w' : World ε V) (reactions : Nat) : Prop where
  duty : w'.OnDuty
  deadline : w'.cache.staleness.deadline = w.cache.staleness.deadline
  attended : ∀ refresher version, w'.attended refresher version = w.attended refresher version
  load : w'.load + reactions ≤ w.load
  current : w.refresher.IsCurrent w.cache.staleness.deadline →
    w'.refresher.IsCurrent w'.cache.staleness.deadline ∧ w'.foreseen = w.foreseen
      ∧ w'.cache.cell.version + w'.marks = w.cache.cell.version + w.marks

theorem OnDuty.rounds (h : w.OnDuty) {chores : List (Move ε V)}
    (all : chores.all Move.isChore = true) : Rounds w (w.run chores) (w.reactions chores) := by
  induction chores generalizing w with
  | nil => exact ⟨h, rfl, fun _ _ => rfl, Nat.le_refl _, fun current => ⟨current, rfl, rfl⟩⟩
  | cons m chores ih =>
      obtain ⟨chore, all⟩ := List.all_cons ▸ all |> Bool.and_eq_true_iff.mp
      have r := h.round chore
      have rest := ih (h.after r) all
      refine ⟨rest.duty, rest.deadline.trans r.deadline,
        fun refresher version => (rest.attended _ _).trans (r.attended _ _), ?_, fun current => ?_⟩
      · have first := r.load h
        have others := rest.load
        rw [reactions]
        show ((w.apply m).run chores).load + _ ≤ _
        omega
      · obtain ⟨current', foreseen, marks⟩ := rest.current (r.current current)
        exact ⟨current', foreseen.trans (r.foreseen current), marks.trans (r.marks current)⟩

/-- A refresher that is ready sets its alarm next, or there is something for it to react to. -/
theorem gets_on (ready : w.isRefresherReady = true) :
    (∃ wokenFor, w.refresher = .arming wokenFor) ∨ ∃ cue, w.reacts (.react cue) = true := by
  unfold isRefresherReady at ready
  cases task : w.refresher with
  | idle | stopped => simp [task] at ready
  | arming wokenFor => exact Or.inl ⟨wokenFor, rfl⟩
  | armed wokenFor alarm =>
      rw [task] at ready
      obtain ⟨cue, _, has⟩ := List.find?_isSome.mp ready
      refine Or.inr ⟨cue, ?_⟩
      rw [reacts, task]
      exact has

/-- From a refresher at work that is ready a few steps lead to one that is not, or to one that has less to
react to. -/
theorem OnDuty.less (h : w.OnDuty) (ready : w.isRefresherReady = true) :
    ∃ chores : List (Move ε V), chores.all Move.isChore = true
      ∧ ((w.run chores).isRefresherReady = false ∨ (w.run chores).load < w.load) := by
  have reacted {w : World ε V} (h : w.OnDuty) {cue : Cue} (reacts : w.reacts (.react cue) = true) :
      (w.apply (.react cue)).load < w.load := by
    have less := (h.round (show Move.isChore (.react cue) = true from rfl)).load h
    rw [reacts] at less
    exact less
  rcases gets_on ready with ⟨wokenFor, arming⟩ | ⟨cue, reacts⟩
  · -- it sets its alarm, and then it reacts, if there is anything to react to
    have arms := h.round (show Move.isChore .arm = true from rfl)
    have load : (w.apply .arm).load ≤ w.load := arms.load h
    have armed : (w.apply .arm).refresher = Refresher.arm wokenFor w.cache.staleness.deadline := by
      obtain ⟨alarm, sets⟩ := h.sets wokenFor
      show w.armRefresher.refresher = _
      simp only [armRefresher, arming, sets]
    cases ready' : (w.apply .arm).isRefresherReady with
    | false => exact ⟨[.arm], rfl, Or.inl ready'⟩
    | true =>
        rcases gets_on ready' with ⟨_, arming'⟩ | ⟨cue, reacts⟩
        · obtain ⟨alarm, sets⟩ := h.sets wokenFor
          cases arming'.symm.trans (armed.trans sets)
        · exact ⟨[.arm, .react cue], rfl,
            Or.inr (Nat.lt_of_lt_of_le (reacted (h.after arms) reacts) load)⟩
  · exact ⟨[.react cue], rfl, Or.inr (reacted h reacts)⟩

/-- **A refresher at work comes to rest.** -/
theorem OnDuty.comes_to_rest (h : w.OnDuty) :
    ∃ chores : List (Move ε V), chores.all Move.isChore = true
      ∧ (w.run chores).isRefresherReady = false := by
  induction size : w.load using Nat.strongRecOn generalizing w with
  | _ n ih =>
      cases ready : w.isRefresherReady with
      | false => exact ⟨[], rfl, ready⟩
      | true =>
          obtain ⟨chores, all, rests | less⟩ := h.less ready
          · exact ⟨chores, all, rests⟩
          · obtain ⟨more, all', rests⟩ := ih _ (size ▸ less) (h.rounds all).duty rfl
            refine ⟨chores ++ more, by rw [List.all_append, all, all']; rfl, ?_⟩
            rw [run_append]
            exact rests

/-! ## §6. One alarm for each deadline. -/

/-- The deadline for which a move makes the alarm go off. -/
def waking? (w : World ε V) : Move ε V → Option Instant
  | .react .timer => match w.refresher with
    | .armed _ (some t) => if t ≤ w.now then some t else none
    | _ => none
  | _ => none

/-- The deadlines for which the alarm goes off in a run, in order. -/
def wakings (w : World ε V) : List (Move ε V) → List Instant
  | [] => []
  | m :: moves => (w.waking? m).toList ++ (w.apply m).wakings moves

/-- Whether a move moves the deadline. -/
def movesDeadline (w : World ε V) (m : Move ε V) : Bool :=
  decide ((w.apply m).cache.staleness.deadline ≠ w.cache.staleness.deadline)

/-- An alarm goes off for the deadline that it was set for, and the refresher ticks that off. -/
theorem waking_cases {t : Instant} (wakes : w.waking? m = some t) :
    ∃ wokenFor, w.refresher = .armed wokenFor (some t)
      ∧ (w.apply m).refresher = .arming (some t) := by
  cases m with
  | react cue =>
      cases cue with
      | timer =>
          rw [waking?] at wakes
          cases task : w.refresher with
          | idle | arming | stopped => simp [task] at wakes
          | armed wokenFor alarm =>
              cases alarm with
              | none => simp [task] at wakes
              | some t' =>
                  simp only [task, Option.ite_none_right_eq_some, Option.some.injEq] at wakes
                  obtain ⟨come, rfl⟩ := wakes
                  have rings : w.hasCue .timer = true := by simp [hasCue, task, Refresher.timer?, come]
                  refine ⟨wokenFor, rfl, ?_⟩
                  show (w.react .timer).refresher = _
                  simp [react, task, rings]
      | notice | signal => cases wakes
  | _ => cases wakes

/-- What a move makes of the refresher: nothing, or it goes on to set its alarm, with the deadline that it
woke for ticked off, or it has set its alarm, or it ends. -/
theorem refresher_cases (spare : w.hasSpareEnd = false) (m : Move ε V) :
    (w.apply m).refresher = w.refresher
      ∨ (∃ wokenFor alarm, w.refresher = .armed wokenFor alarm
          ∧ ((w.apply m).refresher = .arming wokenFor
            ∨ ∃ t, alarm = some t ∧ (w.apply m).refresher = .arming (some t)))
      ∨ (∃ wokenFor, w.refresher = .arming wokenFor
          ∧ (w.apply m).refresher = Refresher.arm wokenFor w.cache.staleness.deadline)
      ∨ (w.apply m).refresher.isRunning = false := by
  cases (apply_tended spare m).2 with
  | told _ task => exact Or.inl task
  | heard armed _ task | heeded armed _ _ task => exact Or.inr (Or.inl ⟨_, _, armed, Or.inl task⟩)
  | woke armed _ _ task => exact Or.inr (Or.inl ⟨_, _, armed, Or.inr ⟨_, rfl, task⟩⟩)
  | armed arming _ task => exact Or.inr (Or.inr (Or.inl ⟨_, arming, task⟩))
  | ended task => exact Or.inr (Or.inr (Or.inr task))

/-- An alarm that is over goes off no more. -/
theorem wakings_ended (spare : w.hasSpareEnd = false) (ended : w.refresher.isRunning = false)
    (moves : List (Move ε V)) : w.wakings moves = [] := by
  induction moves generalizing w with
  | nil => rfl
  | cons m moves ih =>
      have ended' : (w.apply m).refresher.isRunning = false := by
        rcases refresher_cases spare m with same | ⟨_, _, armed, _⟩ | ⟨_, arming, _⟩ | stops
        · rw [same]
          exact ended
        · rw [armed] at ended
          cases ended
        · rw [arming] at ended
          cases ended
        · exact stops
      have silent : w.waking? m = none := by
        cases wakes : w.waking? m with
        | none => rfl
        | some t =>
            obtain ⟨_, armed, _⟩ := waking_cases wakes
            rw [armed] at ended
            cases ended
      rw [wakings, silent, ih ((apply_tended spare m).1.trans spare) ended']
      rfl

/-- **A current alarm goes off for the deadline on the book, and once at most**, until the deadline is
moved. -/
theorem wakings_current (spare : w.hasSpareEnd = false)
    (current : w.refresher.IsCurrent w.cache.staleness.deadline) {moves : List (Move ε V)}
    (unmoved : w.never movesDeadline moves = true) :
    w.wakings moves = [] ∨ ∃ t, w.cache.staleness.deadline = .due t
      ∧ w.refresher.wokenFor? ≠ some t ∧ w.wakings moves = [t] := by
  induction moves generalizing w with
  | nil => exact Or.inl rfl
  | cons m moves ih =>
      obtain ⟨kept, unmoved⟩ := Bool.and_eq_true_iff.mp unmoved
      have deadline : (w.apply m).cache.staleness.deadline = w.cache.staleness.deadline := by
        simpa [movesDeadline] using kept
      have spare' := (apply_tended spare m).1.trans spare
      have cases := refresher_cases spare m
      have current' : (w.apply m).refresher.IsCurrent (w.apply m).cache.staleness.deadline := by
        rw [deadline]
        rcases cases with same | ⟨_, _, _, next | ⟨_, _, next⟩⟩ | ⟨wokenFor, _, next⟩ | stops
        · exact same ▸ current
        · exact next ▸ trivial
        · exact next ▸ trivial
        · rw [next]
          rcases Refresher.arm_cases wokenFor w.cache.staleness.deadline with ⟨_, sets⟩ | ends
          · exact sets ▸ sets
          · exact ends ▸ trivial
        · cases task : (w.apply m).refresher with
          | idle | stopped => trivial
          | arming | armed => simp [task, Refresher.isRunning] at stops
      have later := ih spare' current' unmoved
      rw [deadline] at later
      cases wakes : w.waking? m with
      | some t =>
          obtain ⟨wokenFor, armed, next⟩ := waking_cases wakes
          rw [armed] at current
          obtain ⟨due, unwoken⟩ := current.deadline_eq
          refine Or.inr ⟨t, due, armed ▸ unwoken, ?_⟩
          rcases later with none | ⟨t', due', unwoken', _⟩
          · rw [wakings, wakes, none]
            rfl
          · rw [due, Deadline.due.injEq] at due'
            exact absurd (next ▸ due' ▸ rfl) unwoken'
      | none =>
          rw [wakings, wakes]
          rcases later with none | ⟨t, due, unwoken, once⟩
          · exact Or.inl none
          refine Or.inr ⟨t, due, ?_, once⟩
          rcases cases with same | ⟨wokenFor, alarm, armed, next | ⟨t', rfl, next⟩⟩
            | ⟨wokenFor, arming, next⟩ | stops
          · exact same ▸ unwoken
          · rw [armed]
            rw [next] at unwoken
            exact unwoken
          · rw [armed] at current
            rw [next, (Deadline.due.inj (due.symm.trans current.deadline_eq.1))] at unwoken
            exact absurd rfl unwoken
          · rw [arming]
            rw [next, due] at unwoken
            exact unwoken
          · rw [wakings_ended spare' stops] at once
            cases once

/-- **For each deadline the alarm goes off once at most**, until the deadline is moved. -/
theorem wakings_nodup (spare : w.hasSpareEnd = false) {moves : List (Move ε V)}
    (unmoved : w.never movesDeadline moves = true) : (w.wakings moves).Nodup := by
  induction moves generalizing w with
  | nil => exact List.nodup_nil
  | cons m moves ih =>
      obtain ⟨_, unmoved⟩ := Bool.and_eq_true_iff.mp unmoved
      have spare' := (apply_tended spare m).1.trans spare
      have later := ih spare' unmoved
      cases wakes : w.waking? m with
      | none =>
          rw [wakings, wakes]
          exact later
      | some t =>
          -- the deadline is ticked off, and only another can follow
          obtain ⟨_, _, next⟩ := waking_cases wakes
          have splits : w.wakings (m :: moves) = t :: (w.apply m).wakings moves := by
            rw [wakings, wakes]
            rfl
          rw [splits]
          refine List.nodup_cons.mpr ⟨fun again => ?_, later⟩
          rcases wakings_current spare' (next ▸ trivial) unmoved with none | ⟨t', _, unwoken, once⟩
          · rw [none] at again
            cases again
          · have same : t = t' := List.mem_singleton.mp (once ▸ again)
            exact absurd (next ▸ same ▸ rfl) unwoken

/-! ## §7. Every order ends, and in the same world. -/

/-- A refresher that a cache was born with is at work as long as it runs and the clock can name its
deadline. -/
theorem onDuty_run (settings : Settings) (bus : Option Bus) (surroundings : ε) (moves : List (Move ε V)) :
    let q := (selfRefreshing settings bus surroundings : World ε V).run moves
    q.refresher.isRunning = true → q.cache.staleness.deadline ≠ .overflow → q.OnDuty := by
  intro q running named
  exact ⟨running, spare_run rfl moves, (vigilant_run settings bus surroundings moves running).listening,
    named⟩

/-- Where the refresher rests, what is going to be left is what there is. -/
theorem OnDuty.ends {w : World ε V} (duty : w.OnDuty) {chores : List (Move ε V)}
    (all : chores.all Move.isChore = true) (rests : (w.run chores).isRefresherReady = false) :
    w.run chores = w.attended (w.run chores).refresher (w.run chores).cache.cell.version := by
  have rounds := duty.rounds all
  rw [← rounds.attended, rounds.duty.attended_self rests]

/-- Where it rests, its alarm is the foreseen one, and the cell was marked as often as there was reason to. -/
theorem OnDuty.settles {w : World ε V} (duty : w.OnDuty) {chores : List (Move ε V)}
    (all : chores.all Move.isChore = true) (rests : (w.run chores).isRefresherReady = false)
    (current : w.refresher.IsCurrent w.cache.staleness.deadline) :
    (w.run chores).refresher = Refresher.arm w.foreseen w.cache.staleness.deadline
      ∧ (w.run chores).cache.cell.version = w.cache.cell.version + w.marks := by
  have rounds := duty.rounds all
  obtain ⟨current', foreseen, marks⟩ := rounds.current current
  obtain ⟨set, none⟩ := rounds.duty.current_rest rests current'
  rw [foreseen, rounds.deadline] at set
  rw [none] at marks
  exact ⟨set, marks⟩

/-- **The order in which the refresher takes what is ready does not matter, and it does not spin.**  Whatever
waits — notices, signals, losses and the end on the bus, and the deadline, come or not — and in whichever
order it reacts to it: it reacts no more often than its load, it can always get to rest, and where it rests
the value is gone exactly if a notice said so, each such notice is counted, a trigger is pending
exactly if one was or was among the signals, the queues are empty, and the rest of the cache is as it
was.  If its alarm is the one for the deadline on the book, as it is whenever it has just been set,
then the deadline has woken the readers if it has come, and every two orders end in the very same world;
an alarm for a deadline that has moved since may go off first or be set anew first, which matters to
the refresher's own state and to the mark on the cell alone.  And until a recorded success moves the deadline, the alarm goes off once at most for each. -/
theorem rounds_confluent {w : World ε V} (duty : w.OnDuty) :
    let book := w.cache.staleness
    let cell := w.cache.cell
    (∀ chores : List (Move ε V), chores.all Move.isChore = true →
      w.reactions chores ≤ w.load
        ∧ ∃ more : List (Move ε V), more.all Move.isChore = true
          ∧ (w.run (chores ++ more)).isRefresherReady = false)
    ∧ (∀ chores : List (Move ε V), chores.all Move.isChore = true →
      let q := w.run chores
      q.isRefresherReady = false →
        q.cache.cell.phase = (if .flush ∈ book.notices then .flushed else cell.phase)
        ∧ q.cache.cell.revision = cell.revision
        ∧ q.cache.cell.counters = { cell.counters with
            invalidations := cell.counters.invalidations + book.notices.count .flush }
        ∧ q.cache.staleness = { book with
            notices := [], signalPending := book.signalPending || w.audible.any book.freshness.triggersOn }
        ∧ q.bus = w.bus.map Bus.heardOut
        ∧ q = w.attended q.refresher q.cache.cell.version
        ∧ (w.refresher.IsCurrent book.deadline →
          q.refresher.wokenFor? = Refresher.foreseen book.deadline w.now w.refresher.wokenFor?
          ∧ ∀ chores' : List (Move ε V), chores'.all Move.isChore = true →
            (w.run chores').isRefresherReady = false → w.run chores' = q))
    ∧ ∀ moves : List (Move ε V), w.never movesDeadline moves = true →
      (w.wakings moves).Nodup
        ∧ (w.refresher.IsCurrent book.deadline → (w.wakings moves).length ≤ 1) := by
  intro book cell
  refine ⟨fun chores all => ⟨?_, ?_⟩, fun chores all => ?_, fun moves unmoved => ⟨?_, fun current => ?_⟩⟩
  · have load := (duty.rounds all).load
    omega
  · obtain ⟨more, all', rests⟩ := (duty.rounds all).duty.comes_to_rest
    exact ⟨more, all', run_append w chores more ▸ rests⟩
  · intro q rests
    have left := duty.ends all rests
    refine ⟨?_, ?_, ?_, ?_, ?_, left, fun current => ⟨?_, fun chores' all' rests' => ?_⟩⟩
    · exact congrArg (·.cache.cell.phase) left
    · exact congrArg (·.cache.cell.revision) left
    · exact congrArg (·.cache.cell.counters) left
    · exact congrArg (·.cache.staleness) left
    · exact congrArg (·.bus) left
    · obtain ⟨alarm, sets⟩ := duty.sets w.foreseen
      show (w.run chores).refresher.wokenFor? = _
      rw [(duty.settles all rests current).1, sets]
      rfl
    · obtain ⟨refresher, version⟩ := duty.settles all rests current
      obtain ⟨refresher', version'⟩ := duty.settles all' rests' current
      show w.run chores' = w.run chores
      rw [duty.ends all' rests', left, refresher, version, refresher', version']
  · exact wakings_nodup duty.spare unmoved
  · rcases wakings_current duty.spare current unmoved with none | ⟨_, _, _, once⟩
    · rw [none]
      exact Nat.zero_le 1
    · rw [once]
      exact Nat.le_refl 1

/-- A trigger, another signal, a flush and a deadline that has come, all at once. -/
def busy : World Unit Nat :=
  (selfRefreshing { freshness := .of 10 [.loggedIn] } (some (.new 4)) ()).run
    [.arm, .recordSuccess, .react .notice, .arm, .publish .loggedIn, .publish .foreground, .flush, .pass 20]

/-- Notices first, then the bus, then the alarm. -/
def noticesFirst : List (Move Unit Nat) :=
  [.react .notice, .arm, .react .signal, .arm, .react .notice, .arm, .react .signal, .arm, .react .timer, .arm]

/-- The alarm first, then the bus, then the notices. -/
def alarmFirst : List (Move Unit Nat) :=
  [.react .timer, .arm, .react .signal, .arm, .react .signal, .arm, .react .notice, .arm, .react .notice, .arm]

/-- Both orders take five things and end in the same world, with the value gone, the trigger
pending, and the deadline ticked off; in one of them the alarm has gone off once. -/
theorem rounds_confluent_busy :
    busy.reactions noticesFirst ≤ 5 ∧ busy.run alarmFirst = busy.run noticesFirst
      ∧ (busy.run noticesFirst).cache.cell.phase = .flushed
      ∧ (busy.run noticesFirst).cache.cell.counters = { invalidations := 1 }
      ∧ (busy.run noticesFirst).cache.staleness.signalPending = true
      ∧ (busy.run noticesFirst).refresher.wokenFor? = some 10
      ∧ (busy.wakings alarmFirst).length ≤ 1 := by
  have duty : busy.OnDuty := ⟨by decide, by decide, by decide, by decide⟩
  have current : busy.refresher.IsCurrent busy.cache.staleness.deadline := by
    show Refresher.arm none _ = _
    decide
  obtain ⟨bounded, rests, wakes⟩ := rounds_confluent duty
  obtain ⟨phase, _, counters, book, _, _, same⟩ := rests noticesFirst (by decide) (by decide)
  obtain ⟨woken, confluent⟩ := same current
  refine ⟨Nat.le_trans (bounded noticesFirst (by decide)).1 (by decide),
    confluent alarmFirst (by decide) (by decide), phase.trans (by decide), counters.trans (by decide), ?_,
    woken.trans (by decide), (wakes alarmFirst (by decide)).2 current⟩
  rw [book]
  decide

end World

end SingleFlight
