/-
  SingleFlight.Proofs.Awaiting — one operation after another, each awaited to its end.

  An operation begins with one action of the program.  From then on the actors
  take their steps in any order, and time passes only when nobody can take
  one, and no further than to the next timer.  The operation is over when
  nobody can take a step, every read has its result, and who sleeps has come
  to the end of it.

  What the refresher does by the way hangs on what it was told and on what it
  hears.  `Tends` lists it; nothing else changes but its own state and the mark
  on the cell.  And since it has less before it after every step, `effort`, it
  always comes to rest.

  Main results:
    * `Upkeep.tends` — what a step of the refresher makes of the world.
    * `Upkeep.gets_on` — a refresher that is ready can get on.
    * `Waiting.ends` — who waits for an instant comes to it.
-/
import SingleFlight.Proofs.Memo
import SingleFlight.Proofs.Quiescence

namespace SingleFlight

variable {ε V : Type}

/-- What an item is to whoever reads: a value, or the words of a failed fetch. -/
def Item.result? : Item V → Option (Result V)
  | .value content => some (.ok content.value)
  | .failed (.fetchFailed _ reason) => some (.error reason)
  | _ => none

/-- What a signal makes of the book: it may make the value due, with a notice that says so. -/
structure Staleness.Observes (book : Staleness) (s : Signal) (book' : Staleness) : Prop where
  freshness : book'.freshness = book.freshness
  listening : book'.listening = book.listening
  lastSuccess : book'.lastSuccess = book.lastSuccess
  flushPending : book'.flushPending = book.flushPending
  signalPending : book'.signalPending = (book.signalPending || book.freshness.triggersOn s)
  notices : book'.notices = book.notices ∨ book'.notices = book.notices ++ [.refresh]

theorem Staleness.observes (book : Staleness) (s : Signal) : book.Observes s (book.observe s).1 := by
  unfold observe
  split
  next triggers =>
    unfold notify
    split
    · exact ⟨rfl, rfl, rfl, rfl, by simp [triggers], Or.inr rfl⟩
    · exact ⟨rfl, rfl, rfl, rfl, by simp [triggers], Or.inl rfl⟩
  next spared => exact ⟨rfl, rfl, rfl, rfl, by simp [spared], Or.inl rfl⟩

namespace Move

/-- A step of the refresher. -/
def isChore : Move ε V → Bool
  | .arm | .react _ => true
  | _ => false

/-- A step that an actor takes by itself. -/
def isOwn : Move ε V → Bool
  | .reader _ | .attempt _ => true
  | m => m.isChore

theorem isOwn_of_isChore {m : Move ε V} (chore : m.isChore = true) : m.isOwn = true := by
  cases m <;> first | rfl | cases chore

end Move

namespace World

/-! ## §1. Operations that are awaited. -/

/-- The action that an operation begins with. -/
def begin (w : World ε V) : Memo.Op → World ε V
  | .value => w.apply (.openReader .once .read)
  | .refresh => w.apply (.openReader .anew .read)
  | .invalidate => w.apply .invalidate
  | .flush => w.apply .flush
  | .signal s => w.apply (.publish s)
  | .sleep _ => w
  | .jump d => w.apply (.pass d)

/-- The instant until which an operation sleeps. -/
def alarm? (w : World ε V) : Memo.Op → Option Instant
  | .sleep d => some (w.now + d)
  | _ => none

/-- Every read has its result, and the alarm has gone off. -/
def IsOver (w : World ε V) (alarm : Option Instant) : Prop :=
  w.hasReads = false ∧ ∀ t, alarm = some t → w.now = t

/-- Nobody can take a step, and the operation is not over: time passes, up to the next timer at most. -/
structure Idles (w : World ε V) (alarm : Option Instant) (d : Duration) : Prop where
  settled : w.IsSettled
  waits : ¬ w.IsOver alarm
  alarm : ∀ t, alarm = some t → w.now + d ≤ t
  timers : ∀ t ∈ w.timers, w.now + d ≤ t

/-- The moves are one way to await an operation to its end. -/
def Awaits (alarm : Option Instant) : World ε V → List (Move ε V) → Prop
  | w, [] => w.IsSettled ∧ w.IsOver alarm
  | w, .pass d :: moves => w.Idles alarm d ∧ Awaits alarm (w.apply (.pass d)) moves
  | w, m :: moves => m.isOwn = true ∧ Awaits alarm (w.apply m) moves

/-- A world is led to another by operations, each awaited to its end in one way or another. -/
inductive Performs : World ε V → List Memo.Op → World ε V → Prop where
  | done (w : World ε V) : Performs w [] w
  | next {w w' : World ε V} {op : Memo.Op} {moves : List (Move ε V)} {ops : List Memo.Op}
      (awaits : (w.begin op).Awaits (w.alarm? op) moves)
      (rest : Performs ((w.begin op).run moves) ops w') : Performs w (op :: ops) w'

/-- The results of the reads so far, oldest first. -/
def results (w : World ε V) : List (Option (Result V)) :=
  (w.deliveries.map fun d => d.item.result?).reverse

/-- The operation can be awaited to its end. -/
def Ends (alarm : Option Instant) (w : World ε V) : Prop := ∃ moves, w.Awaits alarm moves

theorem Ends.move {alarm : Option Instant} {w : World ε V} {m : Move ε V}
    (h : Ends alarm (w.apply m)) (own : m.isOwn = true) : Ends alarm w := by
  obtain ⟨moves, awaits⟩ := h
  refine ⟨m :: moves, ?_⟩
  cases m <;> first | exact ⟨own, awaits⟩ | cases own

theorem Ends.pass {alarm : Option Instant} {w : World ε V} {d : Duration} (idles : w.Idles alarm d)
    (h : Ends alarm (w.apply (.pass d))) : Ends alarm w := by
  obtain ⟨moves, awaits⟩ := h
  exact ⟨.pass d :: moves, idles, awaits⟩

/-! ## §2. What the refresher does by the way. -/

/-- The signals on the bus that the refresher has not heard yet. -/
def unheard (w : World ε V) : List Signal := w.bus.elim [] Bus.queue

/-- The same but for the refresher, the mark on the cell, and the notices it has not taken. -/
def tended (w : World ε V) (refresher : Refresher) (version : Nat) (notices : List Notice) :
    World ε V :=
  { w with
    refresher
    cache := { w.cache with
      cell := { w.cache.cell with version }
      staleness := { w.cache.staleness with notices } } }

/-- A cached value with a one-shot source of values that can be copied, kept by a refresher.  The clock
is never to pass `limit`, and it can name the deadline of all that is stored until then. -/
structure Upkeep (terms : Terms ε V) (limit : Instant) (w : World ε V) : Prop where
  handle : w.hasHandle = true
  owner : w.hasOwner = true
  surroundings : w.surroundings = terms.surroundings
  freshness : w.cache.staleness.freshness = terms.freshness
  listening : w.cache.staleness.listening = true
  bound : ∃ source, w.cache.dispatcher.binding = some source ∧ source.shape = .oneShot terms.call
  pacing : w.cache.dispatcher.pacing = .unpaced
  stream : w.cache.dispatcher.stream = none
  sound : w.cache.cell.broken = none
  running : w.refresher.isRunning = true
  tuned : w.bus.isSome = terms.bus.isSome
  bus : ∀ b, w.bus = some b → b.isOpen = true ∧ b.hasReceiver = true ∧ b.missed = 0 ∧ 0 < b.capacity
  dated : ∀ t, w.cache.staleness.lastSuccess = some t → t ≤ limit
  now : w.now ≤ limit
  named : limit + terms.freshness.interval < Instant.horizon
  copied : ∀ n p, terms.call n = some p → ∀ t, p.outcome terms.surroundings t ≠ .uncopyable

/-- What a move of the refresher makes of a world. -/
inductive Tends (w : World ε V) : World ε V → Prop where
  /-- It takes a notice at most, and not one to throw the value away. -/
  | minds (refresher : Refresher) (version : Nat) (notices : List Notice)
      (running : refresher.isRunning = true)
      (taken : notices = w.cache.staleness.notices
        ∨ ∃ n, n ≠ .flush ∧ w.cache.staleness.notices = n :: notices) :
      Tends w (w.tended refresher version notices)
  /-- It takes a notice to throw the value away. -/
  | flushes (refresher : Refresher) (version : Nat) (notices : List Notice)
      (running : refresher.isRunning = true) (taken : w.cache.staleness.notices = .flush :: notices) :
      Tends w ((w.withCache Cache.invalidate).tended refresher version notices)
  /-- It hears a signal. -/
  | hears (refresher : Refresher) (b : Bus) (s : Signal) (queue : List Signal)
      (running : refresher.isRunning = true) (bus : w.bus = some b) (taken : b.queue = s :: queue) :
      Tends w { (w.withStaleness fun book => (book.observe s).1) with
        bus := some { b with queue }, refresher }

variable {terms : Terms ε V} {limit : Instant} {w : World ε V}

/-- The clock can name the deadline, so the refresher arms itself. -/
theorem Upkeep.arms (h : Upkeep terms limit w) (wokenFor : Option Instant) :
    ∃ deadline, Refresher.arm wokenFor w.cache.staleness.deadline = .armed wokenFor deadline := by
  unfold Staleness.deadline
  rw [h.freshness]
  split
  · exact ⟨none, rfl⟩
  · cases last : w.cache.staleness.lastSuccess with
    | none => exact ⟨none, rfl⟩
    | some t =>
        have named : t + (terms.freshness.interval : Instant) < Instant.horizon :=
          Int.lt_of_le_of_lt (Int.add_le_add_right (h.dated t last) _) h.named
        simp only [Instant.later?_eq named]
        exact ⟨_, rfl⟩

/-- What the refresher finds on the bus is the oldest signal it has not heard. -/
theorem Upkeep.receive (h : Upkeep terms limit w) {b : Bus} (bus : w.bus = some b) :
    b.receive? = match b.queue with
      | s :: queue => some (.signal s, { b with queue })
      | [] => none := by
  obtain ⟨isOpen, receiver, missed, _⟩ := h.bus b bus
  unfold Bus.receive?
  simp only [receiver, missed, isOpen, if_true]
  rfl

/-- **What a move of the refresher makes of a world that is kept up.** -/
theorem Upkeep.tends (h : Upkeep terms limit w) {m : Move ε V} (chore : m.isChore = true) :
    Tends w (w.apply m) := by
  have same : Tends w w := .minds w.refresher w.cache.cell.version _ h.running (Or.inl rfl)
  cases m with
  | arm =>
      show Tends w w.armRefresher
      unfold armRefresher
      split
      next wokenFor arming =>
        obtain ⟨deadline, armed⟩ := h.arms wokenFor
        rw [armed]
        exact .minds _ w.cache.cell.version _ rfl (Or.inl rfl)
      next => exact same
  | react cue =>
      show Tends w (w.react cue)
      unfold react
      split
      next wokenFor deadline armed =>
        cases cue with
        | notice =>
            dsimp only
            split
            next notice rest taken =>
              cases notice with
              | flush => exact .flushes _ (w.cache.cell.version + 1) rest rfl taken
              | refresh =>
                  exact .minds _ (w.cache.cell.version + 1) rest rfl (Or.inr ⟨.refresh, nofun, taken⟩)
              | reschedule =>
                  exact .minds _ w.cache.cell.version rest rfl (Or.inr ⟨.reschedule, nofun, taken⟩)
            next => exact same
        | signal =>
            dsimp only
            cases bus : w.bus with
            | none => exact same
            | some b =>
                rw [Option.bind_some, h.receive bus]
                cases queue : b.queue with
                | nil => exact same
                | cons s rest => exact .hears _ b s rest rfl bus queue
        | timer =>
            dsimp only
            split
            · exact .minds _ (w.cache.cell.version + 1) _ rfl (Or.inl rfl)
            · exact same
      next => exact same
  | _ => cases chore

/-- The refresher keeps up what is kept up. -/
theorem Upkeep.tended {w' : World ε V} (h : Upkeep terms limit w) (t : Tends w w') :
    Upkeep terms limit w' := by
  cases t with
  | minds _ _ _ running => exact { h with running }
  | flushes _ _ _ running => exact { h with running }
  | hears refresher b s queue running bus =>
      have heard := h.bus b bus
      have book := w.cache.staleness.observes s
      exact { h with
        running
        freshness := book.freshness.trans h.freshness
        listening := book.listening.trans h.listening
        dated := fun t last => h.dated t (book.lastSuccess.symm.trans last)
        tuned := (congrArg Option.isSome bus).symm.trans h.tuned
        bus := fun b' same => Option.some.inj same ▸ heard }

/-- Time passes up to the limit. -/
theorem Upkeep.pass (h : Upkeep terms limit w) {d : Duration} (ahead : w.now + d ≤ limit) :
    w.apply (.pass d) = { w with now := w.now + d } := by
  have named : w.now + (d : Instant) < Instant.horizon :=
    Int.lt_of_le_of_lt ahead (Int.lt_of_le_of_lt (limit.le_add _) h.named)
  show { w with now := (w.now.later? d).getD w.now } = _
  rw [Instant.later?_eq named, Option.getD_some]

end World

/-! ## §3. The refresher comes to rest. -/

namespace Refresher

/-- How often the alarm of a refresher can go off before it is told anything new. -/
def alarms (deadline : Deadline) : Refresher → Nat
  | armed _ (some t) => if arm (some t) deadline = armed (some t) none then 1 else 2
  | _ => 0

/-- A refresher that has just armed itself has one alarm before it at most. -/
theorem alarms_arm_le (wokenFor : Option Instant) (deadline : Deadline) :
    (arm wokenFor deadline).alarms deadline ≤ 1 := by
  cases deadline with
  | unset | overflow => exact Nat.zero_le 1
  | due t =>
      unfold arm
      dsimp only
      split
      · exact Nat.zero_le 1
      · simp [alarms, arm]

/-- Each time the alarm goes off there is one less to come. -/
theorem alarms_rearm_lt (wokenFor : Option Instant) (t : Instant) (deadline : Deadline) :
    (arm (some t) deadline).alarms deadline < (armed wokenFor (some t)).alarms deadline := by
  have least := alarms_arm_le (some t) deadline
  have after : (arm (some t) deadline).alarms deadline
      < if arm (some t) deadline = armed (some t) none then 1 else 2 := by
    split
    next last => rw [last]; exact Nat.zero_lt_one
    next => omega
  exact after

/-- How much a refresher has before it that was told nothing. -/
def effort (deadline : Deadline) : Refresher → Nat
  | arming wokenFor => 2 * (arm wokenFor deadline).alarms deadline + 1
  | task => 2 * task.alarms deadline

theorem effort_arming_le (wokenFor : Option Instant) (deadline : Deadline) :
    (arming wokenFor).effort deadline ≤ 3 := by
  have again := alarms_arm_le wokenFor deadline
  show 2 * (arm wokenFor deadline).alarms deadline + 1 ≤ 3
  omega

end Refresher

namespace World

variable {terms : Terms ε V} {limit : Instant} {w : World ε V}

/-- How much the refresher has before it until it comes to rest. -/
def effort (w : World ε V) : Nat :=
  -- a notice makes it arm itself anew, and a signal may leave a notice besides
  8 * w.unheard.length + 4 * w.cache.staleness.notices.length
    + w.refresher.effort w.cache.staleness.deadline

/-- **A refresher that is ready can get on.** -/
theorem Upkeep.gets_on (h : Upkeep terms limit w) (ready : w.isRefresherReady = true) :
    ∃ m : Move ε V, m.isChore = true ∧ (w.apply m).effort < w.effort := by
  unfold isRefresherReady at ready
  cases task : w.refresher with
  | idle | stopped =>
      rw [task] at ready
      cases ready
  | arming wokenFor =>
      obtain ⟨deadline, armed⟩ := h.arms wokenFor
      refine ⟨.arm, rfl, ?_⟩
      have arms : w.apply .arm = { w with refresher := .armed wokenFor deadline } := by
        show w.armRefresher = _
        simp only [armRefresher, task, armed]
      have rearmed : (Refresher.armed wokenFor deadline).effort w.cache.staleness.deadline
          < w.refresher.effort w.cache.staleness.deadline := by
        rw [task, Refresher.effort, armed]
        exact Nat.lt_succ_self _
      rw [arms]
      exact Nat.add_lt_add_left rearmed _
  | armed wokenFor deadline =>
      rw [task] at ready
      obtain ⟨cue, _, has⟩ := List.find?_isSome.mp ready
      refine ⟨.react cue, rfl, ?_⟩
      show (w.react cue).effort < _
      unfold react
      rw [task]
      cases cue with
      | notice =>
          cases notices : w.cache.staleness.notices with
          | nil => simp [hasCue, notices] at has
          | cons n rest =>
              -- whatever it does with the notice, it arms itself next
              have arms := Refresher.effort_arming_le wokenFor w.cache.staleness.deadline
              have fewer : 8 * w.unheard.length + 4 * rest.length
                  + (Refresher.arming wokenFor).effort w.cache.staleness.deadline < w.effort := by
                unfold effort
                rw [notices, List.length_cons]
                omega
              cases n <;> exact fewer
      | signal =>
          cases bus : w.bus with
          | none => simp [hasCue, bus] at has
          | some b =>
              dsimp only
              rw [Option.bind_some, h.receive bus]
              cases queue : b.queue with
              | nil => simp [hasCue, bus, h.receive bus, queue] at has
              | cons s rest =>
                  have book := w.cache.staleness.observes s
                  have same := Staleness.deadline_eq book.freshness book.lastSuccess
                  have arms := Refresher.effort_arming_le wokenFor w.cache.staleness.deadline
                  have told : (w.cache.staleness.observe s).1.notices.length
                      ≤ w.cache.staleness.notices.length + 1 := by
                    rcases book.notices with kept | more
                    · rw [kept]
                      exact Nat.le_succ _
                    · rw [more, List.length_append]
                      exact Nat.le_refl _
                  have waiting : w.unheard.length = rest.length + 1 := by
                    simp [unheard, bus, queue]
                  have fewer : 8 * rest.length + 4 * (w.cache.staleness.observe s).1.notices.length
                      + (Refresher.arming wokenFor).effort (w.cache.staleness.observe s).1.deadline
                        < w.effort := by
                    unfold effort
                    rw [same, waiting]
                    omega
                  exact fewer
      | timer =>
          cases deadline with
          | none => simp [hasCue, task, Refresher.timer?] at has
          | some t =>
              dsimp only
              rw [if_pos has]
              -- it ticks this deadline off, and will not set its alarm for it again
              have later := Refresher.alarms_rearm_lt wokenFor t w.cache.staleness.deadline
              have fewer : (Refresher.arming (some t)).effort w.cache.staleness.deadline
                  < w.refresher.effort w.cache.staleness.deadline := by
                rw [task]
                show 2 * (Refresher.arm (some t) _).alarms _ + 1
                  < 2 * (Refresher.armed _ (some t)).alarms _
                omega
              exact Nat.add_lt_add_left fewer _

/-! ## §4. Waiting for an instant. -/

/-- The worlds in which somebody waits for the instant `goal`, and nobody but the refresher takes a step
until then. -/
structure Waiting (terms : Terms ε V) (limit : Instant) (alarm : Option Instant) (goal : Instant)
    (P : World ε V → Prop) : Prop where
  kept : ∀ w, P w → Upkeep terms limit w
  ahead : ∀ w, P w → w.now ≤ goal
  within : goal ≤ limit
  chore : ∀ w (m : Move ε V), P w → m.isChore = true → P (w.apply m)
  pass : ∀ w (d : Duration), P w → w.now + d ≤ goal → P (w.apply (.pass d))
  rests : ∀ w, P w → w.isRefresherReady = false → w.now < goal → w.IsSettled ∧ ¬ w.IsOver alarm
  sleeps : ∀ t, alarm = some t → goal ≤ t
  timers : ∀ w, P w → ∀ a ∈ w.cache.dispatcher.running, ∀ t, a.timer? = some t → goal ≤ t
  arrived : ∀ w, P w → w.isRefresherReady = false → w.now = goal → Ends alarm w

/-- An armed refresher that is not ready sleeps until a time to come. -/
theorem ahead_of_idle (idle : w.isRefresherReady = false) {t : Instant}
    (alarm : w.refresher.timer? = some t) : w.now < t := by
  unfold isRefresherReady at idle
  cases task : w.refresher with
  | idle | stopped | arming =>
      rw [task] at alarm
      cases alarm
  | armed wokenFor deadline =>
      rw [task] at idle
      have silent : w.hasCue .timer = false := by
        have none := List.find?_eq_none.mp (Option.not_isSome_iff_eq_none.mp (Bool.eq_false_iff.mp idle))
        simpa using none .timer (by simp)
      rw [hasCue, alarm] at silent
      simpa using silent

/-- How far time passes: to the goal, or to a timer that comes first. -/
theorem exists_stop {now goal : Instant} {timer : Option Instant} (before : now < goal)
    (ahead : ∀ t, timer = some t → now < t) :
    ∃ d : Duration, now + d ≤ goal ∧ (∀ t, timer = some t → now + d ≤ t)
      ∧ (now + d ≠ goal → timer = some (now + d)) := by
  cases timer with
  | none =>
      obtain ⟨d, rfl⟩ := Int.le.dest (Int.le_of_lt before)
      exact ⟨d, Int.le_refl _, fun _ ht => (nomatch ht), fun other => (other rfl).elim⟩
  | some t =>
      rcases Int.le_total t goal with first | last
      · obtain ⟨d, rfl⟩ := Int.le.dest (Int.le_of_lt (ahead t rfl))
        exact ⟨d, first, fun _ ht => Int.le_of_eq (Option.some.inj ht), fun _ => rfl⟩
      · obtain ⟨d, rfl⟩ := Int.le.dest (Int.le_of_lt before)
        exact ⟨d, Int.le_refl _, fun _ ht => Option.some.inj ht ▸ last, fun other => (other rfl).elim⟩

/-- **Who waits for an instant comes to it**, whatever the refresher has to do until then. -/
theorem Waiting.ends {alarm : Option Instant} {goal : Instant} {P : World ε V → Prop}
    (h : Waiting terms limit alarm goal P) {w : World ε V} (hw : P w) : Ends alarm w := by
  -- by induction on what the refresher has before it, which time alone leaves as it is
  induction effort : w.effort using Nat.strongRecOn generalizing w with
  | ind n ih =>
      -- a refresher that is ready goes first, since time stands still until nobody can take a step
      have busy {p : World ε V} (hp : P p) (ready : p.isRefresherReady = true) (same : p.effort = n) :
          Ends alarm p := by
        obtain ⟨m, chore, less⟩ := (h.kept p hp).gets_on ready
        exact (ih _ (same ▸ less) (h.chore p m hp chore) rfl).move (Move.isOwn_of_isChore chore)
      cases ready : w.isRefresherReady with
      | true => exact busy hw ready effort
      | false =>
          rcases Int.lt_or_eq_of_le (h.ahead w hw) with before | now
          · obtain ⟨d, within, first, rings⟩ := exists_stop before fun t => ahead_of_idle ready
            obtain ⟨settled, waits⟩ := h.rests w hw ready before
            have passed := (h.kept w hw).pass (Int.le_trans within h.within)
            have hp := h.pass w d hw within
            refine .pass ⟨settled, waits, fun t ht => Int.le_trans within (h.sleeps t ht), ?_⟩ ?_
            · intro t ht
              rcases List.mem_append.mp ht with own | other
              · exact first t (Option.mem_toList.mp own)
              · obtain ⟨a, ha, timer⟩ := List.mem_filterMap.mp other
                exact Int.le_trans within (h.timers w hw a ha t timer)
            · rw [passed] at hp ⊢
              cases again : World.isRefresherReady { w with now := w.now + d } with
              | true => exact busy hp again effort
              | false =>
                  refine h.arrived _ hp again (Decidable.byContradiction fun short => ?_)
                  -- its alarm would have gone off
                  exact Int.lt_irrefl _ (ahead_of_idle again (rings short))
          · exact h.arrived w hw ready now

end World

end SingleFlight
