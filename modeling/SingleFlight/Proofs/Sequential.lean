/-
  SingleFlight.Proofs.Sequential — one operation after another, a cached value is a memo.

  Between two operations a world amounts to a memo.  While one is under way,
  one can tell at every moment what the memo will be when it is over, and
  which results will have been given: `Course` keeps both, whatever steps the
  actors take in whatever order.  What is not a read hangs on what the
  refresher has yet to be told and to hear (`Idle`); a read goes through its
  stages (`Serving`).

  Main results:
    * `Course.awaited` — where an operation leads, however it is awaited.
    * `Course.ends` — it can be awaited.
    * `sequential` — the cache gives the results of the memo, holds what it holds, and calls as often.
-/
import SingleFlight.Proofs.Serving

namespace SingleFlight

variable {ε V : Type}

theorem Bus.powerFrom_pos (n fuel : Nat) {p : Nat} (positive : 0 < p) : 0 < powerFrom n fuel p := by
  induction fuel generalizing p with
  | zero => exact positive
  | succ fuel ih =>
      unfold powerFrom
      split
      · exact positive
      · exact ih (Nat.mul_pos Nat.two_pos positive)

namespace World

variable {terms : Terms ε V} {limit : Instant} {alarm : Option Instant} {w : World ε V}
variable {goal : Memo V × List (Option (Result V))}

/-! ## §1. No read on the way. -/

/-- What the memo will be when the refresher has taken all that it was told and heard all that waits on
the bus, and the alarm has gone off. -/
def outlook (terms : Terms ε V) (alarm : Option Instant) (w : World ε V) : Memo V where
  held := if .flush ∈ w.cache.staleness.notices then none else w.memo.held
  dirty := w.memo.dirty || w.unheard.any terms.triggersOn
  calls := w.memo.calls
  now := alarm.getD w.now

/-- No read is on its way, and the world will amount to a memo. -/
structure Idle (terms : Terms ε V) (limit : Instant) (alarm : Option Instant)
    (goal : Memo V × List (Option (Result V))) (w : World ε V) : Prop
    extends Upkeep terms limit w, Poised [] w where
  ahead : w.now ≤ goal.1.now
  memo : w.outlook terms alarm = goal.1
  results : w.results = goal.2

/-- **The refresher does what is to come of it.** -/
theorem Idle.chore (h : Idle terms limit alarm goal w) {m : Move ε V} (chore : m.isChore = true) :
    Idle terms limit alarm goal (w.apply m) := by
  have tends := h.tends chore
  have kept := h.toUpkeep.tended tends
  generalize w.apply m = w' at tends kept ⊢
  cases tends with
  | minds refresher version notices running taken =>
      have same : .flush ∈ w.cache.staleness.notices ↔ .flush ∈ notices := by
        rcases taken with same | ⟨n, other, more⟩
        · rw [same]
        · rw [more, List.mem_cons]
          exact or_iff_right fun flush => other flush.symm
      have memo := h.memo
      simp only [outlook, same] at memo
      exact { kept, h.toPoised.tended same.mp refresher version with
        ahead := h.ahead, memo, results := h.results }
  | flushes refresher version notices running taken =>
      have memo : ((w.withCache Cache.invalidate).tended refresher version notices).outlook terms alarm
          = w.outlook terms alarm := by
        unfold outlook
        rw [taken, if_pos List.mem_cons_self]
        -- there is nothing left to throw away
        show Memo.mk (if Notice.flush ∈ notices then none else none) _ _ _ = _
        rw [ite_self]
        rfl
      exact { kept, h.toPoised with
        resting := nofun
        held := nofun
        ahead := h.ahead
        memo := memo.trans h.memo
        results := h.results }
  | hears refresher b s queue running bus taken =>
      have book := w.cache.staleness.observes s
      -- the refresher goes by its own book, which is kept on the same terms
      have triggers : terms.triggersOn s = w.cache.staleness.freshness.triggersOn s := by
        rw [Terms.triggersOn, ← h.tuned, bus, h.freshness]
        exact Bool.true_and _
      have waiting : w.unheard = s :: queue := by
        rw [unheard, bus]
        exact taken
      unfold withStaleness at kept ⊢
      dsimp only [withCache] at kept ⊢
      generalize (w.cache.staleness.observe s).1 = book' at book kept ⊢
      have same : .flush ∈ book'.notices ↔ .flush ∈ w.cache.staleness.notices := by
        rcases book.notices with same | more
        · rw [same]
        · rw [more]
          simp
      have held : ∀ v, w.cache.cell.phase = .holding v →
          ∃ content t, v = .concealed content ∧ book'.lastSuccess = some t
            ∧ (book'.flushPending = true → .flush ∈ book'.notices) := by
        intro v holding
        obtain ⟨content, t, concealed, last, flushed⟩ := h.held v holding
        rw [book.lastSuccess, book.flushPending, same]
        exact ⟨content, t, concealed, last, flushed⟩
      have memo := h.memo
      simp only [outlook, World.memo, waiting, List.any_cons, triggers, ← same, ← book.lastSuccess,
        ← Bool.or_assoc, ← book.signalPending] at memo
      exact { kept, h.toPoised with held, ahead := h.ahead, memo, results := h.results }

/-- There is nobody else to take a step. -/
theorem Idle.move (h : Idle terms limit alarm goal w) {m : Move ε V} (own : m.isOwn = true) :
    Idle terms limit alarm goal (w.apply m) := by
  cases m with
  | arm => exact h.chore rfl
  | react cue => exact h.chore rfl
  | reader key =>
      have nobody : w.apply (.reader key) = w := by
        show w.advanceReader key = w
        simp [advanceReader, seat?, h.seats]
      rw [nobody]
      exact h
  | attempt n =>
      rw [apply_absent (by simp [Dispatcher.attempt?, h.unattempted])]
      exact h
  | _ => cases own

theorem Idle.goal_now (h : Idle terms limit alarm goal w) : goal.1.now = alarm.getD w.now := by
  rw [← h.memo]
  rfl

/-- Time passes, up to the alarm. -/
theorem Idle.pass (h : Idle terms limit alarm goal w) (within : goal.1.now ≤ limit) {d : Duration}
    (ahead : w.now + d ≤ goal.1.now) : Idle terms limit alarm goal (w.apply (.pass d)) := by
  have now := Int.le_trans ahead within
  rw [h.toUpkeep.pass now]
  have memo : World.outlook terms alarm { w with now := w.now + d } = w.outlook terms alarm := by
    have same : alarm.getD (w.now + d) = alarm.getD w.now := by
      have goal_now := h.goal_now
      cases alarm with
      | some t => rfl
      | none =>
          rw [goal_now] at ahead
          exact Int.le_antisymm ahead (w.now.le_add d)
    show { w.outlook terms alarm with now := alarm.getD (w.now + d) } = _
    rw [same]
    rfl
  exact { h with now, ahead, memo := memo.trans h.memo }

/-- Nobody takes a step once the refresher is at rest. -/
theorem Idle.settled (h : Idle terms limit alarm goal w) (idle : w.isRefresherReady = false) :
    w.IsSettled := by
  intro actor listed
  simp only [actors, h.seats, h.unattempted, List.map_nil, List.append_nil, List.mem_singleton] at listed
  subst listed
  exact idle

theorem Idle.isOver_iff (h : Idle terms limit alarm goal w) : w.IsOver alarm ↔ w.now = goal.1.now := by
  have goal_now := h.goal_now
  unfold IsOver
  rw [goal_now]
  cases alarm <;> simp [hasReads, h.seats]

/-- **What is not a read comes to its end**, however far it has come. -/
theorem Idle.ends (h : Idle terms limit alarm goal w) (within : goal.1.now ≤ limit) : Ends alarm w := by
  have waiting : Waiting terms limit alarm goal.1.now (Idle terms limit alarm goal) := by
    constructor
    case kept => exact fun p hp => hp.toUpkeep
    case ahead => exact fun p hp => hp.ahead
    case within => exact within
    case chore => exact fun p m hp => hp.chore
    case pass => exact fun p d hp => hp.pass within
    case rests =>
      intro p hp idle early
      refine ⟨hp.settled idle, fun ended => ?_⟩
      exact absurd (hp.isOver_iff.mp ended) (Int.ne_of_lt early)
    case sleeps =>
      intro t set
      rw [h.goal_now, set]
      exact Int.le_refl t
    case timers =>
      intro p hp a ha
      rw [hp.unattempted] at ha
      cases ha
    case arrived => exact fun p hp idle now => ⟨[], hp.settled idle, hp.isOver_iff.mpr now⟩
  exact waiting.ends h

/-- Nothing is on its way at all: the refresher has taken all notices and heard all signals. -/
structure Rested (terms : Terms ε V) (limit : Instant) (w : World ε V) : Prop
    extends Upkeep terms limit w, Poised [] w where
  unnotified : w.cache.staleness.notices = []
  heard : w.unheard = []

/-- A refresher that is not ready has taken all notices, and heard all signals. -/
theorem Upkeep.quiet (h : Upkeep terms limit w) (idle : w.isRefresherReady = false) :
    w.cache.staleness.notices = [] ∧ w.unheard = [] := by
  have running := h.running
  unfold isRefresherReady at idle
  cases task : w.refresher with
  | idle | stopped => rw [task] at running; cases running
  | arming => rw [task] at idle; cases idle
  | armed wokenFor deadline =>
      rw [task] at idle
      have silent := List.find?_eq_none.mp (Option.not_isSome_iff_eq_none.mp (Bool.eq_false_iff.mp idle))
      have notice := silent .notice (by simp)
      have signal := silent .signal (by simp)
      refine ⟨by simpa [hasCue] using notice, ?_⟩
      unfold unheard
      cases bus : w.bus with
      | none => rfl
      | some b =>
          cases queue : b.queue with
          | nil => exact queue
          | cons s rest => simp [hasCue, bus, h.receive bus, queue] at signal

/-- **Where it leads**: to a world at rest, that amounts to the memo. -/
theorem Idle.ended (h : Idle terms limit alarm goal w) (settled : w.IsSettled) (ended : w.IsOver alarm) :
    Rested terms limit w ∧ w.memo = goal.1 ∧ w.results = goal.2 := by
  obtain ⟨unnotified, heard⟩ := h.toUpkeep.quiet settled.refresher
  refine ⟨{ h with unnotified, heard }, ?_, h.results⟩
  have now : alarm.getD w.now = w.now := h.goal_now.symm.trans (h.isOver_iff.mp ended).symm
  rw [← h.memo]
  simp only [outlook, unnotified, heard, now, List.not_mem_nil, if_false, List.any_nil, Bool.or_false]
  rfl

/-! ## §2. The course of an operation. -/

/-- A read that has its result leaves nothing to come. -/
theorem Fulfilled.idle {before : List (Option (Result V))} {fate : Memo V × Result V}
    (h : Fulfilled terms limit before fate w) :
    Idle terms limit none (fate.1, before ++ [some fate.2]) w := by
  have outlook : w.outlook terms none = fate.1 := by
    rw [← h.memo, World.outlook, if_neg h.unflushed, h.heard, List.any_nil, Bool.or_false]
    rfl
  have ahead : w.now ≤ fate.1.now := by
    rw [← h.memo]
    exact Int.le_refl _
  exact { h.toTranquil, h.toPoised with ahead, memo := outlook }

/-- An operation is under way, and will lead to the memo and the results of `goal`. -/
inductive Course (terms : Terms ε V) (limit : Instant) (alarm : Option Instant)
    (goal : Memo V × List (Option (Result V))) (w : World ε V) : Prop where
  | idle (h : Idle terms limit alarm goal w)
  | reading {key : Nat} {before : List (Option (Result V))} {fate : Memo V × Result V}
      (h : Serving terms limit before key fate w) (unset : alarm = none)
      (result : goal = (fate.1, before ++ [some fate.2]))

/-- **Every step leaves the operation on its course.** -/
theorem Course.move (h : Course terms limit alarm goal w) (reachable : Reachable w) {m : Move ε V}
    (own : m.isOwn = true) : Course terms limit alarm goal (w.apply m) := by
  cases h with
  | idle h => exact .idle (h.move own)
  | reading h unset result =>
      rcases h.move reachable own with serving | fulfilled
      · exact .reading serving unset result
      · rw [unset, result]
        exact .idle fulfilled.idle

/-- And so does the passing of time. -/
theorem Course.pass (h : Course terms limit alarm goal w) (reachable : Reachable w)
    (within : goal.1.now ≤ limit) {d : Duration} (idles : w.Idles alarm d) :
    Course terms limit alarm goal (w.apply (.pass d)) := by
  cases h with
  | idle h =>
      refine .idle (h.pass within ?_)
      -- somebody sleeps, or it would be over
      have goal_now := h.goal_now
      cases alarm with
      | none => exact absurd (h.isOver_iff.mpr goal_now.symm) idles.waits
      | some t =>
          rw [goal_now]
          exact idles.alarm t rfl
  | reading h unset result =>
      subst unset result
      exact .reading (h.pass reachable within idles) rfl rfl

/-- **Where an operation leads, however it is awaited.** -/
theorem Course.awaited (h : Course terms limit alarm goal w) (reachable : Reachable w)
    (within : goal.1.now ≤ limit) {moves : List (Move ε V)} (awaits : w.Awaits alarm moves) :
    Rested terms limit (w.run moves) ∧ (w.run moves).memo = goal.1
      ∧ (w.run moves).results = goal.2 := by
  induction moves generalizing w with
  | nil =>
      obtain ⟨settled, ended⟩ := awaits
      cases h with
      | idle h => exact h.ended settled ended
      | reading h unset _ => exact absurd (unset ▸ ended) h.not_over
  | cons m moves ih =>
      rw [run_cons]
      cases m with
      | pass d => exact ih (h.pass reachable within awaits.1) (reachable.move _) awaits.2
      | reader key => exact ih (h.move reachable rfl) (reachable.move _) awaits.2
      | attempt n => exact ih (h.move reachable rfl) (reachable.move _) awaits.2
      | arm => exact ih (h.move reachable rfl) (reachable.move _) awaits.2
      | react cue => exact ih (h.move reachable rfl) (reachable.move _) awaits.2
      | _ => cases awaits.1

/-- **An operation can be awaited**, however far it has come. -/
theorem Course.ends (h : Course terms limit alarm goal w) (reachable : Reachable w)
    (within : goal.1.now ≤ limit) : Ends alarm w := by
  cases h with
  | idle h => exact h.ends within
  | reading h unset result =>
      subst unset result
      exact h.ends reachable within fun p fulfilled => fulfilled.idle.ends within

/-! ## §3. One operation after another. -/

/-- The memo and the results that an operation leads to. -/
def goalOf (terms : Terms ε V) (w : World ε V) (op : Memo.Op) : Memo V × List (Option (Result V)) :=
  ((w.memo.step terms op).1, w.results ++ (w.memo.step terms op).2.toList.map some)

theorem Reachable.begin (reachable : Reachable w) (op : Memo.Op) : Reachable (w.begin op) := by
  unfold World.begin
  split
  all_goals first | exact reachable.move _ | exact reachable

/-- A world at rest amounts to its memo. -/
theorem Rested.outlook (h : Rested terms limit w) (alarm : Option Instant) :
    w.outlook terms alarm = { w.memo with now := alarm.getD w.now } := by
  simp [World.outlook, h.unnotified, h.heard]

/-- A read starts from rest. -/
theorem Rested.reads (h : Rested terms limit w) {reading : Reading} {fate : Memo V × Result V}
    (asks : Asks terms (w.apply (.openReader reading .read)) (.new reading) fate) :
    Course terms limit none (fate.1, w.results ++ [some fate.2])
      (w.apply (.openReader reading .read)) := by
  have opened : w.apply (.openReader reading .read)
      = { w with seats := [⟨w.nextKey, .read, .new reading⟩], nextKey := w.nextKey + 1 } := by
    show w.openReader reading .read = _
    rw [openReader, if_pos h.handle, h.seats]
    rfl
  rw [opened] at asks ⊢
  have unflushed : .flush ∉ w.cache.staleness.notices := by
    rw [h.unnotified]
    exact List.not_mem_nil
  have asking : Asking terms limit w.results w.nextKey (.new reading) fate
      { w with seats := [⟨w.nextKey, .read, .new reading⟩], nextKey := w.nextKey + 1 } :=
    { h with unflushed, results := rfl, seats := rfl, asks }
  exact .reading (.asking asking) rfl rfl

/-- An operation that is no read begins with its effect in view. -/
theorem begins_idle {op : Memo.Op} {w' : World ε V} (unread : (w.memo.step terms op).2 = none)
    (kept : Upkeep terms limit w') (poised : Poised [] w')
    (ahead : w'.now ≤ (w.memo.step terms op).1.now)
    (outlook : w'.outlook terms alarm = (w.memo.step terms op).1) (results : w'.results = w.results) :
    Course terms limit alarm (w.goalOf terms op) w' := by
  have given : w'.results = (w.goalOf terms op).2 := by
    unfold goalOf
    rw [unread, results]
    exact (List.append_nil _).symm
  exact .idle { kept, poised with ahead, memo := outlook, results := given }

/-- The value is thrown away at once. -/
theorem Rested.invalidates (h : Rested terms limit w) :
    Course terms limit none (w.goalOf terms .invalidate) (w.begin .invalidate) := by
  have begins : w.begin .invalidate = w.withCache Cache.invalidate := if_pos h.handle
  rw [begins]
  refine begins_idle rfl { h with } { h with resting := nofun, held := nofun } (Int.le_refl _) ?_ rfl
  show Memo.mk (if Notice.flush ∈ w.cache.staleness.notices then none else none)
    (w.memo.dirty || w.unheard.any _) _ _ = _
  rw [ite_self, h.heard, List.any_nil, Bool.or_false]
  rfl

/-- The refresher is asked to throw the value away. -/
theorem Rested.flushes (h : Rested terms limit w) :
    Course terms limit none (w.goalOf terms .flush) (w.begin .flush) := by
  have book : w.cache.staleness.forceFlush
      = { w.cache.staleness with flushPending := true, notices := [.flush] } := by
    simp [Staleness.forceFlush, Staleness.notify, h.listening, h.unnotified]
  have begins : w.begin .flush = w.withStaleness fun _ =>
      { w.cache.staleness with flushPending := true, notices := [.flush] } := by
    rw [← book]
    rfl
  rw [begins]
  -- it is still there, but the notice is on its way
  refine begins_idle rfl { h with } { h with held := fun v holding => ?_ } (Int.le_refl _) ?_ rfl
  · obtain ⟨content, t, same, last, _⟩ := h.held v holding
    exact ⟨content, t, same, last, fun _ => List.mem_cons_self⟩
  · show Memo.mk (if Notice.flush ∈ [Notice.flush] then none else _)
      (w.memo.dirty || w.unheard.any _) _ _ = _
    rw [if_pos List.mem_cons_self, h.heard, List.any_nil, Bool.or_false]
    rfl

/-- A signal waits on the bus, if there is one. -/
theorem Rested.signals (h : Rested terms limit w) (s : Signal) :
    Course terms limit none (w.goalOf terms (.signal s)) (w.begin (.signal s)) := by
  have heard := h.heard
  have tuned := h.tuned
  cases bus : w.bus with
  | none =>
      have begins : w.begin (.signal s) = w := by
        show { w with bus := w.bus.map _ } = w
        rw [bus, Option.map_none, ← bus]
      -- without a bus nobody hears it, and the memo does not either
      have deaf : terms.triggersOn s = false := by
        rw [Terms.triggersOn, ← tuned, bus]
        rfl
      rw [begins]
      refine begins_idle rfl h.toUpkeep h.toPoised (Int.le_refl _) ?_ rfl
      rw [h.outlook]
      show w.memo = { w.memo with dirty := w.memo.dirty || terms.triggersOn s }
      rw [deaf, Bool.or_false]
  | some b =>
      obtain ⟨isOpen, receiver, missed, room⟩ := h.bus b bus
      have empty : b.queue = [] := by
        rw [unheard, bus] at heard
        exact heard
      have sent : (b.send s).1 = { b with queue := [s] } := by
        have fits : 1 - b.capacity = 0 := Nat.sub_eq_zero_of_le room
        simp [Bus.send, receiver, empty, missed, fits]
      have begins : w.begin (.signal s) = { w with bus := some { b with queue := [s] } } := by
        show { w with bus := w.bus.map _ } = _
        rw [bus, Option.map_some, if_pos isOpen, sent]
      rw [begins]
      have kept : Upkeep terms limit { w with bus := some { b with queue := [s] } } := by
        refine { h with tuned := ?_, bus := fun b' same => ?_ }
        · rw [← tuned, bus]
          rfl
        · obtain rfl := Option.some.inj same
          exact ⟨isOpen, receiver, missed, room⟩
      refine begins_idle rfl kept { h with } (Int.le_refl _) ?_ rfl
      · show Memo.mk (if Notice.flush ∈ w.cache.staleness.notices then none else w.memo.held)
          (w.memo.dirty || [s].any terms.triggersOn) _ _ = _
        rw [h.unnotified, if_neg List.not_mem_nil, List.any_cons, List.any_nil, Bool.or_false]
        rfl

/-- **An operation takes its course from rest.** -/
theorem Rested.begins (h : Rested terms limit w) (op : Memo.Op)
    (within : (w.memo.step terms op).1.now ≤ limit) :
    Course terms limit (w.alarm? op) (w.goalOf terms op) (w.begin op) := by
  have opened (reading : Reading) : (w.apply (.openReader reading .read)).memo = w.memo := by
    show (w.openReader reading .read).memo = w.memo
    unfold openReader
    split <;> rfl
  cases op with
  | value =>
      have asks : Asks terms (w.begin .value) (.new .once) ((w.begin .value).memo.read terms) :=
        .subscribing 0
      rw [show (w.begin .value).memo = w.memo from opened .once] at asks
      exact h.reads asks
  | refresh =>
      have asks : Asks terms (w.begin .refresh) (.new .anew) ((w.begin .refresh).memo.fetch terms) :=
        .demanding 0
      rw [show (w.begin .refresh).memo = w.memo from opened .anew] at asks
      exact h.reads asks
  | invalidate => exact h.invalidates
  | flush => exact h.flushes
  | signal s => exact h.signals s
  | sleep d =>
      exact begins_idle rfl h.toUpkeep h.toPoised (w.now.le_add d) (h.outlook _) rfl
  | jump d =>
      have begins : w.begin (.jump d) = { w with now := w.now + d } := h.toUpkeep.pass within
      have later : World.outlook terms none { w with now := w.now + d }
          = { w.memo with now := w.now + d } := by
        show { w.outlook terms none with now := w.now + d } = _
        rw [h.outlook]
      rw [begins]
      exact begins_idle rfl { h with now := within } { h with } (Int.le_refl _) later rfl

/-- **Operations lead to the memo**, however each of them is awaited. -/
theorem Performs.refines {w' : World ε V} {ops : List Memo.Op} (performs : Performs w ops w')
    (h : Rested terms limit w) (reachable : Reachable w)
    (within : (w.memo.run terms ops).1.now ≤ limit) :
    Rested terms limit w' ∧ w'.memo = (w.memo.run terms ops).1
      ∧ w'.results = w.results ++ (w.memo.run terms ops).2.map some := by
  induction performs with
  | done w => exact ⟨h, rfl, (List.append_nil _).symm⟩
  | @next w w' op moves ops awaits rest ih =>
      have step : (w.memo.step terms op).1.now ≤ limit :=
        Int.le_trans (Memo.now_le_run _ terms ops) within
      have begun : Reachable (w.begin op) := reachable.begin op
      obtain ⟨rested, memo, results⟩ := (h.begins op step).awaited begun step awaits
      have later : (((w.begin op).run moves).memo.run terms ops).1.now ≤ limit := by
        rw [memo]
        exact within
      obtain ⟨last, memo', results'⟩ := ih rested (begun.run moves) later
      refine ⟨last, ?_, ?_⟩
      · rw [memo', memo]
        rfl
      · rw [results', results, memo]
        simp [goalOf, Memo.run]

/-- **Operations can be awaited**, one after another. -/
theorem Rested.performs (h : Rested terms limit w) (reachable : Reachable w) (ops : List Memo.Op)
    (within : (w.memo.run terms ops).1.now ≤ limit) : ∃ w', Performs w ops w' := by
  induction ops generalizing w with
  | nil => exact ⟨w, .done w⟩
  | cons op ops ih =>
      have step : (w.memo.step terms op).1.now ≤ limit :=
        Int.le_trans (Memo.now_le_run _ terms ops) within
      have begun : Reachable (w.begin op) := reachable.begin op
      have course := h.begins op step
      obtain ⟨moves, awaits⟩ := course.ends begun step
      obtain ⟨rested, memo, _⟩ := course.awaited begun step awaits
      have later : (((w.begin op).run moves).memo.run terms ops).1.now ≤ limit := by
        rw [memo]
        exact within
      obtain ⟨w', rest⟩ := ih rested (begun.run moves) later
      exact ⟨w', .next awaits rest⟩

/-- What is held, as far as anybody can see. -/
theorem Poised.peek_eq {seats : List Seat} (h : Poised seats w) : w.cache.peek = w.memo.peek := by
  unfold Cache.peek Memo.peek memo
  cases phase : w.cache.cell.phase with
  | empty | calculating | flushed | invalid => rfl
  | holding v =>
      obtain ⟨content, t, rfl, last, _⟩ := h.held v phase
      rw [last]
      rfl

/-- A cached value that is kept on these terms, fresh from the start. -/
def keptOn (terms : Terms ε V) : World ε V :=
  (selfRefreshing ⟨terms.freshness, .unpaced⟩ (terms.bus.map Bus.new) terms.surroundings).apply
    (.bind ⟨.oneShot terms.call, terms.owner⟩)

/-- It is at rest. -/
theorem rested_keptOn
    (copied : ∀ n p, terms.call n = some p → ∀ t, p.outcome terms.surroundings t ≠ .uncopyable)
    (begun : 0 ≤ limit) (named : limit + terms.freshness.interval < Instant.horizon) :
    Rested terms limit (keptOn terms) where
  handle := rfl
  owner := rfl
  surroundings := rfl
  freshness := rfl
  listening := rfl
  bound := ⟨_, rfl, rfl⟩
  pacing := rfl
  stream := rfl
  sound := rfl
  running := rfl
  tuned := Option.isSome_map
  bus b same := by
    obtain ⟨n, _, rfl⟩ := Option.map_eq_some_iff.mp (show terms.bus.map Bus.new = some b from same)
    exact ⟨rfl, rfl, rfl, Bus.powerFrom_pos n n Nat.one_pos⟩
  dated := nofun
  now := begun
  named := named
  copied := copied
  resting := nofun
  held := nofun
  seats := rfl
  unattempted := rfl
  unowed := rfl
  counted := rfl
  unnotified := rfl
  heard := by
    show (terms.bus.map Bus.new).elim [] Bus.queue = []
    cases terms.bus <;> rfl

/-- **One operation after another, a cached value is a memo.**  Take any source of single values that can
be copied, any freshness and any operations, as long as the clock can name all deadlines.  The operations
can be awaited one after another; and however the actors take their steps meanwhile, the reads give the
results of the memo, the source is called as often, the cache holds what the memo holds, and the clock
shows the same time. -/
theorem sequential (terms : Terms ε V) (ops : List Memo.Op)
    (copied : ∀ n p, terms.call n = some p → ∀ t, p.outcome terms.surroundings t ≠ .uncopyable)
    (named : (Memo.run {} terms ops).1.now + terms.freshness.interval < Instant.horizon) :
    let memo : Memo V := (Memo.run {} terms ops).1
    (∃ w, Performs (keptOn terms) ops w)
      ∧ ∀ w, Performs (keptOn terms) ops w →
        w.results = (Memo.run {} terms ops).2.map some ∧ w.calls.length = memo.calls
          ∧ w.cache.peek = memo.peek ∧ w.now = memo.now := by
  intro memo
  have rested : Rested terms memo.now (keptOn terms) :=
    rested_keptOn copied (Memo.now_le_run {} terms ops) named
  have reachable : Reachable (keptOn terms) := (Reachable.initial (.selfRefreshing _ _ _)).move _
  have within : ((keptOn terms).memo.run terms ops).1.now ≤ memo.now := Int.le_refl _
  refine ⟨rested.performs reachable ops within, fun w performs => ?_⟩
  obtain ⟨last, same, results⟩ := performs.refines rested reachable within
  refine ⟨results, ?_, ?_, ?_⟩
  · exact congrArg Memo.calls same
  · rw [last.toPoised.peek_eq, same]
    rfl
  · exact congrArg Memo.now same

/-- A source that is slow at first, then fails, then crashes at once, and then gives values again. -/
def moody : Terms Unit Nat where
  freshness := .periodicAndLogin 1000
  bus := some 4
  call
    | 1 => some ⟨50, fun _ _ => .value 10⟩
    | 2 => some ⟨0, fun _ _ => .failed "offline"⟩
    | 3 => none
    | n => some ⟨0, fun _ _ => .value (10 * n)⟩
  surroundings := ()

/-- The value is read while it is fresh, and at the instant at which it is due; the reads fail until one
is made anew; then signals, a flush and an invalidation come in turn, a read after each. -/
def busyDay : List Memo.Op :=
  [.value, .sleep 999, .value, .sleep 1, .value, .value, .refresh, .signal .loggedIn, .value,
    .signal .foreground, .value, .flush, .value, .invalidate, .value, .jump 999, .value]

theorem sequential_busyDay :
    (∃ w, Performs (keptOn moody) busyDay w) ∧ ∀ w, Performs (keptOn moody) busyDay w →
      w.results = [.ok 10, .ok 10, .error "offline", .error Failure.crashReason, .ok 40, .ok 50, .ok 50,
        .ok 60, .ok 70, .ok 70].map some
        ∧ w.calls.length = 7 ∧ w.cache.peek = some 70 ∧ w.now = 2049 := by
  refine sequential moody busyDay (fun n p call t => ?_) (by decide)
  unfold moody at call
  dsimp only at call
  split at call <;> cases call <;> nofun

end World

end SingleFlight
