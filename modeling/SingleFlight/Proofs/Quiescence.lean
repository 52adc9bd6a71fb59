/-
  SingleFlight.Proofs.Quiescence — when nobody can take a step, every live reader is up to date.

  A parked reader hears of nothing but marks on the cell.  A held value however
  turns due without one: by a signal, by a flush, and by the mere passing of
  time.  It is the refresher that makes a mark of each, and it may be on its way
  to any of them.  So this file says of every move what it makes of the
  refresher and of the book that it works by, and then what the refresher owes
  to a parked reader: a notice for each pending trigger, and an alarm for the
  deadline that it has not woken anybody for.

  Main results:
    * `apply_tended` — what a move makes of the refresher and its book.
    * `vigilant_run` — a running refresher owes nothing that it has forgotten.
    * `settled_abreast` — in a settled world every live reader that is read is
      up to date, or waits for an attempt that has not answered.
-/
import SingleFlight.Proofs.Following
import SingleFlight.World.Schedule

namespace SingleFlight

variable {ε V : Type}

/-! ## §1. What the book on staleness is told. -/

namespace Staleness

/-- What the book `s` becomes with a single entry at `now`. -/
inductive Told (s : Staleness) (now : Instant) : Staleness → Prop where
  /-- It is told nothing. -/
  | nothing : Told s now s
  /-- A flush is asked for. -/
  | flush : Told s now s.forceFlush
  /-- A signal comes. -/
  | signal (x : Signal) : Told s now (s.observe x).1
  /-- A fetch succeeded. -/
  | success : Told s now (s.recordSuccess now)

variable {s s' : Staleness} {now : Instant}

theorem notify_frame (s : Staleness) (n : Notice) :
    (s.notify n).freshness = s.freshness ∧ (s.notify n).lastSuccess = s.lastSuccess
      ∧ (s.notify n).signalPending = s.signalPending ∧ (s.notify n).flushPending = s.flushPending
      ∧ (s.notify n).listening = s.listening := by
  unfold notify
  split <;> exact ⟨rfl, rfl, rfl, rfl, rfl⟩

/-- Whoever listens finds the notice. -/
theorem mem_notify_self {n : Notice} (listening : s.listening = true) : n ∈ (s.notify n).notices := by
  rw [notify, if_pos listening]
  exact List.mem_append_right _ (List.mem_singleton_self _)

theorem mem_notify {n m : Notice} (h : n ∈ s.notices) : n ∈ (s.notify m).notices := by
  unfold notify
  split
  · exact List.mem_append_left _ h
  · exact h

theorem Told.listening (t : Told s now s') : s'.listening = s.listening := by
  cases t with
  | nothing => rfl
  | flush => exact (notify_frame _ _).2.2.2.2
  | signal x =>
      unfold observe
      split
      · exact (notify_frame _ _).2.2.2.2
      · rfl
  | success => exact (notify_frame _ _).2.2.2.2

/-- A notice waits until it is taken. -/
theorem Told.notices (t : Told s now s') {n : Notice} (h : n ∈ s.notices) : n ∈ s'.notices := by
  cases t with
  | nothing => exact h
  | flush => exact mem_notify h
  | signal x =>
      unfold observe
      split
      · exact mem_notify h
      · exact h
  | success => exact mem_notify h

/-- A success is recorded for now, and only a success moves the deadline. -/
theorem Told.dated (t : Told s now s') :
    (s'.freshness = s.freshness ∧ s'.lastSuccess = s.lastSuccess) ∨ s' = s.recordSuccess now := by
  cases t with
  | nothing => exact Or.inl ⟨rfl, rfl⟩
  | flush =>
      have frame := notify_frame { s with flushPending := true } .flush
      exact Or.inl ⟨frame.1, frame.2.1⟩
  | signal x =>
      unfold observe
      split
      · have frame := notify_frame { s with signalPending := true } .refresh
        exact Or.inl ⟨frame.1, frame.2.1⟩
      · exact Or.inl ⟨rfl, rfl⟩
  | success => exact Or.inr rfl

theorem deadline_eq (freshness : s'.freshness = s.freshness)
    (lastSuccess : s'.lastSuccess = s.lastSuccess) : s'.deadline = s.deadline := by
  unfold deadline
  rw [freshness, lastSuccess]

/-- A value that is not due has no trigger pending, and is younger than the interval. -/
theorem isDue_eq_false_iff :
    s.isDue now = false ↔ s.signalPending = false ∧ s.flushPending = false
      ∧ ∃ t, s.lastSuccess = some t ∧ now.age t < s.freshness.interval := by
  unfold isDue
  cases s.lastSuccess <;> simp [and_assoc]

end Staleness

/-! ## §2. What a move makes of the refresher and its book. -/

namespace Refresher

/-- The deadline that the task has woken the readers for last. -/
def wokenFor? : Refresher → Option Instant
  | arming wokenFor | armed wokenFor _ => wokenFor
  | idle | stopped => none

/-- A task that has computed its deadline has woken nobody with it, or it has ended. -/
theorem arm_cases (wokenFor : Option Instant) (d : Deadline) :
    (∃ deadline, arm wokenFor d = armed wokenFor deadline) ∨ arm wokenFor d = stopped := by
  cases d with
  | unset => exact Or.inl ⟨none, rfl⟩
  | due t => exact Or.inl ⟨_, rfl⟩
  | overflow => exact Or.inr rfl

end Refresher

theorem Cache.Touch.staleness {c c' : Cache ε V} {now : Instant} (t : Cache.Touch c now c') :
    c'.staleness = c.staleness := by
  cases t <;> rfl

namespace World

/-- What one move makes of the refresher and the book that it works by. -/
inductive Tended (w w' : World ε V) : Prop where
  /-- The book is told something, and the refresher has yet to hear of it. -/
  | told (book : w.cache.staleness.Told w.now w'.cache.staleness)
      (task : w'.refresher = w.refresher)
  /-- The refresher hears the bus, and may tell the book. -/
  | heard {wokenFor deadline : Option Instant} (armed : w.refresher = .armed wokenFor deadline)
      (book : w.cache.staleness.Told w.now w'.cache.staleness)
      (task : w'.refresher = .arming wokenFor)
  /-- The refresher takes a notice, and marks the cell unless only the deadline moved. -/
  | heeded {wokenFor deadline : Option Instant} {notice : Notice} {rest : List Notice}
      (armed : w.refresher = .armed wokenFor deadline)
      (notices : w.cache.staleness.notices = notice :: rest)
      (book : w'.cache.staleness = { w.cache.staleness with notices := rest })
      (task : w'.refresher = .arming wokenFor)
      (marks : notice ≠ .reschedule → w.cache.cell.version < w'.cache.cell.version)
  /-- The armed deadline has come: the refresher marks the cell. -/
  | woke {wokenFor : Option Instant} {t : Instant} (armed : w.refresher = .armed wokenFor (some t))
      (come : t ≤ w.now) (book : w'.cache.staleness = w.cache.staleness)
      (task : w'.refresher = .arming (some t))
      (marks : w.cache.cell.version < w'.cache.cell.version)
  /-- The refresher computes its next deadline. -/
  | armed {wokenFor : Option Instant} (arming : w.refresher = .arming wokenFor)
      (book : w'.cache.staleness = w.cache.staleness)
      (task : w'.refresher = Refresher.arm wokenFor w.cache.staleness.deadline)
  /-- There is no refresher any more. -/
  | ended (task : w'.refresher.isRunning = false)

theorem Tended.same {w w' : World ε V} (book : w'.cache.staleness = w.cache.staleness)
    (task : w'.refresher = w.refresher) : Tended w w' :=
  .told (book ▸ .nothing) task

theorem stopRefresher_ended (w : World ε V) : w.stopRefresher.refresher.isRunning = false := by
  unfold stopRefresher
  split
  · rfl
  next h => simpa using h

theorem stopRefresher_spare (w : World ε V) : w.stopRefresher.hasSpareEnd = w.hasSpareEnd := by
  unfold stopRefresher
  split <;> rfl

/-- Whoever lets go leaves the book and the refresher alone, or the refresher ends. -/
theorem untether_tended (w w' : World ε V) (book : w'.cache.staleness = w.cache.staleness)
    (task : w'.refresher = w.refresher) :
    w'.untether.hasSpareEnd = w'.hasSpareEnd ∧ Tended w w'.untether := by
  unfold untether
  split
  · exact ⟨stopRefresher_spare w', .ended (stopRefresher_ended w')⟩
  · exact ⟨rfl, .same book task⟩

theorem advanceReader_tended (w : World ε V) (key : Nat) :
    (w.advanceReader key).hasSpareEnd = w.hasSpareEnd ∧ Tended w (w.advanceReader key) := by
  unfold advanceReader
  split
  next => exact ⟨rfl, .same rfl rfl⟩
  next seat _ =>
    have book := (seat.reader.step_stepped w.cache w.now).touch.staleness
    dsimp only
    split
    next => exact ⟨rfl, .same book rfl⟩
    next item _ =>
      split
      next => exact untether_tended w _ book rfl
      next => exact ⟨rfl, .same book rfl⟩

/-- An attempt tells the book of a value that is stored, and of nothing else. -/
theorem Turn.tended {w w' : World ε V} {a : Attempt ε V} {left : Option (Attempt ε V)}
    (t : Turn w a w' left) : w'.hasSpareEnd = w.hasSpareEnd ∧ Tended w w' := by
  cases t with
  | stored => exact ⟨rfl, .told .success rfl⟩
  | rest | wait | unbound | refused | called | opened | asked | finished | came | died | ignored
  | discarded | failed | resumed | ended => exact ⟨rfl, .same rfl rfl⟩

theorem armRefresher_tended (w : World ε V) :
    w.armRefresher.hasSpareEnd = w.hasSpareEnd ∧ Tended w w.armRefresher := by
  unfold armRefresher
  split
  next wokenFor arming =>
    split
    next => exact ⟨stopRefresher_spare w, .ended (stopRefresher_ended w)⟩
    next => exact ⟨rfl, .armed arming rfl rfl⟩
  next => exact ⟨rfl, .same rfl rfl⟩

theorem react_tended (w : World ε V) (cue : Cue) :
    (w.react cue).hasSpareEnd = w.hasSpareEnd ∧ Tended w (w.react cue) := by
  unfold react
  cases hr : w.refresher with
  | idle | arming | stopped => exact ⟨rfl, .same rfl rfl⟩
  | armed wokenFor deadline =>
      cases cue with
      | notice =>
          dsimp only
          split
          next notice rest notices =>
            refine ⟨rfl, .heeded hr notices ?_ rfl ?_⟩
            · cases notice <;> rfl
            · intro counts
              cases notice with
              | flush | refresh => exact Nat.lt_succ_self _
              -- only the deadline moved: no reader is told
              | reschedule => exact absurd rfl counts
          next => exact ⟨rfl, .same rfl rfl⟩
      | signal =>
          dsimp only
          split
          next received bus _ =>
            refine ⟨rfl, .heard hr ?_ rfl⟩
            cases received with
            | signal x => exact .signal x
            | lagged | closed => exact .nothing
          next => exact ⟨rfl, .same rfl rfl⟩
      | timer =>
          dsimp only
          split
          next come =>
            cases deadline with
            | none => simp [hasCue, hr, Refresher.timer?] at come
            | some t =>
                have come : t ≤ w.now := by simpa [hasCue, hr, Refresher.timer?] using come
                exact ⟨rfl, .woke hr come rfl rfl (Nat.lt_succ_self _)⟩
          next => exact ⟨rfl, .same rfl rfl⟩

/-- **What a move makes of the refresher and its book**, once the receiving end of the notices is
with the refresher. -/
theorem apply_tended {w : World ε V} (spare : w.hasSpareEnd = false) (m : Move ε V) :
    (w.apply m).hasSpareEnd = w.hasSpareEnd ∧ Tended w (w.apply m) := by
  have guarded {b : Bool} {w' : World ε V} (h : w'.hasSpareEnd = w.hasSpareEnd ∧ Tended w w') :
      (if b then w' else w).hasSpareEnd = w.hasSpareEnd ∧ Tended w (if b then w' else w) := by
    cases b
    · exact ⟨rfl, .same rfl rfl⟩
    · exact h
  cases m with
  | bind source =>
      show (w.bind source).hasSpareEnd = _ ∧ Tended w (w.bind source)
      unfold bind
      split <;> exact ⟨rfl, .same rfl rfl⟩
  | subscribe =>
      exact guarded ⟨rfl, .same (Cache.subscribe_touch w.cache w.now).staleness rfl⟩
  | invalidate => exact guarded ⟨rfl, .same rfl rfl⟩
  | poke => exact guarded ⟨rfl, .same rfl rfl⟩
  | flush => exact ⟨rfl, .told .flush rfl⟩
  | observe x => exact ⟨rfl, .told (.signal x) rfl⟩
  | recordSuccess => exact ⟨rfl, .told .success rfl⟩
  | takeNotices =>
      show (if w.hasSpareEnd then _ else w).hasSpareEnd = _ ∧ Tended w (if w.hasSpareEnd then _ else w)
      rw [if_neg (by simp [spare])]
      exact ⟨rfl, .same rfl rfl⟩
  | dropNotices =>
      show (if w.hasSpareEnd then _ else w).hasSpareEnd = _ ∧ Tended w (if w.hasSpareEnd then _ else w)
      rw [if_neg (by simp [spare])]
      exact ⟨rfl, .same rfl rfl⟩
  | startRefresher =>
      show w.startRefresher.hasSpareEnd = _ ∧ Tended w w.startRefresher
      rw [startRefresher, if_neg (by simp [spare])]
      exact ⟨rfl, .same rfl rfl⟩
  | stopRefresher => exact ⟨stopRefresher_spare w, .ended (stopRefresher_ended w)⟩
  | openReader reading role =>
      show (w.openReader reading role).hasSpareEnd = _ ∧ Tended w (w.openReader reading role)
      exact guarded ⟨rfl, .same rfl rfl⟩
  | openLookout =>
      show w.openLookout.hasSpareEnd = _ ∧ Tended w w.openLookout
      exact guarded ⟨rfl, .same rfl rfl⟩
  | dropReader key =>
      exact untether_tended w { w with seats := w.seats.filter (·.key != key) } rfl rfl
  | dropHandle => exact untether_tended w { w with hasHandle := false } rfl rfl
  | reader key => exact advanceReader_tended w key
  | attempt number =>
      show (w.advanceAttempt number).hasSpareEnd = _ ∧ Tended w (w.advanceAttempt number)
      unfold advanceAttempt
      split
      next a _ => exact (stepAttempt_turn w a).choose_spec.tended
      next => exact ⟨rfl, .same rfl rfl⟩
  | arm => exact armRefresher_tended w
  | react cue => exact react_tended w cue
  | publish | closeBus | follow | pollLookout | dropLookout | dropOwner | surround | pass =>
      exact ⟨rfl, .same rfl rfl⟩

/-! ## §3. What the refresher owes. -/

end World

/-- Whatever makes a value due is going to be told to the readers: each pending trigger by a notice
that waits, and the age by the deadline, which the refresher has not woken anybody for. -/
structure Staleness.Guarded (s : Staleness) (wokenFor : Option Instant) : Prop where
  signal : s.signalPending = true → .refresh ∈ s.notices
  flush : s.flushPending = true → .flush ∈ s.notices
  ages : ∃ t, s.lastSuccess = some t ∧ s.freshness.interval ≠ 0
    ∧ wokenFor ≠ some (t + s.freshness.interval)

namespace Staleness

variable {s s' : Staleness} {now : Instant} {wokenFor : Option Instant}

/-- What is younger than the interval has its deadline ahead. -/
theorem deadline_ahead_iff {now t : Int} {interval : Nat} :
    (now - t).toNat < interval ↔ 0 < interval ∧ now < t + interval := by
  omega

/-- A value that is not due is guarded by whoever has woken for the past only. -/
theorem Guarded.of_fresh (fresh : s.isDue now = false) (woken : ∀ t, wokenFor = some t → t ≤ now) :
    s.Guarded wokenFor := by
  obtain ⟨signal, flush, t, last, young⟩ := isDue_eq_false_iff.mp fresh
  obtain ⟨positive, ahead⟩ := deadline_ahead_iff.mp young
  refine ⟨fun h => ?_, fun h => ?_, t, last, Nat.ne_of_gt positive, fun same => ?_⟩
  · rw [signal] at h
    cases h
  · rw [flush] at h
    cases h
  · exact absurd (woken _ same) (Int.not_le.mpr ahead)

theorem Guarded.told (h : s.Guarded wokenFor) (listening : s.listening = true)
    (woken : ∀ t, wokenFor = some t → t ≤ now) (t : Told s now s') : s'.Guarded wokenFor := by
  obtain ⟨last, dated, positive, ahead⟩ := h.ages
  -- a trigger comes with its notice; it does not touch the deadline, nor the other trigger
  cases t with
  | nothing => exact h
  | flush =>
      obtain ⟨freshness, lastSuccess, signalPending, _, _⟩ :=
        notify_frame { s with flushPending := true } .flush
      refine ⟨fun pending => ?_, fun _ => mem_notify_self listening, last, lastSuccess.trans dated, ?_, ?_⟩
      · exact mem_notify (h.signal (signalPending.symm.trans pending))
      · exact fun zero => positive (freshness ▸ zero)
      · exact fun same => ahead (freshness ▸ same)
  | signal x =>
      unfold observe
      split
      · obtain ⟨freshness, lastSuccess, _, flushPending, _⟩ :=
          notify_frame { s with signalPending := true } .refresh
        refine ⟨fun _ => mem_notify_self listening, fun pending => ?_, last, lastSuccess.trans dated, ?_, ?_⟩
        · exact mem_notify (h.flush (flushPending.symm.trans pending))
        · exact fun zero => positive (freshness ▸ zero)
        · exact fun same => ahead (freshness ▸ same)
      · exact h
  | success =>
      obtain ⟨freshness, lastSuccess, signalPending, flushPending, _⟩ := notify_frame
        { s with lastSuccess := some now, signalPending := false, flushPending := false } .reschedule
      refine ⟨fun pending => ?_, fun pending => ?_, now, lastSuccess, ?_, fun same => ?_⟩
      · cases signalPending.symm.trans pending
      · cases flushPending.symm.trans pending
      · exact fun zero => positive (freshness ▸ zero)
      · -- the new deadline lies ahead, too
        have interval : (s.recordSuccess now).freshness.interval = s.freshness.interval :=
          congrArg Freshness.interval freshness
        rw [interval] at same
        have ahead : now < now + s.freshness.interval :=
          Int.lt_add_of_pos_right now (Int.natCast_pos.mpr (Nat.pos_of_ne_zero positive))
        exact absurd (woken _ same) (Int.not_le.mpr ahead)

/-- The notice that the deadline moved is owed to no reader. -/
theorem Guarded.rescheduled {rest : List Notice} (h : s.Guarded wokenFor)
    (notices : s.notices = .reschedule :: rest) :
    { s with notices := rest }.Guarded wokenFor := by
  have signal := h.signal
  have flush := h.flush
  rw [notices] at signal flush
  exact ⟨fun pending => by simpa using signal pending, fun pending => by simpa using flush pending,
    h.ages⟩

end Staleness

namespace World

/-- What a running refresher keeps to. -/
structure Vigilant (w : World ε V) : Prop where
  listening : w.cache.staleness.listening = true
  /-- Only deadlines of the past are ticked off. -/
  woken : ∀ t, w.refresher.wokenFor? = some t → t ≤ w.now
  /-- The alarm is set for the deadline on the book, or a notice says that it moved. -/
  armed : ∀ wokenFor deadline, w.refresher = .armed wokenFor deadline →
    .reschedule ∈ w.cache.staleness.notices
      ∨ Refresher.arm wokenFor w.cache.staleness.deadline = .armed wokenFor deadline
  /-- A held value that a parked reader knows is guarded. -/
  parked : ∀ s ∈ w.seats, s.reader.stage = .parked → s.reader.seen = w.cache.cell.version →
    ∀ v, w.cache.cell.phase = .holding v → w.cache.staleness.Guarded w.refresher.wokenFor?

/-- A look that gives nothing while a value is held finds it fresh. -/
theorem fresh_of_unserved {c : Cache ε V} {now : Instant} {delivered : Option Nat}
    {content : Sourced V} (held : c.cell.phase = .holding (.concealed content))
    (h : (c.access now delivered).2 = .nothing) : c.staleness.isDue now = false := by
  unfold Cache.access at h
  cases hb : c.cell.broken with
  | some fault => simp [hb] at h
  | none =>
      cases hd : c.staleness.isDue now with
      | false => rfl
      | true => simp [hb, held, hd] at h

end World

namespace Reader

variable {r : Reader} {c : Cache ε V} {now : Instant}

/-- Whoever stays parked has not moved at all. -/
theorem step_of_parked (parked : r.stage = .parked) (h : (r.step c now).2.1.stage = .parked) :
    (r.step c now).2.1 = r := by
  simp only [step, parked] at h ⊢
  split
  · rfl
  next moved =>
    rw [if_neg moved] at h
    cases h

/-- Whoever comes to park has looked, and the look gave nothing. -/
theorem unserved_of_parked (moves : r.stage ≠ .parked) (h : (r.step c now).2.1.stage = .parked) :
    (c.access now r.delivered).2 = .nothing := by
  have looking : r.stage = .looking := by
    have act := r.step_act c now
    generalize r.step c now = out at act h
    cases act with
    | unserved hs => exact hs
    | served | answered =>
        simp only [stageAfterValue] at h
        split at h <;> cases h
    | refused _ _ through | failed _ _ through =>
        rcases through with hs | hs <;> cases hs.symm.trans h
    | broke _ _ crashed => cases crashed.symm.trans h
    | idle | crashed => exact absurd h moves
    | subscribed | joined | demanded | started | satisfied | woken | finished => cases h
  simp only [step, looking] at h
  generalize c.access now r.delivered = out at h ⊢
  obtain ⟨c', access⟩ := out
  cases access with
  | nothing => rfl
  | served content revision =>
      simp only [receive, stageAfterValue] at h
      split at h <;> cases h
  | ticket t => cases t <;> cases h

end Reader

namespace World

/-- A parked reader that knows of a held value knew of it before, or has just found it fresh. -/
theorem Step.parked_cases {w w' : World ε V} {m : Move ε V} (s : Step w m w') (reachable : Reachable w)
    {r : Seat} (seated : r ∈ w'.seats) (parked : r.reader.stage = .parked)
    (seen : r.reader.seen = w'.cache.cell.version) {v : Visibility (Sourced V)}
    (holding : w'.cache.cell.phase = .holding v) :
    w.cache.cell.phase = .holding v ∧ w'.cache.cell.version = w.cache.cell.version
      ∧ ((∃ r₀ ∈ w.seats, r₀.reader = r.reader) ∨ w.cache.staleness.isDue w.now = false) := by
  have watched := reachable.watched
  have marks := s.marks
  -- marks only grow, so a reader that knows the present mark knows the one before the move
  have unmarked (le : r.reader.seen ≤ w.cache.cell.version) :
      w.cache.cell.phase = .holding v ∧ w'.cache.cell.version = w.cache.cell.version := by
    have later := marks.le
    have version : w'.cache.cell.version = w.cache.cell.version := by omega
    exact ⟨(marks.same version).1 ▸ holding, version⟩
  have stays {r₀ : Seat} (hr₀ : r₀ ∈ w.seats) (same : r₀.reader = r.reader) :
      w.cache.cell.phase = .holding v ∧ w'.cache.cell.version = w.cache.cell.version
        ∧ ((∃ r₀ ∈ w.seats, r₀.reader = r.reader) ∨ w.cache.staleness.isDue w.now = false) := by
    obtain ⟨held, version⟩ := unmarked (same ▸ watched.seen r₀ hr₀)
    exact ⟨held, version, Or.inl ⟨r₀, hr₀, same⟩⟩
  rcases s.readers with others | ⟨seat, listed, ha⟩
  · rcases others r seated with ⟨r₀, hr₀, same⟩ | ⟨reading, new⟩
    · exact stays hr₀ same
    · rw [new] at parked
      unfold Reader.new at parked
      cases hd : reading.demands <;> simp [hd] at parked
  · rcases ha.seats r seated with ⟨old, _⟩ | ⟨_, reader, _⟩
    · exact stays old rfl
    · by_cases before : seat.reader.stage = .parked
      · -- it has not moved
        rw [reader] at parked
        exact stays listed ((Reader.step_of_parked before parked).symm.trans reader.symm)
      · rw [reader] at parked seen
        obtain ⟨held, version⟩ := unmarked (by
          rw [reader]
          rcases seat.reader.seen_step w.cache w.now with same | now
          · exact same ▸ watched.seen seat listed
          · exact Nat.le_of_eq now)
        obtain ⟨content, rfl⟩ := reachable.concealed v held
        exact ⟨held, version,
          Or.inr (fresh_of_unserved held (Reader.unserved_of_parked before parked))⟩

/-- **A running refresher stays vigilant.** -/
theorem Vigilant.step {w w' : World ε V} {m : Move ε V} (h : Vigilant w) (reachable : Reachable w)
    (s : Step w m w') (t : Tended w w') (running : w'.refresher.isRunning = true) : Vigilant w' := by
  have now := s.now_le
  -- a guard that outlasts the move guards whoever is parked after it
  have guards (kept : w'.cache.cell.version = w.cache.cell.version →
      w.cache.staleness.Guarded w.refresher.wokenFor? →
      w'.cache.staleness.Guarded w'.refresher.wokenFor?) :
      ∀ r ∈ w'.seats, r.reader.stage = .parked → r.reader.seen = w'.cache.cell.version →
        ∀ v, w'.cache.cell.phase = .holding v → w'.cache.staleness.Guarded w'.refresher.wokenFor? := by
    intro r hr parked seen v holding
    obtain ⟨held, version, before | fresh⟩ := s.parked_cases reachable hr parked seen holding
    · obtain ⟨r₀, hr₀, same⟩ := before
      rw [← same] at parked seen
      exact kept version (h.parked r₀ hr₀ parked (seen.trans version) v held)
    · exact kept version (.of_fresh fresh h.woken)
  cases t with
  | told book task =>
      refine ⟨book.listening.trans h.listening, ?_, ?_, guards fun _ guarded => ?_⟩
      · rw [task]
        exact fun t woken => Int.le_trans (h.woken t woken) now
      · intro wokenFor deadline armed
        rw [task] at armed
        rcases book.dated with ⟨freshness, lastSuccess⟩ | success
        · rw [Staleness.deadline_eq freshness lastSuccess]
          exact (h.armed wokenFor deadline armed).imp_left book.notices
        · rw [success]
          exact Or.inl (Staleness.mem_notify_self h.listening)
      · rw [task]
        exact guarded.told h.listening h.woken book
  | @heard wokenFor deadline armed book task =>
      have woken := h.woken
      rw [armed] at woken
      refine ⟨book.listening.trans h.listening, ?_, ?_, guards fun _ guarded => ?_⟩
      · rw [task]
        exact fun t ht => Int.le_trans (woken t ht) now
      · rw [task]
        exact fun _ _ armed => nomatch armed
      · rw [armed] at guarded
        rw [task]
        exact guarded.told h.listening woken book
  | @heeded wokenFor deadline notice rest armed notices book task marks =>
      have woken := h.woken
      rw [armed] at woken
      refine ⟨by rw [book]; exact h.listening, ?_, ?_, guards fun version guarded => ?_⟩
      · rw [task]
        exact fun t ht => Int.le_trans (woken t ht) now
      · rw [task]
        exact fun _ _ armed => nomatch armed
      · rw [armed] at guarded
        rw [book, task]
        by_cases counts : notice = .reschedule
        · rw [counts] at notices
          exact guarded.rescheduled notices
        · exact absurd version (Nat.ne_of_gt (marks counts))
  | woke armed come book task marks =>
      refine ⟨by rw [book]; exact h.listening, ?_, ?_, guards fun version _ => ?_⟩
      · rw [task]
        intro t ht
        rw [← Option.some.inj ht]
        exact Int.le_trans come now
      · rw [task]
        exact fun _ _ armed => nomatch armed
      · exact absurd version (Nat.ne_of_gt marks)
  | @armed wokenFor arming book task =>
      have woken := h.woken
      rw [arming] at woken
      have same : w'.refresher.wokenFor? = wokenFor := by
        rcases Refresher.arm_cases wokenFor w.cache.staleness.deadline with ⟨deadline, armed⟩ | stopped
        · rw [task, armed]
          rfl
        · rw [task, stopped] at running
          cases running
      refine ⟨by rw [book]; exact h.listening, ?_, ?_, guards fun _ guarded => ?_⟩
      · rw [same]
        exact fun t ht => Int.le_trans (woken t ht) now
      · intro wokenFor' deadline armed
        rw [armed] at same
        obtain rfl : wokenFor' = wokenFor := same
        rw [book]
        exact Or.inr (task.symm.trans armed)
      · rw [book, same]
        rw [arming] at guarded
        exact guarded
  | ended task =>
      rw [task] at running
      cases running

/-- A refresher that has ended never comes back. -/
theorem Tended.running {w w' : World ε V} (t : Tended w w') (h : w'.refresher.isRunning = true) :
    w.refresher.isRunning = true := by
  cases t with
  | told book task => rwa [← task]
  | heard armed | heeded armed | woke armed => rw [armed]; rfl
  | armed arming => rw [arming]; rfl
  | ended task =>
      rw [task] at h
      cases h

/-- **A running refresher owes nothing that it has forgotten**, whatever the run was like. -/
theorem vigilant_run (settings : Settings) (bus : Option Bus) (surroundings : ε)
    (moves : List (Move ε V)) (running : ((selfRefreshing settings bus surroundings : World ε V).run
      moves).refresher.isRunning = true) :
    Vigilant ((selfRefreshing settings bus surroundings : World ε V).run moves) := by
  have outlasts : ∀ (moves : List (Move ε V)) (w : World ε V), Reachable w → w.hasSpareEnd = false →
      (w.refresher.isRunning = true → Vigilant w) → (w.run moves).refresher.isRunning = true →
      Vigilant (w.run moves) := by
    intro moves
    induction moves with
    | nil => exact fun w _ _ vigilant running => vigilant running
    | cons m moves ih =>
        intro w reachable spare vigilant running
        obtain ⟨kept, tended⟩ := apply_tended spare m
        refine ih (w.apply m) (reachable.move m) (kept.trans spare) (fun h => ?_) running
        exact (vigilant (tended.running h)).step reachable (apply_step w m) tended h
  refine outlasts moves _ (.initial (.selfRefreshing _ _ _)) rfl (fun _ => ?_) running
  exact ⟨rfl, fun _ woken => (nomatch woken), fun _ _ armed => (nomatch armed),
    fun _ seated => (nomatch seated)⟩

/-! ## §4. Settled worlds. -/

/-- An alarm that is set for the deadline, and has not gone off, is set for a time to come. -/
theorem young_of_armed {book : Staleness} {wokenFor deadline : Option Instant} {t now : Instant}
    (last : book.lastSuccess = some t) (positive : book.freshness.interval ≠ 0)
    (ahead : wokenFor ≠ some (t + book.freshness.interval))
    (armed : Refresher.arm wokenFor book.deadline = .armed wokenFor deadline)
    (silent : deadline.any (· ≤ now) = false) : now < t + book.freshness.interval := by
  unfold Staleness.deadline at armed
  rw [if_neg positive, last] at armed
  dsimp only at armed
  unfold Instant.later? at armed
  by_cases named : book.freshness.interval = 0 ∨ t + book.freshness.interval < Instant.horizon
  · rw [if_pos named] at armed
    dsimp only [Refresher.arm] at armed
    rw [if_neg ahead] at armed
    cases armed
    simpa using silent
  · -- the refresher would have ended
    rw [if_neg named] at armed
    cases armed

/-- A guarded value is not due once the refresher has nothing to do. -/
theorem Vigilant.fresh {w : World ε V} (h : Vigilant w) (running : w.refresher.isRunning = true)
    (idle : w.isRefresherReady = false)
    (guarded : w.cache.staleness.Guarded w.refresher.wokenFor?) :
    w.cache.staleness.isDue w.now = false := by
  unfold isRefresherReady at idle
  cases hr : w.refresher with
  | idle | stopped => rw [hr] at running; cases running
  | arming => rw [hr] at idle; cases idle
  | armed wokenFor deadline =>
      rw [hr] at idle guarded
      have silent (cue : Cue) : w.hasCue cue = false := by
        have none : w.nextCue = none := by simpa using idle
        have all := List.find?_eq_none.mp none
        cases cue <;> simpa using all _ (by simp)
      have notices : w.cache.staleness.notices = [] := by simpa [hasCue] using silent .notice
      have timer : deadline.any (· ≤ w.now) = false := by
        have silent := silent .timer
        rwa [hasCue, hr] at silent
      obtain ⟨t, last, positive, ahead⟩ := guarded.ages
      have armed := h.armed wokenFor deadline hr
      rw [notices] at armed
      rcases armed with moved | armed
      · cases moved
      · have young := young_of_armed last positive ahead armed timer
        refine Staleness.isDue_eq_false_iff.mpr ⟨?_, ?_, t, last, ?_⟩
        · exact Bool.eq_false_iff.mpr fun pending => by simpa [notices] using guarded.signal pending
        · exact Bool.eq_false_iff.mpr fun pending => by simpa [notices] using guarded.flush pending
        · exact Staleness.deadline_ahead_iff.mpr ⟨Nat.pos_of_ne_zero positive, young⟩

/-- Whoever sits under a new key has just come, and nobody else has. -/
theorem Step.newcomer {w w' : World ε V} {m : Move ε V} (s : Step w m w') (attended : Attended w) :
    ∃ reading, ∀ r ∈ w'.seats, w.nextKey ≤ r.key → r.reader = .new reading := by
  have nobody (old : ∀ r ∈ w'.seats, ∃ r₀ ∈ w.seats, r₀.key = r.key) :
      ∃ reading, ∀ r ∈ w'.seats, w.nextKey ≤ r.key → r.reader = .new reading := by
    refine ⟨.once, fun r hr new => ?_⟩
    obtain ⟨r₀, hr₀, same⟩ := old r hr
    have below := attended.below r₀ hr₀
    omega
  cases s with
  | aside ha | invalidate ha | poke ha => exact nobody fun r hr => ⟨r, ha.seats ▸ hr, rfl⟩
  | pass | bind | subscribe => exact nobody fun r hr => ⟨r, hr, rfl⟩
  | attempt own running t => exact nobody fun r hr => ⟨r, t.seats.1 ▸ hr, rfl⟩
  | dropReader ha =>
      exact nobody fun r hr => ⟨r, (List.mem_filter.mp (ha.seats ▸ hr)).1, rfl⟩
  | openReader reading role holds =>
      refine ⟨reading, fun r hr new => ?_⟩
      rcases List.mem_append.mp hr with before | now
      · exact absurd (attended.below r before) (Nat.not_lt.mpr new)
      · rw [List.mem_singleton.mp now]
  | follow key =>
      refine nobody fun r hr => ?_
      obtain ⟨r₀, hr₀, same, _⟩ := mem_follow hr
      exact ⟨r₀, hr₀, same.symm⟩
  | reader own taken ha =>
      refine nobody fun r hr => ?_
      rcases ha.seats r hr with ⟨before, _⟩ | ⟨same, _⟩
      · exact ⟨r, before, rfl⟩
      · exact ⟨_, (seat?_mem taken).1, same.symm⟩

/-- Whoever sits under a known key sat there before, and reads in the same way. -/
theorem Step.reading_of_known {w w' : World ε V} {m : Move ε V} (s : Step w m w') {r : Seat}
    (seated : r ∈ w'.seats) (known : r.key < w.nextKey) :
    ∃ r₀ ∈ w.seats, r₀.key = r.key ∧ r₀.reader.reading = r.reader.reading := by
  rcases s.reader_cases known with ⟨_, seats⟩ | ⟨seat, taken, _, advanced⟩
  · obtain ⟨r₀, hr₀, hk, reader⟩ := seats r seated rfl
    exact ⟨r₀, hr₀, hk, by rw [reader]⟩
  · obtain ⟨listed, key⟩ := seat?_mem taken
    rcases advanced.seats r seated with ⟨old, _⟩ | ⟨_, reader, _⟩
    · exact ⟨r, old, rfl, rfl⟩
    · exact ⟨seat, listed, key, by rw [reader, Reader.reading_step]⟩

/-- **A reader that starts with a look at the cell is up to date**, in every reachable world. -/
theorem Reachable.upToDate {w : World ε V} (h : Reachable w) :
    ∀ s ∈ w.seats, s.reader.reading.demands = false → UpToDate none s.key w := by
  refine h.invariant (P := fun w => ∀ s ∈ w.seats, s.reader.reading.demands = false →
    UpToDate none s.key w) (fun w hw => ?_) (fun w m w' reachable h s => ?_)
  · cases hw <;> exact fun _ hs => nomatch hs
  · intro r seated looks
    have attended : Attended w := reachable.attended
    by_cases known : r.key < w.nextKey
    · obtain ⟨r₀, hr₀, hk, reading⟩ := s.reading_of_known seated known
      rw [← reading] at looks
      have upToDate := (h r₀ hr₀ looks).step reachable (attended.below r₀ hr₀) s
      rwa [hk] at upToDate
    · -- it has just come, and was given nothing yet
      obtain ⟨reading, new⟩ := s.newcomer attended
      have fresh (r' : Seat) (hr' : r' ∈ w'.seats) (hk : r'.key = r.key) : r'.reader = .new reading :=
        new r' hr' (by omega)
      rw [fresh r seated rfl] at looks
      have looks : reading.demands = false := looks
      refine ⟨fun r' hr' hk => ?_, fun r' hr' hk _ content _ noted _ => ?_⟩
      · rw [fresh r' hr' hk]
        simp [Reader.new, Reader.isStarting, looks]
      · rw [fresh r' hr' hk] at noted
        cases noted

/-- How the reader in a seat stands when it has nothing to do. -/
inductive Abreast (w : World ε V) (s : Seat) : Prop where
  /-- It waits for an attempt that is on its way and has not answered. -/
  | waits {k : Nat} (stage : s.reader.stage = .waiting k)
      (unanswered : w.cache.dispatcher.hasAnswered k = false)
      (running : ∃ a ∈ w.cache.dispatcher.running, a.number = k)
  /-- It is parked, and there is no value. -/
  | empty (parked : s.reader.stage = .parked) (phase : w.cache.cell.phase = .invalid false)
  /-- It is parked, and the value that is held is not due, is of the revision that it noted, and is the
  last item that it was given. -/
  | holds {content : Sourced V} (parked : s.reader.stage = .parked)
      (phase : w.cache.cell.phase = .holding (.concealed content))
      (fresh : w.cache.staleness.isDue w.now = false)
      (noted : s.reader.delivered = some w.cache.cell.revision)
      (last : (w.itemsTo s.key).head? = some (.value content))

/-- A seat is found under its key. -/
theorem Attended.seat?_eq {w : World ε V} (h : Attended w) {s : Seat} (seated : s ∈ w.seats) :
    w.seat? s.key = some s := by
  cases found : w.seat? s.key with
  | none =>
      have absent := List.find?_eq_none.mp found s seated
      simp at absent
  | some s' =>
      obtain ⟨listed, key⟩ := seat?_mem found
      rw [eq_of_increasing h.distinct listed seated key]

/-- In a settled world, a reader that somebody reads cannot take a step. -/
theorem IsSettled.reader {w : World ε V} (settled : w.IsSettled) (attended : Attended w) {s : Seat}
    (seated : s ∈ w.seats) (read : s.role ≠ .polled) : s.reader.isReady w.cache = false := by
  have listed : Actor.reader s.key ∈ w.actors := by
    unfold actors
    exact List.mem_append_left _ (List.mem_cons_of_mem _ (List.mem_map.mpr ⟨s, seated, rfl⟩))
  have idle := settled _ listed
  simp only [isReady, attended.seat?_eq seated, Option.any_some, Bool.and_eq_false_iff, bne_eq_false_iff_eq]
    at idle
  exact idle.resolve_left read

/-- In a settled world, an attempt on its way cannot take a step. -/
theorem IsSettled.attempt {w : World ε V} (settled : w.IsSettled) (ordered : Ordered w) {a : Attempt ε V}
    (listed : a ∈ w.cache.dispatcher.running) : w.canStep a = false := by
  have actor : Actor.attempt a.number ∈ w.actors :=
    List.mem_append_right _ (List.mem_map.mpr ⟨a, listed, rfl⟩)
  simpa [isReady, ordered.dispatcher.attempt?_of_mem listed] using settled _ actor

theorem IsSettled.refresher {w : World ε V} (settled : w.IsSettled) : w.isRefresherReady = false :=
  settled .refresher List.mem_cons_self

/-- **Settled live readers are up to date.**  Take any run of a cached value that refreshes itself, its
refresher still running, and let nobody be able to take a step.  Then every live reader that somebody
reads waits for an attempt that is on its way, or there is no value, or it has been given the held value
last and this value is not due. -/
theorem settled_abreast (settings : Settings) (bus : Option Bus) (surroundings : ε)
    (moves : List (Move ε V)) :
    let w := (selfRefreshing settings bus surroundings : World ε V).run moves
    w.refresher.isRunning = true → w.IsSettled →
      ∀ s ∈ w.seats, s.role ≠ .polled → s.reader.reading = .live → w.Abreast s := by
  intro w running settled s seated read live
  have reachable : Reachable w := (Reachable.initial (.selfRefreshing settings bus surroundings)).run moves
  have upToDate := reachable.upToDate s seated (by rw [live]; rfl)
  have idle := settled.reader reachable.attended seated read
  unfold Reader.isReady at idle
  cases stage : s.reader.stage with
  | subscribing | looking | demanding | closing | «over» | crashed =>
      rw [stage] at idle
      cases idle
  | expecting k =>
      -- a live reader never starts with a fetch of its own
      have past := upToDate.past s seated rfl
      rw [Reader.isStarting, stage] at past
      cases past
  | waiting k =>
      rw [stage] at idle
      have awaits : s.reader.awaits? = some k := Reader.awaits?_eq_some_iff.mpr (Or.inr stage)
      rcases reachable.awaited.seats s seated k awaits with answered | running
      · exact absurd answered (by simp [show w.cache.dispatcher.hasAnswered k = false from idle])
      · exact .waits stage idle running
  | parked =>
      rw [stage] at idle
      have seen : s.reader.seen = w.cache.cell.version := by
        have same : w.cache.cell.version = s.reader.seen := by simpa using idle
        exact same.symm
      rcases reachable.watched.parked s seated stage seen with empty | ⟨content, held, noted⟩
      · exact .empty stage empty
      · have vigilant : Vigilant w := vigilant_run settings bus surroundings moves running
        have guarded := vigilant.parked s seated stage seen _ held
        have isOpen : s.reader.isOpen = true := by simp [Reader.isOpen, stage]
        have last := upToDate.last s seated rfl isOpen content held noted (Option.some_ne_none _)
        exact .holds stage held (vigilant.fresh running settled.refresher guarded) noted last

/-- A live reader takes a value and parks; the refresher takes the notice of the success, and sets its
alarm. -/
def servedAndParked : List (Move Unit Nat) :=
  [.bind doubled, .openReader .live .follow, .arm, .reader 0, .reader 0, .attempt 1, .attempt 1,
    .attempt 1, .attempt 1, .attempt 1, .attempt 1, .attempt 1, .reader 0, .reader 0, .react .notice,
    .arm]

theorem settled_abreast_served :
    let w : World Unit Nat :=
      (selfRefreshing ⟨.periodic 60000, .unpaced⟩ none ()).run servedAndParked
    w.refresher = .armed none (some 60000)
      ∧ w.seats = [⟨0, .follow, ⟨.live, .parked, some 1, 2⟩⟩]
      ∧ w.Abreast ⟨0, .follow, ⟨.live, .parked, some 1, 2⟩⟩ := by
  refine ⟨by decide, by decide, ?_⟩
  refine settled_abreast ⟨.periodic 60000, .unpaced⟩ none () servedAndParked (by decide) ?_ _
    (by decide) (by decide) rfl
  unfold IsSettled
  decide

end World

end SingleFlight
