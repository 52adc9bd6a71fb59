/-
  SingleFlight.Proofs.Step — what one move can make of a world.

  A world has many moves, but most of them pass by the readers and the
  attempts.  `Aside` says that a move did; `Turn` lists what one step of an
  attempt can do, one constructor a way, each with what it needed; `Advanced`
  says what one step of a reader did; and `Step` puts them together.  A law of
  all runs is proved by cases on `Step`, never by opening the moves again.

  Main results:
    * `stepAttempt_turn` — every step of an attempt is listed.
    * `advanceReader_advanced` — every step of a reader is.
    * `apply_step` — every move is.
    * `Reachable.run` — reachable worlds are closed under runs.
-/
import SingleFlight.World
import SingleFlight.Proofs.Look
import SingleFlight.Proofs.Running

namespace SingleFlight

variable {ε V : Type}

/-- Whether a call of the source crashes at once. -/
def Source.crashesAt (s : Source ε V) (n : Nat) : Bool :=
  match s.shape with
  | .oneShot call => (call n).isNone
  | .continuous call => (call n).isNone

namespace World

/-! ## §1. Moves that pass by the readers and the attempts. -/

/-- Whether a move is about the look-outs. -/
def tendsLookouts (w : World ε V) : Move ε V → Bool
  | .openLookout => w.hasHandle
  | .pollLookout _ | .dropLookout _ => true
  | _ => false

/-- With the move `m` a refresher may end: the program lets go of the cache, or has done so, or it stops
the refresher, or the clock cannot name the refresher's deadline. -/
def MayStop (w : World ε V) (m : Move ε V) : Prop :=
  w.hasHandle = false ∨ m = .dropHandle ∨ m = .stopRefresher ∨ w.cache.staleness.deadline = .overflow

/-- With the move `m` the world `w` became `w'`, which differs at most in what neither a reader nor an
attempt looks at: the book on staleness, the bus, the refresher, the look-outs, what surrounds the world
and who holds the cache. -/
structure Aside (m : Move ε V) (w w' : World ε V) : Prop where
  now : w'.now = w.now
  cell : w'.cache.cell = w.cache.cell
  dispatcher : w'.cache.dispatcher = w.cache.dispatcher
  seats : w'.seats = w.seats
  nextKey : w.nextKey ≤ w'.nextKey
  calls : w'.calls = w.calls
  deliveries : w'.deliveries = w.deliveries
  /-- A cache that is gone never comes back. -/
  alive : w'.isCacheAlive = true → w.isCacheAlive = true
  lookouts : w.tendsLookouts m = false → w'.lookouts = w.lookouts
  hasOwner : m ≠ .dropOwner → w'.hasOwner = w.hasOwner
  hasHandle : m ≠ .dropHandle → w'.hasHandle = w.hasHandle
  running : w.refresher.isRunning = true → w'.refresher.isRunning = true ∨ w.MayStop m

section

variable {m : Move ε V}

theorem Aside.refl (w : World ε V) : Aside m w w :=
  ⟨rfl, rfl, rfl, rfl, Nat.le_refl _, rfl, rfl, id, fun _ => rfl, fun _ => rfl, fun _ => rfl,
    Or.inl⟩

/-- Whatever changes the book, the bus, the receiving end of the notices and the surroundings alone. -/
theorem aside_around (w : World ε V) (f : Staleness → Staleness) (bus : Option Bus) (spare : Bool)
    (surroundings : ε) :
    Aside m w { w.withStaleness f with bus := bus, hasSpareEnd := spare, surroundings := surroundings } :=
  { Aside.refl w with }

theorem aside_stopRefresher {w : World ε V} (may : w.MayStop m) : Aside m w w.stopRefresher := by
  unfold stopRefresher
  split
  · refine { Aside.refl w with alive := ?_, running := fun _ => Or.inr may }
    -- the others hold the cache as before
    simp only [isCacheAlive, withStaleness, withCache, Refresher.isRunning, Bool.or_false,
      Bool.or_eq_true]
    exact Or.imp_left Or.inl
  · exact .refl w

theorem aside_untether (w : World ε V) : Aside m w w.untether := by
  unfold untether
  split
  next loose =>
    simp only [Bool.and_eq_true, Bool.not_eq_true'] at loose
    exact aside_stopRefresher (Or.inl loose.1.2)
  next => exact .refl w

/-- A refresher that is let go was tethered to a handle that is gone. -/
theorem running_untether (w : World ε V) (running : w.refresher.isRunning = true) :
    w.untether.refresher.isRunning = true ∨ w.hasHandle = false := by
  unfold untether
  split
  next loose =>
    simp only [Bool.and_eq_true, Bool.not_eq_true'] at loose
    exact Or.inr loose.1.2
  next => exact Or.inl running

theorem aside_startRefresher (w : World ε V) : Aside m w w.startRefresher := by
  unfold startRefresher
  split
  next h =>
    rw [Bool.and_eq_true] at h
    have alive : w.isCacheAlive = true := by simp [isCacheAlive, h.1]
    exact { Aside.refl w with alive := fun _ => alive, running := fun _ => Or.inl rfl }
  next => exact .refl w

theorem aside_armRefresher (w : World ε V) : Aside m w w.armRefresher := by
  unfold armRefresher
  split
  next wokenFor hr =>
    have running : w.isCacheAlive = true := by simp [isCacheAlive, hr, Refresher.isRunning]
    cases hd : w.cache.staleness.deadline with
    | unset | due =>
        exact { Aside.refl w with alive := fun _ => running, running := fun _ => Or.inl rfl }
    | overflow => exact aside_stopRefresher (Or.inr (Or.inr (Or.inr hd)))
  next => exact .refl w

end

theorem aside_dropHandle (w : World ε V) : Aside .dropHandle w w.dropHandle := by
  have loose : Aside .dropHandle { w with hasHandle := false } w.dropHandle := aside_untether _
  refine { loose with
    alive := fun alive => ?_
    hasHandle := fun other => absurd rfl other
    running := fun _ => Or.inr (Or.inr (Or.inl rfl)) }
  have others := loose.alive alive
  simp only [isCacheAlive, Bool.false_or, Bool.or_eq_true, or_assoc] at others ⊢
  exact Or.inr others

/-! ## §2. What a step of an attempt can do. -/

/-- What a source gives to an attempt. -/
inductive Yield (V : Type) where
  /-- A production came out, or the call itself crashed. -/
  | came (outcome : Outcome V)
  /-- There are no more items. -/
  | exhausted
  /-- The owner of the source is gone. -/
  | ownerGone (owner : String)
  deriving DecidableEq, Repr, Inhabited

/-- What the attempt `n` makes known of what it was given for an item. -/
def Yield.report (n item : Nat) : Yield V → Report V
  | came (.value v) => .ok ⟨v, n, item⟩
  | came (.failed reason) => .error (.fetchFailed n reason)
  | came .crashed => .error (.fetchFailed n Failure.crashReason)
  | came .uncopyable => .error (.fetchFailed n Failure.lostReason)
  | exhausted => .error (.fetchFailed n Failure.emptyReason)
  | ownerGone owner => .error (.ownerGone owner)

/-- What the source gives to the attempt `a` with its next step, if it gives anything. -/
def gives (w : World ε V) (a : Attempt ε V) : Option (Yield V) :=
  if w.canStep a then
    match a.progress with
    | .queued =>
      match w.cache.dispatcher.binding with
      | none => none
      | some source =>
        match if w.hasOwner then none else source.owner with
        | some owner => some (.ownerGone owner)
        | none => if source.crashesAt (w.calls.length + 1) then some (.came .crashed) else none
    | .asking =>
      match a.offers.map fun offers : Nat → Offer ε V => offers a.item with
      | some .done | none => some .exhausted
      | _ => none
    | .producing _ outcome => some (.came (outcome w.surroundings w.now))
    | _ => none
  else none

/-- The world in which the attempt that `a` replaces has been stopped. -/
def replaced (w : World ε V) (a : Attempt ε V) : World ε V :=
  w.withDispatcher (·.dismiss a.supersedes)

/-- What one step of the attempt `a` can make of the world `w`, and what is left of the attempt on
the list.  `gives` says what the source had to do with it. -/
inductive Turn (w : World ε V) (a : Attempt ε V) :
    World ε V → Option (Attempt ε V) → Prop where
  /-- It cannot take a step. -/
  | rest (gives : w.gives a = none) (idle : w.canStep a = false ∨ a.progress = .stuck) :
      Turn w a w (some a)
  /-- It waits on. -/
  | wait {p : Attempt.Progress ε V} (waiting : a.isExecuting = false)
      (hp : p = .queued ∨ ∃ t, p = .heldBack t) (gives : w.gives a = none) :
      Turn w a (w.advanceTo a p) (some { a with progress := p })
  /-- There is no source to call. -/
  | unbound (queued : a.progress = .queued) (h : w.cache.dispatcher.binding = none) :
      Turn w a ((w.replaced a).withDispatcher (·.lose a.number)) none
  /-- The owner of the source is gone. -/
  | refused (queued : a.progress = .queued)
      (ready : a.predecessor.all w.cache.dispatcher.hasAnswered = true) (owner : String)
      (gives : w.gives a = some (.ownerGone owner)) :
      Turn w a ((w.replaced a).advanceTo a (.reporting (.error (.ownerGone owner))))
        (some { a with progress := .reporting (.error (.ownerGone owner)) })
  /-- It calls the source, which crashes or makes one production. -/
  | called {p : Attempt.Progress ε V} (queued : a.progress = .queued)
      (ready : a.predecessor.all w.cache.dispatcher.hasAnswered = true)
      (hp : p = .reporting (.error (a.failure Failure.crashReason))
        ∨ ∃ due outcome, p = .producing due outcome)
      (gives : w.gives a = match p with
        | .reporting _ => some (.came .crashed)
        | _ => none) :
      Turn w a (((w.replaced a).noteCall a).advanceTo a p) (some { a with progress := p })
  /-- It calls the source, which offers a sequence. -/
  | opened {source : Source ε V} {offers : Nat → Offer ε V} (queued : a.progress = .queued)
      (ready : a.predecessor.all w.cache.dispatcher.hasAnswered = true)
      (bound : w.cache.dispatcher.binding = some source) (continuous : source.isContinuous = true)
      (gives : w.gives a = none) :
      Turn w a (((w.replaced a).noteCall a).advanceTo { a with offers := some offers } .asking)
        (some { a with offers := some offers, progress := .asking })
  /-- It asks for its next item. -/
  | asked {p : Attempt.Progress ε V} (asking : a.progress = .asking)
      (hp : (∃ due outcome, p = .producing due outcome) ∨ p = .stuck
        ∨ (p = .reporting (.error (a.failure Failure.emptyReason)) ∧ a.item = 0))
      (gives : w.gives a = match p with
        | .reporting _ => some .exhausted
        | _ => none) :
      Turn w a (w.advanceTo a p) (some { a with progress := p })
  /-- There are no more items. -/
  | finished (asking : a.progress = .asking) (h : a.item ≠ 0)
      (gives : w.gives a = some .exhausted) :
      Turn w a (w.withDispatcher (·.retire a.number)) none
  /-- A production came out. -/
  | came {due : Instant} {outcome : ε → Instant → Outcome V} {report : Report V}
      (producing : a.progress = .producing due outcome)
      (h : (∃ v, report = .ok (a.sourced v)) ∨ ∃ reason, report = .error (a.failure reason))
      (gives : ∃ y, w.gives a = some y ∧ y.report a.number a.item = report) :
      Turn w a ({ w with produced := w.produced + 1 }.advanceTo a (.reporting report))
        (some { a with progress := .reporting report })
  /-- A production came out that nobody can copy. -/
  | died {due : Instant} {outcome : ε → Instant → Outcome V}
      (producing : a.progress = .producing due outcome)
      (gives : w.gives a = some (.came .uncopyable)) :
      Turn w a ({ w with produced := w.produced + 1 }.withDispatcher (·.lose a.number)) none
  /-- Its report was ignored. -/
  | ignored {report : Report V} (reporting : a.progress = .reporting report)
      (h : w.isCacheAlive = false ∨ w.cache.dispatcher.latest ≠ a.number) :
      Turn w a (w.advanceTo a (.answering (Attempt.answerOf report .superseded) false))
        (some { a with progress := .answering (Attempt.answerOf report .superseded) false })
  /-- Its value was stored. -/
  | stored {content : Sourced V} (reporting : a.progress = .reporting (.ok content))
      (alive : w.isCacheAlive = true) (latest : w.cache.dispatcher.latest = a.number)
      (h : w.cache.keeps a.item = true) :
      Turn w a ((w.withCache fun c => (c.withCell (·.tally Counters.countSuccess)).store w.now content)
        |>.advanceTo a (.answering (.ok ⟨content, some (w.cache.cell.revision + 1)⟩) a.offers.isSome))
        (some { a with
          progress := .answering (.ok ⟨content, some (w.cache.cell.revision + 1)⟩) a.offers.isSome })
  /-- Its value was counted, and not stored. -/
  | discarded {content : Sourced V} (reporting : a.progress = .reporting (.ok content))
      (alive : w.isCacheAlive = true) (latest : w.cache.dispatcher.latest = a.number)
      (h : w.cache.keeps a.item = false) :
      Turn w a ((w.withCache fun c => (c.withCell (·.tally Counters.countSuccess)).withCell
          (·.moveTo (.invalid false)))
        |>.advanceTo a (.answering (.ok ⟨content, none⟩) a.offers.isSome))
        (some { a with progress := .answering (.ok ⟨content, none⟩) a.offers.isSome })
  /-- Its failure was taken in. -/
  | failed {failure : Failure} (reporting : a.progress = .reporting (.error failure))
      (alive : w.isCacheAlive = true) (latest : w.cache.dispatcher.latest = a.number) :
      Turn w a ((w.withCache fun c => c.withCell fun cell =>
          (cell.tally Counters.countFailure).moveTo (.invalid false))
        |>.advanceTo a (.answering (.error failure) false))
        (some { a with progress := .answering (.error failure) false })
  /-- It answered and goes on to its next item. -/
  | resumed {answer : Answer V} (answering : a.progress = .answering answer true) :
      Turn w a ((w.withDispatcher (·.settle a.number answer)).advanceTo
        { a with item := a.item + 1 } .asking) (some { a with item := a.item + 1, progress := .asking })
  /-- It answered and ended. -/
  | ended {answer : Answer V} (answering : a.progress = .answering answer false) :
      Turn w a ((w.withDispatcher (·.settle a.number answer)).withDispatcher (·.retire a.number)) none

theorem callSource_turn {w : World ε V} {a : Attempt ε V} (queued : a.progress = .queued)
    (can : w.canStep a = true) : ∃ left, Turn w a (w.callSource a) left := by
  have ready : a.predecessor.all w.cache.dispatcher.hasAnswered = true := by
    simpa [canStep, queued] using can
  unfold callSource
  dsimp only
  cases hb : (w.replaced a).cache.dispatcher.binding with
  | none =>
      have hb' : w.cache.dispatcher.binding = none := by
        simpa [replaced, withDispatcher, withCache] using hb
      simp only [replaced] at hb
      rw [hb]
      exact ⟨_, .unbound queued hb'⟩
  | some source =>
      have hb' : w.cache.dispatcher.binding = some source := by
        simpa [replaced, withDispatcher, withCache] using hb
      simp only [replaced] at hb
      rw [hb]
      dsimp only
      -- the source gives something only if its owner is gone, or if its call crashes
      have gives : w.gives a = match if w.hasOwner then none else source.owner with
          | some owner => some (.ownerGone owner)
          | none => if source.crashesAt (w.calls.length + 1) then some (.came .crashed) else none := by
        rw [World.gives, if_pos can]
        simp only [queued, hb']
      split
      next owner ho =>
        have refused : (if w.hasOwner then none else source.owner) = some owner := ho
        rw [refused] at gives
        exact ⟨_, .refused queued ready owner gives⟩
      next ho =>
        have owned : (if w.hasOwner then none else source.owner) = none := ho
        rw [owned] at gives
        have crashes (h : source.crashesAt (w.calls.length + 1) = true) :
            w.gives a = some (.came .crashed) := gives.trans (if_pos h)
        have answers (h : source.crashesAt (w.calls.length + 1) = false) : w.gives a = none :=
          gives.trans (if_neg (by simp [h]))
        split
        next call hs =>
          split
          next hc =>
            have hc : call (w.calls.length + 1) = none := hc
            exact ⟨_, .called queued ready (Or.inl rfl) (crashes (by simp [Source.crashesAt, hs, hc]))⟩
          next p hc =>
            have hc : call (w.calls.length + 1) = some p := hc
            exact ⟨_, .called queued ready (Or.inr ⟨_, _, rfl⟩)
              (answers (by simp [Source.crashesAt, hs, hc]))⟩
        next call hs =>
          split
          next hc =>
            have hc : call (w.calls.length + 1) = none := hc
            exact ⟨_, .called queued ready (Or.inl rfl) (crashes (by simp [Source.crashesAt, hs, hc]))⟩
          next offers hc =>
            have hc : call (w.calls.length + 1) = some offers := hc
            exact ⟨_, .opened queued ready hb' (by simp [Source.isContinuous, hs])
              (answers (by simp [Source.crashesAt, hs, hc]))⟩

theorem askNext_turn {w : World ε V} {a : Attempt ε V} (asking : a.progress = .asking) :
    ∃ left, Turn w a (w.askNext a) left := by
  have gives : w.gives a = match a.offers.map fun offers : Nat → Offer ε V => offers a.item with
      | some .done | none => some .exhausted
      | _ => none := by
    rw [World.gives, if_pos (by simp [canStep, asking]), asking]
  have done (gives : w.gives a = some .exhausted) : ∃ left, Turn w a (if a.item = 0 then
      w.advanceTo a (.reporting (.error (a.failure Failure.emptyReason)))
      else w.withDispatcher (·.retire a.number)) left := by
    by_cases h : a.item = 0
    · rw [if_pos h]
      exact ⟨_, .asked asking (Or.inr (Or.inr ⟨rfl, h⟩)) gives⟩
    · rw [if_neg h]
      exact ⟨_, .finished asking h gives⟩
  unfold askNext
  split
  next ho =>
    rw [ho] at gives
    exact ⟨_, .asked asking (Or.inl ⟨_, _, rfl⟩) gives⟩
  next ho =>
    rw [ho] at gives
    exact ⟨_, .asked asking (Or.inr (Or.inl rfl)) gives⟩
  next ho =>
    rw [ho] at gives
    exact done gives
  next ho =>
    rw [ho] at gives
    exact done gives

theorem produce_turn {w : World ε V} {a : Attempt ε V} {due : Instant}
    {outcome : ε → Instant → Outcome V} (producing : a.progress = .producing due outcome)
    (can : w.canStep a = true) : ∃ left, Turn w a (w.produce a outcome) left := by
  have gives : w.gives a = some (.came (outcome w.surroundings w.now)) := by
    rw [World.gives, if_pos can, producing]
  unfold produce
  dsimp only
  split
  next ho =>
    rw [ho] at gives
    exact ⟨_, .came producing (Or.inl ⟨_, rfl⟩) ⟨_, gives, rfl⟩⟩
  next ho =>
    rw [ho] at gives
    exact ⟨_, .came producing (Or.inr ⟨_, rfl⟩) ⟨_, gives, rfl⟩⟩
  next ho =>
    rw [ho] at gives
    exact ⟨_, .came producing (Or.inr ⟨_, rfl⟩) ⟨_, gives, rfl⟩⟩
  next ho =>
    rw [ho] at gives
    exact ⟨_, .died producing gives⟩

theorem report_turn {w : World ε V} {a : Attempt ε V} {report : Report V}
    (reporting : a.progress = .reporting report) : ∃ left, Turn w a (w.report a report) left := by
  have goesOn_superseded : a.goesOn report .superseded = false := by simp [Attempt.goesOn]
  -- only a report of the newest attempt to a cache in being counts
  unfold World.report
  cases ha : w.isCacheAlive with
  | false =>
      dsimp only
      rw [if_neg (by simp), goesOn_superseded]
      exact ⟨_, .ignored reporting (Or.inl ha)⟩
  | true =>
      rw [if_pos rfl]
      unfold Cache.take
      by_cases hl : w.cache.dispatcher.latest = a.number
      · rw [if_neg (by simp [hl])]
        cases report with
        | error failure => exact ⟨_, .failed reporting ha hl⟩
        | ok content =>
            dsimp only
            cases hk : w.cache.keeps a.item with
            | true =>
                rw [if_pos rfl]
                have goesOn : a.goesOn (.ok content) (.stored (w.cache.cell.revision + 1))
                    = a.offers.isSome := by simp [Attempt.goesOn, Except.isOk, Except.toBool]
                dsimp only
                rw [goesOn]
                exact ⟨_, .stored reporting ha hl hk⟩
            | false =>
                rw [if_neg (by simp)]
                have goesOn : a.goesOn (.ok content) .discarded = a.offers.isSome := by
                  simp [Attempt.goesOn, Except.isOk, Except.toBool]
                dsimp only
                rw [goesOn]
                exact ⟨_, .discarded reporting ha hl hk⟩
      · rw [if_pos hl]
        dsimp only
        rw [goesOn_superseded]
        exact ⟨_, .ignored reporting (Or.inr hl)⟩

theorem answer_turn {w : World ε V} {a : Attempt ε V} {answer : Answer V} {continues : Bool}
    (answering : a.progress = .answering answer continues) :
    ∃ left, Turn w a (w.answer a answer continues) left := by
  unfold World.answer
  cases continues with
  | true => exact ⟨_, .resumed answering⟩
  | false => exact ⟨_, .ended answering⟩

/-- An attempt on the list takes its step. -/
theorem apply_attempt {w : World ε V} {n : Nat} {a : Attempt ε V}
    (running : w.cache.dispatcher.attempt? n = some a) : w.apply (.attempt n) = w.stepAttempt a := by
  show w.advanceAttempt n = _
  rw [advanceAttempt, running]

/-- A step of an attempt that is not on its way. -/
theorem apply_absent {w : World ε V} {n : Nat} (absent : w.cache.dispatcher.attempt? n = none) :
    w.apply (.attempt n) = w := by
  show w.advanceAttempt n = w
  rw [advanceAttempt, absent]

/-- A step of a reader that is not there. -/
theorem apply_unseated {w : World ε V} {key : Nat} (absent : w.seat? key = none) :
    w.apply (.reader key) = w := by
  show w.advanceReader key = w
  rw [advanceReader, absent]

/-- **Every step of an attempt is listed.** -/
theorem stepAttempt_turn (w : World ε V) (a : Attempt ε V) :
    ∃ left, Turn w a (w.stepAttempt a) left := by
  unfold stepAttempt
  split
  next can =>
    cases hp : a.progress with
    | launched =>
        have waiting : a.isExecuting = false := by simp [Attempt.isExecuting, hp]
        have silent : w.gives a = none := by simp [World.gives, hp]
        dsimp only
        split
        · exact ⟨_, .wait waiting (Or.inl rfl) silent⟩
        · exact ⟨_, .wait waiting (Or.inr ⟨_, rfl⟩) silent⟩
    | heldBack resume =>
        exact ⟨_, .wait (by simp [Attempt.isExecuting, hp]) (Or.inl rfl) (by simp [World.gives, hp])⟩
    | queued => exact callSource_turn hp can
    | asking => exact askNext_turn hp
    | producing due outcome => exact produce_turn hp can
    | reporting report => exact report_turn hp
    | answering answer continues => exact answer_turn hp
    | stuck => exact ⟨_, .rest (by simp [World.gives, hp]) (Or.inr hp)⟩
  next can => exact ⟨_, .rest (by rw [World.gives, if_neg can]) (Or.inl (Bool.not_eq_true _ ▸ can))⟩

/-- Whoever is on the list after a step of an attempt is another one, which was on it before, or is what
is left of that attempt; if the step did nothing, the list is as it was. -/
theorem Turn.mem_cases {w w' : World ε V} {a b : Attempt ε V} {left : Option (Attempt ε V)}
    (t : Turn w a w' left) (hb : b ∈ w'.cache.dispatcher.running) :
    (b ∈ w.cache.dispatcher.running ∧ b.number ≠ a.number) ∨ left = some b
      ∨ (b ∈ w.cache.dispatcher.running ∧ left = some a) := by
  have updated {d : Dispatcher ε V} {a' : Attempt ε V} (same : a'.number = a.number)
      (sub : ∀ c ∈ d.running, c ∈ w.cache.dispatcher.running) (hb : b ∈ (d.update a').running) :
      (b ∈ w.cache.dispatcher.running ∧ b.number ≠ a.number) ∨ some a' = some b
        ∨ (b ∈ w.cache.dispatcher.running ∧ some a' = some a) := by
    -- on the list are others, which were there before, and the changed one
    rcases Dispatcher.mem_update_iff.mp hb with ⟨hc, hn⟩ | ⟨rfl, _⟩
    · exact Or.inl ⟨sub b hc, same ▸ hn⟩
    · exact Or.inr (Or.inl rfl)
  have replaced (c : Attempt ε V) (hc : c ∈ (w.cache.dispatcher.dismiss a.supersedes).running) :
      c ∈ w.cache.dispatcher.running := (Dispatcher.mem_dismiss_iff.mp hc).1
  have settled (answer : Answer V) (c : Attempt ε V)
      (hc : c ∈ (w.cache.dispatcher.settle a.number answer).running) :
      c ∈ w.cache.dispatcher.running := by
    rwa [(Dispatcher.settle_frame w.cache.dispatcher a.number answer).1] at hc
  cases t with
  | rest => exact Or.inr (Or.inr ⟨hb, rfl⟩)
  | unbound =>
      obtain ⟨hc, hn⟩ := Dispatcher.mem_lose_iff.mp hb
      exact Or.inl ⟨replaced b hc, hn⟩
  | finished => exact Or.inl (Dispatcher.mem_retire_iff.mp hb)
  | died => exact Or.inl (Dispatcher.mem_lose_iff.mp hb)
  | ended =>
      obtain ⟨hc, hn⟩ := Dispatcher.mem_retire_iff.mp hb
      exact Or.inl ⟨settled _ b hc, hn⟩
  | refused | called | opened => exact updated rfl replaced hb
  | resumed => exact updated rfl (settled _) hb
  | wait | asked | came | ignored | stored | discarded | failed => exact updated rfl (fun _ => id) hb

/-- Whoever is on the list after a step of an attempt was on it before, or is what is left of that
attempt. -/
theorem Turn.mem_running {w w' : World ε V} {a b : Attempt ε V} {left : Option (Attempt ε V)}
    (t : Turn w a w' left) (hb : b ∈ w'.cache.dispatcher.running) :
    b ∈ w.cache.dispatcher.running ∨ left = some b := by
  rcases t.mem_cases hb with ⟨old, _⟩ | stepped | ⟨old, _⟩
  · exact Or.inl old
  · exact Or.inr stepped
  · exact Or.inl old

/-- An attempt keeps its number. -/
theorem Turn.number {w w' : World ε V} {a a' : Attempt ε V} {left : Option (Attempt ε V)}
    (t : Turn w a w' left) (h : left = some a') : a'.number = a.number := by
  cases t <;> cases h <;> rfl

/-- A step of an attempt leaves the owner, the handle, the look-outs and the refresher alone. -/
theorem Turn.bystanders {w w' : World ε V} {a : Attempt ε V} {left : Option (Attempt ε V)}
    (t : Turn w a w' left) :
    w'.hasOwner = w.hasOwner ∧ w'.hasHandle = w.hasHandle ∧ w'.lookouts = w.lookouts
      ∧ w'.refresher = w.refresher := by
  cases t <;> exact ⟨rfl, rfl, rfl, rfl⟩

/-- What a step of an attempt makes of the phase: nothing, unless it is a report that counts. -/
theorem Turn.phase_cases {w w' : World ε V} {a : Attempt ε V} {left : Option (Attempt ε V)}
    (t : Turn w a w' left) :
    w'.cache.cell.phase = w.cache.cell.phase
      ∨ (w.isCacheAlive = true ∧ w.cache.dispatcher.latest = a.number
          ∧ w'.cache.cell.phase = .invalid false)
      ∨ (w.isCacheAlive = true ∧ w.cache.dispatcher.latest = a.number
          ∧ ∃ content, a.progress = .reporting (.ok content) ∧ w.cache.keeps a.item = true
            ∧ w'.cache.cell.phase = .holding (.concealed content)) := by
  cases t with
  | stored reporting alive latest h => exact Or.inr (Or.inr ⟨alive, latest, _, reporting, h, rfl⟩)
  | discarded reporting alive latest h => exact Or.inr (Or.inl ⟨alive, latest, rfl⟩)
  | failed reporting alive latest => exact Or.inr (Or.inl ⟨alive, latest, rfl⟩)
  | rest | wait | unbound | refused | called | opened | asked | finished | came | died | ignored
  | resumed | ended => exact Or.inl rfl

/-- No step of an attempt starts a fetch. -/
theorem Turn.busy_before {w w' : World ε V} {a : Attempt ε V} {left : Option (Attempt ε V)}
    (t : Turn w a w' left) (busy : w'.cache.cell.phase = .calculating) :
    w.cache.cell.phase = .calculating := by
  rcases t.phase_cases with same | ⟨_, _, phase⟩ | ⟨_, _, _, _, _, phase⟩
  · exact same.symm.trans busy
  · cases phase.symm.trans busy
  · cases phase.symm.trans busy

/-! ## §3. What a step of a reader can do. -/

end World

/-- A reader that is through, or crashed, stays so. -/
theorem Reader.holdsCache_of_step {r : Reader} {c : Cache ε V} {now : Instant}
    (h : (r.step c now).2.1.holdsCache = true) : r.holdsCache = true := by
  cases hs : r.stage with
  | «over» => simp [Reader.step, hs, Reader.holdsCache] at h
  | crashed => simp [Reader.step, hs, Reader.holdsCache] at h
  | subscribing | looking | demanding | expecting | waiting | parked | closing =>
      simp [Reader.holdsCache, hs]

namespace World

theorem isCacheAlive_of_seat {w : World ε V} {seat : Seat} (h : seat ∈ w.seats)
    (holds : seat.reader.holdsCache = true) : w.isCacheAlive = true := by
  have any : w.seats.any (·.reader.holdsCache) = true := List.any_eq_true.mpr ⟨seat, h, holds⟩
  simp [isCacheAlive, any]

theorem seat?_mem {w : World ε V} {key : Nat} {seat : Seat} (h : w.seat? key = some seat) :
    seat ∈ w.seats ∧ seat.key = key := by
  unfold seat? at h
  exact ⟨List.mem_of_find?_eq_some h, by simpa using List.find?_some h⟩

theorem aside_dropReader {m : Move ε V} (w : World ε V) (key : Nat) :
    Aside m { w with seats := w.seats.filter (·.key != key) } (w.dropReader key) :=
  aside_untether _

/-- What the world `w` became when the reader in `seat` took a step that came out as `out`. -/
structure Advanced (w : World ε V) (seat : Seat) (out : Cache ε V × Reader × Option (Item V))
    (w' : World ε V) : Prop where
  now : w'.now = w.now
  calls : w'.calls = w.calls
  nextKey : w.nextKey ≤ w'.nextKey
  cell : w'.cache.cell = out.1.cell
  dispatcher : w'.cache.dispatcher = out.1.dispatcher
  /-- The other readers stay; the one that took the step goes if its task ends with the item. -/
  seats : ∀ s ∈ w'.seats, (s ∈ w.seats ∧ s.key ≠ seat.key) ∨
    (s.key = seat.key ∧ s.reader = out.2.1
      ∧ (∃ s₀ ∈ w.seats, s₀.key = seat.key ∧ s₀.role = s.role)
      ∧ ∀ item, out.2.2 = some item → endsTask seat.role item = false)
  keys : (w'.seats.map (·.key)).Sublist (w.seats.map (·.key))
  /-- Nobody leaves but the one that took the step, and that with an item. -/
  stays : ∀ k ∈ w.seats.map (·.key), k ∈ w'.seats.map (·.key) ∨ (k = seat.key ∧ out.2.2.isSome = true)
  deliveries : (out.2.2 = none ∧ w'.deliveries = w.deliveries) ∨
    ∃ item time, out.2.2 = some item
      ∧ w'.deliveries = ⟨seat.key, w.now, presented seat.role item, time⟩ :: w.deliveries
  alive : w'.isCacheAlive = true → w.isCacheAlive = true
  lookouts : w'.lookouts = w.lookouts
  hasOwner : w'.hasOwner = w.hasOwner
  hasHandle : w'.hasHandle = w.hasHandle
  running : w.refresher.isRunning = true → w'.refresher.isRunning = true ∨ w.hasHandle = false

theorem mem_reseat {w : World ε V} {key : Nat} {cache : Cache ε V} {reader : Reader} {s : Seat}
    (h : s ∈ (w.reseat key cache reader).seats) :
    (s ∈ w.seats ∧ s.key ≠ key) ∨
      (s.key = key ∧ s.reader = reader ∧ ∃ s₀ ∈ w.seats, s₀.key = key ∧ s₀.role = s.role) := by
  obtain ⟨s₀, hs₀, rfl⟩ := List.mem_map.mp h
  by_cases hk : s₀.key = key
  · rw [if_pos hk]
    exact Or.inr ⟨hk, rfl, s₀, hs₀, hk, rfl⟩
  · rw [if_neg hk]
    exact Or.inl ⟨hs₀, hk⟩

theorem reseat_keys (w : World ε V) (key : Nat) (cache : Cache ε V) (reader : Reader) :
    (w.reseat key cache reader).seats.map (·.key) = w.seats.map (·.key) := by
  simp only [reseat, List.map_map]
  apply List.map_congr_left
  intro s _
  by_cases hk : s.key = key <;> simp [hk]

/-- A reader that moved on keeps the cache in being only if it did before. -/
theorem alive_of_reseat {w : World ε V} {seat : Seat} {cache : Cache ε V} {reader : Reader}
    (seated : seat ∈ w.seats) (holds : reader.holdsCache = true → seat.reader.holdsCache = true)
    (h : (w.reseat seat.key cache reader).isCacheAlive = true) : w.isCacheAlive = true := by
  simp only [isCacheAlive, Bool.or_eq_true, List.any_eq_true] at h
  rcases h with h | ⟨s, hs, hold⟩
  · simp only [isCacheAlive, Bool.or_eq_true]
    exact Or.inl h
  · rcases mem_reseat hs with ⟨hs, _⟩ | ⟨_, hr, _⟩
    · exact isCacheAlive_of_seat hs hold
    · rw [hr] at hold
      exact isCacheAlive_of_seat seated (holds hold)

/-- A reader that is let go takes nothing with it but its seat. -/
theorem alive_of_filter {w : World ε V} {p : Seat → Bool}
    (h : { w with seats := w.seats.filter p }.isCacheAlive = true) : w.isCacheAlive = true := by
  simp only [isCacheAlive, Bool.or_eq_true, List.any_eq_true, List.mem_filter] at h
  rcases h with h | ⟨s, ⟨hs, _⟩, hold⟩
  · simp only [isCacheAlive, Bool.or_eq_true]
    exact Or.inl h
  · exact isCacheAlive_of_seat hs hold

/-- **Every step of a reader is listed.** -/
theorem advanceReader_advanced {w : World ε V} {key : Nat} {seat : Seat}
    (h : w.seat? key = some seat) :
    Advanced w seat (seat.reader.step w.cache w.now) (w.advanceReader key) := by
  obtain ⟨seated, rfl⟩ := seat?_mem h
  have holds : (seat.reader.step w.cache w.now).2.1.holdsCache = true
      → seat.reader.holdsCache = true := Reader.holdsCache_of_step
  cases hout : seat.reader.step w.cache w.now with
  | mk cache rest =>
      obtain ⟨reader, item⟩ := rest
      -- the reader takes its seat again, and then its item is handed out
      rw [hout] at holds
      have alive : (w.reseat seat.key cache reader).isCacheAlive = true → w.isCacheAlive = true :=
        alive_of_reseat seated holds
      have keys := reseat_keys w seat.key cache reader
      have moved := fun s (hs : s ∈ (w.reseat seat.key cache reader).seats) => mem_reseat hs
      unfold advanceReader
      simp only [h, hout]
      cases item with
      | none =>
          refine ⟨rfl, rfl, Nat.le_refl _, rfl, rfl, fun s hs => ?_, keys ▸ List.Sublist.refl _,
            fun k hk => Or.inl (keys ▸ hk), Or.inl ⟨rfl, rfl⟩, alive, rfl, rfl, rfl, Or.inl⟩
          rcases moved s hs with stays | ⟨hk, hr, hrole⟩
          · exact Or.inl stays
          · exact Or.inr ⟨hk, hr, hrole, fun item hi => by cases hi⟩
      | some item =>
          dsimp only
          by_cases hend : endsTask seat.role item = true
          · -- the task ends with this item: its seat goes too
            rw [if_pos hend]
            have dropped := aside_dropReader (m := .dropReader seat.key)
              ((w.reseat seat.key cache reader).noteDelivery seat.key (presented seat.role item)) seat.key
            refine ⟨dropped.now, dropped.calls, dropped.nextKey, dropped.cell, dropped.dispatcher,
              fun s hs => ?_, ?_, fun k hk => ?_, Or.inr ⟨item, _, rfl, dropped.deliveries⟩,
              fun h => alive (alive_of_filter (dropped.alive h)), dropped.lookouts rfl,
              dropped.hasOwner (by simp), dropped.hasHandle (by simp), fun running => running_untether _ running⟩
            · rw [dropped.seats, List.mem_filter] at hs
              obtain ⟨hs, hne⟩ := hs
              rcases moved s hs with stays | ⟨hk, _⟩
              · exact Or.inl stays
              · simp [hk] at hne
            · rw [dropped.seats, ← keys]
              exact List.filter_sublist.map _
            · by_cases own : k = seat.key
              · exact Or.inr ⟨own, rfl⟩
              · rw [← keys] at hk
                obtain ⟨s, hs, rfl⟩ := List.mem_map.mp hk
                rw [dropped.seats]
                exact Or.inl (List.mem_map.mpr ⟨s, List.mem_filter.mpr ⟨hs, bne_iff_ne.mpr own⟩, rfl⟩)
          · rw [if_neg hend]
            refine ⟨rfl, rfl, Nat.le_refl _, rfl, rfl, fun s hs => ?_, keys ▸ List.Sublist.refl _,
              fun k hk => Or.inl (keys ▸ hk), Or.inr ⟨item, _, rfl, rfl⟩, alive, rfl, rfl, rfl, Or.inl⟩
            rcases moved s hs with stays | ⟨hk, hr, hrole⟩
            · exact Or.inl stays
            · refine Or.inr ⟨hk, hr, hrole, fun item' hi => ?_⟩
              cases hi
              simpa using hend

/-! ## §4. What a move can do. -/

/-- Whether a move throws the value away: the program does so itself, or the refresher takes the
notice of a flush. -/
def invalidates (w : World ε V) : Move ε V → Bool
  | .invalidate => w.hasHandle
  | .react .notice =>
    match w.refresher, w.cache.staleness.notices with
    | .armed _ _, .flush :: _ => true
    | _, _ => false
  | _ => false

/-- What the move `m` can make of the world `w`. -/
inductive Step (w : World ε V) (m : Move ε V) : World ε V → Prop where
  /-- The move passes by the readers and the attempts. -/
  | aside {w' : World ε V} (h : Aside m w w') : Step w m w'
  /-- Time passes, as far as the clock can name it. -/
  | pass {t : Instant} (since : w.now ≤ t) (named : t = w.now ∨ t < Instant.horizon) :
      Step w m { w with now := t }
  /-- A source is bound. -/
  | bind (source : Source ε V) (unsealed : w.cache.dispatcher.sealed = false)
      (own : m = .bind source) :
      Step w m (w.withDispatcher ({ · with binding := some source }))
  /-- Somebody shows interest. -/
  | subscribe (own : m = .subscribe) : Step w m (w.withCache Cache.subscribe)
  /-- The value is thrown away. -/
  | invalidate {w' : World ε V} (h : Aside m w w') (own : w.invalidates m = true) :
      Step w m (w'.withCache Cache.invalidate)
  /-- The readers shall look again. -/
  | poke {w' : World ε V} (h : Aside m w w') : Step w m (w'.withCache Cache.poke)
  /-- A reader starts. -/
  | openReader (reading : Reading) (role : Role) (holds : w.hasHandle = true)
      (own : m = .openReader reading role) :
      Step w m { w with
        seats := w.seats ++ [⟨w.nextKey, role, .new reading⟩], nextKey := w.nextKey + 1 }
  /-- A reader gets a task of its own. -/
  | follow (key : Nat) (own : m = .follow key) : Step w m (w.follow key)
  /-- A reader goes. -/
  | dropReader {key : Nat} {w' : World ε V}
      (h : Aside m { w with seats := w.seats.filter (·.key != key) } w') (own : m = .dropReader key) :
      Step w m w'
  /-- A reader takes a step. -/
  | reader {seat : Seat} {w' : World ε V} (own : m = .reader seat.key)
      (seated : w.seat? seat.key = some seat)
      (h : Advanced w seat (seat.reader.step w.cache w.now) w') : Step w m w'
  /-- An attempt takes a step. -/
  | attempt {a : Attempt ε V} {left : Option (Attempt ε V)} {w' : World ε V}
      (own : m = .attempt a.number) (running : w.cache.dispatcher.attempt? a.number = some a)
      (h : Turn w a w' left) : Step w m w'

theorem bind_step (w : World ε V) (source : Source ε V) : Step w (.bind source) (w.bind source) := by
  unfold bind Dispatcher.bind
  by_cases hs : w.cache.dispatcher.sealed = true
  · rw [if_pos hs]
    exact .aside (.refl w)
  · rw [if_neg hs]
    exact .bind source (by simpa using hs) rfl

/-- A refresher that arms itself again leaves the readers and the attempts alone. -/
theorem aside_rearm {m : Move ε V} (w : World ε V) {wokenFor deadline next : Option Instant} {bus : Option Bus}
    (f : Staleness → Staleness) (h : w.refresher = .armed wokenFor deadline) :
    Aside m w { w.withStaleness f with refresher := .arming next, bus := bus } := by
  have running : w.isCacheAlive = true := by simp [isCacheAlive, h, Refresher.isRunning]
  exact { Aside.refl w with alive := fun _ => running, running := fun _ => Or.inl rfl }

theorem react_step (w : World ε V) (cue : Cue) : Step w (.react cue) (w.react cue) := by
  unfold react
  cases hr : w.refresher with
  | idle => exact .aside (.refl w)
  | arming wokenFor => exact .aside (.refl w)
  | stopped => exact .aside (.refl w)
  | armed wokenFor deadline =>
      cases cue with
      | notice =>
          dsimp only
          split
          next notice rest hn =>
            have rearmed : Aside (.react .notice) w { w.withStaleness ({ · with notices := rest }) with
                refresher := .arming wokenFor, bus := w.bus } := aside_rearm w _ hr
            cases notice with
            | flush => exact .invalidate rearmed (by simp [invalidates, hr, hn])
            | refresh => exact .poke rearmed
            | reschedule => exact .aside rearmed
          next => exact .aside (.refl w)
      | signal =>
          dsimp only
          split
          next received bus _ =>
            cases received with
            | signal s => exact .aside (aside_rearm w (fun book => (book.observe s).1) hr)
            | lagged missed => exact .poke (aside_rearm w id hr)
            | closed => exact .aside (aside_rearm w id hr)
          next => exact .aside (.refl w)
      | timer =>
          dsimp only
          split
          · exact .poke (aside_rearm w id hr)
          · exact .aside (.refl w)

/-- **Every move is listed.** -/
theorem apply_step (w : World ε V) (m : Move ε V) : Step w m (w.apply m) := by
  cases m with
  | bind source => exact bind_step w source
  | subscribe =>
      show Step w _ (if w.hasHandle then w.withCache Cache.subscribe else w)
      split
      · exact .subscribe rfl
      · exact .aside (.refl w)
  | invalidate =>
      show Step w _ (if w.hasHandle then w.withCache Cache.invalidate else w)
      split
      next handle => exact .invalidate (.refl w) handle
      next => exact .aside (.refl w)
  | poke =>
      show Step w _ (if w.hasHandle then w.withCache Cache.poke else w)
      split
      · exact .poke (.refl w)
      · exact .aside (.refl w)
  | flush => exact .aside (aside_around w _ w.bus w.hasSpareEnd w.surroundings)
  | observe x =>
      exact .aside (aside_around w (fun book => (book.observe x).1) w.bus w.hasSpareEnd w.surroundings)
  | recordSuccess =>
      exact .aside (aside_around w (·.recordSuccess w.now) w.bus w.hasSpareEnd w.surroundings)
  | publish x => exact .aside (aside_around w id _ w.hasSpareEnd w.surroundings)
  | closeBus => exact .aside (aside_around w id _ w.hasSpareEnd w.surroundings)
  | takeNotices =>
      show Step w _ (if w.hasSpareEnd then _ else w)
      split
      · exact .aside (aside_around w (fun book => book.take.1) w.bus w.hasSpareEnd w.surroundings)
      · exact .aside (.refl w)
  | dropNotices =>
      show Step w _ (if w.hasSpareEnd then _ else w)
      split
      · exact .aside (aside_around w Staleness.deafen w.bus false w.surroundings)
      · exact .aside (.refl w)
  | startRefresher => exact .aside (aside_startRefresher w)
  | stopRefresher => exact .aside (aside_stopRefresher (Or.inr (Or.inr (Or.inl rfl))))
  | openReader reading role =>
      show Step w _ (w.openReader reading role)
      unfold World.openReader
      split
      next holds => exact .openReader reading role holds rfl
      next => exact .aside (.refl w)
  | follow key => exact .follow key rfl
  | dropReader key => exact .dropReader (aside_dropReader w key) rfl
  | openLookout =>
      show Step w _ w.openLookout
      unfold World.openLookout
      split
      next handle =>
        have tends : w.tendsLookouts .openLookout = true := handle
        exact .aside { Aside.refl w with
          nextKey := Nat.le_succ _, lookouts := fun other => nomatch tends.symm.trans other }
      next => exact .aside (.refl w)
  | pollLookout key | dropLookout key =>
      exact .aside { Aside.refl w with lookouts := fun other => nomatch other }
  | dropHandle => exact .aside (aside_dropHandle w)
  | dropOwner =>
      exact .aside { Aside.refl w with hasOwner := fun other => absurd rfl other }
  | surround surroundings => exact .aside (aside_around w id w.bus w.hasSpareEnd surroundings)
  | reader key =>
      show Step w _ (w.advanceReader key)
      cases hs : w.seat? key with
      | none =>
          -- nobody sits there
          rw [advanceReader, hs]
          exact .aside (.refl w)
      | some seat =>
          obtain rfl := (seat?_mem hs).2
          exact .reader rfl hs (advanceReader_advanced hs)
  | attempt number =>
      show Step w _ (w.advanceAttempt number)
      unfold advanceAttempt
      split
      next a ha =>
        obtain rfl := (Dispatcher.attempt?_mem ha).2
        obtain ⟨left, turn⟩ := stepAttempt_turn w a
        exact .attempt rfl ha turn
      next => exact .aside (.refl w)
  | arm => exact .aside (aside_armRefresher w)
  | react cue => exact react_step w cue
  | pass d =>
      show Step w _ { w with now := (w.now.later? d).getD w.now }
      unfold Instant.later?
      by_cases h : d = 0 ∨ w.now + d < Instant.horizon
      · rw [if_pos h]
        refine .pass (w.now.le_add d) ?_
        rcases h with rfl | h
        · simp
        · exact Or.inr h
      · rw [if_neg h]
        exact .pass (Int.le_refl _) (Or.inl rfl)

section

variable {w w' : World ε V} {m : Move ε V}

/-- An owner leaves with one move only, and does not come back. -/
theorem Step.hasOwner (s : Step w m w') (other : m ≠ .dropOwner) : w'.hasOwner = w.hasOwner := by
  cases s with
  | aside ha | invalidate ha | poke ha | dropReader ha => exact ha.hasOwner other
  | pass | bind | subscribe | openReader | follow => rfl
  | reader own seated ha => exact ha.hasOwner
  | attempt own running t => exact t.bystanders.1

/-- The program lets go of the cache with one move only. -/
theorem Step.hasHandle (s : Step w m w') (other : m ≠ .dropHandle) : w'.hasHandle = w.hasHandle := by
  cases s with
  | aside ha | invalidate ha | poke ha | dropReader ha => exact ha.hasHandle other
  | pass | bind | subscribe | openReader | follow => rfl
  | reader own seated ha => exact ha.hasHandle
  | attempt own running t => exact t.bystanders.2.1

/-- A move that is not about look-outs leaves them alone. -/
theorem Step.lookouts (s : Step w m w') (other : w.tendsLookouts m = false) :
    w'.lookouts = w.lookouts := by
  cases s with
  | aside ha | invalidate ha | poke ha | dropReader ha => exact ha.lookouts other
  | pass | bind | subscribe | openReader | follow => rfl
  | reader own seated ha => exact ha.lookouts
  | attempt own running t => exact t.bystanders.2.2.1

/-- A refresher goes on, unless the move may end it. -/
theorem Step.running (s : Step w m w') (running : w.refresher.isRunning = true) :
    w'.refresher.isRunning = true ∨ w.MayStop m := by
  cases s with
  | aside ha | invalidate ha | poke ha | dropReader ha => exact ha.running running
  | pass | bind | subscribe | openReader | follow => exact Or.inl running
  | reader own seated ha => exact (ha.running running).imp_right Or.inl
  | attempt own _ t =>
      rw [t.bystanders.2.2.2]
      exact Or.inl running

end

/-! ## §5. Reachable worlds. -/

/-- The world in which nothing has happened yet. -/
inductive Initial : World ε V → Prop where
  | selfRefreshing (settings : Settings) (bus : Option Bus) (surroundings : ε) :
      Initial (.selfRefreshing settings bus surroundings)
  | bare (settings : Settings) (bus : Option Bus) (surroundings : ε) :
      Initial (.bare settings bus surroundings)

/-- The worlds that any order of moves can lead to. -/
inductive Reachable : World ε V → Prop where
  | initial {w : World ε V} (h : Initial w) : Reachable w
  | move {w : World ε V} (h : Reachable w) (m : Move ε V) : Reachable (w.apply m)

theorem run_cons (w : World ε V) (m : Move ε V) (moves : List (Move ε V)) :
    w.run (m :: moves) = (w.apply m).run moves := rfl

theorem run_append (w : World ε V) (moves more : List (Move ε V)) :
    w.run (moves ++ more) = (w.run moves).run more := by
  unfold run
  exact List.foldl_append

/-- What is observed along a run, oldest first, each move seen in the world in which it is made. -/
def observed {α : Type} (w : World ε V) (observe : World ε V → Move ε V → Option α) :
    List (Move ε V) → List α
  | [] => []
  | m :: moves => (observe w m).toList ++ (w.apply m).observed observe moves

theorem observed_append {α : Type} (w : World ε V) (observe : World ε V → Move ε V → Option α)
    (moves more : List (Move ε V)) :
    w.observed observe (moves ++ more)
      = w.observed observe moves ++ (w.run moves).observed observe more := by
  induction moves generalizing w with
  | nil => rfl
  | cons m moves ih =>
      show (observe w m).toList ++ (w.apply m).observed observe (moves ++ more) = _
      rw [ih, ← List.append_assoc]
      rfl

theorem Reachable.run {w : World ε V} (h : Reachable w) (moves : List (Move ε V)) :
    Reachable (w.run moves) := by
  induction moves generalizing w with
  | nil => exact h
  | cons m moves ih => exact ih (h.move m)

/-- What holds at first and outlasts every listed step holds in every reachable world. -/
theorem Reachable.invariant {P : World ε V → Prop} (initial : ∀ w, Initial w → P w)
    (step : ∀ w m w', Reachable w → P w → Step w m w' → P w') {w : World ε V} (h : Reachable w) :
    P w := by
  induction h with
  | initial h => exact initial _ h
  | move h m ih => exact step _ m _ h ih (apply_step _ m)

end World

end SingleFlight
