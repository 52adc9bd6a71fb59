/-
  SingleFlight.Proofs.Holding — when a value is held, and what the phase tells of it.

  Five things can happen to the cell that matter to whoever looks at its value:
  a value is stored, an attempt is launched, the value is thrown away, and the
  newest attempt reports a failure, or a value that the cell does not keep.
  `event?` reads them off the moves, before anything is known of the phase.
  The cell forgets all of them but the last: it holds a value exactly if the
  last event was that it was stored.

  Main results:
    * `shows_run` — the cell shows the last event of its run.
    * `holds_last_stored` — a held value is the one stored last, is told by the
      phase, and nothing else exposes a value.
-/
import SingleFlight.Proofs.Discharge

namespace SingleFlight

variable {ε V : Type}

/-! ## §1. Events. -/

/-- What happens to the cell. -/
inductive Event (V : Type) where
  /-- A value was stored under a revision. -/
  | stored (content : Sourced V) (revision : Nat)
  /-- An attempt was launched. -/
  | launched
  /-- The value was thrown away. -/
  | invalidated
  /-- A failure of the newest attempt was taken in. -/
  | failed
  /-- A value of the newest attempt was counted, and not stored. -/
  | discarded
  deriving DecidableEq, Repr, Inhabited

/-- What a report and its verdict mean to the cell. -/
def Event.ofReport? : Report V → Verdict → Option (Event V)
  | .ok content, .stored revision => some (.stored content revision)
  | .ok _, .discarded => some .discarded
  | .error _, .discarded => some .failed
  | .error _, .stored _ | _, .superseded => none

/-- What the cell shows if `last` was its last event: the value that was stored, or none. -/
def Cell.Shows (cell : Cell V) : Option (Event V) → Prop
  | some (.stored content revision) =>
    cell.phase = .holding (.concealed content) ∧ cell.revision = revision
  | _ => ∀ v, cell.phase ≠ .holding v

/-- A report that means something to the cell is shown by it. -/
theorem Cache.take_shows {c : Cache ε V} {now : Instant} {n item : Nat} {report : Report V} {e : Event V}
    (h : Event.ofReport? report (c.take now n item report).2 = some e) :
    (c.take now n item report).1.cell.Shows (some e) := by
  unfold take at h ⊢
  by_cases older : c.dispatcher.latest ≠ n
  · rw [if_pos older] at h
    cases report <;> cases h
  · rw [if_neg older] at h ⊢
    cases report with
    | error failure =>
        cases h
        exact fun v hv => nomatch hv
    | ok content =>
        dsimp only at h ⊢
        split at h
        next keeps =>
          rw [if_pos keeps]
          cases h
          exact ⟨rfl, rfl⟩
        next keeps =>
          rw [if_neg keeps]
          cases h
          exact fun v hv => nomatch hv

/-- A report that means nothing to the cell leaves the cache as it is. -/
theorem Cache.take_silent {c : Cache ε V} {now : Instant} {n item : Nat} {report : Report V}
    (h : Event.ofReport? report (c.take now n item report).2 = none) :
    (c.take now n item report).1 = c := by
  unfold take at h ⊢
  by_cases older : c.dispatcher.latest ≠ n
  · rw [if_pos older]
  · rw [if_neg older] at h
    cases report with
    | error failure => cases h
    | ok content =>
        dsimp only at h
        split at h <;> cases h

namespace World

/-- The report that an attempt makes with its next step, and how the cache takes it. -/
def reported? (w : World ε V) (number : Nat) : Option (Report V × Verdict) :=
  match w.cache.dispatcher.attempt? number with
  | some a =>
    match a.progress with
    | .reporting report => some (report,
        if w.isCacheAlive then (w.cache.take w.now a.number a.item report).2 else .superseded)
    | _ => none
  | none => none

/-- What a move means to the cell. -/
def event? (w : World ε V) : Move ε V → Option (Event V)
  | .attempt number => (w.reported? number).bind fun (report, verdict) =>
    Event.ofReport? report verdict
  | m =>
    if w.invalidates m then some .invalidated
    else if w.launches m then some .launched
    else none

/-- What happens to the cell along a run, oldest first. -/
def events (w : World ε V) (moves : List (Move ε V)) : List (Event V) := w.observed event? moves

/-! ## §2. What the cell shows. -/

theorem event?_of_invalidates {w : World ε V} {m : Move ε V} (h : w.invalidates m = true) :
    w.event? m = some .invalidated := by
  cases m with
  | attempt number => cases h
  | _ => simp only [event?, h, if_true]

theorem not_launches_of_silent {w : World ε V} {key : Nat} (silent : w.event? (.reader key) = none) :
    w.launches (.reader key) = false := by
  simp only [event?] at silent
  split at silent
  next => cases silent
  next =>
    split at silent
    next => cases silent
    next calm => simpa using calm

/-- The cell after an attempt reported. -/
theorem cell_of_reporting {w : World ε V} {a : Attempt ε V} {report : Report V}
    (running : w.cache.dispatcher.attempt? a.number = some a) (reporting : a.progress = .reporting report) :
    (w.apply (.attempt a.number)).cache.cell
      = if w.isCacheAlive then (w.cache.take w.now a.number a.item report).1.cell
        else w.cache.cell := by
  rw [apply_report running reporting]
  unfold World.report
  cases w.isCacheAlive <;> rfl

theorem reported?_eq {w : World ε V} {a : Attempt ε V} {report : Report V}
    (running : w.cache.dispatcher.attempt? a.number = some a) (reporting : a.progress = .reporting report) :
    w.reported? a.number = some (report,
      if w.isCacheAlive then (w.cache.take w.now a.number a.item report).2 else .superseded) := by
  simp only [reported?, running, reporting]

/-- **The cell shows an event at once.** -/
theorem shows_of_event {w : World ε V} {m : Move ε V} {e : Event V} (h : w.event? m = some e) :
    (w.apply m).cache.cell.Shows (some e) := by
  have gone (thrown : w.invalidates m = true) : (w.apply m).cache.cell.Shows (some .invalidated) := by
    intro v hv
    rw [flushed_of_invalidates thrown] at hv
    cases hv
  have busy (launched : w.launches m = true) : (w.apply m).cache.cell.Shows (some .launched) := by
    intro v hv
    simp [launches, hv, Phase.isCalculating] at launched
  cases m with
  | attempt number =>
      simp only [event?] at h
      obtain ⟨⟨report, verdict⟩, reported, meaning⟩ := Option.bind_eq_some_iff.mp h
      unfold reported? at reported
      split at reported
      next a running =>
        split at reported
        next reporting =>
          obtain ⟨_, rfl⟩ := Dispatcher.attempt?_mem running
          cases reported
          rw [cell_of_reporting running reporting]
          cases alive : w.isCacheAlive with
          | false =>
              rw [alive] at meaning
              cases report <;> cases meaning
          | true =>
              rw [alive] at meaning
              exact Cache.take_shows meaning
        next => cases reported
      next => cases reported
  | _ =>
      simp only [event?] at h
      split at h
      next thrown =>
        cases h
        exact gone thrown
      next =>
        split at h
        next launched =>
          cases h
          exact busy launched
        next => cases h

/-- What a silent section of a reader leaves alone. -/
theorem holding_touch {c c' : Cache ε V} {now : Instant} (t : Cache.Touch c now c')
    (calm : c'.cell.phase = .calculating → c'.dispatcher.latest = c.dispatcher.latest)
    {v : Visibility (Sourced V)} (h : c.cell.phase = .holding v) : c'.cell.phase = .holding v := by
  rcases t.phase_cases with same | ⟨_, _, flushed | invalid⟩ | ⟨busy, _, started⟩
  · exact same.trans h
  · cases flushed.symm.trans h
  · cases invalid.symm.trans h
  · have same := calm busy
    have new := started.latest
    omega

/-- An attempt whose step means nothing to the cell leaves it as it is. -/
theorem cell_of_silent_attempt {w : World ε V} {a : Attempt ε V}
    (running : w.cache.dispatcher.attempt? a.number = some a)
    (silent : w.event? (.attempt a.number) = none) :
    (w.apply (.attempt a.number)).cache.cell = w.cache.cell := by
  by_cases reports : ∃ report, a.progress = .reporting report
  · obtain ⟨report, reporting⟩ := reports
    rw [cell_of_reporting running reporting]
    simp only [event?, reported?_eq running reporting, Option.bind_some] at silent
    cases alive : w.isCacheAlive with
    | false => rfl
    | true =>
        rw [alive] at silent
        exact congrArg Cache.cell (Cache.take_silent silent)
  · obtain ⟨left, t⟩ := stepAttempt_turn w a
    rw [apply_attempt running]
    exact t.cell_of_silent fun report reporting => reports ⟨report, reporting⟩

/-- What a move leaves alone that means nothing to the cell. -/
theorem holding_of_silent {w : World ε V} {m : Move ε V} (silent : w.event? m = none) :
    (∀ v, w.cache.cell.phase = .holding v → (w.apply m).cache.cell.phase = .holding v)
      ∧ (∀ v, (w.apply m).cache.cell.phase = .holding v → w.cache.cell.phase = .holding v)
      ∧ (w.apply m).cache.cell.revision = w.cache.cell.revision := by
  have s := apply_step w m
  generalize after : w.apply m = w' at s ⊢
  have same {w' : World ε V} (phase : w'.cache.cell.phase = w.cache.cell.phase)
      (revision : w'.cache.cell.revision = w.cache.cell.revision) :
      (∀ v, w.cache.cell.phase = .holding v → w'.cache.cell.phase = .holding v)
        ∧ (∀ v, w'.cache.cell.phase = .holding v → w.cache.cell.phase = .holding v)
        ∧ w'.cache.cell.revision = w.cache.cell.revision :=
    ⟨fun v hv => phase.trans hv, fun v hv => phase.symm.trans hv, revision⟩
  cases s with
  | aside ha | dropReader ha => exact same (congrArg Cell.phase ha.cell) (congrArg Cell.revision ha.cell)
  | pass | bind | openReader | follow => exact same rfl rfl
  | invalidate _ own =>
      rw [event?_of_invalidates own] at silent
      cases silent
  | @poke asided ha =>
      have phase : asided.cache.cell.phase = w.cache.cell.phase := congrArg Cell.phase ha.cell
      have revision : asided.cache.cell.revision = w.cache.cell.revision :=
        congrArg Cell.revision ha.cell
      exact same phase revision
  | subscribe =>
      have touch := Cache.subscribe_touch w.cache w.now
      refine ⟨fun v hv => holding_touch touch (fun _ => ?_) hv, fun v hv => touch.holding hv,
        touch.revision⟩
      show w.cache.subscribe.dispatcher.latest = _
      unfold Cache.subscribe
      split <;> rfl
  | @reader seat _ own seated ha =>
      have touch := (seat.reader.step_stepped w.cache w.now).touch
      have calm : w.launches (.reader seat.key) = false := by
        rw [own] at silent
        exact not_launches_of_silent silent
      refine ⟨fun v hv => ?_, fun v hv => ?_, ?_⟩
      · rw [ha.cell]
        refine holding_touch touch (fun busy => ?_) hv
        rw [own] at after
        rw [launches, after, ha.cell, ha.dispatcher, busy] at calm
        simpa [Phase.isCalculating] using calm
      · rw [ha.cell] at hv
        exact touch.holding hv
      · rw [ha.cell]
        exact touch.revision
  | @attempt a left _ own running t =>
      have cell : w'.cache.cell = w.cache.cell := by
        rw [own] at silent after
        exact after ▸ cell_of_silent_attempt running silent
      exact same (congrArg Cell.phase cell) (congrArg Cell.revision cell)

/-- A move leaves the cell showing its last event. -/
theorem shows_apply {w : World ε V} {last : Option (Event V)} (h : w.cache.cell.Shows last)
    (m : Move ε V) : (w.apply m).cache.cell.Shows ((w.event? m).or last) := by
  cases he : w.event? m with
  | some e => exact shows_of_event he
  | none =>
      obtain ⟨keeps, kept, revision⟩ := holding_of_silent he
      rw [Option.none_or]
      match last with
      | some (.stored content r) => exact ⟨keeps _ h.1, revision.trans h.2⟩
      | some .launched | some .invalidated | some .failed | some .discarded | none =>
          exact fun v hv => h v (kept v hv)

/-- **The cell shows the last event of its run.** -/
theorem shows_run {w : World ε V} {last : Option (Event V)} (h : w.cache.cell.Shows last)
    (moves : List (Move ε V)) :
    (w.run moves).cache.cell.Shows ((w.events moves).getLast?.or last) := by
  induction moves generalizing w last with
  | nil => exact h
  | cons m moves ih =>
      have shown := ih (shows_apply h m)
      have latest : (w.events (m :: moves)).getLast?.or last
          = ((w.apply m).events moves).getLast?.or ((w.event? m).or last) := by
        show ((w.event? m).toList ++ (w.apply m).events moves).getLast?.or last = _
        rw [List.getLast?_append, Option.or_assoc]
        cases w.event? m <;> rfl
      rw [latest]
      exact shown

/-! ## §3. What the phase tells. -/

/-- Nobody makes a cell empty again. -/
theorem not_empty_run {w : World ε V} (left : w.cache.cell.phase ≠ .empty) (moves : List (Move ε V)) :
    (w.run moves).cache.cell.phase ≠ .empty := by
  have touched {c c' : Cache ε V} {now : Instant} (t : Cache.Touch c now c') (left : c.cell.phase ≠ .empty) :
      c'.cell.phase ≠ .empty := by
    rcases t.phase_cases with same | ⟨refetch, phase, _⟩ | ⟨phase, _⟩
    · exact fun empty => left (same.symm.trans empty)
    · exact fun empty => nomatch phase.symm.trans empty
    · exact fun empty => nomatch phase.symm.trans empty
  induction moves generalizing w with
  | nil => exact left
  | cons m moves ih =>
      refine ih ?_
      have s := apply_step w m
      generalize w.apply m = w' at s ⊢
      cases s with
      | aside ha | dropReader ha => exact fun empty => left ((congrArg Cell.phase ha.cell).symm.trans empty)
      | pass | bind | openReader | follow => exact left
      | invalidate => exact fun empty => nomatch empty
      | @poke asided ha =>
          have phase : asided.cache.cell.phase = w.cache.cell.phase := congrArg Cell.phase ha.cell
          exact fun empty => left (phase.symm.trans empty)
      | subscribe => exact touched (Cache.subscribe_touch w.cache w.now) left
      | reader own seated ha =>
          rw [ha.cell]
          exact touched (Reader.step_stepped _ _ _).touch left
      | attempt own running t =>
          rcases t.phase_cases with same | ⟨_, _, phase⟩ | ⟨_, _, _, _, _, phase⟩
          · exact fun empty => left (same.symm.trans empty)
          · exact fun empty => nomatch phase.symm.trans empty
          · exact fun empty => nomatch phase.symm.trans empty

end World

/-- **The phase tells the held value.**  Of what the cell can come to, only a held value is described with
the words `private stream: ` in front. -/
theorem Phase.describe_eq_iff {phase : Phase (Sourced V)} (conceals : World.Conceals phase)
    (shown : Sourced V → String) (t : String) :
    phase.describe shown = "private stream: " ++ t ↔ phase.value?.map shown = some t := by
  -- the name of a phase without a value begins with another letter
  have others (label : String) {c : Char} (first : label.toList.head? = some c) (differ : c ≠ 'p') :
      label ≠ "private stream: " ++ t := by
    intro same
    rw [same, String.toList_append] at first
    cases first
    exact differ rfl
  cases phase with
  | holding v =>
      obtain ⟨content, rfl⟩ := conceals v rfl
      have text : (Phase.holding (.concealed content)).describe shown
          = "private stream: " ++ shown content := rfl
      rw [text]
      show _ ↔ some (shown content) = some t
      rw [Option.some.injEq]
      exact String.append_right_inj _
  | empty => exact iff_of_false (others "empty" rfl (by decide)) (fun h => nomatch h)
  | calculating => exact iff_of_false (others "calculating" rfl (by decide)) (fun h => nomatch h)
  | flushed => exact iff_of_false (others "flush" rfl (by decide)) (fun h => nomatch h)
  | invalid refetch =>
      cases refetch with
      | true => exact iff_of_false (others "invalid(should_fetch: true)" rfl (by decide)) (fun h => nomatch h)
      | false => exact iff_of_false (others "invalid(should_fetch: false)" rfl (by decide)) (fun h => nomatch h)

theorem Cache.peek_eq (c : Cache ε V) : c.peek = c.cell.phase.value?.map Sourced.value := rfl

namespace World

/-- The held value of the cell, if it shows its last event. -/
theorem peek_iff_of_shows {w : World ε V} {last : Option (Event V)} (h : w.cache.cell.Shows last) (v : V) :
    w.cache.peek = some v
      ↔ ∃ content, content.value = v ∧ last = some (.stored content w.cache.cell.revision) := by
  match last with
  | some (.stored content r) =>
      obtain ⟨held, rfl⟩ := h
      have peek : w.cache.peek = some content.value := by
        rw [Cache.peek_eq, held]
        rfl
      rw [peek]
      constructor
      · intro same
        exact ⟨content, Option.some.inj same, rfl⟩
      · rintro ⟨content', rfl, own⟩
        cases own
        rfl
  | some .launched | some .invalidated | some .failed | some .discarded | none =>
      refine iff_of_false (fun peek => ?_) (fun ⟨_, _, stored⟩ => nomatch stored)
      have empty : w.cache.cell.phase.value? = none := by
        cases hp : w.cache.cell.phase with
        | holding v => exact absurd hp (h v)
        | empty | calculating | flushed | invalid => rfl
      rw [Cache.peek_eq, empty] at peek
      cases peek

/-- **A value is held exactly as long as nothing has happened since it was stored.**  At every point of
every run: what is held is kept concealed; it is shown by `peek` exactly if the phase is described as a
private stream of it, and exactly if the last event was that it was stored, under the revision that the
cell has; in every other phase there is nothing to show; and a phase that is not empty never becomes empty
again. -/
theorem holds_last_stored {w₀ : World ε V} (initial : Initial w₀) (moves : List (Move ε V))
    (shown : V → String) :
    let w := w₀.run moves
    (∀ v, w.cache.cell.phase = .holding v → ∃ content, v = .concealed content)
      ∧ (∀ t, w.cache.peek.map shown = some t
          ↔ w.cache.cell.phase.describe (shown ·.value) = "private stream: " ++ t)
      ∧ (Function.Injective shown → ∀ v, w.cache.peek = some v
          ↔ w.cache.cell.phase.describe (shown ·.value) = "private stream: " ++ shown v)
      ∧ (∀ v, w.cache.peek = some v ↔ ∃ content, content.value = v
          ∧ (w₀.events moves).getLast? = some (.stored content w.cache.cell.revision))
      ∧ (w.cache.peek = none ↔ ∀ v, w.cache.cell.phase ≠ .holding v)
      ∧ (w.cache.cell.phase ≠ .empty → ∀ more, (w.run more).cache.cell.phase ≠ .empty) := by
  intro w
  have conceals : Conceals w.cache.cell.phase := ((Reachable.initial initial).run moves).concealed
  have shows : w.cache.cell.Shows (w₀.events moves).getLast? := by
    have fresh : w₀.cache.cell.Shows (none : Option (Event V)) := by
      cases initial <;> exact fun v hv => nomatch hv
    have last := shows_run fresh moves
    rwa [Option.or_none] at last
  have told (t : String) : w.cache.peek.map shown = some t
      ↔ w.cache.cell.phase.describe (shown ·.value) = "private stream: " ++ t := by
    rw [Phase.describe_eq_iff conceals, Cache.peek_eq, Option.map_map]
    rfl
  refine ⟨conceals, told, fun injective v => ?_, peek_iff_of_shows shows, ?_, not_empty_run⟩
  · rw [← told, Option.map_eq_some_iff]
    exact ⟨fun held => ⟨v, held, rfl⟩, fun ⟨_, held, same⟩ => injective same ▸ held⟩
  · constructor
    · intro nothing v held
      obtain ⟨content, rfl⟩ := conceals v held
      rw [Cache.peek_eq, held] at nothing
      cases nothing
    · intro valueless
      cases hp : w.cache.cell.phase with
      | holding v => exact absurd hp (valueless v)
      | empty | calculating | flushed | invalid =>
          rw [Cache.peek_eq, hp]
          rfl

/-- A fetched value is thrown away before it is read, and fetched again. -/
def fetchedAgain : List (Move Unit Nat) :=
  [.bind counting, .openReader .once .polled, .reader 0, .reader 0, .attempt 1, .attempt 1, .attempt 1,
    .attempt 1, .attempt 1, .invalidate, .openReader .once .polled, .reader 1, .reader 1, .attempt 2,
    .attempt 2, .attempt 2, .attempt 2]

theorem holds_last_stored_fetchedAgain :
    let w₀ : World Unit Nat := .bare ⟨.periodic 1000, .unpaced⟩ none ()
    w₀.events fetchedAgain
        = [.launched, .stored ⟨10, 1, 0⟩ 1, .invalidated, .launched, .stored ⟨20, 2, 0⟩ 2]
      ∧ (w₀.run fetchedAgain).cache.cell.phase.describe (fun content => toString content.value)
        = "private stream: " ++ toString 20
      ∧ (w₀.run fetchedAgain).cache.peek = some 20 := by
  have h := holds_last_stored (.bare ⟨.periodic 1000, .unpaced⟩ none ()) fetchedAgain
    (fun n : Nat => toString n)
  have held := (h.2.2.2.1 20).mpr ⟨⟨20, 2, 0⟩, rfl, by decide +kernel⟩
  exact ⟨by decide +kernel, (h.2.1 (toString 20)).mp (by rw [held]; rfl), held⟩

end World

end SingleFlight
