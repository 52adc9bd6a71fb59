/-
  SingleFlight.Proofs.Marks — what a mark on the cell tells the readers.

  A live reader that finds nothing to hand out parks and waits for a mark on the
  cell, and this is all that it learns of.  So every section that changes the
  phase or the revision has to leave a mark; a section that leaves none has
  changed counters at most.  A reader that is parked and has seen the last mark
  therefore knows the cell: there is no value, or it has the value already.

  Main results:
    * `Step.marks` — no step changes phase or revision without a mark.
    * `Reachable.concealed` — a value that is held can be handed out.
    * `Reachable.watched` — what a parked reader knows of the cell.
-/
import SingleFlight.Proofs.Waiting

namespace SingleFlight

variable {ε V : Type}

/-! ## §1. Marks. -/

/-- What became of the cell `c`: without a mark neither its phase nor its revision changed. -/
structure Cell.Marks (c c' : Cell V) : Prop where
  le : c.version ≤ c'.version
  same : c'.version = c.version → c'.phase = c.phase ∧ c'.revision = c.revision

theorem Cell.Marks.of_eq {c c' : Cell V} (version : c'.version = c.version)
    (phase : c'.phase = c.phase) (revision : c'.revision = c.revision) : c.Marks c' :=
  ⟨Nat.le_of_eq version.symm, fun _ => ⟨phase, revision⟩⟩

theorem Cell.Marks.refl (c : Cell V) : c.Marks c := .of_eq rfl rfl rfl

/-- A mark excuses every change. -/
theorem Cell.Marks.of_mark {c c' : Cell V} (h : c'.version = c.version + 1) : c.Marks c' :=
  ⟨by omega, fun same => by omega⟩

theorem Cell.Marks.trans {c c' c'' : Cell V} (h : c.Marks c') (h' : c'.Marks c'') : c.Marks c'' := by
  refine ⟨Nat.le_trans h.le h'.le, fun same => ?_⟩
  have first := h.le
  have second := h'.le
  obtain ⟨phase, revision⟩ := h.same (by omega)
  obtain ⟨phase', revision'⟩ := h'.same (by omega)
  exact ⟨phase'.trans phase, revision'.trans revision⟩

theorem Cache.Touch.marks {c c' : Cache ε V} {now : Instant} (t : Cache.Touch c now c') :
    c.cell.Marks c'.cell := by
  cases t with
  | tally | overflow | lost => exact .of_eq rfl rfl rfl
  | noticed | started => exact .of_mark rfl

namespace World

theorem Turn.marks {w w' : World ε V} {a : Attempt ε V} {left : Option (Attempt ε V)}
    (t : Turn w a w' left) : w.cache.cell.Marks w'.cache.cell := by
  cases t with
  | stored | discarded | failed => exact .of_mark rfl
  | rest | wait | unbound | refused | called | opened | asked | finished | came | died | ignored
  | resumed | ended => exact .refl _

/-- **No step changes the phase or the revision without a mark.** -/
theorem Step.marks {w w' : World ε V} {m : Move ε V} (s : Step w m w') :
    w.cache.cell.Marks w'.cache.cell := by
  cases s with
  | aside ha | dropReader ha => exact ha.cell ▸ .refl _
  | pass | bind | openReader | follow => exact .refl _
  | @invalidate asided ha | @poke asided ha =>
      have cell : asided.cache.cell = w.cache.cell := ha.cell
      rw [← cell]
      exact .of_mark rfl
  | subscribe => exact (Cache.subscribe_touch w.cache w.now).marks
  | @reader seat _ own seated ha =>
      rw [ha.cell]
      exact (seat.reader.step_stepped w.cache w.now).touch.marks
  | attempt own running t => exact t.marks

theorem marks_run (w : World ε V) (moves : List (Move ε V)) :
    w.cache.cell.Marks (w.run moves).cache.cell := by
  induction moves generalizing w with
  | nil => exact .refl _
  | cons m moves ih => exact (apply_step w m).marks.trans (ih (w.apply m))

/-! ## §2. What is held. -/

/-- Every held value can be handed out. -/
def Conceals (phase : Phase (Sourced V)) : Prop :=
  ∀ v, phase = .holding v → ∃ content, v = .concealed content

theorem conceals_touch {c c' : Cache ε V} {now : Instant} (t : Cache.Touch c now c')
    (h : Conceals c.cell.phase) : Conceals c'.cell.phase := by
  rcases t.phase_cases with same | ⟨refetch, phase, _⟩ | ⟨phase, _⟩
  · rw [same]
    exact h
  · intro v hv
    rw [phase] at hv
    cases hv
  · intro v hv
    rw [phase] at hv
    cases hv

/-- **A value that is held can be handed out**, in every reachable world. -/
theorem Reachable.concealed {w : World ε V} (h : Reachable w) : Conceals w.cache.cell.phase := by
  refine h.invariant (P := fun w => Conceals w.cache.cell.phase) (fun w hw => ?_)
    (fun w m w' _ h s => ?_)
  · cases hw <;> exact fun v hv => nomatch hv
  · cases s with
    | aside ha | dropReader ha =>
        rw [ha.cell]
        exact h
    | pass | bind | openReader | follow => exact h
    | invalidate => exact fun v hv => nomatch hv
    | @poke asided ha =>
        show Conceals asided.cache.cell.phase
        rw [ha.cell]
        exact h
    | subscribe => exact conceals_touch (Cache.subscribe_touch w.cache w.now) h
    | reader own seated ha =>
        rw [ha.cell]
        exact conceals_touch (Reader.step_stepped _ _ _).touch h
    | attempt own running t =>
        rcases t.phase_cases with same | ⟨_, _, phase⟩ | ⟨_, _, content, _, _, phase⟩
        · rw [same]
          exact h
        · intro v hv
          rw [phase] at hv
          cases hv
        · intro v hv
          rw [phase] at hv
          cases hv
          exact ⟨content, rfl⟩

end World

/-! ## §3. Parked readers. -/

namespace Reader

/-- A reader remembers the marks that it has seen. -/
theorem seen_step (r : Reader) (c : Cache ε V) (now : Instant) :
    (r.step c now).2.1.seen = r.seen ∨ (r.step c now).2.1.seen = c.cell.version := by
  have act := r.step_act c now
  generalize r.step c now = out at act ⊢
  cases act with
  | unserved | served | joined | started => exact Or.inr rfl
  | refused _ _ _ _ seen | broke _ _ _ _ seen => exact seen
  | subscribed | demanded | answered | satisfied | failed | idle | woken | finished | crashed =>
      exact Or.inl rfl

/-- A reader comes to park with a look that gives it nothing, if it goes on after a value; or it has seen all
marks and stays. -/
theorem parked_of_step {r : Reader} {c : Cache ε V} {now : Instant}
    (h : (r.step c now).2.1.stage = .parked) :
    (r.stage = .parked ∧ c.cell.version = r.seen ∧ r.step c now = (c, r, none))
      ∨ ∃ c', Cache.Accessed c now r.delivered (c', .nothing) ∧ r.reading.follows = true
        ∧ r.step c now = (c', { r with seen := c.cell.version, stage := .parked }, none) := by
  have act := r.step_act c now
  generalize r.step c now = out at act h ⊢
  cases act with
  | @unserved c' _ looked =>
      have parked : (if r.reading.follows then Stage.parked else .subscribing) = .parked := h
      refine Or.inr ⟨c', looked, ?_, by rw [parked]⟩
      refine Decidable.byContradiction fun single => ?_
      rw [if_neg single] at parked
      cases parked
  | idle hs =>
      have parked : r.stage = .parked := h
      rcases hs with ⟨k, awaits, _⟩ | ⟨_, seen⟩
      · simp [awaits?, parked] at awaits
      · exact Or.inl ⟨parked, seen, rfl⟩
  | served | answered =>
      simp only [stageAfterValue] at h
      split at h <;> cases h
  | refused _ _ through | failed _ _ through => rcases through with hs | hs <;> cases hs.symm.trans h
  | broke _ _ crashed => cases crashed.symm.trans h
  | crashed hs => cases hs.symm.trans h
  | subscribed | joined | demanded | started | satisfied | woken | finished => cases h

end Reader

namespace World

/-- A parked reader that has seen the last mark has nothing to take: there is no value and nobody asks
for one, or it has the value already. -/
def Knows (r : Reader) (c : Cell V) : Prop :=
  c.phase = .invalid false
    ∨ ∃ content, c.phase = .holding (.concealed content) ∧ r.delivered = some c.revision

/-- Readers have seen the marks of the past only, and parked ones know the cell. -/
structure Watched (w : World ε V) : Prop where
  seen : ∀ s ∈ w.seats, s.reader.seen ≤ w.cache.cell.version
  parked : ∀ s ∈ w.seats, s.reader.stage = .parked → s.reader.seen = w.cache.cell.version →
    Knows s.reader w.cache.cell

/-- A reader that has just parked knows the cell, unless it left a mark itself. -/
theorem knows_of_accessed {r : Reader} {c c' : Cache ε V} {now : Instant}
    (conceals : Conceals c.cell.phase) (looked : Cache.Accessed c now r.delivered (c', .nothing))
    (seen : c.cell.version = c'.cell.version) : Knows r c'.cell := by
  cases looked with
  | nothing h =>
      rcases h with invalid | ⟨v, held, had⟩
      · exact Or.inl invalid
      · obtain ⟨content, rfl⟩ := conceals v held
        exact Or.inr ⟨content, held, had content rfl⟩
  | noticed => exact absurd seen (Nat.ne_of_lt (Nat.lt_succ_self _))

/-- A move that leaves the readers where they are keeps them watched. -/
theorem Watched.same {w : World ε V} (h : Watched w) {cell : Cell V} (marks : w.cache.cell.Marks cell)
    {r : Reader} (before : (∃ s₀ ∈ w.seats, s₀.reader = r) ∨ ∃ reading, r = .new reading) :
    r.seen ≤ cell.version ∧ (r.stage = .parked → r.seen = cell.version → Knows r cell) := by
  rcases before with ⟨s₀, hs₀, rfl⟩ | ⟨reading, rfl⟩
  · have before := h.seen s₀ hs₀
    refine ⟨Nat.le_trans before marks.le, fun parked seen => ?_⟩
    -- it had seen the last mark before, so there was none since
    have later := marks.le
    obtain ⟨phase, revision⟩ := marks.same (by omega)
    have knows := h.parked s₀ hs₀ parked (by omega)
    unfold Knows at knows ⊢
    rw [phase, revision]
    exact knows
  · refine ⟨Nat.zero_le _, fun parked => ?_⟩
    unfold Reader.new at parked
    cases hd : reading.demands <;> simp [hd] at parked

/-- **A parked reader knows the cell**, in every reachable world. -/
theorem Reachable.watched {w : World ε V} (h : Reachable w) : Watched w := by
  refine h.invariant (fun w hw => ?_) (fun w m w' reachable h s => ?_)
  · cases hw <;> exact ⟨fun _ hs => (nomatch hs), fun _ hs => (nomatch hs)⟩
  · have marks := s.marks
    rcases s.readers with others | ⟨seat, listed, ha⟩
    · exact ⟨fun r hr => (h.same marks (others r hr)).1, fun r hr => (h.same marks (others r hr)).2⟩
    · have others {r : Seat} (hr : r ∈ w.seats) := h.same marks (Or.inl ⟨r, hr, rfl⟩)
      refine ⟨fun r hr => ?_, fun r hr parked seen => ?_⟩
      · rcases ha.seats r hr with ⟨old, _⟩ | ⟨_, reader, _⟩
        · exact (others old).1
        · rw [reader]
          rcases seat.reader.seen_step w.cache w.now with same | now
          · rw [same]
            exact (others listed).1
          · rw [now]
            exact marks.le
      · rcases ha.seats r hr with ⟨old, _⟩ | ⟨_, reader, _⟩
        · exact (others old).2 parked seen
        · rw [reader] at parked seen ⊢
          rcases Reader.parked_of_step parked with ⟨before, _, idle⟩ | ⟨c', nothing, _, looked⟩
          · rw [idle] at seen ⊢
            exact (others listed).2 before seen
          · have cell := ha.cell
            rw [looked] at seen cell ⊢
            rw [cell] at seen ⊢
            exact knows_of_accessed reachable.concealed nothing seen

end World

end SingleFlight
