/-
  SingleFlight.Proofs.Following — what a reader that goes on has been given last.

  A live reader notes the revision that it was given last, and waits for as long
  as the cell stays at that revision.  So it misses no value if it notes no
  revision whose value it was not given.  A reader that started with a fetch of
  its own breaks this rule once: it notes the revision that the cell has when the
  reader takes the answer, and by then the cell may hold a later item of the
  stream.  That item it is never given.

  Main results:
    * `UpToDate.run` — the last item of a reader is the value of the revision
      that it noted, one revision excepted.
    * `last_item_held_iff` — a reader that started with a fetch and has come to
      wait was given the held value last, unless the cell is still where it was
      when the reader took the answer, and had moved on before.
-/
import SingleFlight.Proofs.Filing
import SingleFlight.Proofs.Marks

namespace SingleFlight

variable {ε V : Type}

/-! ## §1. What a reader notes. -/

namespace Reader

/-- The reader starts with a fetch of its own, and has not been given anything. -/
def isStarting (r : Reader) : Bool :=
  match r.stage with
  | .demanding | .expecting _ => true
  | _ => false

/-- What a reader that becomes `r'` has been given with the step, and which revision it notes. -/
inductive Takes (r : Reader) (c : Cache ε V) (r' : Reader) : Option (Item V) → Prop where
  /-- It has been given nothing. -/
  | nothing (same : r'.delivered = r.delivered) : Takes r c r' none
  /-- It is through. -/
  | closed {item : Option (Item V)} (same : r'.delivered = r.delivered) (h : r'.isOpen = false) :
      Takes r c r' item
  /-- The held value. -/
  | held {content : Sourced V} (h : c.cell.phase = .holding (.concealed content))
      (noted : r'.delivered = some c.cell.revision) : Takes r c r' (some (.value content))
  /-- The value of an attempt that it joined. -/
  | answered {k : Nat} {fetched : Fetched V} (waits : r.stage = .waiting k)
      (h : c.dispatcher.answer? k = some (.ok fetched))
      (noted : r'.delivered = fetched.revision.or r.delivered) :
      Takes r c r' (some (.value fetched.content))
  /-- The value of the attempt that it demanded. -/
  | started {k : Nat} {fetched : Fetched V} (expects : r.stage = .expecting k)
      (h : c.dispatcher.answer? k = some (.ok fetched))
      (noted : r'.delivered = some c.cell.revision) : Takes r c r' (some (.value fetched.content))

theorem step_takes (r : Reader) (c : Cache ε V) (now : Instant) :
    Takes r c (r.step c now).2.1 (r.step c now).2.2 := by
  have act := r.step_act c now
  generalize r.step c now = out at act ⊢
  cases act with
  | served _ looked =>
      cases looked with
      | served held => exact .held held rfl
  | answered hs answer => exact .answered hs answer rfl
  | started hs answer => exact .started hs answer rfl
  | refused _ _ through same => exact .closed same.2 (isOpen_of_through through)
  | failed _ _ through => exact .closed rfl (isOpen_of_through through)
  | broke _ _ crashed same => exact .closed same.2 (by simp [isOpen, crashed])
  | crashed hs => exact .closed rfl (by simp [isOpen, hs])
  | satisfied | finished => exact .closed rfl rfl
  | subscribed | unserved | joined | demanded | idle | woken => exact .nothing rfl

/-- Nobody starts twice. -/
theorem isStarting_step {r : Reader} (h : r.isStarting = false) (c : Cache ε V) (now : Instant) :
    (r.step c now).2.1.isStarting = false := by
  have act := r.step_act c now
  generalize r.step c now = out at act ⊢
  cases act with
  | unserved => cases follows : r.reading.follows <;> rfl
  | served | answered =>
      simp only [isStarting, stageAfterValue]
      cases r.reading.follows <;> rfl
  | demanded hs => simp [isStarting, hs] at h
  | refused _ _ through => rcases through with hs | hs <;> simp [isStarting, hs]
  | failed _ _ through =>
      rcases through with hs | hs
      · cases hs
        rfl
      · cases hs
        rfl
  | broke _ _ crashed => simp [isStarting, crashed]
  | idle | crashed => exact h
  | subscribed | joined | started | satisfied | woken | finished => rfl

end Reader

namespace World

/-- A reader notes revisions of the past only, and whoever waits for an attempt has not noted the
revision of the held value. -/
structure Noted (w : World ε V) : Prop where
  le : ∀ s ∈ w.seats, ∀ r, s.reader.delivered = some r → r ≤ w.cache.cell.revision
  waits : ∀ s ∈ w.seats, s.reader.awaits?.isSome = true →
    ∀ v, w.cache.cell.phase = .holding v → s.reader.delivered ≠ some w.cache.cell.revision

/-- Others leave what a reader has noted, and a value that they store has a new revision. -/
theorem Noted.same {w w' : World ε V} {m : Move ε V} (h : Noted w) (s : Step w m w') {r : Reader}
    (before : (∃ s₀ ∈ w.seats, s₀.reader = r) ∨ ∃ reading, r = .new reading) :
    (∀ n, r.delivered = some n → n ≤ w'.cache.cell.revision)
      ∧ (r.awaits?.isSome = true → ∀ v, w'.cache.cell.phase = .holding v →
        r.delivered ≠ some w'.cache.cell.revision) := by
  rcases before with ⟨s₀, hs₀, rfl⟩ | ⟨reading, rfl⟩
  · refine ⟨fun n noted => Nat.le_trans (h.le s₀ hs₀ n noted) s.revision_le,
      fun awaits v holding noted => ?_⟩
    rcases s.holding_cases holding with ⟨before, revision⟩ | raised
    · rw [revision] at noted
      exact h.waits s₀ hs₀ awaits v before noted
    · exact absurd (h.le s₀ hs₀ _ noted) (Nat.not_le.mpr raised)
  · exact ⟨fun n noted => (nomatch noted), fun _ v _ noted => (nomatch noted)⟩

theorem Noted.le_step {w : World ε V} (h : Noted w) (filed : Filed w) {seat : Seat}
    (seated : seat ∈ w.seats) {n : Nat}
    (noted : (seat.reader.step w.cache w.now).2.1.delivered = some n) :
    n ≤ w.cache.cell.revision := by
  have takes := seat.reader.step_takes w.cache w.now
  generalize (seat.reader.step w.cache w.now).2.1 = r at takes noted
  generalize (seat.reader.step w.cache w.now).2.2 = item at takes
  cases takes with
  | nothing same | closed same =>
      rw [same] at noted
      exact h.le seat seated n noted
  | held _ now | started _ _ now =>
      rw [now] at noted
      exact Nat.le_of_eq (Option.some.inj noted).symm
  | @answered k fetched waits answered now =>
      rw [now] at noted
      rcases Option.or_eq_some_iff.mp noted with stored | ⟨_, old⟩
      · exact filed.le fetched (Or.inl ⟨k, answered⟩) n stored
      · exact h.le seat seated n old

theorem Noted.waits_step {w : World ε V} (h : Noted w) {seat : Seat} (seated : seat ∈ w.seats) {k : Nat}
    (awaits : (seat.reader.step w.cache w.now).2.1.awaits? = some k) {v : Visibility (Sourced V)}
    (holding : (seat.reader.step w.cache w.now).1.cell.phase = .holding v) :
    (seat.reader.step w.cache w.now).2.1.delivered ≠ some w.cache.cell.revision := by
  have stepped := seat.reader.step_stepped w.cache w.now
  have takes := seat.reader.step_takes w.cache w.now
  cases hitem : (seat.reader.step w.cache w.now).2.2 with
  | some item =>
      rw [(stepped.hands item hitem).2] at awaits
      cases awaits
  | none =>
      rw [hitem] at takes
      obtain ⟨isOpen, waits⟩ := stepped.quiet hitem
      cases takes with
      | closed _ closed =>
          rw [isOpen] at closed
          cases closed
      | nothing same =>
          rw [same]
          rcases waits k awaits with before | told
          · exact h.waits seat seated (by rw [before]; rfl) v (stepped.touch.holding holding)
          · -- whoever has just been told to wait left no value behind
            rw [told.calculating] at holding
            cases holding

theorem Reachable.noted {w : World ε V} (h : Reachable w) : Noted w := by
  refine h.invariant (fun w hw => ?_) (fun w m w' reachable h s => ?_)
  · cases hw <;> exact ⟨fun _ hs => (nomatch hs), fun _ hs => (nomatch hs)⟩
  · rcases s.readers with others | ⟨seat, seated, ha⟩
    · exact ⟨fun r hr => (h.same s (others r hr)).1, fun r hr => (h.same s (others r hr)).2⟩
    · have others {r : Seat} (hr : r ∈ w.seats) := h.same s (Or.inl ⟨r, hr, rfl⟩)
      have revision : w'.cache.cell.revision = w.cache.cell.revision := by
        rw [ha.cell, (seat.reader.step_stepped w.cache w.now).touch.revision]
      refine ⟨fun r hr n noted => ?_, fun r hr awaits v holding => ?_⟩
      · rcases ha.seats r hr with ⟨old, _⟩ | ⟨_, reader, _⟩
        · exact (others old).1 n noted
        · rw [reader] at noted
          rw [revision]
          exact h.le_step reachable.filed seated noted
      · rcases ha.seats r hr with ⟨old, _⟩ | ⟨_, reader, _⟩
        · exact (others old).2 awaits v holding
        · rw [reader] at awaits ⊢
          rw [ha.cell] at holding
          rw [revision]
          obtain ⟨k, awaited⟩ := Option.isSome_iff_exists.mp awaits
          exact h.waits_step seated awaited holding

/-! ## §2. Who is up to date. -/

/-- If the reader of the key is still open, and has noted the revision of the held value, then that
value is its last item; `exempt` is the one revision of which this is not said. -/
structure UpToDate (exempt : Option Nat) (key : Nat) (w : World ε V) : Prop where
  past : ∀ s ∈ w.seats, s.key = key → s.reader.isStarting = false
  last : ∀ s ∈ w.seats, s.key = key → s.reader.isOpen = true →
    ∀ content, w.cache.cell.phase = .holding (.concealed content) →
      s.reader.delivered = some w.cache.cell.revision → some w.cache.cell.revision ≠ exempt →
      (w.itemsTo key).head? = some (.value content)

theorem UpToDate.advanced {exempt : Option Nat} {w w' : World ε V} {seat : Seat}
    (h : UpToDate exempt seat.key w) (reachable : Reachable w) (seated : seat ∈ w.seats)
    (ha : Advanced w seat (seat.reader.step w.cache w.now) w') : UpToDate exempt seat.key w' := by
  have stepped := seat.reader.step_stepped w.cache w.now
  have starting := h.past seat seated rfl
  refine ⟨fun s hs hk => ?_, fun s hs hk isOpen content holding noted counts => ?_⟩
  · rcases ha.seats s hs with ⟨old, _⟩ | ⟨_, reader, _⟩
    · exact h.past s old hk
    · rw [reader]
      exact Reader.isStarting_step starting _ _
  · rcases ha.seats s hs with ⟨_, other⟩ | ⟨_, reader, _⟩
    · exact absurd hk other
    · have revision : w'.cache.cell.revision = w.cache.cell.revision := by
        rw [ha.cell, stepped.touch.revision]
      rw [ha.cell] at holding
      have before := stepped.touch.holding holding
      rw [reader] at isOpen noted
      rw [revision] at noted counts
      have items := ha.itemsTo reachable.attended seated
      have takes := seat.reader.step_takes w.cache w.now
      cases hitem : (seat.reader.step w.cache w.now).2.2 with
      | none =>
          rw [hitem] at takes items
          cases takes with
          | closed _ closed =>
              rw [closed] at isOpen
              cases isOpen
          | nothing same =>
              rw [same] at noted
              rw [items]
              exact h.last seat seated rfl (Reader.isOpen_of_step isOpen) content before noted counts
      | some item =>
          rw [hitem] at takes items
          rw [items]
          cases takes with
          | closed _ closed =>
              rw [closed] at isOpen
              cases isOpen
          | held holds =>
              rw [before] at holds
              cases holds
              rfl
          | started expects =>
              simp [Reader.isStarting, expects] at starting
          | @answered k fetched waits answered now =>
              rw [now] at noted
              rcases Option.or_eq_some_iff.mp noted with stored | ⟨_, old⟩
              · -- it was answered with the value that is held
                have same := (reachable.filed.held fetched (Or.inl ⟨k, answered⟩) content before).mpr stored
                rw [same]
                rfl
              · have awaits : seat.reader.awaits? = some k :=
                  Reader.awaits?_eq_some_iff.mpr (Or.inr waits)
                exact absurd old (reachable.noted.waits seat seated (by rw [awaits]; rfl) _ before)

theorem UpToDate.step {exempt : Option Nat} {key : Nat} {w w' : World ε V} {m : Move ε V}
    (h : UpToDate exempt key w) (reachable : Reachable w) (known : key < w.nextKey)
    (s : Step w m w') : UpToDate exempt key w' := by
  rcases s.reader_cases known with ⟨same, seats⟩ | ⟨seat, seated, _, advanced⟩
  · refine ⟨fun r hr hk => ?_, fun r hr hk isOpen content holding noted counts => ?_⟩
    · obtain ⟨r₀, hr₀, hk₀, reader⟩ := seats r hr hk
      rw [← reader]
      exact h.past r₀ hr₀ hk₀
    · obtain ⟨r₀, hr₀, hk₀, reader⟩ := seats r hr hk
      rw [← reader] at isOpen noted
      rw [same]
      rcases s.holding_cases holding with ⟨before, revision⟩ | raised
      · rw [revision] at noted counts
        exact h.last r₀ hr₀ hk₀ isOpen content before noted counts
      · -- nobody has noted the revision of a new value
        exact absurd (reachable.noted.le r₀ hr₀ _ noted) (Nat.not_le.mpr raised)
  · obtain ⟨listed, rfl⟩ := seat?_mem seated
    exact h.advanced reachable listed advanced

/-- **A reader that is up to date stays so.** -/
theorem UpToDate.run {exempt : Option Nat} {key : Nat} {w : World ε V} (h : UpToDate exempt key w)
    (reachable : Reachable w) (known : key < w.nextKey) (moves : List (Move ε V)) :
    UpToDate exempt key (w.run moves) :=
  reachable.outlasts (fun _ _ _ reachable known h s => h.step reachable known s) known h moves

/-! ## §3. Who has nothing to take. -/

/-- The reader of the key has noted the revision `base`, and for as long as the cell holds the value of
that revision it is given nothing. -/
structure Sated (base key : Nat) (items : List (Item V)) (w : World ε V) : Prop where
  le : base ≤ w.cache.cell.revision
  follows : ∀ s ∈ w.seats, s.key = key → s.reader.reading.follows = true
  quiet : ∀ v, w.cache.cell.phase = .holding v → w.cache.cell.revision = base →
    ∀ s ∈ w.seats, s.key = key → s.reader.isOpen = true →
      w.itemsTo key = items ∧ s.reader.delivered = some base
        ∧ (s.reader.stage = .looking ∨ s.reader.stage = .parked)

/-- A live reader that looks or is parked, and has noted the revision of the held value, is given
nothing: it goes on so, or it is through. -/
theorem step_sated {r : Reader} {c : Cache ε V} {now : Instant} (follows : r.reading.follows = true)
    (noted : r.delivered = some c.cell.revision) (stage : r.stage = .looking ∨ r.stage = .parked)
    {v : Visibility (Sourced V)} (holding : (r.step c now).1.cell.phase = .holding v)
    (isOpen : (r.step c now).2.1.isOpen = true) :
    (r.step c now).2.2 = none ∧ (r.step c now).2.1.delivered = r.delivered
      ∧ ((r.step c now).2.1.stage = .looking ∨ (r.step c now).2.1.stage = .parked) := by
  rcases stage with hs | hs
  · simp only [Reader.step, hs] at holding isOpen ⊢
    have looked := c.access_accessed now r.delivered
    generalize c.access now r.delivered = out at looked holding isOpen ⊢
    cases looked with
    | nothing | noticed =>
        simp only [Reader.receive, follows]
        exact ⟨trivial, trivial, Or.inr rfl⟩
    | served _ _ unseen => exact absurd noted unseen
    | @ticket _ t told =>
        cases t with
        | wait k =>
            -- it has been told to wait, and the value is gone
            have gone := told.calculating
            rw [holding] at gone
            cases gone
        | failed | crashed => cases isOpen
  · simp only [Reader.step, hs]
    split
    · exact ⟨rfl, rfl, Or.inr hs⟩
    · exact ⟨rfl, rfl, Or.inl rfl⟩

theorem Sated.step {base key : Nat} {items : List (Item V)} {w w' : World ε V} {m : Move ε V}
    (h : Sated base key items w) (reachable : Reachable w) (known : key < w.nextKey)
    (s : Step w m w') : Sated base key items w' := by
  -- a value that is held at the revision `base` has been there before
  have stayed {v : Visibility (Sourced V)} (holding : w'.cache.cell.phase = .holding v)
      (revision : w'.cache.cell.revision = base) :
      w.cache.cell.phase = .holding v ∧ w.cache.cell.revision = base := by
    have before := h.le
    rcases s.holding_cases holding with ⟨held, same⟩ | raised
    · exact ⟨held, same.symm.trans revision⟩
    · omega
  rcases s.reader_cases known with ⟨same, seats⟩ | ⟨seat, seated, _, advanced⟩
  · refine ⟨Nat.le_trans h.le s.revision_le, fun r hr hk => ?_, fun v holding revision r hr hk isOpen => ?_⟩
    · obtain ⟨r₀, hr₀, hk₀, reader⟩ := seats r hr hk
      rw [← reader]
      exact h.follows r₀ hr₀ hk₀
    · obtain ⟨r₀, hr₀, hk₀, reader⟩ := seats r hr hk
      obtain ⟨held, before⟩ := stayed holding revision
      rw [← reader] at isOpen ⊢
      rw [same]
      exact h.quiet v held before r₀ hr₀ hk₀ isOpen
  · obtain ⟨listed, rfl⟩ := seat?_mem seated
    have follows := h.follows seat listed rfl
    refine ⟨Nat.le_trans h.le s.revision_le, fun r hr hk => ?_, fun v holding revision r hr hk isOpen => ?_⟩
    · rcases advanced.seats r hr with ⟨old, _⟩ | ⟨_, reader, _⟩
      · exact h.follows r old hk
      · rw [reader, Reader.reading_step]
        exact follows
    · rcases advanced.seats r hr with ⟨_, other⟩ | ⟨_, reader, _⟩
      · exact absurd hk other
      · obtain ⟨held, before⟩ := stayed holding revision
        rw [reader] at isOpen ⊢
        rw [advanced.cell] at holding
        obtain ⟨given, noted, stage⟩ :=
          h.quiet v held before seat listed rfl (Reader.isOpen_of_step isOpen)
        obtain ⟨none, same, stage⟩ :=
          step_sated follows (noted.trans (congrArg some before.symm)) stage holding isOpen
        rw [advanced.itemsTo reachable.attended listed, none]
        exact ⟨given, same.trans noted, stage⟩

theorem Sated.run {base key : Nat} {items : List (Item V)} {w : World ε V}
    (h : Sated base key items w) (reachable : Reachable w) (known : key < w.nextKey)
    (moves : List (Move ε V)) : Sated base key items (w.run moves) :=
  reachable.outlasts (fun _ _ _ reachable known h s => h.step reachable known s) known h moves

/-! ## §4. Starting with a fetch. -/

/-- A reader that demanded a fetch takes the answer, and the cell as it is then. -/
theorem apply_expecting {w : World ε V} (h : Reachable w) {seat : Seat} {k : Nat}
    {fetched : Fetched V} (seated : w.seat? seat.key = some seat)
    (expects : seat.reader.stage = .expecting k) (follows : seat.reader.reading.follows = true)
    (answered : w.cache.dispatcher.answer? k = some (.ok fetched)) :
    let p := w.apply (.reader seat.key)
    p.itemsTo seat.key = .value fetched.content :: w.itemsTo seat.key
      ∧ p.cache.cell = w.cache.cell
      ∧ ∀ s ∈ p.seats, s.key = seat.key → s.reader = { seat.reader with
          delivered := some w.cache.cell.revision, seen := w.cache.cell.version, stage := .looking } := by
  intro p
  have advanced := advanceReader_advanced seated
  have stepped : seat.reader.step w.cache w.now = (w.cache, { seat.reader with
      delivered := some w.cache.cell.revision, seen := w.cache.cell.version, stage := .looking },
      some (.value fetched.content)) := by
    simp only [Reader.step, expects, answered, Reader.receiveExpected, follows, if_true]
  have items := advanced.itemsTo h.attended (seat?_mem seated).1
  rw [stepped] at items advanced
  refine ⟨items, advanced.cell, fun s hs hk => ?_⟩
  rcases advanced.seats s hs with ⟨_, other⟩ | ⟨_, reader, _⟩
  · exact absurd hk other
  · exact reader

/-- **What a reader that started with a fetch was given last.**  Let a live reader take the value of
the fetch that it demanded.  That value is its first item.  Whenever it waits for a change from then on,
however the run has gone, and a value is held, then this value is its last item if and only if the cell
has moved on since the reader took the answer, or still held that answer then.  In the other case the
first item is all that it has been given, and it never sees the held value. -/
theorem last_item_held_iff {w : World ε V} (h : Reachable w) {seat : Seat} {k : Nat}
    {fetched : Fetched V} (seated : w.seat? seat.key = some seat)
    (expects : seat.reader.stage = .expecting k) (follows : seat.reader.reading.follows = true)
    (answered : w.cache.dispatcher.answer? k = some (.ok fetched)) (more : List (Move ε V)) :
    let p := w.apply (.reader seat.key)
    let q := p.run more
    p.itemsTo seat.key = .value fetched.content :: w.itemsTo seat.key
      ∧ ∀ s ∈ q.seats, s.key = seat.key → s.reader.stage = .parked →
        s.reader.seen = q.cache.cell.version →
        ∀ content, q.cache.cell.phase = .holding (.concealed content) →
          ((q.itemsTo seat.key).head? = some (.value content)
            ↔ q.cache.cell.revision ≠ w.cache.cell.revision
              ∨ fetched.revision = some w.cache.cell.revision)
          ∧ (q.cache.cell.revision = w.cache.cell.revision → q.itemsTo seat.key = p.itemsTo seat.key) := by
  intro p q
  obtain ⟨items, cell, readers⟩ := apply_expecting h seated expects follows answered
  have reachable : Reachable p := h.move _
  have known : seat.key < p.nextKey := h.attended.known (seat?_mem seated).1 _
  have revision : p.cache.cell.revision = w.cache.cell.revision := congrArg Cell.revision cell
  have upToDate : UpToDate (some w.cache.cell.revision) seat.key q := by
    refine UpToDate.run ⟨fun s hs hk => ?_, fun s _ _ _ content _ _ counts => ?_⟩ reachable known more
    · rw [readers s hs hk]
      rfl
    · exact absurd (congrArg some revision) counts
  have sated : Sated w.cache.cell.revision seat.key (p.itemsTo seat.key) q := by
    refine Sated.run ⟨Nat.le_of_eq revision.symm, fun s hs hk => ?_, fun v _ _ s hs hk _ => ?_⟩
      reachable known more
    · rw [readers s hs hk]
      exact follows
    · rw [readers s hs hk]
      exact ⟨rfl, rfl, Or.inl rfl⟩
  refine ⟨items, fun s hs hk parked seen content holding => ?_⟩
  have isOpen : s.reader.isOpen = true := by simp [Reader.isOpen, parked]
  have noted : s.reader.delivered = some q.cache.cell.revision := by
    rcases (reachable.run more).watched.parked s hs parked seen with invalid | ⟨_, _, noted⟩
    · rw [invalid] at holding
      cases holding
    · exact noted
  by_cases same : q.cache.cell.revision = w.cache.cell.revision
  · -- the cell is where it was, and so is the reader
    obtain ⟨quiet, _⟩ := sated.quiet _ holding same s hs hk isOpen
    refine ⟨?_, fun _ => quiet⟩
    have still := answer?_run h answered (.reader seat.key :: more)
    have filed := (reachable.run more).filed.held fetched (Or.inl ⟨k, still⟩) content holding
    rw [quiet, items, ← same]
    simp only [List.head?_cons, Option.some.injEq, Item.value.injEq, ne_eq, not_true_eq_false, false_or]
    exact eq_comm.trans filed
  · have last := upToDate.last s hs hk isOpen content holding noted (fun now => same (Option.some.inj now))
    exact ⟨iff_of_true last (Or.inl same), fun now => absurd now same⟩

/-- A sequence of two items, the second a second after the first, and of none after them. -/
def doubled : Source Unit Nat where
  shape := .continuous fun _ => some fun item =>
    if item < 2 then .item ⟨1000 * item, fun _ _ => .value (10 + item)⟩ else .never

/-- A live reader is asked once, and the fetch that it demanded has answered with its first item. -/
def firstAnswered : List (Move Unit Nat) :=
  [.bind doubled, .openReader .anewLive .polled, .reader 0, .attempt 1, .attempt 1, .attempt 1,
    .attempt 1, .attempt 1, .attempt 1]

/-- The second item is asked for, comes out and is reported. -/
def secondReported : List (Move Unit Nat) := [.attempt 1, .pass 2000, .attempt 1, .attempt 1]

theorem last_item_held_iff_promptTake :
    let w : World Unit Nat :=
      (selfRefreshing ⟨.periodic 60000, .unpaced⟩ none ()).run firstAnswered
    let q := (w.apply (.reader 0)).run (secondReported ++ [.reader 0, .reader 0])
    (q.seats.map fun s => s.reader.stage) = [.parked] ∧ q.cache.peek = some 11
      ∧ (q.itemsTo 0).head? = some (.value ⟨11, 1, 1⟩) := by
  have reachable : Reachable ((selfRefreshing ⟨.periodic 60000, .unpaced⟩ none ()).run firstAnswered) :=
    (Reachable.initial (.selfRefreshing _ _ _)).run _
  have taken := (last_item_held_iff reachable
    (show _ = some ⟨0, .polled, ⟨.anewLive, .expecting 1, none, 0⟩⟩ from rfl) rfl rfl
    (show _ = some (Except.ok ⟨⟨10, 1, 0⟩, some 1⟩) from rfl) (secondReported ++ [.reader 0, .reader 0])).2
  have last := taken ⟨0, .polled, ⟨.anewLive, .parked, some 2, 3⟩⟩
    (by decide) rfl rfl rfl ⟨11, 1, 1⟩ rfl
  exact ⟨rfl, rfl, last.1.mpr (Or.inl (by decide))⟩

/-- **A live reader can miss a value.**  It is asked again when the second item has been stored, and
takes the answer of the fetch that it demanded.  It notes the revision of the second item, which it is
not given: the value is held, nobody can take a step, and the reader waits for a mark. -/
theorem second_item_missed :
    let q : World Unit Nat := (selfRefreshing ⟨.periodic 60000, .unpaced⟩ none ()).run
      (firstAnswered ++ secondReported ++ [.attempt 1, .attempt 1, .reader 0, .reader 0])
    q.cache.peek = some 11
      ∧ (q.cache.dispatcher.running.map fun a => q.canStep a) = [false]
      ∧ (q.seats.map fun s => (s.reader.stage, s.reader.isReady q.cache)) = [(.parked, false)]
      ∧ q.itemsTo 0 = [.value ⟨10, 1, 0⟩] := by
  decide

end World

end SingleFlight
