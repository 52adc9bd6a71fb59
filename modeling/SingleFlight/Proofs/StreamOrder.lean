/-
  SingleFlight.Proofs.StreamOrder — the order and the shape of what a reader tells.

  A reader has its values from three places: the cell, an attempt that it
  joined, and an attempt that it demanded.  Some of them name a revision and
  some do not, and a reader that is asked late is given an answer long after
  newer values were stored.  The values come in order all the same: a reader is
  told to wait only for an attempt later than everything it was given, and it
  notes a revision unless the cell holds something later still.

  `Told` is the grammar of what a reader tells: values in order, then a failure
  or nothing, then its end.  Every step of a reader keeps to it.

  Main results:
    * `Streams.run` — what a reader tells keeps to the grammar, in every run.
    * `streams_in_order` — the values of a reader strictly increase, a failure is
      its last item before its end, and a reader of a single value tells one item.
-/
import SingleFlight.Proofs.LateFailure
import SingleFlight.Proofs.Recency

namespace SingleFlight

variable {ε V : Type}

/-! ## §1. The grammar. -/

/-- Where a reader stands: it may tell values, it is at its end, or it has crashed. -/
inductive Standing where
  | reading
  | through
  | crashed
  deriving DecidableEq, Repr

/-- Where the reader stands. -/
def Reader.standing (r : Reader) : Standing :=
  match r.stage with
  | .closing | .over => .through
  | .crashed => .crashed
  | _ => .reading

/-- What a reader may have told, newest first, when it stands somewhere; `follows` says whether it goes
on after its first value. -/
inductive Told (follows : Bool) : List (Item V) → Standing → Prop where
  | nothing : Told follows [] .reading
  /-- A value that comes later than all before it. -/
  | value {items : List (Item V)} {content : Sourced V} (h : Told follows items .reading)
      (later : ∀ old, .value old ∈ items → old.origin < content.origin) :
      Told follows (.value content :: items) (if follows then .reading else .through)
  | failed {items : List (Item V)} {failure : Failure} (h : Told follows items .reading) :
      Told follows (.failed failure :: items) .through
  | finished {items : List (Item V)} (h : Told follows items .through) :
      Told follows (.finished :: items) .through
  | crashed {items : List (Item V)} (h : Told follows items .reading) :
      Told follows (.crashed :: items) .crashed
  | again {items : List (Item V)} (h : Told follows items .crashed) :
      Told follows (.crashed :: items) .crashed

/-- How a reader ends: not yet; with a failure, and its end from then on; with its end alone; or with
a crash. -/
inductive Ending : List (Item V) → Prop where
  | none : Ending []
  | failed (failure : Failure) (n : Nat) : Ending (.failed failure :: List.replicate n .finished)
  | finished (n : Nat) : Ending (List.replicate (n + 1) .finished)
  | crashed (n : Nat) : Ending (List.replicate (n + 1) .crashed)

namespace Told

variable {follows : Bool} {items : List (Item V)} {standing : Standing}

/-- A reader that may still tell values has told values only, each later than the one before. -/
theorem values (h : Told follows items .reading) : ∃ contents : List (Sourced V),
    items = contents.map .value ∧ contents.Pairwise fun new old => old.origin < new.origin := by
  generalize hs : Standing.reading = standing at h
  induction h with
  | nothing => exact ⟨[], rfl, .nil⟩
  | @value items content h later ih =>
      obtain ⟨contents, rfl, rising⟩ := ih rfl
      refine ⟨content :: contents, rfl, List.pairwise_cons.mpr ⟨?_, rising⟩⟩
      intro old told
      exact later old (List.mem_map_of_mem told)
  | failed | finished | crashed | again => cases hs

/-- A reader of a single value that may still tell values has told nothing. -/
theorem nothing_of_single (h : Told false items .reading) : items = [] := by
  generalize hs : Standing.reading = standing at h
  induction h with
  | nothing => rfl
  | value | failed | finished | crashed | again => cases hs

/-- A reader at its end has told a failure before it, or a value if it takes a single one. -/
theorem through_cases (h : Told follows items .through) : ∃ n last rest,
    items = List.replicate n .finished ++ last :: rest ∧ Told follows rest .reading
      ∧ ((∃ failure, last = .failed failure)
        ∨ follows = false ∧ ∃ content, last = .value content
            ∧ ∀ old, .value old ∈ rest → old.origin < content.origin) := by
  generalize hs : Standing.through = standing at h
  induction h with
  | nothing => cases hs
  | @value rest content h later =>
      cases follows with
      | true => cases hs
      | false => exact ⟨0, _, rest, rfl, h, Or.inr ⟨rfl, content, rfl, later⟩⟩
  | @failed rest failure h => exact ⟨0, _, rest, rfl, h, Or.inl ⟨failure, rfl⟩⟩
  | finished h ih =>
      obtain ⟨n, last, rest, rfl, told, ends⟩ := ih rfl
      exact ⟨n + 1, last, rest, rfl, told, ends⟩
  | crashed | again => cases hs

theorem crashed_cases (h : Told follows items .crashed) : ∃ n rest,
    items = List.replicate (n + 1) .crashed ++ rest ∧ Told follows rest .reading := by
  generalize hs : Standing.crashed = standing at h
  induction h with
  | nothing | failed | finished => cases hs
  | value => cases follows <;> cases hs
  | @crashed rest h => exact ⟨0, rest, rfl, h⟩
  | again h ih =>
      obtain ⟨n, rest, rfl, told⟩ := ih rfl
      exact ⟨n + 1, rest, rfl, told⟩

theorem reverse_values {contents : List (Sourced V)}
    (rising : contents.Pairwise fun new old => old.origin < new.origin) :
    ((contents.map Item.value).reverse = contents.reverse.map .value)
      ∧ contents.reverse.Pairwise (·.origin < ·.origin) :=
  ⟨List.map_reverse.symm, List.pairwise_reverse.mpr rising⟩

/-- **What a reader has told, oldest first, is values in order and then its ending.** -/
theorem shape (h : Told follows items standing) : ∃ (contents : List (Sourced V)) (tail : List (Item V)),
    items.reverse = contents.map .value ++ tail ∧ contents.Pairwise (·.origin < ·.origin)
      ∧ Ending tail := by
  cases standing with
  | reading =>
      obtain ⟨contents, rfl, rising⟩ := h.values
      obtain ⟨oldest, sorted⟩ := reverse_values rising
      exact ⟨contents.reverse, [], by rw [oldest, List.append_nil], sorted, .none⟩
  | through =>
      obtain ⟨n, last, rest, rfl, told, ends⟩ := h.through_cases
      obtain ⟨contents, rfl, rising⟩ := told.values
      obtain ⟨oldest, sorted⟩ := reverse_values rising
      have split : (List.replicate n Item.finished ++ last :: contents.map Item.value).reverse
          = contents.reverse.map .value ++ last :: List.replicate n .finished := by
        rw [List.reverse_append, List.reverse_cons, oldest, List.reverse_replicate, List.append_assoc]
        rfl
      rcases ends with ⟨failure, rfl⟩ | ⟨_, content, rfl, later⟩
      · exact ⟨contents.reverse, _, split, sorted, .failed failure n⟩
      · -- the value at the end is the last one
        refine ⟨contents.reverse ++ [content], List.replicate n .finished, ?_, ?_, ?_⟩
        · rw [split, List.map_append, List.append_assoc]
          rfl
        · refine List.pairwise_append.mpr ⟨sorted, List.pairwise_singleton _ _, ?_⟩
          intro old told new last
          rw [List.mem_singleton.mp last]
          exact later old (List.mem_map_of_mem (List.mem_reverse.mp told))
        · cases n with
          | zero => exact .none
          | succ n => exact .finished n
  | crashed =>
      obtain ⟨n, rest, rfl, told⟩ := h.crashed_cases
      obtain ⟨contents, rfl, rising⟩ := told.values
      obtain ⟨oldest, sorted⟩ := reverse_values rising
      refine ⟨contents.reverse, List.replicate (n + 1) .crashed, ?_, sorted, .crashed n⟩
      rw [List.reverse_append, oldest, List.reverse_replicate]

/-- **What a reader of a single value has told is one item and then its end**, if it has told anything
and has not crashed. -/
theorem single (h : Told false items standing) :
    items = [] ∨ (∃ first n, ((∃ content, first = .value content) ∨ ∃ failure, first = .failed failure)
        ∧ items.reverse = first :: List.replicate n .finished)
      ∨ ∃ n, items = List.replicate (n + 1) .crashed := by
  cases standing with
  | reading => exact Or.inl h.nothing_of_single
  | through =>
      obtain ⟨n, last, rest, rfl, told, ends⟩ := h.through_cases
      have alone : rest = [] := told.nothing_of_single
      refine Or.inr (Or.inl ⟨last, n, ?_, ?_⟩)
      · rcases ends with failed | ⟨_, content, value, _⟩
        · exact Or.inr failed
        · exact Or.inl ⟨content, value⟩
      · rw [alone]
        simp
  | crashed =>
      obtain ⟨n, rest, rfl, told⟩ := h.crashed_cases
      rw [told.nothing_of_single, List.append_nil]
      exact Or.inr (Or.inr ⟨n, rfl⟩)

/-- The first thing that a reader of a single value tells is not its end. -/
theorem first_ne_finished (h : Told false items standing) : items.getLast? ≠ some .finished := by
  rcases h.single with nothing | ⟨first, n, value, told⟩ | ⟨n, crashed⟩
  · rw [nothing]
    exact nofun
  · rw [← List.head?_reverse, told]
    rcases value with ⟨_, rfl⟩ | ⟨_, rfl⟩ <;> exact nofun
  · rw [crashed, List.getLast?_replicate]
    simp

end Told

/-! ## §2. One reader. -/

namespace Reader

theorem standing_of_open {r : Reader} (h : r.isOpen = true) : r.standing = .reading := by
  cases hs : r.stage with
  | closing | «over» | crashed => simp [isOpen, hs] at h
  | subscribing | looking | demanding | expecting | waiting | parked => simp [standing, hs]

theorem standing_of_through {r : Reader} (h : r.IsThrough) : r.standing = .through := by
  unfold standing
  rcases h with hs | hs <;> rw [hs]

theorem through_of_standing {r : Reader} (h : r.standing = .through) : r.IsThrough := by
  unfold standing at h
  split at h
  next hs => exact Or.inl hs
  next hs => exact Or.inr hs
  next => cases h
  next => cases h

/-- **A step of a reader keeps to the grammar**, if a value that it tells comes later than all before
it. -/
theorem told_step {r : Reader} {c : Cache ε V} {now : Instant} {items : List (Item V)}
    (h : Told r.reading.follows items r.standing)
    (later : ∀ content, (r.step c now).2.2 = some (.value content) →
      ∀ old, .value old ∈ items → old.origin < content.origin) :
    Told r.reading.follows ((r.step c now).2.2.toList ++ items) (r.step c now).2.1.standing := by
  have quiet := (r.step_stepped c now).quiet
  have act := r.step_act c now
  generalize r.step c now = out at act later quiet ⊢
  -- without an item the reader was open, and still is
  have silent (none : out.2.2 = none) (isOpen : r.isOpen = true) :
      Told r.reading.follows (out.2.2.toList ++ items) out.2.1.standing := by
    rw [none, standing_of_open (quiet none).1]
    rw [standing_of_open isOpen] at h
    exact h
  have reads (isOpen : r.isOpen = true) : Told r.reading.follows items .reading := by
    rw [standing_of_open isOpen] at h
    exact h
  have goes_on (r' : Reader) (hs : r'.stage = r.stageAfterValue) :
      r'.standing = if r.reading.follows then .reading else .through := by
    unfold standing
    rw [hs]
    unfold stageAfterValue
    cases r.reading.follows <;> rfl
  cases act with
  | subscribed hs | unserved hs | joined hs | demanded hs | woken hs =>
      exact silent rfl (by simp [isOpen, hs])
  | idle hs =>
      refine silent rfl ?_
      rcases hs with ⟨k, awaits, _⟩ | ⟨parked, _⟩
      · rcases awaits?_eq_some_iff.mp awaits with hs | hs <;> simp [isOpen, hs]
      · simp [isOpen, parked]
  | served hs | answered hs =>
      rw [goes_on _ rfl]
      exact .value (reads (by simp [isOpen, hs])) (later _ rfl)
  | started hs answer follows =>
      have value := Told.value (reads (by simp [isOpen, hs])) (later _ rfl)
      rw [follows] at value ⊢
      exact value
  | satisfied hs answer single =>
      have value := Told.value (reads (by simp [isOpen, hs])) (later _ rfl)
      rw [single] at value ⊢
      exact value
  | refused hs _ through =>
      rw [standing_of_through through]
      refine .failed (reads ?_)
      rcases hs with hs | hs <;> simp [isOpen, hs]
  | failed awaits _ through =>
      rw [standing_of_through through]
      refine .failed (reads ?_)
      rcases awaits?_eq_some_iff.mp awaits with hs | hs <;> simp [isOpen, hs]
  | @broke _ r' hs _ crashed =>
      have stands : r'.standing = .crashed := by simp [standing, crashed]
      rw [stands]
      refine .crashed (reads ?_)
      rcases hs with hs | hs <;> simp [isOpen, hs]
  | finished through =>
      rw [standing_of_through through] at h
      exact .finished h
  | crashed hs =>
      have stands : r.standing = .crashed := by simp [standing, hs]
      rw [stands] at h ⊢
      exact .again h

end Reader

namespace World

/-- What the reader of the key has told keeps to the grammar, and goes on to do so: it waits for
attempts later than all that it was given, and has noted the revision of the held value if it was given
that value. -/
structure Streams (follows : Bool) (key : Nat) (w : World ε V) : Prop where
  reads : ∀ s ∈ w.seats, s.key = key → s.reader.reading.follows = follows
  told : ∃ standing, Told follows (w.itemsTo key) standing
    ∧ ∀ s ∈ w.seats, s.key = key → s.reader.standing = standing
  waits : ∀ s ∈ w.seats, s.key = key → ∀ k, s.reader.awaits? = some k →
    ∀ old, .value old ∈ w.itemsTo key → old.origin.attempt < k
  noted : ∀ s ∈ w.seats, s.key = key → s.reader.isOpen = true →
    ∀ old, .value old ∈ w.itemsTo key → ∀ content, w.cache.cell.phase = .holding (.concealed content) →
      content.origin = old.origin → s.reader.delivered = some w.cache.cell.revision

/-- A world has come past every value that a reader has told. -/
theorem Reachable.passed_item {w : World ε V} (h : Reachable w) {key : Nat} {old : Sourced V}
    (told : .value old ∈ w.itemsTo key) : Passed old.origin w := by
  obtain ⟨d, hd, item⟩ := List.mem_map.mp told
  exact h.passed_delivered d (List.mem_filter.mp hd).1 old item

/-- The next value that the reader tells comes later than all before it. -/
theorem Streams.later {follows : Bool} {w : World ε V} {seat : Seat} (h : Streams follows seat.key w)
    (reachable : Reachable w) (seated : seat ∈ w.seats) {content : Sourced V}
    (given : (seat.reader.step w.cache w.now).2.2 = some (.value content)) :
    ∀ old, .value old ∈ w.itemsTo seat.key → old.origin < content.origin := by
  intro old told
  obtain ⟨isOpen, ⟨_, holding, unseen⟩ | ⟨k, fetched, awaits, answered, rfl⟩⟩ := value_cases given
  · refine Origin.lt_of_le_of_ne ((reachable.passed_item told).held content holding) fun same => ?_
    exact unseen (h.noted seat seated rfl isOpen old told content holding same)
  · rw [reachable.answered_first answered]
    exact Or.inl (h.waits seat seated rfl k awaits old told)

theorem Streams.waits_step {follows : Bool} {w : World ε V} {seat : Seat}
    (h : Streams follows seat.key w) (reachable : Reachable w) (seated : seat ∈ w.seats) {k : Nat}
    (awaits : (seat.reader.step w.cache w.now).2.1.awaits? = some k) :
    (seat.reader.step w.cache w.now).2.2 = none
      ∧ ∀ old, .value old ∈ w.itemsTo seat.key → old.origin.attempt < k := by
  have stepped := seat.reader.step_stepped w.cache w.now
  cases hitem : (seat.reader.step w.cache w.now).2.2 with
  | some item =>
      rw [(stepped.hands item hitem).2] at awaits
      cases awaits
  | none =>
      refine ⟨rfl, fun old told => ?_⟩
      rcases (stepped.quiet hitem).2 k awaits with before | ticket
      · exact h.waits seat seated rfl k before old told
      · exact (reachable.passed_item told).told reachable.ordered ticket

/-- A reader that is open after a step has noted the revision of the held value if it was given that
value, with this step or before. -/
theorem Streams.noted_step {follows : Bool} {w : World ε V} {seat : Seat}
    (h : Streams follows seat.key w) (reachable : Reachable w) (seated : seat ∈ w.seats)
    (isOpen : (seat.reader.step w.cache w.now).2.1.isOpen = true) {content : Sourced V}
    (holding : w.cache.cell.phase = .holding (.concealed content)) {old : Sourced V}
    (told : .value old ∈ (seat.reader.step w.cache w.now).2.2.toList ++ w.itemsTo seat.key)
    (same : content.origin = old.origin) :
    (seat.reader.step w.cache w.now).2.1.delivered = some w.cache.cell.revision := by
  have takes := seat.reader.step_takes w.cache w.now
  have before := h.noted seat seated rfl (Reader.isOpen_of_step isOpen)
  generalize (seat.reader.step w.cache w.now).2.1 = r at takes isOpen ⊢
  generalize (seat.reader.step w.cache w.now).2.2 = item at takes told
  cases takes with
  | nothing kept =>
      rw [kept]
      exact before old told content holding same
  | closed _ closed =>
      rw [closed] at isOpen
      cases isOpen
  | held _ now | started _ _ now => exact now
  | @answered k fetched waits answered now =>
      rw [now]
      have awaits := Reader.awaits?_eq_some_iff.mpr (Or.inr waits)
      rcases List.mem_cons.mp told with new | earlier
      · -- it was given the held value with this step
        cases new
        rw [reachable.filed.stored fetched (Or.inl ⟨k, answered⟩) content holding same]
        rfl
      · -- the held value is no earlier than the answer, and what was given before is
        have older := h.waits seat seated rfl k awaits old earlier
        have surpassed := reachable.surpassed (alive_of_awaits seated awaits)
        have past := Origin.attempt_le ((surpassed.answered k fetched answered).held content holding)
        have past : k ≤ content.origin.attempt := past
        rw [same] at past
        omega

theorem Streams.advanced {follows : Bool} {w w' : World ε V} {seat : Seat}
    (h : Streams follows seat.key w) (reachable : Reachable w) (seated : seat ∈ w.seats)
    (ha : Advanced w seat (seat.reader.step w.cache w.now) w') : Streams follows seat.key w' := by
  have stepped := seat.reader.step_stepped w.cache w.now
  have items := ha.itemsTo reachable.attended seated
  have own (r : Seat) (hr : r ∈ w'.seats) (hk : r.key = seat.key) :
      r.reader = (seat.reader.step w.cache w.now).2.1 := by
    rcases ha.seats r hr with ⟨_, other⟩ | ⟨_, reader, _⟩
    · exact absurd hk other
    · exact reader
  refine ⟨fun r hr hk => ?_, ?_, fun r hr hk k awaits old told => ?_,
    fun r hr hk isOpen old told content holding same => ?_⟩
  · rw [own r hr hk, Reader.reading_step]
    exact h.reads seat seated rfl
  · obtain ⟨standing, told, stands⟩ := h.told
    rw [← stands seat seated rfl, ← h.reads seat seated rfl] at told
    have next := Reader.told_step told fun content given => h.later reachable seated given
    rw [h.reads seat seated rfl] at next
    rw [items]
    exact ⟨_, next, fun r hr hk => by rw [own r hr hk]⟩
  · rw [own r hr hk] at awaits
    obtain ⟨none, later⟩ := h.waits_step reachable seated awaits
    rw [items, none] at told
    exact later old told
  · have revision : w'.cache.cell.revision = w.cache.cell.revision := by
      rw [ha.cell, stepped.touch.revision]
    rw [own r hr hk] at isOpen ⊢
    rw [ha.cell] at holding
    rw [items] at told
    rw [revision]
    exact h.noted_step reachable seated isOpen (stepped.touch.holding holding) told same

/-- **Every step keeps to the grammar.** -/
theorem Streams.step {follows : Bool} {key : Nat} {w w' : World ε V} {m : Move ε V}
    (h : Streams follows key w) (reachable : Reachable w) (known : key < w.nextKey)
    (s : Step w m w') : Streams follows key w' := by
  rcases s.reader_cases known with ⟨items, seats⟩ | ⟨seat, taken, _, advanced⟩
  · have before (r : Seat) (hr : r ∈ w'.seats) (hk : r.key = key) :
        ∃ r₀ ∈ w.seats, r₀.key = key ∧ r₀.reader = r.reader := seats r hr hk
    refine ⟨fun r hr hk => ?_, ?_, fun r hr hk => ?_,
      fun r hr hk isOpen old told content holding same => ?_⟩
    · obtain ⟨r₀, hr₀, hk₀, reader⟩ := before r hr hk
      rw [← reader]
      exact h.reads r₀ hr₀ hk₀
    · obtain ⟨standing, told, stands⟩ := h.told
      rw [items]
      refine ⟨standing, told, fun r hr hk => ?_⟩
      obtain ⟨r₀, hr₀, hk₀, reader⟩ := before r hr hk
      rw [← reader]
      exact stands r₀ hr₀ hk₀
    · obtain ⟨r₀, hr₀, hk₀, reader⟩ := before r hr hk
      rw [items, ← reader]
      exact h.waits r₀ hr₀ hk₀
    · obtain ⟨r₀, hr₀, hk₀, reader⟩ := before r hr hk
      rw [items] at told
      rw [← reader] at isOpen ⊢
      by_cases raised : w'.cache.cell.revision = w.cache.cell.revision
      · rw [raised]
        rcases s.holding_cases holding with ⟨held, _⟩ | newer
        · exact h.noted r₀ hr₀ hk₀ isOpen old told content held same
        · omega
      · -- a value that is stored comes later than all that was given
        obtain ⟨a, ha, stored, reporting, latest, phase, _⟩ := s.raised raised
        rw [phase] at holding
        cases holding
        have later := (reachable.passed_item told).lt_reported reachable.filed ha latest reporting
        rw [same, Origin.lt_iff] at later
        omega
  · obtain ⟨listed, rfl⟩ := seat?_mem taken
    exact h.advanced reachable listed advanced

/-- **What a reader tells keeps to the grammar**, in every run. -/
theorem Streams.run {follows : Bool} {key : Nat} {w : World ε V} (h : Streams follows key w)
    (reachable : Reachable w) (known : key < w.nextKey) (moves : List (Move ε V)) :
    Streams follows key (w.run moves) :=
  reachable.outlasts (fun _ _ _ reachable known h s => h.step reachable known s) known h moves

/-- A reader that has just been opened has told nothing. -/
theorem Streams.opened {w : World ε V} (h : Reachable w) (handle : w.hasHandle = true)
    (reading : Reading) (role : Role) :
    Streams reading.follows w.nextKey (w.apply (.openReader reading role))
      ∧ w.nextKey < (w.apply (.openReader reading role)).nextKey := by
  have unknown : w.itemsTo w.nextKey = [] := itemsTo_unknown h.unserved.noted (Nat.le_refl _)
  have opened : w.apply (.openReader reading role) = { w with
      seats := w.seats ++ [⟨w.nextKey, role, .new reading⟩], nextKey := w.nextKey + 1 } := by
    show w.openReader reading role = _
    rw [openReader, if_pos handle]
  have new (s : Seat) (hs : s ∈ (w.apply (.openReader reading role)).seats) (hk : s.key = w.nextKey) :
      s.reader = .new reading := by
    rw [opened] at hs
    rcases List.mem_append.mp hs with old | now
    · have below := h.attended.below s old
      omega
    · rw [List.mem_singleton.mp now]
  have items : (w.apply (.openReader reading role)).itemsTo w.nextKey = [] := by
    rw [opened]
    exact unknown
  refine ⟨⟨fun s hs hk => ?_, ?_, fun s hs hk k awaits => ?_, fun s hs hk _ old told => ?_⟩, ?_⟩
  · rw [new s hs hk]
    rfl
  · rw [items]
    refine ⟨.reading, .nothing, fun s hs hk => ?_⟩
    rw [new s hs hk]
    unfold Reader.new Reader.standing
    cases reading.demands <;> rfl
  · rw [new s hs hk, (new_idle reading).1] at awaits
    cases awaits
  · rw [items] at told
    cases told
  · rw [opened]
    exact Nat.lt_succ_self _

/-! ## §3. Readers of a single value. -/

end World

namespace Reader

/-- A reader of a single value that is still open has noted no revision, and is not parked. -/
def IsBare (r : Reader) : Prop :=
  r.reading.follows = false → r.isOpen = true → r.delivered = none ∧ r.stage ≠ .parked

theorem isBare_step {r : Reader} (h : r.IsBare) (c : Cache ε V) (now : Instant) :
    (r.step c now).2.1.IsBare := by
  intro single isOpen
  rw [reading_step] at single
  have bare := h single (isOpen_of_step isOpen)
  have quiet := quiet_of_open single isOpen
  have act := r.step_act c now
  generalize r.step c now = out at act quiet isOpen ⊢
  cases act with
  | subscribed | joined | demanded | woken => exact ⟨bare.1, fun h => nomatch h⟩
  | unserved => exact ⟨bare.1, by simp [single]⟩
  | idle => exact bare
  | served | refused | broke | answered | started | satisfied | failed | finished | crashed => cases quiet

/-- A look that gives something gives an item, or an attempt to wait for. -/
theorem came_of_look {r : Reader} {c : Cache ε V} {now : Instant} (looking : r.stage = .looking)
    (something : (c.access now r.delivered).2 ≠ .nothing) :
    (r.step c now).2.2 ≠ none ∨ (r.step c now).2.1.awaits?.isSome = true := by
  simp only [step, looking]
  generalize c.access now r.delivered = out at something ⊢
  obtain ⟨cache, access⟩ := out
  cases access with
  | nothing => exact absurd rfl something
  | served content revision => exact Or.inl (Option.some_ne_none _)
  | ticket t =>
      cases t with
      | wait k => exact Or.inr rfl
      | failed | crashed => exact Or.inl (Option.some_ne_none _)

end Reader

namespace World

theorem Reachable.isBare {w : World ε V} (h : Reachable w) : ∀ s ∈ w.seats, s.reader.IsBare := by
  refine h.invariant (P := fun w => ∀ s ∈ w.seats, s.reader.IsBare) (fun w hw => ?_)
    (fun w m w' reachable h s => ?_)
  · intro s hs
    cases hw <;> cases hs
  · intro r seated
    rcases s.seat_cases reachable.attended seated with
      ⟨r₀, hr₀, _, reader, _⟩ | ⟨_, reading, new⟩ | ⟨seat, listed, _, reader, _⟩
    · rw [← reader]
      exact h r₀ hr₀
    · rw [new]
      intro _ _
      refine ⟨rfl, ?_⟩
      unfold Reader.new
      cases reading.demands <;> exact fun h => nomatch h
    · rw [reader]
      exact Reader.isBare_step (h seat listed) w.cache w.now

/-- The reader of the key has told something, or waits for an attempt. -/
def IsServed (key : Nat) (w : World ε V) : Prop :=
  w.itemsTo key ≠ [] ∨ ∃ seat k, w.seat? key = some seat ∧ seat.reader.awaits? = some k

theorem isServed_of_step {w : World ε V} (h : Reachable w) {key : Nat} {seat : Seat}
    (seated : w.seat? key = some seat)
    (came : (seat.reader.step w.cache w.now).2.2 ≠ none
      ∨ (seat.reader.step w.cache w.now).2.1.awaits?.isSome = true) :
    IsServed key (w.apply (.reader key)) := by
  obtain ⟨listed, rfl⟩ := seat?_mem seated
  have items := (advanceReader_advanced seated).itemsTo h.attended listed
  cases hstep : seat.reader.step w.cache w.now with
  | mk cache rest =>
      obtain ⟨reader, item⟩ := rest
      rw [hstep] at came items
      cases item with
      | some item =>
          refine Or.inl fun nothing => ?_
          have nothing : (w.advanceReader seat.key).itemsTo seat.key = [] := nothing
          rw [items] at nothing
          cases nothing
      | none =>
          obtain ⟨k, awaits⟩ := Option.isSome_iff_exists.mp (came.resolve_left fun h => h rfl)
          rw [advanceReader_quiet seated hstep]
          exact Or.inr ⟨_, k, seat?_reseat seated cache reader, awaits⟩

/-- Whoever is served stays so with its own steps. -/
theorem IsServed.step {key : Nat} {w : World ε V} (h : IsServed key w) (reachable : Reachable w) :
    IsServed key (w.apply (.reader key)) := by
  rcases h with told | ⟨seat, k, seated, awaits⟩
  · exact Or.inl (reachable.attended.told_apply told)
  · refine isServed_of_step reachable seated ?_
    rcases Reader.step_awaiting awaits w.cache w.now with ⟨_, idle⟩ | ⟨answer, _, given⟩
    · rw [idle, awaits]
      exact Or.inr rfl
    · rw [given]
      exact Or.inl (fun h => nomatch h)

/-- Who looks and has shown interest is served. -/
theorem isServed_of_interest {w : World ε V} (h : Reachable w) {key : Nat} {seat : Seat}
    (seated : w.seat? key = some seat) (looking : seat.reader.stage = .looking)
    (unnoted : seat.reader.delivered = none) (flushed : w.cache.cell.phase ≠ .flushed)
    (invalid : w.cache.cell.phase ≠ .invalid false) : IsServed key (w.apply (.reader key)) := by
  refine isServed_of_step h seated (Reader.came_of_look looking ?_)
  rw [unnoted]
  exact access_of_interest h.concealed w.now flushed invalid

/-- Who shows interest first is served with its second step. -/
theorem isServed_of_subscribing {w : World ε V} (h : Reachable w) {key : Nat} {seat : Seat}
    (seated : w.seat? key = some seat) (subscribing : seat.reader.stage = .subscribing)
    (unnoted : seat.reader.delivered = none) :
    IsServed key (w.run [.reader key, .reader key]) := by
  have shown := apply_subscribing seated subscribing
  have reachable := h.move (.reader key)
  have reseated := seat?_reseat seated w.cache.subscribe { seat.reader with stage := .looking }
  show IsServed key ((w.apply (.reader key)).apply (.reader key))
  rw [shown] at reachable ⊢
  exact isServed_of_interest reachable reseated rfl unnoted w.cache.subscribe_phase.1
    w.cache.subscribe_phase.2

/-- A look of a reader of a single value serves it, or makes it show interest again. -/
theorem looking_cases {r : Reader} (looking : r.stage = .looking) (single : r.reading.follows = false)
    (c : Cache ε V) (now : Instant) :
    ((r.step c now).2.2 ≠ none ∨ (r.step c now).2.1.awaits?.isSome = true)
      ∨ ((r.step c now).2.2 = none ∧ (r.step c now).2.1.stage = .subscribing
        ∧ (r.step c now).2.1.delivered = r.delivered) := by
  have act := r.step_act c now
  generalize r.step c now = out at act ⊢
  cases act with
  | unserved => exact Or.inr ⟨rfl, by simp [single], rfl⟩
  | joined => exact Or.inl (Or.inr rfl)
  | served | refused | broke | answered | started | satisfied | failed | finished | crashed =>
      exact Or.inl (Or.inl fun h => nomatch h)
  | idle hs =>
      rcases hs with ⟨k, awaits, _⟩ | ⟨parked, _⟩
      · exact Or.inl (Or.inr (by rw [awaits]; rfl))
      · rw [looking] at parked
        cases parked
  | subscribed hs | demanded hs | woken hs =>
      rw [looking] at hs
      cases hs

/-- **A reader of a single value is served within three of its steps**: it has told its item then, or
waits for an attempt. -/
theorem served_soon {w : World ε V} (h : Reachable w) {key : Nat} {seat : Seat}
    (seated : w.seat? key = some seat) (single : seat.reader.reading.follows = false) :
    IsServed key (w.run [.reader key, .reader key, .reader key]) := by
  have next := h.move (.reader key)
  have last := next.move (.reader key)
  have listed := (seat?_mem seated).1
  have later (came : (seat.reader.step w.cache w.now).2.2 ≠ none
      ∨ (seat.reader.step w.cache w.now).2.1.awaits?.isSome = true) :
      IsServed key (w.run [.reader key, .reader key, .reader key]) :=
    ((isServed_of_step h seated came).step next).step last
  by_cases isOpen : seat.reader.isOpen = true
  · obtain ⟨unnoted, unparked⟩ := h.isBare seat listed single isOpen
    cases hs : seat.reader.stage with
    | subscribing => exact (isServed_of_subscribing h seated hs unnoted).step last
    | looking =>
        rcases looking_cases hs single w.cache w.now with came | ⟨none, subscribing, kept⟩
        · exact later came
        · -- it looked in vain, and begins anew
          have applied : w.apply (.reader key) = w.reseat key (seat.reader.step w.cache w.now).1
              (seat.reader.step w.cache w.now).2.1 :=
            advanceReader_quiet seated (Prod.ext rfl (Prod.ext rfl none))
          have reseated := seat?_reseat seated (seat.reader.step w.cache w.now).1
            (seat.reader.step w.cache w.now).2.1
          show IsServed key ((w.apply (.reader key)).run [.reader key, .reader key])
          rw [applied] at next ⊢
          exact isServed_of_subscribing next reseated subscribing (kept.trans unnoted)
    | demanding =>
        refine later ?_
        have told := w.cache.demand_ticketed w.now
        simp only [Reader.step, hs]
        generalize w.cache.demand w.now = out at told ⊢
        obtain ⟨cache, ticket⟩ := out
        cases ticket with
        | wait k => exact Or.inr rfl
        | failed | crashed => exact Or.inl (Option.some_ne_none _)
    | expecting k | waiting k =>
        have awaits : seat.reader.awaits? = some k := by simp [Reader.awaits?, hs]
        have waits : IsServed key w := Or.inr ⟨seat, k, seated, awaits⟩
        exact ((waits.step h).step next).step last
    | parked => exact absurd hs unparked
    | closing | «over» | crashed => simp [Reader.isOpen, hs] at isOpen
  · -- who is not open tells something with every step
    refine later (Or.inl fun none => isOpen ?_)
    exact Reader.isOpen_of_step ((seat.reader.step_stepped w.cache w.now).quiet none).1

/-! ## §4. Streams. -/

/-- A reader that is at its end tells its end with every step. -/
theorem ends_again {w : World ε V} (h : Reachable w) {seat : Seat}
    (seated : w.seat? seat.key = some seat) (through : seat.reader.IsThrough) :
    (w.apply (.reader seat.key)).itemsTo seat.key = .finished :: w.itemsTo seat.key := by
  rw [h.attended.itemsTo_apply seated, (Reader.step_through through w.cache w.now).2]
  rfl

/-- **The values of a reader come in order, and a failure is its last item before its end.**  Open a
reader in any way, and let the run go on in any way.  What the reader has told is values whose origins
strictly increase, and then its ending, if it has come to that.  Once it has told a failure, it tells
its end whenever it is asked.  A reader of a single value is served within three of its steps: it has
told its item then, or waits for an attempt, whose answer is the next thing that it tells.  That item is
all that it tells but its end, which it tells whenever it is asked from then on. -/
theorem streams_in_order {p : World ε V} (h : Reachable p) (handle : p.hasHandle = true)
    (reading : Reading) (role : Role) (moves : List (Move ε V)) :
    let q := p.run (.openReader reading role :: moves)
    let key := p.nextKey
    (∃ (contents : List (Sourced V)) (tail : List (Item V)),
        (q.itemsTo key).reverse = contents.map .value ++ tail
          ∧ contents.Pairwise (·.origin < ·.origin) ∧ Ending tail)
      ∧ (∀ failure, .failed failure ∈ q.itemsTo key → (q.seat? key).isSome = true →
          (q.apply (.reader key)).itemsTo key = .finished :: q.itemsTo key)
      ∧ (reading.follows = false →
          (q.itemsTo key = []
            ∨ (∃ first n, ((∃ content, first = .value content) ∨ ∃ failure, first = .failed failure)
                ∧ (q.itemsTo key).reverse = first :: List.replicate n .finished)
            ∨ ∃ n, q.itemsTo key = List.replicate (n + 1) .crashed)
          ∧ ((q.seat? key).isSome = true →
              (∀ content, .value content ∈ q.itemsTo key →
                (q.apply (.reader key)).itemsTo key = .finished :: q.itemsTo key)
              ∧ IsServed key (q.run [.reader key, .reader key, .reader key]))
          ∧ ∀ seat k answer, q.seat? key = some seat → seat.reader.awaits? = some k →
              q.cache.dispatcher.answer? k = some answer →
              (q.apply (.reader key)).itemsTo key = [.ofAnswer answer]) := by
  intro q key
  obtain ⟨opened, known⟩ := Streams.opened h handle reading role
  have reachable : Reachable q := h.run _
  have streams : Streams reading.follows key q := opened.run (h.move _) known moves
  obtain ⟨standing, told, stands⟩ := streams.told
  refine ⟨told.shape, fun failure failed seats => ?_, fun single => ⟨?_, fun seats => ?_,
    fun seat k answer seated awaits answered => ?_⟩⟩
  · obtain ⟨seat, seated⟩ := Option.isSome_iff_exists.mp seats
    obtain ⟨listed, hk⟩ := seat?_mem seated
    have through := reachable.concluded.through key failure failed seat listed hk
    rw [← hk] at seated ⊢
    exact ends_again reachable seated through
  · rw [single] at told
    exact told.single
  · obtain ⟨seat, seated⟩ := Option.isSome_iff_exists.mp seats
    obtain ⟨listed, hk⟩ := seat?_mem seated
    refine ⟨fun content value => ?_, ?_⟩
    · -- it has told a value, so it does not read on, and it has not crashed
      have stand := stands seat listed hk
      rw [single] at told
      have through : seat.reader.IsThrough := by
        refine Reader.through_of_standing (stand.trans ?_)
        cases standing with
        | through => rfl
        | reading =>
            rw [told.nothing_of_single] at value
            cases value
        | crashed =>
            obtain ⟨n, rest, crashed, told⟩ := told.crashed_cases
            rw [crashed, told.nothing_of_single, List.append_nil] at value
            cases (List.mem_replicate.mp value).2
      rw [← hk] at seated ⊢
      exact ends_again reachable seated through
    · exact served_soon reachable seated ((streams.reads seat listed hk).trans single)
  · obtain ⟨listed, hk⟩ := seat?_mem seated
    -- who waits has told nothing yet
    have isOpen : seat.reader.isOpen = true := by
      rcases Reader.awaits?_eq_some_iff.mp awaits with hs | hs <;> simp [Reader.isOpen, hs]
    have nothing := reachable.unserved.single seat listed
      ((streams.reads seat listed hk).trans single) isOpen
    rw [hk] at nothing
    rw [apply_awaiting reachable seated awaits answered, nothing]

/-- A source that gives a value at first, and fails from then on. -/
def brokenLater : Source Unit Nat where
  shape := .oneShot fun n => some ⟨0, fun _ _ => if n = 1 then .value 10 else .failed "offline"⟩

/-- A live reader is given the first value; it comes due, and the reader has it fetched again. -/
def valueThenFailure : List (Move Unit Nat) :=
  [.reader 0, .reader 0, .attempt 1, .attempt 1, .attempt 1, .attempt 1, .attempt 1, .attempt 1,
    .reader 0, .pass 2000, .reader 0, .attempt 2, .attempt 2, .attempt 2, .attempt 2, .attempt 2,
    .attempt 2, .reader 0]

theorem streams_in_order_failure :
    let p : World Unit Nat := (selfRefreshing ⟨.periodic 1000, .unpaced⟩ none ()).run [.bind brokenLater]
    let q := p.run (.openReader .live .polled :: valueThenFailure)
    (q.itemsTo 0).reverse = [.value ⟨10, 1, 0⟩, .failed (.fetchFailed 2 "offline")]
      ∧ (q.apply (.reader 0)).itemsTo 0 = .finished :: q.itemsTo 0 := by
  have reachable : Reachable
      ((selfRefreshing ⟨.periodic 1000, .unpaced⟩ none ()).run [.bind brokenLater]) :=
    (Reachable.initial (.selfRefreshing _ _ _)).run _
  have h := streams_in_order reachable rfl .live .polled valueThenFailure
  exact ⟨by decide, h.2.1 (.fetchFailed 2 "offline") (by decide) (by decide)⟩

end World

end SingleFlight
