/-
  SingleFlight.Proofs.Unbound — reads of a cache without a source.

  As long as no source is bound every read fails, and leaves nothing behind but
  the phase that says that somebody asked, and its marks: the dispatcher is as
  it was made, and nothing is counted.  So the world is the same, its readers
  apart, as if nobody had read; and the first read of a single value after a
  source was bound cannot tell the two from each other.

  Main results:
    * `Pristine.run` — reads without a source launch nothing and count nothing.
    * `Pristine.fails_next`, `Pristine.fails_soon` — and they do fail.
    * `Pristine.unattended_filter` — the world is as if nobody had read.
    * `Pristine.answersAlike` — a later read finds out nothing of it.
-/
import SingleFlight.Proofs.Unread

namespace SingleFlight

variable {ε V : Type}

/-! ## §1. A cache that never launched. -/

namespace Cache

/-- Nothing was ever launched: there is no value and no fetch on its way, and nothing was counted but
values thrown away. -/
structure Pristine (c : Cache ε V) : Prop where
  dispatcher : c.dispatcher = { pacing := c.dispatcher.pacing, binding := c.dispatcher.binding }
  sound : c.cell.broken = none
  valueless : ∀ v, c.cell.phase ≠ .holding v
  idle : c.cell.phase ≠ .calculating
  revision : c.cell.revision = 0
  counters : c.cell.counters = { invalidations := c.cell.counters.invalidations }

section

variable {c c' : Cache ε V} {now : Instant}

theorem Pristine.new (settings : Settings) : (Cache.new settings : Cache ε V).Pristine := by
  refine ⟨rfl, rfl, fun v => ?_, ?_, rfl, rfl⟩ <;> simp [Cache.new]

theorem Pristine.same (h : c.Pristine) (cell : c'.cell = c.cell) (dispatcher : c'.dispatcher = c.dispatcher) :
    c'.Pristine := by
  obtain ⟨h₁, h₂, h₃, h₄, h₅, h₆⟩ := h
  rw [← cell] at h₂ h₃ h₄ h₅ h₆
  rw [← dispatcher] at h₁
  exact ⟨h₁, h₂, h₃, h₄, h₅, h₆⟩

theorem Pristine.poke (h : c.Pristine) : c.poke.Pristine :=
  ⟨h.dispatcher, h.sound, h.valueless, h.idle, h.revision, h.counters⟩

theorem Pristine.invalid (h : c.Pristine) (refetch : Bool) :
    (c.withCell (·.moveTo (.invalid refetch))).Pristine :=
  ⟨h.dispatcher, h.sound, by simp [withCell, Cell.moveTo, Cell.mark],
    by simp [withCell, Cell.moveTo, Cell.mark], h.revision, h.counters⟩

theorem Pristine.subscribe (h : c.Pristine) : c.subscribe.Pristine := by
  unfold Cache.subscribe
  split
  · exact h.invalid true
  · exact h.invalid true
  · exact h

theorem Pristine.invalidate (h : c.Pristine) : c.invalidate.Pristine := by
  refine ⟨h.dispatcher, h.sound, fun v => ?_, ?_, h.revision, ?_⟩
  · simp [Cache.invalidate, withCell, Cell.moveTo, Cell.mark]
  · simp [Cache.invalidate, withCell, Cell.moveTo, Cell.mark]
  · show c.cell.counters.countInvalidation = _
    rw [h.counters]
    rfl

/-- A binding is all that such a cache lacks. -/
theorem Pristine.bound (h : c.Pristine) (source : Source ε V) :
    { c with dispatcher := { c.dispatcher with binding := some source } }.Pristine := by
  refine ⟨?_, h.sound, h.valueless, h.idle, h.revision, h.counters⟩
  show ({ c.dispatcher with binding := some source } : Dispatcher ε V) = _
  rw [h.dispatcher]

theorem subscribe_unphased (c : Cache ε V) :
    c.subscribe.withCell Cell.unphased = c.withCell Cell.unphased := by
  unfold subscribe
  split <;> rfl

/-- A launch by somebody who has shown interest sets the phase, whatever it was. -/
theorem subscribe_begun (c : Cache ε V) (next : Dispatcher ε V) :
    (c.subscribe.begun next).withCell Cell.unmarked
      = ((c.withCell Cell.unphased).begun next).withCell Cell.unmarked := by
  unfold subscribe
  split <;> rfl

/-! ## §2. Without a source. -/

/-- Whoever has to be served by an attempt fails, and changes nothing. -/
theorem Pristine.ticketed (h : c.Pristine) (unbound : c.dispatcher.binding = none)
    {out : Cache ε V × Ticket} (t : Ticketed c now out) : out = (c, .failed .unbound) := by
  cases t with
  | started _ _ launched => cases (Dispatcher.launch_unbound_iff.mpr unbound).symm.trans launched
  | unbound => rfl
  | overflow _ _ launched => cases (Dispatcher.launch_unbound_iff.mpr unbound).symm.trans launched
  | joined _ busy => exact absurd busy h.idle
  | lost busy => exact absurd busy h.idle
  | broken fault => cases h.sound.symm.trans fault

/-- A look finds nothing, or fails; all that it may leave is that the throw was noticed. -/
theorem Pristine.accessed (h : c.Pristine) (unbound : c.dispatcher.binding = none)
    {delivered : Option Nat} {access : Access V} (looked : Accessed c now delivered (c', access)) :
    (c' = c ∨ c' = c.withCell (·.moveTo (.invalid false)))
      ∧ (access = .nothing ∨ access = .ticket (.failed .unbound)) := by
  cases looked with
  | ticket t =>
      obtain ⟨rfl, rfl⟩ := Prod.mk.inj (h.ticketed unbound t)
      exact ⟨Or.inl rfl, Or.inr rfl⟩
  | nothing => exact ⟨Or.inl rfl, Or.inl rfl⟩
  | noticed => exact ⟨Or.inr rfl, Or.inl rfl⟩
  | served held => exact absurd held (h.valueless _)

/-- Somebody who has shown interest, and looks, fails. -/
theorem Pristine.access (h : c.Pristine) (unbound : c.dispatcher.binding = none)
    (flushed : c.cell.phase ≠ .flushed) (invalid : c.cell.phase ≠ .invalid false) (now : Instant)
    (delivered : Option Nat) : (c.access now delivered).2 = .ticket (.failed .unbound) := by
  have looked := c.access_accessed now delivered
  generalize c.access now delivered = out at looked ⊢
  obtain ⟨c', access⟩ := out
  refine (h.accessed unbound looked).2.resolve_left ?_
  rintro rfl
  cases looked with
  | nothing why =>
      rcases why with gone | ⟨v, held, _⟩
      · exact invalid gone
      · exact h.valueless v held
  | noticed was => exact flushed was

theorem Pristine.demand (h : c.Pristine) (unbound : c.dispatcher.binding = none) (now : Instant) :
    c.demand now = (c, .failed .unbound) :=
  h.ticketed unbound (c.demand_ticketed now)

end

end Cache

/-! ## §3. One reader. -/

/-- All that was handed out is one failure, that no source is bound, and then the end as often as somebody asked
for it; newest first. -/
def InVain (items : List (Item V)) : Prop :=
  ∃ ends, items = List.replicate ends .finished ++ [.failed .unbound]

namespace Reader

open Cache (Ticketed)

/-- How a reader fares without a source: it was given nothing yet, and waits for no attempt; or it has
failed. -/
def FaresUnbound (r : Reader) (items : List (Item V)) : Prop :=
  (r.isOpen = true ∧ r.awaits? = none ∧ (r.stage = .parked → r.reading.follows = true) ∧ items = [])
    ∨ (r.IsThrough ∧ InVain items)

theorem faresUnbound_new (reading : Reading) : (Reader.new reading).FaresUnbound ([] : List (Item V)) := by
  refine Or.inl ⟨?_, ?_, ?_, rfl⟩
  all_goals
    unfold Reader.new
    cases reading.demands <;> simp [isOpen, awaits?]

variable {r : Reader} {items : List (Item V)}

theorem FaresUnbound.given (h : r.FaresUnbound items) : items = [] ∨ InVain items := by
  rcases h with ⟨_, _, _, none⟩ | ⟨_, vain⟩
  · exact Or.inl none
  · exact Or.inr vain

/-- Who is about to look, to demand, or to show interest was given nothing yet. -/
theorem FaresUnbound.unserved (h : r.FaresUnbound items) (isOpen : r.isOpen = true) :
    r.awaits? = none ∧ items = [] := by
  rcases h with ⟨_, awaits, _, none⟩ | ⟨through, _⟩
  · exact ⟨awaits, none⟩
  · cases isOpen.symm.trans (isOpen_of_through through)

/-- **A step without a source**: the reader fails, or goes on unserved, and the cache keeps all but its
phase and its mark. -/
theorem faresUnbound_step {c : Cache ε V} {now : Instant} (h : c.Pristine)
    (unbound : c.dispatcher.binding = none) (fares : r.FaresUnbound items)
    {out : Cache ε V × Reader × Option (Item V)} (act : Act r c now out) :
    out.1.Pristine ∧ out.1.withCell Cell.unphased = c.withCell Cell.unphased
      ∧ out.2.1.FaresUnbound (out.2.2.toList ++ items) := by
  -- nobody is told to wait, and nobody crashes
  have refused {c' : Cache ε V} {t : Ticket} (told : Ticketed c now (c', t)) :
      c' = c ∧ t = .failed .unbound := Prod.mk.inj (h.ticketed unbound told)
  cases act with
  | subscribed hs =>
      obtain ⟨_, rfl⟩ := fares.unserved (by simp [isOpen, hs])
      exact ⟨h.subscribe, c.subscribe_unphased, Or.inl ⟨rfl, rfl, by simp, rfl⟩⟩
  | unserved hs looked =>
      obtain ⟨_, rfl⟩ := fares.unserved (by simp [isOpen, hs])
      have goesOn : ({ r with
          seen := c.cell.version
          stage := if r.reading.follows then .parked else .subscribing } : Reader).FaresUnbound
          ([] : List (Item V)) := by
        cases follows : r.reading.follows with
        | true => exact Or.inl ⟨rfl, rfl, fun _ => follows, rfl⟩
        | false => exact Or.inl ⟨rfl, rfl, by simp, rfl⟩
      rcases (h.accessed unbound looked).1 with rfl | rfl
      · exact ⟨h, rfl, goesOn⟩
      · exact ⟨h.invalid false, rfl, goesOn⟩
  | served _ looked => rcases (h.accessed unbound looked).2 with other | other <;> cases other
  | joined _ told | demanded _ told | broke _ told => cases (refused told).2
  | refused hs told through =>
      obtain ⟨rfl, failure⟩ := refused told
      cases failure
      obtain ⟨_, rfl⟩ := fares.unserved (by rcases hs with hs | hs <;> simp [isOpen, hs])
      exact ⟨h, rfl, Or.inr ⟨through, 0, rfl⟩⟩
  | answered hs | started hs | satisfied hs =>
      have awaits := (fares.unserved (by simp [isOpen, hs])).1
      simp [awaits?, hs] at awaits
  | failed hs =>
      have isOpen : r.isOpen = true := by
        rcases awaits?_eq_some_iff.mp hs with stage | stage <;> simp [isOpen, stage]
      cases (fares.unserved isOpen).1.symm.trans hs
  | idle => exact ⟨h, rfl, fares⟩
  | woken hs =>
      obtain ⟨_, rfl⟩ := fares.unserved (by simp [isOpen, hs])
      exact ⟨h, rfl, Or.inl ⟨rfl, rfl, by simp, rfl⟩⟩
  | finished through =>
      refine ⟨h, rfl, Or.inr ⟨Or.inr rfl, ?_⟩⟩
      rcases fares with ⟨isOpen, _⟩ | ⟨_, ends, rfl⟩
      · cases isOpen.symm.trans (isOpen_of_through through)
      · exact ⟨ends + 1, rfl⟩
  | crashed hs =>
      rcases fares with ⟨isOpen, _⟩ | ⟨through, _⟩
      · simp [Reader.isOpen, hs] at isOpen
      · rcases through with other | other <;> cases hs.symm.trans other

end Reader

namespace World

open Cache (Forgets)

/-! ## §4. A world that never launched. -/

/-- Nothing was ever launched, no source was called, and whoever read did so in vain. -/
structure Pristine (w : World ε V) : Prop where
  cache : w.cache.Pristine
  calls : w.calls = []
  readers : ∀ s ∈ w.seats, s.reader.FaresUnbound (w.itemsTo s.key)
  items : ∀ key, w.itemsTo key = [] ∨ InVain (w.itemsTo key)

/-- Whether a move makes a reader take a step although a source is bound. -/
def readsBound (w : World ε V) : Move ε V → Bool
  | .reader _ => w.cache.dispatcher.binding.isSome
  | _ => false

theorem Pristine.initial {w : World ε V} (h : Initial w) : w.Pristine := by
  cases h <;> exact ⟨Cache.Pristine.new _, rfl, fun _ seated => absurd seated List.not_mem_nil,
    fun _ => Or.inl rfl⟩

section

variable {w w' : World ε V} {m : Move ε V}

theorem readsBound_reader {key : Nat} :
    w.readsBound (.reader key) = false ↔ w.cache.dispatcher.binding = none := by
  simp [readsBound]

/-- Nobody is on the list. -/
theorem Pristine.nobody (h : w.Pristine) : w.cache.dispatcher.running = [] := by
  rw [h.cache.dispatcher]

/-- Readers that are where they were fare as they did. -/
theorem Pristine.apart (h : w.Pristine) (cache : w'.cache.Pristine) (calls : w'.calls = w.calls)
    (seats : ∀ s ∈ w'.seats, ∃ s₀ ∈ w.seats, s₀.key = s.key ∧ s₀.reader = s.reader)
    (deliveries : w'.deliveries = w.deliveries) : w'.Pristine where
  cache := cache
  calls := calls.trans h.calls
  readers s hs := by
    obtain ⟨s₀, hs₀, key, reader⟩ := seats s hs
    rw [itemsTo_eq deliveries, ← key, ← reader]
    exact h.readers s₀ hs₀
  items key := by
    rw [itemsTo_eq deliveries]
    exact h.items key

/-- A reader's step without a source. -/
theorem Pristine.advanced (h : w.Pristine) (reachable : Reachable w)
    (unbound : w.cache.dispatcher.binding = none) {seat : Seat} (seated : seat ∈ w.seats)
    (ha : Advanced w seat (seat.reader.step w.cache w.now) w') : w'.Pristine := by
  obtain ⟨cache, _, fares⟩ := Reader.faresUnbound_step h.cache unbound (h.readers seat seated)
    (seat.reader.step_act w.cache w.now)
  have own := ha.itemsTo reachable.attended seated
  have others {key : Nat} (hk : seat.key ≠ key) : w'.itemsTo key = w.itemsTo key := by
    rcases ha.deliveries with ⟨_, same⟩ | ⟨item, time, _, new⟩
    · exact itemsTo_eq same key
    · rw [itemsTo_cons new, if_neg hk]
  refine ⟨cache.same ha.cell ha.dispatcher, ha.calls.trans h.calls, fun s hs => ?_, fun key => ?_⟩
  · rcases ha.seats s hs with ⟨old, other⟩ | ⟨key, reader, _⟩
    · rw [others (Ne.symm other)]
      exact h.readers s old
    · rw [key, reader, own]
      exact fares
  · by_cases hk : seat.key = key
    · rw [← hk, own]
      exact fares.given
    · rw [others hk]
      exact h.items key

/-- **No move launches anything**, unless a reader takes a step and a source is bound. -/
theorem Pristine.step (h : w.Pristine) (reachable : Reachable w) (s : Step w m w')
    (unread : w.readsBound m = false) : w'.Pristine := by
  have same {seats : List Seat} (s : Seat) (hs : s ∈ seats) :
      ∃ s₀ ∈ seats, s₀.key = s.key ∧ s₀.reader = s.reader := ⟨s, hs, rfl, rfl⟩
  cases s with
  | aside ha =>
      refine h.apart (h.cache.same ha.cell ha.dispatcher) ha.calls ?_ ha.deliveries
      rw [ha.seats]
      exact same
  | pass => exact h.apart h.cache rfl same rfl
  | bind source => exact h.apart (h.cache.bound source) rfl same rfl
  | subscribe => exact h.apart h.cache.subscribe rfl same rfl
  | invalidate ha =>
      refine h.apart (h.cache.same ha.cell ha.dispatcher).invalidate ha.calls ?_ ha.deliveries
      show ∀ s ∈ World.seats _, _
      rw [withCache, ha.seats]
      exact same
  | poke ha =>
      refine h.apart (h.cache.same ha.cell ha.dispatcher).poke ha.calls ?_ ha.deliveries
      show ∀ s ∈ World.seats _, _
      rw [withCache, ha.seats]
      exact same
  | openReader reading role holds =>
      refine ⟨h.cache, h.calls, fun s hs => ?_, h.items⟩
      rcases List.mem_append.mp hs with old | new
      · exact h.readers s old
      · rw [List.mem_singleton.mp new]
        show (Reader.new reading).FaresUnbound (w.itemsTo w.nextKey)
        rw [itemsTo_unknown reachable.unserved.noted (Nat.le_refl _)]
        exact Reader.faresUnbound_new reading
  | follow key =>
      refine h.apart h.cache rfl (fun s hs => ?_) rfl
      obtain ⟨s₀, hs₀, key, reader, _⟩ := mem_follow hs
      exact ⟨s₀, hs₀, key.symm, reader.symm⟩
  | dropReader ha =>
      refine h.apart (h.cache.same ha.cell ha.dispatcher) ha.calls (fun s hs => ?_) ha.deliveries
      rw [ha.seats] at hs
      exact ⟨s, (List.mem_filter.mp hs).1, rfl, rfl⟩
  | reader own seated ha =>
      rw [own, readsBound_reader] at unread
      exact h.advanced reachable unread (seat?_mem seated).1 ha
  | attempt _ running =>
      have listed := (Dispatcher.attempt?_mem running).1
      rw [h.nobody] at listed
      exact absurd listed List.not_mem_nil

/-- **Reads without a source launch nothing and count nothing**, however many there are. -/
theorem Pristine.run (h : w.Pristine) (reachable : Reachable w) {moves : List (Move ε V)}
    (unread : w.never readsBound moves = true) : (w.run moves).Pristine := by
  induction moves generalizing w with
  | nil => exact h
  | cons m moves ih =>
      obtain ⟨first, rest⟩ := never_cons.mp unread
      exact ih (h.step reachable (apply_step w m) first) (reachable.move m) rest

/-- Whatever a read is evaluated to without a source, it is a failure. -/
theorem Pristine.evaluation (h : w.Pristine) (unread : w.readsBound m = false) {e : Evaluation V}
    (evaluated : w.evaluation? m = some e) : e.came = .ticket (.failed .unbound) := by
  obtain ⟨seat, rfl, _, _, came⟩ := evaluation?_eq_some evaluated
  rw [readsBound_reader] at unread
  unfold Reader.evaluation? at came
  split at came
  next =>
    have looked := w.cache.access_accessed w.now seat.reader.delivered
    generalize w.cache.access w.now seat.reader.delivered = out at looked came
    obtain ⟨c', access⟩ := out
    rcases (h.cache.accessed unread looked).2 with rfl | rfl
    · cases came
    · exact (Option.some.inj came).symm
  next =>
    rw [h.cache.demand unread] at came
    exact (Option.some.inj came).symm
  next => cases came

theorem Pristine.evaluations (h : w.Pristine) (reachable : Reachable w) {moves : List (Move ε V)}
    (unread : w.never readsBound moves = true) :
    ∀ e ∈ w.evaluations moves, e.came = .ticket (.failed .unbound) := by
  induction moves generalizing w with
  | nil => exact fun _ he => absurd he List.not_mem_nil
  | cons m moves ih =>
      obtain ⟨first, rest⟩ := never_cons.mp unread
      intro e he
      rcases List.mem_append.mp he with now | later
      · exact h.evaluation first (Option.mem_toList.mp now)
      · exact ih (h.step reachable (apply_step w m) first) (reachable.move m) rest e later

/-! ## §5. Without a source every read fails. -/

/-- A demand fails at once. -/
theorem Pristine.demand_fails (h : w.Pristine) (reachable : Reachable w)
    (unbound : w.cache.dispatcher.binding = none) {key : Nat} {seat : Seat}
    (seated : w.seat? key = some seat) (hs : seat.reader.stage = .demanding) :
    (w.apply (.reader key)).itemsTo key = .failed .unbound :: w.itemsTo key := by
  have refused := h.cache.demand unbound w.now
  rw [reachable.attended.itemsTo_apply seated]
  simp only [Reader.step, hs, refused]
  rfl

/-- A look fails if interest was shown before, and the value was not thrown away since. -/
theorem Pristine.look_fails (h : w.Pristine) (reachable : Reachable w)
    (unbound : w.cache.dispatcher.binding = none) {key : Nat} {seat : Seat}
    (seated : w.seat? key = some seat) (hs : seat.reader.stage = .looking)
    (flushed : w.cache.cell.phase ≠ .flushed) (invalid : w.cache.cell.phase ≠ .invalid false) :
    (w.apply (.reader key)).itemsTo key = .failed .unbound :: w.itemsTo key := by
  have refused := h.cache.access unbound flushed invalid w.now seat.reader.delivered
  rw [reachable.attended.itemsTo_apply seated]
  simp only [Reader.step, hs, refused]
  rfl

/-- A reader's step leaves all of the cache but its phase and its mark. -/
theorem Pristine.apply_reader (h : w.Pristine) (unbound : w.cache.dispatcher.binding = none) (key : Nat) :
    (w.apply (.reader key)).cache.dispatcher = w.cache.dispatcher
      ∧ (w.apply (.reader key)).cache.cell.unphased = w.cache.cell.unphased := by
  show (w.advanceReader key).cache.dispatcher = _ ∧ (w.advanceReader key).cache.cell.unphased = _
  cases seated : w.seat? key with
  | none =>
      rw [advanceReader, seated]
      exact ⟨rfl, rfl⟩
  | some seat =>
      have advanced := advanceReader_advanced seated
      obtain ⟨_, same, _⟩ := Reader.faresUnbound_step h.cache unbound
        (h.readers seat (seat?_mem seated).1) (seat.reader.step_act w.cache w.now)
      have dispatcher := congrArg Cache.dispatcher same
      have cell := congrArg Cache.cell same
      rw [advanced.dispatcher, advanced.cell]
      exact ⟨dispatcher, cell⟩

theorem Pristine.reads (h : w.Pristine) (reachable : Reachable w)
    (unbound : w.cache.dispatcher.binding = none) (key : Nat) :
    (w.apply (.reader key)).Pristine
      ∧ (w.apply (.reader key)).cache.dispatcher.binding = none := by
  refine ⟨h.step reachable (apply_step w _) (readsBound_reader.mpr unbound), ?_⟩
  rw [(h.apply_reader unbound key).1]
  exact unbound

/-- Who shows interest fails with the look that follows. -/
theorem Pristine.interest_fails (h : w.Pristine) (reachable : Reachable w)
    (unbound : w.cache.dispatcher.binding = none) {key : Nat} {seat : Seat}
    (seated : w.seat? key = some seat) (hs : seat.reader.stage = .subscribing) :
    (w.run [.reader key, .reader key]).itemsTo key = .failed .unbound :: w.itemsTo key := by
  have shown := apply_subscribing seated hs
  have reseated := seat?_reseat seated w.cache.subscribe { seat.reader with stage := .looking }
  obtain ⟨next, unbound⟩ := h.reads reachable unbound key
  have fails := next.look_fails (reachable.move _) unbound (shown ▸ reseated) rfl
    (by rw [shown]; exact w.cache.subscribe_phase.1) (by rw [shown]; exact w.cache.subscribe_phase.2)
  show ((w.apply (.reader key)).apply (.reader key)).itemsTo key = _
  rw [fails, shown]
  rfl

/-- **The next read fails**, whichever way it reads. -/
theorem Pristine.fails_next (h : w.Pristine) (reachable : Reachable w)
    (unbound : w.cache.dispatcher.binding = none) (handle : w.hasHandle = true) (reading : Reading)
    (role : Role) :
    (w.run (.openReader reading role :: evaluate w.nextKey reading)).itemsTo w.nextKey
      = [.failed .unbound] := by
  have opened := reachable.attended.seat?_new reading role handle
  have next := h.step reachable (apply_step w (.openReader reading role)) rfl
  have same : (w.apply (.openReader reading role)).cache = w.cache
      ∧ (w.apply (.openReader reading role)).deliveries = w.deliveries := by
    show (w.openReader reading role).cache = _ ∧ (w.openReader reading role).deliveries = _
    rw [openReader, if_pos handle]
    exact ⟨rfl, rfl⟩
  have nothing : (w.apply (.openReader reading role)).itemsTo w.nextKey = [] :=
    (itemsTo_eq same.2 _).trans (itemsTo_unknown reachable.unserved.noted (Nat.le_refl _))
  have unbound : (w.apply (.openReader reading role)).cache.dispatcher.binding = none := by
    rw [same.1]
    exact unbound
  show ((w.apply (.openReader reading role)).run (evaluate w.nextKey reading)).itemsTo w.nextKey = _
  unfold evaluate
  cases demands : reading.demands with
  | true =>
      have fails := next.demand_fails (reachable.move _) unbound opened (by simp [Reader.new, demands])
      rw [nothing] at fails
      exact fails
  | false =>
      have fails := next.interest_fails (reachable.move _) unbound opened (by simp [Reader.new, demands])
      rw [nothing] at fails
      exact fails

/-- A reader of a single value that sits has been given something after three steps of its own. -/
theorem Pristine.told_soon (h : w.Pristine) (reachable : Reachable w)
    (unbound : w.cache.dispatcher.binding = none) {key : Nat} {seat : Seat}
    (seated : w.seat? key = some seat) (single : seat.reader.reading.follows = false) :
    (w.run [.reader key, .reader key, .reader key]).itemsTo key ≠ [] := by
  obtain ⟨_, rfl⟩ := seat?_mem seated
  have fares := h.readers seat (seat?_mem seated).1
  have once := reachable.move (.reader seat.key)
  have twice := once.move (.reader seat.key)
  -- what was given with the first step, or with the first two, is given for good
  have afterTwo (told : (w.run [.reader seat.key, .reader seat.key]).itemsTo seat.key ≠ []) :
      (w.run [.reader seat.key, .reader seat.key, .reader seat.key]).itemsTo seat.key ≠ [] :=
    twice.attended.told_apply told
  have afterOne (told : (w.apply (.reader seat.key)).itemsTo seat.key ≠ []) :=
    afterTwo (once.attended.told_apply told)
  rcases fares with ⟨isOpen, awaits, parked, _⟩ | ⟨_, ends, told⟩
  · cases hs : seat.reader.stage with
    | demanding =>
        refine afterOne ?_
        rw [h.demand_fails reachable unbound seated hs]
        exact List.cons_ne_nil _ _
    | subscribing =>
        refine afterTwo ?_
        rw [h.interest_fails reachable unbound seated hs]
        exact List.cons_ne_nil _ _
    | looking =>
        have looked := w.cache.access_accessed w.now seat.reader.delivered
        cases ha : w.cache.access w.now seat.reader.delivered with
        | mk cache access =>
            rw [ha] at looked
            rcases (h.cache.accessed unbound looked).2 with rfl | rfl
            · -- it looks in vain, and starts over
              have again : w.apply (.reader seat.key) = w.reseat seat.key cache
                  { seat.reader with seen := w.cache.cell.version, stage := .subscribing } := by
                refine advanceReader_quiet seated ?_
                simp [Reader.step, hs, ha, Reader.receive, single]
              have reseated := seat?_reseat seated cache
                { seat.reader with seen := w.cache.cell.version, stage := .subscribing }
              obtain ⟨next, unbound⟩ := h.reads reachable unbound seat.key
              have fails := next.interest_fails once unbound (again ▸ reseated) rfl
              show ((w.apply (.reader seat.key)).run [.reader seat.key, .reader seat.key]).itemsTo _ ≠ []
              rw [fails]
              exact List.cons_ne_nil _ _
            · refine afterOne ?_
              rw [reachable.attended.itemsTo_apply seated]
              simp [Reader.step, hs, ha, Reader.receive]
    | parked => cases single.symm.trans (parked hs)
    | expecting | waiting => simp [Reader.awaits?, hs] at awaits
    | closing | «over» | crashed => simp [Reader.isOpen, hs] at isOpen
  · refine afterOne (reachable.attended.told_apply ?_)
    rw [told]
    exact List.append_ne_nil_of_right_ne_nil _ (List.cons_ne_nil _ _)

/-- **Whoever reads a single value has failed within three steps of its own.** -/
theorem Pristine.fails_soon (h : w.Pristine) (reachable : Reachable w)
    (unbound : w.cache.dispatcher.binding = none) {seat : Seat} (seated : seat ∈ w.seats)
    (single : seat.reader.reading.follows = false) :
    InVain ((w.run [.reader seat.key, .reader seat.key, .reader seat.key]).itemsTo seat.key) := by
  obtain ⟨first, unbound₁⟩ := h.reads reachable unbound seat.key
  obtain ⟨second, unbound₂⟩ := first.reads (reachable.move _) unbound₁ seat.key
  obtain ⟨third, _⟩ := second.reads ((reachable.move _).move _) unbound₂ seat.key
  exact (third.items seat.key).resolve_left
    (h.told_soon reachable unbound (reachable.attended.seat?_eq seated) single)

/-! ## §6. As if nobody had read. -/

/-- The program has held the cache all along if it does at the end. -/
theorem held_of_apply (held : (w.apply m).hasHandle = true) : w.hasHandle = true ∧ m ≠ .dropHandle := by
  by_cases drops : m = .dropHandle
  · rw [drops] at held
    have gone : w.dropHandle.hasHandle = false := (untether_frame { w with hasHandle := false }).2
    cases gone.symm.trans held
  · rw [(apply_step w m).hasHandle drops] at held
    exact ⟨held, drops⟩

theorem held_of_run {moves : List (Move ε V)} (held : (w.run moves).hasHandle = true) :
    w.hasHandle = true := by
  induction moves generalizing w with
  | nil => exact held
  | cons m moves ih => exact (held_of_apply (ih held)).1

theorem unattended_dropReader {g : Cell V → Cell V} (handle : w.hasHandle = true) (key : Nat) :
    (w.dropReader key).unattended g = w.unattended g := by
  have stays : w.dropReader key = { w with seats := w.seats.filter (·.key != key) } :=
    untether_of_handle handle
  rw [stays]
  rfl

/-- A reader's move without a source leaves all but the readers, the phase and the mark. -/
theorem Pristine.unattended_reading (h : w.Pristine) (handle : w.hasHandle = true)
    (reading : m.isReading = true) (unread : w.readsBound m = false) :
    (w.apply m).unattended Cell.unphased = w.unattended Cell.unphased := by
  cases m with
  | openReader how role =>
      show (w.openReader how role).unattended _ = _
      rw [openReader, if_pos handle]
      rfl
  | follow key => rfl
  | dropReader key => exact unattended_dropReader handle key
  | reader key =>
      rw [readsBound_reader] at unread
      show (w.advanceReader key).unattended _ = _
      cases seated : w.seat? key with
      | none => rw [advanceReader, seated]
      | some seat =>
          obtain ⟨_, same, _⟩ := Reader.faresUnbound_step h.cache unread
            (h.readers seat (seat?_mem seated).1) (seat.reader.step_act w.cache w.now)
          cases hout : seat.reader.step w.cache w.now with
          | mk cache rest =>
              obtain ⟨reader, item⟩ := rest
              rw [hout] at same
              have leaves : (w.reseat key cache reader).unattended Cell.unphased
                  = w.unattended Cell.unphased :=
                congrArg (fun c => { w.unattended Cell.unphased with cache := c }) same
              unfold advanceReader
              simp only [seated, hout]
              cases item with
              | none => exact leaves
              | some item =>
                  dsimp only
                  split
                  · exact (unattended_dropReader (w := (w.reseat key cache reader).noteDelivery key _)
                      handle key).trans leaves
                  · exact leaves
  | bind | subscribe | invalidate | poke | flush | observe | recordSuccess | publish | closeBus
  | takeNotices | dropNotices | startRefresher | stopRefresher | openLookout | pollLookout
  | dropLookout | dropHandle | dropOwner | surround | attempt | arm | react | pass => cases reading

/-- A move of somebody else makes the same of worlds that differ in their readers, the phase and the mark, as
long as no attempt is on its way. -/
theorem unattended_others (same : w.unattended Cell.unphased = w'.unattended Cell.unphased)
    (nobody : w.cache.dispatcher.running = []) (unread : m.isReading = false)
    (keeps : m ≠ .dropHandle) :
    (w.apply m).unattended Cell.unphased = (w'.apply m).unattended Cell.unphased := by
  have leaves {v : World ε V} (nobody : v.cache.dispatcher.running = []) :
      (v.apply m).unattended Cell.unphased
        = ((v.unattended Cell.unphased).apply m).unattended Cell.unphased := by
    refine unattended_apply Cache.forgets_unphased unread (fun drops => absurd drops keeps) fun n _ => ?_
    have idle {u : World ε V} (nobody : u.cache.dispatcher.running = []) : u.apply (.attempt n) = u := by
      show u.advanceAttempt n = u
      rw [advanceAttempt, Dispatcher.attempt?, nobody]
      rfl
    rw [idle nobody, idle (u := v.unattended Cell.unphased) nobody,
      unattended_twice v Cache.forgets_unphased]
  have nobody' : w'.cache.dispatcher.running = [] := by
    rw [(unattended_frame same).1]
    exact nobody
  rw [leaves nobody, leaves nobody', same]

/-- **Reads without a source leave no trace**: apart from the readers, the phase and the mark the world is as if
nobody had read. -/
theorem Pristine.unattended_filter (h : w.Pristine) (reachable : Reachable w)
    (same : w.unattended Cell.unphased = w'.unattended Cell.unphased) {moves : List (Move ε V)}
    (unread : w.never readsBound moves = true) (held : (w.run moves).hasHandle = true) :
    (w.run moves).unattended Cell.unphased
      = (w'.run (moves.filter (!·.isReading))).unattended Cell.unphased := by
  induction moves generalizing w w' with
  | nil => exact same
  | cons m moves ih =>
      obtain ⟨first, rest⟩ := never_cons.mp unread
      obtain ⟨handle, keeps⟩ := held_of_apply (held_of_run (w := w.apply m) held)
      have next := h.step reachable (apply_step w m) first
      cases reads : m.isReading with
      | true =>
          rw [List.filter_cons_of_neg (by simp [reads])]
          exact ih next (reachable.move m) ((h.unattended_reading handle reads first).trans same) rest held
      | false =>
          rw [List.filter_cons_of_pos (by simp [reads])]
          exact ih next (reachable.move m) (unattended_others same h.nobody reads keeps) rest held

/-! ## §7. The first read after a source was bound. -/

/-- A read of a single value is made, and comes to its look. -/
def nextRead (w : World ε V) : List (Move ε V) :=
  [.openReader .once .read, .reader w.nextKey, .reader w.nextKey]

/-- The next read of a single value launches the first attempt, in the one world as in the other.  Whatever
happens from then on, as long as nobody else reads, the two stay alike, and the reads are given the same. -/
structure AnswersAlike (p p' : World ε V) : Prop where
  waits : ∃ seat, (p.run p.nextRead).seat? p.nextKey = some seat ∧ seat.reader.awaits? = some 1
  waits' : ∃ seat, (p'.run p'.nextRead).seat? p'.nextKey = some seat ∧ seat.reader.awaits? = some 1
  alike : ∀ more : List (Move ε V), (∀ m ∈ more, m.isReading = false) →
    let q := (p.run p.nextRead).run more
    let q' := (p'.run p'.nextRead).run more
    q.unattended Cell.unmarked = q'.unattended Cell.unmarked
      ∧ (q.apply (.reader p.nextKey)).itemsTo p.nextKey
        = (q'.apply (.reader p'.nextKey)).itemsTo p'.nextKey

/-- With a source, the first launch of all succeeds at once. -/
theorem Pristine.launches_first (h : w.Pristine) (bound : w.cache.dispatcher.binding.isSome = true) :
    ∃ next, w.cache.dispatcher.launch w.now = .started next 1 := by
  have named : (w.now.later? (w.cache.dispatcher.holdBack w.now)).isSome = true := by
    have ready : w.cache.dispatcher.holdBack w.now = 0 := by
      rw [h.cache.dispatcher]
      unfold Dispatcher.holdBack
      cases w.cache.dispatcher.pacing <;> rfl
    simp [ready, Instant.later?]
  obtain ⟨next, n, launched⟩ := Dispatcher.launch_of_named bound named
  have number := (Dispatcher.launch_started launched).number
  rw [h.cache.dispatcher] at number
  exact ⟨next, by rw [launched, number]⟩

/-- What the next read makes of a world that never launched, once it has looked. -/
theorem Pristine.asks (h : w.Pristine) (reachable : Reachable w) (handle : w.hasHandle = true)
    {next : Dispatcher ε V} (launched : w.cache.dispatcher.launch w.now = .started next 1) :
    (w.run w.nextRead).unattended Cell.unmarked
        = ((w.unattended Cell.unphased).withCache (·.begun next)).unattended Cell.unmarked
      ∧ (∃ seat, (w.run w.nextRead).seat? w.nextKey = some seat ∧ seat.role = .read
          ∧ seat.reader.stage = .waiting 1)
      ∧ (w.run w.nextRead).itemsTo w.nextKey = [] := by
  have looks : w.cache.subscribe.access w.now none
      = (w.cache.subscribe.begun next, .ticket (.wait 1)) := by
    rw [access_of_idle h.cache.valueless h.cache.idle h.cache.sound, Cache.launch,
      w.cache.subscribe_dispatcher, launched]
    rfl
  rw [nextRead, reachable.attended.asked_waits .read handle looks]
  refine ⟨?_, ⟨_, reachable.attended.seat?_newest rfl, rfl, rfl⟩,
    itemsTo_unknown reachable.unserved.noted (Nat.le_refl _)⟩
  exact congrArg (fun c => { w.unattended Cell.unphased with cache := c }) (w.cache.subscribe_begun next)

/-- **A read of a single value cannot tell** whether anybody had read before the source was bound. -/
theorem Pristine.answersAlike (h : w.Pristine) (h' : w'.Pristine) (reachable : Reachable w)
    (reachable' : Reachable w') (same : w.unattended Cell.unphased = w'.unattended Cell.unphased)
    (handle : w.hasHandle = true) (bound : w.cache.dispatcher.binding.isSome = true) :
    AnswersAlike w w' := by
  obtain ⟨dispatcher, now, held⟩ := unattended_frame same
  obtain ⟨next, launched⟩ := h.launches_first bound
  have launched' := launched
  rw [← dispatcher, ← now] at launched'
  obtain ⟨left, ⟨seat, seated, role, stage⟩, nothing⟩ := h.asks reachable handle launched
  obtain ⟨left', ⟨seat', seated', role', stage'⟩, nothing'⟩ :=
    h'.asks reachable' (held.trans handle) launched'
  have begins : (w.run w.nextRead).unattended Cell.unmarked
      = (w'.run w'.nextRead).unattended Cell.unmarked := by rw [left, left', same]
  have ran := reachable.run w.nextRead
  have ran' := reachable'.run w'.nextRead
  have awaits : seat.reader.awaits? = some 1 := by rw [Reader.awaits?, stage]
  have awaits' : seat'.reader.awaits? = some 1 := by rw [Reader.awaits?, stage']
  refine ⟨⟨seat, seated, awaits⟩, ⟨seat', seated', awaits'⟩, fun more unread => ?_⟩
  generalize w.run w.nextRead = v at begins seated nothing ran ⊢
  generalize w'.run w'.nextRead = v' at begins seated' nothing' ran' ⊢
  have reads : v.HasOpenRead :=
    ⟨seat, (seat?_mem seated).1, role, by rw [Reader.holdsCache, stage]⟩
  have reads' : v'.HasOpenRead :=
    ⟨seat', (seat?_mem seated').1, role', by rw [Reader.holdsCache, stage']⟩
  have alike := unattended_run reads reads' begins unread
  refine ⟨alike, ?_⟩
  -- both readers sit where they sat, and wait for the same answer
  obtain ⟨seats, deliveries⟩ := run_unread (w := v) unread
  obtain ⟨seats', deliveries'⟩ := run_unread (w := v') unread
  have sits : (v.run more).seat? w.nextKey = some seat := by
    rw [seat?, seats]
    exact seated
  have sits' : (v'.run more).seat? w'.nextKey = some seat' := by
    rw [seat?, seats']
    exact seated'
  rw [apply_waiter (ran.run more).attended sits awaits, apply_waiter (ran'.run more).attended sits' awaits',
    (unattended_frame alike).1, itemsTo_eq deliveries, itemsTo_eq deliveries', nothing, nothing']

end

end World

end SingleFlight
