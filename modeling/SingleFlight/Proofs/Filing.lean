/-
  SingleFlight.Proofs.Filing — under which revision a value is kept.

  A value that is stored raises the revision of the cell, and the answer that
  goes with it names the new revision.  The cell does not say whose value it
  holds, but the value does: an item is reported once, and the item that an
  attempt is at has not been stored before.  So whoever was answered with a
  value can tell by the revision whether the cell still holds that value.

  Main results:
    * `Step.holding_cases` — a held value keeps its revision, and a new value
      raises it.
    * `Reachable.filed` — an answered value is the held one exactly if it names
      the revision of the cell.
-/
import SingleFlight.Proofs.FirstOutcome

namespace SingleFlight

variable {ε V : Type}

open Dispatcher (Orderly)

/-! ## §1. Holding a value. -/

theorem Cache.Touch.holding {c c' : Cache ε V} {now : Instant} (t : Cache.Touch c now c')
    {v : Visibility (Sourced V)} (h : c'.cell.phase = .holding v) : c.cell.phase = .holding v := by
  rcases t.phase_cases with same | ⟨refetch, phase, _⟩ | ⟨phase, _⟩
  · rw [← same]
    exact h
  · rw [phase] at h
    cases h
  · rw [phase] at h
    cases h

namespace World

theorem Turn.holding_cases {w w' : World ε V} {a : Attempt ε V} {left : Option (Attempt ε V)}
    (t : Turn w a w' left) {v : Visibility (Sourced V)} (h : w'.cache.cell.phase = .holding v) :
    (w.cache.cell.phase = .holding v ∧ w'.cache.cell.revision = w.cache.cell.revision)
      ∨ (w'.cache.cell.revision = w.cache.cell.revision + 1
          ∧ ∃ content answer continues, a.progress = .reporting (.ok content) ∧ v = .concealed content
            ∧ left = some { a with progress := .answering answer continues }) := by
  cases t with
  | stored reporting alive latest keeps =>
      cases h
      exact Or.inr ⟨rfl, _, _, _, reporting, rfl, rfl⟩
  | discarded | failed => cases h
  | rest | wait | unbound | refused | called | opened | asked | finished | came | died | ignored
  | resumed | ended => exact Or.inl ⟨h, rfl⟩

/-- **A held value keeps its revision, and a new one raises it.** -/
theorem Step.holding_cases {w w' : World ε V} {m : Move ε V} (s : Step w m w')
    {v : Visibility (Sourced V)} (h : w'.cache.cell.phase = .holding v) :
    (w.cache.cell.phase = .holding v ∧ w'.cache.cell.revision = w.cache.cell.revision)
      ∨ w.cache.cell.revision < w'.cache.cell.revision := by
  cases s with
  | aside ha | dropReader ha =>
      rw [ha.cell] at h ⊢
      exact Or.inl ⟨h, rfl⟩
  | pass | bind | openReader | follow => exact Or.inl ⟨h, rfl⟩
  | invalidate => cases h
  | @poke asided ha =>
      have cell : asided.cache.cell = w.cache.cell := ha.cell
      rw [← cell]
      exact Or.inl ⟨h, rfl⟩
  | subscribe =>
      have touch := Cache.subscribe_touch w.cache w.now
      exact Or.inl ⟨touch.holding h, touch.revision⟩
  | @reader seat _ own seated ha =>
      have touch := (seat.reader.step_stepped w.cache w.now).touch
      rw [ha.cell] at h ⊢
      exact Or.inl ⟨touch.holding h, touch.revision⟩
  | attempt own running t =>
      refine (t.holding_cases h).imp_right fun ⟨raised, _⟩ => ?_
      rw [raised]
      exact Nat.lt_succ_self _

end World

/-! ## §2. Items. -/

theorem World.Yield.origin_of_report {y : World.Yield V} {n item : Nat} {content : Sourced V}
    (h : y.report n item = .ok content) : content.origin = ⟨n, item⟩ := by
  cases y with
  | came outcome =>
      cases outcome with
      | value v =>
          cases h
          rfl
      | failed | crashed | uncopyable => cases h
  | exhausted | ownerGone => cases h

/-- The value that the attempt is about to make known is that of its current item. -/
def Attempt.IsItsOwn (a : Attempt ε V) : Prop :=
  ∀ content, a.news? = some (.ok content) → content.origin = ⟨a.number, a.item⟩

namespace World

theorem Turn.isItsOwn {w w' : World ε V} {a b : Attempt ε V} {left : Option (Attempt ε V)}
    (t : Turn w a w' left) (h : a.IsItsOwn) (hleft : left = some b) : b.IsItsOwn := by
  intro content news
  rcases t.news_left hleft with ⟨item, said⟩ | ⟨_, nothing⟩
  · rw [t.number hleft, item]
    rw [said] at news
    rcases Option.or_eq_some_iff.mp news with old | ⟨_, new⟩
    · exact h content old
    · obtain ⟨y, _, report⟩ := Option.map_eq_some_iff.mp new
      exact Yield.origin_of_report report
  · rw [nothing] at news
    cases news

/-- An attempt that is about to answer goes on to the next item, or does nothing. -/
theorem Turn.item_cases {w w' : World ε V} {a b : Attempt ε V} {left : Option (Attempt ε V)}
    (t : Turn w a w' left) (hleft : left = some b) :
    a.item < b.item ∨ (b.item = a.item ∧ (a.isAnswering = true → b.isAnswering = true)) := by
  cases t with
  | rest =>
      cases hleft
      exact Or.inr ⟨rfl, id⟩
  | resumed =>
      cases hleft
      exact Or.inl (Nat.lt_succ_self _)
  | wait waiting =>
      cases hleft
      refine Or.inr ⟨rfl, fun answering => ?_⟩
      unfold Attempt.isExecuting at waiting
      unfold Attempt.isAnswering at answering
      split at answering
      next hp =>
        rw [hp] at waiting
        cases waiting
      next => cases answering
  | refused busy | called busy | opened busy | asked busy | came busy | ignored busy | stored busy
  | discarded busy | failed busy =>
      cases hleft
      refine Or.inr ⟨rfl, fun answering => ?_⟩
      unfold Attempt.isAnswering at answering
      rw [busy] at answering
      cases answering
  | unbound | finished | died | ended => cases hleft

/-- A first answer is a first item. -/
theorem Reachable.answered_first {w : World ε V} (h : Reachable w) {n : Nat} {fetched : Fetched V}
    (answered : w.cache.dispatcher.answer? n = some (.ok fetched)) :
    fetched.content.origin = ⟨n, 0⟩ := by
  obtain ⟨given, faithful⟩ := h.faithful
  obtain ⟨y, _, same⟩ := faithful.answers n _ answered
  exact Yield.origin_of_report same.symm

end World

/-! ## §3. Values and revisions. -/

/-- The value has been answered, or an attempt is about to answer with it. -/
def Dispatcher.Tells (d : Dispatcher ε V) (fetched : Fetched V) : Prop :=
  (∃ n, d.answer? n = some (.ok fetched))
    ∨ ∃ a ∈ d.running, ∃ continues, a.progress = .answering (.ok fetched) continues

namespace World

/-- Answered values name the revision under which they were stored. -/
structure Filed (w : World ε V) : Prop where
  own : ∀ a ∈ w.cache.dispatcher.running, a.IsItsOwn
  /-- The held value is of an earlier item than the one that its attempt is at, unless the attempt is
  about to answer with it. -/
  past : ∀ content, w.cache.cell.phase = .holding (.concealed content) →
    ∀ a ∈ w.cache.dispatcher.running, content.origin.attempt = a.number →
      content.origin.item < a.item ∨ (content.origin.item = a.item ∧ a.isAnswering = true)
  le : ∀ fetched, w.cache.dispatcher.Tells fetched → ∀ r, fetched.revision = some r →
    r ≤ w.cache.cell.revision
  /-- The origin of a value says whether it is the held one. -/
  stored : ∀ fetched, w.cache.dispatcher.Tells fetched →
    ∀ content, w.cache.cell.phase = .holding (.concealed content) →
      content.origin = fetched.content.origin → fetched.revision = some w.cache.cell.revision
  current : ∀ fetched, w.cache.dispatcher.Tells fetched →
    ∀ content, w.cache.cell.phase = .holding (.concealed content) →
      fetched.revision = some w.cache.cell.revision → content = fetched.content

theorem Filed.held {w : World ε V} (h : Filed w) (fetched : Fetched V)
    (told : w.cache.dispatcher.Tells fetched) (content : Sourced V)
    (holding : w.cache.cell.phase = .holding (.concealed content)) :
    content = fetched.content ↔ fetched.revision = some w.cache.cell.revision :=
  ⟨fun same => h.stored fetched told content holding (congrArg Sourced.origin same),
    h.current fetched told content holding⟩

/-- A value that is being reported has another origin than those that were answered. -/
theorem Filed.fresh {w : World ε V} (h : Filed w) (reachable : Reachable w) {a : Attempt ε V}
    (ha : a ∈ w.cache.dispatcher.running) {content : Sourced V}
    (reporting : a.progress = .reporting (.ok content)) {fetched : Fetched V}
    (told : w.cache.dispatcher.Tells fetched) :
    content.origin ≠ fetched.content.origin := by
  intro same
  have orderly := reachable.ordered.dispatcher
  have origin := same.symm.trans (h.own a ha content (by rw [Attempt.news?, reporting]))
  rcases told with ⟨n, answered⟩ | ⟨b, hb, continues, answering⟩
  · -- an attempt that reports its first item has not answered
    obtain ⟨number, item⟩ := Origin.mk.inj ((reachable.answered_first answered).symm.trans origin)
    have executes := (orderly.fits a ha).executes (by simp [Attempt.isExecuting, reporting])
    have answered := Dispatcher.hasAnswered_iff.mpr ⟨_, answered⟩
    rw [number] at answered
    exact executes.delivered.mp answered item.symm
  · have news : b.news? = some (.ok fetched.content) := by
      rw [Attempt.news?, answering]
      rfl
    obtain ⟨number, _⟩ := Origin.mk.inj ((h.own b hb _ news).symm.trans origin)
    rw [orderly.eq_of_number hb ha number, reporting] at answering
    cases answering

/-- Whatever is told after a step of an attempt was told before, or is what that attempt reported. -/
theorem Turn.tells_cases {w w' : World ε V} {a : Attempt ε V} {left : Option (Attempt ε V)}
    (t : Turn w a w' left) (orderly : Orderly w.now w.cache.dispatcher)
    (ha : a ∈ w.cache.dispatcher.running) {fetched : Fetched V}
    (told : w'.cache.dispatcher.Tells fetched) :
    w.cache.dispatcher.Tells fetched ∨ (a.progress = .reporting (.ok fetched.content)
      ∧ ((fetched.revision = none ∧ w'.cache.cell.revision = w.cache.cell.revision)
        ∨ (fetched.revision = some w'.cache.cell.revision
          ∧ w'.cache.cell.phase = .holding (.concealed fetched.content)))) := by
  rcases told with ⟨n, answered⟩ | ⟨b, hb, continues, answering⟩
  · rcases t.answer_source orderly ha answered with old | ⟨_, _, ⟨continues, answering⟩ | ⟨lost, _⟩⟩
    · exact Or.inl (Or.inl ⟨n, old⟩)
    · exact Or.inl (Or.inr ⟨a, ha, continues, answering⟩)
    · cases lost
  · rcases t.mem_running hb with old | hleft
    · exact Or.inl (Or.inr ⟨b, old, continues, answering⟩)
    · rcases t.answering_left hleft answering with rfl | ⟨_, _, failed⟩ | ⟨_, same, reported⟩
      · exact Or.inl (Or.inr ⟨b, ha, continues, answering⟩)
      · cases failed
      · cases same
        exact Or.inr reported

theorem Filed.reports {w : World ε V} (h : Filed w) {a : Attempt ε V}
    (ha : a ∈ w.cache.dispatcher.running) {content : Sourced V}
    (reporting : a.progress = .reporting (.ok content)) :
    content.origin = ⟨a.number, a.item⟩ ∧ a.isAnswering = false :=
  ⟨h.own a ha content (by rw [Attempt.news?, reporting]), by rw [Attempt.isAnswering, reporting]⟩

/-- The attempt of the held value does not go back, and a value that has just been stored is answered
next. -/
theorem Filed.past_turn {w w' : World ε V} {a b : Attempt ε V} {left : Option (Attempt ε V)}
    (h : Filed w) (t : Turn w a w' left) (ha : a ∈ w.cache.dispatcher.running) {content : Sourced V}
    (holding : w'.cache.cell.phase = .holding (.concealed content))
    (hb : b ∈ w'.cache.dispatcher.running) (number : content.origin.attempt = b.number) :
    content.origin.item < b.item ∨ (content.origin.item = b.item ∧ b.isAnswering = true) := by
  rcases t.holding_cases holding with ⟨before, _⟩ | ⟨_, _, answer, continues, reporting, same, now⟩
  · rcases t.mem_running hb with old | hleft
    · exact h.past content before b old number
    · have past := h.past content before a ha (number.trans (t.number hleft))
      rcases t.item_cases hleft with later | ⟨item, stays⟩
      · rcases past with past | ⟨past, _⟩ <;> exact Or.inl (by omega)
      · rw [item]
        exact past.imp_right fun ⟨same, answering⟩ => ⟨same, stays answering⟩
  · cases same
    obtain ⟨origin, _⟩ := h.reports ha reporting
    rw [origin] at number ⊢
    rcases t.mem_cases hb with ⟨_, other⟩ | hleft | ⟨_, hleft⟩
    · exact absurd number.symm other
    · rw [now] at hleft
      cases hleft
      exact Or.inr ⟨rfl, rfl⟩
    · rw [now] at hleft
      rw [← Option.some.inj hleft] at reporting
      cases reporting

theorem Filed.held_turn {w w' : World ε V} {a : Attempt ε V} {left : Option (Attempt ε V)}
    (h : Filed w) (reachable : Reachable w) (t : Turn w a w' left)
    (ha : a ∈ w.cache.dispatcher.running) {fetched : Fetched V}
    (told : w'.cache.dispatcher.Tells fetched) {content : Sourced V}
    (holding : w'.cache.cell.phase = .holding (.concealed content)) :
    (content.origin = fetched.content.origin → fetched.revision = some w'.cache.cell.revision)
      ∧ (fetched.revision = some w'.cache.cell.revision → content = fetched.content) := by
  rcases t.tells_cases reachable.ordered.dispatcher ha told with
    old | ⟨reporting, ⟨none, revision⟩ | ⟨now, phase⟩⟩
  · rcases t.holding_cases holding with ⟨before, revision⟩ | ⟨revision, _, _, _, reporting, same, _⟩
    · rw [revision]
      exact ⟨h.stored fetched old content before, h.current fetched old content before⟩
    · -- a new value has another origin than the old ones, and a revision of its own
      cases same
      refine ⟨fun same => absurd same (h.fresh reachable ha reporting old), fun now => ?_⟩
      have := h.le fetched old _ now
      omega
  · -- the value was not stored, so it is not the held one
    rcases t.holding_cases holding with ⟨before, _⟩ | ⟨stored, _⟩
    · rw [none]
      refine ⟨fun same => ?_, fun now => nomatch now⟩
      obtain ⟨origin, silent⟩ := h.reports ha reporting
      have past := h.past _ before a ha (by rw [same, origin])
      rw [same, origin, silent] at past
      rcases past with past | ⟨_, answering⟩
      · exact absurd past (Nat.lt_irrefl _)
      · cases answering
    · omega
  · rw [phase] at holding
    cases holding
    exact ⟨fun _ => now, fun _ => rfl⟩

theorem Filed.turn {w w' : World ε V} {a : Attempt ε V} {left : Option (Attempt ε V)}
    (h : Filed w) (reachable : Reachable w) (t : Turn w a w' left)
    (ha : a ∈ w.cache.dispatcher.running) : Filed w' := by
  have raised : w.cache.cell.revision ≤ w'.cache.cell.revision := by
    rcases t.revision_cases with same | ⟨stored, _⟩ <;> omega
  refine ⟨fun b hb => ?_, fun content holding b hb => h.past_turn t ha holding hb,
    fun fetched told r hr => ?_,
    fun fetched told content holding => (h.held_turn reachable t ha told holding).1,
    fun fetched told content holding => (h.held_turn reachable t ha told holding).2⟩
  · rcases t.mem_running hb with old | hleft
    · exact h.own b old
    · exact t.isItsOwn (h.own a ha) hleft
  · rcases t.tells_cases reachable.ordered.dispatcher ha told with old | ⟨_, ⟨none, _⟩ | ⟨now, _⟩⟩
    · exact Nat.le_trans (h.le fetched old r hr) raised
    · rw [none] at hr
      cases hr
    · rw [now] at hr
      exact Nat.le_of_eq (Option.some.inj hr).symm

/-- A section of a reader launches attempts that have told nothing yet. -/
theorem Filed.touch {w w' : World ε V} {c : Cache ε V} (h : Filed w) (reachable : Reachable w)
    (t : Cache.Touch w.cache w.now c) (cell : w'.cache.cell = c.cell)
    (dispatcher : w'.cache.dispatcher = c.dispatcher) : Filed w' := by
  have orderly := reachable.ordered.dispatcher
  have mem {b : Attempt ε V} (hb : b ∈ w'.cache.dispatcher.running) := mem_touch t (dispatcher ▸ hb)
  have tells {fetched : Fetched V} (told : w'.cache.dispatcher.Tells fetched) :
      w.cache.dispatcher.Tells fetched := by
    rcases told with ⟨n, answered⟩ | ⟨b, hb, continues, answering⟩
    · rw [dispatcher, answer?_touch t orderly] at answered
      exact Or.inl ⟨n, answered⟩
    · rcases mem hb with old | rfl
      · exact Or.inr ⟨b, old, continues, answering⟩
      · cases answering
  have revision : w'.cache.cell.revision = w.cache.cell.revision := by rw [cell, t.revision]
  have holds {v : Visibility (Sourced V)} (holding : w'.cache.cell.phase = .holding v) :
      w.cache.cell.phase = .holding v := t.holding (cell ▸ holding)
  refine ⟨fun b hb => ?_, fun content holding b hb number => ?_, fun fetched told => ?_,
    fun fetched told content holding => ?_, fun fetched told content holding => ?_⟩
  · rcases mem hb with old | rfl
    · exact h.own b old
    · exact fun content news => nomatch news
  · rcases mem hb with old | rfl
    · exact h.past content (holds holding) b old number
    · -- nobody has called the source under the new number
      have called := reachable.genuine.held content (by rw [holds holding]; rfl)
      have known := reachable.ordered.called_le called
      have number : content.origin.attempt = w.cache.dispatcher.latest + 1 := number
      omega
  · rw [revision]
    exact h.le fetched (tells told)
  · rw [revision]
    exact h.stored fetched (tells told) content (holds holding)
  · rw [revision]
    exact h.current fetched (tells told) content (holds holding)

/-- A move that leaves the attempts alone, and stores nothing, leaves everything filed. -/
theorem Filed.same {w w' : World ε V} (h : Filed w)
    (dispatcher : w'.cache.dispatcher = w.cache.dispatcher)
    (revision : w'.cache.cell.revision = w.cache.cell.revision)
    (holds : ∀ v, w'.cache.cell.phase = .holding v → w.cache.cell.phase = .holding v) : Filed w' := by
  refine ⟨?_, fun content holding => ?_, ?_, fun fetched told content holding => ?_,
    fun fetched told content holding => ?_⟩
  · rw [dispatcher]
    exact h.own
  · rw [dispatcher]
    exact h.past content (holds _ holding)
  · rw [dispatcher, revision]
    exact h.le
  · rw [revision]
    rw [dispatcher] at told
    exact h.stored fetched told content (holds _ holding)
  · rw [revision]
    rw [dispatcher] at told
    exact h.current fetched told content (holds _ holding)

/-- **An answered value is the held one exactly if it names the revision of the cell**, in every
reachable world. -/
theorem Reachable.filed {w : World ε V} (h : Reachable w) : Filed w := by
  refine h.invariant (fun w hw => ?_) (fun w m w' reachable h s => ?_)
  · -- nothing was fetched yet
    refine ⟨fun a ha => ?_, fun content holding => ?_, fun fetched told => ?_,
      fun _ _ content holding => ?_, fun _ _ content holding => ?_⟩
    · cases hw <;> cases ha
    · cases hw <;> cases holding
    · rcases told with ⟨n, answered⟩ | ⟨a, ha, _⟩
      · cases hw <;> cases answered
      · cases hw <;> cases ha
    · cases hw <;> cases holding
    · cases hw <;> cases holding
  · cases s with
    | aside ha | dropReader ha =>
        exact h.same ha.dispatcher (congrArg Cell.revision ha.cell) fun v => by rw [ha.cell]; exact id
    | pass | openReader | follow => exact h.same rfl rfl fun _ => id
    | bind => exact ⟨h.own, h.past, h.le, h.stored, h.current⟩
    | @invalidate asided ha =>
        have revision : asided.cache.cell.revision = w.cache.cell.revision := by rw [ha.cell]
        exact h.same ha.dispatcher revision fun v holding => nomatch holding
    | @poke asided ha =>
        have revision : asided.cache.cell.revision = w.cache.cell.revision := by rw [ha.cell]
        have phase : asided.cache.cell.phase = w.cache.cell.phase := by rw [ha.cell]
        exact h.same ha.dispatcher revision fun v holding => phase ▸ holding
    | subscribe => exact h.touch reachable (Cache.subscribe_touch w.cache w.now) rfl rfl
    | reader own seated ha =>
        exact h.touch reachable (Reader.step_stepped _ _ _).touch ha.cell ha.dispatcher
    | attempt own running t => exact h.turn reachable t (Dispatcher.attempt?_mem running).1

end World

end SingleFlight
