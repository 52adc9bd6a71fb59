/-
  SingleFlight.Proofs.Ledger — launches, calls and reports add up.

  The counters of the cell and the calls of the source are kept in different
  places, and by different steps.  With a source that makes one production per
  call they agree at every moment all the same: whoever was launched is held up
  or has called (`Account.launched`), and whoever has reported has called
  (`Account.reported`).  If the values of the source bear the number of the call
  that they come from (`Source.Numbers`), each of them can be found again among
  the calls, with the attempt that made it (`Numbered`).

  Main results:
    * `Turn.countP`, `Reader.step_billed` — what a step makes of the list of
      attempts, and of the counters that speak of it.
    * `Ledger.run` — the ledger is in order after every run.
    * `Ledger.stores_increase` — the numbers of the values that are stored one
      after another increase.
-/
import SingleFlight.Proofs.Punctual

namespace SingleFlight

variable {ε V : Type}

open Dispatcher (Orderly)

/-! ## §1. Counting the attempts on the list. -/

namespace Dispatcher

variable {d : Dispatcher ε V} {a : Attempt ε V}

/-- An attempt stands on the list once. -/
theorem running_split (sorted : d.running.Pairwise (·.number < ·.number)) (ha : a ∈ d.running) :
    ∃ before after, d.running = before ++ a :: after
      ∧ (∀ b ∈ before, b.number ≠ a.number) ∧ ∀ b ∈ after, b.number ≠ a.number := by
  obtain ⟨before, after, split⟩ := List.append_of_mem ha
  rw [split] at sorted
  obtain ⟨_, later, earlier⟩ := List.pairwise_append.mp sorted
  refine ⟨before, after, split, fun b hb => ?_, fun b hb => ?_⟩
  · exact Nat.ne_of_lt (earlier b hb a List.mem_cons_self)
  · exact (Nat.ne_of_lt ((List.pairwise_cons.mp later).1 b hb)).symm

/-- Who is put in the place of an attempt is counted instead of it. -/
theorem countP_update (sorted : d.running.Pairwise (·.number < ·.number)) (ha : a ∈ d.running)
    {a' : Attempt ε V} (number : a'.number = a.number) (p : Attempt ε V → Bool) :
    (d.update a').running.countP p + [a].countP p = d.running.countP p + [a'].countP p := by
  obtain ⟨before, after, split, earlier, later⟩ := running_split sorted ha
  have others {l : List (Attempt ε V)} (h : ∀ b ∈ l, b.number ≠ a.number) :
      (l.map fun b => if b.number = a'.number then a' else b) = l :=
    (List.map_congr_left fun b hb => if_neg (number ▸ h b hb)).trans (List.map_id' l)
  have updated : (d.update a').running = before ++ a' :: after := by
    simp only [update, split, List.map_append, List.map_cons, others earlier, others later,
      if_pos number.symm]
  rw [updated, split]
  simp only [List.countP_append, List.countP_cons, List.countP_nil]
  omega

/-- Who is taken off the list is not counted any more. -/
theorem countP_retire (sorted : d.running.Pairwise (·.number < ·.number)) (ha : a ∈ d.running)
    (p : Attempt ε V → Bool) :
    (d.retire a.number).running.countP p + [a].countP p = d.running.countP p := by
  obtain ⟨before, after, split, earlier, later⟩ := running_split sorted ha
  have others {l : List (Attempt ε V)} (h : ∀ b ∈ l, b.number ≠ a.number) :
      l.filter (·.number != a.number) = l :=
    List.filter_eq_self.mpr fun b hb => bne_iff_ne.mpr (h b hb)
  have retired : (d.retire a.number).running = before ++ after := by
    simp only [retire, split, List.filter_append, List.filter_cons, bne_self_eq_false, others earlier,
      others later, Bool.false_eq_true, if_false]
  rw [retired, split]
  simp only [List.countP_append, List.countP_cons, List.countP_nil]
  omega

/-- Stopping an attempt that is not counted changes no count. -/
theorem countP_dismiss {o : Option Nat} {p : Attempt ε V → Bool}
    (uncounted : ∀ b ∈ d.running, o = some b.number → p b = false) :
    (d.dismiss o).running.countP p = d.running.countP p := by
  cases o with
  | none => rfl
  | some n =>
      show (d.abort n).running.countP p = _
      unfold abort
      split
      · rw [lose, (noteAnswer_frame _ _ _).1]
        show (d.running.filter (·.number != n)).countP p = _
        rw [List.countP_filter]
        refine List.countP_congr fun b hb => ?_
        by_cases own : b.number = n
        · simp [uncounted b hb (congrArg some own.symm)]
        · simp [own]
      · rfl

end Dispatcher

namespace World

/-- **A step of an attempt puts what is left of it in its place**, as far as it replaces nobody who is
counted. -/
theorem Turn.countP {w w' : World ε V} {a : Attempt ε V} {left : Option (Attempt ε V)}
    (t : Turn w a w' left) (orderly : Orderly w.now w.cache.dispatcher)
    (ha : a ∈ w.cache.dispatcher.running) {p : Attempt ε V → Bool}
    (uncounted : a.progress = .queued → a.predecessor.all w.cache.dispatcher.hasAnswered = true →
      ∀ b ∈ w.cache.dispatcher.running, a.supersedes = some b.number → p b = false) :
    w'.cache.dispatcher.running.countP p + [a].countP p
      = w.cache.dispatcher.running.countP p + left.toList.countP p := by
  have updated {d : Dispatcher ε V} (same : d.running = w.cache.dispatcher.running) {a' : Attempt ε V}
      (number : a'.number = a.number) :
      (d.update a').running.countP p + [a].countP p
        = w.cache.dispatcher.running.countP p + (some a').toList.countP p := by
    rw [← same] at ha ⊢
    exact Dispatcher.countP_update (same ▸ orderly.sorted) ha number p
  have replaced (queued : a.progress = .queued)
      (ready : a.predecessor.all w.cache.dispatcher.hasAnswered = true) {a' : Attempt ε V}
      (number : a'.number = a.number) :
      ((w.cache.dispatcher.dismiss a.supersedes).update a').running.countP p + [a].countP p
        = w.cache.dispatcher.running.countP p + (some a').toList.countP p := by
    rw [← Dispatcher.countP_dismiss (uncounted queued ready)]
    refine Dispatcher.countP_update (orderly.sorted.sublist (Dispatcher.dismiss_sublist _ _)) ?_ number p
    -- nobody replaces himself
    refine Dispatcher.mem_dismiss_iff.mpr ⟨ha, fun own => ?_⟩
    have earlier := ((orderly.fits a ha).queues (by simp [Attempt.isExecuting, queued])).supersedes _ own
    omega
  have removed {d : Dispatcher ε V} (same : d.running = w.cache.dispatcher.running) :
      (d.retire a.number).running.countP p + [a].countP p
        = w.cache.dispatcher.running.countP p + (none : Option (Attempt ε V)).toList.countP p := by
    rw [← same] at ha ⊢
    exact Dispatcher.countP_retire (same ▸ orderly.sorted) ha p
  have lost {d : Dispatcher ε V} (same : d.running = w.cache.dispatcher.running) :
      (d.lose a.number).running.countP p + [a].countP p
        = w.cache.dispatcher.running.countP p + (none : Option (Attempt ε V)).toList.countP p := by
    rw [Dispatcher.lose, (Dispatcher.noteAnswer_frame _ _ _).1]
    exact removed same
  have settled (answer : Answer V) : (w.cache.dispatcher.settle a.number answer).running
      = w.cache.dispatcher.running := (Dispatcher.settle_frame _ _ _).1
  cases t with
  | rest => rfl
  | unbound _ absent =>
      have bound := (orderly.bound_of_mem ha).2
      rw [absent] at bound
      cases bound
  | finished => exact removed rfl
  | died => exact lost rfl
  | ended => exact removed (settled _)
  | refused queued ready | called queued ready | opened queued ready => exact replaced queued ready rfl
  | resumed => exact updated (settled _) rfl
  | wait | asked | came | ignored | stored | discarded | failed => exact updated rfl rfl

end World

/-! ## §2. What a reader enters in the counters. -/

/-- The reports that were taken in. -/
def Counters.outcomes (c : Counters) : Nat := c.successes + c.failures

/-- What a section of a reader makes of the list of attempts and of the counters: it launches and counts a
launch exactly if it puts the attempt `fresh` on the list, and takes nobody off it but a stream that a launch
stops. -/
structure Cache.Billed (c : Cache ε V) (now : Instant) (fresh : Option (Attempt ε V)) (c' : Cache ε V) :
    Prop where
  running : ∃ kept, (kept = c.dispatcher.running ∨ kept = c.dispatcher.clear.running)
    ∧ c'.dispatcher.running = kept ++ fresh.toList
  newest : ∀ a, fresh = some a → a = c.dispatcher.newest now
  launched : (c'.dispatcher.latest ≠ c.dispatcher.latest ∧ c'.cell.phase = .calculating)
    ↔ fresh.isSome = true
  latest : fresh.isSome = true → c'.dispatcher.latest = c.dispatcher.latest + 1
  fetches : c'.cell.counters.fetches = c.cell.counters.fetches + fresh.toList.length
  successes : c'.cell.counters.successes = c.cell.counters.successes
  failures : c'.cell.counters.failures = c.cell.counters.failures
  revision : c'.cell.revision = c.cell.revision

namespace Cache

theorem Billed.outcomes {c c' : Cache ε V} {now : Instant} {fresh : Option (Attempt ε V)}
    (b : Billed c now fresh c') : c'.cell.counters.outcomes = c.cell.counters.outcomes := by
  rw [Counters.outcomes, b.successes, b.failures]
  rfl

/-- A section that leaves the dispatcher alone launches nobody. -/
theorem billed_nothing {c c' : Cache ε V} {now : Instant} (dispatcher : c'.dispatcher = c.dispatcher)
    (fetches : c'.cell.counters.fetches = c.cell.counters.fetches)
    (successes : c'.cell.counters.successes = c.cell.counters.successes)
    (failures : c'.cell.counters.failures = c.cell.counters.failures)
    (revision : c'.cell.revision = c.cell.revision) : ∃ fresh, Billed c now fresh c' := by
  refine ⟨none, ⟨_, Or.inl rfl, ?_⟩, fun _ none => (nomatch none), ?_, fun none => (nomatch none), fetches,
    successes, failures, revision⟩
  · rw [dispatcher, Option.toList_none, List.append_nil]
  · exact iff_of_false (fun launched => launched.1 (congrArg Dispatcher.latest dispatcher)) (fun none => nomatch none)

/-- Without a stream a launch stops nobody. -/
theorem running_clear {d : Dispatcher ε V} (stream : d.stream = none) : d.clear.running = d.running := by
  have nobody : d.answeredStream = none := by
    unfold Dispatcher.answeredStream
    split
    · rfl
    · exact stream
  rw [Dispatcher.clear, nobody]
  rfl

theorem Ticketed.billed {c c' : Cache ε V} {now : Instant} {t : Ticket}
    (h : Ticketed c now (c', t)) : ∃ fresh, Billed c now fresh c' := by
  cases h with
  | started _ _ h =>
      have started := Dispatcher.launch_started h
      refine ⟨some (c.dispatcher.newest now), ⟨_, Or.inr rfl, started.running⟩,
        fun a ha => (Option.some.inj ha).symm, iff_of_true ⟨?_, rfl⟩ rfl, fun _ => started.latest, rfl, rfl,
        rfl, rfl⟩
      have newer := started.latest
      exact Nat.ne_of_gt (Nat.lt_of_lt_of_eq (Nat.lt_succ_self _) newer.symm)
  | overflow _ idle h =>
      have overflowed := Dispatcher.launch_overflowed h
      exact ⟨none, ⟨_, Or.inr rfl, overflowed.running⟩, fun _ none => (nomatch none),
        iff_of_false (fun launched => idle launched.2) (fun none => nomatch none), fun none => (nomatch none),
        rfl, rfl, rfl, rfl⟩
  | unbound | joined | lost | broken => exact billed_nothing rfl rfl rfl rfl rfl

theorem Accessed.billed {c c' : Cache ε V} {now : Instant} {delivered : Option Nat} {a : Access V}
    (h : Accessed c now delivered (c', a)) : ∃ fresh, Billed c now fresh c' := by
  cases h with
  | ticket h => exact h.billed
  | nothing | noticed | served => exact billed_nothing rfl rfl rfl rfl rfl

theorem subscribe_billed (c : Cache ε V) (now : Instant) : ∃ fresh, Billed c now fresh c.subscribe := by
  unfold subscribe
  split <;> exact billed_nothing rfl rfl rfl rfl rfl

end Cache

/-- **A reader's step counts what it launches**, and no reports. -/
theorem Reader.step_billed (r : Reader) (c : Cache ε V) (now : Instant) :
    ∃ fresh, Cache.Billed c now fresh (r.step c now).1 := by
  have act := r.step_act c now
  generalize r.step c now = out at act ⊢
  cases act with
  | subscribed => exact c.subscribe_billed now
  | unserved _ looked | served _ looked => exact looked.billed
  | joined _ told | demanded _ told | refused _ told | broke _ told => exact told.billed
  | answered | started | satisfied | failed | idle | woken | finished | crashed =>
      exact Cache.billed_nothing rfl rfl rfl rfl rfl

/-! ## §3. A source that makes one production per call. -/

/-- The source makes one production per call, and its values bear the number of the call. -/
def Source.Numbers (source : Source ε V) (number : V → Nat) : Prop :=
  ∃ call, source.shape = .oneShot call ∧ ∀ k p, call k = some p →
    ∀ surroundings now v, p.outcome surroundings now = .value v → number v = k

theorem Source.Numbers.single {source : Source ε V} {number : V → Nat} (h : source.Numbers number) :
    source.isContinuous = false := by
  obtain ⟨call, shape, _⟩ := h
  rw [isContinuous, shape]

/-- Whether a move leaves the source and its owner where they are, and the book to the cache. -/
def Move.isOrdinary : Move ε V → Bool
  | .bind _ | .dropOwner | .recordSuccess => false
  | _ => true

namespace World

variable {number : V → Nat} {w w' : World ε V} {m : Move ε V}

/-- Only the program binds a source. -/
theorem Step.binding (s : Step w m w') (ordered : Ordered w) (unbinding : ∀ source, m ≠ .bind source) :
    w'.cache.dispatcher.binding = w.cache.dispatcher.binding := by
  have touched {c : Cache ε V} (t : Cache.Touch w.cache w.now c) :
      c.dispatcher.binding = w.cache.dispatcher.binding := by
    rcases t.renewed with same | ⟨_, renewed, _⟩
    · exact congrArg Dispatcher.binding same
    · exact renewed.binding
  cases s with
  | aside ha | invalidate ha | poke ha | dropReader ha => exact congrArg Dispatcher.binding ha.dispatcher
  | pass | openReader | follow => rfl
  | bind source unsealed own => exact absurd own (unbinding source)
  | subscribe own => exact touched (Cache.subscribe_touch w.cache w.now)
  | reader own seated ha =>
      rw [ha.dispatcher]
      exact touched (Reader.step_stepped _ _ _).touch
  | attempt own running t =>
      exact (t.progressed ordered.dispatcher (Dispatcher.attempt?_mem running).1).kept.binding

/-- The source of the world makes one production per call, whose values `number` numbers, and its owner is
there: nobody replaces anybody, or goes on after its first item. -/
structure OneShot (number : V → Nat) (w : World ε V) : Prop where
  bound : ∃ source, w.cache.dispatcher.binding = some source ∧ source.Numbers number
  owned : w.hasOwner = true
  stream : w.cache.dispatcher.stream = none
  alone : ∀ a ∈ w.cache.dispatcher.running, a.supersedes = none ∧ a.offers = none

theorem OneShot.single (h : OneShot number w) : ¬ w.cache.dispatcher.IsStreaming := by
  rintro ⟨source, bound, continuous⟩
  obtain ⟨source', bound', numbers⟩ := h.bound
  rw [Option.some.inj (bound.symm.trans bound'), numbers.single] at continuous
  cases continuous

/-- What is left of an attempt replaces whom it replaced, and has offers only from a stream. -/
theorem Turn.keeps_alone {a b : Attempt ε V} {left : Option (Attempt ε V)} (t : Turn w a w' left)
    (single : ¬ w.cache.dispatcher.IsStreaming) (hleft : left = some b) :
    b.supersedes = a.supersedes ∧ b.offers = a.offers := by
  cases t with
  | opened _ _ bound continuous => exact absurd ⟨_, bound, continuous⟩ single
  | unbound | finished | died | ended => cases hleft
  | rest | wait | refused | called | asked | came | ignored | stored | discarded | failed | resumed =>
      cases hleft
      exact ⟨rfl, rfl⟩

theorem OneShot.touch (h : OneShot number w) {c : Cache ε V} (t : Cache.Touch w.cache w.now c) :
    c.dispatcher.stream = none
      ∧ ∀ a ∈ c.dispatcher.running, a.supersedes = none ∧ a.offers = none := by
  refine ⟨?_, fun a ha => ?_⟩
  · rcases t.dispatcher_cases with same | ⟨_, ⟨n, started, _⟩ | ⟨overflowed, _⟩⟩
    · rw [same]
      exact h.stream
    · obtain ⟨source, bound, stream⟩ := started.stream
      rw [stream, if_neg fun continuous => h.single ⟨source, bound, continuous⟩]
    · exact overflowed.stream
  · rcases mem_touch t ha with old | rfl
    · exact h.alone a old
    · refine ⟨?_, rfl⟩
      -- it would replace the stream
      show w.cache.dispatcher.unansweredStream = none
      rw [Dispatcher.unansweredStream, h.stream]
      split <;> rfl

/-- **An ordinary move leaves the source a source of single values.** -/
theorem OneShot.apply (h : OneShot number w) (reachable : Reachable w) (ordinary : m.isOrdinary = true) :
    OneShot number (w.apply m) := by
  have bound : (w.apply m).cache.dispatcher.binding = w.cache.dispatcher.binding :=
    (apply_step w m).binding reachable.ordered fun source own => by rw [own] at ordinary; cases ordinary
  have owned : (w.apply m).hasOwner = w.hasOwner :=
    (apply_step w m).hasOwner fun own => by rw [own] at ordinary; cases ordinary
  suffices kept : (w.apply m).cache.dispatcher.stream = none
      ∧ ∀ a ∈ (w.apply m).cache.dispatcher.running, a.supersedes = none ∧ a.offers = none from
    ⟨bound ▸ h.bound, owned.trans h.owned, kept.1, kept.2⟩
  have s := apply_step w m
  generalize w.apply m = w' at s ⊢
  cases s with
  | aside ha | invalidate ha | poke ha | dropReader ha =>
      have same := ha.dispatcher
      exact ⟨(congrArg Dispatcher.stream same).trans h.stream,
        fun a listed => h.alone a (congrArg Dispatcher.running same ▸ listed)⟩
  | pass | bind | openReader | follow => exact ⟨h.stream, h.alone⟩
  | subscribe => exact h.touch (Cache.subscribe_touch w.cache w.now)
  | reader _ _ ha =>
      rw [ha.dispatcher]
      exact h.touch (Reader.step_stepped _ _ _).touch
  | @attempt a left _ own running t =>
      have ha := (Dispatcher.attempt?_mem running).1
      refine ⟨(t.progressed reachable.ordered.dispatcher ha).kept.stream.trans h.stream, fun b hb => ?_⟩
      rcases t.mem_running hb with old | hleft
      · exact h.alone b old
      · obtain ⟨supersedes, offers⟩ := t.keeps_alone h.single hleft
        exact ⟨supersedes.trans (h.alone a ha).1, offers.trans (h.alone a ha).2⟩

/-- Nobody gets beyond its first item, unless the source offers sequences. -/
theorem Ordered.first (ordered : Ordered w) (single : ¬ w.cache.dispatcher.IsStreaming) {a : Attempt ε V}
    (ha : a ∈ w.cache.dispatcher.running) : a.item = 0 ∧ a.isResuming = false := by
  have fits := ordered.dispatcher.fits a ha
  have unoffered (goesOn : a.item ≠ 0 ∨ a.isResuming = true) (executes : a.isExecuting = true) : False :=
    single ((fits.executes executes).streaming ((fits.executes executes).offers goesOn))
  by_cases executes : a.isExecuting = true
  · refine ⟨?_, ?_⟩
    · by_cases item : a.item = 0
      · exact item
      · exact (unoffered (Or.inl item) executes).elim
    · by_cases resuming : a.isResuming = true
      · exact (unoffered (Or.inr resuming) executes).elim
      · simpa using resuming
  · refine ⟨(fits.queues (by simpa using executes)).fresh.1, ?_⟩
    unfold Attempt.isExecuting at executes
    unfold Attempt.isResuming
    split
    next answering => simp [answering] at executes
    next => rfl

theorem OneShot.first (h : OneShot number w) (reachable : Reachable w) {a : Attempt ε V}
    (ha : a ∈ w.cache.dispatcher.running) : a.item = 0 ∧ a.isResuming = false :=
  reachable.ordered.first h.single ha

/-! ## §4. Launches, calls and reports. -/

end World

/-- Whether the attempt has turned to the source, and has not reported yet. -/
def Attempt.isUnreported (a : Attempt ε V) : Bool := a.isExecuting && !a.isAnswering

namespace World

variable {number : V → Nat} {w w' : World ε V} {m : Move ε V}

/-- The attempts that were launched and have not turned to the source yet. -/
def heldUp (w : World ε V) : List (Attempt ε V) := w.cache.dispatcher.running.filter (!·.isExecuting)

/-- How many attempts have turned to the source, and have not reported yet. -/
def unreported (w : World ε V) : Nat := w.cache.dispatcher.running.countP Attempt.isUnreported

theorem heldUp_length (w : World ε V) :
    w.heldUp.length = w.cache.dispatcher.running.countP (!·.isExecuting) :=
  List.countP_eq_length_filter.symm

/-- The counters of the cell agree with the calls of the source. -/
structure Account (w : World ε V) : Prop where
  /-- Whoever was launched is held up, or has called. -/
  launched : w.cache.cell.counters.fetches = w.calls.length + w.heldUp.length
  /-- Whoever has reported has called, and so has whoever is about to. -/
  reported : w.cache.cell.counters.outcomes + w.unreported ≤ w.calls.length

theorem Account.same (h : Account w) (running : w'.cache.dispatcher.running = w.cache.dispatcher.running)
    (calls : w'.calls = w.calls)
    (fetches : w'.cache.cell.counters.fetches = w.cache.cell.counters.fetches)
    (outcomes : w'.cache.cell.counters.outcomes = w.cache.cell.counters.outcomes) : Account w' where
  launched := by
    rw [fetches, calls, heldUp, running]
    exact h.launched
  reported := by
    rw [outcomes, calls, unreported, running]
    exact h.reported

/-- A launch is counted, and held up at first. -/
theorem Account.billed (h : Account w) {c : Cache ε V} {fresh : Option (Attempt ε V)}
    (b : Cache.Billed w.cache w.now fresh c) (stream : w.cache.dispatcher.stream = none)
    (cell : w'.cache.cell = c.cell)
    (dispatcher : w'.cache.dispatcher = c.dispatcher) (calls : w'.calls = w.calls) : Account w' := by
  have launched := h.launched
  have reported := h.reported
  have counted (p : Attempt ε V → Bool) : w'.cache.dispatcher.running.countP p
      = w.cache.dispatcher.running.countP p + fresh.toList.countP p := by
    obtain ⟨kept, same, running⟩ := b.running
    have stays : kept = w.cache.dispatcher.running :=
      same.elim id fun cleared => cleared.trans (Cache.running_clear stream)
    rw [dispatcher, running, stays, List.countP_append]
  -- an attempt that was just launched waits
  have waiting : fresh.toList.countP (!·.isExecuting) = fresh.toList.length
      ∧ fresh.toList.countP Attempt.isUnreported = 0 := by
    cases fresh with
    | none => exact ⟨rfl, rfl⟩
    | some a =>
        rw [b.newest a rfl]
        exact ⟨rfl, rfl⟩
  refine ⟨?_, ?_⟩
  · rw [heldUp_length] at launched ⊢
    rw [cell, b.fetches, calls, counted, waiting.1]
    omega
  · unfold unreported at reported ⊢
    rw [cell, b.outcomes, calls, counted, waiting.2]
    exact reported

/-- Whoever turns to the source calls it. -/
theorem OneShot.unrefused (h : OneShot number w) {a : Attempt ε V} (queued : a.progress = .queued)
    (owner : String) : w.gives a ≠ some (.ownerGone owner) := by
  obtain ⟨source, bound, _⟩ := h.bound
  unfold World.gives
  rw [queued, bound, h.owned]
  simp only [if_true]
  split
  · split <;> exact fun given => nomatch given
  · exact fun given => nomatch given

/-- What a step of an attempt adds to the calls and to the reports that were taken in, together with what it
makes of the attempt itself: one that was held up and calls is not held up any more, and one that reports is
not unreported any more. -/
theorem Turn.account {a : Attempt ε V} {left : Option (Attempt ε V)} (t : Turn w a w' left)
    (single : OneShot number w) (unresumed : a.isResuming = false) :
    w'.cache.cell.counters.fetches = w.cache.cell.counters.fetches
      ∧ w.calls.length + [a].countP (!·.isExecuting)
        = w'.calls.length + left.toList.countP (!·.isExecuting)
      ∧ w'.cache.cell.counters.outcomes + left.toList.countP Attempt.isUnreported + w.calls.length
        ≤ w.cache.cell.counters.outcomes + [a].countP Attempt.isUnreported + w'.calls.length := by
  obtain ⟨n, delay, predecessor, supersedes, offers, item, progress⟩ := a
  cases t with
  | rest => exact ⟨rfl, rfl, Nat.le_refl _⟩
  | wait waiting hp =>
      -- whoever waits on owes its call before and after, and has nothing to report yet
      cases progress with
      | launched | heldBack | queued =>
          rcases hp with rfl | ⟨t, rfl⟩ <;> exact ⟨rfl, rfl, Nat.le_refl _⟩
      | asking | producing | reporting | answering | stuck => cases waiting
  | unbound _ absent =>
      obtain ⟨source, bound, _⟩ := single.bound
      rw [absent] at bound
      cases bound
  | refused queued _ owner gives => exact absurd gives (single.unrefused queued owner)
  | opened _ _ bound continuous => exact absurd ⟨_, bound, continuous⟩ single.single
  | called queued ready hp =>
      cases queued
      have owes (outcomes calls : Nat) : outcomes + 1 + calls ≤ outcomes + 0 + (calls + 1) := by omega
      rcases hp with rfl | ⟨due, outcome, rfl⟩ <;> exact ⟨rfl, rfl, owes _ _⟩
  | asked asking hp =>
      cases asking
      rcases hp with ⟨due, outcome, rfl⟩ | rfl | ⟨rfl, _⟩ <;> exact ⟨rfl, rfl, Nat.le_refl _⟩
  | came producing =>
      cases producing
      exact ⟨rfl, rfl, Nat.le_refl _⟩
  | finished unreported | died unreported | ignored unreported =>
      cases unreported
      have spared (outcomes calls : Nat) : outcomes + 0 + calls ≤ outcomes + 1 + calls := by omega
      exact ⟨rfl, rfl, spared _ _⟩
  | stored reporting | discarded reporting =>
      cases reporting
      have counted (successes failures calls : Nat) :
          successes + 1 + failures + 0 + calls ≤ successes + failures + 1 + calls := by omega
      exact ⟨rfl, rfl, counted _ _ _⟩
  | failed reporting =>
      cases reporting
      have counted (successes failures calls : Nat) :
          successes + (failures + 1) + 0 + calls ≤ successes + failures + 1 + calls := by omega
      exact ⟨rfl, rfl, counted _ _ _⟩
  | resumed answering =>
      cases answering
      cases unresumed
  | ended answering =>
      cases answering
      exact ⟨rfl, rfl, Nat.le_refl _⟩

/-- **An ordinary move keeps the counters and the calls in agreement.** -/
theorem Account.apply (h : Account w) (single : OneShot number w) (reachable : Reachable w)
    (m : Move ε V) : Account (w.apply m) := by
  have s := apply_step w m
  generalize w.apply m = w' at s ⊢
  cases s with
  | aside ha | dropReader ha =>
      exact h.same (congrArg Dispatcher.running ha.dispatcher) ha.calls
        (congrArg (·.counters.fetches) ha.cell) (congrArg (·.counters.outcomes) ha.cell)
  | @invalidate asided ha | @poke asided ha =>
      have cell : asided.cache.cell = w.cache.cell := ha.cell
      exact h.same (congrArg Dispatcher.running ha.dispatcher) ha.calls
        (congrArg (·.counters.fetches) cell) (congrArg (·.counters.outcomes) cell)
  | pass | bind | openReader | follow => exact h.same rfl rfl rfl rfl
  | subscribe =>
      obtain ⟨fresh, billed⟩ := w.cache.subscribe_billed w.now
      exact h.billed billed single.stream rfl rfl rfl
  | @reader seat _ own seated ha =>
      obtain ⟨fresh, billed⟩ := seat.reader.step_billed w.cache w.now
      exact h.billed billed single.stream ha.cell ha.dispatcher ha.calls
  | @attempt a left _ own running t =>
      have ha := (Dispatcher.attempt?_mem running).1
      have counted (p : Attempt ε V → Bool) := t.countP (p := p) reachable.ordered.dispatcher ha
        fun _ _ b _ replaced => by rw [(single.alone a ha).1] at replaced; cases replaced
      obtain ⟨fetches, calls, reports⟩ := t.account single (single.first reachable ha).2
      have launched := h.launched
      have reported := h.reported
      refine ⟨?_, ?_⟩
      · have moved := counted (!·.isExecuting)
        rw [heldUp_length] at launched ⊢
        omega
      · have moved := counted Attempt.isUnreported
        unfold unreported at reported ⊢
        omega

/-- The attempt waits for the end of its delay, or for the answer of the attempt before it. -/
def AwaitsTurn (w : World ε V) (a : Attempt ε V) : Prop :=
  (∃ resume, a.progress = .heldBack resume ∧ w.now < resume)
    ∨ (a.progress = .queued ∧ ∃ n, a.predecessor = some n ∧ w.cache.dispatcher.hasAnswered n = false)

/-- In a settled world whoever is held up waits for its turn. -/
theorem IsSettled.awaitsTurn (settled : w.IsSettled) (ordered : Ordered w) {a : Attempt ε V}
    (held : a ∈ w.heldUp) : w.AwaitsTurn a := by
  obtain ⟨listed, waiting⟩ := List.mem_filter.mp held
  have idle := settled.attempt ordered listed
  unfold canStep at idle
  cases hp : a.progress with
  | launched =>
      rw [hp] at idle
      cases idle
  | heldBack resume =>
      rw [hp] at idle
      exact Or.inl ⟨resume, hp, Int.not_le.mp (of_decide_eq_false idle)⟩
  | queued =>
      rw [hp] at idle
      refine Or.inr ⟨hp, ?_⟩
      cases first : a.predecessor with
      | none => simp [first] at idle
      | some n => exact ⟨n, rfl, by simpa [first] using idle⟩
  | asking | producing | reporting | answering | stuck => simp [Attempt.isExecuting, hp] at waiting

/-! ## §5. Which call a value comes from. -/

/-- The call number `k` of the source was made by the attempt `n`; calls are numbered from 1. -/
def IsCall (w : World ε V) (k n : Nat) : Prop :=
  ∃ time earlier, (n, time) :: earlier <:+ w.calls ∧ k = earlier.length + 1

theorem IsCall.le {k n : Nat} (h : w.IsCall k n) : k ≤ w.calls.length := by
  obtain ⟨time, earlier, suffix, rfl⟩ := h
  exact suffix.length_le

theorem Step.calls_suffix (s : Step w m w') : w.calls <:+ w'.calls := by
  rcases s.calls_cases with same | ⟨a, _, _, called⟩
  · exact ⟨[], same.symm⟩
  · exact ⟨[_], called.symm⟩

theorem calls_suffix_run (w : World ε V) (moves : List (Move ε V)) : w.calls <:+ (w.run moves).calls := by
  induction moves generalizing w with
  | nil => exact List.suffix_rfl
  | cons m moves ih => exact (apply_step w m).calls_suffix.trans (ih (w.apply m))

theorem IsCall.step {k n : Nat} (h : w.IsCall k n) (s : Step w m w') : w'.IsCall k n := by
  obtain ⟨time, earlier, suffix, number⟩ := h
  exact ⟨time, earlier, suffix.trans s.calls_suffix, number⟩

theorem IsCall.run {k n : Nat} (h : w.IsCall k n) (moves : List (Move ε V)) : (w.run moves).IsCall k n := by
  induction moves generalizing w with
  | nil => exact h
  | cons m moves ih => exact ih (h.step (apply_step w m))

/-- **Later attempts make later calls.** -/
theorem IsCall.lt (ordered : Ordered w) {k n k' n' : Nat} (h : w.IsCall k n) (h' : w.IsCall k' n')
    (later : n < n') : k < k' := by
  obtain ⟨time, earlier, suffix, rfl⟩ := h
  obtain ⟨time', earlier', suffix', rfl⟩ := h'
  refine Nat.lt_of_not_le fun le => ?_
  -- otherwise the later attempt had called when the earlier one did
  have within := List.suffix_of_suffix_length_le suffix' suffix (by simpa using le)
  have inOrder : ((n, time) :: earlier).Pairwise (·.1 > ·.1) :=
    (List.pairwise_map.mp ordered.inOrder).sublist suffix.sublist
  rcases List.mem_cons.mp (within.subset List.mem_cons_self) with same | before
  · cases same
    exact absurd later (Nat.lt_irrefl _)
  · exact absurd ((List.pairwise_cons.mp inOrder).1 _ before) (Nat.not_lt_of_gt later)

/-- What the attempt is given, and what it is about to report, bears the number of its call. -/
def Bears (number : V → Nat) (w : World ε V) (a : Attempt ε V) : Prop :=
  match a.progress with
  | .producing _ outcome => ∃ k, w.IsCall k a.number
      ∧ ∀ surroundings now v, outcome surroundings now = .value v → number v = k
  | .reporting (.ok content) => w.IsCall (number content.value) a.number
  | _ => True

theorem Bears.step {a : Attempt ε V} (h : w.Bears number a) (s : Step w m w') : w'.Bears number a := by
  unfold Bears at h ⊢
  split
  next producing =>
    rw [producing] at h
    obtain ⟨k, called, numbers⟩ := h
    exact ⟨k, called.step s, numbers⟩
  next reporting =>
    rw [reporting] at h
    exact IsCall.step h s
  next => trivial

/-- Whoever waits has not been given anything. -/
theorem bears_of_waiting {a : Attempt ε V} (waiting : a.isExecuting = false) : w.Bears number a := by
  unfold Bears
  unfold Attempt.isExecuting at waiting
  split <;> simp_all

/-- **Whoever calls the source is given what bears the number of this call.** -/
theorem OneShot.bears_called (h : OneShot number w) {a : Attempt ε V} (alone : a.supersedes = none) :
    ∃ p, w.callSource a = (w.noteCall a).advanceTo a p
      ∧ (w.callSource a).Bears number { a with progress := p } := by
  obtain ⟨source, bound, call, shape, numbers⟩ := h.bound
  -- with this call there is one more than before
  have newest (p : Attempt.Progress ε V) :
      ((w.noteCall a).advanceTo a p).IsCall (w.calls.length + 1) a.number :=
    ⟨w.now, w.calls, List.suffix_refl _, rfl⟩
  have calls : w.callSource a = (w.noteCall a).advanceTo a ((call (w.calls.length + 1)).elim
      (.reporting (.error (a.failure Failure.crashReason)))
      fun p => .producing (w.now + p.delay) p.outcome) := by
    have replaced : w.withDispatcher (·.dismiss a.supersedes) = w := by rw [alone]; rfl
    unfold callSource
    simp only [replaced, bound, h.owned, if_true, shape]
    have counted : (w.noteCall a).calls.length = w.calls.length + 1 := rfl
    rw [counted]
    cases call (w.calls.length + 1) <;> rfl
  cases made : call (w.calls.length + 1) with
  | none =>
      rw [made] at calls
      exact ⟨_, calls, trivial⟩
  | some p =>
      rw [made] at calls
      refine ⟨_, calls, _, ?_, numbers _ p made⟩
      rw [calls]
      exact newest _

/-- A production that came out bears the number of its call. -/
theorem Bears.came {a : Attempt ε V} (bears : w.Bears number a) {due : Instant}
    {outcome : ε → Instant → Outcome V} (producing : a.progress = .producing due outcome)
    {y : Yield V} (given : w.gives a = some y) {content : Sourced V}
    (report : y.report a.number a.item = .ok content) : w.IsCall (number content.value) a.number := by
  unfold Bears at bears
  rw [producing] at bears
  obtain ⟨k, called, numbers⟩ := bears
  unfold World.gives at given
  rw [producing] at given
  split at given
  next =>
    cases given
    -- only a value is reported as one
    cases came : outcome w.surroundings w.now with
    | value v =>
        rw [came] at report
        cases report
        rw [numbers _ _ v came]
        exact called
    | failed | crashed | uncopyable =>
        rw [came] at report
        cases report
  next => cases given

/-- What is left of an attempt bears the number of its call. -/
theorem OneShot.bears_turn (h : OneShot number w) (reachable : Reachable w) {a b : Attempt ε V}
    {left : Option (Attempt ε V)} (running : w.cache.dispatcher.attempt? a.number = some a)
    (t : Turn w a (w.apply (.attempt a.number)) left) (hleft : left = some b)
    (bears : w.Bears number a) : (w.apply (.attempt a.number)).Bears number b := by
  obtain ⟨ha, _⟩ := Dispatcher.attempt?_mem running
  obtain ⟨alone, unoffered⟩ := h.alone a ha
  have s := apply_step w (.attempt a.number)
  have reached := reachable.move (.attempt a.number)
  generalize after : w.apply (.attempt a.number) = w' at t s reached ⊢
  cases t with
  | @called p queued ready hp =>
      cases hleft
      obtain ⟨p', called, numbered⟩ := h.bears_called alone
      rw [(apply_queued running queued ready).symm.trans after] at called numbered
      have listed {d : Dispatcher ε V} (old : a ∈ d.running) (p : Attempt.Progress ε V) :
          { a with progress := p } ∈ (d.update { a with progress := p }).running :=
        Dispatcher.mem_update_iff.mpr (Or.inr ⟨rfl, a, old, rfl⟩)
      have told : { a with progress := p' } = { a with progress := p } := by
        refine reached.ordered.dispatcher.eq_of_number ?_ ?_ rfl
        · rw [called]
          exact listed ha p'
        · exact listed (Dispatcher.mem_dismiss_iff.mpr ⟨ha, by simp [alone]⟩) p
      rwa [told] at numbered
  | rest =>
      cases hleft
      exact bears
  | wait waiting hp =>
      cases hleft
      refine bears_of_waiting ?_
      rcases hp with rfl | ⟨t, rfl⟩ <;> rfl
  | refused queued _ owner gives => exact absurd gives (h.unrefused queued owner)
  | opened _ _ bound continuous => exact absurd ⟨_, bound, continuous⟩ h.single
  | asked asking hp gives =>
      cases hleft
      -- there are no offers to ask for
      have exhausted : w.gives a = some .exhausted := by simp [World.gives, canStep, asking, unoffered]
      rcases hp with ⟨due, outcome, rfl⟩ | rfl | ⟨rfl, _⟩
      · cases exhausted.symm.trans gives
      · exact trivial
      · exact trivial
  | @came due outcome report producing _ gives =>
      cases hleft
      obtain ⟨y, given, same⟩ := gives
      cases report with
      | error => exact trivial
      | ok content => exact (bears.came producing given same).step s
  | ignored | stored | discarded | failed | resumed =>
      cases hleft
      exact trivial
  | unbound | finished | died | ended => cases hleft

/-- What the attempts are given and what is held bears the number of the call that it comes from. -/
structure Numbered (number : V → Nat) (w : World ε V) : Prop where
  running : ∀ a ∈ w.cache.dispatcher.running, w.Bears number a
  held : ∀ content, w.cache.cell.phase = .holding (.concealed content) →
    w.IsCall (number content.value) content.origin.attempt ∧ content.origin.item = 0

/-- A value that is about to be reported bears the number of the call of its attempt. -/
theorem Numbered.reports (h : Numbered number w) (single : OneShot number w) (reachable : Reachable w)
    {a : Attempt ε V} (ha : a ∈ w.cache.dispatcher.running) {content : Sourced V}
    (reporting : a.progress = .reporting (.ok content)) :
    w.IsCall (number content.value) content.origin.attempt ∧ content.origin.item = 0 := by
  have bears := h.running a ha
  unfold Bears at bears
  rw [reporting] at bears
  rw [(reachable.filed.reports ha reporting).1]
  exact ⟨bears, (single.first reachable ha).1⟩

/-- **An ordinary move keeps the numbers.** -/
theorem Numbered.apply (h : Numbered number w) (single : OneShot number w) (reachable : Reachable w)
    (m : Move ε V) : Numbered number (w.apply m) := by
  have s := apply_step w m
  refine ⟨fun b hb => ?_, fun content holding => ?_⟩
  · have old (hb : b ∈ w.cache.dispatcher.running) : (w.apply m).Bears number b := (h.running b hb).step s
    rcases s.mem_cases hb with listed | rfl | own
    · exact old listed
    · exact bears_of_waiting rfl
    · subst own
      have step : w.apply (.attempt b.number) = w.advanceAttempt b.number := rfl
      unfold advanceAttempt at step
      split at step
      next a running =>
        obtain ⟨ha, same⟩ := Dispatcher.attempt?_mem running
        obtain ⟨left, t⟩ := stepAttempt_turn w a
        rw [← step, ← same] at t
        rcases t.mem_running (same ▸ hb) with listed | hleft
        · exact old listed
        · exact same ▸ single.bears_turn reachable (same ▸ running) t hleft (h.running a ha)
      next => exact old (step ▸ hb)
  · by_cases raised : (w.apply m).cache.cell.revision = w.cache.cell.revision
    · rcases s.holding_cases holding with ⟨before, _⟩ | rise
      · exact (h.held content before).imp_left fun called => called.step s
      · omega
    · obtain ⟨a, ha, content', reporting, _, held, _⟩ := s.raised raised
      cases holding.symm.trans held
      exact (h.reports single reachable ha reporting).imp_left fun called => called.step s

/-! ## §6. The ledger. -/

/-- The counters, the calls, the numbers and the book of a world agree. -/
structure Ledger (number : V → Nat) (w : World ε V) : Prop
    extends OneShot number w, Account w, Numbered number w where
  /-- The book knows of a success exactly if a value was stored. -/
  dated : w.cache.staleness.lastSuccess.isSome = true ↔ w.cache.cell.revision ≠ 0

/-- The ledger is in order once such a source is bound. -/
theorem Initial.ledger {w₀ : World ε V} (initial : Initial w₀) {source : Source ε V}
    (numbers : source.Numbers number) : Ledger number (w₀.apply (.bind source)) := by
  cases initial with
  | selfRefreshing | bare =>
      exact ⟨⟨⟨source, rfl, numbers⟩, rfl, rfl, fun a ha => nomatch ha⟩, ⟨rfl, Nat.le_refl _⟩,
        ⟨fun a ha => (nomatch ha), fun content holding => nomatch holding⟩,
        ⟨fun dated => (nomatch dated), fun raised => absurd rfl raised⟩⟩

/-- **An ordinary move leaves the ledger in order.** -/
theorem Ledger.apply (h : Ledger number w) (reachable : Reachable w) (ordinary : m.isOrdinary = true) :
    Ledger number (w.apply m) := by
  refine ⟨h.toOneShot.apply reachable ordinary, h.toAccount.apply h.toOneShot reachable m,
    h.toNumbered.apply h.toOneShot reachable m, ?_⟩
  have unrecorded : m ≠ .recordSuccess := fun own => by rw [own] at ordinary; cases ordinary
  by_cases same : (w.apply m).cache.cell.revision = w.cache.cell.revision
  · rw [(apply_continues unrecorded same).lastSuccess, same]
    exact h.dated
  · obtain ⟨_, _, _, _, _, _, raised, recorded⟩ := (apply_step w m).raised same
    rw [recorded, raised, (Staleness.recordSuccess_frame _ _).2.1]
    exact iff_of_true rfl (Nat.succ_ne_zero _)

/-- **The ledger is in order after every run.** -/
theorem Ledger.run (h : Ledger number w) (reachable : Reachable w) {moves : List (Move ε V)}
    (ordinary : ∀ m ∈ moves, m.isOrdinary = true) : Ledger number (w.run moves) := by
  induction moves generalizing w with
  | nil => exact h
  | cons m moves ih =>
      exact ih (h.apply reachable (ordinary m List.mem_cons_self)) (reachable.move m)
        fun m' later => ordinary m' (List.mem_cons_of_mem _ later)

/-- What was stored in a run bears the number of the call that it comes from. -/
theorem Ledger.numbered_stores (h : Ledger number w) (reachable : Reachable w) {moves : List (Move ε V)}
    (ordinary : ∀ m ∈ moves, m.isOrdinary = true) :
    ∀ content ∈ w.stores moves, (w.run moves).IsCall (number content.value) content.origin.attempt
      ∧ content.origin.item = 0 := by
  induction moves generalizing w with
  | nil => exact fun content stored => nomatch stored
  | cons m moves ih =>
      have next := h.apply reachable (ordinary m List.mem_cons_self)
      intro content stored
      rcases List.mem_append.mp stored with now | later
      · have holding := (stored?_eq_some (Option.mem_toList.mp now)).2
        exact (next.held content holding).imp_left fun called => called.run moves
      · exact ih next (reachable.move m) (fun m' later => ordinary m' (List.mem_cons_of_mem _ later))
          content later

/-- **The numbers of the values that are stored one after another increase.** -/
theorem Ledger.stores_increase (h : Ledger number w) (reachable : Reachable w) {moves : List (Move ε V)}
    (ordinary : ∀ m ∈ moves, m.isOrdinary = true) :
    ((w.stores moves).map fun content => number content.value).Pairwise (· < ·) := by
  have numbered := h.numbered_stores reachable ordinary
  refine List.pairwise_map.mpr ((reachable.stores_increase moves).imp_of_mem ?_)
  intro content content' stored stored' earlier
  obtain ⟨called, first⟩ := numbered content stored
  obtain ⟨called', first'⟩ := numbered content' stored'
  refine called.lt (reachable.run moves).ordered called' ?_
  -- both are first items, so a later origin is of a later attempt
  rw [Origin.lt_iff, first, first'] at earlier
  exact earlier.resolve_right fun same => Nat.lt_irrefl _ same.2

/-- What is held after a run was the last to be stored in it, unless it was held before. -/
theorem held_last_stored {moves : List (Move ε V)} {content : Sourced V}
    (holding : (w.run moves).cache.cell.phase = .holding (.concealed content)) :
    (w.stores moves).getLast? = some content
      ∨ (w.stores moves = [] ∧ w.cache.cell.phase = .holding (.concealed content)) := by
  induction moves generalizing w with
  | nil => exact Or.inr ⟨rfl, holding⟩
  | cons m moves ih =>
      have stores : w.stores (m :: moves) = (w.stored? m).toList ++ (w.apply m).stores moves := rfl
      rw [stores, List.getLast?_append]
      rcases ih holding with last | ⟨nothing, held⟩
      · rw [last]
        exact Or.inl rfl
      · rw [nothing]
        by_cases same : (w.apply m).cache.cell.revision = w.cache.cell.revision
        · rcases (apply_step w m).holding_cases held with ⟨before, _⟩ | raised
          · rw [stored?, if_pos same]
            exact Or.inr ⟨rfl, before⟩
          · omega
        · rw [stored?, if_neg same, held]
          exact Or.inl rfl

end World

end SingleFlight
