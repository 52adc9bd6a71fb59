/-
  SingleFlight.Proofs.Succession — the attempts of a world come one after another.

  The order of the dispatcher's attempts outlasts every move of a world,
  whoever makes it and in whatever order.  With it the calls of the source
  come one after another: an attempt calls only when everybody before it has
  answered, and whoever has called is either done or the oldest on the list.

  Main results:
    * `Reachable.ordered` — every reachable world is in order.
    * `Ordered.executing_length` — at most one attempt that has called executes.
    * `Ordered.answered_of_call` — everybody before has answered when one calls.
-/
import SingleFlight.Proofs.Order
import SingleFlight.Proofs.Step

namespace SingleFlight

variable {ε V : Type}

open Dispatcher (Orderly Progressed Kept Jammed Begun)

namespace World

/-! ## §1. Steps keep the order. -/

/-- The attempts that have called the source, newest first. -/
def called (w : World ε V) : List Nat := w.calls.map (·.1)

theorem called_eq {w w' : World ε V} (calls : w'.calls = w.calls) : w'.called = w.called := by
  unfold called
  rw [calls]

/-- The world is in order: its attempts are, and so are the calls of the source. -/
structure Ordered (w : World ε V) : Prop where
  named : w.now < Instant.horizon
  dispatcher : Orderly w.now w.cache.dispatcher
  begun : ∀ n ∈ w.called, Begun w.cache.dispatcher n
  inOrder : w.called.Pairwise (· > ·)

/-- An attempt leaves the clock alone. -/
theorem Turn.now {w w' : World ε V} {a : Attempt ε V} {left : Option (Attempt ε V)}
    (t : Turn w a w' left) : w'.now = w.now := by
  cases t <;> rfl

/-- The clock never goes back. -/
theorem Step.now_le {w w' : World ε V} {m : Move ε V} (s : Step w m w') : w.now ≤ w'.now := by
  cases s with
  | aside ha | invalidate ha | poke ha | dropReader ha => exact Int.le_of_eq ha.now.symm
  | reader _ _ ha => exact Int.le_of_eq ha.now.symm
  | pass since => exact since
  | bind | subscribe | openReader | follow => exact Int.le_refl _
  | attempt own running t => exact Int.le_of_eq t.now.symm

/-- An answering attempt goes on exactly if it was told to. -/
theorem isSome_of_isResuming {a : Attempt ε V} {answer : Answer V} {continues : Bool}
    (h : { a with progress := .answering answer continues }.isResuming = true) :
    continues = true := by
  cases continues with
  | true => rfl
  | false => cases h

/-- **A step of an attempt keeps the order.** -/
theorem Turn.progressed {w w' : World ε V} {a : Attempt ε V} {left : Option (Attempt ε V)}
    (t : Turn w a w' left)
    (h : Orderly w.now w.cache.dispatcher) (ha : a ∈ w.cache.dispatcher.running) :
    Progressed w.now w.cache.dispatcher w'.cache.dispatcher := by
  have fits := h.fits a ha
  -- a queued attempt has no offers yet
  have unoffered (queued : a.progress = .queued) : a.offers.isSome = true
      → w.cache.dispatcher.IsStreaming := by
    rw [(fits.queues (by simp [Attempt.isExecuting, queued])).fresh.2]
    intro some
    cases some
  cases t with
  | rest => exact ⟨.refl _, h⟩
  | wait waiting hp =>
      rcases hp with rfl | ⟨t, rfl⟩
      · exact h.waited ha waiting rfl
      · exact h.waited ha waiting rfl
  | unbound queued hb =>
      -- who is on the list was launched, and then a source was bound
      have bound := (h.bound_of_mem ha).2
      rw [hb] at bound
      cases bound
  | refused queued ready owner =>
      exact h.turned ha (by simp [Attempt.isExecuting, queued]) ready (unoffered queued) rfl rfl
  | called queued ready hp =>
      have waiting : a.isExecuting = false := by simp [Attempt.isExecuting, queued]
      rcases hp with rfl | ⟨due, outcome, rfl⟩
      · exact h.turned ha waiting ready (unoffered queued) rfl rfl
      · exact h.turned ha waiting ready (unoffered queued) rfl rfl
  | opened queued ready bound continuous =>
      exact h.turned ha (by simp [Attempt.isExecuting, queued]) ready
        (fun _ => ⟨_, bound, continuous⟩) rfl rfl
  | asked asking hp =>
      have executing : a.isExecuting = true := by simp [Attempt.isExecuting, asking]
      rcases hp with ⟨due, outcome, rfl⟩ | rfl | ⟨rfl, _⟩
      · exact h.advanced ha executing rfl (fun resuming => by cases resuming)
      · exact h.advanced ha executing rfl (fun resuming => by cases resuming)
      · exact h.advanced ha executing rfl (fun resuming => by cases resuming)
  | finished asking hitem =>
      -- it has delivered, so it has answered
      have executing : a.isExecuting = true := by simp [Attempt.isExecuting, asking]
      exact h.retire ((fits.executes executing).delivered.mpr hitem)
  | came producing hr =>
      exact h.advanced ha (by simp [Attempt.isExecuting, producing]) rfl
        (fun resuming => by cases resuming)
  | died producing => exact h.lose ha (by simp [Attempt.isExecuting, producing])
  | ignored reporting hi =>
      exact h.advanced ha (by simp [Attempt.isExecuting, reporting]) rfl
        (fun resuming => by cases resuming)
  | stored reporting alive latest hk =>
      exact h.advanced ha (by simp [Attempt.isExecuting, reporting]) rfl
        (fun resuming => ⟨isSome_of_isResuming resuming, latest.symm⟩)
  | discarded reporting alive latest hk =>
      exact h.advanced ha (by simp [Attempt.isExecuting, reporting]) rfl
        (fun resuming => ⟨isSome_of_isResuming resuming, latest.symm⟩)
  | failed reporting alive latest =>
      exact h.advanced ha (by simp [Attempt.isExecuting, reporting]) rfl
        (fun resuming => by cases resuming)
  | resumed answering =>
      exact h.resumed ha (by simp [Attempt.isResuming, answering])
        (by simp [Attempt.isExecuting, answering]) _
  | ended answering =>
      exact h.ended ha (by simp [Attempt.isExecuting, answering]) _

/-- A reader's step keeps the order, whether it launches or not. -/
theorem orderly_touch {c c' : Cache ε V} {now : Instant} (t : Cache.Touch c now c')
    (h : Orderly now c.dispatcher) (named : now < Instant.horizon) :
    Orderly now c'.dispatcher ∧ ∀ n, Begun c.dispatcher n → Begun c'.dispatcher n := by
  rcases t.dispatcher_cases with same | ⟨_, ⟨n, started, _⟩ | ⟨overflowed, _⟩⟩
  · rw [same]
    exact ⟨h, fun _ => id⟩
  · exact ⟨h.started named started, fun _ => h.begun_renewed started.toRenewed⟩
  · exact ⟨h.overflow named overflowed, fun _ => h.begun_renewed overflowed.toRenewed⟩

/-- Whoever is on the list after a section of a reader was on it before, or was launched with it. -/
theorem mem_touch {c c' : Cache ε V} {now : Instant} (t : Cache.Touch c now c') {b : Attempt ε V}
    (hb : b ∈ c'.dispatcher.running) :
    b ∈ c.dispatcher.running ∨ b = c.dispatcher.newest now := by
  rcases t.renewed with same | ⟨fresh, renewed, newest⟩
  · exact Or.inl (same ▸ hb)
  · rcases renewed.mem hb with spared | launched
    · exact Or.inl (Dispatcher.mem_clear_iff.mp spared).1
    · exact Or.inr (newest b launched)

/-- A section of a reader answers nobody. -/
theorem answer?_touch {c c' : Cache ε V} {now : Instant} (t : Cache.Touch c now c')
    (h : Orderly now c.dispatcher) (n : Nat) : c'.dispatcher.answer? n = c.dispatcher.answer? n := by
  rcases t.renewed with same | ⟨fresh, renewed, _⟩
  · rw [same]
  · unfold Dispatcher.answer?
    rw [h.answers_renewed renewed]

theorem latest_touch {c c' : Cache ε V} {now : Instant} (t : Cache.Touch c now c') :
    c.dispatcher.latest ≤ c'.dispatcher.latest := by
  rcases t.renewed with same | ⟨fresh, renewed, _⟩
  · exact Nat.le_of_eq (congrArg Dispatcher.latest same).symm
  · rw [renewed.latest]
    exact Nat.le_succ _

/-- A section of a reader keeps a world in order. -/
theorem Ordered.touch {w w' : World ε V} {c : Cache ε V} (h : Ordered w)
    (t : Cache.Touch w.cache w.now c) (now : w'.now = w.now) (calls : w'.calls = w.calls)
    (dispatcher : w'.cache.dispatcher = c.dispatcher) : Ordered w' := by
  obtain ⟨orderly, begun⟩ := orderly_touch t h.dispatcher h.named
  have called := called_eq calls
  refine ⟨by rw [now]; exact h.named, ?_, fun n hn => ?_, by rw [called]; exact h.inOrder⟩
  · rw [now, dispatcher]
    exact orderly
  · rw [dispatcher]
    exact begun n (h.begun n (by rw [← called]; exact hn))

/-- A move that leaves the clock, the calls and the dispatcher alone keeps a world in order. -/
theorem Ordered.same {w w' : World ε V} (h : Ordered w) (now : w'.now = w.now)
    (calls : w'.calls = w.calls) (dispatcher : w'.cache.dispatcher = w.cache.dispatcher) :
    Ordered w' :=
  h.touch .rest now calls dispatcher

/-- Whoever calls the source is the first to do so after everybody before it. -/
theorem Turn.called_cases {w w' : World ε V} {a : Attempt ε V} {left : Option (Attempt ε V)}
    (t : Turn w a w' left) :
    w'.calls = w.calls ∨ (w'.calls = (a.number, w.now) :: w.calls ∧ a.progress = .queued
      ∧ a.predecessor.all w.cache.dispatcher.hasAnswered = true
      ∧ (a ∈ w.cache.dispatcher.running → a.supersedes ≠ some a.number →
          Begun w'.cache.dispatcher a.number)) := by
  have turns {a' : Attempt ε V} (number : a'.number = a.number) (executes : a'.isExecuting = true)
      (ha : a ∈ w.cache.dispatcher.running) (hs : a.supersedes ≠ some a.number) :
      Begun ((w.cache.dispatcher.dismiss a.supersedes).update a') a.number :=
    Or.inr ⟨a', Dispatcher.mem_update_iff.mpr
      (Or.inr ⟨rfl, a, Dispatcher.mem_dismiss_iff.mpr ⟨ha, hs⟩, number.symm⟩), number, executes⟩
  cases t with
  | called queued ready hp =>
      rcases hp with rfl | ⟨due, outcome, rfl⟩
      · exact Or.inr ⟨rfl, queued, ready, turns rfl rfl⟩
      · exact Or.inr ⟨rfl, queued, ready, turns rfl rfl⟩
  | opened queued ready bound continuous => exact Or.inr ⟨rfl, queued, ready, turns rfl rfl⟩
  | rest | wait | unbound | refused | asked | finished | came | died | ignored | stored | discarded
  | failed | resumed | ended => exact Or.inl rfl

/-- **A step of an attempt keeps a world in order.** -/
theorem Ordered.turn {w w' : World ε V} {a : Attempt ε V} {left : Option (Attempt ε V)}
    (h : Ordered w) (t : Turn w a w' left) (ha : a ∈ w.cache.dispatcher.running) : Ordered w' := by
  obtain ⟨kept, orderly⟩ := t.progressed h.dispatcher ha
  have begun (n : Nat) (hn : n ∈ w.called) : Begun w'.cache.dispatcher n := kept.begun n (h.begun n hn)
  have named : w'.now < Instant.horizon := by
    rw [t.now]
    exact h.named
  have orderly : Orderly w'.now w'.cache.dispatcher := by
    rw [t.now]
    exact orderly
  rcases t.called_cases with same | ⟨calls, queued, ready, self⟩
  · have called := called_eq same
    exact ⟨named, orderly, by rw [called]; exact begun, by rw [called]; exact h.inOrder⟩
  · have called : w'.called = a.number :: w.called := by
      unfold World.called
      rw [calls]
      rfl
    have waiting : a.isExecuting = false := by simp [Attempt.isExecuting, queued]
    have q := (h.dispatcher.fits a ha).queues waiting
    refine ⟨named, orderly, fun n hn => ?_, ?_⟩
    · rw [called] at hn
      rcases List.mem_cons.mp hn with rfl | hn
      · exact self ha (fun hs => by have := q.supersedes _ hs; omega)
      · exact begun n hn
    · rw [called]
      refine List.pairwise_cons.mpr ⟨fun n hn => ?_, h.inOrder⟩
      -- whoever called before has answered, or else stands before this one on the list
      rcases h.begun n hn with answered | ⟨b, hb, rfl, executing⟩
      · have hle := h.dispatcher.passed n answered a ha
        rcases Nat.lt_or_eq_of_le hle with hlt | rfl
        · exact hlt
        · rw [q.unanswered] at answered
          cases answered
      · have hle := ((h.dispatcher.fits b hb).executes executing).oldest a ha
        rcases Nat.lt_or_eq_of_le hle with hlt | same
        · exact hlt
        · rw [h.dispatcher.eq_of_number hb ha same, waiting] at executing
          cases executing

/-- **Every reachable world is in order.** -/
theorem Reachable.ordered {w : World ε V} (h : Reachable w) : Ordered w := by
  refine h.invariant (fun w hw => ?_) (fun w m w' _ h s => ?_)
  · have named : (0 : Instant) < Instant.horizon := by decide
    cases hw with
    | selfRefreshing settings bus surroundings =>
        exact ⟨named, .initial 0 settings.pacing, fun _ hn => (nomatch hn), .nil⟩
    | bare settings bus surroundings =>
        exact ⟨named, .initial 0 settings.pacing, fun _ hn => (nomatch hn), .nil⟩
  · cases s with
    | aside ha => exact h.same ha.now ha.calls ha.dispatcher
    | pass since named =>
        refine ⟨?_, h.dispatcher.later since, h.begun, h.inOrder⟩
        rcases named with rfl | named
        · exact h.named
        · exact named
    | bind source unsealed =>
        exact ⟨h.named, h.dispatcher.bound_anew unsealed source, h.begun, h.inOrder⟩
    | subscribe own => exact h.touch (Cache.subscribe_touch _ _) rfl rfl rfl
    | invalidate ha => exact h.same ha.now ha.calls ha.dispatcher
    | poke ha => exact h.same ha.now ha.calls ha.dispatcher
    | openReader reading role holds => exact h.same rfl rfl rfl
    | follow key => exact h.same rfl rfl rfl
    | dropReader ha => exact h.same ha.now ha.calls ha.dispatcher
    | reader own seated ha =>
        exact h.touch (Reader.step_stepped _ _ _).touch ha.now ha.calls ha.dispatcher
    | attempt own running t => exact h.turn t (Dispatcher.attempt?_mem running).1

/-- Whoever has called the source was launched. -/
theorem Ordered.called_le {w : World ε V} (h : Ordered w) {n : Nat} (hn : n ∈ w.called) :
    n ≤ w.cache.dispatcher.latest := by
  rcases h.begun n hn with answered | ⟨a, ha, rfl, _⟩
  · exact h.dispatcher.known n answered
  · exact (h.dispatcher.bounded a ha).2

/-! ## §2. Who executes. -/

/-- The attempts that have called the source and are still on their way. -/
def executing (w : World ε V) : List (Attempt ε V) :=
  w.cache.dispatcher.running.filter fun a => w.called.contains a.number

/-- Whoever has called the source and is still on its way has turned to the source. -/
theorem Ordered.isExecuting {w : World ε V} (h : Ordered w) {a : Attempt ε V} (ha : a ∈ w.executing) :
    a ∈ w.cache.dispatcher.running ∧ a.isExecuting = true := by
  obtain ⟨ha, called⟩ := List.mem_filter.mp ha
  refine ⟨ha, ?_⟩
  rcases h.begun a.number (by simpa using called) with answered | ⟨b, hb, hn, executing⟩
  · cases hx : a.isExecuting with
    | true => rfl
    | false =>
        have unanswered := ((h.dispatcher.fits a ha).queues hx).unanswered
        rw [answered] at unanswered
        cases unanswered
  · rw [h.dispatcher.eq_of_number ha hb hn.symm]
    exact executing

/-- At most one attempt executes: each would be the oldest on the list. -/
theorem Ordered.executing_length {w : World ε V} (h : Ordered w) : w.executing.length ≤ 1 := by
  have distinct : w.executing.Pairwise (·.number < ·.number) :=
    h.dispatcher.sorted.sublist List.filter_sublist
  have oldest {a b : Attempt ε V} (ha : a ∈ w.executing) (hb : b ∈ w.executing) :
      a.number ≤ b.number := by
    obtain ⟨ha, executing⟩ := h.isExecuting ha
    -- each that executes is the oldest on the list
    exact ((h.dispatcher.fits a ha).executes executing).oldest b (h.isExecuting hb).1
  match hl : w.executing with
  | [] => exact Nat.zero_le 1
  | [a] => exact Nat.le_refl 1
  | a :: b :: rest =>
      exfalso
      rw [hl] at distinct oldest
      have hlt : a.number < b.number := List.rel_of_pairwise_cons distinct List.mem_cons_self
      have hle : b.number ≤ a.number := oldest (List.mem_cons_of_mem a List.mem_cons_self) List.mem_cons_self
      omega

/-- An attempt calls the source only when everybody before it has answered. -/
theorem Ordered.answered_of_call {w w' : World ε V} {m : Move ε V} (h : Ordered w)
    (s : Step w m w') {n : Nat} {t : Instant} (calls : w'.calls = (n, t) :: w.calls) {k : Nat}
    (hk : 0 < k) (hlt : k < n) : w.cache.dispatcher.hasAnswered k = true := by
-- only a step of an attempt calls the source
  have differ (same : w'.calls = w.calls) : False := by
    rw [calls] at same
    exact List.cons_ne_self _ _ same
  cases s with
  | aside ha => exact (differ ha.calls).elim
  | pass since named => exact (differ rfl).elim
  | bind source unsealed => exact (differ rfl).elim
  | subscribe own => exact (differ rfl).elim
  | invalidate ha => exact (differ ha.calls).elim
  | poke ha => exact (differ ha.calls).elim
  | openReader reading role holds => exact (differ rfl).elim
  | follow key => exact (differ rfl).elim
  | dropReader ha => exact (differ ha.calls).elim
  | reader own seated ha => exact (differ ha.calls).elim
  | attempt own running t =>
      have ha := (Dispatcher.attempt?_mem running).1
      rcases t.called_cases with same | ⟨calls', queued, ready, _⟩
      · exact (differ same).elim
      · rw [calls] at calls'
        injection calls' with head _
        injection head with number _
        have q := (h.dispatcher.fits _ ha).queues (by simp [Attempt.isExecuting, queued])
        exact h.dispatcher.earlier_of_ready q ready hk (by omega)

/-- A sequence of items, each ready at once. -/
def ticking : Source Unit Nat where
  shape := .continuous fun call => some fun item => .item ⟨0, fun _ _ => .value (10 * call + item)⟩

end World

end SingleFlight
