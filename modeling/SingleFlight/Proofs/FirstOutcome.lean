/-
  SingleFlight.Proofs.FirstOutcome — every waiter is given the first outcome of its attempt.

  What a source gives to an attempt travels through a report to the cache and an
  answer to the waiters, while newer attempts take its place and may stop it.
  `yields` writes down what the sources gave along a run, read off the sources
  themselves.  `Faithful` says that nothing is lost or changed on the way: what
  an attempt is about to say of its first item, and what it has answered, is the
  first thing that it was given.

  Main results:
    * `Faithful.run` — reports and answers are faithful in every run.
    * `first_outcome_to_waiters` — an attempt is not stopped before its first
      outcome, and this outcome is the first thing that its waiters are given.
-/
import SingleFlight.Proofs.Refill
import SingleFlight.Proofs.Waiting

namespace SingleFlight

variable {ε V : Type}

open Dispatcher (Orderly)

/-- What an attempt is about to make known: to the cache, or to its waiters. -/
def Attempt.news? (a : Attempt ε V) : Option (Report V) :=
  match a.progress with
  | .reporting report => some report
  | .answering answer _ => some (reportOf answer)
  | _ => none

namespace World

/-! ## §1. What the sources give along a run. -/

/-- What a source gives with a move, and to which attempt. -/
def yield? (w : World ε V) : Move ε V → Option (Nat × Yield V)
  | .attempt n =>
    match w.cache.dispatcher.attempt? n with
    | some a => (w.gives a).map (n, ·)
    | none => none
  | _ => none

/-- What the sources give along a run, oldest first. -/
def yields (w : World ε V) (moves : List (Move ε V)) : List (Nat × Yield V) :=
  w.observed yield? moves

/-- The first thing that the attempt `n` is given along a run. -/
def firstOutcome (w : World ε V) (moves : List (Move ε V)) (n : Nat) : Option (Yield V) :=
  (w.yields moves).lookup n

/-- Only an attempt that takes a step is given something. -/
theorem yield?_cases (w : World ε V) (m : Move ε V) :
    (∃ a ∈ w.cache.dispatcher.running, w.yield? m = (w.gives a).map (a.number, ·)
        ∧ w.apply m = w.stepAttempt a)
      ∨ (w.yield? m = none
        ∧ ∀ a, m = .attempt a.number → w.cache.dispatcher.attempt? a.number ≠ some a) := by
  by_cases stepped : ∃ a, m = .attempt a.number ∧ w.cache.dispatcher.attempt? a.number = some a
  · obtain ⟨a, rfl, running⟩ := stepped
    refine Or.inl ⟨a, (Dispatcher.attempt?_mem running).1, ?_, apply_attempt running⟩
    simp only [yield?, running]
  · refine Or.inr ⟨?_, fun a own running => stepped ⟨a, own, running⟩⟩
    unfold yield?
    split
    next n =>
      split
      next a running =>
        obtain rfl := (Dispatcher.attempt?_mem running).2
        exact absurd ⟨a, rfl, running⟩ stepped
      next => rfl
    next => rfl

/-- What every move keeps to, with what the sources gave, holds of every run. -/
theorem Reachable.yields_run {P : List (Nat × Yield V) → World ε V → Prop}
    (move : ∀ given w m, Reachable w → P given w → P (given ++ (w.yield? m).toList) (w.apply m))
    {given : List (Nat × Yield V)} {w : World ε V} (reachable : Reachable w) (h : P given w)
    (moves : List (Move ε V)) : P (given ++ w.yields moves) (w.run moves) := by
  induction moves generalizing given w with
  | nil =>
      show P (given ++ []) w
      rw [List.append_nil]
      exact h
  | cons m moves ih =>
      show P (given ++ ((w.yield? m).toList ++ (w.apply m).yields moves)) _
      rw [← List.append_assoc]
      exact ih (reachable.move m) (move given w m reachable h)

/-! ## §2. What attempts say and answer. -/

/-- What an attempt says of its item, it has said before or was given with the step; if it goes on to
the next item, it has said nothing of that. -/
theorem Turn.news_left {w w' : World ε V} {a b : Attempt ε V} {left : Option (Attempt ε V)}
    (t : Turn w a w' left) (hleft : left = some b) :
    (b.item = a.item ∧ b.news? = a.news?.or ((w.gives a).map (·.report a.number a.item)))
      ∨ (b.item = a.item + 1 ∧ b.news? = none) := by
  cases t with
  | rest gives =>
      cases hleft
      refine Or.inl ⟨rfl, ?_⟩
      rw [gives, Option.map_none, Option.or_none]
  | wait waiting hp gives =>
      cases hleft
      refine Or.inl ⟨rfl, ?_⟩
      have silent : a.news? = none := by
        unfold Attempt.isExecuting at waiting
        unfold Attempt.news?
        split <;> simp_all
      rw [silent, gives]
      rcases hp with rfl | ⟨t, rfl⟩ <;> rfl
  | refused queued ready owner gives =>
      cases hleft
      refine Or.inl ⟨rfl, ?_⟩
      rw [gives, Attempt.news?, Attempt.news?, queued]
      rfl
  | called queued ready hp gives =>
      cases hleft
      refine Or.inl ⟨rfl, ?_⟩
      rw [gives, Attempt.news?, Attempt.news?, queued]
      rcases hp with rfl | ⟨due, outcome, rfl⟩ <;> rfl
  | opened queued ready bound continuous gives =>
      cases hleft
      refine Or.inl ⟨rfl, ?_⟩
      rw [gives, Attempt.news?, Attempt.news?, queued]
      rfl
  | asked asking hp gives =>
      cases hleft
      refine Or.inl ⟨rfl, ?_⟩
      rw [gives, Attempt.news?, Attempt.news?, asking]
      rcases hp with ⟨due, outcome, rfl⟩ | rfl | ⟨rfl, _⟩ <;> rfl
  | came producing hr gives =>
      cases hleft
      obtain ⟨y, gives, report⟩ := gives
      refine Or.inl ⟨rfl, ?_⟩
      rw [gives, Attempt.news?, Attempt.news?, producing, ← report]
      rfl
  | ignored reporting h =>
      cases hleft
      refine Or.inl ⟨rfl, ?_⟩
      rw [Attempt.news?, Attempt.news?, reporting]
      exact congrArg some (reportOf_answerOf _ _)
  | stored reporting alive latest h =>
      cases hleft
      refine Or.inl ⟨rfl, ?_⟩
      rw [Attempt.news?, Attempt.news?, reporting]
      rfl
  | discarded reporting alive latest h =>
      cases hleft
      refine Or.inl ⟨rfl, ?_⟩
      rw [Attempt.news?, Attempt.news?, reporting]
      rfl
  | failed reporting alive latest =>
      cases hleft
      refine Or.inl ⟨rfl, ?_⟩
      rw [Attempt.news?, Attempt.news?, reporting]
      rfl
  | resumed answering =>
      cases hleft
      exact Or.inr ⟨rfl, rfl⟩
  | unbound | finished | died | ended => cases hleft

/-- An attempt comes to answer with the failure that it reported, and then it ends; or with the value,
which names the revision under which it was stored, if it was. -/
theorem Turn.answering_left {w w' : World ε V} {a b : Attempt ε V} {left : Option (Attempt ε V)}
    (t : Turn w a w' left) (hleft : left = some b) {answer : Answer V} {continues : Bool}
    (answering : b.progress = .answering answer continues) :
    b = a ∨ (continues = false ∧ ∃ failure, answer = .error failure)
      ∨ ∃ fetched, answer = .ok fetched ∧ a.progress = .reporting (.ok fetched.content)
        ∧ ((fetched.revision = none ∧ w'.cache.cell.revision = w.cache.cell.revision)
          ∨ (fetched.revision = some w'.cache.cell.revision
            ∧ w'.cache.cell.phase = .holding (.concealed fetched.content))) := by
  cases t with
  | rest =>
      cases hleft
      exact Or.inl rfl
  | wait waiting hp =>
      cases hleft
      rcases hp with rfl | ⟨t, rfl⟩ <;> cases answering
  | called queued ready hp =>
      cases hleft
      rcases hp with rfl | ⟨due, outcome, rfl⟩ <;> cases answering
  | asked asking hp =>
      cases hleft
      rcases hp with ⟨due, outcome, rfl⟩ | rfl | ⟨rfl, _⟩ <;> cases answering
  | @ignored report reporting =>
      cases hleft
      cases answering
      cases report with
      | error failure => exact Or.inr (Or.inl ⟨rfl, failure, rfl⟩)
      | ok content => exact Or.inr (Or.inr ⟨_, rfl, reporting, Or.inl ⟨rfl, rfl⟩⟩)
  | stored reporting =>
      cases hleft
      cases answering
      exact Or.inr (Or.inr ⟨_, rfl, reporting, Or.inr ⟨rfl, rfl⟩⟩)
  | discarded reporting =>
      cases hleft
      cases answering
      exact Or.inr (Or.inr ⟨_, rfl, reporting, Or.inl ⟨rfl, rfl⟩⟩)
  | failed reporting =>
      cases hleft
      cases answering
      exact Or.inr (Or.inl ⟨rfl, _, rfl⟩)
  | refused | opened | came | resumed =>
      cases hleft
      cases answering
  | unbound | finished | died | ended => cases hleft

/-- Who has not answered is at its first item. -/
theorem item_of_unanswered {now : Instant} {d : Dispatcher ε V} (h : Orderly now d)
    {a : Attempt ε V} (ha : a ∈ d.running) (unanswered : d.hasAnswered a.number = false) :
    a.item = 0 := by
  have fits := h.fits a ha
  by_cases executing : a.isExecuting = true
  · by_cases item : a.item = 0
    · exact item
    · rw [(fits.executes executing).delivered.mpr item] at unanswered
      cases unanswered
  · exact (fits.queues (by simpa using executing)).fresh.1

/-- In the world `w`, after the sources have given what is `given`, oldest first: what an attempt has
answered, and what it is about to say of its first item, is the first thing that it was given. -/
structure Faithful (given : List (Nat × Yield V)) (w : World ε V) : Prop where
  answers : ∀ n answer, w.cache.dispatcher.answer? n = some answer →
    ∃ y, given.lookup n = some y ∧ reportOf answer = y.report n 0
  news : ∀ a ∈ w.cache.dispatcher.running, a.item = 0 →
    a.news? = (given.lookup a.number).map (·.report a.number 0)
  known : ∀ n y, given.lookup n = some y → n ≤ w.cache.dispatcher.latest

theorem lookup_given {given : List (Nat × Yield V)} {o : Option (Yield V)} {n m : Nat} :
    (given ++ (o.map (n, ·)).toList).lookup m
      = (given.lookup m).or (if m = n then o else none) := by
  rw [List.lookup_append]
  cases o with
  | none => simp
  | some y =>
      by_cases same : m = n
      · rw [if_pos same, same]
        simp
      · have differs : (m == n) = false := by simpa using same
        have single : [(n, y)].lookup m = none := by
          rw [List.lookup_cons, differs]
          rfl
        rw [if_neg same, ← single]
        rfl

/-- **A step of an attempt is faithful.** -/
theorem Faithful.turn {given : List (Nat × Yield V)} {w w' : World ε V} {a : Attempt ε V}
    {left : Option (Attempt ε V)} (h : Faithful given w) (orderly : Orderly w.now w.cache.dispatcher)
    (t : Turn w a w' left) (ha : a ∈ w.cache.dispatcher.running) :
    Faithful (given ++ ((w.gives a).map (a.number, ·)).toList) w' := by
  have kept := (t.progressed orderly ha).kept
  -- what was first stays first
  have older {n : Nat} {y : Yield V} (hy : given.lookup n = some y) :
      (given ++ ((w.gives a).map (a.number, ·)).toList).lookup n = some y := by
    rw [lookup_given, hy]
    rfl
  refine ⟨fun n answer hn => ?_, fun b hb item => ?_, fun n y hn => ?_⟩
  · rcases t.answer_source orderly ha hn with old | ⟨rfl, unanswered, said⟩
    · obtain ⟨y, hy, same⟩ := h.answers n answer old
      exact ⟨y, older hy, same⟩
    · have item : a.item = 0 :=
        item_of_unanswered orderly ha (by simp [Dispatcher.hasAnswered, unanswered])
      have news := h.news a ha item
      rcases said with ⟨continues, answering⟩ | ⟨rfl, gives, due, outcome, producing⟩
      · -- it answers what it was about to say
        rw [Attempt.news?, answering] at news
        obtain ⟨y, hy, same⟩ := Option.map_eq_some_iff.mp news.symm
        exact ⟨y, older hy, same.symm⟩
      · -- it dies of the first thing that it was given
        rw [Attempt.news?, producing] at news
        have first : given.lookup a.number = none := Option.map_eq_none_iff.mp news.symm
        refine ⟨.came .uncopyable, ?_, rfl⟩
        rw [lookup_given, first, if_pos rfl, gives]
        rfl
  · -- the others say what they said
    have others (old : b ∈ w.cache.dispatcher.running) (hne : b.number ≠ a.number) :
        b.news? = ((given ++ ((w.gives a).map (a.number, ·)).toList).lookup b.number).map
          (·.report b.number 0) := by
      rw [lookup_given, if_neg hne, Option.or_none]
      exact h.news b old item
    have own (hleft : left = some b) :
        b.news? = ((given ++ ((w.gives a).map (a.number, ·)).toList).lookup b.number).map
          (·.report b.number 0) := by
      rcases t.news_left hleft with ⟨same, news⟩ | ⟨later, _⟩
      · have first : a.item = 0 := same.symm.trans item
        rw [news, first, t.number hleft, lookup_given, if_pos rfl, h.news a ha first]
        cases given.lookup a.number <;> rfl
      · omega
    rcases t.mem_cases hb with ⟨old, hne⟩ | hleft | ⟨old, hleft⟩
    · exact others old hne
    · exact own hleft
    · by_cases hne : b.number = a.number
      · exact own (by rw [hleft, orderly.eq_of_number old ha hne])
      · exact others old hne
  · rw [kept.latest]
    rw [lookup_given] at hn
    rcases Option.or_eq_some_iff.mp hn with old | ⟨_, new⟩
    · exact h.known n y old
    · split at new
      next same =>
        rw [same]
        exact (orderly.bounded a ha).2
      next => cases new

/-- A move that leaves the dispatcher alone is faithful. -/
theorem Faithful.same {given : List (Nat × Yield V)} {w w' : World ε V} (h : Faithful given w)
    (dispatcher : w'.cache.dispatcher = w.cache.dispatcher) : Faithful given w' :=
  ⟨by rw [dispatcher]; exact h.answers, by rw [dispatcher]; exact h.news,
    by rw [dispatcher]; exact h.known⟩

/-- A section of a reader is faithful: an attempt that it launches has been given nothing. -/
theorem Faithful.touch {given : List (Nat × Yield V)} {w w' : World ε V} {c : Cache ε V}
    (h : Faithful given w) (orderly : Orderly w.now w.cache.dispatcher)
    (t : Cache.Touch w.cache w.now c) (dispatcher : w'.cache.dispatcher = c.dispatcher) :
    Faithful given w' := by
  refine ⟨fun n answer hn => ?_, fun b hb item => ?_, fun n y hn => ?_⟩
  · rw [dispatcher, answer?_touch t orderly] at hn
    exact h.answers n answer hn
  · rw [dispatcher] at hb
    rcases mem_touch t hb with old | rfl
    · exact h.news b old item
    · have unknown : given.lookup (w.cache.dispatcher.latest + 1) = none := by
        cases hy : given.lookup (w.cache.dispatcher.latest + 1) with
        | none => rfl
        | some y =>
            have := h.known _ y hy
            omega
      show none = (given.lookup (w.cache.dispatcher.latest + 1)).map _
      rw [unknown]
      rfl
  · rw [dispatcher]
    exact Nat.le_trans (h.known n y hn) (latest_touch t)

/-- **Every move is faithful.** -/
theorem Faithful.move {given : List (Nat × Yield V)} {w : World ε V} (h : Faithful given w)
    (reachable : Reachable w) (m : Move ε V) :
    Faithful (given ++ (w.yield? m).toList) (w.apply m) := by
  have orderly := reachable.ordered.dispatcher
  rcases w.yield?_cases m with ⟨a, running, yielded, applied⟩ | ⟨silent, unstepped⟩
  · obtain ⟨left, t⟩ := stepAttempt_turn w a
    rw [yielded, applied]
    exact h.turn orderly t running
  · rw [silent, Option.toList_none, List.append_nil]
    have s := apply_step w m
    generalize w.apply m = w' at s ⊢
    cases s with
    | aside ha | invalidate ha | poke ha | dropReader ha => exact h.same ha.dispatcher
    | pass | openReader | follow => exact h.same rfl
    | bind => exact ⟨h.answers, h.news, h.known⟩
    | subscribe => exact h.touch orderly (Cache.subscribe_touch w.cache w.now) rfl
    | reader own seated ha => exact h.touch orderly (Reader.step_stepped _ _ _).touch ha.dispatcher
    | attempt own running t => exact absurd running (unstepped _ own)

theorem Faithful.initial {w : World ε V} (h : Initial w) : Faithful [] w := by
  cases h <;>
    exact ⟨fun _ _ hn => (nomatch hn), fun _ ha => (nomatch ha), fun _ _ hn => (nomatch hn)⟩

/-- **Reports and answers are faithful in every run.** -/
theorem Faithful.run {given : List (Nat × Yield V)} {w : World ε V} (h : Faithful given w)
    (reachable : Reachable w) (moves : List (Move ε V)) :
    Faithful (given ++ w.yields moves) (w.run moves) :=
  reachable.yields_run (fun _ _ m reachable faithful => faithful.move reachable m) h moves

/-- In every reachable world reports and answers are faithful to what the sources gave. -/
theorem Reachable.faithful {w : World ε V} (h : Reachable w) : ∃ given, Faithful given w := by
  induction h with
  | initial h => exact ⟨[], .initial h⟩
  | move h m ih =>
      obtain ⟨given, faithful⟩ := ih
      exact ⟨_, faithful.move h m⟩

/-! ## §3. An attempt that has its outcome answers soon. -/

theorem attempt?_update {d : Dispatcher ε V} {a : Attempt ε V}
    (h : (d.attempt? a.number).isSome = true) : (d.update a).attempt? a.number = some a := by
  obtain ⟨b, hb⟩ := Option.isSome_iff_exists.mp h
  have number : b.number = a.number := (Dispatcher.attempt?_mem hb).2
  have same : ((·.number == a.number) ∘ fun c : Attempt ε V => if c.number = a.number then a else c)
      = (·.number == a.number) := by
    funext c
    by_cases hc : c.number = a.number <;> simp [hc]
  show (d.running.map fun c => if c.number = a.number then a else c).find? (·.number == a.number) = _
  rw [List.find?_map, same]
  unfold Dispatcher.attempt? at hb
  rw [hb]
  simp [number]

/-- A report goes to the cell, and leaves the attempts alone. -/
theorem take_dispatcher (c : Cache ε V) (now : Instant) (n item : Nat) (report : Report V) :
    (c.take now n item report).1.dispatcher = c.dispatcher := by
  unfold Cache.take
  split
  · rfl
  · cases report with
    | error failure => rfl
    | ok content =>
        dsimp only
        split <;> rfl

/-- An attempt that is about to report answers next. -/
theorem apply_reports {w : World ε V} {a : Attempt ε V} {report : Report V}
    (running : w.cache.dispatcher.attempt? a.number = some a)
    (reporting : a.progress = .reporting report) :
    ∃ answer continues, (w.apply (.attempt a.number)).cache.dispatcher.attempt? a.number
      = some { a with progress := .answering answer continues } := by
  rw [apply_report running reporting]
  refine ⟨_, _, attempt?_update (a := { a with progress := _ }) ?_⟩
  show ((if w.isCacheAlive then w.cache.take w.now a.number a.item report
    else (w.cache, .superseded)).1.dispatcher.attempt? a.number).isSome = true
  split
  · rw [take_dispatcher, running]
    rfl
  · rw [running]
    rfl

theorem apply_answering {w : World ε V} {a : Attempt ε V} {answer : Answer V} {continues : Bool}
    (running : w.cache.dispatcher.attempt? a.number = some a)
    (answering : a.progress = .answering answer continues) :
    w.apply (.attempt a.number) = w.answer a answer continues := by
  rw [apply_attempt running]
  simp only [stepAttempt, canStep, answering, if_true]

/-- An attempt that is about to answer answers. -/
theorem apply_answers {w : World ε V} {a : Attempt ε V} {answer : Answer V} {continues : Bool}
    (running : w.cache.dispatcher.attempt? a.number = some a)
    (answering : a.progress = .answering answer continues) :
    (w.apply (.attempt a.number)).cache.dispatcher.hasAnswered a.number = true := by
  have settled : (w.cache.dispatcher.settle a.number answer).hasAnswered a.number = true :=
    Dispatcher.hasAnswered_settle.mpr (Or.inr rfl)
  rw [apply_answering running answering]
  cases continues with
  | true => exact settled
  | false => exact settled

/-- **An attempt that has its first outcome answers within two steps.** -/
theorem Faithful.answers_soon {given : List (Nat × Yield V)} {w : World ε V} (h : Faithful given w)
    (reachable : Reachable w) {k : Nat} (tracked : w.cache.dispatcher.Tracks k) {y : Yield V}
    (first : given.lookup k = some y) :
    (w.run [.attempt k, .attempt k]).cache.dispatcher.hasAnswered k = true := by
  cases hans : w.cache.dispatcher.hasAnswered k with
  | true =>
      obtain ⟨answer, ha⟩ := Dispatcher.hasAnswered_iff.mp hans
      exact Dispatcher.hasAnswered_iff.mpr ⟨answer, answer?_run reachable ha _⟩
  | false =>
      rcases tracked with answered | listed
      · rw [hans] at answered
        cases answered
      · obtain ⟨a, running⟩ := Option.isSome_iff_exists.mp (Dispatcher.attempt?_isSome_iff.mpr listed)
        obtain ⟨ha, rfl⟩ := Dispatcher.attempt?_mem running
        have news := h.news a ha (item_of_unanswered reachable.ordered.dispatcher ha hans)
        rw [first, Attempt.news?] at news
        -- it has something to say, to the cache first or to its waiters at once
        cases hp : a.progress with
        | reporting report =>
            obtain ⟨answer, continues, next⟩ := apply_reports running hp
            exact apply_answers (a := { a with progress := .answering answer continues }) next rfl
        | answering answer continues =>
            obtain ⟨given, ha⟩ := Dispatcher.hasAnswered_iff.mp (apply_answers running hp)
            exact Dispatcher.hasAnswered_iff.mpr
              ⟨given, answer?_run (reachable.move _) ha [.attempt a.number]⟩
        | launched | heldBack | queued | asking | producing | stuck =>
            rw [hp] at news
            cases news

/-! ## §4. The waiters. -/

theorem apply_attempt_seats (w : World ε V) (n : Nat) :
    (w.apply (.attempt n)).seats = w.seats
      ∧ (w.apply (.attempt n)).deliveries = w.deliveries := by
  show (w.advanceAttempt n).seats = _ ∧ (w.advanceAttempt n).deliveries = _
  unfold advanceAttempt
  split
  next a _ =>
    obtain ⟨left, t⟩ := stepAttempt_turn w a
    exact ⟨t.seats.1, t.seats.2.2⟩
  next => exact ⟨rfl, rfl⟩

theorem Initial.reachable_run {w : World ε V} (h : Initial w) (moves : List (Move ε V)) :
    Reachable (w.run moves) :=
  (Reachable.initial h).run moves

/-- Once an attempt has its first outcome, whoever still waits for it is told within three steps. -/
theorem Faithful.told_soon {given : List (Nat × Yield V)} {w : World ε V} (h : Faithful given w)
    (reachable : Reachable w) {key k : Nat} {old : List (Item V)} (served : Served old key k w)
    (none : w.itemsTo key = old) (tracked : w.cache.dispatcher.Tracks k) {y : Yield V}
    (first : given.lookup k = some y) (seats : (w.seat? key).isSome = true) :
    (w.run [.attempt k, .attempt k, .reader key]).itemsTo key = .ofReport (y.report k 0) :: old := by
  obtain ⟨s, hs⟩ := Option.isSome_iff_exists.mp seats
  obtain ⟨listed, hk⟩ := seat?_mem hs
  have awaits := served.waits none listed hk
  have answers := h.answers_soon reachable tracked first
  -- the two steps of the attempt leave the reader where it is
  have stays : (w.run [.attempt k, .attempt k]).seats = w.seats
      ∧ (w.run [.attempt k, .attempt k]).deliveries = w.deliveries := by
    obtain ⟨seats₁, deliveries₁⟩ := apply_attempt_seats w k
    obtain ⟨seats₂, deliveries₂⟩ := apply_attempt_seats (w.apply (.attempt k)) k
    exact ⟨seats₂.trans seats₁, deliveries₂.trans deliveries₁⟩
  have faithful := h.run reachable [.attempt k, .attempt k]
  have reachable : Reachable (w.run [.attempt k, .attempt k]) := reachable.run _
  show ((w.run [.attempt k, .attempt k]).apply (.reader key)).itemsTo key = _
  generalize w.run [.attempt k, .attempt k] = q at answers stays faithful reachable ⊢
  have seated : q.seat? key = some s := by
    unfold seat? at hs ⊢
    rw [stays.1]
    exact hs
  obtain ⟨answer, answered⟩ := Dispatcher.hasAnswered_iff.mp answers
  obtain ⟨y', hy', same⟩ := faithful.answers k answer answered
  have still : (given ++ w.yields [.attempt k, .attempt k]).lookup k = some y := by
    rw [List.lookup_append, first]
    rfl
  rw [apply_awaiting reachable seated awaits answered, itemsTo_eq stays.2, none, Item.ofAnswer, same,
    Option.some.inj (hy'.symm.trans still)]

/-- **Every waiter is given the first outcome of its attempt.**  Take any run and any reader that waits
for the attempt `k` at some point of it, whether it launched the attempt or joined it, and let the run
go on in any way.  As long as the sources have given nothing to `k`, it is on its way and has not
answered.  The first thing that the reader is given is what `k` was given first.  And once `k` was given
something, its answer is two steps of the attempt away, for whoever still waits. -/
theorem first_outcome_to_waiters {w₀ : World ε V} (h : Initial w₀) (moves more : List (Move ε V))
    {seat : Seat} (seated : seat ∈ (w₀.run moves).seats) {k : Nat}
    (awaits : seat.reader.awaits? = some k) :
    let p := w₀.run moves
    let q := p.run more
    let first := w₀.firstOutcome (moves ++ more) k
    (first = none → q.cache.dispatcher.hasAnswered k = false
        ∧ ∃ a ∈ q.cache.dispatcher.running, a.number = k)
      ∧ (q.itemsTo seat.key = p.itemsTo seat.key
        ∨ ∃ y later, first = some y
            ∧ q.itemsTo seat.key = later ++ .ofReport (y.report k 0) :: p.itemsTo seat.key)
      ∧ ∀ y, first = some y → q.itemsTo seat.key = p.itemsTo seat.key →
          (q.seat? seat.key).isSome = true →
          (q.run [.attempt k, .attempt k, .reader seat.key]).itemsTo seat.key
            = .ofReport (y.report k 0) :: p.itemsTo seat.key := by
  intro p q first
  have reachable : Reachable p := h.reachable_run moves
  have known : seat.key < p.nextKey := reachable.attended.below seat seated
  have faithful : Faithful (w₀.yields (moves ++ more)) q := by
    have whole := (Faithful.initial h).run (.initial h) (moves ++ more)
    rwa [List.nil_append, run_append] at whole
  have tracked : q.cache.dispatcher.Tracks k :=
    tracks_run reachable (reachable.awaited.seats seat seated k awaits) more
  have served : Served (p.itemsTo seat.key) seat.key k q :=
    (Served.of_awaits reachable seated awaits).run reachable known more
  refine ⟨fun unmade => ?_, ?_, fun y hy unserved seats =>
    faithful.told_soon (reachable.run more) served unserved tracked hy seats⟩
  · -- who has answered was given something
    have unanswered : q.cache.dispatcher.hasAnswered k = false := by
      cases ha : q.cache.dispatcher.answer? k with
      | none => simp [Dispatcher.hasAnswered, ha]
      | some answer =>
          obtain ⟨y, hy, _⟩ := faithful.answers k answer ha
          exact absurd (hy.symm.trans unmade) (by simp)
    refine ⟨unanswered, tracked.resolve_left ?_⟩
    simp [unanswered]
  · rcases served with ⟨same, _⟩ | ⟨answer, later, answered, given⟩
    · exact Or.inl same
    · obtain ⟨y, hy, same⟩ := faithful.answers k answer answered
      rw [Item.ofAnswer, same] at given
      exact Or.inr ⟨y, later, hy, given⟩

/-- A reader waits for the first item of a sequence. -/
def firstAsked : List (Move Unit Nat) :=
  [.bind pulsing, .openReader .once .polled, .reader 0, .reader 0, .attempt 1, .attempt 1, .attempt 1]

/-- The value is thrown away, another reader has the next attempt launched, and the program lets go of
the cache, before the item comes. -/
def overtaken : List (Move Unit Nat) :=
  [.invalidate, .openReader .once .polled, .reader 1, .reader 1, .dropHandle, .attempt 1]

theorem first_outcome_to_waiters_overtaken :
    let w₀ : World Unit Nat := selfRefreshing ⟨.periodic 60000, .unpaced⟩ none ()
    let p := w₀.run firstAsked
    let q := p.run overtaken
    (p.seats.map fun s => (s.key, s.reader.awaits?)) = [(0, some 1)]
      ∧ q.cache.dispatcher.latest = 2
      ∧ w₀.firstOutcome (firstAsked ++ overtaken) 1 = some (.came (.value 10))
      ∧ (q.run [.attempt 1, .attempt 1, .reader 0]).itemsTo 0 = [.value ⟨10, 1, 0⟩] := by
  have seated : (⟨0, .polled, ⟨.once, .waiting 1, none, 0⟩⟩ : Seat)
      ∈ ((selfRefreshing ⟨.periodic 60000, .unpaced⟩ none ()).run firstAsked).seats := by decide
  have h := first_outcome_to_waiters (.selfRefreshing ⟨.periodic 60000, .unpaced⟩ none ()) firstAsked
    overtaken seated rfl
  exact ⟨rfl, rfl, rfl, h.2.2 (.came (.value 10)) rfl rfl rfl⟩

end World

end SingleFlight
