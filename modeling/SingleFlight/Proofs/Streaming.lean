/-
  SingleFlight.Proofs.Streaming — a stream that is left in peace plays its script.

  A continuous attempt calls its source once and is offered items one after
  another; each comes out in some way, is reported to the cache and, if it is
  the first, answers the waiters.  In between anybody else may act.  As long as
  no newer attempt is launched, nobody throws the value away and the cache is
  in being, nobody else comes into it: what the attempt says is a function of
  what its source offered and of when the items came out, and what the cell
  shows is a function of what the attempt said.

  `tells` is the first function, and `Shows` the second.  `Scene` says where the
  attempt stands between two of its steps; each of its own steps leads from one
  scene to the next, and the steps of the others leave it where it is.

  Main results:
    * `Plays.own`, `Plays.others` — an own step goes on with the play, the
      others do not disturb it.
    * `plays_its_script` — what a stream says, and what becomes of the cell.
-/
import SingleFlight.Proofs.Punctual

namespace SingleFlight

variable {ε V : Type}

namespace World

/-! ## §1. What a script tells. -/

/-- What the attempt `n` says when the offer for its item `k` is not followed by an item: a stream that ends
before its first item is a failure. -/
def tellsAtEnd (n k : Nat) : Offer ε V → List (Report V)
  | .done => if k = 0 then [.error (.fetchFailed n Failure.emptyReason)] else []
  | .item _ | .never => []

/-- What the attempt `n` says from its item `k` on, if its source makes these offers and the items come out
in the surroundings and at the instants listed: the items in order, up to the first failure. -/
def tells (n : Nat) (offers : Nat → Offer ε V) : Nat → List (ε × Instant) → List (Report V)
  | k, [] => tellsAtEnd n k (offers k)
  | k, (surroundings, t) :: rest =>
    match offers k with
    | .item p =>
      match (Yield.came (p.outcome surroundings t)).report n k with
      | .ok content => .ok content :: tells n offers (k + 1) rest
      | .error failure => [.error failure]
    | offer => tellsAtEnd n k offer

/-- What the attempt `n` says of what its call gave: the failure of the call, or what the script tells. -/
def expected (n : Nat) : List (Except Failure (Nat → Offer ε V)) → List (ε × Instant) → List (Report V)
  | [], _ => []
  | .error failure :: _, _ => [.error failure]
  | .ok offers :: _, came => tells n offers 0 came

/-- After the items `came` the values `told` were told, and the script goes on with the next item. -/
structure Flows (n : Nat) (offers : Nat → Offer ε V) (came : List (ε × Instant)) (told : List (Report V)) :
    Prop where
  length : told.length = came.length
  values : ∀ r ∈ told, r.isOk = true
  goesOn : ∀ rest, tells n offers 0 (came ++ rest) = told ++ tells n offers came.length rest

variable {n : Nat} {offers : Nat → Offer ε V} {came : List (ε × Instant)} {told : List (Report V)}

theorem Flows.nil : Flows n offers [] [] :=
  ⟨rfl, fun _ mem => absurd mem List.not_mem_nil, fun _ => rfl⟩

/-- One more value comes out. -/
theorem Flows.value (h : Flows n offers came told) {p : Production ε V}
    (offer : offers came.length = .item p) {surroundings : ε} {t : Instant} {content : Sourced V}
    (value : (Yield.came (p.outcome surroundings t)).report n came.length = .ok content) :
    Flows n offers (came ++ [(surroundings, t)]) (told ++ [.ok content]) := by
  refine ⟨?_, fun r mem => ?_, fun rest => ?_⟩
  · rw [List.length_append, List.length_append, h.length]
    rfl
  · rcases List.mem_append.mp mem with old | new
    · exact h.values r old
    · rw [List.mem_singleton.mp new]
      rfl
  · rw [List.append_assoc, h.goesOn, List.append_assoc, List.length_append]
    show _ ++ tells n offers came.length ((surroundings, t) :: rest) = _
    simp only [tells, offer, value]
    rfl

/-- The next item fails, and the script is over. -/
theorem Flows.failure (h : Flows n offers came told) {p : Production ε V}
    (offer : offers came.length = .item p) {surroundings : ε} {t : Instant} {failure : Failure}
    (fails : (Yield.came (p.outcome surroundings t)).report n came.length = .error failure) :
    tells n offers 0 (came ++ [(surroundings, t)]) = told ++ [.error failure] := by
  rw [h.goesOn]
  simp only [tells, offer, fails]

/-! ## §2. What is to be seen of an attempt. -/

/-- What an attempt said to the cache: when, of which of its items, and what. -/
structure Said (V : Type) where
  time : Instant
  item : Nat
  report : Report V

/-- The attempt `n`, about to take a step with the move. -/
def acting? (n : Nat) (w : World ε V) : Move ε V → Option (Attempt ε V)
  | .attempt k => if k = n then (w.cache.dispatcher.attempt? n).filter w.canStep else none
  | _ => none

/-- What a call of the source gives to the attempt `n`: nothing if the owner is gone or if it crashes, and
otherwise the offers that its script has for this call. -/
def opens (w : World ε V) (n : Nat) (owner : Option String) (script : Nat → Option (Nat → Offer ε V)) :
    Except Failure (Nat → Offer ε V) :=
  match if w.hasOwner then none else owner with
  | some owner => .error (.ownerGone owner)
  | none => match script (w.calls.length + 1) with
    | none => .error (.fetchFailed n Failure.crashReason)
    | some offers => .ok offers

/-- What the attempt `n` is given with a move by which it turns to its source. -/
def opening? (n : Nat) (owner : Option String) (script : Nat → Option (Nat → Offer ε V)) (w : World ε V)
    (m : Move ε V) : Option (Except Failure (Nat → Offer ε V)) :=
  (w.acting? n m).bind fun a => match a.progress with
    | .queued => some (w.opens n owner script)
    | _ => none

/-- In which surroundings and when an item of the attempt `n` comes out with a move. -/
def came? (n : Nat) (w : World ε V) (m : Move ε V) : Option (ε × Instant) :=
  (w.acting? n m).bind fun a => match a.progress with
    | .producing _ _ => some (w.surroundings, w.now)
    | _ => none

/-- What the attempt `n` says to the cache with a move. -/
def said? (n : Nat) (w : World ε V) (m : Move ε V) : Option (Said V) :=
  (w.acting? n m).bind fun a => match a.progress with
    | .reporting report => some ⟨w.now, a.item, report⟩
    | _ => none

/-- The values among what was said. -/
def values (said : List (Said V)) : List (Said V) := said.filter (·.report.isOk)

/-- The phase that shows what an attempt said last. -/
def Displays : Option (Report V) → Phase (Sourced V) → Prop
  | none, phase => phase = .calculating
  | some (.ok content), phase => phase = .holding (.concealed content)
  -- somebody may have shown interest since
  | some (.error _), phase => ∃ refetch, phase = .invalid refetch

/-- The cell of the world `w` shows what an attempt said since the world `p`: what it said last, and how many
values there were. -/
structure Shows (p : World ε V) (said : List (Said V)) (w : World ε V) : Prop where
  revision : w.cache.cell.revision = p.cache.cell.revision + (values said).length
  phase : Displays (said.getLast?.map Said.report) w.cache.cell.phase

/-- When the last success was after an attempt said something: with its last value, or as before. -/
def dates (p : World ε V) (said : List (Said V)) : Option Instant :=
  ((values said).getLast?.map Said.time).or p.cache.staleness.lastSuccess

/-- The answer to a first report that was taken in under the revision. -/
def answerTo (revision : Nat) : Report V → Answer V
  | .ok content => .ok ⟨content, some revision⟩
  | .error failure => .error failure

/-! ## §3. Scenes. -/

/-- Where the attempt `n` stands in its play, which began when the cell had the revision `r`: after these
openings of its source, these items that came out, and these reports. -/
inductive Scene (n r : Nat) : Option (Attempt ε V) → List (Except Failure (Nat → Offer ε V)) →
    List (ε × Instant) → List (Report V) → Prop where
  /-- It has not turned to its source yet. -/
  | waiting {a : Attempt ε V} (waits : a.isExecuting = false) : Scene n r (some a) [] [] []
  /-- It has told all the values that came out, and waits for the next item. -/
  | going {a : Attempt ε V} {offers : Nat → Offer ε V} {came : List (ε × Instant)}
      {told : List (Report V)} (opened : a.offers = some offers) (item : a.item = told.length)
      (flows : Flows n offers came told)
      (next : a.progress = .asking
        ∨ (∃ due p, offers a.item = .item p ∧ a.progress = .producing due p.outcome)
        ∨ (offers a.item = .never ∧ a.progress = .stuck)) :
      Scene n r (some a) [.ok offers] came told
  /-- It is about to report a value. -/
  | telling {a : Attempt ε V} {offers : Nat → Offer ε V} {came : List (ε × Instant)}
      {told : List (Report V)} {content : Sourced V} (opened : a.offers = some offers)
      (item : a.item = told.length) (flows : Flows n offers came (told ++ [.ok content]))
      (reporting : a.progress = .reporting (.ok content)) :
      Scene n r (some a) [.ok offers] came told
  /-- It has reported a value, and is about to answer and to go on. -/
  | told {a : Attempt ε V} {offers : Nat → Offer ε V} {came : List (ε × Instant)}
      {told : List (Report V)} {content : Sourced V} (opened : a.offers = some offers)
      (item : a.item = told.length) (flows : Flows n offers came (told ++ [.ok content]))
      (answering : a.progress = .answering (answerTo (r + told.length + 1) (.ok content)) true) :
      Scene n r (some a) [.ok offers] came (told ++ [.ok content])
  /-- It is about to report a failure. -/
  | failing {a : Attempt ε V} {opened : Except Failure (Nat → Offer ε V)} {came : List (ε × Instant)}
      {told : List (Report V)} {failure : Failure} (item : a.item = told.length)
      (values : ∀ r ∈ told, r.isOk = true)
      (all : expected n [opened] came = told ++ [.error failure])
      (reporting : a.progress = .reporting (.error failure)) :
      Scene n r (some a) [opened] came told
  /-- It has reported a failure, and is about to answer and to end. -/
  | failed {a : Attempt ε V} {opened : Except Failure (Nat → Offer ε V)} {came : List (ε × Instant)}
      {told : List (Report V)} {failure : Failure} (item : a.item = told.length)
      (values : ∀ r ∈ told, r.isOk = true)
      (all : expected n [opened] came = told ++ [.error failure])
      (answering : a.progress = .answering (.error failure) false) :
      Scene n r (some a) [opened] came (told ++ [.error failure])
  /-- It has ended with a failure. -/
  | broken {opened : Except Failure (Nat → Offer ε V)} {came : List (ε × Instant)}
      {told : List (Report V)} {failure : Failure} (values : ∀ r ∈ told, r.isOk = true)
      (all : expected n [opened] came = told ++ [.error failure]) :
      Scene n r none [opened] came (told ++ [.error failure])
  /-- It has ended after some values. -/
  | finished {offers : Nat → Offer ε V} {came : List (ε × Instant)} {told : List (Report V)}
      (flows : Flows n offers came told) (nonempty : told ≠ []) (done : offers told.length = .done) :
      Scene n r none [.ok offers] came told

/-! ## §4. What the others do. -/

/-- Whoever is not stopped by a step of another attempt stays on the list as it is. -/
theorem Turn.keeps {w w' : World ε V} {a b : Attempt ε V} {left : Option (Attempt ε V)} (t : Turn w a w' left)
    (hb : b ∈ w.cache.dispatcher.running) (other : b.number ≠ a.number)
    (spared : a.progress = .queued → a.supersedes ≠ some b.number) : b ∈ w'.cache.dispatcher.running := by
  have updated {d : Dispatcher ε V} {a' : Attempt ε V} (same : a'.number = a.number) (hb : b ∈ d.running) :
      b ∈ (d.update a').running := Dispatcher.mem_update_iff.mpr (Or.inl ⟨hb, same ▸ other⟩)
  have dismissed (queued : a.progress = .queued) :
      b ∈ (w.cache.dispatcher.dismiss a.supersedes).running :=
    Dispatcher.mem_dismiss_iff.mpr ⟨hb, spared queued⟩
  have settled (answer : Answer V) : b ∈ (w.cache.dispatcher.settle a.number answer).running := by
    rw [(Dispatcher.settle_frame w.cache.dispatcher a.number answer).1]
    exact hb
  cases t with
  | rest => exact hb
  | unbound queued => exact Dispatcher.mem_lose_iff.mpr ⟨dismissed queued, other⟩
  | refused queued | called queued | opened queued => exact updated rfl (dismissed queued)
  | wait | asked | came | ignored | stored | discarded | failed => exact updated rfl hb
  | finished => exact Dispatcher.mem_retire_iff.mpr ⟨hb, other⟩
  | died => exact Dispatcher.mem_lose_iff.mpr ⟨hb, other⟩
  | resumed => exact updated rfl (settled _)
  | ended => exact Dispatcher.mem_retire_iff.mpr ⟨settled _, other⟩

/-- A step of an attempt that is not the newest leaves the cell alone. -/
theorem Turn.cell_of_older {w w' : World ε V} {a : Attempt ε V} {left : Option (Attempt ε V)}
    (t : Turn w a w' left) (older : w.cache.dispatcher.latest ≠ a.number) :
    w'.cache.cell = w.cache.cell := by
  cases t with
  | stored _ _ latest | discarded _ _ latest | failed _ _ latest => exact absurd latest older
  | rest | wait | unbound | refused | called | opened | asked | finished | came | died | ignored | resumed
  | ended => rfl

/-- From `w` to `w'` nothing happens to the newest attempt, and to the cell nothing but that somebody takes
notice that there is no value. -/
structure Undisturbed (w w' : World ε V) : Prop where
  listed : ∀ b : Attempt ε V, b.number = w.cache.dispatcher.latest →
    b ∈ w.cache.dispatcher.running → b ∈ w'.cache.dispatcher.running
  revision : w'.cache.cell.revision = w.cache.cell.revision
  phase : w'.cache.cell.phase = w.cache.cell.phase
    ∨ ((w.cache.cell.phase = .flushed ∨ w.cache.cell.phase = .invalid false)
      ∧ ∃ refetch, w'.cache.cell.phase = .invalid refetch)

/-- **Nobody disturbs the newest attempt** who does not launch another or throw the value away. -/
theorem Step.undisturbed {w w' : World ε V} {m : Move ε V} (s : Step w m w') (ordered : Ordered w)
    (latest : w'.cache.dispatcher.latest = w.cache.dispatcher.latest) (kept : w.invalidates m = false)
    (other : m ≠ .attempt w.cache.dispatcher.latest) : Undisturbed w w' := by
  have same {c : Cache ε V} (cell : c.cell = w.cache.cell) (dispatcher : c.dispatcher = w.cache.dispatcher)
      {w' : World ε V} (cache : w'.cache.cell.phase = c.cell.phase ∧ w'.cache.cell.revision = c.cell.revision
        ∧ w'.cache.dispatcher = c.dispatcher) : Undisturbed w w' :=
    ⟨fun b _ hb => by rw [cache.2.2, dispatcher]; exact hb, by rw [cache.2.1, cell],
      Or.inl (by rw [cache.1, cell])⟩
  have touched {c : Cache ε V} (t : Cache.Touch w.cache w.now c) {w' : World ε V}
      (latest : w'.cache.dispatcher.latest = w.cache.dispatcher.latest)
      (cell : w'.cache.cell = c.cell) (dispatcher : w'.cache.dispatcher = c.dispatcher) :
      Undisturbed w w' := by
    refine ⟨fun b _ hb => ?_, cell ▸ t.revision, ?_⟩
    · rcases t.renewed with unchanged | ⟨_, renewed, _⟩
      · rw [dispatcher, unchanged]
        exact hb
      · -- a launch would take a number
        have taken := renewed.latest
        rw [dispatcher] at latest
        omega
    · rw [cell]
      rcases t.phase_cases with unchanged | ⟨refetch, invalid, before⟩ | ⟨_, _, started⟩
      · exact Or.inl unchanged
      · exact Or.inr ⟨before, refetch, invalid⟩
      · have taken := started.latest
        rw [dispatcher] at latest
        omega
  cases s with
  | aside ha | dropReader ha => exact same ha.cell ha.dispatcher ⟨rfl, rfl, rfl⟩
  | poke ha => exact same ha.cell ha.dispatcher ⟨rfl, rfl, rfl⟩
  | pass | bind | openReader | follow => exact ⟨fun _ _ hb => hb, rfl, Or.inl rfl⟩
  | invalidate _ own => exact absurd own (Bool.eq_false_iff.mp kept)
  | subscribe => exact touched (Cache.subscribe_touch w.cache w.now) latest rfl rfl
  | reader own seated ha => exact touched (Reader.step_stepped _ _ _).touch latest ha.cell ha.dispatcher
  | @attempt a left _ own running t =>
      have ha := (Dispatcher.attempt?_mem running).1
      have older : w.cache.dispatcher.latest ≠ a.number := fun newest => other (newest ▸ own)
      have cell := t.cell_of_older older
      refine ⟨fun b newest hb => ?_, by rw [cell], Or.inl (by rw [cell])⟩
      refine t.keeps hb (fun number => older (newest.symm.trans number)) (fun queued stops => ?_)
      -- it would have to be the next one
      have queues := (ordered.dispatcher.fits a ha).queues (by simp [Attempt.isExecuting, queued])
      have next := queues.supersedes _ stops
      have known := (ordered.dispatcher.bounded a ha).2
      omega

/-! ## §5. The play. -/

/-- Every value that a script offers can be copied. -/
def IsCopyable (script : Nat → Option (Nat → Offer ε V)) : Prop :=
  ∀ call offers item p, script call = some offers → offers item = .item p →
    ∀ surroundings t, p.outcome surroundings t ≠ .uncopyable

section

variable {p w : World ε V} {owner : Option String} {script : Nat → Option (Nat → Offer ε V)}
  {opened : List (Except Failure (Nat → Offer ε V))} {said : List (Said V)} {undated : Prop}

/-- Since the world `p` the newest attempt `n` has played its script up to the world `w`: it was given
`opened` when it called, `came` came out, and it said `said`.  The book dates the last value, if it is
`undated` by the program itself. -/
structure Plays (p : World ε V) (n : Nat) (owner : Option String) (script : Nat → Option (Nat → Offer ε V))
    (undated : Prop) (opened : List (Except Failure (Nat → Offer ε V))) (came : List (ε × Instant))
    (said : List (Said V)) (w : World ε V) : Prop where
  reachable : Reachable w
  launched : 0 < n
  latest : w.cache.dispatcher.latest = n
  bound : w.cache.dispatcher.binding = some ⟨.continuous script, owner⟩
  tracked : w.cache.dispatcher.Tracks n
  scripted : ∀ offers, .ok offers ∈ opened → ∃ call, script call = some offers
  scene : Scene n p.cache.cell.revision (w.cache.dispatcher.attempt? n) opened came (said.map Said.report)
  items : said.map Said.item = List.range said.length
  shows : Shows p said w
  dated : undated → w.cache.staleness.lastSuccess = dates p said
  answers : ∀ answer, w.cache.dispatcher.answer? n = some answer → ∃ first, said.head? = some first
    ∧ answer = answerTo (p.cache.cell.revision + 1) first.report

theorem attempt?_eq_none_iff {d : Dispatcher ε V} {n : Nat} :
    d.attempt? n = none ↔ ∀ a ∈ d.running, a.number ≠ n := by
  simp [Dispatcher.attempt?, List.find?_eq_none]

/-- The newest attempt stays as it is, or stays away, until it takes a step itself. -/
theorem attempt?_undisturbed {w' : World ε V} {m : Move ε V} (s : Step w m w') (ordered' : Ordered w')
    (u : Undisturbed w w') (other : m ≠ .attempt w.cache.dispatcher.latest) :
    w'.cache.dispatcher.attempt? w.cache.dispatcher.latest
      = w.cache.dispatcher.attempt? w.cache.dispatcher.latest := by
  cases running : w.cache.dispatcher.attempt? w.cache.dispatcher.latest with
  | some a =>
      obtain ⟨ha, number⟩ := Dispatcher.attempt?_mem running
      rw [← number]
      exact ordered'.dispatcher.attempt?_of_mem (u.listed a number ha)
  | none =>
      rw [attempt?_eq_none_iff] at running ⊢
      intro b hb number
      rcases s.mem_cases hb with old | rfl | own
      · exact running b old number
      · exact absurd number (Nat.succ_ne_self _)
      · exact other (number ▸ own)

/-- Nobody answers in place of the newest attempt. -/
theorem answer?_undisturbed {w' : World ε V} {m : Move ε V} (s : Step w m w') (ordered : Ordered w) {n : Nat}
    (other : m ≠ .attempt n) :
    w'.cache.dispatcher.answer? n = w.cache.dispatcher.answer? n := by
  cases before : w.cache.dispatcher.answer? n with
  | some answer => exact (s.remembers ordered).answers n answer before
  | none =>
      refine Option.eq_none_iff_forall_ne_some.mpr fun answer after => ?_
      rcases s.answer_source ordered (Dispatcher.hasAnswered_iff.mpr ⟨answer, after⟩) with answered | own
      · simp [Dispatcher.hasAnswered, before] at answered
      · exact other own

/-- Taking notice that there is no value is of no matter to what is shown. -/
theorem Displays.undisturbed {last : Option (Report V)} {phase phase' : Phase (Sourced V)}
    (h : Displays last phase) (u : phase' = phase
      ∨ ((phase = .flushed ∨ phase = .invalid false) ∧ ∃ refetch, phase' = .invalid refetch)) :
    Displays last phase' := by
  rcases u with same | ⟨noticed, invalid⟩
  · rw [same]
    exact h
  · cases last with
    | none =>
        obtain rfl := h
        rcases noticed with noticed | noticed <;> cases noticed
    | some report =>
        cases report with
        | ok content =>
            obtain rfl := h
            rcases noticed with noticed | noticed <;> cases noticed
        | error failure => exact invalid

/-- **The steps of the others leave a play where it is.** -/
theorem Plays.others (h : Plays p n owner script undated opened came said w) {m : Move ε V}
    (latest : (w.apply m).cache.dispatcher.latest = n) (kept : w.invalidates m = false)
    (unrecorded : undated → m ≠ .recordSuccess) (other : m ≠ .attempt n) :
    Plays p n owner script undated opened came said (w.apply m) := by
  have ordered := h.reachable.ordered
  have s := apply_step w m
  obtain rfl := h.latest
  have u := s.undisturbed ordered latest kept other
  have attempt := attempt?_undisturbed s (h.reachable.move m).ordered u other
  have isSealed : w.cache.dispatcher.sealed = true := Bool.of_not_eq_false fun unsealed =>
    Nat.ne_of_gt h.launched (ordered.dispatcher.unsealed unsealed)
  refine ⟨h.reachable.move m, h.launched, latest, ?_, s.tracks ordered h.tracked, h.scripted,
    attempt ▸ h.scene, h.items,
    ⟨u.revision.trans h.shows.revision, h.shows.phase.undisturbed u.phase⟩, fun own => ?_, fun answer => ?_⟩
  · exact ((s.remembers ordered).binding isSealed).2.trans h.bound
  · exact (apply_continues (unrecorded own) u.revision).lastSuccess.trans (h.dated own)
  · rw [answer?_undisturbed s ordered other]
    exact h.answers answer

/-! ## §6. Its own steps. -/

/-- An attempt that can take a step acts. -/
theorem acting?_eq {a : Attempt ε V} (running : w.cache.dispatcher.attempt? n = some a)
    (can : w.canStep a = true) : w.acting? n (.attempt n) = some a := by
  simp [acting?, running, can]

theorem attempt?_advanceTo {w : World ε V} {a : Attempt ε V}
    (running : w.cache.dispatcher.attempt? a.number = some a) (progress : Attempt.Progress ε V) :
    (w.advanceTo a progress).cache.dispatcher.attempt? a.number = some { a with progress } :=
  attempt?_update (a := { a with progress }) (by rw [running]; rfl)

theorem attempt?_retire (d : Dispatcher ε V) (n : Nat) : (d.retire n).attempt? n = none :=
  attempt?_eq_none_iff.mpr fun _ hb => (Dispatcher.mem_retire_iff.mp hb).2

/-- What is answered first is what was said first. -/
theorem Scene.first_answer {r : Nat} {a : Attempt ε V} {told : List (Report V)}
    (h : Scene n r (some a) opened came told) {answer : Answer V} {continues : Bool}
    (answering : a.progress = .answering answer continues) (first : a.item = 0) :
    ∃ report, told = [report] ∧ answer = answerTo (r + 1) report := by
  cases h with
  | waiting waits => simp [Attempt.isExecuting, answering] at waits
  | going _ _ _ next =>
      rcases next with asking | ⟨_, _, _, producing⟩ | ⟨_, stuck⟩
      · cases asking.symm.trans answering
      · cases producing.symm.trans answering
      · cases stuck.symm.trans answering
  | telling _ _ _ reporting | failing _ _ _ reporting => cases reporting.symm.trans answering
  | told _ item _ own =>
      cases own.symm.trans answering
      rw [List.length_eq_zero_iff.mp (item.symm.trans first)]
      exact ⟨_, rfl, rfl⟩
  | failed item _ _ own =>
      cases own.symm.trans answering
      rw [List.length_eq_zero_iff.mp (item.symm.trans first)]
      exact ⟨_, rfl, rfl⟩

/-- The item on its way is the one that the script offers after all that came out. -/
theorem Scene.offered {r : Nat} {a : Attempt ε V} {told : List (Report V)}
    (h : Scene n r (some a) opened came told) {due : Instant} {outcome : ε → Instant → Outcome V}
    (producing : a.progress = .producing due outcome) :
    ∃ offers p, opened = [.ok offers] ∧ offers a.item = .item p ∧ outcome = p.outcome := by
  cases h with
  | waiting waits => simp [Attempt.isExecuting, producing] at waits
  | going _ _ _ next =>
      rcases next with asking | ⟨_, p, offer, own⟩ | ⟨_, stuck⟩
      · cases asking.symm.trans producing
      · cases own.symm.trans producing
        exact ⟨_, p, rfl, offer, rfl⟩
      · cases stuck.symm.trans producing
  | telling _ _ _ other | failing _ _ _ other | told _ _ _ other | failed _ _ _ other =>
      cases other.symm.trans producing

/-- Before a value there were values only. -/
theorem Scene.of_value {r : Nat} {a : Attempt ε V} {told : List (Report V)}
    (h : Scene n r (some a) opened came told) {content : Sourced V}
    (reporting : a.progress = .reporting (.ok content)) :
    a.item = told.length ∧ ∀ r ∈ told, r.isOk = true := by
  cases h with
  | waiting waits => simp [Attempt.isExecuting, reporting] at waits
  | going _ _ _ next =>
      rcases next with asking | ⟨_, _, _, producing⟩ | ⟨_, stuck⟩
      · cases asking.symm.trans reporting
      · cases producing.symm.trans reporting
      · cases stuck.symm.trans reporting
  | telling _ item flows => exact ⟨item, fun r mem => flows.values r (List.mem_append_left _ mem)⟩
  | told _ _ _ other | failing _ _ _ other | failed _ _ _ other => cases other.symm.trans reporting

/-- **The first thing said is the answer**, whichever step the attempt takes. -/
theorem Plays.answered (h : Plays p n owner script undated opened came said w) (copyable : IsCopyable script)
    {a : Attempt ε V} (running : w.cache.dispatcher.attempt? n = some a) {answer : Answer V}
    (after : (w.apply (.attempt n)).cache.dispatcher.answer? n = some answer) :
    ∃ first, said.head? = some first ∧ answer = answerTo (p.cache.cell.revision + 1) first.report := by
  obtain ⟨listed, rfl⟩ := Dispatcher.attempt?_mem running
  have orderly := h.reachable.ordered.dispatcher
  have scene := h.scene
  rw [running] at scene
  obtain ⟨left, t⟩ := stepAttempt_turn w a
  rw [apply_attempt running] at after
  rcases t.answer_source orderly listed after with
    old | ⟨_, unanswered, ⟨continues, answering⟩ | ⟨_, gives, due, outcome, producing⟩⟩
  · exact h.answers answer old
  · have first := item_of_unanswered orderly listed (by simp [Dispatcher.hasAnswered, unanswered])
    obtain ⟨report, told, same⟩ := scene.first_answer answering first
    obtain ⟨x, single, own⟩ := List.map_eq_singleton_iff.mp told
    exact ⟨x, by rw [single]; rfl, own ▸ same⟩
  · -- it would die of a value that cannot be copied
    obtain ⟨offers, production, rfl, offer, rfl⟩ := scene.offered producing
    obtain ⟨call, scripted⟩ := h.scripted offers (List.mem_singleton.mpr rfl)
    simp only [World.gives, producing, Option.ite_none_right_eq_some, Option.some.injEq,
      Yield.came.injEq] at gives
    exact absurd gives.2 (copyable call offers a.item production scripted offer w.surroundings w.now)

/-- A step by which the attempt says nothing leaves what the cache shows as it is. -/
theorem Plays.silent (h : Plays p n owner script undated opened came said w) (copyable : IsCopyable script)
    {a : Attempt ε V} (running : w.cache.dispatcher.attempt? n = some a)
    (silent : ∀ report, a.progress ≠ .reporting report) {opened' : List (Except Failure (Nat → Offer ε V))}
    {came' : List (ε × Instant)} (scripted : ∀ offers, .ok offers ∈ opened' → ∃ call, script call = some offers)
    (scene : Scene n p.cache.cell.revision ((w.apply (.attempt n)).cache.dispatcher.attempt? n) opened' came'
      (said.map Said.report)) :
    Plays p n owner script undated opened' came' said (w.apply (.attempt n)) := by
  have listed := (Dispatcher.attempt?_mem running).1
  obtain ⟨left, t⟩ := stepAttempt_turn w a
  have stepped := apply_attempt running
  have kept := (t.progressed h.reachable.ordered.dispatcher listed).kept
  have cell := t.cell_of_silent silent
  rw [← stepped] at kept cell t
  refine ⟨h.reachable.move _, h.launched, kept.latest.trans h.latest, kept.binding.trans h.bound,
    (apply_step w _).tracks h.reachable.ordered h.tracked, scripted, scene, h.items, ⟨?_, ?_⟩, fun own => ?_,
    fun answer => h.answered copyable running⟩
  · rw [cell]
    exact h.shows.revision
  · rw [cell]
    exact h.shows.phase
  · exact (t.continues (congrArg Cell.revision cell)).lastSuccess.trans (h.dated own)

/-- The play goes on with the attempt's next step. -/
def PlaysOn (p : World ε V) (n : Nat) (owner : Option String) (script : Nat → Option (Nat → Offer ε V))
    (undated : Prop) (opened : List (Except Failure (Nat → Offer ε V))) (came : List (ε × Instant))
    (said : List (Said V)) (w : World ε V) : Prop :=
  Plays p n owner script undated (opened ++ (w.opening? n owner script (.attempt n)).toList)
    (came ++ (w.came? n (.attempt n)).toList) (said ++ (w.said? n (.attempt n)).toList) (w.apply (.attempt n))

/-- An attempt that cannot take a step, or is gone, leaves the play where it is. -/
theorem Plays.resting (h : Plays p n owner script undated opened came said w)
    (rests : ∀ a, w.cache.dispatcher.attempt? n = some a → w.canStep a = false) :
    PlaysOn p n owner script undated opened came said w := by
  have idle : w.acting? n (.attempt n) = none := by
    cases running : w.cache.dispatcher.attempt? n with
    | none => simp [acting?, running]
    | some a => simp [acting?, running, rests a running]
  have still : w.apply (.attempt n) = w := by
    show w.advanceAttempt n = w
    unfold advanceAttempt
    split
    next a running => rw [stepAttempt, if_neg (by simp [rests a running])]
    next => rfl
  unfold PlaysOn opening? came? said?
  simp only [idle, Option.bind_none, Option.toList_none, List.append_nil, still]
  exact h

/-- The attempt `a` after its call gave something: it is about to report the failure, or to ask for items. -/
def afterCall (a : Attempt ε V) : Except Failure (Nat → Offer ε V) → Attempt ε V
  | .error failure => { a with progress := .reporting (.error failure) }
  | .ok offers => { a with offers := some offers, progress := .asking }

/-- An attempt that turns to a continuous source goes on with what the call gives. -/
theorem attempt?_callSource {a : Attempt ε V}
    (bound : w.cache.dispatcher.binding = some ⟨.continuous script, owner⟩)
    (listed : ((w.replaced a).cache.dispatcher.attempt? a.number).isSome = true) :
    (w.callSource a).cache.dispatcher.attempt? a.number
      = some (afterCall a (w.opens a.number owner script)) := by
  have updated (b : Attempt ε V) (number : b.number = a.number) :
      ((w.replaced a).cache.dispatcher.update b).attempt? a.number = some b := by
    rw [← number] at listed ⊢
    exact attempt?_update listed
  have bound : (w.replaced a).cache.dispatcher.binding = some ⟨.continuous script, owner⟩ := by
    simpa [replaced, withDispatcher, withCache] using bound
  unfold callSource opens
  dsimp only
  simp only [replaced] at bound
  rw [bound]
  dsimp only
  have owned : (w.withDispatcher (·.dismiss a.supersedes)).hasOwner = w.hasOwner := rfl
  rw [owned]
  cases (if w.hasOwner then none else owner) with
  | some owner => exact updated _ rfl
  | none =>
      have counted : ((w.withDispatcher (·.dismiss a.supersedes)).noteCall a).calls.length
          = w.calls.length + 1 := rfl
      dsimp only
      rw [counted]
      cases script (w.calls.length + 1) with
      | none => exact updated _ rfl
      | some offers => exact updated _ rfl

/-- What a call gives is scripted. -/
theorem scripted_of_opens {offers : Nat → Offer ε V} (gives : w.opens n owner script = .ok offers) :
    ∃ call, script call = some offers := by
  unfold opens at gives
  split at gives
  next => cases gives
  next =>
    split at gives
    next => cases gives
    next scripted =>
      cases gives
      exact ⟨_, scripted⟩

/-- A call that gave something leads to a scene. -/
theorem Scene.of_call {r : Nat} {a : Attempt ε V} (fresh : a.item = 0)
    (given : Except Failure (Nat → Offer ε V)) : Scene n r (some (afterCall a given)) [given] [] [] := by
  cases given with
  | error failure => exact .failing fresh (fun _ mem => absurd mem List.not_mem_nil) rfl rfl
  | ok offers => exact .going rfl fresh .nil (Or.inl rfl)

/-- An attempt that has not turned to its source waits, or calls it. -/
theorem Plays.waiting (h : Plays p n owner script undated [] [] [] w) (copyable : IsCopyable script)
    {a : Attempt ε V} (running : w.cache.dispatcher.attempt? n = some a) (can : w.canStep a = true)
    (waits : a.isExecuting = false) : PlaysOn p n owner script undated [] [] [] w := by
  obtain ⟨listed, rfl⟩ := Dispatcher.attempt?_mem running
  unfold PlaysOn opening? came? said?
  rw [acting?_eq running can]
  simp only [Option.bind_some]
  cases progress : a.progress with
  | launched =>
      refine h.silent copyable running (by simp [progress]) h.scripted ?_
      rw [apply_launched running progress, attempt?_advanceTo running]
      refine .waiting ?_
      by_cases prompt : a.delay = 0 <;> simp [Attempt.isExecuting, prompt]
  | heldBack resume =>
      refine h.silent copyable running (by simp [progress]) h.scripted ?_
      rw [apply_heldBack running progress (by simpa [canStep, progress] using can),
        attempt?_advanceTo running]
      exact .waiting rfl
  | queued =>
      have queues := (h.reachable.ordered.dispatcher.fits a listed).queues waits
      -- it replaces the one before it, and so not itself
      have stays : ((w.replaced a).cache.dispatcher.attempt? a.number).isSome = true := by
        refine Dispatcher.attempt?_isSome_iff.mpr ⟨a, Dispatcher.mem_dismiss_iff.mpr ⟨listed, ?_⟩, rfl⟩
        intro itself
        have before := queues.supersedes a.number itself
        omega
      refine h.silent copyable running (by simp [progress]) (fun offers mem => ?_) ?_
      · exact scripted_of_opens (List.mem_singleton.mp mem).symm
      · rw [apply_queued running progress (by simpa [canStep, progress] using can),
          attempt?_callSource h.bound stays]
        exact .of_call queues.fresh.1 _
  | asking | producing | reporting | answering | stuck => simp [Attempt.isExecuting, progress] at waits

/-- What is left of an attempt that asks for its next item. -/
theorem Scene.of_asking {r : Nat} {a : Attempt ε V} {told : List (Report V)}
    (running : w.cache.dispatcher.attempt? a.number = some a) (offered : a.offers = some offers)
    (item : a.item = told.length) (flows : Flows a.number offers came told) :
    Scene a.number r ((w.askNext a).cache.dispatcher.attempt? a.number) [.ok offers] came told := by
  have next : a.item = came.length := item.trans flows.length
  unfold askNext
  rw [offered, Option.map_some]
  cases offer : offers a.item with
  | item production =>
      dsimp only
      rw [attempt?_advanceTo running]
      exact .going offered item flows (Or.inr (Or.inl ⟨_, production, offer, rfl⟩))
  | never =>
      dsimp only
      rw [attempt?_advanceTo running]
      exact .going offered item flows (Or.inr (Or.inr ⟨offer, rfl⟩))
  | done =>
      dsimp only
      by_cases first : a.item = 0
      · rw [if_pos first, attempt?_advanceTo running]
        refine .failing item flows.values ?_ rfl
        have all := flows.goesOn []
        rw [next] at first offer
        rw [List.append_nil, tells, offer, tellsAtEnd, if_pos first] at all
        exact all
      · rw [if_neg first]
        show Scene a.number r ((w.cache.dispatcher.retire a.number).attempt? a.number) _ _ _
        rw [attempt?_retire]
        refine .finished flows (fun none => first ?_) (item ▸ offer)
        rw [item, none]
        rfl

/-- What is left of an attempt whose next item came out. -/
theorem Scene.of_producing {r : Nat} {a : Attempt ε V} {told : List (Report V)} {production : Production ε V}
    (running : w.cache.dispatcher.attempt? a.number = some a) (offered : a.offers = some offers)
    (item : a.item = told.length) (flows : Flows a.number offers came told)
    (offer : offers a.item = .item production)
    (copied : production.outcome w.surroundings w.now ≠ .uncopyable) :
    Scene a.number r ((w.produce a production.outcome).cache.dispatcher.attempt? a.number) [.ok offers]
      (came ++ [(w.surroundings, w.now)]) told := by
  have next : a.item = came.length := item.trans flows.length
  rw [next] at offer
  have fails {failure : Failure} (report : (Yield.came (production.outcome w.surroundings w.now)).report
      a.number a.item = .error failure) : Scene a.number r
        (some { a with progress := .reporting (.error failure) }) [.ok offers]
        (came ++ [(w.surroundings, w.now)]) told :=
    .failing item flows.values (flows.failure offer (next ▸ report)) rfl
  have advanced (progress : Attempt.Progress ε V) :
      ({ w with produced := w.produced + 1 }.advanceTo a progress).cache.dispatcher.attempt? a.number
        = some { a with progress } := attempt?_advanceTo (w := { w with produced := w.produced + 1 }) running _
  unfold produce
  dsimp only
  cases out : production.outcome w.surroundings w.now with
  | value v =>
      dsimp only
      rw [advanced]
      refine .telling offered item (flows.value offer ?_) rfl
      rw [out, ← next]
      rfl
  | failed reason =>
      dsimp only
      rw [advanced]
      exact fails (by rw [out]; rfl)
  | crashed =>
      dsimp only
      rw [advanced]
      exact fails (by rw [out]; rfl)
  | uncopyable => exact absurd out copied

/-- An attempt that waits for an item asks for it, or takes it. -/
theorem Plays.going (h : Plays p n owner script undated [.ok offers] came said w) (copyable : IsCopyable script)
    {a : Attempt ε V} (running : w.cache.dispatcher.attempt? n = some a) (can : w.canStep a = true)
    (offered : a.offers = some offers) (item : a.item = (said.map Said.report).length)
    (flows : Flows n offers came (said.map Said.report))
    (next : a.progress = .asking
        ∨ (∃ due p, offers a.item = .item p ∧ a.progress = .producing due p.outcome)
        ∨ (offers a.item = .never ∧ a.progress = .stuck)) :
    PlaysOn p n owner script undated [.ok offers] came said w := by
  obtain ⟨listed, rfl⟩ := Dispatcher.attempt?_mem running
  have steps := apply_attempt running
  rw [stepAttempt, if_pos can] at steps
  unfold PlaysOn opening? came? said?
  rw [acting?_eq running can]
  simp only [Option.bind_some]
  rcases next with asking | ⟨due, production, offer, producing⟩ | ⟨_, stuck⟩
  · simp only [asking, Option.toList_none, List.append_nil]
    refine h.silent copyable running (by simp [asking]) h.scripted ?_
    rw [steps]
    simp only [asking]
    exact .of_asking running offered item flows
  · simp only [producing, Option.toList_none, Option.toList_some, List.append_nil]
    refine h.silent copyable running (by simp [producing]) h.scripted ?_
    obtain ⟨call, scripted⟩ := h.scripted offers (List.mem_singleton.mpr rfl)
    rw [steps]
    simp only [producing]
    exact .of_producing running offered item flows offer
      (copyable call offers a.item production scripted offer w.surroundings w.now)
  · rw [canStep, stuck] at can
    cases can

/-- An attempt says what it was about to say, of its current item. -/
theorem Plays.speaks (h : Plays p n owner script undated opened came said w) (copyable : IsCopyable script)
    {a : Attempt ε V} (running : w.cache.dispatcher.attempt? n = some a) {report : Report V}
    (reporting : a.progress = .reporting report) (item : a.item = (said.map Said.report).length)
    (scene : Scene n p.cache.cell.revision ((w.apply (.attempt n)).cache.dispatcher.attempt? n) opened came
      (said.map Said.report ++ [report]))
    (shows : Shows p (said ++ [⟨w.now, a.item, report⟩]) (w.apply (.attempt n)))
    (dated : undated → (w.apply (.attempt n)).cache.staleness.lastSuccess
      = dates p (said ++ [⟨w.now, a.item, report⟩])) :
    PlaysOn p n owner script undated opened came said w := by
  have listed := (Dispatcher.attempt?_mem running).1
  obtain ⟨left, t⟩ := stepAttempt_turn w a
  rw [← apply_attempt running] at t
  have kept := (t.progressed h.reachable.ordered.dispatcher listed).kept
  unfold PlaysOn opening? came? said?
  rw [acting?_eq running (by simp [canStep, reporting])]
  simp only [Option.bind_some, reporting, Option.toList_none, Option.toList_some, List.append_nil]
  refine ⟨h.reachable.move _, h.launched, kept.latest.trans h.latest, kept.binding.trans h.bound,
    (apply_step w _).tracks h.reachable.ordered h.tracked, h.scripted, ?_, ?_, shows, dated,
    fun answer after => ?_⟩
  · rw [List.map_append]
    exact scene
  · rw [List.map_append, h.items, List.length_append, item, List.length_map]
    exact List.range_succ.symm
  · obtain ⟨first, head, same⟩ := h.answered copyable running after
    exact ⟨first, by rw [List.head?_append, head, Option.some_or], same⟩

/-- Values only are all values. -/
theorem values_eq (good : ∀ r ∈ said.map Said.report, r.isOk = true) : values said = said :=
  List.filter_eq_self.mpr fun _ hx => good _ (List.mem_map_of_mem hx)

/-- As long as an attempt said values only, its next value is kept. -/
theorem Shows.keeps (h : Shows p said w) (good : ∀ r ∈ said.map Said.report, r.isOk = true) :
    w.cache.keeps said.length = true := by
  have phase := h.phase
  unfold Cache.keeps
  by_cases none : said = []
  · subst none
    rw [if_pos List.length_nil, show w.cache.cell.phase = .calculating from phase]
    rfl
  · rw [if_neg (fun empty => none (List.length_eq_zero_iff.mp empty))]
    have mem := List.getLast_mem none
    rw [List.getLast?_eq_some_getLast none, Option.map_some] at phase
    have value := good _ (List.mem_map_of_mem mem)
    cases report : (said.getLast none).report with
    | error failure =>
        rw [report] at value
        cases value
    | ok content =>
        rw [report] at phase
        rw [show w.cache.cell.phase = .holding (.concealed content) from phase]
        rfl

/-- **A value is stored**, whichever item it is of. -/
theorem Plays.keeps (h : Plays p n owner script undated opened came said w) {a : Attempt ε V}
    (running : w.cache.dispatcher.attempt? n = some a) {content : Sourced V}
    (reporting : a.progress = .reporting (.ok content)) : w.cache.keeps a.item = true := by
  have scene := h.scene
  rw [running] at scene
  obtain ⟨item, good⟩ := scene.of_value reporting
  rw [item, List.length_map]
  exact h.shows.keeps good

/-- An attempt that is about to report a value reports it, and it is stored. -/
theorem Plays.telling (h : Plays p n owner script undated [.ok offers] came said w)
    (copyable : IsCopyable script) (alive : w.isCacheAlive = true) {a : Attempt ε V}
    (running : w.cache.dispatcher.attempt? n = some a) {content : Sourced V} (offered : a.offers = some offers)
    (item : a.item = (said.map Said.report).length)
    (flows : Flows n offers came (said.map Said.report ++ [.ok content]))
    (reporting : a.progress = .reporting (.ok content)) :
    PlaysOn p n owner script undated [.ok offers] came said w := by
  obtain ⟨listed, rfl⟩ := Dispatcher.attempt?_mem running
  have good (r : Report V) (mem : r ∈ said.map Said.report) : r.isOk = true :=
    flows.values r (List.mem_append_left _ mem)
  have revision : w.cache.cell.revision = p.cache.cell.revision + (said.map Said.report).length := by
    rw [h.shows.revision, values_eq good, List.length_map]
  have steps := apply_stores running reporting alive h.latest (h.keeps running reporting)
  have all (x : Said V) (value : x.report = .ok content) : values (said ++ [x]) = said ++ [x] := by
    refine values_eq fun r mem => flows.values r ?_
    rw [List.map_append, List.map_singleton, value] at mem
    exact mem
  refine h.speaks copyable running reporting item ?_ ⟨?_, ?_⟩ fun _ => ?_
  · rw [steps, attempt?_advanceTo (by exact running), offered, revision]
    exact .told rfl item flows rfl
  · rw [List.length_map] at revision
    rw [steps, all _ rfl, List.length_append, ← Nat.add_assoc, ← revision]
    rfl
  · rw [steps, List.getLast?_append]
    exact rfl
  · rw [steps, dates, all _ rfl, List.getLast?_append]
    exact (Staleness.recordSuccess_frame _ _).2.1

/-- An attempt that is about to report a failure reports it, and the value is gone. -/
theorem Plays.failing (h : Plays p n owner script undated opened came said w)
    (copyable : IsCopyable script) (alive : w.isCacheAlive = true) {a : Attempt ε V}
    (running : w.cache.dispatcher.attempt? n = some a) {given : Except Failure (Nat → Offer ε V)}
    (own : opened = [given]) {failure : Failure}
    (item : a.item = (said.map Said.report).length) (good : ∀ r ∈ said.map Said.report, r.isOk = true)
    (all : expected n [given] came = said.map Said.report ++ [.error failure])
    (reporting : a.progress = .reporting (.error failure)) :
    PlaysOn p n owner script undated opened came said w := by
  obtain ⟨listed, rfl⟩ := Dispatcher.attempt?_mem running
  have steps := apply_fails running reporting alive h.latest
  have same (x : Said V) (fails : x.report = .error failure) : values (said ++ [x]) = values said := by
    simp [values, fails, Except.isOk, Except.toBool]
  refine h.speaks copyable running reporting item ?_ ⟨?_, ?_⟩ fun undated => ?_
  · rw [steps, attempt?_advanceTo (by exact running), own]
    exact .failed item good all rfl
  · rw [steps, same _ rfl]
    exact h.shows.revision
  · rw [steps, List.getLast?_append]
    exact ⟨false, rfl⟩
  · rw [steps, dates, same _ rfl]
    exact h.dated undated

/-- An attempt that has reported answers, and goes on after a value. -/
theorem Plays.answering (h : Plays p n owner script undated opened came said w) (copyable : IsCopyable script)
    {a : Attempt ε V} (running : w.cache.dispatcher.attempt? n = some a) {answer : Answer V} {continues : Bool}
    (answering : a.progress = .answering answer continues)
    (scene : Scene n p.cache.cell.revision
      (if continues then some { a with item := a.item + 1, progress := .asking } else none) opened came
      (said.map Said.report)) : PlaysOn p n owner script undated opened came said w := by
  obtain ⟨listed, rfl⟩ := Dispatcher.attempt?_mem running
  obtain ⟨list, _⟩ := Dispatcher.settle_frame w.cache.dispatcher a.number answer
  have steps := apply_answering running answering
  unfold PlaysOn opening? came? said?
  rw [acting?_eq running (by simp [canStep, answering])]
  simp only [Option.bind_some, answering, Option.toList_none, List.append_nil]
  refine h.silent copyable running (by simp [answering]) h.scripted ?_
  rw [steps]
  cases continues with
  | true =>
      have settled : (w.cache.dispatcher.settle a.number answer).attempt? a.number = some a := by
        rw [Dispatcher.attempt?, list]
        exact running
      have resumed : ((w.cache.dispatcher.settle a.number answer).update
          { a with item := a.item + 1, progress := .asking }).attempt? a.number
          = some { a with item := a.item + 1, progress := .asking } :=
        attempt?_update (a := { a with item := a.item + 1, progress := .asking })
          (Option.isSome_iff_exists.mpr ⟨a, settled⟩)
      rw [World.answer, if_pos rfl]
      show Scene a.number _ (((w.cache.dispatcher.settle a.number answer).update _).attempt? a.number) _ _ _
      rw [resumed]
      exact scene
  | false =>
      rw [World.answer, if_neg Bool.false_ne_true]
      show Scene a.number _ (((w.cache.dispatcher.settle a.number answer).retire a.number).attempt? a.number) _ _ _
      rw [attempt?_retire]
      exact scene

/-- **The attempt's own steps go on with the play.** -/
theorem Plays.own (h : Plays p n owner script undated opened came said w) (copyable : IsCopyable script)
    (alive : w.isCacheAlive = true) : PlaysOn p n owner script undated opened came said w := by
  cases running : w.cache.dispatcher.attempt? n with
  | none => exact h.resting fun a found => by cases running.symm.trans found
  | some a => ?_
  by_cases can : w.canStep a = true
  case neg =>
    refine h.resting fun b found => ?_
    cases running.symm.trans found
    exact Bool.eq_false_iff.mpr can
  have scene := h.scene
  rw [running] at scene
  generalize ht : said.map Said.report = told at scene
  cases scene with
  | waiting waits =>
      obtain rfl := List.map_eq_nil_iff.mp ht
      exact h.waiting copyable running can waits
  | going offered item flows next =>
      subst ht
      exact h.going copyable running can offered item flows next
  | telling offered item flows reporting =>
      subst ht
      exact h.telling copyable alive running offered item flows reporting
  | told offered item flows answering =>
      refine h.answering copyable running answering ?_
      rw [if_pos rfl, ht]
      exact .going offered (by rw [item]; simp) flows (Or.inl rfl)
  | failing item good all reporting =>
      subst ht
      exact h.failing copyable alive running rfl item good all reporting
  | failed item good all answering =>
      refine h.answering copyable running answering ?_
      rw [if_neg Bool.false_ne_true, ht]
      exact .broken good all

/-! ## §7. The whole play. -/

theorem latest_le_run {w : World ε V} (h : Reachable w) (moves : List (Move ε V)) :
    w.cache.dispatcher.latest ≤ (w.run moves).cache.dispatcher.latest := by
  induction moves generalizing w with
  | nil => exact Nat.le_refl _
  | cons m moves ih =>
      exact Nat.le_trans ((apply_step w m).remembers h.ordered).latest (ih (h.move m))

/-- A cache that is in being at the end was so before. -/
theorem alive_of_run {w : World ε V} {moves : List (Move ε V)} (alive : (w.run moves).isCacheAlive = true) :
    w.isCacheAlive = true := by
  induction moves generalizing w with
  | nil => exact alive
  | cons m moves ih => exact (apply_step w m).alive (ih alive)

/-- Only its own steps show anything of an attempt. -/
theorem acting?_other {m : Move ε V} (other : m ≠ .attempt n) (w : World ε V) : w.acting? n m = none := by
  unfold acting?
  split
  next k => exact if_neg fun same => other (congrArg Move.attempt same)
  next => rfl

/-- **A stream that is left in peace plays on.** -/
theorem Plays.run (h : Plays p n owner script undated opened came said w) (copyable : IsCopyable script)
    {moves : List (Move ε V)} (latest : (w.run moves).cache.dispatcher.latest = n)
    (kept : w.never invalidates moves = true) (unrecorded : undated → .recordSuccess ∉ moves)
    (alive : (w.run moves).isCacheAlive = true) :
    Plays p n owner script undated (opened ++ w.observed (opening? n owner script) moves)
      (came ++ w.observed (came? n) moves) (said ++ w.observed (said? n) moves) (w.run moves) := by
  induction moves generalizing w opened came said with
  | nil =>
      simp only [observed, List.append_nil]
      exact h
  | cons m moves ih =>
      obtain ⟨spared, kept⟩ := never_cons.mp kept
      have here : (w.apply m).cache.dispatcher.latest = n := by
        have before := ((apply_step w m).remembers h.reachable.ordered).latest
        have after := latest_le_run (h.reachable.move m) moves
        rw [run_cons] at latest
        rw [h.latest] at before
        omega
      have next : Plays p n owner script undated (opened ++ (w.opening? n owner script m).toList)
          (came ++ (w.came? n m).toList) (said ++ (w.said? n m).toList) (w.apply m) := by
        by_cases own : m = .attempt n
        · rw [own]
          exact h.own copyable (alive_of_run alive)
        · unfold opening? came? said?
          simp only [acting?_other own, Option.bind_none, Option.toList_none, List.append_nil]
          exact h.others here spared (fun dated same => unrecorded dated (same ▸ List.mem_cons_self)) own
      have later := ih next latest kept (fun dated mem => unrecorded dated (List.mem_cons_of_mem _ mem)) alive
      simp only [List.append_assoc] at later
      exact later

/-- A play begins with the launch. -/
theorem Plays.begin {w : World ε V} (h : Reachable w) {m : Move ε V} (launched : w.launches m = true)
    (bound : (w.apply m).cache.dispatcher.binding = some ⟨.continuous script, owner⟩) (undated : Prop) :
    Plays (w.apply m) (w.apply m).cache.dispatcher.latest owner script undated [] [] [] (w.apply m) := by
  obtain ⟨seat, next, _, _, started, same, phase, _⟩ := launch_cases h launched
  have started := Dispatcher.launch_started started
  have reachable := h.move m
  have newest : (w.apply m).cache.dispatcher.latest = w.cache.dispatcher.latest + 1 := by
    rw [same]
    exact started.latest
  have listed : w.cache.dispatcher.newest w.now ∈ (w.apply m).cache.dispatcher.running := by
    rw [same, started.running]
    exact List.mem_append_right _ (List.mem_singleton.mpr rfl)
  have running := reachable.ordered.dispatcher.attempt?_of_mem listed
  have queues := (reachable.ordered.dispatcher.fits _ listed).queues rfl
  have number : (w.cache.dispatcher.newest w.now).number = (w.apply m).cache.dispatcher.latest := newest.symm
  rw [number] at running
  refine ⟨reachable, newest ▸ Nat.succ_pos _, rfl, bound, Or.inr ⟨_, listed, number⟩,
    fun _ mem => absurd mem List.not_mem_nil, ?_, rfl, ⟨rfl, phase⟩, fun _ => rfl, fun answer given => ?_⟩
  · rw [running]
    exact .waiting rfl
  · have unanswered := queues.unanswered
    rw [number, Dispatcher.hasAnswered, given] at unanswered
    cases unanswered

/-- A script that has not ended empty tells nothing at its end. -/
theorem tellsAtEnd_later {k : Nat} (later : k ≠ 0) (offer : Offer ε V) : tellsAtEnd n k offer = [] := by
  cases offer with
  | done => exact if_neg later
  | item | never => rfl

theorem Flows.tells_eq_append (h : Flows n offers came told) :
    tells n offers 0 came = told ++ tellsAtEnd n came.length (offers came.length) := by
  have all := h.goesOn []
  rw [List.append_nil] at all
  exact all

theorem Flows.tells_eq_told (h : Flows n offers came told) (nonempty : told ≠ []) :
    tells n offers 0 came = told := by
  have later : came.length ≠ 0 := by
    rw [← h.length]
    exact fun none => nonempty (List.length_eq_zero_iff.mp none)
  rw [h.tells_eq_append, tellsAtEnd_later later, List.append_nil]

section

variable {r : Nat} {on : Option (Attempt ε V)} {told : List (Report V)}

theorem Scene.once (h : Scene n r on opened came told) : opened.length ≤ 1 := by
  cases h <;> simp

/-- What was told is what the script tells, as far as it goes. -/
theorem Scene.inOrder (h : Scene n r on opened came told) : told <+: expected n opened came := by
  cases h with
  | waiting => exact List.nil_prefix
  | going _ _ flows => exact ⟨_, flows.tells_eq_append.symm⟩
  | telling _ _ flows => exact ⟨_, (flows.tells_eq_append.trans (List.append_assoc ..)).symm⟩
  | told _ _ flows => exact ⟨_, flows.tells_eq_append.symm⟩
  | failing _ _ all => exact ⟨_, all.symm⟩
  | failed _ _ all | broken _ all => exact ⟨[], (List.append_nil _).trans all.symm⟩
  | finished flows => exact ⟨_, flows.tells_eq_append.symm⟩

/-- Whoever has said something goes on with a later item, or is about to answer. -/
theorem Scene.spoken {a : Attempt ε V} (h : Scene n r (some a) opened came told) (spoken : told ≠ []) :
    (a.isExecuting = true ∧ a.item ≠ 0) ∨ ∃ answer continues, a.progress = .answering answer continues := by
  have later (item : a.item = told.length) : a.item ≠ 0 :=
    fun none => spoken (List.length_eq_zero_iff.mp (item ▸ none))
  cases h with
  | waiting => exact absurd rfl spoken
  | going _ item _ next =>
      refine Or.inl ⟨?_, later item⟩
      rcases next with asking | ⟨_, _, _, producing⟩ | ⟨_, stuck⟩ <;> simp [Attempt.isExecuting, *]
  | telling _ item _ reporting | failing item _ _ reporting =>
      exact Or.inl ⟨by simp [Attempt.isExecuting, reporting], later item⟩
  | told _ _ _ answering | failed _ _ _ answering => exact Or.inr ⟨_, _, answering⟩

/-- Up to a value there were values only. -/
theorem Scene.good (h : Scene n r on opened came told) {content : Sourced V}
    (last : told.getLast? = some (.ok content)) : ∀ r ∈ told, r.isOk = true := by
  cases h with
  | waiting => cases last
  | going _ _ flows | told _ _ flows | finished flows => exact flows.values
  | telling _ _ flows => exact fun r mem => flows.values r (List.mem_append_left _ mem)
  | failing _ good => exact good
  | failed | broken => simp at last

/-- Who is gone has told all. -/
theorem Scene.ended (h : Scene n r none opened came told) : told = expected n opened came
    ∧ ((∃ failure, told.getLast? = some (.error failure))
      ∨ told ≠ [] ∧ ∃ offers, opened = [.ok offers] ∧ offers told.length = .done) := by
  cases h with
  | broken _ all => exact ⟨all.symm, Or.inl ⟨_, List.getLast?_concat ..⟩⟩
  | finished flows nonempty done =>
      exact ⟨(flows.tells_eq_told nonempty).symm, Or.inr ⟨nonempty, _, rfl, done⟩⟩

end

/-- An attempt that is about to report says it with its next step. -/
theorem said?_of_reporting {a : Attempt ε V} (running : w.cache.dispatcher.attempt? n = some a)
    {report : Report V} (reporting : a.progress = .reporting report) :
    w.said? n (.attempt n) = some ⟨w.now, a.item, report⟩ := by
  rw [said?, acting?_eq running (by simp [canStep, reporting])]
  simp only [Option.bind_some, reporting]

/-- **Nothing is held back**: what the script tells beyond what was said is said within two steps. -/
theorem Plays.soon (h : Plays p n owner script undated opened came said w) :
    said.map Said.report = expected n opened came ∨ (w.said? n (.attempt n)).isSome = true
      ∨ ((w.apply (.attempt n)).said? n (.attempt n)).isSome = true := by
  have reports {a : Attempt ε V} (running : w.cache.dispatcher.attempt? n = some a) {report : Report V}
      (reporting : a.progress = .reporting report) : (w.said? n (.attempt n)).isSome = true := by
    rw [said?_of_reporting running reporting]
    rfl
  have scene := h.scene
  generalize said.map Said.report = told at scene
  cases running : w.cache.dispatcher.attempt? n with
  | none =>
      rw [running] at scene
      exact Or.inl scene.ended.1
  | some a =>
      rw [running] at scene
      obtain ⟨listed, rfl⟩ := Dispatcher.attempt?_mem running
      cases scene with
      | waiting => exact Or.inl rfl
      | told _ _ flows => exact Or.inl (flows.tells_eq_told (by simp)).symm
      | failed _ _ all => exact Or.inl all.symm
      | telling _ _ _ reporting | failing _ _ _ reporting => exact Or.inr (Or.inl (reports running reporting))
      | @going _ offers _ told offered item flows next =>
          by_cases none : told = []
          case neg => exact Or.inl (flows.tells_eq_told none).symm
          case pos =>
            subst none
            -- nothing is told before the first item but that there is none
            have first : came.length = 0 := flows.length.symm
            have same := flows.tells_eq_append
            rw [first] at same
            cases offer : offers 0 with
            | item | never =>
                rw [offer] at same
                exact Or.inl same.symm
            | done =>
                have asking : a.progress = .asking := by
                  rw [item, List.length_nil, offer] at next
                  rcases next with asking | ⟨_, _, promised, _⟩ | ⟨never, _⟩
                  · exact asking
                  · cases promised
                  · cases never
                have empty : w.apply (.attempt a.number)
                    = w.advanceTo a (.reporting (.error (a.failure Failure.emptyReason))) := by
                  rw [apply_attempt running, stepAttempt, if_pos (by simp [canStep, asking])]
                  simp only [asking, askNext, offered, Option.map_some, item, List.length_nil, offer, if_true]
                refine Or.inr (Or.inr ?_)
                rw [empty, said?_of_reporting (attempt?_advanceTo running _) rfl]
                rfl

/-- **Whoever has said something answers with its next step**, unless it has answered. -/
theorem Plays.answers_next (h : Plays p n owner script undated opened came said w) (spoken : said ≠ []) :
    (w.apply (.attempt n)).cache.dispatcher.hasAnswered n = true := by
  have kept (answered : w.cache.dispatcher.hasAnswered n = true) :
      (w.apply (.attempt n)).cache.dispatcher.hasAnswered n = true := by
    obtain ⟨answer, given⟩ := Dispatcher.hasAnswered_iff.mp answered
    exact Dispatcher.hasAnswered_iff.mpr
      ⟨answer, ((apply_step w _).remembers h.reachable.ordered).answers n answer given⟩
  rcases h.tracked with answered | ⟨a, listed, rfl⟩
  · exact kept answered
  · have running := h.reachable.ordered.dispatcher.attempt?_of_mem listed
    have scene := h.scene
    rw [running] at scene
    rcases scene.spoken (fun none => spoken (List.map_eq_nil_iff.mp none)) with
      ⟨executing, later⟩ | ⟨answer, continues, answering⟩
    · exact kept (((h.reachable.ordered.dispatcher.fits a listed).executes executing).delivered.mpr later)
    · exact apply_answers running answering

/-- The waiters are given what was said first. -/
theorem Plays.answersWith (h : Plays p n owner script undated opened came said w) (copyable : IsCopyable script)
    {first : Said V} (head : said.head? = some first) :
    AnswersWith n (answerTo (p.cache.cell.revision + 1) first.report) w := by
  have spoken : said ≠ [] := fun none => by
    rw [none] at head
    cases head
  obtain ⟨answer, given⟩ := Dispatcher.hasAnswered_iff.mp (h.answers_next spoken)
  have same : answer = answerTo (p.cache.cell.revision + 1) first.report := by
    cases running : w.cache.dispatcher.attempt? n with
    | some a =>
        obtain ⟨x, own, same⟩ := h.answered copyable running given
        cases head.symm.trans own
        exact same
    | none =>
        have still : w.apply (.attempt n) = w := by
          show w.advanceAttempt n = w
          simp only [advanceAttempt, running]
        rw [still] at given
        obtain ⟨x, own, same⟩ := h.answers answer given
        cases head.symm.trans own
        exact same
  rw [← same]
  exact answersWith_of_given h.reachable given

/-- Whoever has only its last answer left says nothing to the cache. -/
theorem Muted.unsaid {b : Attempt ε V} {answer : Answer V} (last : b.progress = .answering answer false)
    {w : World ε V} (h : Muted b w) (m : Move ε V) : w.said? b.number m = none := by
  cases acting : w.acting? b.number m with
  | none => rw [said?, acting, Option.bind_none]
  | some a =>
      have own : a = b := by
        unfold acting? at acting
        split at acting
        next k =>
          split at acting
          next =>
            obtain ⟨ha, number⟩ := Dispatcher.attempt?_mem (Option.filter_eq_some_iff.mp acting).1
            exact h.only a ha number
          next => cases acting
        next => cases acting
      rw [said?, acting, own]
      simp only [Option.bind_some, last]

theorem Muted.silent {b : Attempt ε V} {answer : Answer V} (last : b.progress = .answering answer false)
    {w : World ε V} (h : Muted b w) (reachable : Reachable w) (more : List (Move ε V)) :
    w.observed (said? b.number) more = [] := by
  induction more generalizing w with
  | nil => rfl
  | cons m more ih =>
      show (w.said? b.number m).toList ++ _ = []
      rw [h.unsaid last m, ih (h.step last reachable.ordered (apply_step w m)) (reachable.move m)]
      rfl

/-- **After a failure, or at its end, an attempt says nothing more.** -/
theorem Plays.silenced (h : Plays p n owner script undated opened came said w)
    (finished : (∃ x ∈ said, x.report.isOk = false) ∨ w.cache.dispatcher.attempt? n = none)
    (more : List (Move ε V)) : w.observed (said? n) more = [] := by
  have gone (absent : w.cache.dispatcher.attempt? n = none) : w.observed (said? n) more = [] := by
    let b : Attempt ε V := ⟨n, 0, none, none, none, 0, .answering (.error .unbound) false⟩
    exact Muted.silent (b := b) rfl ⟨Nat.le_of_eq h.latest.symm,
      fun c hc number => absurd number (attempt?_eq_none_iff.mp absent c hc)⟩ h.reachable more
  rcases finished with ⟨x, mem, fails⟩ | absent
  · have scene := h.scene
    have bad : ¬∀ r ∈ said.map Said.report, r.isOk = true := fun good => by
      have value := good _ (List.mem_map_of_mem mem)
      rw [fails] at value
      cases value
    cases running : w.cache.dispatcher.attempt? n with
    | none => exact gone running
    | some a =>
        obtain ⟨listed, number⟩ := Dispatcher.attempt?_mem running
        rw [running] at scene
        generalize said.map Said.report = told at scene bad
        cases scene with
        | waiting => exact absurd (fun _ mem => absurd mem List.not_mem_nil) bad
        | going _ _ flows | told _ _ flows => exact absurd flows.values bad
        | telling _ _ flows => exact absurd (fun r mem => flows.values r (List.mem_append_left _ mem)) bad
        | failing _ good => exact absurd good bad
        | failed _ _ _ answering =>
            rw [← number]
            refine Muted.silent answering ⟨Nat.le_of_eq (number.trans h.latest.symm), fun c hc same => ?_⟩
              h.reachable more
            exact h.reachable.ordered.dispatcher.eq_of_number hc listed same
  · exact gone absent

/-- A step of an attempt that does not report leaves the book alone. -/
theorem Turn.book_of_silent {w w' : World ε V} {a : Attempt ε V} {left : Option (Attempt ε V)}
    (t : Turn w a w' left) (silent : ∀ report, a.progress ≠ .reporting report) :
    w'.cache.staleness = w.cache.staleness := by
  cases t with
  | ignored reporting | stored reporting | discarded reporting | failed reporting =>
      exact absurd reporting (silent _)
  | rest | wait | unbound | refused | called | opened | asked | finished | came | died | resumed
  | ended => rfl

/-- An attempt that says nothing with its next step leaves the cell and the book alone with it. -/
theorem quiet_of_unsaid (unsaid : w.said? n (.attempt n) = none) :
    (w.apply (.attempt n)).cache.cell = w.cache.cell
      ∧ (w.apply (.attempt n)).cache.staleness = w.cache.staleness := by
  cases running : w.cache.dispatcher.attempt? n with
  | none =>
      have still : w.apply (.attempt n) = w := by
        show w.advanceAttempt n = w
        simp only [advanceAttempt, running]
      rw [still]
      exact ⟨rfl, rfl⟩
  | some a =>
      have silent (report : Report V) (reporting : a.progress = .reporting report) : False := by
        rw [said?_of_reporting running reporting] at unsaid
        cases unsaid
      obtain ⟨left, t⟩ := stepAttempt_turn w a
      rw [apply_attempt running]
      exact ⟨t.cell_of_silent silent, t.book_of_silent silent⟩

/-- Whoever says something with a step was about to report it. -/
theorem reporting_of_said {x : Said V} (told : w.said? n (.attempt n) = some x) :
    ∃ a, w.cache.dispatcher.attempt? n = some a ∧ a.progress = .reporting x.report ∧ x.time = w.now := by
  obtain ⟨a, acting, own⟩ := Option.bind_eq_some_iff.mp told
  rw [acting?, if_pos rfl] at acting
  refine ⟨a, (Option.filter_eq_some_iff.mp acting).1, ?_⟩
  split at own
  next report reporting =>
    cases own
    exact ⟨reporting, rfl⟩
  next => cases own

/-- What the attempt `n`, launched in the world `p`, has done by the world `q`, if its source gave `opened`
when it was called, `came` came out, and it said `said`. -/
structure Recounted (p : World ε V) (n : Nat) (undated : Prop)
    (opened : List (Except Failure (Nat → Offer ε V))) (came : List (ε × Instant)) (said : List (Said V))
    (q : World ε V) : Prop where
  /-- It turns to its source once. -/
  once : opened.length ≤ 1
  /-- It tells what the script tells, and in this order. -/
  inOrder : said.map Said.report <+: expected n opened came
  /-- What it still has to tell it tells within two of its steps. -/
  soon : said.map Said.report = expected n opened came ∨ (q.said? n (.attempt n)).isSome = true
    ∨ ((q.apply (.attempt n)).said? n (.attempt n)).isSome = true
  /-- Its reports are numbered from 0, so only the first of them is a first one. -/
  items : said.map Said.item = List.range said.length
  /-- The first report answers the waiters, and nothing else does. -/
  unanswered : said = [] → q.cache.dispatcher.answer? n = none
  answers : ∀ first, said.head? = some first →
    AnswersWith n (answerTo (p.cache.cell.revision + 1) first.report) q
  /-- Before the first report the cell waits. -/
  waits : said = [] → q.cache.cell.phase = .calculating ∧ q.cache.cell.revision = p.cache.cell.revision
  /-- After a value the cell holds it, and as many values were stored as were reported. -/
  holds : ∀ x content, said.getLast? = some x → x.report = .ok content →
    q.cache.cell.phase = .holding (.concealed content)
      ∧ q.cache.cell.revision = p.cache.cell.revision + said.length
      ∧ (undated → q.cache.staleness.lastSuccess = some x.time)
  /-- Each value is stored with its report, whichever it is, and dated with it. -/
  stores : ∀ x content, q.said? n (.attempt n) = some x → x.report = .ok content →
    (q.apply (.attempt n)).cache.cell.phase = .holding (.concealed content)
      ∧ (q.apply (.attempt n)).cache.cell.revision = q.cache.cell.revision + 1
      ∧ (q.apply (.attempt n)).cache.staleness.lastSuccess = some x.time
  /-- With a failure the value is gone. -/
  breaks : ∀ x failure, q.said? n (.attempt n) = some x → x.report = .error failure →
    (q.apply (.attempt n)).cache.cell.phase = .invalid false
      ∧ (q.apply (.attempt n)).cache.cell.revision = q.cache.cell.revision
  /-- A step without a report changes neither the cell nor the book. -/
  silent : q.said? n (.attempt n) = none → (q.apply (.attempt n)).cache.cell = q.cache.cell
    ∧ (q.apply (.attempt n)).cache.staleness = q.cache.staleness
  /-- After a failure, or at its end, it says nothing more, whatever happens. -/
  silenced : (∃ x ∈ said, x.report.isOk = false) ∨ q.cache.dispatcher.attempt? n = none →
    ∀ more, q.observed (said? n) more = []
  /-- If it has ended it has told all, and its script has ended too. -/
  ended : q.cache.dispatcher.attempt? n = none → said.map Said.report = expected n opened came
    ∧ ((∃ failure, said.getLast?.map Said.report = some (.error failure))
      ∨ said ≠ [] ∧ ∃ offers, opened = [.ok offers] ∧ offers said.length = .done)

/-- A play is what the attempt has done. -/
theorem Plays.recounted (h : Plays p n owner script undated opened came said w) (copyable : IsCopyable script)
    (alive : w.isCacheAlive = true) : Recounted p n undated opened came said w := by
  refine ⟨h.scene.once, h.scene.inOrder, h.soon, h.items, fun none => ?_, fun first head => h.answersWith copyable head,
    fun none => ?_, fun x content last value => ?_, fun x content told value => ?_,
    fun x failure told fails => ?_, quiet_of_unsaid, h.silenced,
    fun absent => ?_⟩
  · refine Option.eq_none_iff_forall_ne_some.mpr fun answer given => ?_
    obtain ⟨first, head, _⟩ := h.answers answer given
    rw [none] at head
    cases head
  · have shows := h.shows
    rw [none] at shows
    exact ⟨shows.phase, shows.revision⟩
  · have last' : (said.map Said.report).getLast? = some (.ok content) := by
      rw [List.getLast?_map, last, Option.map_some, value]
    have all := values_eq (h.scene.good last')
    refine ⟨?_, ?_, fun own => ?_⟩
    · have phase := h.shows.phase
      rw [last, Option.map_some, value] at phase
      exact phase
    · rw [h.shows.revision, all]
    · rw [h.dated own, dates, all, last]
      rfl
  · obtain ⟨a, running, reporting, time⟩ := reporting_of_said told
    obtain ⟨_, rfl⟩ := Dispatcher.attempt?_mem running
    rw [value] at reporting
    rw [apply_stores running reporting alive h.latest (h.keeps running reporting), time]
    exact ⟨rfl, rfl, (Staleness.recordSuccess_frame _ _).2.1⟩
  · obtain ⟨a, running, reporting, _⟩ := reporting_of_said told
    obtain ⟨_, rfl⟩ := Dispatcher.attempt?_mem running
    rw [fails] at reporting
    rw [apply_fails running reporting alive h.latest]
    exact ⟨rfl, rfl⟩
  · have scene := h.scene
    rw [absent] at scene
    obtain ⟨all, last⟩ := scene.ended
    refine ⟨all, ?_⟩
    rw [List.getLast?_map, List.length_map] at last
    exact last.imp_right (And.imp_left fun spoken none => spoken (List.map_eq_nil_iff.mpr none))

end

/-- **A stream that is left in peace plays its script.**  Launch an attempt with a continuous source, whose
values can be copied, and let anything happen after it, as long as no newer attempt is launched, nobody
throws the value away and the cache is in being.  Then its reports are the items that came out, in order, up
to the first failure, the failure of the call or the end, and a stream that ends empty reports that.  The
first report, and no other, is one of a first item and answers the waiters.  After each value the cell holds
it, as many values as were reported have been stored, and the last success is the instant of the report, if the
program does not record successes of its own.  A failure leaves the cell invalid, and after it, or after the
end, the attempt never says anything again; its steps without a report, the last one among them, change
neither the cell nor the book. -/
theorem plays_its_script {w : World ε V} (h : Reachable w) {m : Move ε V} (launched : w.launches m = true)
    {script : Nat → Option (Nat → Offer ε V)} {owner : Option String}
    (bound : (w.apply m).cache.dispatcher.binding = some ⟨.continuous script, owner⟩)
    (copyable : IsCopyable script) (moves : List (Move ε V)) :
    let p := w.apply m
    let n := p.cache.dispatcher.latest
    let q := p.run moves
    q.cache.dispatcher.latest = n → p.never invalidates moves = true → q.isCacheAlive = true →
    Recounted p n (.recordSuccess ∉ moves) (p.observed (opening? n owner script) moves)
      (p.observed (came? n) moves) (p.observed (said? n) moves) q := by
  intro p n q latest kept alive
  have begin := Plays.begin h launched bound (.recordSuccess ∉ moves)
  exact (begin.run copyable latest kept id alive).recounted copyable alive

/-- Two items, the second a while after the first, and then a failure. -/
def faltering : Nat → Option (Nat → Offer Unit Nat) := fun call => some fun item =>
  .item ⟨if item = 0 then 0 else 1000, fun _ _ => if item < 2 then .value (10 * call + item) else .failed "lost"⟩

/-- A reader is about to ask for the first item. -/
def firstAwaited : List (Move Unit Nat) :=
  [.bind ⟨.continuous faltering, none⟩, .openReader .once .read, .reader 0]

/-- The stream is played to its end, while others read. -/
def playedOut : List (Move Unit Nat) :=
  [.attempt 1, .attempt 1, .attempt 1, .attempt 1, .attempt 1, .openReader .once .polled, .attempt 1, .reader 0,
    .attempt 1, .pass 1000, .attempt 1, .reader 1, .attempt 1, .reader 1, .attempt 1, .attempt 1, .pass 1000,
    .attempt 1, .attempt 1, .subscribe, .attempt 1]

theorem plays_its_script_playedOut :
    let w : World Unit Nat := (selfRefreshing ⟨.periodic 60000, .unpaced⟩ none ()).run firstAwaited
    let p := w.apply (.reader 0)
    let n := p.cache.dispatcher.latest
    let q := p.run playedOut
    w.launches (.reader 0) = true ∧ n = 1 ∧ p.never invalidates playedOut = true
      ∧ (p.observed (said? n) playedOut).map Said.report
        = [.ok ⟨10, 1, 0⟩, .ok ⟨11, 1, 1⟩, .error (.fetchFailed 1 "lost")]
      ∧ q.cache.dispatcher.answer? n = some (.ok ⟨⟨10, 1, 0⟩, some 1⟩)
      ∧ q.cache.cell.revision = 2 ∧ q.cache.cell.phase = .invalid true
      ∧ ∀ more, q.observed (said? n) more = [] := by
  have reachable := (Reachable.initial (.selfRefreshing ⟨.periodic 60000, .unpaced⟩ none ())).run firstAwaited
  have copyable : IsCopyable faltering := by
    intro call offers item p scripted offer surroundings t
    cases scripted
    cases offer
    dsimp only
    split <;> simp
  have bound : ((World.run (selfRefreshing ⟨.periodic 60000, .unpaced⟩ none ()) firstAwaited).apply
      (.reader 0)).cache.dispatcher.binding = some ⟨.continuous faltering, none⟩ := rfl
  have played := plays_its_script reachable (m := .reader 0) (by decide) bound copyable playedOut (by decide)
    (by decide) (by decide)
  exact ⟨by decide, rfl, by decide, rfl, rfl, rfl, rfl, played.silenced (Or.inr rfl)⟩

end World

end SingleFlight
