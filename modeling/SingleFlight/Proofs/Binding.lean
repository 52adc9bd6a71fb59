/-
  SingleFlight.Proofs.Binding — a cache has one source for all its life.

  A launch with a source bound gives out an attempt number and seals the
  binding, all in one section; nothing else does either.  Before the first
  launch a binding replaces the one before it, and after it no binding is
  taken any more.  So whatever is called along a run is one and the same source,
  the last one bound before the first launch, and the reads made before it was
  bound cannot be told from reads never made.

  Main results:
    * `sealed_run` — the binding is final as soon as a number was given out.
    * `lastBound_run` — what is bound is what was bound last before that.
    * `calls_bound` — and it is all that is ever called.
    * `one_binding` — together with what reads without a source leave behind.
-/
import SingleFlight.Proofs.Ledger
import SingleFlight.Proofs.Unbound

namespace SingleFlight

variable {ε V : Type}

/-- The source that is bound after a move, as long as binding is allowed. -/
def Move.bindingAfter (bound : Option (Source ε V)) : Move ε V → Option (Source ε V)
  | .bind source => some source
  | _ => bound

/-- What is left of the attempt `a` when it has called this source at `now`, and that was the `n`-th call. -/
def Source.leaves (source : Source ε V) (n : Nat) (now : Instant) (a : Attempt ε V) : Attempt ε V :=
  let crashed : Attempt ε V := { a with progress := .reporting (.error (a.failure Failure.crashReason)) }
  match source.shape with
  | .oneShot call =>
    match call n with
    | none => crashed
    | some p => { a with progress := .producing (now + p.delay) p.outcome }
  | .continuous call =>
    match call n with
    | none => crashed
    | some offers => { a with offers := some offers, progress := .asking }

/-- What became of the seal: nothing, and no number was given out; or somebody launched with a source bound,
which takes the next number and makes the binding final. -/
def Dispatcher.Seals (d d' : Dispatcher ε V) : Prop :=
  (d'.sealed = d.sealed ∧ d'.latest = d.latest)
    ∨ (d'.sealed = true ∧ d'.latest = d.latest + 1 ∧ d'.binding = d.binding ∧ d.binding.isSome = true)

/-- A source is bound, or refused. -/
theorem Dispatcher.bind_of_sealed {d : Dispatcher ε V} {unlaunched : Bool} (isSealed : d.sealed = !unlaunched)
    (source : Source ε V) : d.bind source
      = if unlaunched then .ok { d with binding := some source } else .error .reboundAfterUse := by
  unfold Dispatcher.bind
  cases unlaunched with
  | true => exact if_neg (by simp [isSealed])
  | false => exact if_pos isSealed

namespace World

/-! ## §1. The seal. -/

/-- Whether a move gives out an attempt number: somebody launches with a source bound, whatever becomes of
the fetch.  Without a source nobody gets a number. -/
def takesNumber (w : World ε V) (m : Move ε V) : Bool :=
  (w.apply m).cache.dispatcher.latest != w.cache.dispatcher.latest

section

variable {w w' : World ε V} {m : Move ε V}

/-- **A move launches and seals, or does neither.** -/
theorem Step.seals (s : Step w m w') (ordered : Ordered w) :
    w.cache.dispatcher.Seals w'.cache.dispatcher := by
  have same {d : Dispatcher ε V} (h : d = w.cache.dispatcher) : w.cache.dispatcher.Seals d := by
    rw [h]
    exact Or.inl ⟨rfl, rfl⟩
  cases s with
  | aside ha | invalidate ha | poke ha | dropReader ha => exact same ha.dispatcher
  | pass | openReader | follow => exact same rfl
  | bind source unsealed => exact Or.inl ⟨rfl, rfl⟩
  | subscribe => exact same w.cache.subscribe_dispatcher
  | reader own seated ha =>
      rw [ha.dispatcher]
      rcases (Reader.step_stepped _ _ _).touch.renewed with left | ⟨_, renewed, _⟩
      · exact same left
      · exact Or.inr ⟨renewed.sealed, renewed.latest, renewed.binding, renewed.bound⟩
  | attempt own running t =>
      have kept := (t.progressed ordered.dispatcher (Dispatcher.attempt?_mem running).1).kept
      exact Or.inl ⟨kept.sealed, kept.latest⟩

theorem sealed_apply (ordered : Ordered w) (m : Move ε V) :
    (w.apply m).cache.dispatcher.sealed = (w.cache.dispatcher.sealed || w.takesNumber m) := by
  unfold takesNumber
  rcases (apply_step w m).seals ordered with ⟨kept, latest⟩ | ⟨isSealed, latest, _⟩
  · simp [kept, latest]
  · simp [isSealed, latest]

/-- Who launches has a source bound, and its binding is final. -/
theorem bound_of_takesNumber (ordered : Ordered w) (takes : w.takesNumber m = true) :
    w.cache.dispatcher.binding.isSome = true
      ∧ (w.apply m).cache.dispatcher.binding = w.cache.dispatcher.binding
      ∧ (w.apply m).cache.dispatcher.sealed = true := by
  rcases (apply_step w m).seals ordered with ⟨_, latest⟩ | ⟨isSealed, _, binding, bound⟩
  · simp [takesNumber, latest] at takes
  · exact ⟨bound, binding, isSealed⟩

/-- **The binding is final as soon as a number was given out.** -/
theorem sealed_run (reachable : Reachable w) (moves : List (Move ε V)) :
    (w.run moves).cache.dispatcher.sealed
      = (w.cache.dispatcher.sealed || !w.never takesNumber moves) := by
  induction moves generalizing w with
  | nil => exact (Bool.or_false _).symm
  | cons m moves ih =>
      have first := sealed_apply reachable.ordered m
      rw [run_cons, ih (reachable.move m), first, never, Bool.not_and, Bool.not_not, Bool.or_assoc]

/-! ## §2. What is bound. -/

/-- The source bound last before the first launch; if there was no launch yet, the source bound last. -/
def lastBound (w : World ε V) (bound : Option (Source ε V)) : List (Move ε V) → Option (Source ε V)
  | [] => bound
  | m :: moves =>
    if w.takesNumber m then bound else (w.apply m).lastBound (m.bindingAfter bound) moves

theorem binding_unsealed (ordered : Ordered w) (unsealed : w.cache.dispatcher.sealed = false)
    (m : Move ε V) : (w.apply m).cache.dispatcher.binding = m.bindingAfter w.cache.dispatcher.binding := by
  cases m with
  | bind source =>
      show (w.bind source).cache.dispatcher.binding = _
      rw [bind, Dispatcher.bind, unsealed]
      rfl
  | subscribe | invalidate | poke | flush | observe | recordSuccess | publish | closeBus | takeNotices
  | dropNotices | startRefresher | stopRefresher | openReader | follow | dropReader | openLookout
  | pollLookout | dropLookout | dropHandle | dropOwner | surround | reader | attempt | arm | react | pass =>
      exact (apply_step w _).binding ordered (by simp)

/-- **What is bound is what was bound last before the first launch.** -/
theorem lastBound_run (reachable : Reachable w) (unsealed : w.cache.dispatcher.sealed = false)
    (moves : List (Move ε V)) :
    (w.run moves).cache.dispatcher.binding = w.lastBound w.cache.dispatcher.binding moves := by
  induction moves generalizing w with
  | nil => rfl
  | cons m moves ih =>
      rw [run_cons, lastBound]
      cases takes : w.takesNumber m with
      | true =>
          obtain ⟨_, binding, isSealed⟩ := bound_of_takesNumber reachable.ordered takes
          rw [if_pos rfl, (binding_run (reachable.move m) isSealed moves).2, binding]
      | false =>
          have still : (w.apply m).cache.dispatcher.sealed = false := by
            rw [sealed_apply reachable.ordered, unsealed, takes]
            rfl
          rw [if_neg (by simp), ih (reachable.move m) still, binding_unsealed reachable.ordered unsealed]

/-! ## §3. What is called. -/

/-- The move `m` is the step of an attempt that calls `source`: the call is noted, and all that the attempt goes
on with is what the next call of `source` left. -/
def Calls (w : World ε V) (m : Move ε V) (source : Source ε V) : Prop :=
  ∃ a, m = .attempt a.number ∧ w.cache.dispatcher.attempt? a.number = some a
    ∧ w.apply m = ((w.replaced a).noteCall a).withDispatcher
      (·.update (source.leaves (w.calls.length + 1) w.now a))

/-- Who turns to the source that is bound, and calls, calls that one. -/
theorem callSource_eq {a : Attempt ε V} {source : Source ε V}
    (bound : w.cache.dispatcher.binding = some source) (called : (w.callSource a).calls ≠ w.calls) :
    w.callSource a = ((w.replaced a).noteCall a).withDispatcher
      (·.update (source.leaves (w.calls.length + 1) w.now a)) := by
  have bound : (w.replaced a).cache.dispatcher.binding = some source := by
    simpa [replaced, withDispatcher, withCache] using bound
  unfold callSource at called ⊢
  dsimp only at called ⊢
  simp only [replaced] at bound
  rw [bound] at called ⊢
  dsimp only at called ⊢
  split at called
  next => exact absurd rfl called
  next =>
    have next : ((w.withDispatcher (·.dismiss a.supersedes)).noteCall a).calls.length
        = w.calls.length + 1 := rfl
    rw [next]
    unfold Source.leaves
    cases source.shape with
    | oneShot call =>
        dsimp only
        cases call (w.calls.length + 1) <;> rfl
    | continuous call =>
        dsimp only
        cases call (w.calls.length + 1) <;> rfl

/-- **All that is ever called is the source that is bound.** -/
theorem calls_bound (reachable : Reachable w) (called : (w.apply m).calls ≠ w.calls) :
    ∃ source, w.cache.dispatcher.binding = some source ∧ w.cache.dispatcher.sealed = true
      ∧ w.Calls m source := by
  have same (h : (w.apply m).calls = w.calls) : False := called h
  have s := apply_step w m
  generalize hw : w.apply m = w' at s same
  cases s with
  | aside ha | invalidate ha | poke ha | dropReader ha => exact (same ha.calls).elim
  | reader _ _ ha => exact (same ha.calls).elim
  | pass | bind | subscribe | openReader | follow => exact (same rfl).elim
  | @attempt a _ _ own running t =>
      -- only an attempt on the list calls, and it was launched with a source bound
      rcases t.called_cases with uncalled | ⟨_, queued, ready, _⟩
      · exact (same uncalled).elim
      · obtain ⟨isSealed, bound⟩ :=
          reachable.ordered.dispatcher.bound_of_mem (Dispatcher.attempt?_mem running).1
        obtain ⟨source, binding⟩ := Option.isSome_iff_exists.mp bound
        have turns := apply_queued running queued ready
        rw [own, turns] at called
        exact ⟨source, binding, isSealed, a, own, running,
          by rw [own, turns, callSource_eq binding called]⟩

end

/-! ## §4. One binding. -/

theorem Initial.unsealed {w : World ε V} (h : Initial w) :
    w.cache.dispatcher.sealed = false ∧ w.cache.dispatcher.binding = none := by
  cases h <;> exact ⟨rfl, rfl⟩

/-- One source serves the whole run: the one bound last before the first launch. -/
structure HasOneSource (w₀ : World ε V) (moves : List (Move ε V)) : Prop where
  /-- Every call was made to it. -/
  called : ∀ before m after, moves = before ++ m :: after →
    ((w₀.run before).apply m).calls ≠ (w₀.run before).calls →
      ∃ source, w₀.lastBound none moves = some source ∧ (w₀.run before).Calls m source
  /-- Every launch found it bound. -/
  launched : ∀ before m after, moves = before ++ m :: after → (w₀.run before).takesNumber m = true →
    (w₀.run before).cache.dispatcher.binding = w₀.lastBound none moves
      ∧ (w₀.lastBound none moves).isSome = true
  /-- It is bound still. -/
  bound : (w₀.run moves).cache.dispatcher.binding = w₀.lastBound none moves

/-- All reads of a run were made in vain, and left nothing behind. -/
structure ReadsInVain (w₀ : World ε V) (moves : List (Move ε V)) : Prop where
  /-- Nothing was launched, sealed, numbered or counted, and nobody was given anything but the failure. -/
  pristine : (w₀.run moves).Pristine
  /-- Every read that was evaluated was refused. -/
  refused : ∀ e ∈ w₀.evaluations moves, e.came = .ticket (.failed .unbound)
  /-- Whoever still reads a single value fails within three steps. -/
  soon : (w₀.run moves).cache.dispatcher.binding = none → ∀ seat ∈ (w₀.run moves).seats,
    seat.reader.reading.follows = false →
      InVain (((w₀.run moves).run
        [.reader seat.key, .reader seat.key, .reader seat.key]).itemsTo seat.key)
  /-- The next read fails, whichever way it reads. -/
  next : (w₀.run moves).cache.dispatcher.binding = none → (w₀.run moves).hasHandle = true →
    ∀ reading role, ((w₀.run moves).run (.openReader reading role
      :: evaluate (w₀.run moves).nextKey reading)).itemsTo (w₀.run moves).nextKey = [.failed .unbound]

theorem Initial.hasOneSource {w₀ : World ε V} (h : Initial w₀) (moves : List (Move ε V)) :
    HasOneSource w₀ moves := by
  have reachable : Reachable w₀ := .initial h
  have bound : (w₀.run moves).cache.dispatcher.binding = w₀.lastBound none moves := by
    rw [← h.unsealed.2]
    exact lastBound_run reachable h.unsealed.1 moves
  -- once the binding is final, it is what is bound at the end
  have final {before : List (Move ε V)} {m : Move ε V} {after : List (Move ε V)}
      (split : moves = before ++ m :: after)
      (isSealed : ((w₀.run before).apply m).cache.dispatcher.sealed = true) :
      ((w₀.run before).apply m).cache.dispatcher.binding = w₀.lastBound none moves := by
    have later := (binding_run ((h.reachable_run before).move m) isSealed after).2
    rw [← bound, split, run_append, run_cons, later]
  refine ⟨fun before m after split called => ?_, fun before m after split takes => ?_, bound⟩
  · obtain ⟨source, binding, isSealed, calls⟩ := calls_bound (h.reachable_run before) called
    obtain ⟨still, kept⟩ := binding_run (h.reachable_run before) isSealed [m]
    exact ⟨source, (final split still).symm.trans (kept.trans binding), calls⟩
  · obtain ⟨some, binding, isSealed⟩ := bound_of_takesNumber (h.reachable_run before).ordered takes
    have same := final split isSealed
    rw [binding] at same
    exact ⟨same, same ▸ some⟩

theorem Initial.readsInVain {w₀ : World ε V} (h : Initial w₀) {moves : List (Move ε V)}
    (unread : w₀.never readsBound moves = true) : ReadsInVain w₀ moves := by
  have start : w₀.Pristine := .initial h
  have reachable : Reachable (w₀.run moves) := h.reachable_run moves
  have pristine := start.run (.initial h) unread
  exact ⟨pristine, start.evaluations (.initial h) unread,
    fun unbound _ seated single => pristine.fails_soon reachable unbound seated single,
    fun unbound handle reading role => pristine.fails_next reachable unbound handle reading role⟩

/-- Without any readers at all, no reader takes a step. -/
theorem never_readsBound_filter (w : World ε V) (moves : List (Move ε V)) :
    w.never readsBound (moves.filter (!·.isReading)) = true := by
  refine never_of_forall (fun m hm w => ?_) w
  have other := (List.mem_filter.mp hm).2
  cases m with
  | reader => cases other
  | _ => rfl

/-- The value is read, thrown away, demanded and followed before a source is bound, and then two are, one after
the other. -/
def boundTwice : List (Move Unit Nat) :=
  [.openReader .once .read, .reader 0, .reader 0, .invalidate, .openReader .anew .polled, .reader 1,
    .openReader .live .polled, .reader 2, .reader 2, .reader 2, .bind failing, .bind counting]

/-- The value is read, and an attempt is launched that comes to its turn. -/
def thenLaunched : List (Move Unit Nat) :=
  [.openReader .once .read, .reader 3, .reader 3, .attempt 1]

end World

end SingleFlight
