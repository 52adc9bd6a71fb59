/-
  SingleFlight.Proofs.Conservation — the counters of a source of single values are conserved.

  Each counter is raised in one place and speaks of something that happens in
  another: of reads, of attempts, of values and of invalidations.  Where all
  readers want a single value and no source offers sequences, they add up: a
  read that is evaluated is counted once, however often it looks at the cell,
  and an attempt is counted once on the one path that it takes.

  Main results:
    * `evaluations_run` — every evaluation is counted once.
    * `latest_apply`, `launched_eq` — attempts are numbered in the order of their
      launches.
    * `awaitsNewest` — a cell that does not wait for its newest attempt,
      before that has reported, was thrown away.
    * `conservation` — the four laws.
-/
import Mathlib.Data.List.Induction
import SingleFlight.Proofs.Cancellation
import SingleFlight.Proofs.Lifespan
import SingleFlight.Proofs.Outcomes

namespace SingleFlight

variable {ε V : Type}

namespace World

/-! ## §1. Reads. -/

/-- Whether the read failed because no source was bound. -/
def Evaluation.isUnbound (e : Evaluation V) : Bool :=
  match e.came with
  | .ticket (.failed .unbound) => true
  | _ => false

/-- A reader that has to be served by an attempt is counted once, if a source is bound and the launch does
not run beyond the clock. -/
theorem evaluations_ticketed {w : World ε V} {c : Cache ε V} {t : Ticket}
    (told : Cache.Ticketed w.cache w.now (c, t))
    (named : (c.dispatcher.latest != w.cache.dispatcher.latest && !c.cell.phase.isCalculating) = false)
    (sound : ∀ fault, ¬(w.cache.cell.broken = some fault
      ∨ (w.cache.cell.phase = .calculating ∧ w.cache.dispatcher.pending = none))) (key : Nat)
    (reading : Reading) :
    c.cell.counters.evaluations = w.cache.cell.counters.evaluations
      + [(⟨key, reading, .ticket t⟩ : Evaluation V)].countP (!·.isUnbound) := by
  cases told with
  | started => exact Counters.evaluations_countFetch _
  | joined => exact Counters.evaluations_countCoalesced _
  | unbound => rfl
  | @overflow left _ idle launched =>
      have newer : left.latest ≠ w.cache.dispatcher.latest := by
        rw [(Dispatcher.launch_overflowed launched).latest]
        exact Nat.succ_ne_self _
      exact absurd (isCalculating_of_named named newer) idle
  | lost busy absent => exact absurd (Or.inr ⟨busy, absent⟩) (sound "")
  | broken fault => exact absurd (Or.inl fault) (sound _)

/-- **Every evaluation is counted once**, unless no source was bound, if the launch did not run beyond the
clock. -/
theorem evaluations_apply {w : World ε V} (reachable : Reachable w) {m : Move ε V}
    (named : w.overflows m = false) :
    (w.apply m).cache.cell.counters.evaluations
      = w.cache.cell.counters.evaluations + (w.evaluation? m).toList.countP (!·.isUnbound) := by
  by_cases read : ∃ seat, m = .reader seat.key ∧ w.seat? seat.key = some seat
  · obtain ⟨seat, rfl, seated⟩ := read
    have advanced : Advanced w seat (seat.reader.step w.cache w.now) (w.apply (.reader seat.key)) :=
      advanceReader_advanced seated
    have observed : w.evaluation? (.reader seat.key)
        = (seat.reader.evaluation? w.cache w.now).map (⟨seat.key, seat.reader.reading, ·⟩) := by
      simp only [evaluation?, seated]
    have evaluated := seat.reader.step_evaluated w.cache w.now
    unfold overflows at named
    rw [advanced.cell, advanced.dispatcher] at named
    rw [observed, advanced.cell]
    generalize ho : seat.reader.evaluation? w.cache w.now = outcome at evaluated
    generalize (seat.reader.step w.cache w.now).1 = c at evaluated named
    cases evaluated with
    | idle | noticed => rfl
    | served => exact Counters.evaluations_countDelivery _
    | ticket told =>
        exact evaluations_ticketed told named (fun fault => reachable.coherent.not_broken
          (seat?_mem seated).1 (Reader.holds_of_evaluation ho)) _ _
  · have none : w.evaluation? m = none := by
      refine Option.eq_none_iff_forall_ne_some.mpr fun e evaluated => ?_
      obtain ⟨seat, own, seated, _⟩ := evaluation?_eq_some evaluated
      exact read ⟨seat, own, seated⟩
    rw [none]
    have s := apply_step w m
    generalize w.apply m = w' at s ⊢
    cases s with
    | aside ha | dropReader ha => exact congrArg (·.counters.evaluations) ha.cell
    | @invalidate asided ha | @poke asided ha =>
        have cell : asided.cache.cell = w.cache.cell := ha.cell
        exact congrArg (·.counters.evaluations) cell
    | pass | bind | openReader | follow => rfl
    | subscribe =>
        show w.cache.subscribe.cell.counters.evaluations = _
        unfold Cache.subscribe
        split <;> rfl
    | reader own seated => exact absurd ⟨_, own, seated⟩ read
    | attempt own running t => cases t <;> rfl

theorem evaluations_run {w : World ε V} (reachable : Reachable w) {moves : List (Move ε V)}
    (named : w.never overflows moves = true) :
    (w.run moves).cache.cell.counters.evaluations
      = w.cache.cell.counters.evaluations + (w.evaluations moves).countP (!·.isUnbound) := by
  induction moves generalizing w with
  | nil => rfl
  | cons m moves ih =>
      obtain ⟨now, later⟩ := never_cons.mp named
      show ((w.apply m).run moves).cache.cell.counters.evaluations = w.cache.cell.counters.evaluations
        + ((w.evaluation? m).toList ++ (w.apply m).evaluations moves).countP (!·.isUnbound)
      rw [ih (reachable.move m) later, evaluations_apply reachable now, List.countP_append, Nat.add_assoc]

/-- Nobody reads on after a first value. -/
def Single (w : World ε V) : Prop := ∀ s ∈ w.seats, s.reader.reading.follows = false

theorem Single.apply {w : World ε V} (h : Single w) {m : Move ε V}
    (opens : ∀ reading role, m = .openReader reading role → reading.follows = false) :
    Single (w.apply m) := by
  have kept := (apply_step w m).seats_forall (P := fun _ => True) (Q := (·.reading.follows = false))
    (fun r hr => ⟨trivial, h r hr⟩) (fun reading role own => ⟨trivial, opens reading role own⟩) trivial
    fun r c now single => by rw [Reader.reading_step, single]
  exact fun r hr => (kept r hr).2

/-- A read of a single value that was evaluated is not evaluated again. -/
theorem Dormant.unevaluated {keys : List Nat} {w : World ε V} (h : Dormant keys w) (moves : List (Move ε V)) :
    ∀ e ∈ w.evaluations moves, e.key ∉ keys := by
  induction moves generalizing w with
  | nil => exact fun e evaluated => nomatch evaluated
  | cons m moves ih =>
      intro e evaluated listed
      rcases List.mem_append.mp evaluated with now | later
      · obtain ⟨seat, _, seated, same, came⟩ := evaluation?_eq_some (Option.mem_toList.mp now)
        rw [same] at listed
        -- whoever is committed neither looks nor demands
        have committed := (Bool.and_eq_true_iff.mp (h.committed seat (seat?_mem seated).1 listed)).2
        unfold Reader.evaluation? at came
        split at came
        next looking => simp [looking] at committed
        next demanding => simp [demanding] at committed
        next => cases came
      · exact ih (h.apply m) e later listed

/-- **Every read is evaluated once**, if all want a single value. -/
theorem evaluated_once {w : World ε V} (reachable : Reachable w) (single : Single w)
    {moves : List (Move ε V)}
    (opens : ∀ reading role, .openReader reading role ∈ moves → reading.follows = false) :
    ((w.evaluations moves).map (·.key)).Nodup := by
  induction moves generalizing w with
  | nil => exact .nil
  | cons m moves ih =>
      have next := single.apply (m := m) fun reading role own =>
        opens reading role (own ▸ List.mem_cons_self)
      have rest := ih (reachable.move m) next fun reading role opened =>
        opens reading role (List.mem_cons_of_mem _ opened)
      show (((w.evaluation? m).toList ++ (w.apply m).evaluations moves).map (·.key)).Nodup
      cases evaluated : w.evaluation? m with
      | none => exact rest
      | some e =>
          have wanted : e.reading.follows = false := by
            obtain ⟨seat, _, seated, same, _⟩ := evaluation?_eq_some evaluated
            rw [same]
            exact single seat (seat?_mem seated).1
          have dormant := dormant_of_evaluation reachable evaluated wanted
          refine List.nodup_cons.mpr ⟨fun again => ?_, rest⟩
          obtain ⟨e', later, same⟩ := List.mem_map.mp again
          exact dormant.unevaluated moves e' later (List.mem_singleton.mpr same)

/-! ## §2. Launches. -/

/-- A move gives out a number exactly if it launches, or if its launch runs beyond the clock. -/
theorem latest_apply {w : World ε V} (reachable : Reachable w) (m : Move ε V) :
    (w.apply m).cache.dispatcher.latest
      = w.cache.dispatcher.latest + (w.launches m).toNat + (w.overflows m).toNat := by
  have next : (w.apply m).cache.dispatcher.latest = w.cache.dispatcher.latest
      ∨ (w.apply m).cache.dispatcher.latest = w.cache.dispatcher.latest + 1 := by
    have touched {c : Cache ε V} (t : Cache.Touch w.cache w.now c) :
        c.dispatcher.latest = w.cache.dispatcher.latest
          ∨ c.dispatcher.latest = w.cache.dispatcher.latest + 1 := by
      rcases t.renewed with same | ⟨_, renewed, _⟩
      · exact Or.inl (congrArg Dispatcher.latest same)
      · exact Or.inr renewed.latest
    have s := apply_step w m
    generalize w.apply m = w' at s ⊢
    cases s with
    | aside ha | invalidate ha | poke ha | dropReader ha =>
        exact Or.inl (congrArg Dispatcher.latest ha.dispatcher)
    | pass | bind | openReader | follow => exact Or.inl rfl
    | subscribe => exact touched (Cache.subscribe_touch w.cache w.now)
    | reader own seated ha =>
        rw [ha.dispatcher]
        exact touched (Reader.step_stepped _ _ _).touch
    | attempt own running t =>
        exact Or.inl (t.progressed reachable.ordered.dispatcher (Dispatcher.attempt?_mem running).1).kept.latest
  -- the number is new exactly in one of the two cases, told apart by the phase of the cell
  unfold launches overflows
  rcases next with same | newer
  · simp [same]
  · have changed : (w.cache.dispatcher.latest + 1 != w.cache.dispatcher.latest) = true :=
      bne_iff_ne.mpr (Nat.succ_ne_self _)
    rw [newer, changed]
    cases (w.apply m).cache.cell.phase.isCalculating <;> rfl

/-- **Attempts are numbered in the order of their launches**, if no launch runs beyond the clock. -/
theorem launched_eq {w : World ε V} (reachable : Reachable w) {moves : List (Move ε V)}
    (named : w.never overflows moves = true) :
    w.launchings moves = List.range' (w.cache.dispatcher.latest + 1) (w.launchings moves).length := by
  induction moves generalizing w with
  | nil => rfl
  | cons m moves ih =>
      obtain ⟨now, later⟩ := never_cons.mp named
      have rest := ih (reachable.move m) later
      have latest := latest_apply reachable m
      have observed : w.launchings (m :: moves) = (w.launched? m).toList ++ (w.apply m).launchings moves := rfl
      rw [observed]
      unfold launched?
      cases launches : w.launches m with
      | false =>
          rw [now, launches] at latest
          rw [latest] at rest
          exact rest
      | true =>
          rw [now, launches] at latest
          rw [latest] at rest ⊢
          show (w.cache.dispatcher.latest + 1) :: (w.apply m).launchings moves
            = List.range' _ (((w.apply m).launchings moves).length + 1)
          rw [List.range'_succ]
          exact congrArg _ rest

/-! ## §3. Values that are not stored. -/

/-- After the launch of the attempt `n`, and before the next, the value was thrown away on the run. -/
def ThrownSince (w : World ε V) (moves : List (Move ε V)) (n : Nat) : Prop :=
  ∃ early m late, moves = early ++ m :: late ∧ (w.run early).invalidates m = true
    ∧ (w.run early).cache.dispatcher.latest = n

theorem ThrownSince.concat {w : World ε V} {moves : List (Move ε V)} {n : Nat} (h : ThrownSince w moves n)
    (m : Move ε V) : ThrownSince w (moves ++ [m]) n := by
  obtain ⟨early, i, late, rfl, thrown⟩ := h
  exact ⟨early, i, late ++ [m], by rw [List.append_assoc, List.cons_append], thrown⟩

/-- An attempt that is silent after a step of its own was so before, and the step left the cell alone. -/
theorem Turn.still_silent {w w' : World ε V} {a b : Attempt ε V} {left : Option (Attempt ε V)}
    (t : Turn w a w' left) (hleft : left = some b) (silent : b.isSilent = true) :
    a.isSilent = true ∧ w'.cache.cell = w.cache.cell := by
  obtain ⟨item, unanswering⟩ := Bool.and_eq_true_iff.mp silent
  have stays {p : Attempt.Progress ε V} (same : a.progress = p)
      (waits : ∀ answer continues, p ≠ .answering answer continues) (item : (a.item == 0) = true) :
      a.isSilent = true := by
    refine Bool.and_eq_true_iff.mpr ⟨item, ?_⟩
    unfold Attempt.isAnswering
    rw [same]
    split
    next => exact absurd rfl (waits _ _)
    next => rfl
  cases t with
  | rest =>
      cases hleft
      exact ⟨silent, rfl⟩
  | wait waiting =>
      cases hleft
      refine ⟨stays rfl (fun answer continues answering => ?_) item, rfl⟩
      simp [Attempt.isExecuting, answering] at waiting
  | refused own | called own | opened own | asked own | came own =>
      cases hleft
      refine ⟨stays own (fun answer continues answering => ?_) item, rfl⟩
      cases answering
  | ignored | stored | discarded | failed =>
      cases hleft
      cases unanswering
  | resumed =>
      cases hleft
      cases item
  | unbound | finished | died | ended => cases hleft

/-- The cell waits for its newest attempt as long as that has not reported, unless on this run the value was
thrown away since the attempt was launched. -/
def AwaitsNewest (w₀ : World ε V) (moves : List (Move ε V)) (w : World ε V) : Prop :=
  ∀ a ∈ w.cache.dispatcher.running, a.number = w.cache.dispatcher.latest → a.isSilent = true →
    w.cache.cell.phase = .calculating ∨ ThrownSince w₀ moves a.number

namespace AwaitsNewest

variable {w₀ w w' : World ε V} {moves : List (Move ε V)}

theorem concat (h : AwaitsNewest w₀ moves w) (m : Move ε V) : AwaitsNewest w₀ (moves ++ [m]) w :=
  fun a ha newest silent => (h a ha newest silent).imp_right fun thrown => thrown.concat m

theorem congr (h : AwaitsNewest w₀ moves w) (phase : w'.cache.cell.phase = w.cache.cell.phase)
    (running : w'.cache.dispatcher.running = w.cache.dispatcher.running)
    (latest : w'.cache.dispatcher.latest = w.cache.dispatcher.latest) : AwaitsNewest w₀ moves w' := by
  rw [AwaitsNewest, phase, running, latest]
  exact h

/-- A look at the cell launches the newest attempt and waits for it, or leaves whom it waits for. -/
theorem touch (h : AwaitsNewest w₀ moves w) (reachable : Reachable w) {c : Cache ε V}
    (t : Cache.Touch w.cache w.now c) (cell : w'.cache.cell = c.cell)
    (dispatcher : w'.cache.dispatcher = c.dispatcher) : AwaitsNewest w₀ moves w' := by
  rw [AwaitsNewest, cell, dispatcher]
  intro b hb newest silent
  rcases t.dispatcher_cases with kept | ⟨_, ⟨n, started, busy⟩ | ⟨overflowed, _⟩⟩
  · rw [kept] at hb newest
    refine (h b hb newest silent).imp_left fun busy => ?_
    rcases t.phase_cases with phase | ⟨_, _, flushed | invalid⟩ | ⟨calculating, _⟩
    · exact phase.trans busy
    · cases flushed.symm.trans busy
    · cases invalid.symm.trans busy
    · exact calculating
  · exact Or.inl busy
  · -- a launch that ran beyond the clock gave out a number that nobody bears
    have le := (reachable.ordered.dispatcher.bounded b (overflowed.mem_running hb)).2
    rw [newest, overflowed.latest] at le
    exact absurd le (Nat.not_succ_le_self _)

/-- An attempt that takes a step has reported then, or leaves the cell alone; and no report of another counts. -/
theorem turn (h : AwaitsNewest w₀ moves w) (reachable : Reachable w) {a : Attempt ε V}
    {left : Option (Attempt ε V)} (ha : a ∈ w.cache.dispatcher.running) (t : Turn w a w' left) :
    AwaitsNewest w₀ moves w' := by
  have latest := (t.progressed reachable.ordered.dispatcher ha).kept.latest
  intro b hb newest silent
  rw [latest] at newest
  have listed : (b ∈ w.cache.dispatcher.running ∧ b.number ≠ a.number) ∨ left = some b := by
    rcases t.mem_cases hb with other | hleft | ⟨stays, hleft⟩
    · exact Or.inl other
    · exact Or.inr hleft
    · by_cases same : b.number = a.number
      · exact Or.inr (reachable.ordered.dispatcher.eq_of_number stays ha same ▸ hleft)
      · exact Or.inl ⟨stays, same⟩
  rcases listed with ⟨stays, other⟩ | hleft
  · refine (h b stays newest silent).imp_left fun busy => ?_
    rcases t.phase_cases with phase | ⟨_, counts, _⟩ | ⟨_, counts, _⟩
    · exact phase.trans busy
    · exact absurd (newest.trans counts) other
    · exact absurd (newest.trans counts) other
  · obtain ⟨was, cell⟩ := t.still_silent hleft silent
    have number := t.number hleft
    rw [number] at newest ⊢
    exact (h a ha newest was).imp_left fun busy => (congrArg Cell.phase cell).trans busy

end AwaitsNewest

/-- **A cell that does not wait for its newest attempt, before that has reported, was thrown away.** -/
theorem awaitsNewest {w₀ : World ε V} (initial : Initial w₀) (moves : List (Move ε V)) :
    AwaitsNewest w₀ moves (w₀.run moves) := by
  induction moves using List.reverseRecOn with
  | nil =>
      intro a ha
      cases initial <;> cases ha
  | append_singleton moves m ih =>
      have reachable := (Reachable.initial initial).run moves
      have before : AwaitsNewest w₀ (moves ++ [m]) (w₀.run moves) := ih.concat m
      have run : w₀.run (moves ++ [m]) = (w₀.run moves).apply m := run_append w₀ moves [m]
      rw [run]
      have s := apply_step (w₀.run moves) m
      generalize (w₀.run moves).apply m = w' at s ⊢
      cases s with
      | aside ha | dropReader ha =>
          exact before.congr (congrArg Cell.phase ha.cell) (congrArg Dispatcher.running ha.dispatcher)
            (congrArg Dispatcher.latest ha.dispatcher)
      | pass | bind | openReader | follow => exact before.congr rfl rfl rfl
      | @poke asided ha =>
          have phase : asided.cache.cell.phase = (w₀.run moves).cache.cell.phase := congrArg Cell.phase ha.cell
          exact before.congr phase (congrArg Dispatcher.running ha.dispatcher)
            (congrArg Dispatcher.latest ha.dispatcher)
      | @invalidate asided ha own =>
          intro b hb newest _
          refine Or.inr ⟨moves, m, [], rfl, own, ?_⟩
          rw [newest]
          exact (congrArg Dispatcher.latest ha.dispatcher).symm
      | subscribe =>
          exact before.touch reachable (Cache.subscribe_touch (w₀.run moves).cache (w₀.run moves).now) rfl rfl
      | reader _ _ ha => exact before.touch reachable (Reader.step_stepped _ _ _).touch ha.cell ha.dispatcher
      | attempt _ running t => exact before.turn reachable (Dispatcher.attempt?_mem running).1 t

/-- **A first value that is counted and not stored was thrown away after its attempt was launched.** -/
theorem thrown_of_discarded {w₀ : World ε V} (initial : Initial w₀) {moves : List (Move ε V)}
    {m : Move ε V} {s : Statement V} (said : (w₀.run moves).statement? m = some s)
    (first : s.isFirst = true) (discarded : s.isDiscarded = true) : ThrownSince w₀ moves s.attempt := by
  obtain ⟨a, rfl, running, reporting, same⟩ := statement?_eq_some said
  have ha := (Dispatcher.attempt?_mem running).1
  obtain ⟨value, taken⟩ := Bool.and_eq_true_iff.mp discarded
  have taken := beq_iff_eq.mp taken
  rw [same] at first taken ⊢
  have item : a.item = 0 := beq_iff_eq.mp first
  have silent : a.isSilent = true := by simp [Attempt.isSilent, Attempt.isAnswering, reporting, item]
  -- the report counted, and found that the cell did not wait
  dsimp only at taken
  split at taken
  next alive =>
    unfold Cache.take at taken
    split at taken
    next => cases taken
    next latest =>
      have newest : a.number = (w₀.run moves).cache.dispatcher.latest := (not_not.mp latest).symm
      refine (awaitsNewest initial moves a ha newest silent).resolve_left fun busy => ?_
      have keeps : (w₀.run moves).cache.keeps a.item = true := by
        rw [Cache.keeps, if_pos item, busy]
        rfl
      cases report : s.report with
      | error failure =>
          rw [report] at value
          cases value
      | ok content =>
          rw [report] at taken
          simp [keeps] at taken
  next => cases taken

/-! ## §4. Invalidations. -/

/-- How many moves of a run are of a kind, each seen in the world in which it is made. -/
def times (w : World ε V) (kind : World ε V → Move ε V → Bool) : List (Move ε V) → Nat
  | [] => 0
  | m :: moves => (kind w m).toNat + (w.apply m).times kind moves

/-- Whether the program throws the value away itself with a move. -/
def throwsAway (w : World ε V) : Move ε V → Bool
  | .invalidate => w.hasHandle
  | _ => false

/-- Whether the refresher handles the notice of a flush with a move. -/
def handlesFlush (w : World ε V) : Move ε V → Bool
  | .react .notice =>
    match w.refresher, w.cache.staleness.notices with
    | .armed _ _, .flush :: _ => true
    | _, _ => false
  | _ => false

theorem invalidates_toNat (w : World ε V) (m : Move ε V) :
    (w.invalidates m).toNat = (w.throwsAway m).toNat + (w.handlesFlush m).toNat := by
  cases m with
  | invalidate => rfl
  | react cue =>
      cases cue with
      | notice => exact (Nat.zero_add _).symm
      | signal | timer => rfl
  | _ => rfl

/-- **Invalidations are counted once**, whoever asks for them. -/
theorem invalidations_run (w : World ε V) (moves : List (Move ε V)) :
    (w.run moves).cache.cell.counters.invalidations
      = w.cache.cell.counters.invalidations + w.times throwsAway moves + w.times handlesFlush moves := by
  induction moves generalizing w with
  | nil => rfl
  | cons m moves ih =>
      show ((w.apply m).run moves).cache.cell.counters.invalidations = w.cache.cell.counters.invalidations
        + ((w.throwsAway m).toNat + (w.apply m).times throwsAway moves)
        + ((w.handlesFlush m).toNat + (w.apply m).times handlesFlush moves)
      rw [ih, invalidations_apply, invalidates_toNat]
      omega

/-! ## §5. Conservation. -/

/-- **The counters are conserved.**  Take any run with a source of single values, in which no launch runs
beyond the clock and all readers want a single value.  Every read is evaluated at most once, and every
evaluation that found a source bound was counted once, as a launch, a join or a delivery.  Every attempt
that was launched is in exactly one place: its one report was counted as a success or a failure, or was
dropped, or it died without a report, or it is on the list and has not reported yet.  Every success raised
the revision but those whose value was discarded, and each of these was thrown away after the launch of its
attempt.  Every invalidation was asked for by the program or by the notice of a flush. -/
theorem conservation {w₀ : World ε V} (initial : Initial w₀) {moves : List (Move ε V)}
    (single : IsOneShot (w₀.run moves)) (named : w₀.never overflows moves = true)
    (opens : ∀ reading role, .openReader reading role ∈ moves → reading.follows = false) :
    let w := w₀.run moves
    let counters := w.cache.cell.counters
    let reads := w₀.evaluations moves
    let said := w₀.statements moves
    ((reads.map (·.key)).Nodup
        ∧ counters.fetches + counters.coalesced + counters.deliveries = reads.countP (!·.isUnbound))
      ∧ (counters.fetches = counters.successes + counters.failures + said.countP Statement.isDropped
            + (w₀.deaths moves).length + w.silent.length
          ∧ (said.map Statement.attempt ++ w₀.deaths moves ++ w.silent).Perm
            (List.range' 1 counters.fetches))
      ∧ (w.cache.cell.revision + said.countP Statement.isDiscarded = counters.successes
          ∧ ∀ before m after s, moves = before ++ m :: after → (w₀.run before).statement? m = some s →
            s.isDiscarded = true → ThrownSince w₀ before s.attempt)
      ∧ counters.invalidations = w₀.times throwsAway moves + w₀.times handlesFlush moves := by
  intro w counters reads said
  have reachable := Reachable.initial initial
  have fresh : w₀.cache.cell.counters = {} ∧ w₀.cache.cell.revision = 0 ∧ w₀.cache.dispatcher.latest = 0
      ∧ Single w₀ := by
    cases initial <;> exact ⟨rfl, rfl, rfl, fun s hs => nomatch hs⟩
  obtain ⟨counters₀, revision₀, latest₀, single₀⟩ := fresh
  obtain ⟨fetches, _, attempts, successes, failures, sum, _, unextra⟩ := outcomes_balance initial moves
  have balance := balance_run reachable moves
  have firstOnly : ∀ s ∈ said, s.isFirst = true := first_of_single reachable single
  refine ⟨⟨evaluated_once reachable single₀ opens, ?_⟩, ⟨?_, ?_⟩, ⟨?_, ?_⟩, ?_⟩
  · have counted := evaluations_run reachable named
    rw [counters₀] at counted
    exact counted.trans (Nat.zero_add _)
  · have dropped : said.countP (fun s => s.isFirst && s.isDropped) = said.countP Statement.isDropped :=
      List.countP_congr fun s hs => by rw [firstOnly s hs, Bool.true_and]
    rw [unextra single, dropped] at sum
    exact sum.trans (by rw [← Nat.add_assoc, ← Nat.add_assoc])
  · -- every report is a first one, and those launched are numbered from 1 on
    have all : firsts said = said.map Statement.attempt := by
      rw [firsts, List.filter_eq_self.mpr firstOnly]
    have numbered := launched_eq reachable named
    rw [latest₀, ← fetches] at numbered
    rw [← all, ← numbered]
    exact attempts
  · have revision := balance.revision
    rw [revision₀, Nat.zero_add] at revision
    exact revision.trans successes.symm
  · intro before m after s split reported discarded
    refine thrown_of_discarded initial reported (firstOnly s ?_) discarded
    show s ∈ w₀.statements moves
    rw [split, statements, observed_append]
    refine List.mem_append_right _ (List.mem_append_left _ ?_)
    exact Option.mem_toList.mpr reported
  · have counted := invalidations_run w₀ moves
    rw [counters₀] at counted
    exact counted.trans (by simp)

/-- A read without a source, and then a launch, a join, an invalidation, another launch, a report that comes
too late, one that counts, and a read that is given the held value. -/
def busyReads : List (Move Unit Nat) :=
  [.openReader .once .read, .reader 0, .reader 0, .bind counting,
    .openReader .once .read, .reader 1, .reader 1, .openReader .anew .read, .reader 2,
    .attempt 1, .attempt 1, .attempt 1, .invalidate, .openReader .once .read, .reader 3, .reader 3,
    .attempt 1, .attempt 1, .attempt 2, .attempt 2, .attempt 2, .attempt 2, .attempt 2,
    .openReader .once .read, .reader 4, .reader 4, .openReader .anew .read, .reader 5]

theorem conservation_busyReads :
    let w₀ : World Unit Nat := .selfRefreshing ⟨.periodic 60000, .unpaced⟩ none ()
    let counters := (w₀.run busyReads).cache.cell.counters
    counters.fetches = 3 ∧ counters.coalesced = 1 ∧ counters.deliveries = 1
      ∧ (w₀.evaluations busyReads).length = 6
      ∧ counters.fetches + counters.coalesced + counters.deliveries
        = (w₀.evaluations busyReads).countP (!·.isUnbound)
      ∧ counters.fetches = 1 + 0 + 1 + 0 + 1
      ∧ counters.invalidations = 1 + 0 := by
  have single : IsOneShot ((World.selfRefreshing ⟨.periodic 60000, .unpaced⟩ none ()).run busyReads) := by
    rintro - ⟨source, bound, continuous⟩
    cases bound
    cases continuous
  have opens : ∀ reading role, (.openReader reading role : Move Unit Nat) ∈ busyReads →
      reading.follows = false := by
    intro reading role opened
    simp only [busyReads, List.mem_cons, Move.openReader.injEq, reduceCtorEq, List.not_mem_nil, false_or,
      or_false] at opened
    rcases opened with ⟨rfl, _⟩ | ⟨rfl, _⟩ | ⟨rfl, _⟩ | ⟨rfl, _⟩ | ⟨rfl, _⟩ | ⟨rfl, _⟩ <;> rfl
  obtain ⟨⟨_, reads⟩, ⟨attempts, _⟩, _, invalidations⟩ :=
    conservation (.selfRefreshing ⟨.periodic 60000, .unpaced⟩ none ()) single (by decide) opens
  exact ⟨by decide, by decide, by decide, by decide, reads, attempts, invalidations⟩

end World

end SingleFlight
