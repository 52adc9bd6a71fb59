/-
  SingleFlight.Proofs.Discharge — what settles a trigger.

  A trigger makes the value due, and the next success settles it: the book does
  not know when the attempt that succeeds was begun.  So after a trigger an old
  value is given to nobody until one is stored, and that one may come from a
  call that was made before the trigger.  Whoever starts to read afterwards is
  given a value that was stored since, or the answer of an attempt that was on
  its way when he came to wait for it.

  Main results:
    * `Aftermath.run` — what a trigger leaves to whoever starts to read after it.
    * `settled_by_next_success` — the next value that is stored settles the
      trigger, and nothing does before it.
-/
import SingleFlight.Proofs.Dueness
import SingleFlight.Proofs.LostAttempt

namespace SingleFlight

variable {ε V : Type}

namespace World

/-! ## §1. Who joins an attempt on its way. -/

/-- The reader that comes to wait with a move, and the attempt that it waits for, if this has not answered
yet. -/
def joins? (w : World ε V) : Move ε V → Option (Nat × Nat)
  | .reader key =>
    match w.seat? key with
    | some seat =>
      match seat.reader.awaits?, (seat.reader.step w.cache w.now).2.1.awaits? with
      | none, some n => if w.cache.dispatcher.hasAnswered n then none else some (key, n)
      | _, _ => none
    | none => none
  | _ => none

/-- Who came to wait along a run, and for which attempt on its way, oldest first. -/
def joined (w : World ε V) (moves : List (Move ε V)) : List (Nat × Nat) := w.observed joins? moves

/-- Whoever is told to wait for an attempt that has answered already is told of a failure. -/
theorem failed_of_ticketed {w : World ε V} (h : Reachable w) (alive : w.isCacheAlive = true)
    {c : Cache ε V} {n : Nat} (t : Cache.Ticketed w.cache w.now (c, .wait n)) {answer : Answer V}
    (answered : w.cache.dispatcher.answer? n = some answer) : ∃ failure, answer = .error failure := by
  have orderly := h.ordered.dispatcher
  have known : w.cache.dispatcher.hasAnswered n = true := Dispatcher.hasAnswered_iff.mpr ⟨_, answered⟩
  cases t with
  | started sound idle launched =>
      have new := (Dispatcher.launch_started launched).number
      have old := orderly.known n known
      omega
  | joined sound busy pending =>
      -- the cell still waits for it, so it died of a value that nobody can copy
      obtain ⟨given, faithful, accounted⟩ := h.accounted
      obtain ⟨y, first, same⟩ := faithful.answers n answer answered
      rw [(orderly.pending n pending).2] at known first same
      cases first.symm.trans (accounted.busy alive busy known)
      cases answer with
      | error failure => exact ⟨failure, rfl⟩
      | ok fetched => cases same

/-! ## §2. After a trigger. -/

/-- The world `w`, which came after the world `p` in which a trigger was pending.  Since then the readers
and attempts in `joined` have come together, and what is `stored` was stored. -/
structure Aftermath (p : World ε V) (joined : List (Nat × Nat)) (stored : List (Sourced V))
    (w : World ε V) : Prop where
  pending : stored = [] → w.cache.staleness.isPending = true
  held : stored ≠ [] → ∀ content, w.cache.cell.phase = .holding (.concealed content) → content ∈ stored
  awaited : ∀ s ∈ w.seats, p.hasStarted s.key = false → ∀ n, s.reader.awaits? = some n →
    (s.key, n) ∈ joined ∨ ∃ failure, w.cache.dispatcher.answer? n = some (.error failure)

theorem Aftermath.refl {p : World ε V} (pending : p.cache.staleness.isPending = true) :
    Aftermath p [] [] p := by
  refine ⟨fun _ => pending, fun none => absurd rfl none, fun s seated late n awaits => ?_⟩
  -- whoever has not started waits for nobody
  rw [new_of_not_started seated late, (new_idle s.reader.reading).1] at awaits
  cases awaits

section

variable {p w : World ε V} {joined : List (Nat × Nat)} {stored : List (Sourced V)}

/-- Whoever waits after a move and had not started at `p` has joined an attempt on its way, or one that
has failed. -/
theorem Aftermath.awaited_step (h : Aftermath p joined stored w) (reachable : Reachable w) (m : Move ε V) :
    ∀ s ∈ (w.apply m).seats, p.hasStarted s.key = false → ∀ n, s.reader.awaits? = some n →
      (s.key, n) ∈ joined ++ (w.joins? m).toList
        ∨ ∃ failure, (w.apply m).cache.dispatcher.answer? n = some (.error failure) := by
  intro s seated late n awaits
  have step := apply_step w m
  have remembers := step.remembers reachable.ordered
  -- whoever waited before is accounted for already
  have stays {s₀ : Seat} (listed : s₀ ∈ w.seats) (key : s₀.key = s.key) (waits : s₀.reader.awaits? = some n) :
      (s.key, n) ∈ joined ++ (w.joins? m).toList
        ∨ ∃ failure, (w.apply m).cache.dispatcher.answer? n = some (.error failure) := by
    rcases h.awaited s₀ listed (by rw [key]; exact late) n waits with before | ⟨failure, failed⟩
    · rw [key] at before
      exact Or.inl (List.mem_append_left _ before)
    · exact Or.inr ⟨failure, remembers.answers n _ failed⟩
  by_cases known : s.key < w.nextKey
  · rcases step.reader_cases known with ⟨_, seats⟩ | ⟨seat, taken, own, advanced⟩
    · obtain ⟨s₀, hs₀, key, reader⟩ := seats s seated rfl
      exact stays hs₀ key (by rw [reader]; exact awaits)
    · obtain ⟨listed, key⟩ := seat?_mem taken
      rcases advanced.seats s seated with ⟨_, other⟩ | ⟨_, reader, _⟩
      · exact absurd key.symm other
      · have alive := advanced.alive (alive_of_awaits seated awaits)
        rw [reader] at awaits
        have stepped := seat.reader.step_stepped w.cache w.now
        -- whoever is given an item waits no more
        have nothing : (seat.reader.step w.cache w.now).2.2 = none := by
          refine Option.eq_none_iff_forall_ne_some.mpr fun item given => ?_
          cases (stepped.hands item given).2.symm.trans awaits
        cases before : seat.reader.awaits? with
        | some k =>
            rcases Reader.step_awaiting before w.cache w.now with ⟨_, same⟩ | ⟨_, _, given⟩
            · rw [same] at awaits
              exact stays listed key awaits
            · cases nothing.symm.trans given
        | none =>
            -- it was told to wait just now: for an attempt on its way, or for one that has failed
            have told := ((stepped.quiet nothing).2 n awaits).resolve_left (by simp [before])
            cases answered : w.cache.dispatcher.answer? n with
            | none =>
                have joins : w.joins? m = some (s.key, n) := by
                  simp [joins?, own, taken, before, awaits, Dispatcher.hasAnswered, answered]
                rw [joins]
                exact Or.inl (List.mem_append_right _ (List.mem_singleton_self _))
            | some answer =>
                obtain ⟨failure, rfl⟩ := failed_of_ticketed reachable alive told answered
                exact Or.inr ⟨failure, remembers.answers n _ answered⟩
  · -- it has just come
    obtain ⟨reading, new⟩ := step.newcomer reachable.attended
    rw [new s seated (Nat.not_lt.mp known), (new_idle reading).1] at awaits
    cases awaits

/-- **Every move keeps to the aftermath**, as long as the program records no success of its own. -/
theorem Aftermath.step (h : Aftermath p joined stored w) (reachable : Reachable w) {m : Move ε V}
    (unrecorded : m ≠ .recordSuccess) :
    Aftermath p (joined ++ (w.joins? m).toList) (stored ++ (w.stored? m).toList) (w.apply m) := by
  refine ⟨fun none => ?_, fun some content holding => ?_, h.awaited_step reachable m⟩
  · obtain ⟨before, now⟩ := List.append_eq_nil_iff.mp none
    have unstored : w.storesValue m = false := by
      rw [storesValue, Option.toList_eq_nil_iff.mp now]
      rfl
    have book := apply_continues unrecorded (revision_of_unstored unstored)
    rw [book.isPending, h.pending before, Bool.true_or]
  · cases now : w.stored? m with
    | some content' =>
        cases holding.symm.trans (stored?_eq_some now).2
        exact List.mem_append_right _ (by simp)
    | none =>
        have unstored : w.storesValue m = false := by simp [storesValue, now]
        rw [now, Option.toList_none, List.append_nil] at some
        rcases (apply_step w m).holding_cases holding with ⟨held, _⟩ | raised
        · exact List.mem_append_left _ (h.held some content held)
        · exact absurd (revision_of_unstored unstored) (Nat.ne_of_gt raised)

/-- **So does every run.** -/
theorem Aftermath.run (h : Aftermath p joined stored w) (reachable : Reachable w)
    {moves : List (Move ε V)} (unrecorded : .recordSuccess ∉ moves) :
    Aftermath p (joined ++ w.joined moves) (stored ++ w.stores moves) (w.run moves) := by
  induction moves generalizing w joined stored with
  | nil =>
      rw [World.joined, stores, observed, observed, List.append_nil, List.append_nil]
      exact h
  | cons m moves ih =>
      have next := ih (h.step reachable (List.ne_of_not_mem_cons unrecorded).symm) (reachable.move m)
        (List.not_mem_of_not_mem_cons unrecorded)
      rw [List.append_assoc, List.append_assoc] at next
      exact next

end

/-! ## §3. What settles a trigger. -/

/-- Whoever is handed a value that he did not wait for finds it held, and not due. -/
theorem fresh_of_handed {r : Reader} {c : Cache ε V} {now : Instant} {content : Sourced V}
    (given : (r.step c now).2.2 = some (.value content)) :
    (c.cell.phase = .holding (.concealed content) ∧ c.staleness.isDue now = false)
      ∨ ∃ n fetched, r.awaits? = some n ∧ c.dispatcher.answer? n = some (.ok fetched)
          ∧ fetched.content = content := by
  have act := r.step_act c now
  generalize r.step c now = out at act given
  cases act with
  | served hs looked =>
      cases looked with
      | served holding fresh unseen =>
          cases given
          exact Or.inl ⟨holding, fresh⟩
  | answered hs answer =>
      cases given
      exact Or.inr ⟨_, _, Reader.awaits?_eq_some_iff.mpr (Or.inr hs), answer, rfl⟩
  | started hs answer | satisfied hs answer =>
      cases given
      exact Or.inr ⟨_, _, Reader.awaits?_eq_some_iff.mpr (Or.inl hs), answer, rfl⟩
  | subscribed | unserved | joined | demanded | refused | broke | failed | idle | woken | finished
  | crashed => cases given

/-- Only a step of an attempt raises the revision. -/
theorem Step.attempt_of_raised {w w' : World ε V} {m : Move ε V} (s : Step w m w')
    (raised : w'.cache.cell.revision ≠ w.cache.cell.revision) : ∃ n, m = .attempt n := by
  have same {cell : Cell V} (hc : w'.cache.cell = cell) (hr : cell.revision = w.cache.cell.revision) :
      ∃ n, m = .attempt n := by
    rw [hc] at raised
    exact absurd hr raised
  cases s with
  | attempt own => exact ⟨_, own⟩
  | aside ha | dropReader ha => exact same ha.cell rfl
  | pass | bind | openReader | follow => exact absurd rfl raised
  | subscribe => exact absurd (Cache.subscribe_touch w.cache w.now).revision raised
  | invalidate ha => exact absurd (congrArg Cell.revision ha.cell) raised
  | poke ha => exact absurd (congrArg Cell.revision ha.cell) raised
  | reader own seated ha => exact same ha.cell (Reader.step_stepped _ _ _).touch.revision

/-- A trigger is pending when it has come. -/
theorem isPending_of_triggers {w : World ε V} {m : Move ε V} (triggered : w.triggers m = true) :
    (w.apply m).cache.staleness.isPending = true := by
  have unrecorded : m ≠ .recordSuccess := by
    rintro rfl
    cases triggered
  have same : (w.apply m).cache.cell.revision = w.cache.cell.revision := by
    refine Decidable.byContradiction fun raised => ?_
    obtain ⟨n, rfl⟩ := (apply_step w m).attempt_of_raised raised
    cases triggered
  rw [(apply_continues unrecorded same).isPending, triggered, Bool.or_true]

/-- **A trigger is settled by the next success.**  Let a trigger come with the move `m`, be it that an
event of the policy is observed, whatever is on its way then; let any moves follow, none of them a success
of the program's own.  As long as no value has been stored since, the value is due, and a read of the held
value that comes to look launches an attempt.  The next value that is stored settles the trigger, whenever
its fetch was begun: it is not due at that moment unless the interval is zero.  Whoever starts to read
after the trigger, and is given a value, had come to wait for its attempt while that was on its way and had
not answered; or the value was stored after the trigger. -/
theorem settled_by_next_success {w : World ε V} (h : Reachable w) {m : Move ε V}
    (triggered : w.triggers m = true) {more : List (Move ε V)} (unrecorded : .recordSuccess ∉ more) :
    let p := w.apply m
    let q := p.run more
    (p.stores more = [] → q.Refetches)
      ∧ (∀ before m' after content, more = before ++ m' :: after →
          (p.run before).stored? m' = some content →
            let book := ((p.run before).apply m').cache.staleness
            book.isPending = false ∧ book.lastSuccess = some (p.run before).now
              ∧ (book.isDue (p.run before).now = false ↔ w.cache.staleness.freshness.interval ≠ 0))
      ∧ ∀ seat ∈ q.seats, p.hasStarted seat.key = false → ∀ content,
          (seat.reader.step q.cache q.now).2.2 = some (.value content) →
            (seat.key, content.origin.attempt) ∈ p.joined more ∨ content ∈ p.stores more := by
  intro p q
  have reachable : Reachable q := (h.move m).run more
  have aftermath : Aftermath p (p.joined more) (p.stores more) q :=
    (Aftermath.refl (isPending_of_triggers triggered)).run (h.move m) unrecorded
  refine ⟨fun nothing => reachable.refetches (aftermath.pending nothing), ?_,
    fun seat seated late content given => ?_⟩
  · rintro before m' after content rfl stored
    have dated := Dated.of_stored stored
    refine ⟨dated.isPending, dated.lastSuccess, ?_⟩
    have silent : .recordSuccess ∉ m :: (before ++ [m']) := by
      rintro (_ | ⟨_, later⟩)
      · cases triggered
      · exact unrecorded (List.append_subset.mpr ⟨List.subset_append_left _ _, by simp⟩ later)
    have policy := freshness_run silent w
    rw [run_cons, run_append] at policy
    rw [Staleness.isDue_eq_false_of_dated dated.lastSuccess (Int.le_refl _), dated.isPending, Int.sub_self,
      ← policy]
    exact ⟨fun fresh => Nat.ne_of_gt (Int.natCast_pos.mp fresh.1),
      fun positive => ⟨Int.natCast_pos.mpr (Nat.pos_of_ne_zero positive), rfl⟩⟩
  · rcases fresh_of_handed given with ⟨holding, fresh⟩ | ⟨n, fetched, awaits, answered, rfl⟩
    · refine Or.inr (aftermath.held (fun nothing => ?_) content holding)
      cases (reachable.refetches (aftermath.pending nothing)).due.symm.trans fresh
    · have stems : fetched.content.origin.attempt = n := (reachable.genuine.answers n _ answered).1
      rw [stems]
      refine Or.inl ((aftermath.awaited seat seated late n awaits).resolve_right ?_)
      rintro ⟨failure, failed⟩
      cases answered.symm.trans failed

/-- The source has been called and is at work. -/
def callMade : List (Move Unit Nat) :=
  [.bind counting, .openReader .once .read, .reader 0, .reader 0, .attempt 1, .attempt 1]

/-- The call comes out, and its value is stored; then somebody else starts to read. -/
def readAfterCall : List (Move Unit Nat) :=
  [.attempt 1, .attempt 1, .attempt 1, .reader 0, .openReader .once .read, .reader 1]

theorem settled_by_next_success_executing :
    let w : World Unit Nat := (selfRefreshing ⟨.periodicAndLogin 60000, .unpaced⟩ none ()).run callMade
    let p := w.apply (.observe .loggedIn)
    let q := p.run readAfterCall
    p.cache.staleness.isDue p.now = true ∧ q.seats = [⟨1, .read, ⟨.once, .looking, none, 0⟩⟩]
      ∧ ((1, 1) ∈ p.joined readAfterCall ∨ ⟨10, 1, 0⟩ ∈ p.stores readAfterCall) := by
  have reachable : Reachable ((selfRefreshing ⟨.periodicAndLogin 60000, .unpaced⟩ none () :
      World Unit Nat).run callMade) := (Reachable.initial (.selfRefreshing _ _ _)).run callMade
  have during := settled_by_next_success reachable (m := .observe .loggedIn) rfl
    (show .recordSuccess ∉ ([] : List (Move Unit Nat)) from List.not_mem_nil)
  have after := settled_by_next_success reachable (m := .observe .loggedIn) rfl
    (show .recordSuccess ∉ readAfterCall by simp [readAfterCall])
  exact ⟨(during.1 rfl).due, rfl, after.2.2 ⟨1, .read, ⟨.once, .looking, none, 0⟩⟩ (by decide) rfl
    ⟨10, 1, 0⟩ rfl⟩

/-- An event of the policy comes while the source is at work.  When the call has come out the value is not
due, and a read that starts then is given it, although it was called before the event and the read joined
no attempt. -/
theorem login_during_fetch :
    let w : World Unit Nat := (selfRefreshing ⟨.periodicAndLogin 60000, .unpaced⟩ none ()).run callMade
    let p := w.apply (.observe .loggedIn)
    let q := p.run (readAfterCall ++ [.reader 1])
    w.triggers (.observe .loggedIn) = true ∧ p.called = [1]
      ∧ (p.run readAfterCall).cache.staleness.isDue (p.run readAfterCall).now = false
      ∧ p.nextKey = 1 ∧ q.itemsTo 1 = [.value ⟨10, 1, 0⟩] ∧ p.joined (readAfterCall ++ [.reader 1]) = []
      ∧ q.called = [1] := by
  decide

end World

end SingleFlight
