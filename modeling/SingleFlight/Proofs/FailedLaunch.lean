/-
  SingleFlight.Proofs.FailedLaunch — what a launch that fails leaves behind.

  Without a source a launch fails before it has changed anything.  With one its
  start may lie beyond the clock: then the caller crashes, but by that time the
  launch has given out a number, freed the places of the previous attempt and
  stopped a stream that has answered, and nobody puts any of this back.  The
  number belongs to nobody, so no report counts from there on; and the next
  start would lie beyond the clock as well, so nobody is launched any more.

  Main results:
    * `launch_failed` — what becomes of any cache with a launch that fails.
    * `Spent.step`, `Spent.run` — after a crash nobody is launched, and no report
      counts.
    * `failed_launch` — both, of every read that a failed launch answers.
-/
import SingleFlight.Proofs.Outcomes

namespace SingleFlight

variable {ε V : Type}

open Dispatcher (Jammed Overflowed)

/-! ## §1. The launch itself. -/

namespace Cache

/-- What the cache `c` became with a launch that failed.  The dispatcher is as it was exactly if no source
is bound; otherwise a number is gone, the places of the previous attempt are free, and a stream that has
answered is off the list. -/
structure LaunchFailed (c c' : Cache ε V) : Prop where
  cell : c'.cell = c.cell
  lastStart : c'.dispatcher.lastStart = c.dispatcher.lastStart
  binding : c'.dispatcher.binding = c.dispatcher.binding
  kept : c'.dispatcher = c.dispatcher ↔ c.dispatcher.binding = none
  latest : c.dispatcher.binding ≠ none → c'.dispatcher.latest = c.dispatcher.latest + 1
  freed : c.dispatcher.binding ≠ none → c'.dispatcher.pending = none ∧ c'.dispatcher.stream = none
  running : c.dispatcher.binding ≠ none → ∀ a, a ∈ c'.dispatcher.running
    ↔ a ∈ c.dispatcher.running ∧ c.dispatcher.answeredStream ≠ some a.number

variable {c c' : Cache ε V} {now : Instant}

theorem LaunchFailed.of_unbound (unbound : c.dispatcher.binding = none) (cell : c'.cell = c.cell)
    (dispatcher : c'.dispatcher = c.dispatcher) : LaunchFailed c c' :=
  ⟨cell, congrArg Dispatcher.lastStart dispatcher, congrArg Dispatcher.binding dispatcher,
    iff_of_true dispatcher unbound, fun bound => absurd unbound bound, fun bound => absurd unbound bound,
    fun bound => absurd unbound bound⟩

theorem LaunchFailed.of_overflowed (overflowed : Overflowed c.dispatcher c'.dispatcher now)
    (cell : c'.cell = c.cell) : LaunchFailed c c' := by
  have bound : c.dispatcher.binding ≠ none := Option.isSome_iff_ne_none.mp overflowed.bound
  refine ⟨cell, overflowed.lastStart, overflowed.binding, iff_of_false (fun same => ?_) bound,
    fun _ => overflowed.latest, fun _ => ⟨overflowed.pending, overflowed.stream⟩, fun _ a => ?_⟩
  · have latest := overflowed.latest
    rw [same] at latest
    exact Nat.succ_ne_self _ latest.symm
  · rw [overflowed.running, Option.toList_none, List.append_nil]
    exact Dispatcher.mem_clear_iff

/-- **What becomes of a cache with a launch that fails**, whatever state the cache is in. -/
theorem launch_failed (fails : ∀ n, (c.launch now).2 ≠ .wait n) : LaunchFailed c (c.launch now).1 := by
  unfold launch at fails ⊢
  cases launched : c.dispatcher.launch now with
  | unbound => exact .of_unbound (Dispatcher.launch_unbound_iff.mp launched) rfl rfl
  | overflow left => exact .of_overflowed (Dispatcher.launch_overflowed launched) rfl
  | started next n =>
      rw [launched] at fails
      exact absurd rfl (fails n)

end Cache

namespace World

/-- A read that a failed launch answers: nothing has become of the cache, or the launch ran beyond the
clock. -/
theorem failed_cases {w : World ε V} {m : Move ε V} {e : Evaluation V} (evaluated : w.evaluation? m = some e)
    (failed : e.came = .ticket (.failed .unbound) ∨ e.came = .ticket .crashed) :
    (w.apply m).now = w.now ∧ (w.apply m).cache.cell = w.cache.cell
      ∧ ((w.cache.dispatcher.binding = none ∧ e.came = .ticket (.failed .unbound)
          ∧ (w.apply m).cache.dispatcher = w.cache.dispatcher)
        ∨ (e.came = .ticket .crashed
          ∧ Overflowed w.cache.dispatcher (w.apply m).cache.dispatcher w.now)) := by
  obtain ⟨seat, rfl, seated, _, came⟩ := evaluation?_eq_some evaluated
  have advanced : Advanced w seat (seat.reader.step w.cache w.now) (w.apply (.reader seat.key)) :=
    advanceReader_advanced seated
  have listed := seat.reader.step_evaluated w.cache w.now
  rw [advanced.now, advanced.cell, advanced.dispatcher]
  generalize e.came = given at came failed ⊢
  rw [came] at listed
  generalize (seat.reader.step w.cache w.now).1 = c at listed ⊢
  cases listed with
  | served => rcases failed with same | same <;> cases same
  | ticket told =>
      cases told with
      | unbound _ _ launched =>
          exact ⟨rfl, rfl, Or.inl ⟨Dispatcher.launch_unbound_iff.mp launched, rfl, rfl⟩⟩
      | overflow _ _ launched =>
          exact ⟨rfl, rfl, Or.inr ⟨rfl, Dispatcher.launch_overflowed launched⟩⟩
      | started | joined | lost | broken => rcases failed with same | same <;> cases same

/-! ## §2. After a launch ran beyond the clock. -/

/-- Nobody can be launched any more, and the number of the newest attempt belongs to nobody. -/
structure Spent (w : World ε V) : Prop where
  jammed : Jammed w.now w.cache.dispatcher
  outdated : ∀ a ∈ w.cache.dispatcher.running, a.number < w.cache.dispatcher.latest

theorem Spent.of_overflowed {w w' : World ε V} (ordered : Ordered w) (now : w'.now = w.now)
    (overflowed : Overflowed w.cache.dispatcher w'.cache.dispatcher w.now) : Spent w' where
  jammed := by
    rw [now]
    exact overflowed.jammed ordered.named
  outdated a ha := by
    rw [overflowed.latest]
    exact Nat.lt_succ_of_le (ordered.dispatcher.bounded a (overflowed.mem_running ha)).2

theorem Spent.same {w w' : World ε V} (h : Spent w) (since : w.now ≤ w'.now)
    (dispatcher : w'.cache.dispatcher = w.cache.dispatcher) : Spent w' where
  jammed := by
    rw [dispatcher]
    exact h.jammed.mono since
  outdated := by
    rw [dispatcher]
    exact h.outdated

/-- **It stays so, and nobody is launched.** -/
theorem Spent.step {w w' : World ε V} {m : Move ε V} (h : Spent w) (ordered : Ordered w) (s : Step w m w') :
    Spent w' ∧ (w'.cache.dispatcher.latest = w.cache.dispatcher.latest
      ∨ w'.cache.cell.phase ≠ .calculating) := by
  cases s with
  | aside ha | invalidate ha | poke ha | dropReader ha =>
      exact ⟨h.same (Int.le_of_eq ha.now.symm) ha.dispatcher, Or.inl (congrArg Dispatcher.latest ha.dispatcher)⟩
  | pass since => exact ⟨h.same since rfl, Or.inl rfl⟩
  | openReader | follow => exact ⟨h.same (Int.le_refl _) rfl, Or.inl rfl⟩
  | bind source =>
      -- a source is bound for the next launch, whose start the clock cannot name either
      exact ⟨⟨h.jammed, h.outdated⟩, Or.inl rfl⟩
  | subscribe =>
      have dispatcher := w.cache.subscribe_dispatcher
      exact ⟨h.same (Int.le_refl _) dispatcher, Or.inl (congrArg Dispatcher.latest dispatcher)⟩
  | @reader seat _ own seated ha =>
      have touch := (seat.reader.step_stepped w.cache w.now).touch
      rcases touch.dispatcher_cases with same | ⟨idle, ⟨n, started, _⟩ | ⟨overflowed, phase⟩⟩
      · have dispatcher := ha.dispatcher.trans same
        exact ⟨h.same (Int.le_of_eq ha.now.symm) dispatcher, Or.inl (congrArg Dispatcher.latest dispatcher)⟩
      · -- the clock could name the start
        obtain ⟨start, named⟩ := started.named
        rw [h.jammed.overflows ordered.named] at named
        cases named
      · -- another launch runs beyond the clock, and takes the next number
        rw [← ha.dispatcher] at overflowed
        refine ⟨.of_overflowed ordered ha.now overflowed, Or.inr ?_⟩
        rw [ha.cell, phase]
        exact idle
  | @attempt a left _ own running t =>
      have ha := (Dispatcher.attempt?_mem running).1
      have kept := (t.progressed ordered.dispatcher ha).kept
      obtain ⟨pending, stream, window, start, spaced, last, late⟩ := h.jammed
      refine ⟨⟨⟨?_, kept.stream.trans stream, window, start, kept.pacing.trans spaced,
        kept.lastStart.trans last, by rw [t.now]; exact late⟩, fun b hb => ?_⟩, Or.inl kept.latest⟩
      · rcases kept.pending with same | free
        · exact same.trans pending
        · exact free
      · rw [kept.latest]
        rcases t.mem_running hb with old | hleft
        · exact h.outdated b old
        · rw [t.number hleft]
          exact h.outdated a ha

/-- The report of an attempt that is not the newest is dropped. -/
theorem dropped_of_outdated {w : World ε V} {m : Move ε V} {s : Statement V}
    (outdated : ∀ a ∈ w.cache.dispatcher.running, a.number < w.cache.dispatcher.latest)
    (said : w.statement? m = some s) : s.isDropped = true := by
  obtain ⟨a, _, running, _, same⟩ := statement?_eq_some said
  have older : w.cache.dispatcher.latest ≠ a.number :=
    (Nat.ne_of_lt (outdated a (Dispatcher.attempt?_mem running).1)).symm
  rw [same]
  unfold Statement.isDropped
  dsimp only
  split
  · rw [Cache.take.eq_def, if_pos older]
    rfl
  · rfl

/-- **From then on nobody is launched, and no report counts.** -/
theorem Spent.run {w : World ε V} (h : Spent w) (reachable : Reachable w) (moves : List (Move ε V)) :
    w.launchings moves = [] ∧ ∀ s ∈ w.statements moves, s.isDropped = true := by
  induction moves generalizing w with
  | nil => exact ⟨rfl, fun s said => nomatch said⟩
  | cons m moves ih =>
      obtain ⟨next, quiet⟩ := h.step reachable.ordered (apply_step w m)
      obtain ⟨launched, dropped⟩ := ih next (reachable.move m)
      refine ⟨?_, fun s said => ?_⟩
      · have none : w.launched? m = none := by
          unfold launched? launches
          rcases quiet with same | idle
          · simp [same]
          · have idle : (w.apply m).cache.cell.phase.isCalculating = false :=
              Bool.eq_false_iff.mpr fun busy => idle (Phase.eq_calculating busy)
            simp [idle]
        show (w.launched? m).toList ++ (w.apply m).launchings moves = []
        rw [none, launched]
        rfl
      · rcases List.mem_append.mp said with now | later
        · exact dropped_of_outdated h.outdated (Option.mem_toList.mp now)
        · exact dropped s later

/-! ## §3. Failed launches. -/

/-- **A launch that fails leaves everything as it was exactly if no source is bound.**  This is true of a
launch in any state of the cache.  In a world, let a read be answered by a failed launch: the read fails
without a source and crashes with one.  After a crash the attempts that were on their way go on, all but a
stream that has answered; but their reports are dropped, all of them, and nobody is launched in their
place. -/
theorem failed_launch :
    (∀ (c : Cache ε V) (now : Instant), (∀ n, (c.launch now).2 ≠ .wait n) →
      c.LaunchFailed (c.launch now).1)
    ∧ ∀ (w : World ε V) (m : Move ε V) (e : Evaluation V), Reachable w → w.evaluation? m = some e →
      (e.came = .ticket (.failed .unbound) ∨ e.came = .ticket .crashed) →
        w.cache.LaunchFailed (w.apply m).cache
          ∧ (e.came = .ticket .crashed ↔ w.cache.dispatcher.binding ≠ none)
          ∧ (e.came = .ticket .crashed → ∀ more,
            (w.apply m).launchings more = []
              ∧ ∀ s ∈ (w.apply m).statements more, s.isDropped = true) := by
  refine ⟨fun c now fails => Cache.launch_failed fails, fun w m e reachable evaluated failed => ?_⟩
  obtain ⟨now, cell, ⟨unbound, came, same⟩ | ⟨came, overflowed⟩⟩ := failed_cases evaluated failed
  · have alive : e.came ≠ .ticket .crashed := fun crashed => by
      rw [came] at crashed
      cases crashed
    exact ⟨.of_unbound unbound cell same, iff_of_false alive fun bound => bound unbound,
      fun crashed => absurd crashed alive⟩
  · exact ⟨.of_overflowed overflowed cell,
      iff_of_true came (Option.isSome_iff_ne_none.mp overflowed.bound),
      fun _ => (Spent.of_overflowed reachable.ordered now overflowed).run (reachable.move m)⟩

/-- A window that leads beyond the clock from wherever it starts. -/
def endless : Settings := ⟨.periodic 60000, .spaced (.ofSecs 18446744073709551615)⟩

/-- The first fetch is on its way, its value is thrown away, and another reader is about to look. -/
def lateLook : List (Move Unit Nat) :=
  [.bind counting, .openReader .once .read, .reader 0, .reader 0, .attempt 1, .attempt 1, .invalidate,
    .openReader .once .read, .reader 1]

/-- A stream has answered, and a reader is about to demand a value of its own. -/
def lateDemand : List (Move Unit Nat) :=
  [.bind ticking, .openReader .once .read, .reader 0, .reader 0, .attempt 1, .attempt 1, .attempt 1,
    .attempt 1, .attempt 1, .attempt 1, .openReader .anew .read]

theorem failed_launch_lateLook :
    let w : World Unit Nat := (World.selfRefreshing endless none ()).run lateLook
    let w' := w.apply (.reader 1)
    (∀ n, (w.cache.launch w.now).2 ≠ .wait n) ∧ w.cache.LaunchFailed (w.cache.launch w.now).1
      ∧ w.evaluation? (.reader 1) = some ⟨1, .once, .ticket .crashed⟩
      ∧ w.cache.LaunchFailed w'.cache ∧ w'.launchings [.openReader .anew .read, .reader 2] = [] := by
  obtain ⟨anywhere, inWorld⟩ := failed_launch (ε := Unit) (V := Nat)
  have crashes : (((World.selfRefreshing endless none ()).run lateLook).cache.launch 0).2 = .crashed := by
    decide
  have fails (n : Nat) : (((World.selfRefreshing endless none ()).run lateLook).cache.launch 0).2 ≠ .wait n :=
    fun waits => nomatch crashes.symm.trans waits
  obtain ⟨left, _, silenced⟩ := inWorld ((World.selfRefreshing endless none ()).run lateLook) (.reader 1)
    ⟨1, .once, .ticket .crashed⟩ ((Reachable.initial (.selfRefreshing _ _ _)).run _) (by decide) (Or.inr rfl)
  exact ⟨fails, anywhere _ _ fails, by decide, left, (silenced rfl _).1⟩

/-- **A launch that runs beyond the clock takes the number and the places of those before it.**  The report
of the fetch that was on its way would have counted, and is dropped; the stream that was on its way would
have given its next item, and is gone. -/
theorem crash_leaves_nothing_as_it_was :
    let w₀ : World Unit Nat := .selfRefreshing endless none ()
    let w := w₀.run lateLook
    let w' := w.apply (.reader 1)
    let v := w₀.run lateDemand
    let v' := v.apply (.reader 1)
    (w.evaluation? (.reader 1) = some ⟨1, .once, .ticket .crashed⟩
        ∧ w.cache.dispatcher.latest = 1 ∧ w.cache.dispatcher.pending = some 1
        ∧ w'.cache.dispatcher.latest = 2 ∧ w'.cache.dispatcher.pending = none
        ∧ (w.statements [.attempt 1, .attempt 1]).map Statement.isDropped = [false]
        ∧ (w'.statements [.attempt 1, .attempt 1]).map Statement.isDropped = [true])
      ∧ v.evaluation? (.reader 1) = some ⟨1, .anew, .ticket .crashed⟩
        ∧ v.cache.dispatcher.stream = some 1 ∧ v'.cache.dispatcher.stream = none
        ∧ (v.run [.attempt 1, .attempt 1, .attempt 1]).cache.peek = some 11
        ∧ (v'.run [.attempt 1, .attempt 1, .attempt 1]).cache.peek = some 10 := by
  decide

end World

end SingleFlight
