/-
  SingleFlight.Proofs.Superseded — an attempt that does not count any more.

  A report counts only if it comes from the newest attempt and the cache is in
  being.  An attempt whose report does not count is left with one thing to do:
  it answers those who wait for it, and ends.  Neither step touches the cell or
  the book, and neither takes anything from the attempt that came after it: the
  pending place is freed only of the attempt that stands in it, which is the
  newest.  That holds wherever the launch of the newer attempt falls, before the
  report, or between the report and the answer.

  Main results:
    * `Spares.of_answering` — an answer leaves everybody else alone.
    * `Muted.run` — an attempt that was ignored says one thing more.
    * `superseded_touches_nothing` — what becomes of such a report, and of its
      attempt.
-/
import SingleFlight.Proofs.Recovery

namespace SingleFlight

variable {ε V : Type}

open Dispatcher (Orderly)

namespace World

/-! ## §1. What a step of an attempt leaves alone. -/

/-- Of the world `w`, the world `w'` keeps all that is not the attempt `n`'s own. -/
structure Spares (n : Nat) (w w' : World ε V) : Prop where
  /-- The phase, the revision, the counters and the mark. -/
  cell : w'.cache.cell = w.cache.cell
  staleness : w'.cache.staleness = w.cache.staleness
  seats : w'.seats = w.seats
  lookouts : w'.lookouts = w.lookouts
  /-- Nobody who waits for a mark is woken. -/
  undisturbed : ∀ r : Reader, r.stage = .parked → r.isReady w'.cache = r.isReady w.cache
  latest : w'.cache.dispatcher.latest = w.cache.dispatcher.latest
  stream : w'.cache.dispatcher.stream = w.cache.dispatcher.stream
  lastStart : w'.cache.dispatcher.lastStart = w.cache.dispatcher.lastStart
  /-- The place of an attempt that came after it. -/
  pending : w.cache.dispatcher.latest ≠ n → w'.cache.dispatcher.pending = w.cache.dispatcher.pending
  others : ∀ b : Attempt ε V, b.number ≠ n →
    (b ∈ w'.cache.dispatcher.running ↔ b ∈ w.cache.dispatcher.running)
  answers : ∀ k, k ≠ n → w'.cache.dispatcher.answer? k = w.cache.dispatcher.answer? k

theorem Spares.refl (n : Nat) (w : World ε V) : Spares n w w :=
  ⟨rfl, rfl, rfl, rfl, fun _ _ => rfl, rfl, rfl, rfl, fun _ => rfl, fun _ _ => .rfl, fun _ _ => rfl⟩

/-- Whoever waits for a mark is ready by the mark alone. -/
theorem isReady_of_parked {r : Reader} (parked : r.stage = .parked) {c c' : Cache ε V}
    (cell : c'.cell = c.cell) : r.isReady c' = r.isReady c := by
  simp only [Reader.isReady, parked, cell]

/-- An attempt that changes leaves the others on the list. -/
theorem mem_others_update {d : Dispatcher ε V} {a b : Attempt ε V} (other : b.number ≠ a.number) :
    b ∈ (d.update a).running ↔ b ∈ d.running := by
  rw [Dispatcher.mem_update_iff]
  constructor
  · rintro (⟨old, _⟩ | ⟨rfl, _⟩)
    · exact old
    · exact absurd rfl other
  · exact fun old => Or.inl ⟨old, other⟩

/-- **A report that does not count leaves everybody else alone.** -/
theorem Spares.of_ignored {w : World ε V} {a : Attempt ε V} {report : Report V}
    (running : w.cache.dispatcher.attempt? a.number = some a) (reporting : a.progress = .reporting report)
    (ignored : w.isCacheAlive = false ∨ w.cache.dispatcher.latest ≠ a.number) :
    Spares a.number w (w.apply (.attempt a.number)) := by
  rw [apply_ignored running reporting ignored]
  exact ⟨rfl, rfl, rfl, rfl, fun _ parked => isReady_of_parked parked rfl, rfl, rfl, rfl, fun _ => rfl,
    fun b other => mem_others_update other, fun _ _ => rfl⟩

/-- **An answer leaves everybody else alone**, whenever it is given. -/
theorem Spares.of_answering {w : World ε V} (h : Reachable w) {a : Attempt ε V} {answer : Answer V}
    {continues : Bool} (running : w.cache.dispatcher.attempt? a.number = some a)
    (answering : a.progress = .answering answer continues) :
    Spares a.number w (w.apply (.attempt a.number)) := by
  obtain ⟨list, latest, stream, _, _, _, lastStart⟩ :=
    Dispatcher.settle_frame w.cache.dispatcher a.number answer
  -- the pending place belongs to the newest attempt
  have pending (newer : w.cache.dispatcher.latest ≠ a.number) :
      (w.cache.dispatcher.settle a.number answer).pending = w.cache.dispatcher.pending := by
    rcases Dispatcher.settle_pending_cases w.cache.dispatcher a.number answer with same | ⟨own, _⟩
    · exact same
    · exact absurd (h.ordered.dispatcher.pending _ own).2.symm newer
  have answers (k : Nat) (other : k ≠ a.number) :
      (w.cache.dispatcher.settle a.number answer).answer? k = w.cache.dispatcher.answer? k := by
    rw [Dispatcher.answer?_settle, Dispatcher.answer?_noteAnswer, if_neg other, Option.or_none]
  rw [apply_answering running answering]
  cases continues with
  | true =>
      refine ⟨rfl, rfl, rfl, rfl, fun _ parked => isReady_of_parked parked rfl, latest, stream, lastStart,
        pending, fun b other => ?_, answers⟩
      have listed : b ∈ ((w.cache.dispatcher.settle a.number answer).update
          { a with item := a.item + 1, progress := .asking }).running
          ↔ b ∈ (w.cache.dispatcher.settle a.number answer).running := mem_others_update other
      rw [list] at listed
      exact listed
  | false =>
      refine ⟨rfl, rfl, rfl, rfl, fun _ parked => isReady_of_parked parked rfl, latest, stream, lastStart,
        pending, fun b other => ?_, answers⟩
      have listed : b ∈ ((w.cache.dispatcher.settle a.number answer).retire a.number).running
          ↔ b ∈ (w.cache.dispatcher.settle a.number answer).running ∧ b.number ≠ a.number :=
        Dispatcher.mem_retire_iff
      rw [list] at listed
      exact listed.trans (and_iff_left other)

/-- An attempt that answers has answered, with this answer if it had not answered before. -/
theorem answer?_of_answering {w : World ε V} {a : Attempt ε V} {answer : Answer V} {continues : Bool}
    (running : w.cache.dispatcher.attempt? a.number = some a)
    (answering : a.progress = .answering answer continues)
    (unanswered : w.cache.dispatcher.hasAnswered a.number = false) :
    (w.apply (.attempt a.number)).cache.dispatcher.answer? a.number = some answer := by
  have settled : (w.cache.dispatcher.settle a.number answer).answer? a.number = some answer := by
    have none : w.cache.dispatcher.answer? a.number = none := by
      simpa [Dispatcher.hasAnswered] using unanswered
    rw [Dispatcher.answer?_settle, Dispatcher.answer?_noteAnswer, none, if_pos rfl]
    rfl
  rw [apply_answering running answering]
  cases continues with
  | true => exact settled
  | false => exact settled

/-! ## §2. An attempt that was ignored. -/

/-- If the attempt of `b`'s number is still on the list, it is as `b` says. -/
structure Muted (b : Attempt ε V) (w : World ε V) : Prop where
  launched : b.number ≤ w.cache.dispatcher.latest
  only : ∀ c ∈ w.cache.dispatcher.running, c.number = b.number → c = b

/-- An attempt that is about to give its last answer does nothing else. -/
theorem Muted.step {b : Attempt ε V} {answer : Answer V} (last : b.progress = .answering answer false)
    {w w' : World ε V} {m : Move ε V} (h : Muted b w) (ordered : Ordered w) (s : Step w m w') :
    Muted b w' := by
  have same {d : Dispatcher ε V} (dispatcher : d = w.cache.dispatcher) :
      b.number ≤ d.latest ∧ ∀ c ∈ d.running, c.number = b.number → c = b := by
    rw [dispatcher]
    exact ⟨h.launched, h.only⟩
  have touched {c : Cache ε V} (t : Cache.Touch w.cache w.now c) (dispatcher : w'.cache.dispatcher
      = c.dispatcher) : Muted b w' := by
    refine ⟨?_, fun x hx number => ?_⟩
    · rw [dispatcher]
      exact Nat.le_trans h.launched (latest_touch t)
    · rw [dispatcher] at hx
      rcases mem_touch t hx with old | rfl
      · exact h.only x old number
      · have launched := h.launched
        have number : w.cache.dispatcher.latest + 1 = b.number := number
        omega
  cases s with
  | aside ha | dropReader ha => exact ⟨(same ha.dispatcher).1, (same ha.dispatcher).2⟩
  | invalidate ha | poke ha => exact ⟨(same ha.dispatcher).1, (same ha.dispatcher).2⟩
  | pass | openReader | follow | bind => exact ⟨h.launched, h.only⟩
  | subscribe => exact touched (Cache.subscribe_touch w.cache w.now) rfl
  | reader own seated ha => exact touched (Reader.step_stepped _ _ _).touch ha.dispatcher
  | @attempt a left _ own running t =>
      have ha := (Dispatcher.attempt?_mem running).1
      refine ⟨?_, fun x hx number => ?_⟩
      · rw [(t.progressed ordered.dispatcher ha).kept.latest]
        exact h.launched
      · rcases t.mem_cases hx with ⟨old, _⟩ | hleft | ⟨old, _⟩
        · exact h.only x old number
        · -- what is left of an attempt that was about to end is itself, if it took no step
          obtain rfl := h.only a ha ((t.number hleft).symm.trans number)
          cases t with
          | rest => exact (Option.some.inj hleft).symm
          | wait waiting => simp [Attempt.isExecuting, last] at waiting
          | refused progress | called progress | opened progress | asked progress | came progress
          | ignored progress | stored progress | discarded progress | failed progress =>
              cases last.symm.trans progress
          | resumed progress => cases last.symm.trans progress
          | unbound | finished | died | ended => cases hleft
        · exact h.only x old number

/-- **An attempt that was ignored says one thing more**, however the run goes on. -/
theorem Muted.run {b : Attempt ε V} {answer : Answer V} (last : b.progress = .answering answer false)
    {w : World ε V} (h : Muted b w) (reachable : Reachable w) (moves : List (Move ε V)) :
    Muted b (w.run moves) := by
  induction moves generalizing w with
  | nil => exact h
  | cons m moves ih =>
      exact ih (h.step last reachable.ordered (apply_step w m)) (reachable.move m)

/-- Nobody answers in place of an attempt. -/
theorem Step.answer_source {w w' : World ε V} {m : Move ε V} (s : Step w m w') (ordered : Ordered w)
    {n : Nat} (h : w'.cache.dispatcher.hasAnswered n = true) :
    w.cache.dispatcher.hasAnswered n = true ∨ m = .attempt n := by
  have touched {c : Cache ε V} (t : Cache.Touch w.cache w.now c)
      (h : c.dispatcher.hasAnswered n = true) : w.cache.dispatcher.hasAnswered n = true := by
    rwa [Dispatcher.hasAnswered, answer?_touch t ordered.dispatcher] at h
  cases s with
  | aside ha | dropReader ha => exact Or.inl (ha.dispatcher ▸ h)
  | @invalidate asided ha | @poke asided ha =>
      have h : asided.cache.dispatcher.hasAnswered n = true := h
      exact Or.inl (ha.dispatcher ▸ h)
  | pass | openReader | follow | bind => exact Or.inl h
  | subscribe => exact Or.inl (touched (Cache.subscribe_touch w.cache w.now) h)
  | reader own seated ha =>
      rw [ha.dispatcher] at h
      exact Or.inl (touched (Reader.step_stepped _ _ _).touch h)
  | attempt own running t =>
      obtain ⟨answer, given⟩ := Dispatcher.hasAnswered_iff.mp h
      rcases t.answer_source ordered.dispatcher (Dispatcher.attempt?_mem running).1 given with
        old | ⟨rfl, _⟩
      · exact Or.inl (Dispatcher.hasAnswered_iff.mpr ⟨answer, old⟩)
      · exact Or.inr own

/-- An attempt that takes no step does not answer. -/
theorem unanswered_run {w : World ε V} (h : Reachable w) {n : Nat}
    (unanswered : w.cache.dispatcher.hasAnswered n = false) {moves : List (Move ε V)}
    (idle : .attempt n ∉ moves) : (w.run moves).cache.dispatcher.hasAnswered n = false := by
  induction moves generalizing w with
  | nil => exact unanswered
  | cons m moves ih =>
      obtain ⟨other, idle⟩ := List.ne_and_not_mem_of_not_mem_cons idle
      refine ih (h.move m) (Bool.eq_false_iff.mpr fun answered => ?_) idle
      rcases (apply_step w m).answer_source h.ordered answered with before | own
      · rw [unanswered] at before
        cases before
      · exact other own.symm

/-- Until an attempt that was ignored takes its last step, it is on the list, or it had answered before. -/
theorem Muted.listed {b : Attempt ε V} {w : World ε V} (h : Muted b w)
    (tracked : w.cache.dispatcher.Tracks b.number)
    (unanswered : w.cache.dispatcher.hasAnswered b.number = false) :
    w.cache.dispatcher.attempt? b.number = some b := by
  rcases tracked with answered | listed
  · rw [unanswered] at answered
    cases answered
  · obtain ⟨c, running⟩ := Option.isSome_iff_exists.mp (Dispatcher.attempt?_isSome_iff.mpr listed)
    obtain ⟨hc, number⟩ := Dispatcher.attempt?_mem running
    rw [running, h.only c hc number]

/-! ## §3. A report that does not count. -/

/-- The attempt `n` gives this answer with its next step: to those who wait for it, and to those who ask
for it later. -/
def AnswersWith (n : Nat) (answer : Answer V) (w : World ε V) : Prop :=
  ∀ more, let v := (w.apply (.attempt n)).run more
    v.cache.dispatcher.answer? n = some answer
      ∧ ∀ seat ∈ v.seats, seat.reader.awaits? = some n →
        (seat.reader.step v.cache v.now).2.2 = some (.ofAnswer answer)

/-- An answer that is given with the next step is the one that everybody gets. -/
theorem answersWith_of_given {w : World ε V} (h : Reachable w) {n : Nat} {answer : Answer V}
    (next : (w.apply (.attempt n)).cache.dispatcher.answer? n = some answer) : AnswersWith n answer w := by
  intro more v
  have given : v.cache.dispatcher.answer? n = some answer := answer?_run (h.move _) next more
  refine ⟨given, fun seat _ awaits => ?_⟩
  rcases Reader.step_awaiting awaits v.cache v.now with ⟨none, _⟩ | ⟨told, same, item⟩
  · rw [given] at none
    cases none
  · rw [given] at same
    cases same
    exact item

theorem answersWith_of_answering {w : World ε V} (h : Reachable w) {a : Attempt ε V} {answer : Answer V}
    {continues : Bool} (running : w.cache.dispatcher.attempt? a.number = some a)
    (answering : a.progress = .answering answer continues)
    (unanswered : w.cache.dispatcher.hasAnswered a.number = false) : AnswersWith a.number answer w :=
  answersWith_of_given h (answer?_of_answering running answering unanswered)

/-- All that is left of an attempt whose report was ignored is its answer. -/
theorem Muted.of_ignored {w : World ε V} (h : Reachable w) {a : Attempt ε V}
    (running : w.cache.dispatcher.attempt? a.number = some a) {report : Report V}
    (reporting : a.progress = .reporting report)
    (ignored : w.isCacheAlive = false ∨ w.cache.dispatcher.latest ≠ a.number) :
    Muted { a with progress := .answering (report.map (⟨·, none⟩)) false }
      (w.apply (.attempt a.number)) := by
  rw [apply_ignored running reporting ignored]
  refine ⟨(h.ordered.dispatcher.bounded a (Dispatcher.attempt?_mem running).1).2, fun c hc number => ?_⟩
  rcases Dispatcher.mem_update_iff.mp hc with ⟨_, other⟩ | ⟨changed, _⟩
  · exact absurd number other
  · exact changed

/-- An attempt that has nothing left but its answer spares everybody else with its next step, and is gone
then. -/
theorem spares_of_told {w : World ε V} (h : Reachable w) {n : Nat}
    (told : ∀ c ∈ w.cache.dispatcher.running, c.number = n → ∃ answer, c.progress = .answering answer false) :
    Spares n w (w.apply (.attempt n)) ∧ (w.apply (.attempt n)).cache.dispatcher.attempt? n = none := by
  cases on : w.cache.dispatcher.attempt? n with
  | none =>
      have rests : w.apply (.attempt n) = w := by
        show w.advanceAttempt n = w
        simp only [advanceAttempt, on]
      rw [rests]
      exact ⟨.refl _ w, on⟩
  | some c =>
      obtain ⟨hc, rfl⟩ := Dispatcher.attempt?_mem on
      obtain ⟨answer, answering⟩ := told c hc rfl
      refine ⟨.of_answering h on answering, ?_⟩
      rw [apply_answering on answering]
      refine Option.eq_none_iff_forall_ne_some.mpr fun x hx => ?_
      obtain ⟨hx, same⟩ := Dispatcher.attempt?_mem hx
      exact (Dispatcher.mem_retire_iff.mp hx).2 same

/-- **A superseded attempt cannot touch the cache.**  Let an attempt report that is not the newest, or
whose cache is gone.  Its report leaves the cell, the book, the readers and every other attempt as they
are, the newer one's places among them, and from then on it asks for nothing: whatever happens, all that it
does is to answer and to end.  If it has not answered before, it answers with its value, which was not
stored, or with its failure; and the answer leaves everybody else alone as well.  So does the answer of an
attempt that was replaced after its report had counted. -/
theorem superseded_touches_nothing {w : World ε V} (h : Reachable w) {a : Attempt ε V}
    (running : w.cache.dispatcher.attempt? a.number = some a) :
    (∀ report, a.progress = .reporting report →
        (w.isCacheAlive = false ∨ w.cache.dispatcher.latest ≠ a.number) →
      Spares a.number w (w.apply (.attempt a.number))
        ∧ ∀ more, let v := (w.apply (.attempt a.number)).run more
          (∀ b ∈ v.cache.dispatcher.running, b.number = a.number →
              ∃ answer, b.progress = .answering answer false)
            ∧ (.attempt a.number ∉ more → Spares a.number v (v.apply (.attempt a.number))
              ∧ (v.apply (.attempt a.number)).cache.dispatcher.attempt? a.number = none
              ∧ (w.cache.dispatcher.hasAnswered a.number = false →
                AnswersWith a.number (report.map (⟨·, none⟩)) v)))
      ∧ (∀ answer continues, a.progress = .answering answer continues →
          w.cache.dispatcher.latest ≠ a.number → Spares a.number w (w.apply (.attempt a.number))
            ∧ (w.cache.dispatcher.hasAnswered a.number = false → AnswersWith a.number answer w)) := by
  have listed := (Dispatcher.attempt?_mem running).1
  refine ⟨fun report reporting ignored => ⟨.of_ignored running reporting ignored, fun more => ?_⟩,
    fun answer continues answering _ => ⟨.of_answering h running answering,
      answersWith_of_answering h running answering⟩⟩
  have reachable : Reachable ((w.apply (.attempt a.number)).run more) := (h.move _).run more
  have later := (Muted.of_ignored h running reporting ignored).run rfl (h.move _) more
  have told (c : Attempt ε V)
      (hc : c ∈ ((w.apply (.attempt a.number)).run more).cache.dispatcher.running)
      (number : c.number = a.number) : ∃ answer, c.progress = .answering answer false :=
    ⟨_, congrArg Attempt.progress (later.only c hc number)⟩
  obtain ⟨spares, gone⟩ := spares_of_told reachable told
  refine ⟨told, fun idle => ⟨spares, gone, fun before => ?_⟩⟩
  -- it takes no step meanwhile, so it still owes its answer
  have unanswered : ((w.apply (.attempt a.number)).run more).cache.dispatcher.hasAnswered a.number = false := by
    refine unanswered_run (h.move _) ?_ idle
    rw [apply_ignored running reporting ignored]
    exact before
  have tracked := tracks_run h (Or.inr ⟨a, listed, rfl⟩) (.attempt a.number :: more)
  exact answersWith_of_answering reachable
    (a := { a with progress := .answering (report.map (⟨·, none⟩)) false })
    (later.listed tracked unanswered) rfl unanswered

/-- The first call is about to report when the value is thrown away, and another fetch is launched. -/
def replacedAtReport : List (Move Unit Nat) :=
  beforeRace ++ [.invalidate, .openReader .once .polled, .reader 1, .reader 1]

/-- The attempt that has been overtaken. -/
def lateAttempt : Attempt Unit Nat where
  number := 1
  delay := 0
  predecessor := none
  supersedes := none
  progress := .reporting (.ok ⟨10, 1, 0⟩)

theorem superseded_touches_nothing_late :
    let w : World Unit Nat := (World.bare ⟨.periodic 1000, .unpaced⟩ none ()).run replacedAtReport
    let v := (w.apply (.attempt 1)).apply (.attempt 1)
    w.cache.dispatcher.latest = 2 ∧ v.cache.cell = w.cache.cell
      ∧ w.cache.dispatcher.pending = some 2 ∧ v.cache.dispatcher.pending = some 2
      ∧ v.cache.dispatcher.answer? 1 = some (.ok ⟨⟨10, 1, 0⟩, none⟩) := by
  intro w v
  have reachable : Reachable w :=
    (Reachable.initial (.bare ⟨.periodic 1000, .unpaced⟩ none ())).run replacedAtReport
  have newer : w.cache.dispatcher.latest ≠ 1 := by decide
  have h := (superseded_touches_nothing (a := lateAttempt) reachable rfl).1 _ rfl (Or.inr newer)
  obtain ⟨spares, answers, _, given⟩ := And.imp_right (fun h => (h []).2 (by simp)) h
  have still : (w.apply (.attempt 1)).cache.dispatcher.latest ≠ 1 := by decide
  exact ⟨by decide, answers.cell.trans spares.cell, by decide,
    (answers.pending still).trans (spares.pending newer), (given (by decide) []).1⟩

end World

end SingleFlight
