/-
  SingleFlight.Proofs.Provenance — where values and failures come from.

  Whatever an attempt reports, answers or leaves in the cell stems from its own
  call of the source; only an attempt whose owner is gone fails without one.
  So a value names the attempt that fetched it, a failed fetch names the
  attempt that failed, and the bookkeeping's own faults are never passed on.

  Main results:
    * `Reachable.genuine` — every reachable world is genuine.
-/
import SingleFlight.Proofs.Succession

namespace SingleFlight

variable {ε V : Type}

open Dispatcher (Orderly)

/-! ## §1. What an attempt can say. -/

/-- The report can come from the attempt `n`, if those in `called` have called the source. -/
def Stems (called : List Nat) (n : Nat) : Report V → Prop
  | .ok content => content.origin.attempt = n ∧ n ∈ called
  | .error (.fetchFailed incident _) => incident = n ∧ n ∈ called
  | .error (.ownerGone _) => True
  | .error _ => False

/-- The report that an answer passes on. -/
def reportOf (answer : Answer V) : Report V := answer.map Fetched.content

theorem reportOf_answerOf (report : Report V) (verdict : Verdict) :
    reportOf (Attempt.answerOf report verdict) = report := by
  cases report <;> rfl

/-- More calls take nothing back. -/
theorem Stems.mono {called called' : List Nat} {n : Nat} {report : Report V}
    (h : Stems called n report) (sub : ∀ k ∈ called, k ∈ called') : Stems called' n report := by
  match report, h with
  | .ok content, h => exact ⟨h.1, sub n h.2⟩
  | .error (.fetchFailed incident reason), h => exact ⟨h.1, sub n h.2⟩
  | .error (.ownerGone owner), _ => trivial

/-- What an attempt is about to say can come from it. -/
def Attempt.Truthful (called : List Nat) (a : Attempt ε V) : Prop :=
  match a.progress with
  | .launched | .heldBack _ | .queued => True
  | .asking | .producing .. | .stuck => a.number ∈ called
  | .reporting report => Stems called a.number report
  | .answering answer continues =>
    Stems called a.number (reportOf answer) ∧ (continues = true → a.number ∈ called)

theorem Attempt.Truthful.mono {called called' : List Nat} {a : Attempt ε V}
    (h : a.Truthful called) (sub : ∀ k ∈ called, k ∈ called') : a.Truthful called' := by
  unfold Attempt.Truthful at h ⊢
  split at h
  · trivial
  · trivial
  · trivial
  · exact sub _ h
  · exact sub _ h
  · exact sub _ h
  · exact h.mono sub
  · exact ⟨h.1.mono sub, fun continues => sub _ (h.2 continues)⟩

namespace Attempt.Truthful

variable {called : List Nat} {a : Attempt ε V}

theorem of_asking (h : a.Truthful called) (hp : a.progress = .asking) : a.number ∈ called := by
  unfold Truthful at h
  rwa [hp] at h

theorem of_producing {due : Instant} {outcome : ε → Instant → Outcome V} (h : a.Truthful called)
    (hp : a.progress = .producing due outcome) : a.number ∈ called := by
  unfold Truthful at h
  rwa [hp] at h

theorem of_reporting {report : Report V} (h : a.Truthful called)
    (hp : a.progress = .reporting report) : Stems called a.number report := by
  unfold Truthful at h
  rwa [hp] at h

theorem of_answering {answer : Answer V} {continues : Bool} (h : a.Truthful called)
    (hp : a.progress = .answering answer continues) :
    Stems called a.number (reportOf answer) ∧ (continues = true → a.number ∈ called) := by
  unfold Truthful at h
  rwa [hp] at h

end Attempt.Truthful

namespace World

/-! ## §2. Steps of attempts. -/

/-- The calls of the source are never forgotten. -/
theorem Turn.called_mono {w w' : World ε V} {a : Attempt ε V} {left : Option (Attempt ε V)}
    (t : Turn w a w' left) (k : Nat) (hk : k ∈ w.called) : k ∈ w'.called := by
  unfold World.called at hk ⊢
  rcases t.called_cases with same | ⟨calls, _⟩
  · rw [same]
    exact hk
  · rw [calls]
    exact List.mem_cons_of_mem _ hk

/-- What is left of a truthful attempt is truthful. -/
theorem Turn.truthful {w w' : World ε V} {a a' : Attempt ε V} {left : Option (Attempt ε V)}
    (t : Turn w a w' left) (h : a.Truthful w.called) (hleft : left = some a') :
    a'.Truthful w'.called := by
  cases t with
  | rest =>
      cases hleft
      -- each step takes over what the attempt had to say, or says what came of its call
      exact h
  | wait waiting hp =>
      cases hleft
      rcases hp with rfl | ⟨t, rfl⟩
      · trivial
      · trivial
  | refused queued ready owner =>
      cases hleft
      trivial
  | called queued ready hp =>
      have self : a.number ∈ (((w.replaced a).noteCall a).called) := List.mem_cons_self
      cases hleft
      rcases hp with rfl | ⟨due, outcome, rfl⟩
      · exact ⟨rfl, self⟩
      · exact self
  | opened queued ready bound continuous =>
      cases hleft
      exact (List.mem_cons_self : a.number ∈ ((w.replaced a).noteCall a).called)
  | asked asking hp =>
      have self := h.of_asking asking
      cases hleft
      rcases hp with ⟨due, outcome, rfl⟩ | rfl | ⟨rfl, _⟩
      · exact self
      · exact self
      · exact ⟨rfl, self⟩
  | came producing hr =>
      have self := h.of_producing producing
      cases hleft
      rcases hr with ⟨v, rfl⟩ | ⟨reason, rfl⟩
      · exact ⟨rfl, self⟩
      · exact ⟨rfl, self⟩
  | ignored reporting hi =>
      have stems := h.of_reporting reporting
      cases hleft
      refine ⟨?_, fun continues => by cases continues⟩
      rw [reportOf_answerOf]
      exact stems
  | stored reporting alive latest hk =>
      have stems := h.of_reporting reporting
      cases hleft
      exact ⟨stems, fun _ => stems.2⟩
  | discarded reporting alive latest hk =>
      have stems := h.of_reporting reporting
      cases hleft
      exact ⟨stems, fun _ => stems.2⟩
  | failed reporting alive latest =>
      have stems := h.of_reporting reporting
      cases hleft
      exact ⟨stems, fun continues => by cases continues⟩
  | resumed answering =>
      have said := h.of_answering answering
      cases hleft
      exact said.2 rfl
  | unbound | finished | died | ended => cases hleft

/-- A new answer is the one that the attempt was about to give, or tells that the attempt is lost. -/
theorem Turn.answer_source {w w' : World ε V} {a : Attempt ε V} {left : Option (Attempt ε V)}
    (t : Turn w a w' left) (h : Orderly w.now w.cache.dispatcher)
    (ha : a ∈ w.cache.dispatcher.running) {n : Nat} {answer : Answer V}
    (hn : w'.cache.dispatcher.answer? n = some answer) :
    w.cache.dispatcher.answer? n = some answer
      ∨ (n = a.number ∧ w.cache.dispatcher.answer? n = none
          ∧ ((∃ continues, a.progress = .answering answer continues)
            ∨ (answer = .error (.fetchFailed n Failure.lostReason)
                ∧ w.gives a = some (.came .uncopyable)
                ∧ ∃ due outcome, a.progress = .producing due outcome))) := by
  -- a stream that is stopped has answered, so stopping it answers nobody
  have dismissed (queued : a.progress = .queued)
      (ready : a.predecessor.all w.cache.dispatcher.hasAnswered = true) :
      (w.cache.dispatcher.dismiss a.supersedes).answers = w.cache.dispatcher.answers :=
    Dispatcher.dismiss_of_answered
      (h.stopped ((h.fits a ha).queues (by simp [Attempt.isExecuting, queued])) ready)
  have unchanged (same : w'.cache.dispatcher.answers = w.cache.dispatcher.answers) :
      w.cache.dispatcher.answer? n = some answer := by
    unfold Dispatcher.answer? at hn ⊢
    rw [← same]
    exact hn
  -- a note counts only for an attempt that has not answered
  have noted {said : Answer V}
      (hn : (w.cache.dispatcher.answer? n).or (if n = a.number then some said else none) = some answer) :
      w.cache.dispatcher.answer? n = some answer
        ∨ (n = a.number ∧ w.cache.dispatcher.answer? n = none ∧ answer = said) := by
    rcases Option.or_eq_some_iff.mp hn with old | ⟨unanswered, new⟩
    · exact Or.inl old
    · split at new
      next same => exact Or.inr ⟨same, unanswered, (Option.some.inj new).symm⟩
      next => cases new
  cases t with
  | unbound queued hb =>
      have bound := (h.bound_of_mem ha).2
      rw [hb] at bound
      cases bound
  | refused queued ready owner => exact Or.inl (unchanged (dismissed queued ready))
  | called queued ready hp => exact Or.inl (unchanged (dismissed queued ready))
  | opened queued ready bound continuous => exact Or.inl (unchanged (dismissed queued ready))
  | died producing gives =>
      have lost : (w.cache.dispatcher.lose a.number).answer? n = some answer := hn
      rw [Dispatcher.answer?_lose] at lost
      rcases noted lost with old | ⟨same, unanswered, said⟩
      · exact Or.inl old
      · refine Or.inr ⟨same, unanswered, Or.inr ⟨?_, gives, _, _, producing⟩⟩
        rw [said, same]
  | @resumed said answering | @ended said answering =>
      have settled : (w.cache.dispatcher.settle a.number said).answer? n = some answer := hn
      rw [Dispatcher.answer?_settle, Dispatcher.answer?_noteAnswer] at settled
      rcases noted settled with old | ⟨same, unanswered, rfl⟩
      · exact Or.inl old
      · exact Or.inr ⟨same, unanswered, Or.inl ⟨_, answering⟩⟩
  | rest | wait | asked | finished | came | ignored | stored | discarded | failed =>
      exact Or.inl hn

/-- A new answer stems from the attempt that took the step. -/
theorem Turn.answer_cases {w w' : World ε V} {a : Attempt ε V} {left : Option (Attempt ε V)}
    (t : Turn w a w' left) (h : Orderly w.now w.cache.dispatcher)
    (ha : a ∈ w.cache.dispatcher.running) (truthful : a.Truthful w.called) {n : Nat}
    {answer : Answer V} (hn : w'.cache.dispatcher.answer? n = some answer) :
    w.cache.dispatcher.answer? n = some answer
      ∨ (n = a.number ∧ Stems w.called n (reportOf answer)) := by
  rcases t.answer_source h ha hn with old | ⟨rfl, _, said⟩
  · exact Or.inl old
  · refine Or.inr ⟨rfl, ?_⟩
    rcases said with ⟨continues, answering⟩ | ⟨rfl, _, due, outcome, producing⟩
    · exact (truthful.of_answering answering).1
    · exact ⟨rfl, truthful.of_producing producing⟩

/-! ## §3. Genuine worlds. -/

/-- Everything that was fetched stems from the attempt that it names. -/
structure Genuine (w : World ε V) : Prop where
  attempts : ∀ a ∈ w.cache.dispatcher.running, a.Truthful w.called
  answers : ∀ n answer, w.cache.dispatcher.answer? n = some answer →
    Stems w.called n (reportOf answer)
  held : ∀ content, w.cache.cell.phase.value? = some content → content.origin.attempt ∈ w.called

/-- A step of an attempt keeps a world genuine. -/
theorem Genuine.turn {w w' : World ε V} {a : Attempt ε V} {left : Option (Attempt ε V)}
    (h : Genuine w) (ordered : Ordered w) (t : Turn w a w' left)
    (ha : a ∈ w.cache.dispatcher.running) : Genuine w' where
  attempts b hb := by
    rcases t.mem_running hb with hb | hleft
    · exact (h.attempts b hb).mono t.called_mono
    · exact t.truthful (h.attempts a ha) hleft
  answers n answer hn := by
    rcases t.answer_cases ordered.dispatcher ha (h.attempts a ha) hn with old | ⟨rfl, stems⟩
    · exact (h.answers n answer old).mono t.called_mono
    · exact stems.mono t.called_mono
  held content hc := by
    apply t.called_mono
    rcases t.phase_cases with same | ⟨_, _, phase⟩ | ⟨_, _, stored, reporting, _, phase⟩
    · rw [same] at hc
      exact h.held content hc
    · rw [phase] at hc
      cases hc
    · rw [phase] at hc
      cases hc
      have stems := (h.attempts a ha).of_reporting reporting
      rw [stems.1]
      exact stems.2

/-- A section of a reader launches attempts that have said nothing, and answers nobody. -/
theorem genuine_touch {c c' : Cache ε V} {now : Instant} {called : List Nat}
    (t : Cache.Touch c now c') (h : Orderly now c.dispatcher)
    (attempts : ∀ a ∈ c.dispatcher.running, a.Truthful called) :
    (∀ a ∈ c'.dispatcher.running, a.Truthful called)
      ∧ c'.dispatcher.answers = c.dispatcher.answers
      ∧ (c'.cell.phase = c.cell.phase ∨ c'.cell.phase.value? = none) := by
  refine ⟨fun b hb => ?_, ?_, ?_⟩
  · rcases mem_touch t hb with old | rfl
    · exact attempts b old
    · -- the new attempt has said nothing
      trivial
  · rcases t.renewed with same | ⟨fresh, renewed, _⟩
    · rw [same]
    · exact h.answers_renewed renewed
  · rcases t.phase_cases with same | ⟨refetch, phase, _⟩ | ⟨phase, _⟩
    · exact Or.inl same
    · exact Or.inr (by rw [phase]; rfl)
    · exact Or.inr (by rw [phase]; rfl)

/-- A section of a reader keeps a world genuine. -/
theorem Genuine.touch {w w' : World ε V} {c : Cache ε V} (h : Genuine w) (ordered : Ordered w)
    (t : Cache.Touch w.cache w.now c) (calls : w'.calls = w.calls)
    (cell : w'.cache.cell = c.cell) (dispatcher : w'.cache.dispatcher = c.dispatcher) :
    Genuine w' := by
  have called := called_eq calls
  obtain ⟨attempts, answers, phase⟩ := genuine_touch t ordered.dispatcher h.attempts
  refine ⟨fun a ha => ?_, fun n answer hn => ?_, fun content hc => ?_⟩
  · rw [dispatcher] at ha
    rw [called]
    exact attempts a ha
  · rw [called]
    apply h.answers n answer
    unfold Dispatcher.answer? at hn ⊢
    rw [← answers, ← dispatcher]
    exact hn
  · rw [cell] at hc
    rw [called]
    rcases phase with same | none
    · rw [same] at hc
      exact h.held content hc
    · rw [none] at hc
      cases hc

/-- A move that leaves the calls and the dispatcher alone, and stores nothing, keeps a world
genuine. -/
theorem Genuine.same {w w' : World ε V} (h : Genuine w) (calls : w'.calls = w.calls)
    (dispatcher : w'.cache.dispatcher = w.cache.dispatcher)
    (phase : w'.cache.cell.phase = w.cache.cell.phase ∨ w'.cache.cell.phase.value? = none) :
    Genuine w' := by
  have called := called_eq calls
  refine ⟨?_, ?_, fun content hc => ?_⟩
  · rw [called, dispatcher]
    exact h.attempts
  · rw [called, dispatcher]
    exact h.answers
  · rw [called]
    rcases phase with same | none
    · exact h.held content (by rw [← same]; exact hc)
    · rw [none] at hc
      cases hc

/-- **Every reachable world is genuine.** -/
theorem Reachable.genuine {w : World ε V} (h : Reachable w) : Genuine w := by
  refine h.invariant (fun w hw => ?_) (fun w m w' reachable h s => ?_)
  · refine ⟨fun a ha => ?_, fun n answer hn => ?_, fun content hc => ?_⟩
    · cases hw <;> exact (List.not_mem_nil ha).elim
    · cases hw <;> cases hn
    · cases hw <;> cases hc
  · cases s with
    | aside ha => exact h.same ha.calls ha.dispatcher (Or.inl (by rw [ha.cell]))
    | pass since named => exact h.same rfl rfl (Or.inl rfl)
    | bind source unsealed => exact ⟨h.attempts, h.answers, h.held⟩
    | subscribe own =>
        exact h.touch reachable.ordered (Cache.subscribe_touch w.cache w.now) rfl rfl rfl
    | invalidate ha => exact h.same ha.calls ha.dispatcher (Or.inr rfl)
    | @poke poked ha =>
        have phase : poked.cache.cell.phase = w.cache.cell.phase := by rw [ha.cell]
        exact h.same ha.calls ha.dispatcher (Or.inl phase)
    | openReader reading role holds => exact h.same rfl rfl (Or.inl rfl)
    | follow key => exact h.same rfl rfl (Or.inl rfl)
    | dropReader ha => exact h.same ha.calls ha.dispatcher (Or.inl (by rw [ha.cell]))
    | reader own seated ha =>
        exact h.touch reachable.ordered (Reader.step_stepped _ _ _).touch ha.calls ha.cell
          ha.dispatcher
    | attempt own running t =>
        exact h.turn reachable.ordered t (Dispatcher.attempt?_mem running).1

end World

end SingleFlight
