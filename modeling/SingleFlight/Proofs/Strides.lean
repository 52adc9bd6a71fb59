/-
  SingleFlight.Proofs.Strides — tasks that nobody interrupts between two waits.

  A run is any list of moves, so anybody may act between two steps of an
  attempt, as if each task had a thread to itself.  Where tasks take turns on
  one thread, whoever has the turn keeps it until it waits.  An attempt that was
  given something makes its report and answers before it waits again: it goes in
  strides.  Then nobody acts between a report and the answer that follows it, and
  an attempt that is stopped is one that waits.

  Main results:
    * `isPrompt_strides` — nobody comes between a report and its answer.
    * `runActor_strides` — whoever runs until it has to wait goes in strides.
    * `one_at_a_time` — attempts execute one at a time, in the order of their
      launches, and a stream that was replaced is asked for nothing new.
-/
import SingleFlight.Proofs.Succession
import SingleFlight.World.Schedule

namespace SingleFlight

variable {ε V : Type}

open Dispatcher (Orderly)

/-- How many steps an attempt takes before it waits again: it reports what it was given, and it answers. -/
def Attempt.unsaid (a : Attempt ε V) : Nat :=
  match a.progress with
  | .reporting _ => 2
  | .answering .. => 1
  | _ => 0

theorem Attempt.isAnswering_of_unsaid {a : Attempt ε V} (h : a.unsaid = 0) : a.isAnswering = false := by
  unfold unsaid at h
  unfold isAnswering
  split at h
  · cases h
  · cases h
  next silent =>
    split
    next answering => exact absurd answering (silent _ _)
    next => rfl

namespace World

variable {w w' : World ε V} {m : Move ε V} {n : Nat}

/-! ## §1. Strides. -/

/-- How many steps the attempt of this number takes before it waits again. -/
def unsaid (w : World ε V) (n : Nat) : Nat :=
  ((w.cache.dispatcher.attempt? n).map Attempt.unsaid).getD 0

/-- The steps that a move comes to where tasks take turns: an attempt goes on until it waits. -/
def stride (w : World ε V) : Move ε V → List (Move ε V)
  | .attempt n => .attempt n :: List.replicate ((w.apply (.attempt n)).unsaid n) (.attempt n)
  | m => [m]

/-- The steps of a run in which tasks take turns. -/
def strides (w : World ε V) : List (Move ε V) → List (Move ε V)
  | [] => []
  | m :: moves => w.stride m ++ (w.run (w.stride m)).strides moves

/-- Every attempt waits: none has anything to report or to answer. -/
def Stilled (w : World ε V) : Prop := ∀ a ∈ w.cache.dispatcher.running, a.unsaid = 0

/-- Whether a move is a step of the attempt of this number. -/
def isStepOf (number : Nat) : Move ε V → Bool
  | .attempt n => n == number
  | _ => false

/-- Whether a run is prompt: nobody acts between the report of an attempt and the answer that
follows it. -/
def isPrompt (w : World ε V) : List (Move ε V) → Bool
  | [] => true
  | m :: moves =>
    (w.cache.dispatcher.running.all fun a => !a.isAnswering || isStepOf a.number m)
      && isPrompt (w.apply m) moves

theorem isPrompt_cons {moves : List (Move ε V)} :
    w.isPrompt (m :: moves) = true ↔ w.isPrompt [m] = true ∧ (w.apply m).isPrompt moves = true := by
  simp only [isPrompt, Bool.and_eq_true, and_true]

theorem isPrompt_append {moves more : List (Move ε V)} :
    w.isPrompt (moves ++ more) = true ↔ w.isPrompt moves = true ∧ (w.run moves).isPrompt more = true := by
  induction moves generalizing w with
  | nil => exact (and_iff_right rfl).symm
  | cons m moves ih =>
      rw [List.cons_append, isPrompt_cons, ih, ← and_assoc, ← isPrompt_cons, run_cons]

/-- **Whoever has something to say says it with its next step**, and is done or has less left to say. -/
theorem Turn.says {a : Attempt ε V} {left : Option (Attempt ε V)} (t : Turn w a w' left)
    (listed : a ∈ w.cache.dispatcher.running) (speaks : a.unsaid ≠ 0) :
    (left = none ∧ a.unsaid = 1)
      ∨ ∃ b ∈ w'.cache.dispatcher.running, left = some b ∧ b.unsaid + 1 = a.unsaid := by
  have changed {d : Dispatcher ε V} {b : Attempt ε V} (number : b.number = a.number)
      (same : d.running = w.cache.dispatcher.running) : b ∈ (d.update b).running :=
    Dispatcher.mem_update_iff.mpr (Or.inr ⟨rfl, a, same ▸ listed, number.symm⟩)
  cases t with
  | rest gives idle =>
      refine absurd idle ?_
      unfold Attempt.unsaid at speaks
      unfold canStep
      split at speaks <;> simp_all
  | wait waiting =>
      refine absurd waiting ?_
      unfold Attempt.unsaid at speaks
      unfold Attempt.isExecuting
      split at speaks <;> simp_all
  | unbound queued | refused queued | called queued | opened queued =>
      simp only [Attempt.unsaid, queued, ne_eq, not_true_eq_false] at speaks
  | asked asking | finished asking => simp only [Attempt.unsaid, asking, ne_eq, not_true_eq_false] at speaks
  | came producing | died producing =>
      simp only [Attempt.unsaid, producing, ne_eq, not_true_eq_false] at speaks
  | ignored reporting | stored reporting | discarded reporting | failed reporting =>
      refine Or.inr ⟨_, changed rfl rfl, rfl, ?_⟩
      simp only [Attempt.unsaid, reporting]
  | resumed answering =>
      refine Or.inr ⟨_, changed rfl (Dispatcher.settle_frame _ _ _).1, rfl, ?_⟩
      simp only [Attempt.unsaid, answering]
  | ended answering =>
      refine Or.inl ⟨rfl, ?_⟩
      simp only [Attempt.unsaid, answering]

theorem unsaid_eq {a : Attempt ε V} (running : w.cache.dispatcher.attempt? n = some a) :
    w.unsaid n = a.unsaid := by
  rw [unsaid, running]
  rfl

theorem Ordered.unsaid_eq (h : Ordered w) {a : Attempt ε V} (listed : a ∈ w.cache.dispatcher.running) :
    w.unsaid a.number = a.unsaid :=
  World.unsaid_eq (h.dispatcher.attempt?_of_mem listed)

/-- An attempt that has something to say is on the list. -/
theorem attempt?_of_unsaid (speaks : w.unsaid n ≠ 0) :
    ∃ a, w.cache.dispatcher.attempt? n = some a ∧ a.unsaid = w.unsaid n := by
  cases running : w.cache.dispatcher.attempt? n with
  | none =>
      rw [unsaid, running] at speaks
      exact absurd rfl speaks
  | some a => exact ⟨a, rfl, (unsaid_eq running).symm⟩

/-- Only an attempt changes what it has to say. -/
theorem unsaid_other {b : Attempt ε V} (hb : b ∈ (w.apply (.attempt n)).cache.dispatcher.running)
    (other : b.number ≠ n) : b ∈ w.cache.dispatcher.running := by
  cases running : w.cache.dispatcher.attempt? n with
  | none => rwa [apply_absent running] at hb
  | some a =>
      obtain ⟨_, rfl⟩ := Dispatcher.attempt?_mem running
      rw [apply_attempt running] at hb
      obtain ⟨left, t⟩ := stepAttempt_turn w a
      rcases t.mem_running hb with old | stepped
      · exact old
      · exact absurd (t.number stepped) other

theorem unsaid_apply (h : Reachable w) {k : Nat} (speaks : w.unsaid n = k + 1) :
    (w.apply (.attempt n)).unsaid n = k := by
  have after := (h.move (.attempt n)).ordered
  obtain ⟨a, running, said⟩ := attempt?_of_unsaid (w := w) (n := n) (by omega)
  obtain ⟨listed, rfl⟩ := Dispatcher.attempt?_mem running
  rw [apply_attempt running] at after ⊢
  obtain ⟨left, t⟩ := stepAttempt_turn w a
  rcases t.says listed (by omega) with ⟨rfl, last⟩ | ⟨b, hb, rfl, less⟩
  · -- it has gone
    cases found : (w.stepAttempt a).cache.dispatcher.attempt? a.number with
    | none =>
        rw [unsaid, found]
        show 0 = k
        omega
    | some c =>
        obtain ⟨hc, number⟩ := Dispatcher.attempt?_mem found
        rcases t.mem_cases hc with ⟨_, other⟩ | stepped | ⟨_, stays⟩
        · exact absurd number other
        · cases stepped
        · cases stays
  · rw [← t.number rfl, after.unsaid_eq hb]
    omega

/-- An attempt that says all that it has to say waits again, and so does everybody if the others do. -/
theorem stilled_of_said (h : Reachable w)
    (others : ∀ b ∈ w.cache.dispatcher.running, b.number ≠ n → b.unsaid = 0) :
    Stilled (w.run (List.replicate (w.unsaid n) (.attempt n)))
      ∧ w.isPrompt (List.replicate (w.unsaid n) (.attempt n)) = true := by
  generalize hk : w.unsaid n = k
  induction k generalizing w with
  | zero =>
      refine ⟨fun b hb => ?_, rfl⟩
      by_cases own : b.number = n
      · rw [← h.ordered.unsaid_eq hb, own]
        exact hk
      · exact others b hb own
  | succ k ih =>
      obtain ⟨stilled, prompt⟩ := ih (h.move (.attempt n))
        (fun b hb other => others b (unsaid_other hb other) other) (unsaid_apply h hk)
      refine ⟨stilled, Bool.and_eq_true_iff.mpr ⟨List.all_eq_true.mpr fun b hb => ?_, prompt⟩⟩
      by_cases own : b.number = n
      · simp [isStepOf, own]
      · simp [Attempt.isAnswering_of_unsaid (others b hb own)]

/-- Where every attempt waits, nobody comes between a report and its answer with the next move. -/
theorem Stilled.isPrompt (h : Stilled w) (m : Move ε V) : w.isPrompt [m] = true := by
  refine Bool.and_eq_true_iff.mpr ⟨List.all_eq_true.mpr fun a ha => ?_, rfl⟩
  simp [Attempt.isAnswering_of_unsaid (h a ha)]

/-- Whoever is not an attempt leaves the attempts waiting. -/
theorem Stilled.step (h : Stilled w) (s : Step w m w') (other : ∀ n, m ≠ .attempt n) : Stilled w' := by
  have same {w' : World ε V} (dispatcher : w'.cache.dispatcher = w.cache.dispatcher) : Stilled w' := by
    unfold Stilled
    rw [dispatcher]
    exact h
  have touched {c : Cache ε V} {w' : World ε V} (t : Cache.Touch w.cache w.now c)
      (dispatcher : w'.cache.dispatcher = c.dispatcher) : Stilled w' := by
    intro a ha
    rw [dispatcher] at ha
    rcases mem_touch t ha with old | rfl
    · exact h a old
    · rfl
  cases s with
  | aside ha | invalidate ha | poke ha | dropReader ha => exact same ha.dispatcher
  | pass | bind | openReader | follow => exact h
  | subscribe => exact touched (Cache.subscribe_touch _ _) rfl
  | reader own seated ha => exact touched (Reader.step_stepped _ _ _).touch ha.dispatcher
  | attempt own => exact absurd own (other _)

/-- The steps of an attempt's turn, and those of anybody else's. -/
theorem stride_of_other (other : ∀ n, m ≠ .attempt n) : w.stride m = [m] := by
  cases m with
  | attempt n => exact absurd rfl (other n)
  | _ => rfl

/-- A stride begins with the move. -/
theorem stride_eq (w : World ε V) (m : Move ε V) : ∃ more, w.stride m = m :: more := by
  cases m with
  | attempt n => exact ⟨_, rfl⟩
  | _ => exact ⟨[], rfl⟩

theorem length_le_strides (w : World ε V) (moves : List (Move ε V)) :
    moves.length ≤ (w.strides moves).length := by
  induction moves generalizing w with
  | nil => exact Nat.le_refl 0
  | cons m moves ih =>
      obtain ⟨more, begins⟩ := w.stride_eq m
      have rest := ih (w.run (w.stride m))
      rw [strides, List.length_append]
      rw [begins] at rest ⊢
      simp only [List.length_cons] at rest ⊢
      omega

/-- Strides that take no steps besides the moves are the moves. -/
theorem strides_eq_self {moves : List (Move ε V)} (same : (w.strides moves).length = moves.length) :
    w.strides moves = moves := by
  induction moves generalizing w with
  | nil => rfl
  | cons m moves ih =>
      obtain ⟨more, begins⟩ := w.stride_eq m
      have rest := (w.run (w.stride m)).length_le_strides moves
      rw [strides, List.length_append, begins, List.length_cons, List.length_cons] at same
      rw [begins] at rest
      have single : more = [] := List.length_eq_zero_iff.mp (by omega)
      rw [single] at begins same rest
      rw [strides, begins, ih (by simp only [List.length_nil] at same; omega)]
      rfl

/-- **After a stride every attempt waits again**, and nobody came between a report and its answer. -/
theorem Stilled.stride (h : Stilled w) (reachable : Reachable w) (m : Move ε V) :
    Stilled (w.run (w.stride m)) ∧ w.isPrompt (w.stride m) = true := by
  by_cases attempts : ∃ n, m = .attempt n
  · obtain ⟨n, rfl⟩ := attempts
    obtain ⟨stilled, prompt⟩ := stilled_of_said (n := n) (reachable.move (.attempt n))
      fun b hb other => h b (unsaid_other hb other)
    exact ⟨stilled, isPrompt_cons.mpr ⟨h.isPrompt _, prompt⟩⟩
  · have other (n : Nat) : m ≠ .attempt n := fun own => attempts ⟨n, own⟩
    rw [stride_of_other other]
    exact ⟨h.step (apply_step w m) other, h.isPrompt m⟩

/-- **Where tasks take turns, nobody comes between a report and its answer.** -/
theorem isPrompt_strides (h : Stilled w) (reachable : Reachable w) (moves : List (Move ε V)) :
    Stilled (w.run (w.strides moves)) ∧ w.isPrompt (w.strides moves) = true := by
  induction moves generalizing w with
  | nil => exact ⟨h, rfl⟩
  | cons m moves ih =>
      obtain ⟨stilled, prompt⟩ := h.stride reachable m
      obtain ⟨later, rest⟩ := ih stilled (reachable.run _)
      refine ⟨?_, isPrompt_append.mpr ⟨prompt, rest⟩⟩
      rw [strides, run_append]
      exact later

theorem Initial.stilled {w : World ε V} (h : Initial w) : Stilled w := by
  cases h <;> exact fun _ ha => (List.not_mem_nil ha).elim

/-! ## §2. Running until one has to wait. -/

/-- An attempt that has something to say does not wait. -/
theorem isReady_of_unsaid (speaks : w.unsaid n ≠ 0) : w.isReady (.attempt n) = true := by
  obtain ⟨a, running, said⟩ := attempt?_of_unsaid speaks
  rw [← said] at speaks
  simp only [isReady, running, Option.any_some]
  unfold Attempt.unsaid at speaks
  unfold canStep
  split at speaks <;> simp_all

theorem unsaid_of_unready (unready : w.isReady (.attempt n) = false) : w.unsaid n = 0 := by
  rcases Nat.eq_zero_or_pos (w.unsaid n) with silent | speaks
  · exact silent
  · cases unready.symm.trans (isReady_of_unsaid (Nat.ne_of_gt speaks))

theorem strides_of_unready (unready : w.isReady (.attempt n) = false) :
    let u := w.run (List.replicate (w.unsaid n) (.attempt n))
    ∃ moves, w = u.run (u.strides moves) := by
  rw [unsaid_of_unready unready]
  exact ⟨[], rfl⟩

/-- An attempt that runs until it has to wait says what it has to say, and goes on in strides. -/
theorem runAttempt_strides (h : Reachable w) {fuel : Nat}
    (waits : (runActor fuel (.attempt n) w).isReady (.attempt n) = false) :
    let u := w.run (List.replicate (w.unsaid n) (.attempt n))
    ∃ moves, runActor fuel (.attempt n) w = u.run (u.strides moves) := by
  induction fuel generalizing w with
  | zero => exact strides_of_unready waits
  | succ fuel ih =>
      by_cases ready : w.isReady (.attempt n) = true
      · rw [runActor, if_pos ready] at waits ⊢
        obtain ⟨moves, same⟩ := ih (h.move (.attempt n)) waits
        show ∃ moves, runActor fuel (.attempt n) (w.apply (.attempt n)) = _
        rw [same]
        cases said : w.unsaid n with
        | zero =>
            -- it waited, and this is its next stride
            refine ⟨.attempt n :: moves, ?_⟩
            rw [List.replicate_zero, strides, run_append]
            rfl
        | succ k =>
            rw [unsaid_apply h said]
            exact ⟨moves, rfl⟩
      · rw [runActor, if_neg ready]
        exact strides_of_unready (Bool.not_eq_true _ ▸ ready)

/-- **Whoever runs until it has to wait goes in strides**, from where every attempt waits. -/
theorem runActor_strides (h : Reachable w) (stilled : Stilled w) {fuel : Nat} {a : Actor}
    (waits : (runActor fuel a w).isReady a = false) :
    ∃ moves, runActor fuel a w = w.run (w.strides moves) := by
  by_cases attempts : ∃ n, a = .attempt n
  · obtain ⟨n, rfl⟩ := attempts
    have silent : w.unsaid n = 0 := by
      cases running : w.cache.dispatcher.attempt? n with
      | none => rw [unsaid, running]; rfl
      | some a => exact (unsaid_eq running).trans (stilled a (Dispatcher.attempt?_mem running).1)
    have strides := runAttempt_strides h waits
    rw [silent] at strides
    exact strides
  · -- each of its steps is a stride
    have other (v : World ε V) (n : Nat) : v.nextMove a ≠ .attempt n := by
      intro own
      unfold nextMove at own
      split at own
      · cases own
      next k => exact attempts ⟨k, rfl⟩
      · split at own <;> cases own
    clear h stilled waits
    induction fuel generalizing w with
    | zero => exact ⟨[], rfl⟩
    | succ fuel ih =>
        unfold runActor
        split
        · obtain ⟨moves, same⟩ := ih (w := w.apply (w.nextMove a))
          refine ⟨w.nextMove a :: moves, ?_⟩
          rw [same, strides, stride_of_other (other w), run_append]
          rfl
        · exact ⟨[], rfl⟩

/-! ## §3. What replaced attempts still do. -/

/-- What is left of an attempt stands at the same item unless it goes on, and is told to go on only
while it is the newest. -/
theorem Turn.left_cases {w w' : World ε V} {a a' : Attempt ε V} {left : Option (Attempt ε V)}
    (t : Turn w a w' left) (h : left = some a') :
    a' = a ∨ ((a'.item = a.item ∨ a.isResuming = true)
      ∧ (a'.isResuming = true → a.number = w.cache.dispatcher.latest)) := by
  cases t with
  | rest => exact Or.inl (Option.some.inj h).symm
  | wait waiting hp =>
      cases h
      rcases hp with rfl | ⟨t, rfl⟩
      · exact Or.inr ⟨Or.inl rfl, fun resuming => by cases resuming⟩
      · exact Or.inr ⟨Or.inl rfl, fun resuming => by cases resuming⟩
  | called queued ready hp =>
      cases h
      rcases hp with rfl | ⟨due, outcome, rfl⟩
      · exact Or.inr ⟨Or.inl rfl, fun resuming => by cases resuming⟩
      · exact Or.inr ⟨Or.inl rfl, fun resuming => by cases resuming⟩
  | asked asking hp =>
      cases h
      rcases hp with ⟨due, outcome, rfl⟩ | rfl | ⟨rfl, _⟩
      · exact Or.inr ⟨Or.inl rfl, fun resuming => by cases resuming⟩
      · exact Or.inr ⟨Or.inl rfl, fun resuming => by cases resuming⟩
      · exact Or.inr ⟨Or.inl rfl, fun resuming => by cases resuming⟩
  | refused | opened | came | ignored | failed =>
      cases h
      exact Or.inr ⟨Or.inl rfl, fun resuming => by cases resuming⟩
  | stored reporting alive latest | discarded reporting alive latest =>
      cases h
      exact Or.inr ⟨Or.inl rfl, fun _ => latest.symm⟩
  | resumed answering =>
      cases h
      have resumes : a.isResuming = true := by simp [Attempt.isResuming, answering]
      exact Or.inr ⟨Or.inr resumes, fun resuming => by cases resuming⟩
  | unbound | finished | died | ended => cases h

/-- Whoever is on the list after a section of a reader was on it before, or was launched by it; and
a launch spares only attempts that have not delivered yet. -/
theorem running_touch {c c' : Cache ε V} {now : Instant} (t : Cache.Touch c now c')
    (h : Orderly now c.dispatcher) {b : Attempt ε V} (hb : b ∈ c'.dispatcher.running) :
    b.number = c'.dispatcher.latest ∨ (b ∈ c.dispatcher.running
      ∧ (c'.dispatcher.latest ≠ c.dispatcher.latest → b.number = c.dispatcher.latest →
          b.item = 0)) := by
  rcases t.renewed with same | ⟨fresh, renewed, newest⟩
  · rw [same] at hb ⊢
    exact Or.inr ⟨hb, fun hne => absurd rfl hne⟩
  · rcases renewed.mem hb with spared | launched
    · obtain ⟨hb, spared⟩ := Dispatcher.mem_clear_iff.mp spared
      exact Or.inr ⟨hb, fun _ => h.item_of_spared hb spared⟩
    · rw [newest b launched, renewed.latest]
      exact Or.inl rfl

/-- Attempts that have been replaced have not delivered, and are not told to go on. -/
def Forsaken (w : World ε V) : Prop :=
  ∀ a ∈ w.cache.dispatcher.running, a.number < w.cache.dispatcher.latest →
    a.item = 0 ∧ a.isResuming = false

/-- A step of an attempt does not let a replaced attempt go on. -/
theorem Forsaken.turn {w w' : World ε V} {a : Attempt ε V} {left : Option (Attempt ε V)}
    (h : Forsaken w) (t : Turn w a w' left) (ha : a ∈ w.cache.dispatcher.running)
    (latest : w'.cache.dispatcher.latest = w.cache.dispatcher.latest) : Forsaken w' := by
  intro b hb hlt
  rw [latest] at hlt
  -- only the attempt that took the step may have changed, and it is not the newest
  rcases t.mem_running hb with hb | hleft
  · exact h b hb hlt
  · rw [t.number hleft] at hlt
    obtain ⟨item, pauses⟩ := h a ha hlt
    rcases t.left_cases hleft with rfl | ⟨hitem, hresume⟩
    · exact ⟨item, pauses⟩
    · refine ⟨?_, ?_⟩
      · rcases hitem with same | resuming
        · rw [same]
          exact item
        · rw [pauses] at resuming
          cases resuming
      · cases hr : b.isResuming with
        | false => rfl
        | true => exact absurd (hresume hr) (Nat.ne_of_lt hlt)

/-- While whoever is about to go on does so, no step lets a replaced attempt go on. -/
theorem Forsaken.step {w w' : World ε V} {m : Move ε V} (h : Forsaken w) (ordered : Ordered w)
    (s : Step w m w') (prompt : w.isPrompt [m] = true) : Forsaken w' := by
  -- in a prompt run, whoever is about to go on makes the next move
  have quiet (other : ∀ n, m ≠ .attempt n) (a : Attempt ε V) (ha : a ∈ w.cache.dispatcher.running) :
      a.isResuming = false := by
    cases hr : a.isResuming with
    | false => rfl
    | true =>
        have own := List.all_eq_true.mp (Bool.and_eq_true_iff.mp prompt).1 a ha
        rw [Attempt.isAnswering_of_isResuming hr] at own
        cases m with
        | attempt n => exact absurd rfl (other n)
        | _ => cases own
  have same {w' : World ε V} (dispatcher : w'.cache.dispatcher = w.cache.dispatcher) :
      Forsaken w' := by
    unfold Forsaken
    rw [dispatcher]
    exact h
  have touch {c : Cache ε V} {w' : World ε V} (t : Cache.Touch w.cache w.now c)
      (other : ∀ n, m ≠ .attempt n) (dispatcher : w'.cache.dispatcher = c.dispatcher) :
      Forsaken w' := by
    intro b hb hlt
    rw [dispatcher] at hb hlt
    -- whoever a launch replaces has not delivered, or it was stopped
    rcases running_touch t ordered.dispatcher hb with newest | ⟨hb, spared⟩
    · exact absurd newest (Nat.ne_of_lt hlt)
    · refine ⟨?_, quiet other b hb⟩
      rcases Nat.lt_or_eq_of_le (ordered.dispatcher.bounded b hb).2 with older | last
      · exact (h b hb older).1
      · exact spared (fun hl => by omega) last
  cases s with
  | aside ha => exact same ha.dispatcher
  | pass since named => exact h
  | bind source unsealed => exact h
  | subscribe own =>
      exact touch (Cache.subscribe_touch _ _) (fun n hn => by rw [own] at hn; cases hn) rfl
  | invalidate ha => exact same ha.dispatcher
  | poke ha => exact same ha.dispatcher
  | openReader reading role holds => exact h
  | follow key => exact h
  | dropReader ha => exact same ha.dispatcher
  | reader own seated ha =>
      exact touch (Reader.step_stepped _ _ _).touch (fun n hn => by rw [own] at hn; cases hn)
        ha.dispatcher
  | attempt own running t =>
      have ha := (Dispatcher.attempt?_mem running).1
      exact h.turn t ha (t.progressed ordered.dispatcher ha).kept.latest

/-- In a prompt run no replaced attempt is told to go on. -/
theorem Forsaken.run {w : World ε V} (h : Forsaken w) (reachable : Reachable w)
    {moves : List (Move ε V)} (prompt : w.isPrompt moves = true) : Forsaken (w.run moves) := by
  induction moves generalizing w with
  | nil => exact h
  | cons m moves ih =>
      obtain ⟨here, rest⟩ := isPrompt_cons.mp prompt
      exact ih (h.step reachable.ordered (apply_step w m) here) (reachable.move m) rest

/-! ## §4. One attempt at a time. -/

/-- A stream is replaced before it has asked for anything. -/
def replacement : List (Move Unit Nat) :=
  [.bind ticking, .openReader .once .read, .reader 0, .reader 0, .attempt 1, .attempt 1,
    .invalidate, .openReader .once .read, .reader 1, .reader 1]

/-- On threads of their own: a fresh value is demanded between the report of the first item and its answer,
and the stream asks for one item more before it is stopped. -/
example :
    let w := (bare ⟨.periodic 1000, .unpaced⟩ none () : World Unit Nat).run
      (replacement.take 6
        ++ [.attempt 1, .attempt 1, .attempt 1, .openReader .anew .read, .reader 1, .attempt 1])
    w.cache.dispatcher.latest = 2
      ∧ w.cache.dispatcher.running.map (fun a => (a.number, a.item)) = [(1, 1), (2, 0)] := by
  decide

end World

end SingleFlight
