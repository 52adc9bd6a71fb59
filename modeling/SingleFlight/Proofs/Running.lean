/-
  SingleFlight.Proofs.Running — the list of running attempts and the answers, change by change.

  Every single change of the dispatcher touches the running attempts, the
  answers or one of the places, and leaves all else alone.  This file says for
  each change which attempts run after it and which attempts have answered
  after it, and turns a launch around: from its outcome to what it did.  No
  later proof opens a change of the dispatcher again.

  Main results:
    * `mem_update_iff`, `mem_retire_iff`, `mem_lose_iff` — who runs afterwards.
    * `answer?_noteAnswer` — an answer, once noted, is never replaced.
    * `dismiss_of_answered` — stopping an attempt that has answered only takes
      it off the list.
    * `launch_started`, `launch_overflowed` — what a launch did.
-/
import SingleFlight.Dispatcher

namespace SingleFlight

variable {ε V : Type}

/-! ## §1. How far an attempt has come. -/

namespace Attempt

/-- Whether the attempt has turned to the source: from then on it executes until it is off the
list. -/
def isExecuting (a : Attempt ε V) : Bool :=
  match a.progress with
  | .launched | .heldBack _ | .queued => false
  | _ => true

/-- Whether the attempt, once it has answered, goes on to another item. -/
def isResuming (a : Attempt ε V) : Bool :=
  match a.progress with
  | .answering _ true => true
  | _ => false

/-- Whether the attempt has reported, and is about to answer. -/
def isAnswering (a : Attempt ε V) : Bool :=
  match a.progress with
  | .answering _ _ => true
  | _ => false

theorem isAnswering_of_isResuming {a : Attempt ε V} (h : a.isResuming = true) :
    a.isAnswering = true := by
  unfold isResuming at h
  unfold isAnswering
  split at h
  next hp => rw [hp]
  next => cases h

end Attempt

/-- Numbers that increase along a list tell its members apart. -/
theorem eq_of_increasing {α : Type} {l : List α} {f : α → Nat} (sorted : l.Pairwise (f · < f ·))
    {a b : α} (ha : a ∈ l) (hb : b ∈ l) (h : f a = f b) : a = b := by
  have sorted := List.pairwise_iff_getElem.mp sorted
  obtain ⟨i, hi, rfl⟩ := List.getElem_of_mem ha
  obtain ⟨j, hj, rfl⟩ := List.getElem_of_mem hb
  rcases Nat.lt_trichotomy i j with hlt | rfl | hlt
  · exact absurd h (Nat.ne_of_lt (sorted i j hi hj hlt))
  · rfl
  · exact absurd h.symm (Nat.ne_of_lt (sorted j i hj hi hlt))

namespace Dispatcher

/-! ## §2. Who is on the list. -/

theorem attempt?_mem {d : Dispatcher ε V} {n : Nat} {a : Attempt ε V}
    (h : d.attempt? n = some a) : a ∈ d.running ∧ a.number = n := by
  unfold attempt? at h
  exact ⟨List.mem_of_find?_eq_some h, by simpa using List.find?_some h⟩

theorem attempt?_isSome_iff {d : Dispatcher ε V} {n : Nat} :
    (d.attempt? n).isSome ↔ ∃ a ∈ d.running, a.number = n := by
  simp [attempt?, List.find?_isSome]

/-- A changed attempt stands in for all that bore its number. -/
theorem mem_update_iff {d : Dispatcher ε V} {a b : Attempt ε V} :
    b ∈ (d.update a).running ↔
      (b ∈ d.running ∧ b.number ≠ a.number) ∨ (b = a ∧ ∃ c ∈ d.running, c.number = a.number) := by
  simp only [update, List.mem_map]
  constructor
  · rintro ⟨c, hc, rfl⟩
    by_cases h : c.number = a.number
    · exact Or.inr ⟨by rw [if_pos h], c, hc, h⟩
    · rw [if_neg h]
      exact Or.inl ⟨hc, h⟩
  · rintro (⟨hb, h⟩ | ⟨rfl, c, hc, h⟩)
    · exact ⟨b, hb, by rw [if_neg h]⟩
    · exact ⟨c, hc, by rw [if_pos h]⟩

theorem mem_retire_iff {d : Dispatcher ε V} {n : Nat} {b : Attempt ε V} :
    b ∈ (d.retire n).running ↔ b ∈ d.running ∧ b.number ≠ n := by
  simp [retire]

/-- The numbers on the list stay as they are when an attempt changes. -/
theorem update_numbers (d : Dispatcher ε V) (a : Attempt ε V) :
    (d.update a).running.map (·.number) = d.running.map (·.number) := by
  simp only [update, List.map_map]
  apply List.map_congr_left
  intro b _
  by_cases h : b.number = a.number <;> simp [h]

/-! ## §3. Answers. -/

theorem hasAnswered_iff {d : Dispatcher ε V} {n : Nat} :
    d.hasAnswered n = true ↔ ∃ answer, d.answer? n = some answer := by
  simp [hasAnswered, Option.isSome_iff_exists]

/-- **An answer, once noted, is never replaced**: a note counts only for an attempt without one. -/
theorem answer?_noteAnswer (d : Dispatcher ε V) (n m : Nat) (answer : Answer V) :
    (d.noteAnswer n answer).answer? m
      = (d.answer? m).or (if m = n then some answer else none) := by
  unfold noteAnswer
  by_cases hn : d.hasAnswered n = true
  · rw [if_pos hn]
    -- the old answer stays, and hides the new one
    obtain ⟨old, hold⟩ := hasAnswered_iff.mp hn
    by_cases hm : m = n
    · rw [hm, hold]
      rfl
    · rw [if_neg hm, Option.or_none]
  · rw [if_neg hn]
    have hnone : d.answer? n = none := by simpa [hasAnswered] using hn
    by_cases hm : m = n
    · rw [hm, hnone]
      simp [answer?]
    · have hbeq : (m == n) = false := by simpa using hm
      rw [if_neg hm, Option.or_none]
      simp [answer?, List.lookup_cons, hbeq]

theorem hasAnswered_noteAnswer {d : Dispatcher ε V} {n m : Nat} {answer : Answer V} :
    (d.noteAnswer n answer).hasAnswered m = true ↔ d.hasAnswered m = true ∨ m = n := by
  simp only [hasAnswered, answer?_noteAnswer]
  by_cases hm : m = n <;> simp [hm]

@[simp] theorem noteAnswer_frame (d : Dispatcher ε V) (n : Nat) (answer : Answer V) :
    (d.noteAnswer n answer).running = d.running ∧ (d.noteAnswer n answer).latest = d.latest
      ∧ (d.noteAnswer n answer).pending = d.pending ∧ (d.noteAnswer n answer).stream = d.stream
      ∧ (d.noteAnswer n answer).binding = d.binding ∧ (d.noteAnswer n answer).sealed = d.sealed
      ∧ (d.noteAnswer n answer).pacing = d.pacing
      ∧ (d.noteAnswer n answer).lastStart = d.lastStart := by
  unfold noteAnswer
  split <;> simp

/-! ## §4. Settling, losing and stopping. -/

theorem answer?_settle (d : Dispatcher ε V) (n m : Nat) (answer : Answer V) :
    (d.settle n answer).answer? m = (d.noteAnswer n answer).answer? m := by
  unfold settle
  by_cases h : d.hasAnswered n = true
  · rw [if_pos h, noteAnswer, if_pos h]
  · rw [if_neg h]
    rfl

theorem hasAnswered_settle {d : Dispatcher ε V} {n m : Nat} {answer : Answer V} :
    (d.settle n answer).hasAnswered m = true ↔ d.hasAnswered m = true ∨ m = n := by
  rw [hasAnswered, answer?_settle]
  exact hasAnswered_noteAnswer

/-- Settling frees the pending place only from an attempt that has not answered before. -/
theorem settle_pending (d : Dispatcher ε V) (n : Nat) (answer : Answer V) :
    (d.settle n answer).pending
      = if d.pending = some n ∧ d.hasAnswered n = false then none else d.pending := by
  unfold settle
  cases h : d.hasAnswered n <;> simp

@[simp] theorem settle_frame (d : Dispatcher ε V) (n : Nat) (answer : Answer V) :
    (d.settle n answer).running = d.running ∧ (d.settle n answer).latest = d.latest
      ∧ (d.settle n answer).stream = d.stream ∧ (d.settle n answer).binding = d.binding
      ∧ (d.settle n answer).sealed = d.sealed ∧ (d.settle n answer).pacing = d.pacing
      ∧ (d.settle n answer).lastStart = d.lastStart := by
  unfold settle
  split <;> simp

theorem mem_lose_iff {d : Dispatcher ε V} {n : Nat} {b : Attempt ε V} :
    b ∈ (d.lose n).running ↔ b ∈ d.running ∧ b.number ≠ n := by
  simp only [lose, noteAnswer_frame, mem_retire_iff]

theorem answer?_lose (d : Dispatcher ε V) (n m : Nat) :
    (d.lose n).answer? m
      = (d.answer? m).or
          (if m = n then some (.error (.fetchFailed n Failure.lostReason)) else none) := by
  rw [lose, answer?_noteAnswer]
  rfl

theorem hasAnswered_lose {d : Dispatcher ε V} {n m : Nat} :
    (d.lose n).hasAnswered m = true ↔ d.hasAnswered m = true ∨ m = n := by
  rw [lose, hasAnswered_noteAnswer]
  rfl

@[simp] theorem lose_frame (d : Dispatcher ε V) (n : Nat) :
    (d.lose n).latest = d.latest ∧ (d.lose n).pending = d.pending
      ∧ (d.lose n).stream = d.stream ∧ (d.lose n).binding = d.binding
      ∧ (d.lose n).sealed = d.sealed ∧ (d.lose n).pacing = d.pacing
      ∧ (d.lose n).lastStart = d.lastStart := by
  simp [lose, retire]

@[simp] theorem dismiss_frame (d : Dispatcher ε V) (o : Option Nat) :
    (d.dismiss o).latest = d.latest ∧ (d.dismiss o).pending = d.pending
      ∧ (d.dismiss o).stream = d.stream ∧ (d.dismiss o).binding = d.binding
      ∧ (d.dismiss o).sealed = d.sealed ∧ (d.dismiss o).pacing = d.pacing
      ∧ (d.dismiss o).lastStart = d.lastStart := by
  cases o with
  | none => simp [dismiss]
  | some n =>
      simp only [dismiss, abort]
      split <;> simp

theorem mem_dismiss_iff {d : Dispatcher ε V} {o : Option Nat} {b : Attempt ε V} :
    b ∈ (d.dismiss o).running ↔ b ∈ d.running ∧ o ≠ some b.number := by
  cases o with
  | none => simp [dismiss]
  | some n =>
      show b ∈ (d.abort n).running ↔ _
      unfold abort
      by_cases h : (d.attempt? n).isSome = true
      · rw [if_pos h, mem_lose_iff]
        simp [eq_comm]
      · rw [if_neg h]
        constructor
        · intro hb
          refine ⟨hb, fun hn => h (attempt?_isSome_iff.mpr ⟨b, hb, ?_⟩)⟩
          simpa [eq_comm] using hn
        · exact fun hb => hb.1

/-- Stopping an attempt replaces no answer. -/
theorem answer?_dismiss {d : Dispatcher ε V} {o : Option Nat} {m : Nat} {answer : Answer V}
    (h : d.answer? m = some answer) : (d.dismiss o).answer? m = some answer := by
  cases o with
  | none => exact h
  | some n =>
      show (d.abort n).answer? m = some answer
      unfold abort
      split
      · rw [answer?_lose, h]
        rfl
      · exact h

/-- **Stopping an attempt that has answered only takes it off the list.** -/
theorem dismiss_of_answered {d : Dispatcher ε V} {o : Option Nat}
    (h : ∀ b ∈ d.running, o = some b.number → d.hasAnswered b.number = true) :
    (d.dismiss o).answers = d.answers := by
  cases o with
  | none => rfl
  | some n =>
      show (d.abort n).answers = d.answers
      unfold abort
      split
      next hn =>
        obtain ⟨b, hb, rfl⟩ := attempt?_isSome_iff.mp hn
        -- it has answered, so the note that it was lost is dropped
        have hans : (d.retire b.number).hasAnswered b.number = true := h b hb rfl
        rw [lose, noteAnswer, if_pos hans]
        rfl
      next => rfl

/-! ## §5. Launching. -/

/-- The attempt that a launch at `now` puts on the list. -/
def newest (d : Dispatcher ε V) (now : Instant) : Attempt ε V where
  number := d.latest + 1
  delay := d.holdBack now
  predecessor := d.pending
  supersedes := d.unansweredStream

/-- What every launch does: it frees the places of the previous attempt and settles on the source.
`fresh` is the attempt that it puts on the list, if any. -/
structure Renewed (d next : Dispatcher ε V) (fresh : Option (Attempt ε V)) : Prop where
  latest : next.latest = d.latest + 1
  running : next.running = d.clear.running ++ fresh.toList
  answers : next.answers = d.clear.answers
  binding : next.binding = d.binding
  bound : d.binding.isSome = true
  sealed : next.sealed = true
  pacing : next.pacing = d.pacing

/-- What a launch did that started an attempt. -/
structure Started (d next : Dispatcher ε V) (now : Instant) (n : Nat) : Prop
    extends Renewed d next (some (d.newest now)) where
  number : n = d.latest + 1
  pending : next.pending = some n
  stream : ∃ source, d.binding = some source
    ∧ next.stream = if source.isContinuous then some n else none
  named : ∃ start, now.later? (d.holdBack now) = some start

/-- What a launch did that ran beyond the clock. -/
structure Overflowed (d left : Dispatcher ε V) (now : Instant) : Prop
    extends Renewed d left none where
  pending : left.pending = none
  stream : left.stream = none
  lastStart : left.lastStart = d.lastStart
  late : now.later? (d.holdBack now) = none

theorem clear_frame (d : Dispatcher ε V) :
    d.clear.binding = d.binding ∧ d.clear.pacing = d.pacing ∧ d.clear.lastStart = d.lastStart := by
  obtain ⟨_, _, _, binding, _, pacing, lastStart⟩ := dismiss_frame d d.answeredStream
  exact ⟨binding, pacing, lastStart⟩

/-- Only without a source nothing is launched at all. -/
theorem launch_unbound_iff {d : Dispatcher ε V} {now : Instant} :
    d.launch now = .unbound ↔ d.binding = none := by
  unfold launch
  cases d.binding with
  | none => exact iff_of_true rfl rfl
  | some source =>
      dsimp only
      split <;> exact iff_of_false nofun nofun

theorem launch_started {d next : Dispatcher ε V} {now : Instant} {n : Nat}
    (h : d.launch now = .started next n) : Started d next now n := by
  obtain ⟨binding, pacing, _⟩ := clear_frame d
  unfold launch at h
  cases hb : d.binding with
  | none => simp [hb] at h
  | some source =>
      cases hl : now.later? (d.holdBack now) with
      | none => simp [hb, hl] at h
      | some start =>
          simp only [hb, hl, Launch.started.injEq] at h
          obtain ⟨rfl, rfl⟩ := h
          exact ⟨⟨rfl, rfl, rfl, binding, by rw [hb]; rfl, rfl, pacing⟩, rfl, rfl, ⟨source, hb, rfl⟩,
            start, hl⟩

theorem launch_overflowed {d left : Dispatcher ε V} {now : Instant}
    (h : d.launch now = .overflow left) : Overflowed d left now := by
  obtain ⟨binding, pacing, lastStart⟩ := clear_frame d
  unfold launch at h
  cases hb : d.binding with
  | none => simp [hb] at h
  | some source =>
      cases hl : now.later? (d.holdBack now) with
      | some start => simp [hb, hl] at h
      | none =>
          simp only [hb, hl, Launch.overflow.injEq] at h
          subst h
          exact ⟨⟨rfl, (List.append_nil _).symm, rfl, binding, by rw [hb]; rfl, rfl, pacing⟩, rfl, rfl,
            lastStart, hl⟩

/-- Whoever is on the list after a launch was spared by it, or was launched. -/
theorem Renewed.mem {d next : Dispatcher ε V} {fresh : Option (Attempt ε V)} (r : Renewed d next fresh)
    {b : Attempt ε V} (hb : b ∈ next.running) : b ∈ d.clear.running ∨ fresh = some b := by
  rw [r.running] at hb
  exact (List.mem_append.mp hb).imp_right Option.mem_toList.mp

end Dispatcher

end SingleFlight
