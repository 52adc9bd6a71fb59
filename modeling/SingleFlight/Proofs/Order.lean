/-
  SingleFlight.Proofs.Order — the chain of attempts.

  Attempts are numbered as they are launched, and each waits for the one
  before.  `Orderly` says what that makes of a dispatcher at every moment: who
  has answered, who may execute, who stands in which place.  It speaks of
  every running attempt by `Fits`, which distinguishes attempts that still
  wait (`Queues`) from those that have turned to the source (`Executes`).

  A launch may run beyond the clock and leave an attempt behind that nobody
  waits for.  `Jammed` says why that does no harm: the clock never comes to
  the instant at which another launch would succeed.

  Main results:
    * `Orderly.evolve` — a step of an attempt keeps the order.
    * `Orderly.renewed` — so does a launch.
-/
import SingleFlight.Proofs.Running

namespace SingleFlight

variable {ε V : Type}

namespace Dispatcher

/-! ## §1. The order. -/

/-- The bound source offers sequences of values. -/
def IsStreaming (d : Dispatcher ε V) : Prop :=
  ∃ source, d.binding = some source ∧ source.isContinuous = true

/-- What holds of an attempt that has not turned to the source yet. -/
structure Queues (d : Dispatcher ε V) (a : Attempt ε V) : Prop where
  fresh : a.item = 0 ∧ a.offers = none
  unanswered : d.hasAnswered a.number = false
  /-- It waits for the attempt before it, unless all before it have answered. -/
  behind : (∀ n, 0 < n → n < a.number → d.hasAnswered n = true)
    ∨ a.predecessor = some (a.number - 1)
  supersedes : ∀ n, a.supersedes = some n → n + 1 = a.number
  /-- A stream before it will be stopped. -/
  succeeds : d.IsStreaming → ∀ b ∈ d.running, b.number + 1 = a.number →
    a.supersedes = some b.number

/-- What holds of an attempt that has turned to the source. -/
structure Executes (d : Dispatcher ε V) (a : Attempt ε V) : Prop where
  earlier : ∀ n, 0 < n → n < a.number → d.hasAnswered n = true
  oldest : ∀ b ∈ d.running, a.number ≤ b.number
  streaming : a.offers.isSome = true → d.IsStreaming
  delivered : d.hasAnswered a.number = true ↔ a.item ≠ 0
  offers : a.item ≠ 0 ∨ a.isResuming = true → a.offers.isSome = true

/-- What holds of every attempt on its way. -/
structure Fits (d : Dispatcher ε V) (a : Attempt ε V) : Prop where
  queues : a.isExecuting = false → Queues d a
  executes : a.isExecuting = true → Executes d a
  /-- The pending place is left with the first answer. -/
  pending : d.pending = some a.number → d.hasAnswered a.number = false
  tracked : d.IsStreaming → a.number = d.latest → d.stream = some a.number
  /-- An attempt that does not count any more makes at most one item too many. -/
  older : a.number < d.latest → a.item ≤ 1 ∧ (a.isResuming = true → a.item = 0)

/-- A launch has run beyond the clock, and every other one will. -/
def Jammed (now : Instant) (d : Dispatcher ε V) : Prop :=
  d.pending = none ∧ d.stream = none ∧ ∃ window start, d.pacing = .spaced window
    ∧ d.lastStart = some start ∧ Instant.horizon ≤ now + window ∧ Instant.horizon ≤ start + window

/-- The order that the attempts of a dispatcher keep at every moment. -/
structure Orderly (now : Instant) (d : Dispatcher ε V) : Prop where
  /-- The oldest attempt comes first. -/
  sorted : d.running.Pairwise (·.number < ·.number)
  bounded : ∀ a ∈ d.running, 0 < a.number ∧ a.number ≤ d.latest
  fits : ∀ a ∈ d.running, Fits d a
  /-- Before the first launch nothing is numbered. -/
  unsealed : d.sealed = false → d.latest = 0
  bound : d.sealed = true → d.binding.isSome = true
  pending : ∀ n, d.pending = some n → 0 < n ∧ n = d.latest
  stream : ∀ n, d.stream = some n → 0 < n ∧ n = d.latest
  known : ∀ n, d.hasAnswered n = true → n ≤ d.latest
  /-- Answers come in the order of the launches. -/
  closed : ∀ n m, d.hasAnswered n = true → 0 < m → m < n → d.hasAnswered m = true
  /-- An attempt that has answered outlives no older one. -/
  passed : ∀ n, d.hasAnswered n = true → ∀ b ∈ d.running, n ≤ b.number
  /-- If nobody owes an answer, everybody has answered. -/
  idle : Jammed now d ∨ (d.pending = none → ∀ n, 0 < n → n ≤ d.latest → d.hasAnswered n = true)

/-! ## §2. Steps of attempts. -/

/-- The attempt of this number has turned to the source: it executes, or it has answered. -/
def Begun (d : Dispatcher ε V) (n : Nat) : Prop :=
  d.hasAnswered n = true ∨ ∃ a ∈ d.running, a.number = n ∧ a.isExecuting = true

/-- What the steps of the attempts never change, and what they never take back. -/
structure Kept (d d' : Dispatcher ε V) : Prop where
  latest : d'.latest = d.latest
  stream : d'.stream = d.stream
  binding : d'.binding = d.binding
  sealed : d'.sealed = d.sealed
  pacing : d'.pacing = d.pacing
  lastStart : d'.lastStart = d.lastStart
  numbers : (d'.running.map (·.number)).Sublist (d.running.map (·.number))
  answered : ∀ n, d.hasAnswered n = true → d'.hasAnswered n = true
  begun : ∀ n, d.Begun n → d'.Begun n
  pending : d'.pending = d.pending ∨ d'.pending = none

theorem Kept.refl (d : Dispatcher ε V) : Kept d d :=
  ⟨rfl, rfl, rfl, rfl, rfl, rfl, .refl _, fun _ => id, fun _ => id, Or.inl rfl⟩

theorem Kept.trans {d d' d'' : Dispatcher ε V} (k : Kept d d') (k' : Kept d' d'') :
    Kept d d'' where
  latest := k'.latest.trans k.latest
  stream := k'.stream.trans k.stream
  binding := k'.binding.trans k.binding
  sealed := k'.sealed.trans k.sealed
  pacing := k'.pacing.trans k.pacing
  lastStart := k'.lastStart.trans k.lastStart
  numbers := k'.numbers.trans k.numbers
  answered n hn := k'.answered n (k.answered n hn)
  begun n hn := k'.begun n (k.begun n hn)
  pending := by
    rcases k'.pending with hk | hk
    · rw [hk]
      exact k.pending
    · exact Or.inr hk

theorem Kept.isStreaming {d d' : Dispatcher ε V} (k : Kept d d') :
    d'.IsStreaming ↔ d.IsStreaming := by
  unfold IsStreaming
  rw [k.binding]

/-- Whoever is on the list was on it under the same number. -/
theorem Kept.mem {d d' : Dispatcher ε V} (k : Kept d d') {b : Attempt ε V}
    (hb : b ∈ d'.running) : ∃ c ∈ d.running, c.number = b.number :=
  List.mem_map.mp (k.numbers.subset (List.mem_map.mpr ⟨b, hb, rfl⟩))

/-- An attempt that took no step fits in as before. -/
theorem Fits.kept {d d' : Dispatcher ε V} {a : Attempt ε V} (h : Fits d a) (k : Kept d d')
    (same : d'.hasAnswered a.number = d.hasAnswered a.number) : Fits d' a where
  queues waiting := by
    have q := h.queues waiting
    refine ⟨q.fresh, by rw [same]; exact q.unanswered, ?_, q.supersedes, fun streaming b hb hn => ?_⟩
    · exact q.behind.imp_left fun all n hn hlt => k.answered n (all n hn hlt)
    · obtain ⟨c, hc, hcn⟩ := k.mem hb
      rw [← hcn]
      exact q.succeeds (k.isStreaming.mp streaming) c hc (by rw [hcn]; exact hn)
  executes executing := by
    have e := h.executes executing
    refine ⟨fun n hn hlt => k.answered n (e.earlier n hn hlt), fun b hb => ?_,
      fun some => k.isStreaming.mpr (e.streaming some), by rw [same]; exact e.delivered, e.offers⟩
    obtain ⟨c, hc, hcn⟩ := k.mem hb
    rw [← hcn]
    exact e.oldest c hc
  pending hp := by
    rw [same]
    rcases k.pending with hk | hk
    · exact h.pending (by rw [← hk]; exact hp)
    · rw [hk] at hp
      cases hp
  tracked streaming hl := by
    rw [k.stream]
    exact h.tracked (k.isStreaming.mp streaming) (by rw [← k.latest]; exact hl)
  older hlt := h.older (by rw [← k.latest]; exact hlt)

/-- **A step of an attempt keeps the order**, if every other attempt stays as it was and whoever
answers has turned to the source. -/
theorem Orderly.evolve {now : Instant} {d d' : Dispatcher ε V} (h : Orderly now d) (k : Kept d d')
    (runs : ∀ b ∈ d'.running,
      (b ∈ d.running ∧ d'.hasAnswered b.number = d.hasAnswered b.number) ∨ Fits d' b)
    (answers : ∀ n, d'.hasAnswered n = true →
      d.hasAnswered n = true ∨ ∃ a ∈ d.running, a.number = n ∧ a.isExecuting = true)
    (freed : d'.pending = d.pending ∨ ∃ n, d.pending = some n ∧ d'.hasAnswered n = true) :
    Orderly now d' where
  sorted := by
    -- the list only gets shorter, and its numbers stay in order
    have sorted : (d'.running.map (·.number)).Pairwise (· < ·) :=
      (List.pairwise_map.mpr h.sorted).sublist k.numbers
    exact List.pairwise_map.mp sorted
  bounded b hb := by
    obtain ⟨c, hc, hcn⟩ := k.mem hb
    rw [← hcn, k.latest]
    exact h.bounded c hc
  fits b hb := by
    rcases runs b hb with ⟨hb, same⟩ | fits
    · exact (h.fits b hb).kept k same
    · exact fits
  unsealed hs := by
    rw [k.latest]
    exact h.unsealed (by rw [← k.sealed]; exact hs)
  bound hs := by
    rw [k.binding]
    exact h.bound (by rw [← k.sealed]; exact hs)
  pending n hn := by
    rw [k.latest]
    rcases k.pending with hk | hk
    · exact h.pending n (by rw [← hk]; exact hn)
    · rw [hk] at hn
      cases hn
  stream n hn := by
    rw [k.latest]
    exact h.stream n (by rw [← k.stream]; exact hn)
  known n hn := by
    rw [k.latest]
    rcases answers n hn with hn | ⟨a, ha, rfl, _⟩
    · exact h.known n hn
    · exact (h.bounded a ha).2
  closed n m hn hm hlt := by
    -- whoever answers now has turned to the source, so all before it have answered
    rcases answers n hn with hn | ⟨a, ha, rfl, executing⟩
    · exact k.answered m (h.closed n m hn hm hlt)
    · exact k.answered m (((h.fits a ha).executes executing).earlier m hm hlt)
  passed n hn b hb := by
    obtain ⟨c, hc, hcn⟩ := k.mem hb
    rw [← hcn]
    rcases answers n hn with hn | ⟨a, ha, rfl, executing⟩
    -- and it was the oldest on the list
    · exact h.passed n hn c hc
    · exact ((h.fits a ha).executes executing).oldest c hc
  idle := by
    rcases h.idle with ⟨hp, hs, window, start, hw, hl, hnow, hstart⟩ | all
    · refine Or.inl ⟨?_, by rw [k.stream]; exact hs, window, start, by rw [k.pacing]; exact hw,
        by rw [k.lastStart]; exact hl, hnow, hstart⟩
      rcases k.pending with hk | hk
      · rw [hk]
        exact hp
      · exact hk
    · refine Or.inr fun hp n hn hle => ?_
      rw [k.latest] at hle
      rcases freed with same | ⟨m, hm, answered⟩
      · exact k.answered n (all (by rw [← same]; exact hp) n hn hle)
      · -- the attempt that left the pending place is the newest, and those before it have answered
        have hlast := (h.pending m hm).2
        rcases Nat.lt_or_eq_of_le (hlast ▸ hle) with hlt | rfl
        · rcases answers m answered with old | ⟨a, ha, rfl, executing⟩
          · exact k.answered n (h.closed m n old hn hlt)
          · exact k.answered n (((h.fits a ha).executes executing).earlier n hn hlt)
        · exact answered

/-! ## §3. The single changes. -/

/-- The dispatcher after an orderly step of an attempt. -/
structure Progressed (now : Instant) (d d' : Dispatcher ε V) : Prop where
  kept : Kept d d'
  orderly : Orderly now d'

/-- A source is bound before anything is launched. -/
theorem Orderly.bound_of_mem {now : Instant} {d : Dispatcher ε V} (h : Orderly now d)
    {a : Attempt ε V} (ha : a ∈ d.running) : d.sealed = true ∧ d.binding.isSome = true := by
  have bounded := h.bounded a ha
  cases hs : d.sealed with
  | false =>
      have := h.unsealed hs
      omega
  | true => exact ⟨rfl, h.bound hs⟩

/-- Numbers tell the attempts apart. -/
theorem Orderly.eq_of_number {now : Instant} {d : Dispatcher ε V} (h : Orderly now d)
    {a b : Attempt ε V} (ha : a ∈ d.running) (hb : b ∈ d.running) (hn : a.number = b.number) :
    a = b :=
  eq_of_increasing h.sorted ha hb hn

/-- An attempt on the list is found by its number. -/
theorem Orderly.attempt?_of_mem {now : Instant} {d : Dispatcher ε V} (h : Orderly now d)
    {a : Attempt ε V} (ha : a ∈ d.running) : d.attempt? a.number = some a := by
  obtain ⟨b, found⟩ := Option.isSome_iff_exists.mp (attempt?_isSome_iff.mpr ⟨a, ha, rfl⟩)
  obtain ⟨hb, number⟩ := attempt?_mem found
  rw [found, h.eq_of_number hb ha number]

/-- An attempt changes to one that fits in as well, and does not turn away from the source. -/
theorem Orderly.update {now : Instant} {d : Dispatcher ε V} (h : Orderly now d)
    {a a' : Attempt ε V} (ha : a ∈ d.running) (number : a'.number = a.number)
    (executing : a.isExecuting = true → a'.isExecuting = true) (fits : Fits d a') :
    Progressed now d (d.update a') := by
  have kept : Kept d (d.update a') := by
    refine ⟨rfl, rfl, rfl, rfl, rfl, rfl, ?_, fun _ => id, fun n hn => ?_, Or.inl rfl⟩
    · simp only [update_numbers, List.Sublist.refl]
    · refine hn.imp_right ?_
      rintro ⟨b, hb, rfl, hx⟩
      -- the attempt that changes has turned to the source no less than before
      by_cases hba : b.number = a'.number
      · have same : b = a := h.eq_of_number hb ha (hba.trans number)
        exact ⟨a', mem_update_iff.mpr (Or.inr ⟨rfl, a, ha, number.symm⟩), hba.symm,
          executing (by rw [← same]; exact hx)⟩
      · exact ⟨b, mem_update_iff.mpr (Or.inl ⟨hb, hba⟩), rfl, hx⟩
  refine ⟨kept, h.evolve kept (fun b hb => ?_) (fun n hn => Or.inl hn) (Or.inl rfl)⟩
  rcases mem_update_iff.mp hb with ⟨hb, _⟩ | ⟨rfl, _⟩
  · exact Or.inl ⟨hb, rfl⟩
  · exact Or.inr (fits.kept kept rfl)

/-- Attempts that have answered are taken off the list. -/
theorem Orderly.removed {now : Instant} {d d' : Dispatcher ε V} (h : Orderly now d)
    (frame : d'.latest = d.latest ∧ d'.pending = d.pending ∧ d'.stream = d.stream
      ∧ d'.binding = d.binding ∧ d'.sealed = d.sealed ∧ d'.pacing = d.pacing
      ∧ d'.lastStart = d.lastStart)
    (answers : d'.answers = d.answers) (sublist : d'.running.Sublist d.running)
    (gone : ∀ b ∈ d.running, b ∈ d'.running ∨ d.hasAnswered b.number = true) :
    Progressed now d d' := by
  obtain ⟨latest, pending, stream, binding, sealed, pacing, lastStart⟩ := frame
  have same (n : Nat) : d'.hasAnswered n = d.hasAnswered n := by
    unfold hasAnswered answer?
    rw [answers]
  have kept : Kept d d' := by
    refine ⟨latest, stream, binding, sealed, pacing, lastStart, sublist.map _,
      fun n hn => by rw [same]; exact hn, fun n hn => ?_, Or.inl pending⟩
    rcases hn with hn | ⟨b, hb, rfl, hx⟩
    · exact Or.inl (by rw [same]; exact hn)
    · rcases gone b hb with stays | answered
      · exact Or.inr ⟨b, stays, rfl, hx⟩
      · exact Or.inl (by rw [same]; exact answered)
  exact ⟨kept, h.evolve kept (fun b hb => Or.inl ⟨sublist.subset hb, same _⟩)
    (fun n hn => Or.inl (by rw [← same]; exact hn)) (Or.inl pending)⟩

theorem dismiss_sublist (d : Dispatcher ε V) (o : Option Nat) :
    (d.dismiss o).running.Sublist d.running := by
  cases o with
  | none => exact .refl _
  | some n =>
      show (d.abort n).running.Sublist d.running
      unfold abort
      split
      · simp only [lose, noteAnswer_frame]
        exact List.filter_sublist
      · exact .refl _

/-- An attempt that has answered is stopped. -/
theorem Orderly.dismiss {now : Instant} {d : Dispatcher ε V} (h : Orderly now d) {o : Option Nat}
    (answered : ∀ b ∈ d.running, o = some b.number → d.hasAnswered b.number = true) :
    Progressed now d (d.dismiss o) := by
  refine h.removed (dismiss_frame d o) (dismiss_of_answered answered) (dismiss_sublist d o) ?_
  intro b hb
  by_cases ho : o = some b.number
  · exact Or.inr (answered b hb ho)
  · exact Or.inl (mem_dismiss_iff.mpr ⟨hb, ho⟩)

/-- An attempt that has answered ends. -/
theorem Orderly.retire {now : Instant} {d : Dispatcher ε V} (h : Orderly now d) {n : Nat}
    (answered : d.hasAnswered n = true) : Progressed now d (d.retire n) := by
  refine h.removed ⟨rfl, rfl, rfl, rfl, rfl, rfl, rfl⟩ rfl List.filter_sublist fun b hb => ?_
  by_cases hn : b.number = n
  · exact Or.inr (by rw [hn]; exact answered)
  · exact Or.inl (mem_retire_iff.mpr ⟨hb, hn⟩)

/-- **An executing attempt answers**: it leaves the list, or fits in when it goes on. -/
theorem Orderly.answered {now : Instant} {d d' : Dispatcher ε V} (h : Orderly now d)
    {a : Attempt ε V} (ha : a ∈ d.running) (executing : a.isExecuting = true)
    (frame : d'.latest = d.latest ∧ d'.stream = d.stream ∧ d'.binding = d.binding
      ∧ d'.sealed = d.sealed ∧ d'.pacing = d.pacing ∧ d'.lastStart = d.lastStart)
    (answers : ∀ n, d'.hasAnswered n = true ↔ d.hasAnswered n = true ∨ n = a.number)
    (numbers : (d'.running.map (·.number)).Sublist (d.running.map (·.number)))
    (stays : ∀ b ∈ d.running, b.number ≠ a.number → b ∈ d'.running)
    (runs : ∀ b ∈ d'.running, (b ∈ d.running ∧ b.number ≠ a.number) ∨ (Kept d d' → Fits d' b))
    (pending : d'.pending = d.pending ∨ (d.pending = some a.number ∧ d'.pending = none)) :
    Progressed now d d' := by
  obtain ⟨latest, stream, binding, sealed, pacing, lastStart⟩ := frame
  have answered : d'.hasAnswered a.number = true := (answers _).mpr (Or.inr rfl)
  have kept : Kept d d' := by
    refine ⟨latest, stream, binding, sealed, pacing, lastStart, numbers,
      fun n hn => (answers n).mpr (Or.inl hn), fun n hn => ?_, pending.imp_right And.right⟩
    rcases hn with hn | ⟨b, hb, rfl, hx⟩
    · exact Or.inl ((answers n).mpr (Or.inl hn))
    · by_cases hn : b.number = a.number
      · exact Or.inl (by rw [hn]; exact answered)
      · exact Or.inr ⟨b, stays b hb hn, rfl, hx⟩
  refine ⟨kept, h.evolve kept (fun b hb => ?_) (fun n hn => ?_) ?_⟩
  · -- the answer is news of one attempt only
    refine (runs b hb).imp (fun ⟨hb, hne⟩ => ⟨hb, Bool.eq_iff_iff.mpr ?_⟩) fun fits => fits kept
    rw [answers]
    exact or_iff_left hne
  · rcases (answers n).mp hn with hn | rfl
    · exact Or.inl hn
    · exact Or.inr ⟨a, ha, rfl, executing⟩
  · exact pending.imp_right fun hp => ⟨a.number, hp.1, answered⟩

/-- An executing attempt answers and leaves the list. -/
theorem Orderly.departed {now : Instant} {d d' : Dispatcher ε V} (h : Orderly now d)
    {a : Attempt ε V} (ha : a ∈ d.running) (executing : a.isExecuting = true)
    (frame : d'.latest = d.latest ∧ d'.stream = d.stream ∧ d'.binding = d.binding
      ∧ d'.sealed = d.sealed ∧ d'.pacing = d.pacing ∧ d'.lastStart = d.lastStart)
    (answers : ∀ n, d'.hasAnswered n = true ↔ d.hasAnswered n = true ∨ n = a.number)
    (sublist : d'.running.Sublist d.running)
    (runs : ∀ b, b ∈ d'.running ↔ b ∈ d.running ∧ b.number ≠ a.number)
    (pending : d'.pending = d.pending ∨ (d.pending = some a.number ∧ d'.pending = none)) :
    Progressed now d d' :=
  h.answered ha executing frame answers (sublist.map _) (fun b hb hn => (runs b).mpr ⟨hb, hn⟩)
    (fun b hb => Or.inl ((runs b).mp hb)) pending

theorem Orderly.lose {now : Instant} {d : Dispatcher ε V} (h : Orderly now d) {a : Attempt ε V}
    (ha : a ∈ d.running) (executing : a.isExecuting = true) :
    Progressed now d (d.lose a.number) := by
  obtain ⟨latest, pending, stream, binding, sealed, pacing, lastStart⟩ := lose_frame d a.number
  refine h.departed ha executing ⟨latest, stream, binding, sealed, pacing, lastStart⟩
    (fun n => hasAnswered_lose) ?_ (fun b => mem_lose_iff) (Or.inl pending)
  simp only [Dispatcher.lose, noteAnswer_frame]
  exact List.filter_sublist

/-- Settling frees the pending place or leaves it as it is. -/
theorem settle_pending_cases (d : Dispatcher ε V) (n : Nat) (answer : Answer V) :
    (d.settle n answer).pending = d.pending
      ∨ (d.pending = some n ∧ (d.settle n answer).pending = none) := by
  rw [settle_pending]
  split
  next h => exact Or.inr ⟨h.1, rfl⟩
  next => exact Or.inl rfl

theorem Orderly.ended {now : Instant} {d : Dispatcher ε V} (h : Orderly now d) {a : Attempt ε V}
    (ha : a ∈ d.running) (executing : a.isExecuting = true) (answer : Answer V) :
    Progressed now d ((d.settle a.number answer).retire a.number) := by
  obtain ⟨runs, latest, stream, binding, sealed, pacing, lastStart⟩ := settle_frame d a.number answer
  refine h.departed ha executing ⟨latest, stream, binding, sealed, pacing, lastStart⟩
    (fun n => hasAnswered_settle) ?_ (fun b => ?_) (settle_pending_cases d a.number answer)
  · show ((d.settle a.number answer).running.filter _).Sublist d.running
    rw [runs]
    exact List.filter_sublist
  · rw [mem_retire_iff, runs]

/-- An attempt that settles what it owes leaves the pending place. -/
theorem settle_pending_ne {d : Dispatcher ε V} {n : Nat}
    (owes : d.pending = some n → d.hasAnswered n = false) (answer : Answer V) :
    (d.settle n answer).pending ≠ some n := by
  rw [settle_pending]
  intro hp
  split at hp
  next => cases hp
  next h => exact h ⟨hp, owes hp⟩

/-- An attempt that has answered and goes on fits in with its next item. -/
theorem Fits.resumed {d d' : Dispatcher ε V} {a : Attempt ε V} (h : Fits d a)
    (resuming : a.isResuming = true) (executing : a.isExecuting = true) (k : Kept d d')
    (answered : d'.hasAnswered a.number = true) (freed : d'.pending ≠ some a.number) :
    Fits d' { a with item := a.item + 1, progress := .asking } where
  queues waiting := by cases waiting
  executes _ := by
    have e := h.executes executing
    refine ⟨fun n hn hlt => k.answered n (e.earlier n hn hlt), fun c hc => ?_,
      fun some => k.isStreaming.mpr (e.streaming some), iff_of_true answered (Nat.succ_ne_zero _),
      fun _ => e.offers (Or.inr resuming)⟩
    obtain ⟨c', hc', hcn⟩ := k.mem hc
    rw [← hcn]
    exact e.oldest c' hc'
  pending hp := absurd hp freed
  tracked hs hn := by
    rw [k.stream]
    exact h.tracked (k.isStreaming.mp hs) (by rw [← k.latest]; exact hn)
  older hlt := by
    rw [k.latest] at hlt
    have item := (h.older hlt).2 resuming
    exact ⟨by simp [item], fun again => by cases again⟩

/-- An executing attempt answers and goes on to its next item. -/
theorem Orderly.resumed {now : Instant} {d : Dispatcher ε V} (h : Orderly now d)
    {a : Attempt ε V} (ha : a ∈ d.running) (resuming : a.isResuming = true)
    (executing : a.isExecuting = true) (answer : Answer V) :
    Progressed now d
      ((d.settle a.number answer).update { a with item := a.item + 1, progress := .asking }) := by
  obtain ⟨runs, latest, stream, binding, sealed, pacing, lastStart⟩ := settle_frame d a.number answer
  have fits := h.fits a ha
  refine h.answered ha executing ⟨latest, stream, binding, sealed, pacing, lastStart⟩
    (fun n => hasAnswered_settle) ?_ (fun b hb hne => ?_) (fun b hb => ?_)
    (settle_pending_cases d a.number answer)
  · simp only [update_numbers, runs, List.Sublist.refl]
  · exact mem_update_iff.mpr (Or.inl ⟨by rw [runs]; exact hb, hne⟩)
  · rcases mem_update_iff.mp hb with ⟨hb, hne⟩ | ⟨rfl, _⟩
    · exact Or.inl ⟨by rw [← runs]; exact hb, hne⟩
    · exact Or.inr fun kept => fits.resumed resuming executing kept
        (hasAnswered_settle.mpr (Or.inr rfl)) (settle_pending_ne fits.pending answer)

/-- An attempt waits on. -/
theorem Orderly.waited {now : Instant} {d : Dispatcher ε V} (h : Orderly now d)
    {a : Attempt ε V} (ha : a ∈ d.running) (waiting : a.isExecuting = false)
    {p : Attempt.Progress ε V} (waits : { a with progress := p }.isExecuting = false) :
    Progressed now d (d.update { a with progress := p }) := by
  have fits := h.fits a ha
  have q := fits.queues waiting
  refine h.update ha rfl (fun executing => ?_) ⟨fun _ => ?_, fun executing => ?_, fits.pending,
    fits.tracked, fun hlt => ⟨(fits.older hlt).1, fun _ => q.fresh.1⟩⟩
  · rw [waiting] at executing
    cases executing
  · exact ⟨q.fresh, q.unanswered, q.behind, q.supersedes, q.succeeds⟩
  · rw [waits] at executing
    cases executing

/-- An executing attempt comes to another place on its way, and does not go on to another item yet
unless it may. -/
theorem Orderly.advanced {now : Instant} {d : Dispatcher ε V} (h : Orderly now d)
    {a : Attempt ε V} (ha : a ∈ d.running) (executing : a.isExecuting = true)
    {p : Attempt.Progress ε V} (executes : { a with progress := p }.isExecuting = true)
    (resumes : { a with progress := p }.isResuming = true →
      a.offers.isSome = true ∧ a.number = d.latest) :
    Progressed now d (d.update { a with progress := p }) := by
  have fits := h.fits a ha
  have e := fits.executes executing
  refine h.update ha rfl (fun _ => executes) ⟨fun waiting => ?_, fun _ => ?_, fits.pending,
    fits.tracked, fun hlt => ⟨(fits.older hlt).1, fun resuming => ?_⟩⟩
  · rw [executes] at waiting
    cases waiting
  · exact ⟨e.earlier, e.oldest, e.streaming, e.delivered,
      fun hor => hor.elim (fun item => e.offers (Or.inl item)) fun resuming => (resumes resuming).1⟩
  · exact absurd (resumes resuming).2 (Nat.ne_of_lt hlt)

/-- When the predecessor has answered, everybody before has. -/
theorem Orderly.earlier_of_ready {now : Instant} {d : Dispatcher ε V} (h : Orderly now d)
    {a : Attempt ε V} (q : Queues d a) (ready : a.predecessor.all d.hasAnswered = true)
    {n : Nat} (hn : 0 < n) (hlt : n < a.number) : d.hasAnswered n = true := by
  rcases q.behind with all | predecessor
  · exact all n hn hlt
  · rw [predecessor, Option.all_some] at ready
    rcases Nat.lt_or_eq_of_le (Nat.le_sub_one_of_lt hlt) with hlt | rfl
    · exact h.closed _ n ready hn hlt
    · exact ready

/-- **When an attempt turns to the source, it is the oldest on the list**: a stream before it that
has answered is stopped, and any other attempt that has answered is gone. -/
theorem Orderly.oldest_of_ready {now : Instant} {d : Dispatcher ε V} (h : Orderly now d)
    {a : Attempt ε V} (q : Queues d a) (ready : a.predecessor.all d.hasAnswered = true)
    {b : Attempt ε V} (hb : b ∈ (d.dismiss a.supersedes).running) : a.number ≤ b.number := by
  obtain ⟨hb, spared⟩ := mem_dismiss_iff.mp hb
  refine Nat.le_of_not_lt fun hlt => spared ?_
  have earlier {n : Nat} := h.earlier_of_ready q ready (n := n)
  -- an older attempt that was spared stands just before this one, and has answered
  have hpos := (h.bounded b hb).1
  have answered : d.hasAnswered b.number = true := earlier hpos hlt
  have next : b.number + 1 = a.number := by
    have := h.passed (a.number - 1) (earlier (by omega) (by omega)) b hb
    omega
  have fits := h.fits b hb
  have executing : b.isExecuting = true := by
    by_cases hx : b.isExecuting = true
    · exact hx
    · have unanswered := (fits.queues (by simpa using hx)).unanswered
      rw [answered] at unanswered
      cases unanswered
  -- it has delivered, so it is a stream, and this one came to stop it
  have e := fits.executes executing
  exact q.succeeds (e.streaming (e.offers (Or.inl (e.delivered.mp answered)))) b hb next

/-- Whoever is stopped by an attempt that turns to the source has answered. -/
theorem Orderly.stopped {now : Instant} {d : Dispatcher ε V} (h : Orderly now d)
    {a : Attempt ε V} (q : Queues d a) (ready : a.predecessor.all d.hasAnswered = true) :
    ∀ b ∈ d.running, a.supersedes = some b.number → d.hasAnswered b.number = true := by
  intro b hb ho
  have next := q.supersedes _ ho
  exact h.earlier_of_ready q ready (h.bounded b hb).1 (by omega)

/-- **An attempt turns to the source.** -/
theorem Orderly.turned {now : Instant} {d : Dispatcher ε V} (h : Orderly now d)
    {a : Attempt ε V} (ha : a ∈ d.running) (waiting : a.isExecuting = false)
    (ready : a.predecessor.all d.hasAnswered = true) {offers : Option (Nat → Offer ε V)}
    (streaming : offers.isSome = true → d.IsStreaming) {p : Attempt.Progress ε V}
    (executes : { a with offers, progress := p }.isExecuting = true)
    (pauses : { a with offers, progress := p }.isResuming = false) :
    Progressed now d
      ((d.dismiss a.supersedes).update { a with offers, progress := p }) := by
  have fits := h.fits a ha
  have q := fits.queues waiting
  have item : a.item = 0 := q.fresh.1
  have stopped := h.stopped q ready
  obtain ⟨kept, orderly⟩ := h.dismiss stopped
  have same : (d.dismiss a.supersedes).hasAnswered a.number = false := by
    -- stopping whoever has answered answers nobody
    unfold hasAnswered answer?
    rw [dismiss_of_answered stopped]
    exact q.unanswered
  have stays : a ∈ (d.dismiss a.supersedes).running :=
    mem_dismiss_iff.mpr ⟨ha, fun ho => by have := q.supersedes _ ho; omega⟩
  suffices fits : Fits (d.dismiss a.supersedes) { a with offers, progress := p } by
    have turned : Progressed now (d.dismiss a.supersedes)
        ((d.dismiss a.supersedes).update { a with offers, progress := p }) :=
      orderly.update stays rfl (fun _ => executes) fits
    exact ⟨kept.trans turned.kept, turned.orderly⟩
  refine ⟨fun waits => ?_, fun _ => ?_, fun _ => same, fun hs hn => ?_, fun _ => ?_⟩
  · rw [executes] at waits
    cases waits
  · refine ⟨fun n hn hlt => kept.answered n (h.earlier_of_ready q ready hn hlt),
      fun b hb => h.oldest_of_ready q ready hb, fun some => kept.isStreaming.mpr (streaming some),
      ?_, ?_⟩
    · exact iff_of_false (by simp [same]) (by simp [item])
    · rintro (hitem | resuming)
      · exact absurd item hitem
      · rw [pauses] at resuming
        cases resuming
  · rw [kept.stream]
    exact fits.tracked (kept.isStreaming.mp hs) (by rw [← kept.latest]; exact hn)
  · exact ⟨by simp [item], fun _ => item⟩

/-! ## §4. Launches. -/

/-- When the rest of the window leads beyond what can be named: it does so from both ends. -/
theorem rest_overflows_iff {now start horizon : Int} {window : Nat} (named : now < horizon) :
    ¬(window - (now - start).toNat = 0 ∨ now + (window - (now - start).toNat : Nat) < horizon)
      ↔ horizon ≤ now + window ∧ horizon ≤ start + window := by
  omega

/-- A jammed dispatcher launches nothing any more. -/
theorem Jammed.overflows {now : Instant} {d : Dispatcher ε V} (h : Jammed now d)
    (named : now < Instant.horizon) : now.later? (d.holdBack now) = none := by
  obtain ⟨_, _, window, start, hw, hl, late⟩ := h
  have hback : d.holdBack now = window - now.age start := by simp [holdBack, hw, hl]
  rw [hback, Instant.later?, if_neg]
  exact (rest_overflows_iff named).mpr late

/-- A launch beyond the clock jams the dispatcher. -/
theorem jammed_of_overflow {now : Instant} {d : Dispatcher ε V} (named : now < Instant.horizon)
    (h : now.later? (d.holdBack now) = none) :
    ∃ window start, d.pacing = .spaced window ∧ d.lastStart = some start
      ∧ Instant.horizon ≤ now + window ∧ Instant.horizon ≤ start + window := by
  have hno : ¬(d.holdBack now = 0 ∨ now + d.holdBack now < Instant.horizon) := by
    intro hyes
    rw [Instant.later?, if_pos hyes] at h
    cases h
  unfold holdBack at hno
  -- without a window nothing is held back, and the clock can name the present
  split at hno
  next window start hw hl =>
    exact ⟨window, start, hw, hl, (rest_overflows_iff named).mp hno⟩
  next => simp at hno

theorem Jammed.mono {now later : Instant} {d : Dispatcher ε V} (h : Jammed now d)
    (since : now ≤ later) : Jammed later d := by
  obtain ⟨hp, hs, window, start, hw, hl, hnow, hstart⟩ := h
  exact ⟨hp, hs, window, start, hw, hl, Int.le_trans hnow (Int.add_le_add_right since _), hstart⟩

/-- A stream that has answered stands alone: nobody owes an answer, and everybody has given one. -/
theorem Orderly.answeredStream {now : Instant} {d : Dispatcher ε V} (h : Orderly now d) {n : Nat}
    (hn : d.answeredStream = some n) : n = d.latest ∧ d.hasAnswered n = true := by
  unfold Dispatcher.answeredStream at hn
  split at hn
  next => cases hn
  next hne =>
    obtain ⟨hpos, hlast⟩ := h.stream n hn
    -- both places are the newest attempt's, and they differ, so one is free
    have hpending : d.pending = none := by
      cases hp : d.pending with
      | none => rfl
      | some m => exact absurd (by rw [hn, hp, hlast, (h.pending m hp).2]) hne
    rcases h.idle with ⟨_, hs, _⟩ | all
    · rw [hs] at hn
      cases hn
    · exact ⟨hlast, all hpending n hpos (Nat.le_of_eq hlast)⟩

theorem mem_clear_iff {d : Dispatcher ε V} {b : Attempt ε V} :
    b ∈ d.clear.running ↔ b ∈ d.running ∧ d.answeredStream ≠ some b.number :=
  mem_dismiss_iff

/-- A launch that runs beyond the clock starts nobody. -/
theorem Overflowed.mem_running {d left : Dispatcher ε V} {now : Instant} (h : Overflowed d left now)
    {b : Attempt ε V} (hb : b ∈ left.running) : b ∈ d.running := by
  rcases h.toRenewed.mem hb with spared | fresh
  · exact (mem_clear_iff.mp spared).1
  · cases fresh

/-- Freeing the places of the previous attempt answers nobody. -/
theorem Orderly.answers_clear {now : Instant} {d : Dispatcher ε V} (h : Orderly now d) :
    d.clear.answers = d.answers :=
  dismiss_of_answered fun _ _ hb => (h.answeredStream hb).2

/-- A launch answers nobody. -/
theorem Orderly.answers_renewed {now : Instant} {d next : Dispatcher ε V}
    {fresh : Option (Attempt ε V)} (h : Orderly now d) (r : Renewed d next fresh) :
    next.answers = d.answers :=
  r.answers.trans h.answers_clear

theorem Orderly.hasAnswered_renewed {now : Instant} {d next : Dispatcher ε V}
    {fresh : Option (Attempt ε V)} (h : Orderly now d) (r : Renewed d next fresh) (n : Nat) :
    next.hasAnswered n = d.hasAnswered n := by
  unfold hasAnswered answer?
  rw [h.answers_renewed r]

/-- The newest attempt survives the launch of the next one only if it has not delivered yet: otherwise
it is a stream that has answered, and is stopped. -/
theorem Orderly.item_of_spared {now : Instant} {d : Dispatcher ε V} (h : Orderly now d)
    {b : Attempt ε V} (hb : b ∈ d.running) (spared : d.answeredStream ≠ some b.number)
    (hlast : b.number = d.latest) : b.item = 0 := by
  have fits := h.fits b hb
  by_cases executing : b.isExecuting = true
  · have e := fits.executes executing
    by_cases hitem : b.item = 0
    · exact hitem
    · exfalso
      -- who has delivered is a stream with its answer given: the launch has stopped it
      have hstream := fits.tracked (e.streaming (e.offers (Or.inl hitem))) hlast
      have answered := e.delivered.mpr hitem
      apply spared
      unfold Dispatcher.answeredStream
      rw [if_neg, hstream]
      intro hp
      rw [hstream] at hp
      rw [fits.pending hp.symm] at answered
      cases answered
  · exact (fits.queues (by simpa using executing)).fresh.1

/-- An attempt that survives the launch of the next one fits in afterwards. -/
theorem Orderly.fits_cleared {now : Instant} {d d' : Dispatcher ε V} (h : Orderly now d)
    (binding : d'.binding = d.binding) (latest : d'.latest = d.latest + 1)
    (pending : ∀ n, d'.pending = some n → n = d.latest + 1)
    (answers : ∀ n, d'.hasAnswered n = d.hasAnswered n)
    (runs : ∀ c ∈ d'.running, c ∈ d.running ∨ c.number = d.latest + 1)
    {b : Attempt ε V} (hb : b ∈ d.clear.running) : Fits d' b := by
  obtain ⟨hb, spared⟩ := mem_clear_iff.mp hb
  have fits := h.fits b hb
  have hle := (h.bounded b hb).2
  have streaming : d'.IsStreaming ↔ d.IsStreaming := by
    unfold IsStreaming
    rw [binding]
  refine ⟨fun waiting => ?_, fun executing => ?_, fun hp => ?_, fun _ hn => ?_, fun _ => ?_⟩
  -- whoever was launched since bears a greater number
  · have q := fits.queues waiting
    refine ⟨q.fresh, by rw [answers]; exact q.unanswered, ?_, q.supersedes, fun hs c hc hn => ?_⟩
    · simpa only [answers] using q.behind
    · rcases runs c hc with hc | hc
      · exact q.succeeds (streaming.mp hs) c hc hn
      · omega
  · have e := fits.executes executing
    refine ⟨by simpa only [answers] using e.earlier, fun c hc => ?_,
      fun some => streaming.mpr (e.streaming some), by rw [answers]; exact e.delivered, e.offers⟩
    rcases runs c hc with hc | hc
    · exact e.oldest c hc
    · omega
  · have := pending _ hp
    omega
  · omega
  · rcases Nat.lt_or_eq_of_le hle with hlt | hlast
    · exact fits.older hlt
    · rw [h.item_of_spared hb spared hlast]
      exact ⟨Nat.zero_le 1, fun _ => rfl⟩

/-- The newest attempt waits its turn. -/
theorem Orderly.queues_newest {now : Instant} {d d' : Dispatcher ε V} (h : Orderly now d)
    (named : ¬Jammed now d) (binding : d'.binding = d.binding)
    (answers : ∀ n, d'.hasAnswered n = d.hasAnswered n)
    {a : Attempt ε V} (number : a.number = d.latest + 1) (fresh : a.item = 0 ∧ a.offers = none)
    (predecessor : a.predecessor = d.pending) (supersedes : a.supersedes = d.unansweredStream)
    (runs : ∀ c ∈ d'.running, c ∈ d.clear.running ∨ c.number = d.latest + 1) : Queues d' a where
  fresh := fresh
  unanswered := by
    rw [answers, number]
    cases hn : d.hasAnswered (d.latest + 1) with
    | false => rfl
    | true => exact absurd (h.known _ hn) (by omega)
  behind := by
    rw [predecessor, number]
    cases hp : d.pending with
    | none =>
        refine Or.inl fun n hn hlt => ?_
        rw [answers]
        exact (h.idle.resolve_left named) hp n hn (by omega)
    | some m => exact Or.inr (by rw [(h.pending m hp).2]; rfl)
  supersedes n hn := by
    rw [supersedes, unansweredStream] at hn
    split at hn
    · rw [number, (h.stream n hn).2]
    · cases hn
  succeeds hs c hc hn := by
    -- the attempt just before is the newest so far; as a stream it has its place, and was spared there
    have hlast : c.number = d.latest := by omega
    have hc : c ∈ d.clear.running := (runs c hc).resolve_right (by omega)
    obtain ⟨hc, spared⟩ := mem_clear_iff.mp hc
    have streaming : d.IsStreaming := by
      unfold IsStreaming at hs ⊢
      rwa [binding] at hs
    have hstream := (h.fits c hc).tracked streaming hlast
    rw [supersedes, unansweredStream]
    split
    · exact hstream
    next hne =>
      rw [Dispatcher.answeredStream, if_neg hne] at spared
      exact absurd hstream spared

/-- **A launch keeps the order**, if the attempt that it starts fits in and nothing is lost sight of. -/
theorem Orderly.renewed {now : Instant} {d next : Dispatcher ε V} {fresh : Option (Attempt ε V)}
    (h : Orderly now d) (r : Renewed d next fresh)
    (number : ∀ a, fresh = some a → a.number = d.latest + 1)
    (fits : ∀ a, fresh = some a → Fits next a)
    (pending : ∀ n, next.pending = some n → n = d.latest + 1)
    (stream : ∀ n, next.stream = some n → n = d.latest + 1)
    (idle : Jammed now next
      ∨ (next.pending = none → ∀ n, 0 < n → n ≤ next.latest → next.hasAnswered n = true)) :
    Orderly now next := by
  have sublist : d.clear.running.Sublist d.running := dismiss_sublist d _
  have answers := h.hasAnswered_renewed r
  refine ⟨?_, fun b hb => ?_, fun b hb => ?_, fun hs => ?_, fun _ => ?_, fun n hn => ?_, fun n hn => ?_,
    fun n hn => ?_, fun n m hn hm hlt => ?_, fun n hn b hb => ?_, idle⟩
  · rw [r.running]
    -- the new attempt comes last
    refine List.pairwise_append.mpr ⟨h.sorted.sublist sublist, ?_, fun b hb c hc => ?_⟩
    · cases fresh with
      | none => exact .nil
      | some a => exact List.pairwise_singleton _ _
    · rw [number c (Option.mem_toList.mp hc)]
      exact Nat.lt_succ_of_le (h.bounded b (sublist.subset hb)).2
  · rw [r.latest]
    rcases r.mem hb with hb | hb
    · have := h.bounded b (sublist.subset hb)
      omega
    · rw [number b hb]
      exact ⟨Nat.succ_pos _, Nat.le_refl _⟩
  · rcases r.mem hb with hb | hb
    · exact h.fits_cleared r.binding r.latest pending answers
        (fun c hc => (r.mem hc).imp (fun hc => sublist.subset hc) (number c)) hb
    · exact fits b hb
  · rw [r.sealed] at hs
    cases hs
  · rw [r.binding]
    exact r.bound
  · rw [r.latest, pending n hn]
    exact ⟨Nat.succ_pos _, rfl⟩
  · rw [r.latest, stream n hn]
    exact ⟨Nat.succ_pos _, rfl⟩
  · rw [answers] at hn
    rw [r.latest]
    exact Nat.le_succ_of_le (h.known n hn)
  · rw [answers] at hn ⊢
    exact h.closed n m hn hm hlt
  · rw [answers] at hn
    rcases r.mem hb with hb | hb
    · exact h.passed n hn b (sublist.subset hb)
    · rw [number b hb]
      exact Nat.le_succ_of_le (h.known n hn)

/-- A launch that starts an attempt keeps the order. -/
theorem Orderly.started {now : Instant} {d next : Dispatcher ε V} {n : Nat} (h : Orderly now d)
    (named : now < Instant.horizon) (s : Started d next now n) : Orderly now next := by
  have unjammed : ¬Jammed now d := fun jam => by
    -- the clock could name the start
    obtain ⟨start, hlater⟩ := s.named
    rw [jam.overflows named] at hlater
    cases hlater
  have answers := h.hasAnswered_renewed s.toRenewed
  have number (a : Attempt ε V) (ha : some (d.newest now) = some a) : a.number = d.latest + 1 := by
    rw [← Option.some.inj ha]
    rfl
  have queues : Queues next (d.newest now) :=
    h.queues_newest unjammed s.binding answers rfl ⟨rfl, rfl⟩ rfl rfl
      fun c hc => (s.mem hc).imp_right (number c)
  refine h.renewed s.toRenewed number (fun a ha => ?_) (fun m hm => ?_) (fun m hm => ?_)
    (Or.inr fun hp => ?_)
  · rw [← Option.some.inj ha]
    refine ⟨fun _ => queues, fun executing => ?_, fun _ => queues.unanswered, fun streaming _ => ?_,
      fun hlt => ?_⟩
    · cases executing
    · obtain ⟨source, bound, stream⟩ := s.stream
      obtain ⟨source', hs, continuous⟩ := streaming
      rw [s.binding, bound] at hs
      rw [stream, Option.some.inj hs, if_pos continuous, s.number]
      rfl
    · rw [s.latest] at hlt
      exact absurd hlt (Nat.lt_irrefl _)
  · rw [s.pending] at hm
    rw [← Option.some.inj hm, s.number]
  · obtain ⟨source, _, stream⟩ := s.stream
    rw [stream] at hm
    split at hm
    · rw [← Option.some.inj hm, s.number]
    · cases hm
  · rw [s.pending] at hp
    cases hp

/-- A launch beyond the clock jams the dispatcher, be it for the first time or again. -/
theorem Overflowed.jammed {now : Instant} {d left : Dispatcher ε V} (o : Overflowed d left now)
    (named : now < Instant.horizon) : Jammed now left := by
  obtain ⟨window, start, hw, hs, late⟩ := jammed_of_overflow named o.late
  exact ⟨o.pending, o.stream, window, start, o.pacing.trans hw, o.lastStart.trans hs, late⟩

/-- A launch beyond the clock keeps the order. -/
theorem Orderly.overflow {now : Instant} {d left : Dispatcher ε V} (h : Orderly now d)
    (named : now < Instant.horizon) (o : Overflowed d left now) : Orderly now left := by
  refine h.renewed o.toRenewed (fun a ha => nomatch ha) (fun a ha => nomatch ha) (fun m hm => ?_)
    (fun m hm => ?_) (Or.inl ?_)
  · rw [o.pending] at hm
    cases hm
  · rw [o.stream] at hm
    cases hm
  · exact o.jammed named

/-- A launch takes no attempt back from the source that has not answered. -/
theorem Orderly.begun_renewed {now : Instant} {d next : Dispatcher ε V} {fresh : Option (Attempt ε V)}
    (h : Orderly now d) (r : Renewed d next fresh) {n : Nat} (hn : Begun d n) : Begun next n := by
  have same := h.hasAnswered_renewed r
  rcases hn with hn | ⟨b, hb, rfl, executing⟩
  · exact Or.inl (by rw [same]; exact hn)
  -- a launch stops only a stream that has answered
  · by_cases stopped : d.answeredStream = some b.number
    · exact Or.inl (by rw [same]; exact (h.answeredStream stopped).2)
    · refine Or.inr ⟨b, ?_, rfl, executing⟩
      rw [r.running]
      exact List.mem_append_left _ (mem_clear_iff.mpr ⟨hb, stopped⟩)

/-! ## §5. Everything else. -/

/-- Before the first launch a source may be bound. -/
theorem Orderly.bound_anew {now : Instant} {d : Dispatcher ε V} (h : Orderly now d)
    (unsealed : d.sealed = false) (source : Source ε V) :
    Orderly now { d with binding := some source } := by
  have latest := h.unsealed unsealed
  -- numbers begin with the first launch, so nobody is on the list
  have nobody (b : Attempt ε V) (hb : b ∈ d.running) : False := by
    have := h.bounded b hb
    omega
  exact ⟨h.sorted, h.bounded, fun b hb => (nobody b hb).elim, h.unsealed, fun _ => rfl, h.pending,
    h.stream, h.known, h.closed, h.passed, h.idle⟩

/-- The order outlasts the passing of time. -/
theorem Orderly.later {now later : Instant} {d : Dispatcher ε V} (h : Orderly now d)
    (since : now ≤ later) : Orderly later d :=
  ⟨h.sorted, h.bounded, h.fits, h.unsealed, h.bound, h.pending, h.stream, h.known, h.closed, h.passed,
    h.idle.imp_left fun jam => jam.mono since⟩

/-- Nothing was launched yet. -/
theorem Orderly.initial (now : Instant) (pacing : Pacing) :
    Orderly now ({ pacing } : Dispatcher ε V) where
  sorted := .nil
  bounded _ ha := by cases ha
  fits _ ha := by cases ha
  unsealed _ := rfl
  bound hs := by cases hs
  pending _ hn := by cases hn
  stream _ hn := by cases hn
  known _ hn := by cases hn
  closed _ _ hn := by cases hn
  passed _ hn := by cases hn
  idle := Or.inr fun _ n hn hle => absurd hn (Nat.not_lt.mpr hle)

end Dispatcher

end SingleFlight
