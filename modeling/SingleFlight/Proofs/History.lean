/-
  SingleFlight.Proofs.History — the book on staleness is what its entries say.

  The book keeps three facts and a list of notices, and every entry changes some of them.
  Read off a whole history, each of them has a meaning that does not mention the book:
  which success came last, and what came after it.  `Recalls` says that the book agrees
  with the history so far; an entry keeps it (`Recalls.enter`), and so does any list of
  entries (`Recalls.entered`).

  Main results:
  * `Instant.age_le_iff`: the age test and the deadline test are the same test;
  * `Book.tells_history`: when a value is due, what an observer is told, which notices
    go out and where the deadline lies, for every policy and every history.
-/
import SingleFlight.Proofs.Dueness
import SingleFlight.Simulation.Book
import Mathlib.Data.List.DropRight

namespace SingleFlight

/-! ## §1. Two tests of age. -/

/-- **A value has reached an age exactly when that much time has passed since its instant**, unless
the age is nothing: every value has reached that, also one that lies ahead. -/
theorem Instant.age_le_iff {now t : Instant} {interval : Duration} (positive : 0 < interval) :
    interval ≤ now.age t ↔ t + interval ≤ now := by
  have test (now t : Int) (interval : Nat) (positive : 0 < interval) :
      interval ≤ (now - t).toNat ↔ t + interval ≤ now := by
    omega
  exact test now t interval positive

/-- A policy is triggered by the signals it was made of. -/
theorem Freshness.triggersOn_of (interval : Duration) (signals : List Signal) (s : Signal) :
    (Freshness.of interval signals).triggersOn s = decide (s ∈ signals) := by
  rw [Freshness.triggersOn, Freshness.of, List.contains_eq_mem]
  exact decide_eq_decide.mpr List.mem_eraseDups

/-- There is no deadline before the first success, and none at all if every value is stale at once. -/
theorem Staleness.deadline_eq_unset_iff {s : Staleness} :
    s.deadline = .unset ↔ s.lastSuccess = none ∨ s.freshness.interval = 0 := by
  unfold deadline
  by_cases always : s.freshness.interval = 0
  · simp [always]
  · rw [if_neg always]
    cases s.lastSuccess with
    | none => simp
    | some t => cases later : t.later? s.freshness.interval <;> simp [later, always]

/-- The deadline is the last success and the interval on top, if the clock can name it. -/
theorem Staleness.deadline_eq_due {s : Staleness} {t : Instant} (last : s.lastSuccess = some t)
    (positive : 0 < s.freshness.interval) (named : t + (s.freshness.interval : Instant) < Instant.horizon) :
    s.deadline = .due (t + s.freshness.interval) := by
  rw [deadline, if_neg (Nat.ne_of_gt positive), last]
  simp only [Instant.later?_eq named]

namespace Simulation

/-! ## §2. What a history says by itself. -/

namespace Entry

/-- How much time passes with an entry. -/
def passes : Entry → Duration
  | .advance d => d
  | _ => 0

/-- The instant an entry made at `now` records a success for. -/
def success? (now : Instant) : Entry → Option Instant
  | .success => some now
  | .successAgo d => some (now - d)
  | .successAhead d => some (now + d)
  | _ => none

/-- Whether an entry records a success. -/
def isSuccess : Entry → Bool
  | .success | .successAgo _ | .successAhead _ => true
  | _ => false

/-- Whether an entry makes the value due, if the policy is triggered by `signals`. -/
def isTrigger (signals : List Signal) : Entry → Bool
  | .flush => true
  | .observe s => decide (s ∈ signals)
  | _ => false

/-- The notice an entry sends, if the policy is triggered by `signals`. -/
def notice? (signals : List Signal) : Entry → Option Notice
  | .success | .successAgo _ | .successAhead _ => some .reschedule
  | .flush => some .flush
  | .observe s => if s ∈ signals then some .refresh else none
  | _ => none

end Entry

/-- The clock after a history that begins at `now`. -/
def clock (now : Instant) : List Entry → Instant
  | [] => now
  | e :: rest => clock (now + e.passes) rest

/-- The instants that the entries of a history record successes for, the first of them made at `now`. -/
def successes (now : Instant) : List Entry → List Instant
  | [] => []
  | e :: rest => (e.success? now).toList ++ successes (now + e.passes) rest

/-- The instant that the last success of a history was recorded for. -/
def lastSuccess? (history : List Entry) : Option Instant := (successes 0 history).getLast?

/-- What came after the last success of a history; all of it, if there was none. -/
def sinceSuccess (history : List Entry) : List Entry := history.rtakeWhile (!·.isSuccess)

theorem clock_concat (now : Instant) (history : List Entry) (e : Entry) :
    clock now (history ++ [e]) = clock now history + e.passes := by
  induction history generalizing now with
  | nil => rfl
  | cons first rest ih => exact ih _

theorem successes_concat (now : Instant) (history : List Entry) (e : Entry) :
    successes now (history ++ [e])
      = successes now history ++ (e.success? (clock now history)).toList := by
  induction history generalizing now with
  | nil => exact List.append_nil _
  | cons first rest ih =>
      show _ ++ successes _ (rest ++ [e]) = _
      rw [ih, ← List.append_assoc]
      rfl

/-- The last success is the one of the newest entry, if that records one. -/
theorem lastSuccess?_concat (history : List Entry) (e : Entry) :
    lastSuccess? (history ++ [e]) = (e.success? (clock 0 history)).or (lastSuccess? history) := by
  rw [lastSuccess?, successes_concat, List.getLast?_append]
  cases e.success? (clock 0 history) <;> rfl

theorem sinceSuccess_concat (history : List Entry) (e : Entry) :
    sinceSuccess (history ++ [e]) = if e.isSuccess then [] else sinceSuccess history ++ [e] := by
  rw [sinceSuccess, List.rtakeWhile_concat]
  cases e.isSuccess <;> rfl

/-! ## §3. The book agrees with its history. -/

/-- The notices that a result hands out. -/
def EntryResult.handed : EntryResult → List Notice
  | .notices ns => ns
  | _ => []

namespace Book

/-- The book after a list of entries. -/
def entered (b : Book) (entries : List Entry) : Book := entries.foldl (fun b e => (b.enter e).1) b

/-- The notices that are handed out on the way through a list of entries. -/
def handed (b : Book) : List Entry → List Notice
  | [] => []
  | e :: rest => (b.enter e).2.handed ++ (b.enter e).1.handed rest

/-- The book, kept under a policy of that interval and those signals, agrees with a history about all that
decides whether a value is due. -/
structure Recalls (interval : Duration) (signals : List Signal) (history : List Entry) (b : Book) :
    Prop where
  freshness : b.staleness.freshness = .of interval signals
  now : b.now = clock 0 history
  last : b.staleness.lastSuccess = lastSuccess? history
  /-- A trigger is pending if one of the entries since the last success was one. -/
  pending : b.staleness.isPending = (sinceSuccess history).any (·.isTrigger signals)

variable {interval : Duration} {signals : List Signal} {history : List Entry} {b : Book}

/-- Nobody has written into a new book, and nothing has happened. -/
theorem Recalls.new (interval : Duration) (signals : List Signal) :
    Recalls interval signals [] (Book.new (.of interval signals)) where
  freshness := rfl
  now := rfl
  last := rfl
  pending := rfl

theorem enter_now (b : Book) (e : Entry) : (b.enter e).1.now = b.now + e.passes := by
  cases e <;> first | rfl | exact (Int.add_zero _).symm

/-- A success is all that a successful entry writes down. -/
theorem enter_recorded {e : Entry} {t : Instant} (records : e.success? b.now = some t) :
    e.isSuccess = true ∧ (b.enter e).1.staleness = b.staleness.recordSuccess t := by
  cases e with
  | success | successAgo | successAhead =>
      cases records
      exact ⟨rfl, rfl⟩
  | advance | flush | observe | drain | deafen => cases records

/-- An entry that records no success leaves the last one alone, and may be a trigger. -/
theorem enter_unrecorded (freshness : b.staleness.freshness = .of interval signals) {e : Entry}
    (unrecorded : e.success? b.now = none) :
    e.isSuccess = false ∧ b.staleness.Continues (e.isTrigger signals) (b.enter e).1.staleness := by
  cases e with
  | success | successAgo | successAhead => cases unrecorded
  | flush => exact ⟨rfl, b.staleness.continues_forceFlush⟩
  | observe s =>
      have continues := b.staleness.continues_observe s
      rw [freshness, Freshness.triggersOn_of] at continues
      exact ⟨rfl, continues⟩
  | advance | drain | deafen => exact ⟨rfl, .of_frame rfl rfl rfl rfl⟩

/-- The book still agrees after one more entry. -/
theorem Recalls.enter (h : Recalls interval signals history b) (e : Entry) :
    Recalls interval signals (history ++ [e]) (b.enter e).1 := by
  have now : (b.enter e).1.now = clock 0 (history ++ [e]) := by rw [enter_now, h.now, clock_concat]
  have last : lastSuccess? (history ++ [e]) = (e.success? b.now).or (lastSuccess? history) := by
    rw [lastSuccess?_concat, h.now]
  cases records : e.success? b.now with
  | some t =>
      obtain ⟨isSuccess, written⟩ := enter_recorded records
      obtain ⟨freshness, recorded, settled⟩ := b.staleness.recordSuccess_frame t
      refine ⟨?_, now, ?_, ?_⟩
      · rw [written, freshness, h.freshness]
      · rw [written, recorded, last, records, Option.some_or]
      · rw [written, settled, sinceSuccess_concat, if_pos isSuccess, List.any_nil]
  | none =>
      obtain ⟨noSuccess, continues⟩ := enter_unrecorded h.freshness records
      refine ⟨continues.freshness.trans h.freshness, now, ?_, ?_⟩
      · rw [continues.lastSuccess, h.last, last, records, Option.none_or]
      · rw [continues.isPending, h.pending, sinceSuccess_concat, noSuccess]
        simp

/-- **The book agrees with its history** after any list of entries. -/
theorem Recalls.entered (h : Recalls interval signals history b) (entries : List Entry) :
    Recalls interval signals (history ++ entries) (b.entered entries) := by
  induction entries generalizing history b with
  | nil =>
      rw [List.append_nil]
      exact h
  | cons e rest ih =>
      have one := ih (h.enter e)
      rw [List.append_assoc] at one
      exact one

/-- A book that agrees with a history holds a due value if there was no success, if the last one has
reached the interval, or if a trigger came since. -/
theorem Recalls.isDue_iff (h : Recalls interval signals history b) :
    b.staleness.isDue b.now = true ↔
      lastSuccess? history = none
        ∨ (∃ t, lastSuccess? history = some t ∧ interval ≤ (clock 0 history).age t)
        ∨ ∃ e ∈ sinceSuccess history, e.isTrigger signals = true := by
  have terms : b.staleness.freshness.interval = interval := by rw [h.freshness, Freshness.of]
  rw [Staleness.isDue_eq, h.pending, Staleness.isAged, h.last, terms, h.now, Bool.or_eq_true,
    List.any_eq_true]
  cases lastSuccess? history with
  | none => simp
  | some t => simp [or_comm]

/-! ## §4. The notices that go out. -/

/-- Somebody who listens finds the notice of an entry behind those that waited, unless they were handed out. -/
theorem Recalls.enter_notices (h : Recalls interval signals history b)
    (listening : b.staleness.listening = true) {e : Entry} (hears : e ≠ .deafen) :
    (b.enter e).1.staleness.listening = true
      ∧ (b.enter e).2.handed ++ (b.enter e).1.staleness.notices
        = b.staleness.notices ++ (e.notice? signals).toList := by
  have sent (s : Staleness) (n : Notice) (h : s.listening = true) :
      (s.notify n).listening = true ∧ (s.notify n).notices = s.notices ++ [n] := by
    rw [Staleness.notify, if_pos h]
    exact ⟨h, rfl⟩
  cases e with
  | advance => exact ⟨listening, (List.append_nil _).symm⟩
  | drain => exact ⟨listening, rfl⟩
  | success | successAgo | successAhead | flush => exact sent _ _ listening
  | observe s =>
      have accepts : b.staleness.freshness.triggersOn s = decide (s ∈ signals) := by
        rw [h.freshness, Freshness.triggersOn_of]
      by_cases triggers : s ∈ signals
      · simpa [Book.enter, Staleness.observe, Entry.notice?, accepts, triggers, EntryResult.handed] using
          sent { b.staleness with signalPending := true } .refresh listening
      · simp [Book.enter, Staleness.observe, Entry.notice?, accepts, triggers, EntryResult.handed,
          listening]
  | deafen => exact absurd rfl hears

/-- **The notices go out in the order of the entries that send them**, each exactly once. -/
theorem Recalls.notices (h : Recalls interval signals history b)
    (listening : b.staleness.listening = true) {entries : List Entry} (hears : .deafen ∉ entries) :
    b.handed entries ++ (b.entered entries).staleness.notices
      = b.staleness.notices ++ entries.filterMap (·.notice? signals) := by
  induction entries generalizing history b with
  | nil => exact (List.append_nil _).symm
  | cons e rest ih =>
      have first : e ≠ .deafen := fun same => hears (same ▸ List.mem_cons_self)
      obtain ⟨listens, notices⟩ := h.enter_notices listening first
      have later := ih (h.enter e) listens (fun mem => hears (List.mem_cons_of_mem _ mem))
      have sent : (e :: rest).filterMap (·.notice? signals)
          = (e.notice? signals).toList ++ rest.filterMap (·.notice? signals) := by
        rw [List.filterMap_cons]
        cases e.notice? signals <;> rfl
      calc (b.enter e).2.handed ++ (b.enter e).1.handed rest
            ++ ((b.enter e).1.entered rest).staleness.notices
          = (b.enter e).2.handed ++ (b.enter e).1.staleness.notices
              ++ rest.filterMap (·.notice? signals) := by
            rw [List.append_assoc, later, List.append_assoc]
        _ = b.staleness.notices ++ (e :: rest).filterMap (·.notice? signals) := by
            rw [notices, List.append_assoc, sent]

/-! ## §5. The book is its history. -/

/-- **The book is its history.**  Whatever is entered, in whichever order: a value is due exactly if
there was no success yet, if the last one has reached the interval (none has an age before its instant), or if
a flush or one of the policy's signals came after it; an observer is told whether the signal is one of
the policy's; the notices that were handed out and those that wait are those that the entries send, in
order; the deadline is unset without a success or an interval, and otherwise lies the interval after the
last success, where the test of age turns, unless that is beyond the clock. -/
theorem tells_history (interval : Duration) (signals : List Signal) (entries : List Entry) :
    let new := Book.new (.of interval signals)
    let b := new.entered entries
    let last := lastSuccess? entries
    let since := sinceSuccess entries
    b.now = clock 0 entries
      ∧ (b.staleness.isDue b.now = true ↔ last = none
          ∨ (∃ t, last = some t ∧ interval ≤ b.now.age t)
          ∨ .flush ∈ since ∨ ∃ s ∈ signals, .observe s ∈ since)
      ∧ (∀ s, (b.enter (.observe s)).2 = .truth (decide (s ∈ signals)))
      ∧ (.deafen ∉ entries →
          new.handed entries ++ b.staleness.notices = entries.filterMap (·.notice? signals))
      ∧ (b.staleness.deadline = .unset ↔ last = none ∨ interval = 0)
      ∧ ∀ t, last = some t → 0 < interval → t + (interval : Instant) < Instant.horizon →
          b.staleness.deadline = .due (t + interval)
            ∧ (interval ≤ b.now.age t ↔ t + interval ≤ b.now) := by
  intro new b last since
  have h : Recalls interval signals entries b := (Recalls.new interval signals).entered entries
  have terms : b.staleness.freshness.interval = interval := by rw [h.freshness, Freshness.of]
  refine ⟨h.now, ?_, fun s => ?_, ?_, ?_, fun t lastAt positive named => ⟨?_, ?_⟩⟩
  · have triggered : (∃ e ∈ since, e.isTrigger signals = true)
        ↔ .flush ∈ since ∨ ∃ s ∈ signals, .observe s ∈ since := by
      constructor
      · rintro ⟨e, mem, trigger⟩
        cases e with
        | flush => exact Or.inl mem
        | observe s => exact Or.inr ⟨s, of_decide_eq_true trigger, mem⟩
        | advance | success | successAgo | successAhead | drain | deafen => cases trigger
      · rintro (mem | ⟨s, trigger, mem⟩)
        · exact ⟨_, mem, rfl⟩
        · exact ⟨_, mem, decide_eq_true trigger⟩
    rw [h.isDue_iff, triggered, h.now]
  · have accepts : b.staleness.freshness.triggersOn s = decide (s ∈ signals) := by
      rw [h.freshness, Freshness.triggersOn_of]
    rw [← accepts]
    cases triggers : b.staleness.freshness.triggersOn s <;> simp [Book.enter, Staleness.observe, triggers]
  · exact fun hears => (Recalls.new interval signals).notices rfl hears
  · rw [Staleness.deadline_eq_unset_iff, h.last, terms]
  · rw [Staleness.deadline_eq_due (h.last.trans lastAt) (terms.symm ▸ positive) (terms.symm ▸ named),
      terms]
  · exact Instant.age_le_iff positive

/-- A signal of the policy between two successes, one that is none of its own, and a flush after them. -/
def loginThenFlush : List Entry :=
  [.observe .loggedIn, .success, .advance 5, .observe .foreground, .observe .loggedIn, .drain,
    .successAgo 2, .advance 3, .flush]

/-- After the second success, recorded for the instant 3, the value turns stale at 13; it is due at 8
already, since a flush was asked for. -/
theorem tells_history_loginThenFlush :
    let new := Book.new (.of 10 [.loggedIn, .loggedIn])
    let b := new.entered loginThenFlush
    b.now = 8 ∧ b.staleness.isDue b.now = true
      ∧ (b.enter (.observe .foreground)).2 = .truth false
      ∧ new.handed loginThenFlush ++ b.staleness.notices
        = [.refresh, .reschedule, .refresh, .reschedule, .flush]
      ∧ b.staleness.deadline = .due 13 ∧ ¬10 ≤ b.now.age 3 := by
  obtain ⟨now, due, observed, sent, unset, deadline⟩ :=
    tells_history 10 [.loggedIn, .loggedIn] loginThenFlush
  obtain ⟨at13, ages⟩ := deadline 3 (by decide) (by decide) (by decide)
  refine ⟨now.trans (by decide), due.mpr (Or.inr (Or.inr (Or.inl (by decide)))), observed .foreground,
    (sent (by decide)).trans (by decide), at13, ?_⟩
  rw [ages, now]
  decide

end Book

end Simulation

end SingleFlight
