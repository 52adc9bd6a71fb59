/-
  SingleFlight.Proofs.Overlap — fetches of the remote that overlap.

  Many may fetch from the remote at a time, and it may fail and recover while
  they are on their way.  An `Event` is one thing that happens then, and a run
  is a list of events.  The clock never passes the end of a fetch, so whoever
  is due ends before time goes on; but what happens at one instant may happen
  in any order, so two fetches that are due at one instant may end in either
  order.  `Remote.pass` is one such run: there timers of one instant fire in the
  order in which they were set, and the fetches end in the order of their
  numbers.

  Everything rests on one invariant, `Orderly`: the fetches on their way stand
  in the order of their numbers and of their ends, and none of these has
  passed.

  Main results:
    * `Orderly.after` — every event keeps the order.
    * `Orderly.fate` — a fetch stays on its way, or ends when its time has come.
    * `Orderly.passes` — to let time pass is a run.
    * `Orderly.performs` — so is whatever is done to a remote.
    * `overlap` — numbers, times and outcomes of all fetches.
-/
import Mathlib.Data.List.Pairwise
import SingleFlight.Proofs.Running
import SingleFlight.Service.Quote

namespace SingleFlight.Service

namespace Remote

/-! ## §1. Events and runs. -/

/-- One thing that happens to a remote. -/
inductive Event where
  /-- Somebody starts a fetch. -/
  | fetch (name : String)
  /-- The remote fails from now on, or recovers. -/
  | setFailing (isFailing : Bool)
  /-- The fetch of this number ends, if its time has come. -/
  | finish (number : Nat)
  /-- Time passes, but no further than to the end of a fetch on its way. -/
  | wait (d : Duration)
  deriving DecidableEq, Repr, Inhabited

namespace Event

/-- Whether a fetch starts. -/
def isFetch : Event → Bool
  | fetch _ => true
  | _ => false

/-- Whether all that happens is that time passes and fetches end. -/
def isWaiting : Event → Bool
  | finish _ | wait _ => true
  | _ => false

end Event

/-- The fetch that ends with an event, if one does. -/
def ended? (r : Remote) : Event → Option Errand
  | .finish number => r.errands.find? fun e => e.number == number && e.due ≤ r.now
  | _ => none

/-- The remote after an event. -/
def after (r : Remote) : Event → Remote
  | .fetch name => r.start name
  | .setFailing isFailing => r.setFailing isFailing
  | .finish number =>
    match r.ended? (.finish number) with
    | some e => { r with errands := r.errands.erase e }
    | none => r
  | .wait d => if r.errands.all fun e => r.now + d ≤ e.due then { r with now := r.now + d } else r

/-- The remote after a list of events. -/
def run (r : Remote) (events : List Event) : Remote := events.foldl after r

/-- The fetches that end along a run, oldest first. -/
def ends (r : Remote) : List Event → List Errand
  | [] => []
  | x :: events => (r.ended? x).toList ++ (r.after x).ends events

/-- What those who fetch are told along a run, oldest first. -/
def told (r : Remote) : List Event → List (Completion (Outcome (Quote Instant)))
  | [] => []
  | x :: events => ((r.ended? x).map r.conclude).toList ++ (r.after x).told events

/-- Whether whoever ends has always been on its way for longest. -/
def inTurn : Remote → List Event → Bool
  | _, [] => true
  | r, x :: events => (r.ended? x).all (r.errands.head? == some ·) && (r.after x).inTurn events

theorem run_cons (r : Remote) (x : Event) (events : List Event) :
    r.run (x :: events) = (r.after x).run events := rfl

theorem run_append (r : Remote) (events more : List Event) :
    r.run (events ++ more) = (r.run events).run more := by
  unfold run
  exact List.foldl_append

theorem ends_append (r : Remote) (events more : List Event) :
    r.ends (events ++ more) = r.ends events ++ (r.run events).ends more := by
  induction events generalizing r with
  | nil => rfl
  | cons x events ih =>
      show (r.ended? x).toList ++ (r.after x).ends (events ++ more) = _
      rw [ih, ← List.append_assoc]
      rfl

theorem told_append (r : Remote) (events more : List Event) :
    r.told (events ++ more) = r.told events ++ (r.run events).told more := by
  induction events generalizing r with
  | nil => rfl
  | cons x events ih =>
      show ((r.ended? x).map r.conclude).toList ++ (r.after x).told (events ++ more) = _
      rw [ih, ← List.append_assoc]
      rfl

theorem inTurn_append {r : Remote} {events more : List Event} :
    r.inTurn (events ++ more) = true ↔ r.inTurn events = true ∧ (r.run events).inTurn more = true := by
  induction events generalizing r with
  | nil => exact (and_iff_right rfl).symm
  | cons x events ih => simp only [List.cons_append, inTurn, Bool.and_eq_true, ih, run_cons, and_assoc]

/-- Only a fetch whose time has come ends. -/
theorem ended?_eq_some {r : Remote} {x : Event} {e : Errand} (h : r.ended? x = some e) :
    x = .finish e.number ∧ e ∈ r.errands ∧ e.due ≤ r.now := by
  cases x with
  | finish number =>
      have found := List.find?_some h
      have listed := List.mem_of_find?_eq_some h
      simp only [Bool.and_eq_true, beq_iff_eq, decide_eq_true_eq] at found
      exact ⟨by rw [found.1], listed, found.2⟩
  | fetch | setFailing | wait => cases h

/-- Whoever ends leaves the others on their way. -/
theorem after_ended {r : Remote} {x : Event} {e : Errand} (h : r.ended? x = some e) :
    r.after x = { r with errands := r.errands.erase e } := by
  obtain ⟨rfl, _⟩ := ended?_eq_some h
  simp only [after, h]

/-- Time passes up to the first end. -/
theorem after_wait {r : Remote} {d : Duration} (h : ∀ e ∈ r.errands, r.now + d ≤ e.due) :
    r.after (.wait d) = { r with now := r.now + d } :=
  if_pos (by simpa using h)

/-- What an event makes of a remote: a fetch starts, or one ends, or none does either. -/
theorem after_cases (r : Remote) (x : Event) :
    (∃ name, x = .fetch name ∧ r.after x = r.start name)
      ∨ (∃ e, r.ended? x = some e ∧ r.after x = { r with errands := r.errands.erase e })
      ∨ (x.isFetch = false ∧ r.ended? x = none ∧ (r.after x).latency = r.latency
          ∧ (r.after x).count = r.count ∧ (r.after x).errands = r.errands
          ∧ r.now ≤ (r.after x).now
          ∧ ∀ e ∈ r.errands, r.now ≤ e.due → (r.after x).now ≤ e.due) := by
  cases x with
  | fetch name => exact Or.inl ⟨name, rfl, rfl⟩
  | setFailing isFailing =>
      exact Or.inr (Or.inr ⟨rfl, rfl, rfl, rfl, rfl, Int.le_refl _, fun _ _ => id⟩)
  | finish number =>
      cases h : r.ended? (.finish number) with
      | some e => exact Or.inr (Or.inl ⟨e, rfl, after_ended h⟩)
      | none =>
          have same : r.after (.finish number) = r := by simp only [after, h]
          rw [same]
          exact Or.inr (Or.inr ⟨rfl, rfl, rfl, rfl, rfl, Int.le_refl _, fun _ _ => id⟩)
  | wait d =>
      refine Or.inr (Or.inr ?_)
      by_cases h : ∀ e ∈ r.errands, r.now + d ≤ e.due
      · rw [after_wait h]
        exact ⟨rfl, rfl, rfl, rfl, rfl, r.now.le_add d, fun e he _ => h e he⟩
      · have same : r.after (.wait d) = r := if_neg (by simpa using h)
        rw [same]
        exact ⟨rfl, rfl, rfl, rfl, rfl, Int.le_refl _, fun _ _ => id⟩

/-- The latency is that of the remote. -/
theorem latency_run (r : Remote) (events : List Event) : (r.run events).latency = r.latency := by
  induction events generalizing r with
  | nil => rfl
  | cons x events ih =>
      rw [run_cons, ih]
      rcases r.after_cases x with ⟨name, _, started⟩ | ⟨e, _, left⟩ | ⟨_, _, same, _⟩
      · rw [started]
        rfl
      · rw [left]
      · exact same

/-- Every fetch that starts is counted, and nothing else is. -/
theorem count_run (r : Remote) (events : List Event) :
    (r.run events).count = r.count + events.countP Event.isFetch := by
  induction events generalizing r with
  | nil => rfl
  | cons x events ih =>
      have step : (r.after x).count = r.count + if x.isFetch then 1 else 0 := by
        rcases r.after_cases x with ⟨name, rfl, started⟩ | ⟨e, ended, left⟩ | ⟨other, _, _, same, _⟩
        · rw [started]
          rfl
        · rw [(ended?_eq_some ended).1] at left ⊢
          rw [left]
          rfl
        · rw [same, if_neg (by simp [other])]
          rfl
      rw [run_cons, ih, step, List.countP_cons]
      omega

/-- Who started is on the way or has ended. -/
theorem balance_run (r : Remote) (events : List Event) :
    (r.run events).errands.length + (r.ends events).length
      = r.errands.length + events.countP Event.isFetch := by
  induction events generalizing r with
  | nil => rfl
  | cons x events ih =>
      have step : (r.after x).errands.length + (r.ended? x).toList.length
          = r.errands.length + if x.isFetch then 1 else 0 := by
        rcases r.after_cases x with ⟨name, rfl, started⟩ | ⟨e, ended, left⟩
          | ⟨other, none, _, _, same, _⟩
        · rw [started]
          simp [start, ended?, Event.isFetch]
        · obtain ⟨own, listed, _⟩ := ended?_eq_some ended
          have shorter := List.length_erase_of_mem listed
          have positive := List.length_pos_of_mem listed
          rw [left, ended, own]
          simp [Event.isFetch]
          omega
        · rw [same, none, if_neg (by simp [other])]
          rfl
      have rest := ih (r.after x)
      show _ + ((r.ended? x).toList ++ (r.after x).ends events).length = _
      rw [run_cons, List.length_append, List.countP_cons]
      omega

/-! ## §2. The order of the fetches. -/

/-- The fetches on their way stand in the order of their numbers and of their ends, and none of these
has passed. -/
structure Orderly (r : Remote) : Prop where
  numbers : r.errands.Pairwise (·.number < ·.number)
  known : ∀ e ∈ r.errands, e.number ≤ r.count
  ahead : ∀ e ∈ r.errands, r.now ≤ e.due
  within : ∀ e ∈ r.errands, e.due ≤ r.now + r.latency
  dues : r.errands.Pairwise (·.due ≤ ·.due)

theorem orderly_new (latency : Duration) : Orderly { latency } where
  numbers := .nil
  known := nofun
  ahead := nofun
  within := nofun
  dues := .nil

variable {r : Remote}

/-- **Every event keeps the order.** -/
theorem Orderly.after (h : Orderly r) (x : Event) : Orderly (r.after x) := by
  rcases r.after_cases x with ⟨name, rfl, started⟩ | ⟨e, _, left⟩
    | ⟨_, _, latency, count, errands, later, still⟩
  · rw [started]
    -- the new one has the highest number, and is due last
    have new {f : Errand} (hf : f ∈ (r.start name).errands) :
        f ∈ r.errands ∨ f = ⟨name, r.count + 1, r.now + r.latency⟩ := by
      simpa [start] using hf
    refine ⟨?_, fun f hf => ?_, fun f hf => ?_, fun f hf => ?_, ?_⟩
    · refine List.pairwise_append.mpr ⟨h.numbers, List.pairwise_singleton _ _, ?_⟩
      intro f hf g hg
      rw [List.mem_singleton.mp hg]
      exact Nat.lt_succ_of_le (h.known f hf)
    · show f.number ≤ r.count + 1
      rcases new hf with old | rfl
      · exact Nat.le_succ_of_le (h.known f old)
      · exact Nat.le_refl _
    · show r.now ≤ f.due
      rcases new hf with old | rfl
      · exact h.ahead f old
      · exact r.now.le_add _
    · show f.due ≤ r.now + r.latency
      rcases new hf with old | rfl
      · exact h.within f old
      · exact Int.le_refl _
    · refine List.pairwise_append.mpr ⟨h.dues, List.pairwise_singleton _ _, ?_⟩
      intro f hf g hg
      rw [List.mem_singleton.mp hg]
      exact h.within f hf
  · rw [left]
    have sub : (r.errands.erase e).Sublist r.errands := List.erase_sublist
    exact ⟨h.numbers.sublist sub, fun f hf => h.known f (sub.subset hf),
      fun f hf => h.ahead f (sub.subset hf), fun f hf => h.within f (sub.subset hf),
      h.dues.sublist sub⟩
  · refine ⟨errands ▸ h.numbers, ?_, ?_, ?_, errands ▸ h.dues⟩
    · rw [errands, count]
      exact h.known
    · rw [errands]
      intro f hf
      exact still f hf (h.ahead f hf)
    · rw [errands, latency]
      intro f hf
      exact Int.le_trans (h.within f hf) (Int.add_le_add_right later _)

theorem Orderly.run (h : Orderly r) (events : List Event) : Orderly (r.run events) := by
  induction events generalizing r with
  | nil => exact h
  | cons x events ih => exact ih (h.after x)

/-- No fetch is on its way twice. -/
theorem Orderly.nodup (h : Orderly r) : r.errands.Nodup :=
  h.numbers.imp fun less same => Nat.ne_of_lt less (congrArg Errand.number same)

/-- Whoever does not end stays on the way. -/
theorem mem_after {x : Event} {e : Errand} (he : e ∈ r.errands) (stays : r.ended? x ≠ some e) :
    e ∈ (r.after x).errands := by
  rcases r.after_cases x with ⟨name, _, started⟩ | ⟨f, ended, left⟩ | ⟨_, _, _, _, same, _⟩
  · rw [started]
    exact List.mem_append_left _ he
  · rw [left]
    refine (List.mem_erase_of_ne ?_).mpr he
    rintro rfl
    exact stays ended
  · rw [same]
    exact he

/-- **A fetch stays on its way, or ends when its time has come.** -/
theorem Orderly.fate (h : Orderly r) {e : Errand} (he : e ∈ r.errands) (events : List Event) :
    (e ∈ (r.run events).errands ∧ e ∉ r.ends events)
      ∨ ∃ mid rest, events = mid ++ .finish e.number :: rest ∧ (r.run mid).now = e.due
          ∧ (r.run mid).ended? (.finish e.number) = some e := by
  induction events generalizing r with
  | nil => exact Or.inl ⟨he, List.not_mem_nil⟩
  | cons x events ih =>
      by_cases ended : r.ended? x = some e
      · obtain ⟨rfl, _, due⟩ := ended?_eq_some ended
        exact Or.inr ⟨[], events, rfl, Int.le_antisymm (h.ahead e he) due, ended⟩
      · rcases ih (h.after x) (mem_after he ended) with ⟨listed, unended⟩ | ⟨mid, rest, rfl, at_end⟩
        · refine Or.inl ⟨listed, ?_⟩
          intro among
          rcases List.mem_append.mp among with now | later
          · exact ended (Option.mem_toList.mp now)
          · exact unended later
        · exact Or.inr ⟨x :: mid, rest, rfl, at_end⟩

/-- Whoever ends with a run was on the way before it, or started with it: with a higher number, and to be
due no earlier than anybody before. -/
theorem mem_ends {events : List Event} {e : Errand} (he : e ∈ r.ends events) :
    e ∈ r.errands ∨ (r.count < e.number ∧ r.now + r.latency ≤ e.due) := by
  induction events generalizing r with
  | nil => exact absurd he List.not_mem_nil
  | cons x events ih =>
      rcases List.mem_append.mp he with now | later
      · exact Or.inl (ended?_eq_some (Option.mem_toList.mp now)).2.1
      · rcases r.after_cases x with ⟨name, _, started⟩ | ⟨f, _, left⟩
          | ⟨_, _, latency, count, errands, time, _⟩
        · rcases ih later with listed | ⟨newer, beyond⟩
          · rw [started] at listed
            rcases List.mem_append.mp listed with old | new
            · exact Or.inl old
            · rw [List.mem_singleton.mp new]
              exact Or.inr ⟨Nat.lt_succ_self _, Int.le_refl _⟩
          · rw [started] at newer beyond
            exact Or.inr ⟨Nat.lt_of_succ_lt newer, beyond⟩
        · have before := ih later
          rw [left] at before
          exact before.imp_left List.mem_of_mem_erase
        · have before := ih later
          rw [latency, count, errands] at before
          refine before.imp_right fun ⟨newer, beyond⟩ => ⟨newer, ?_⟩
          exact Int.le_trans (Int.add_le_add_right time _) beyond

/-- Whoever ends has been counted. -/
theorem Orderly.counted (h : Orderly r) {events : List Event} {e : Errand} (he : e ∈ r.ends events) :
    e.number ≤ (r.run events).count := by
  induction events generalizing r with
  | nil => exact absurd he List.not_mem_nil
  | cons x events ih =>
      rcases List.mem_append.mp he with now | later
      · have known := h.known e (ended?_eq_some (Option.mem_toList.mp now)).2.1
        rw [count_run]
        exact Nat.le_trans known (Nat.le_add_right _ _)
      · exact ih (h.after x) later

/-- Of two fetches on their way, one has the lower number and is due no later than the other. -/
theorem Orderly.apart (h : Orderly r) {e f : Errand} (he : e ∈ r.errands) (hf : f ∈ r.errands)
    (other : e ≠ f) :
    (e.number < f.number ∧ e.due ≤ f.due) ∨ (f.number < e.number ∧ f.due ≤ e.due) := by
  have ordered : r.errands.Pairwise fun a b =>
      (a.number < b.number ∧ a.due ≤ b.due) ∨ (b.number < a.number ∧ b.due ≤ a.due) :=
    (h.numbers.and h.dues).imp Or.inl
  have symmetric : Std.Symm fun a b : Errand =>
      (a.number < b.number ∧ a.due ≤ b.due) ∨ (b.number < a.number ∧ b.due ≤ a.due) :=
    ⟨fun _ _ => Or.symm⟩
  exact ordered.forall he hf other

/-- Who ends first does not end again, is due no later than who ends next, and has the lower number unless
both are due at one instant. -/
theorem Orderly.ends_in_order (h : Orderly r) (events : List Event) :
    (r.ends events).Pairwise fun e f =>
      e.number ≠ f.number ∧ e.due ≤ f.due ∧ (e.number < f.number ∨ e.due = f.due) := by
  induction events generalizing r with
  | nil => exact .nil
  | cons x events ih =>
      show ((r.ended? x).toList ++ (r.after x).ends events).Pairwise _
      cases ended : r.ended? x with
      | none => exact ih (h.after x)
      | some e =>
          refine List.pairwise_cons.mpr ⟨?_, ih (h.after x)⟩
          intro f hf
          obtain ⟨_, listed, due⟩ := ended?_eq_some ended
          have since := mem_ends hf
          rw [after_ended ended] at since
          rcases since with spared | ⟨newer, beyond⟩
          · obtain ⟨other, before⟩ := h.nodup.mem_erase_iff.mp spared
            -- time stands still until it has ended, and the other may be due by then
            have now : e.due ≤ f.due := Int.le_trans due (h.ahead f before)
            rcases h.apart listed before (Ne.symm other) with ⟨less, _⟩ | ⟨greater, back⟩
            · exact ⟨Nat.ne_of_lt less, now, Or.inl less⟩
            · exact ⟨Nat.ne_of_gt greater, now, Or.inr (Int.le_antisymm now back)⟩
          · have less : e.number < f.number := Nat.lt_of_le_of_lt (h.known e listed) newer
            exact ⟨Nat.ne_of_lt less, Int.le_trans (h.within e listed) beyond, Or.inl less⟩

/-- Where all end in turn, they end in the order of their numbers. -/
theorem Orderly.ends_in_turn (h : Orderly r) {events : List Event}
    (turn : r.inTurn events = true) :
    (r.ends events).Pairwise (·.number < ·.number) := by
  induction events generalizing r with
  | nil => exact .nil
  | cons x events ih =>
      obtain ⟨first, turn⟩ := Bool.and_eq_true_iff.mp turn
      show ((r.ended? x).toList ++ (r.after x).ends events).Pairwise _
      cases ended : r.ended? x with
      | none => exact ih (h.after x) turn
      | some e =>
          refine List.pairwise_cons.mpr ⟨?_, ih (h.after x) turn⟩
          intro f hf
          rw [ended] at first
          obtain ⟨rest, errands⟩ := List.head?_eq_some_iff.mp (eq_of_beq first)
          have sorted := h.numbers
          rw [errands] at sorted
          have since := mem_ends hf
          rw [after_ended ended, errands, List.erase_cons_head] at since
          rcases since with spared | ⟨newer, _⟩
          · exact (List.pairwise_cons.mp sorted).1 f spared
          · exact Nat.lt_of_le_of_lt (h.known e (ended?_eq_some ended).2.1) newer

/-! ## §3. Time passes. -/

/-- The oldest fetch ends when the clock has come to its end. -/
theorem ended?_head {e : Errand} {rest : List Errand} (errands : r.errands = e :: rest)
    (due : e.due ≤ r.now) : r.ended? (.finish e.number) = some e := by
  simp [ended?, errands, due]

/-- Who waits while nobody is due sees nobody end. -/
theorem pass_of_none_due {d : Duration} (none : ∀ e ∈ r.errands, r.now + d < e.due) :
    r.pass d = ({ r with now := r.now + d }, []) := by
  have stay : r.errands.filter (r.now + d < ·.due) = r.errands :=
    List.filter_eq_self.mpr fun e he => by simpa using none e he
  have due : r.errands.filter (·.due ≤ r.now + d) = [] :=
    List.filter_eq_nil_iff.mpr fun e he => by simpa using none e he
  simp only [pass, stay, due, List.map_nil]

/-- Who waits past the end of the oldest fetch is told of it first. -/
theorem pass_cons {e : Errand} {rest : List Errand} (errands : r.errands = e :: rest) {d m : Duration}
    (due : e.due + m = r.now + d) :
    r.pass d = (({ r with now := e.due, errands := rest } : Remote).pass m).map id (r.conclude e :: ·) := by
  have past : e.due ≤ r.now + d := due ▸ e.due.le_add m
  simp [pass, errands, due, past, conclude]

/-- A run of the remote that lets time pass. -/
def IsPassing (r : Remote) (d : Duration) (events : List Event) : Prop :=
  events.all Event.isWaiting = true ∧ r.inTurn events = true ∧ r.run events = (r.pass d).1
    ∧ r.told events = (r.pass d).2

/-- Who waits while nobody is due waits without a stop. -/
theorem isPassing_of_none_due {d : Duration} (none : ∀ e ∈ r.errands, r.now + d < e.due) :
    r.IsPassing d [.wait d] := by
  refine ⟨rfl, rfl, ?_, ?_⟩
  · rw [pass_of_none_due none]
    exact after_wait fun e he => Int.le_of_lt (none e he)
  · rw [pass_of_none_due none]
    rfl

/-- **To let time pass is a run**, in which whoever is due ends in turn. -/
theorem Orderly.passes (h : Orderly r) (d : Duration) :
    ∃ events, r.IsPassing d events := by
  -- the clock goes from the end of one fetch to the end of the next
  induction errands : r.errands generalizing r d with
  | nil =>
      have free : ∀ e ∈ r.errands, r.now + d < e.due := by
        intro e he
        rw [errands] at he
        exact absurd he List.not_mem_nil
      exact ⟨_, isPassing_of_none_due free⟩
  | cons e rest ih =>
      have oldest : ∀ f ∈ r.errands, e.due ≤ f.due := by
        have sorted := h.dues
        rw [errands] at sorted ⊢
        intro f hf
        rcases List.mem_cons.mp hf with rfl | hf
        · exact Int.le_refl _
        · exact (List.pairwise_cons.mp sorted).1 f hf
      have ahead : r.now ≤ e.due := h.ahead e (by rw [errands]; exact List.mem_cons_self)
      by_cases due : e.due ≤ r.now + d
      · obtain ⟨k, hk⟩ := Int.le.dest ahead
        obtain ⟨m, hm⟩ := Int.le.dest due
        have reached : r.after (.wait k) = { r with now := e.due } := by
          rw [after_wait (d := k) fun f hf => hk ▸ oldest f hf]
          exact congrArg (fun t => { r with now := t }) hk
        have ended : (r.after (.wait k)).ended? (.finish e.number) = some e := by
          rw [reached]
          exact ended?_head errands (Int.le_refl _)
        have left : (r.after (.wait k)).after (.finish e.number)
            = { r with now := e.due, errands := rest } := by
          rw [after_ended ended, reached, errands, List.erase_cons_head]
        obtain ⟨events, waiting, turn, ran, told⟩ :=
          ih ((h.after (.wait k)).after (.finish e.number)) m (by rw [left])
        refine ⟨.wait k :: .finish e.number :: events, waiting, ?_, ?_, ?_⟩
        · show (_ && (((r.after (.wait k)).ended? (.finish e.number)).all _ && _)) = true
          rw [ended, turn, reached, errands]
          simp [ended?]
        · rw [pass_cons errands hm, ← left]
          exact ran
        · rw [pass_cons errands hm, ← left]
          show (((r.after (.wait k)).ended? (.finish e.number)).map _).toList ++ _ = _
          rw [ended, told, reached]
          rfl
      · exact ⟨_, isPassing_of_none_due fun f hf =>
          Int.lt_of_lt_of_le (Int.not_le.mp due) (oldest f hf)⟩

/-- What is done to a remote. -/
inductive Act where
  /-- Somebody starts a fetch. -/
  | fetch (name : String)
  /-- It is made to fail or to recover. -/
  | setFailing (isFailing : Bool)
  /-- Time passes, from the end of one fetch to the end of the next. -/
  | pass (d : Duration)
  deriving DecidableEq, Repr, Inhabited

/-- The remote after an act, and what those who fetch are told meanwhile. -/
def act (r : Remote) : Act → Remote × List (Completion (Outcome (Quote Instant)))
  | .fetch name => (r.start name, [])
  | .setFailing isFailing => (r.setFailing isFailing, [])
  | .pass d => r.pass d

/-- The remote after a list of acts, and what those who fetch are told, oldest first. -/
def perform (r : Remote) : List Act → Remote × List (Completion (Outcome (Quote Instant)))
  | [] => (r, [])
  | x :: acts => ((r.act x).1.perform acts).map id ((r.act x).2 ++ ·)

/-- An act is a run in which whoever is due ends in turn. -/
theorem Orderly.acts (h : Orderly r) (x : Act) :
    ∃ events, r.run events = (r.act x).1 ∧ r.told events = (r.act x).2 ∧ r.inTurn events = true := by
  cases x with
  | fetch name => exact ⟨[.fetch name], rfl, rfl, rfl⟩
  | setFailing isFailing => exact ⟨[.setFailing isFailing], rfl, rfl, rfl⟩
  | pass d =>
      obtain ⟨events, _, turn, ran, told⟩ := h.passes d
      exact ⟨events, ran, told, turn⟩

/-- **Whatever is done to a remote is a run** in which whoever is due ends in turn. -/
theorem Orderly.performs (h : Orderly r) (acts : List Act) :
    ∃ events, r.run events = (r.perform acts).1 ∧ r.told events = (r.perform acts).2
      ∧ r.inTurn events = true := by
  induction acts generalizing r with
  | nil => exact ⟨[], rfl, rfl, rfl⟩
  | cons x acts ih =>
      obtain ⟨events, ran, told, turn⟩ := h.acts x
      obtain ⟨more, ran', told', turn'⟩ := ih (ran ▸ h.run events)
      refine ⟨events ++ more, ?_, ?_, inTurn_append.mpr ⟨turn, ran ▸ turn'⟩⟩
      · rw [run_append, ran, ran']
        rfl
      · rw [told_append, told, ran, told']
        rfl

/-! ## §4. Fetches that overlap. -/

/-- Whoever ends is told its own outcome. -/
theorem told_run (r : Remote) (events : List Event) :
    List.Forall₂ (fun c e => ∃ isFailing, c = ⟨e.name, e.due, fetchOutcome e.number isFailing e.due⟩)
      (r.told events) (r.ends events) := by
  induction events generalizing r with
  | nil => exact .nil
  | cons x events ih =>
      show List.Forall₂ _ (((r.ended? x).map r.conclude).toList ++ _) ((r.ended? x).toList ++ _)
      cases r.ended? x with
      | none => exact ih (r.after x)
      | some e => exact .cons ⟨r.isFailing, rfl⟩ (ih (r.after x))

/-- What becomes of a fetch from its start on. -/
theorem Orderly.fetched (h : Orderly r) (name : String) (rest : List Event) :
    (⟨name, r.count + 1, r.now + r.latency⟩ ∈ (r.run (.fetch name :: rest)).errands
        ∧ ⟨name, r.count + 1, r.now + r.latency⟩ ∉ r.ends (.fetch name :: rest)
        ∧ (r.run (.fetch name :: rest)).now ≤ r.now + r.latency)
      ∨ ∃ mid later, rest = mid ++ .finish (r.count + 1) :: later
          ∧ (r.run (.fetch name :: mid)).now = r.now + r.latency
          ∧ (r.run (.fetch name :: mid)).told [.finish (r.count + 1)] = [⟨name, r.now + r.latency,
            fetchOutcome (r.count + 1) (r.run (.fetch name :: mid)).isFailing (r.now + r.latency)⟩] := by
  have listed : ⟨name, r.count + 1, r.now + r.latency⟩ ∈ (r.after (.fetch name)).errands :=
    List.mem_append_right _ (List.mem_singleton_self _)
  rcases (h.after (.fetch name)).fate listed rest with ⟨still, unended⟩ | ⟨mid, later, own, now, ended⟩
  · exact Or.inl ⟨still, unended, ((h.after _).run rest).ahead _ still⟩
  · refine Or.inr ⟨mid, later, own, now, ?_⟩
    show ((((r.after (.fetch name)).run mid).ended? _).map _).toList ++ [] = _
    rw [ended]
    rfl

/-- **Every fetch of the remote has its number, its end and its outcome**, however the fetches overlap and
the remote fails and recovers.  The `k`-th to start has the number `k`, also in the text of its error.  It
is on its way until the clock has come to its start plus the latency, and ends at that instant; whether it
succeeds hangs on the remote at its end.  All that started are counted, those that failed and those on
their way as well.  No number ends twice, and who started later ends later, unless both started at one
instant: these may end in either order.  To let time pass is a run.  Where timers of one instant fire in the
order in which they were set, whatever is done to the remote is a run in which all fetches end in the order of
their numbers. -/
theorem overlap (latency : Duration) (events : List Event) :
    let r₀ : Remote := { latency }
    let r := r₀.run events
    let ends := r₀.ends events
    (∀ before name rest, events = before ++ .fetch name :: rest →
        let p := r₀.run before
        let k := before.countP Event.isFetch + 1
        (⟨name, k, p.now + latency⟩ ∈ r.errands ∧ ⟨name, k, p.now + latency⟩ ∉ ends
            ∧ r.now ≤ p.now + latency)
          ∨ ∃ mid later, rest = mid ++ .finish k :: later
              ∧ (p.run (.fetch name :: mid)).now = p.now + latency
              ∧ (p.run (.fetch name :: mid)).told [.finish k] = [⟨name, p.now + latency,
                if (p.run (.fetch name :: mid)).isFailing then
                  .failed ("remote quote service unavailable (request " ++ toString k ++ ")")
                else .value ⟨k, p.now + latency⟩⟩])
      ∧ r.count = events.countP Event.isFetch
      ∧ r.count = ends.length + r.errands.length
      ∧ List.Forall₂ (fun c e => ∃ isFailing,
          c = ⟨e.name, e.due, fetchOutcome e.number isFailing e.due⟩) (r₀.told events) ends
      ∧ ends.Pairwise (fun e f => e.number ≠ f.number ∧ e.due ≤ f.due
          ∧ (e.number < f.number ∨ e.due = f.due))
      ∧ (∀ d, ∃ more, r.IsPassing d more)
      ∧ ∀ acts, ∃ events', r₀.run events' = (r₀.perform acts).1 ∧ r₀.told events' = (r₀.perform acts).2
          ∧ (r₀.ends events').Pairwise (·.number < ·.number) := by
  have orderly := orderly_new latency
  have counted := count_run { latency } events
  have balance := balance_run { latency } events
  refine ⟨?_, counted.trans (Nat.zero_add _), ?_, told_run _ events, orderly.ends_in_order events,
    (orderly.run events).passes, fun acts => ?_⟩
  · rintro before name rest rfl
    have started : (run { latency } before).count + 1 = before.countP Event.isFetch + 1 := by
      rw [count_run, Nat.zero_add]
    have lasts : (run { latency } before).latency = latency := latency_run _ before
    have fate := (orderly.run before).fetched name rest
    rw [started, lasts] at fate
    rw [run_append, ends_append]
    rcases fate with ⟨listed, unended, ahead⟩ | ended
    · refine Or.inl ⟨listed, ?_, ahead⟩
      intro among
      rcases List.mem_append.mp among with earlier | since
      · -- its number was not known before
        have known := orderly.counted earlier
        rw [← started] at known
        exact Nat.not_succ_le_self _ known
      · exact unended since
    · exact Or.inr ended
  · have none : ({ latency } : Remote).count = 0 ∧ ({ latency } : Remote).errands.length = 0 :=
      ⟨rfl, rfl⟩
    omega
  · obtain ⟨events', ran, told, turn⟩ := orderly.performs acts
    exact ⟨events', ran, told, orderly.ends_in_turn turn⟩

/-- The remote fails and recovers while two fetches are on their way, and a third one starts. -/
def recovery : List Event :=
  [.fetch "a", .wait 40, .setFailing true, .fetch "b", .wait 60, .finish 1, .setFailing false, .wait 40,
    .finish 2, .fetch "c"]

/-- The second one starts while the remote fails, and succeeds. -/
theorem overlap_recovery :
    let r₀ : Remote := { latency := 100 }
    recovery = [.fetch "a", .wait 40, .setFailing true] ++ .fetch "b" ::
        [.wait 60, .finish 1, .setFailing false, .wait 40, .finish 2, .fetch "c"]
      ∧ (∃ mid later, [.wait 60, .finish 1, .setFailing false, .wait 40, .finish 2, .fetch "c"]
            = mid ++ Event.finish 2 :: later
          ∧ ((r₀.run [.fetch "a", .wait 40, .setFailing true]).run (.fetch "b" :: mid)).now = 140)
      ∧ r₀.told recovery = [⟨"a", 100, .failed "remote quote service unavailable (request 1)"⟩,
          ⟨"b", 140, .value ⟨2, 140⟩⟩]
      ∧ (r₀.run recovery).count = 3 := by
  have h := overlap 100 recovery
  refine ⟨rfl, ?_, by decide +kernel, h.2.1.trans (by decide)⟩
  rcases h.1 [.fetch "a", .wait 40, .setFailing true] "b" _ rfl with
    ⟨_, unended, _⟩ | ⟨mid, later, own, now, _⟩
  · exact absurd (by decide) unended
  · exact ⟨mid, later, own, now⟩

end Remote

end SingleFlight.Service
