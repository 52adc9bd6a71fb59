/-
  SingleFlight.Proofs.Refill — what a running stream does after an invalidation.

  An invalidation leaves the running attempts alone, and as long as nobody
  launches another, the newest of them goes on to report.  Its first item is
  stored only while the cell waits for it, so never then.  A later item is
  held back by the mark of the invalidation alone, and the first reader that
  looks, or the first item that is held back, takes that mark away.  `refills`
  says when this happens, and `Emptied` what holds until it does.

  Main results:
    * `Emptied.run` — until a move refills the cell, it stays empty.
    * `stays_empty_iff` — without a launch, the cell stays empty exactly when
      no later item is reported with the mark gone; and as long as it does, the
      next read launches an attempt.
-/
import SingleFlight.Proofs.Invalidation

namespace SingleFlight

variable {ε V : Type}

theorem Cache.Touch.revision {c c' : Cache ε V} {now : Instant} (t : Cache.Touch c now c') :
    c'.cell.revision = c.cell.revision := by
  cases t <;> rfl

/-- A launch succeeds if a source is bound and the clock can name its start. -/
theorem Dispatcher.launch_of_named {d : Dispatcher ε V} {now : Instant}
    (bound : d.binding.isSome = true) (named : (now.later? (d.holdBack now)).isSome = true) :
    ∃ next n, d.launch now = .started next n := by
  obtain ⟨source, hb⟩ := Option.isSome_iff_exists.mp bound
  obtain ⟨start, hs⟩ := Option.isSome_iff_exists.mp named
  simp only [launch, hb, hs]
  exact ⟨_, _, rfl⟩

namespace World

/-! ## §1. Launches and refills. -/

/-- Whether a move launches an attempt. -/
def launches (w : World ε V) (m : Move ε V) : Bool :=
  (w.apply m).cache.dispatcher.latest != w.cache.dispatcher.latest
    && (w.apply m).cache.cell.phase.isCalculating

/-- Whether a move makes the newest attempt report a value after its first, and the mark of an
invalidation does not hold it back. -/
def refills (w : World ε V) : Move ε V → Bool
  | .attempt number =>
    match w.cache.dispatcher.attempt? number with
    | some a =>
      match a.progress with
      | .reporting (.ok _) => w.isCacheAlive && w.cache.dispatcher.latest == a.number && a.item != 0
          && !w.cache.cell.phase.isFlushed
      | _ => false
    | none => false
  | _ => false

/-- Whether no move of a run is of a kind, each seen in the world in which it is made. -/
def never (w : World ε V) (kind : World ε V → Move ε V → Bool) : List (Move ε V) → Bool
  | [] => true
  | m :: moves => !kind w m && (w.apply m).never kind moves

/-- An attempt that is about to report reports with its next step. -/
theorem apply_report {w : World ε V} {a : Attempt ε V} {report : Report V}
    (running : w.cache.dispatcher.attempt? a.number = some a) (reporting : a.progress = .reporting report) :
    w.apply (.attempt a.number) = w.report a report := by
  rw [apply_attempt running]
  simp only [stepAttempt, canStep, reporting, if_true]

/-- A report of a value by an attempt that may take a step is taken in as the cache sees fit. -/
theorem apply_reporting {w : World ε V} {a : Attempt ε V} {content : Sourced V}
    (running : w.cache.dispatcher.attempt? a.number = some a)
    (reporting : a.progress = .reporting (.ok content)) (alive : w.isCacheAlive = true) :
    (w.apply (.attempt a.number)).cache.cell
      = (w.cache.take w.now a.number a.item (.ok content)).1.cell := by
  rw [apply_report running reporting]
  simp only [report, alive, if_true]
  rfl

/-- **A refill stores a value**, of an attempt on the list. -/
theorem refills_spec {w : World ε V} {m : Move ε V} (h : w.refills m = true) :
    ∃ a ∈ w.cache.dispatcher.running, m = .attempt a.number
      ∧ ∃ content, (w.apply m).cache.cell.phase = .holding (.concealed content)
        ∧ (w.apply m).cache.cell.revision = w.cache.cell.revision + 1 := by
  unfold refills at h
  split at h
  next number =>
    split at h
    next a running =>
      split at h
      next content reporting =>
        simp only [Bool.and_eq_true, beq_iff_eq, bne_iff_ne, ne_eq] at h
        obtain ⟨⟨⟨alive, latest⟩, item⟩, flushed⟩ := h
        obtain ⟨listed, rfl⟩ := Dispatcher.attempt?_mem running
        -- a later item needs no more than that the mark is gone
        have keeps : w.cache.keeps a.item = true := by
          rw [Cache.keeps, if_neg item]
          exact flushed
        have stored : (w.cache.take w.now a.number a.item (.ok content)).1
            = (w.cache.withCell (·.tally Counters.countSuccess)).store w.now content := by
          rw [Cache.take, if_neg (not_not_intro latest)]
          simp only [keeps, if_true]
        refine ⟨a, listed, rfl, content, ?_, ?_⟩
        · rw [apply_reporting running reporting alive, stored]
          rfl
        · rw [apply_reporting running reporting alive, stored]
          rfl
      next => cases h
    next => cases h
  next => cases h

/-! ## §2. Revisions. -/

/-- A step of an attempt leaves the revision as it is, unless it stores a value. -/
theorem Turn.revision_cases {w w' : World ε V} {a : Attempt ε V} {left : Option (Attempt ε V)}
    (t : Turn w a w' left) :
    w'.cache.cell.revision = w.cache.cell.revision
      ∨ (w'.cache.cell.revision = w.cache.cell.revision + 1
          ∧ ∃ content, w'.cache.cell.phase = .holding (.concealed content)) := by
  cases t with
  | stored => exact Or.inr ⟨rfl, _, rfl⟩
  | rest | wait | unbound | refused | called | opened | asked | finished | came | died | ignored
  | discarded | failed | resumed | ended => exact Or.inl rfl

/-- No step takes a revision back. -/
theorem Step.revision_le {w w' : World ε V} {m : Move ε V} (s : Step w m w') :
    w.cache.cell.revision ≤ w'.cache.cell.revision := by
  cases s with
  | aside ha | dropReader ha => exact Nat.le_of_eq (congrArg Cell.revision ha.cell).symm
  | @invalidate aside ha | @poke aside ha =>
      show _ ≤ aside.cache.cell.revision
      exact Nat.le_of_eq (congrArg Cell.revision ha.cell).symm
  | pass | bind | openReader | follow => exact Nat.le_refl _
  | subscribe => exact Nat.le_of_eq (Cache.subscribe_touch w.cache w.now).revision.symm
  | @reader seat _ own seated ha =>
      rw [congrArg Cell.revision ha.cell]
      exact Nat.le_of_eq (seat.reader.step_stepped w.cache w.now).touch.revision.symm
  | attempt own running t =>
      rcases t.revision_cases with same | ⟨stored, _⟩
      · exact Nat.le_of_eq same.symm
      · rw [stored]
        exact Nat.le_succ _

theorem revision_le_run (w : World ε V) (moves : List (Move ε V)) :
    w.cache.cell.revision ≤ (w.run moves).cache.cell.revision := by
  induction moves generalizing w with
  | nil => exact Nat.le_refl _
  | cons m moves ih => exact Nat.le_trans (apply_step w m).revision_le (ih (w.apply m))

/-! ## §3. Staying empty. -/

/-- Nothing came since the value was thrown away in the world `p`: the world `w` holds no value, and
has stored none, and whoever is on its way was launched before. -/
structure Emptied (p w : World ε V) : Prop where
  /-- The mark of the invalidation is there, or somebody took it away. -/
  gone : w.cache.cell.phase = .flushed ∨ ∃ refetch, w.cache.cell.phase = .invalid refetch
  revision : w.cache.cell.revision = p.cache.cell.revision
  old : ∀ a ∈ w.cache.dispatcher.running, a.number ≤ p.cache.dispatcher.latest

theorem Emptied.idle {p w : World ε V} (h : Emptied p w) :
    w.cache.cell.phase.isCalculating = false := by
  rcases h.gone with phase | ⟨refetch, phase⟩
  · rw [phase]
    rfl
  · rw [phase]
    rfl

theorem Emptied.peek {p w : World ε V} (h : Emptied p w) : w.cache.peek = none := by
  unfold Cache.peek
  rcases h.gone with phase | ⟨refetch, phase⟩
  · rw [phase]
    rfl
  · rw [phase]
    rfl

theorem Emptied.same {p w w' : World ε V} (h : Emptied p w) (cell : w'.cache.cell = w.cache.cell)
    (running : w'.cache.dispatcher.running = w.cache.dispatcher.running) : Emptied p w' :=
  ⟨by rw [cell]; exact h.gone, by rw [cell]; exact h.revision, by rw [running]; exact h.old⟩

/-- A section of a reader that does not launch stores nothing. -/
theorem Emptied.touch {p w w' : World ε V} {c : Cache ε V} (h : Emptied p w)
    (t : Cache.Touch w.cache w.now c) (cell : w'.cache.cell = c.cell)
    (dispatcher : w'.cache.dispatcher = c.dispatcher)
    (calm : w'.cache.dispatcher.latest ≠ w.cache.dispatcher.latest →
      w'.cache.cell.phase.isCalculating = false) : Emptied p w' := by
  rw [cell, dispatcher] at calm
  -- had the section launched, a fetch would be on its way
  have unlaunched {n : Nat} (started : w.cache.dispatcher.Started c.dispatcher w.now n) :
      c.cell.phase ≠ .calculating := by
    intro busy
    have idle := calm (by rw [started.latest]; exact Nat.succ_ne_self _)
    rw [busy] at idle
    cases idle
  refine ⟨?_, ?_, ?_⟩
  · rw [cell]
    rcases t.phase_cases with same | ⟨refetch, phase, _⟩ | ⟨phase, n, started⟩
    · rw [same]
      exact h.gone
    · exact Or.inr ⟨refetch, phase⟩
    · exact absurd phase (unlaunched started)
  · rw [cell, t.revision]
    exact h.revision
  · rw [dispatcher]
    rcases t.dispatcher_cases with same | ⟨_, ⟨n, started, phase⟩ | ⟨overflowed, _⟩⟩
    · rw [same]
      exact h.old
    · exact absurd phase (unlaunched started)
    · exact fun b hb => h.old b (overflowed.mem_running hb)

/-- A step of an attempt that does not refill the cell stores nothing. -/
theorem Emptied.turn {p w w' : World ε V} {a : Attempt ε V} {left : Option (Attempt ε V)}
    (h : Emptied p w) (t : Turn w a w' left) (ha : a ∈ w.cache.dispatcher.running)
    (spared : ∀ content, a.progress = .reporting (.ok content) → w.isCacheAlive = true →
      w.cache.dispatcher.latest = a.number → a.item ≠ 0 → w.cache.cell.phase.isFlushed = true) :
    Emptied p w' := by
  have gone : w'.cache.cell.phase = .flushed ∨ ∃ refetch, w'.cache.cell.phase = .invalid refetch := by
    rcases t.phase_cases with same | ⟨_, _, phase⟩ | ⟨alive, latest, content, reporting, kept, _⟩
    · rw [same]
      exact h.gone
    · exact Or.inr ⟨false, phase⟩
    · -- the first item needs a fetch on its way, a later one that the mark is gone
      exfalso
      unfold Cache.keeps at kept
      split at kept
      next => rw [h.idle] at kept; cases kept
      next item => rw [spared content reporting alive latest item] at kept; cases kept
  refine ⟨gone, ?_, fun b hb => ?_⟩
  · rcases t.revision_cases with same | ⟨_, content, phase⟩
    · exact same.trans h.revision
    · -- the revision rises only with a value
      rw [phase] at gone
      rcases gone with flushed | ⟨_, invalid⟩
      · cases flushed
      · cases invalid
  · rcases t.mem_running hb with old | left
    · exact h.old b old
    · rw [t.number left]
      exact h.old a ha

/-- **Every step that neither launches nor refills leaves the cell empty.** -/
theorem Emptied.step {p w w' : World ε V} {m : Move ε V} (h : Emptied p w) (s : Step w m w')
    (calm : w'.cache.dispatcher.latest ≠ w.cache.dispatcher.latest →
      w'.cache.cell.phase.isCalculating = false)
    (spared : w.refills m = false) : Emptied p w' := by
  have passed {w' : World ε V} (ha : Aside m w w') : Emptied p w' :=
    h.same ha.cell (congrArg Dispatcher.running ha.dispatcher)
  cases s with
  | aside ha => exact passed ha
  | dropReader ha => exact h.same ha.cell (congrArg Dispatcher.running ha.dispatcher)
  | pass | bind | openReader | follow => exact h.same rfl rfl
  | subscribe => exact h.touch (Cache.subscribe_touch w.cache w.now) rfl rfl calm
  | invalidate ha => exact ⟨Or.inl rfl, (passed ha).revision, (passed ha).old⟩
  | poke ha => exact ⟨(passed ha).gone, (passed ha).revision, (passed ha).old⟩
  | reader own seated ha =>
      exact h.touch (Reader.step_stepped _ _ _).touch ha.cell ha.dispatcher calm
  | attempt own running t =>
      refine h.turn t (Dispatcher.attempt?_mem running).1 fun content reporting alive latest item => ?_
      rw [own] at spared
      simpa [refills, running, reporting, alive, latest, item] using spared

/-- An invalidation empties the cell. -/
theorem Emptied.of_invalidates {w : World ε V} (reachable : Reachable w) {m : Move ε V}
    (h : w.invalidates m = true) : Emptied (w.apply m) (w.apply m) :=
  ⟨Or.inl (flushed_of_invalidates h), rfl,
    fun a ha => ((reachable.move m).ordered.dispatcher.bounded a ha).2⟩

/-- What a run never does it does not do first. -/
theorem never_cons {w : World ε V} {kind : World ε V → Move ε V → Bool} {m : Move ε V}
    {moves : List (Move ε V)} :
    w.never kind (m :: moves) = true ↔ kind w m = false ∧ (w.apply m).never kind moves = true := by
  simp [never]

/-- A move that does not launch keeps the newest number, or the cell idle. -/
theorem idle_of_calm {w : World ε V} {m : Move ε V} (calm : w.launches m = false)
    (hl : (w.apply m).cache.dispatcher.latest ≠ w.cache.dispatcher.latest) :
    (w.apply m).cache.cell.phase.isCalculating = false := by
  simpa [launches, hl] using calm

/-- **Until a move refills the cell, it stays empty.** -/
theorem Emptied.run {p w : World ε V} (h : Emptied p w) {moves : List (Move ε V)}
    (calm : w.never launches moves = true) (spared : w.never refills moves = true) :
    Emptied p (w.run moves) := by
  induction moves generalizing w with
  | nil => exact h
  | cons m moves ih =>
      obtain ⟨calm, calms⟩ := never_cons.mp calm
      obtain ⟨spared, spares⟩ := never_cons.mp spared
      exact ih (h.step (apply_step w m) (idle_of_calm calm) spared) calms spares

/-- **The first move that refills the cell is an old attempt's**, its value is shown, and the revision
tells of it ever after. -/
theorem Emptied.refilled {p w : World ε V} (h : Emptied p w) {moves : List (Move ε V)}
    (calm : w.never launches moves = true) (refilled : w.never refills moves = false) :
    p.cache.cell.revision < (w.run moves).cache.cell.revision
      ∧ ∃ before number after v, moves = before ++ .attempt number :: after
        ∧ number ≤ p.cache.dispatcher.latest
        ∧ (w.run (before ++ [.attempt number])).cache.peek = some v := by
  induction moves generalizing w with
  | nil => cases refilled
  | cons m moves ih =>
      -- up to the first refill the cell stays empty
      cases hm : w.refills m with
      | true =>
          obtain ⟨a, running, rfl, content, phase, revision⟩ := refills_spec hm
          refine ⟨?_, [], a.number, moves, content.value, rfl, h.old a running, ?_⟩
          · calc p.cache.cell.revision
                < (w.apply (.attempt a.number)).cache.cell.revision := by
                  rw [revision, h.revision]
                  exact Nat.lt_succ_self _
              _ ≤ (w.run (.attempt a.number :: moves)).cache.cell.revision := revision_le_run _ moves
          · show (w.apply (.attempt a.number)).cache.peek = _
            rw [Cache.peek, phase]
            rfl
      | false =>
          obtain ⟨calm, calms⟩ := never_cons.mp calm
          have rest : (w.apply m).never refills moves = false := by
            simpa [never, hm] using refilled
          obtain ⟨revision, before, number, after, v, rfl, old, shown⟩ :=
            ih (h.step (apply_step w m) (idle_of_calm calm) hm) calms rest
          exact ⟨revision, m :: before, number, after, v, rfl, old, shown⟩

/-! ## §4. The next read. -/

/-- Who shows interest in a cell without a value, for which no fetch is on its way, and looks gets an
attempt launched. -/
theorem access_of_idle {c : Cache ε V} (valueless : ∀ v, c.cell.phase ≠ .holding v)
    (idle : c.cell.phase ≠ .calculating) (sound : c.cell.broken = none) (now : Instant)
    (delivered : Option Nat) :
    c.subscribe.access now delivered = (c.subscribe.launch now).map id .ticket := by
  have interested : c.subscribe.cell.phase = .empty ∨ c.subscribe.cell.phase = .invalid true := by
    unfold Cache.subscribe
    cases hp : c.cell.phase with
    | empty => exact Or.inl hp
    | flushed => exact Or.inr rfl
    | invalid refetch =>
        cases refetch with
        | true => exact Or.inr hp
        | false => exact Or.inr rfl
    | calculating => exact absurd hp idle
    | holding v => exact absurd hp (valueless v)
  have sound : c.subscribe.cell.broken = none := (subscribe_broken c).trans sound
  rcases interested with phase | phase <;> simp only [Cache.access, sound, phase]

/-- The newest reader is found under its key. -/
theorem Attended.seat?_newest {w v : World ε V} (h : Attended w) {role : Role} {reader : Reader}
    (sits : v.seats = w.seats ++ [⟨w.nextKey, role, reader⟩]) :
    v.seat? w.nextKey = some ⟨w.nextKey, role, reader⟩ := by
  have older : w.seats.find? (·.key == w.nextKey) = none := by
    rw [List.find?_eq_none]
    intro s hs same
    exact absurd (h.below s hs) (by rw [eq_of_beq same]; exact Nat.lt_irrefl _)
  rw [seat?, sits, List.find?_append, older]
  simp

/-- A reader that has just been opened is found under its key. -/
theorem Attended.seat?_new {w : World ε V} (h : Attended w) (reading : Reading) (role : Role)
    (handle : w.hasHandle = true) :
    (w.apply (.openReader reading role)).seat? w.nextKey = some ⟨w.nextKey, role, .new reading⟩ := by
  refine h.seat?_newest ?_
  show (w.openReader reading role).seats = _
  rw [openReader, if_pos handle]

/-- A reader that took a step is found in its seat. -/
theorem seat?_reseat {w : World ε V} {key : Nat} {seat : Seat} (h : w.seat? key = some seat)
    (cache : Cache ε V) (reader : Reader) :
    (w.reseat key cache reader).seat? key = some { seat with reader } := by
  have keyed : seat.key = key := (seat?_mem h).2
  have same : ((·.key == key) ∘ fun s : Seat => if s.key = key then { s with reader } else s)
      = (·.key == key) := by
    funext s
    by_cases hk : s.key = key <;> simp [hk]
  show (w.seats.map fun s => if s.key = key then { s with reader } else s).find? (·.key == key) = _
  rw [List.find?_map, same]
  unfold seat? at h
  rw [h]
  simp [keyed]

/-- A step of a reader that hands out nothing changes the cache and the reader. -/
theorem advanceReader_quiet {w : World ε V} {key : Nat} {seat : Seat} {cache : Cache ε V}
    {reader : Reader} (h : w.seat? key = some seat)
    (quiet : seat.reader.step w.cache w.now = (cache, reader, none)) :
    w.apply (.reader key) = w.reseat key cache reader := by
  show w.advanceReader key = _
  unfold advanceReader
  simp only [h, quiet]

/-- A reader's first step shows interest, unless it demands. -/
theorem apply_subscribing {w : World ε V} {key : Nat} {seat : Seat} (seated : w.seat? key = some seat)
    (subscribing : seat.reader.stage = .subscribing) :
    w.apply (.reader key) = w.reseat key w.cache.subscribe { seat.reader with stage := .looking } := by
  refine advanceReader_quiet seated ?_
  simp only [Reader.step, subscribing]

/-- The newest reader takes a step that hands out nothing. -/
theorem Attended.apply_newest {w v : World ε V} (h : Attended w) {role : Role} {reader reader' : Reader}
    {cache : Cache ε V} (sits : v.seats = w.seats ++ [⟨w.nextKey, role, reader⟩])
    (quiet : reader.step v.cache v.now = (cache, reader', none)) :
    v.apply (.reader w.nextKey)
      = { v with cache, seats := w.seats ++ [⟨w.nextKey, role, reader'⟩] } := by
  have others : (w.seats.map fun s => if s.key = w.nextKey then { s with reader := reader' } else s)
      = w.seats :=
    (List.map_congr_left fun s hs => if_neg (Nat.ne_of_lt (h.below s hs))).trans (List.map_id' _)
  rw [advanceReader_quiet (h.seat?_newest sits) quiet, reseat, sits, List.map_append, others]
  simp

/-- A read of a single value is made, and its first step shows interest. -/
theorem Attended.asked {w : World ε V} (h : Attended w) (role : Role) (handle : w.hasHandle = true) :
    w.run [.openReader .once role, .reader w.nextKey]
      = { w with
          cache := w.cache.subscribe
          seats := w.seats ++ [⟨w.nextKey, role, { Reader.new .once with stage := .looking }⟩]
          nextKey := w.nextKey + 1 } := by
  have opened : w.apply (.openReader .once role) = { w with
      seats := w.seats ++ [⟨w.nextKey, role, .new .once⟩], nextKey := w.nextKey + 1 } := if_pos handle
  rw [run_cons, opened]
  exact h.apply_newest rfl rfl

/-- A read of a single value is made, and its second step is told to wait. -/
theorem Attended.asked_waits {w : World ε V} (h : Attended w) (role : Role) (handle : w.hasHandle = true)
    {cache : Cache ε V} {n : Nat}
    (looks : w.cache.subscribe.access w.now none = (cache, .ticket (.wait n))) :
    w.run [.openReader .once role, .reader w.nextKey, .reader w.nextKey]
      = { w with
          cache
          seats := w.seats ++ [⟨w.nextKey, role, { Reader.new .once with
            stage := .waiting n, seen := w.cache.subscribe.cell.version }⟩]
          nextKey := w.nextKey + 1 } := by
  show (w.run [.openReader .once role, .reader w.nextKey]).apply (.reader w.nextKey) = _
  rw [h.asked role handle]
  refine h.apply_newest rfl ?_
  show ((w.cache.subscribe.access w.now none).1, Reader.receive { Reader.new .once with
    stage := .looking, seen := w.cache.subscribe.cell.version } (w.cache.subscribe.access w.now none).2) = _
  rw [looks]
  rfl

/-- A reader launches if its step leaves a newer attempt and a fetch on its way. -/
theorem launches_of_step {w : World ε V} {key : Nat} {seat : Seat} (h : w.seat? key = some seat)
    (newer : (seat.reader.step w.cache w.now).1.dispatcher.latest ≠ w.cache.dispatcher.latest)
    (busy : (seat.reader.step w.cache w.now).1.cell.phase = .calculating) :
    w.launches (.reader key) = true := by
  have advanced := advanceReader_advanced h
  show ((w.advanceReader key).cache.dispatcher.latest != w.cache.dispatcher.latest
    && (w.advanceReader key).cache.cell.phase.isCalculating) = true
  rw [advanced.dispatcher, advanced.cell, busy]
  simp [newer, Phase.isCalculating]

/-- The next read launches: whoever asks for a value in the world `w` gets an attempt launched with
the second step of the read, provided that a source is bound and the clock can name the start. -/
def FetchesNext (w : World ε V) : Prop :=
  ∀ role, w.hasHandle = true → w.cache.dispatcher.binding.isSome = true →
    (w.now.later? (w.cache.dispatcher.holdBack w.now)).isSome = true →
    (w.run [.openReader .once role, .reader w.nextKey]).launches (.reader w.nextKey) = true

/-- **The next read launches if there is no value, and no fetch is on its way.** -/
theorem fetchesNext_of_idle {w : World ε V} (reachable : Reachable w)
    (valueless : ∀ v, w.cache.cell.phase ≠ .holding v) (idle : w.cache.cell.phase ≠ .calculating) :
    FetchesNext w := by
  intro role handle bound named
  obtain ⟨next, n, launched⟩ := Dispatcher.launch_of_named bound named
  have dispatcher := w.cache.subscribe_dispatcher
  have looked : (w.cache.subscribe.access w.now none).1 = w.cache.subscribe.begun next := by
    rw [access_of_idle valueless idle reachable.coherent.sound]
    simp only [Cache.launch, dispatcher, launched]
    rfl
  rw [reachable.attended.asked role handle]
  refine launches_of_step (reachable.attended.seat?_newest rfl) ?_ ?_
  · show (w.cache.subscribe.access w.now none).1.dispatcher.latest
      ≠ w.cache.subscribe.dispatcher.latest
    rw [looked, dispatcher]
    show next.latest ≠ w.cache.dispatcher.latest
    rw [(Dispatcher.launch_started launched).latest]
    exact Nat.succ_ne_self _
  · show (w.cache.subscribe.access w.now none).1.cell.phase = .calculating
    rw [looked]
    rfl

/-- The next read of an empty world launches. -/
theorem Emptied.fetchesNext {p w : World ε V} (h : Emptied p w) (reachable : Reachable w) :
    FetchesNext w := by
  refine fetchesNext_of_idle reachable (fun v holding => ?_) (fun busy => ?_)
  · rcases h.gone with phase | ⟨refetch, phase⟩
    · cases phase.symm.trans holding
    · cases phase.symm.trans holding
  · have idle := h.idle
    rw [busy] at idle
    cases idle

/-! ## §5. When the cell stays empty. -/

/-- **A value that was thrown away stays away exactly until a later item comes with the mark gone.**
Let the value be thrown away by the move `m`, whatever is on its way then, and let any moves follow that
launch no attempt.  The revision is unchanged if and only if none of them makes the newest attempt report
a value after its first while the mark of the invalidation is gone.  As long as none does, no value is
shown, and the next read launches an attempt.  The first that does brings back a value of an attempt
launched before the invalidation. -/
theorem stays_empty_iff {w : World ε V} (h : Reachable w) {m : Move ε V}
    (hm : w.invalidates m = true) (moves : List (Move ε V))
    (calm : (w.apply m).never launches moves = true) :
    let p := w.apply m
    let q := p.run moves
    (q.cache.cell.revision = p.cache.cell.revision ↔ p.never refills moves = true)
      ∧ (p.never refills moves = true → q.cache.peek = none ∧ q.FetchesNext)
      ∧ (p.never refills moves = false → ∃ before number after v,
          moves = before ++ .attempt number :: after ∧ number ≤ p.cache.dispatcher.latest
            ∧ (p.run (before ++ [.attempt number])).cache.peek = some v) := by
  intro p q
  have emptied : Emptied p p := .of_invalidates h hm
  refine ⟨?_, fun spared => ?_, fun refilled => (emptied.refilled calm refilled).2⟩
  · cases hr : p.never refills moves with
    | true => exact iff_of_true (emptied.run calm hr).revision rfl
    | false =>
        have later : p.cache.cell.revision < q.cache.cell.revision := (emptied.refilled calm hr).1
        exact iff_of_false (Nat.ne_of_gt later) (by simp)
  · have stays : Emptied p q := emptied.run calm spared
    exact ⟨stays.peek, stays.fetchesNext ((h.move m).run moves)⟩

/-- A sequence of items, one a second after the first. -/
def pulsing : Source Unit Nat where
  shape := .continuous fun call => some fun item =>
    .item ⟨if item = 0 then 0 else 1000, fun _ _ => .value (10 * call + item)⟩

/-- The first item is read, and the second is on its way. -/
def firstItem : List (Move Unit Nat) :=
  [.bind pulsing, .openReader .once .read, .reader 0, .reader 0, .attempt 1, .attempt 1, .attempt 1,
    .attempt 1, .attempt 1, .attempt 1, .attempt 1, .reader 0, .pass 500]

/-- The next item is reported after another half second, and the one after it comes. -/
def nextItem : List (Move Unit Nat) :=
  [.pass 500, .attempt 1, .attempt 1, .attempt 1, .attempt 1, .pass 1000, .attempt 1]

theorem stays_empty_iff_nextItem :
    let w : World Unit Nat := (selfRefreshing ⟨.periodic 60000, .unpaced⟩ none ()).run firstItem
    let p := w.apply .invalidate
    let q := p.run nextItem
    w.cache.peek = some 10 ∧ w.invalidates .invalidate = true ∧ p.never launches nextItem = true
      ∧ p.never refills nextItem = true ∧ q.cache.peek = none ∧ q.FetchesNext := by
  have h := stays_empty_iff
    ((Reachable.initial (.selfRefreshing ⟨.periodic 60000, .unpaced⟩ none ())).run firstItem)
    (m := .invalidate) rfl nextItem (by decide)
  exact ⟨rfl, rfl, by decide, by decide, h.2.1 (by decide)⟩

/-- **A running stream can bring a value back.**  Its second item takes the mark away, and its third is
stored: no attempt was launched since the invalidation, and yet a value is shown, and the next read
launches none. -/
theorem refilled_by_third_item :
    let w : World Unit Nat := (selfRefreshing ⟨.periodic 60000, .unpaced⟩ none ()).run firstItem
    let p := w.apply .invalidate
    let q := p.run (nextItem ++ [.attempt 1])
    w.invalidates .invalidate = true ∧ q.cache.dispatcher.IsStreaming
      ∧ p.never launches (nextItem ++ [.attempt 1]) = true
      ∧ q.cache.peek = some 12 ∧ q.cache.cell.revision ≠ p.cache.cell.revision ∧ ¬q.FetchesNext := by
  refine ⟨rfl, ⟨pulsing, rfl, rfl⟩, by decide, rfl, by decide, fun fetches => ?_⟩
  exact absurd (fetches .read rfl rfl rfl) (by decide)

end World

end SingleFlight
