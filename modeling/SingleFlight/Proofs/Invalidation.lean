/-
  SingleFlight.Proofs.Invalidation — nothing stale after an invalidation.

  When a value is thrown away, attempts may be on their way, queued or about to
  report, and readers may wait for them.  `Past` draws the line at that point:
  from then on the cell holds nothing of an attempt launched before it, and
  whoever starts to read afterwards waits for no such attempt.

  Main results:
    * `Past.run` — the line is kept for the rest of every run.
    * `nothing_stale` — with a one-shot source, whatever is read or shown after
      an invalidation was fetched by a call made after it.
-/
import SingleFlight.Proofs.Coordination

namespace SingleFlight

variable {ε V : Type}

open Dispatcher (Orderly)

namespace World

/-! ## §1. Invalidations. -/

/-- An invalidation passes by everybody, and throws the value away. -/
theorem invalidates_spec {w : World ε V} {m : Move ε V} (h : w.invalidates m = true) :
    ∃ w', Aside m w w' ∧ w.apply m = w'.withCache Cache.invalidate := by
  unfold invalidates at h
  split at h
  next =>
    refine ⟨w, .refl w, ?_⟩
    show (if w.hasHandle then _ else w) = _
    rw [if_pos h]
  next =>
    split at h
    next wokenFor deadline rest hr hn =>
      have rearmed : Aside (.react .notice) w { w.withStaleness ({ · with notices := rest }) with
          refresher := .arming wokenFor, bus := w.bus } := aside_rearm w _ hr
      refine ⟨_, rearmed, ?_⟩
      show w.react .notice = _
      unfold react
      simp only [hr, hn]
      rfl
    next => cases h
  next => cases h

theorem flushed_of_invalidates {w : World ε V} {m : Move ε V} (h : w.invalidates m = true) :
    (w.apply m).cache.cell.phase = .flushed := by
  obtain ⟨w', _, same⟩ := invalidates_spec h
  rw [same]
  rfl

/-! ## §2. What is never forgotten. -/

/-- An answer stays as it was given. -/
theorem Turn.answer_mono {w w' : World ε V} {a : Attempt ε V} {left : Option (Attempt ε V)}
    (t : Turn w a w' left) {n : Nat} {answer : Answer V}
    (h : w.cache.dispatcher.answer? n = some answer) :
    w'.cache.dispatcher.answer? n = some answer := by
  have dismissed := Dispatcher.answer?_dismiss (o := a.supersedes) h
  have settled (said : Answer V) :
      (w.cache.dispatcher.settle a.number said).answer? n = some answer := by
    rw [Dispatcher.answer?_settle, Dispatcher.answer?_noteAnswer, h]
    rfl
  cases t with
  | refused | called | opened => exact dismissed
  | unbound =>
      refine (Dispatcher.answer?_lose (w.cache.dispatcher.dismiss a.supersedes) _ _).trans ?_
      rw [dismissed]
      rfl
  | died =>
      refine (Dispatcher.answer?_lose _ _ _).trans ?_
      rw [h]
      rfl
  | resumed | ended => exact settled _
  | rest | wait | asked | finished | came | ignored | stored | discarded | failed => exact h

/-- What a step leaves of the past: the calls, the answers, the launches, and the source once an
attempt was launched. -/
structure Remembers (w w' : World ε V) : Prop where
  called : ∀ n ∈ w.called, n ∈ w'.called
  answers : ∀ n answer, w.cache.dispatcher.answer? n = some answer →
    w'.cache.dispatcher.answer? n = some answer
  latest : w.cache.dispatcher.latest ≤ w'.cache.dispatcher.latest
  binding : w.cache.dispatcher.sealed = true →
    w'.cache.dispatcher.sealed = true ∧ w'.cache.dispatcher.binding = w.cache.dispatcher.binding

theorem Remembers.same {w w' : World ε V} (calls : w'.calls = w.calls)
    (dispatcher : w'.cache.dispatcher = w.cache.dispatcher) : Remembers w w' := by
  refine ⟨fun n hn => ?_, ?_, Nat.le_of_eq (congrArg Dispatcher.latest dispatcher).symm, ?_⟩
  · rw [called_eq calls]
    exact hn
  · rw [dispatcher]
    exact fun _ _ => id
  · rw [dispatcher]
    exact fun sealed => ⟨sealed, rfl⟩

/-- A section of a reader remembers: a launch adds an attempt, and settles on the source. -/
theorem Remembers.touch {w w' : World ε V} {c : Cache ε V} (t : Cache.Touch w.cache w.now c)
    (h : Orderly w.now w.cache.dispatcher) (calls : w'.calls = w.calls)
    (dispatcher : w'.cache.dispatcher = c.dispatcher) : Remembers w w' := by
  rcases t.renewed with same | ⟨fresh, renewed, _⟩
  · exact .same calls (dispatcher.trans same)
  · rw [← dispatcher] at renewed
    refine ⟨fun n hn => ?_, fun n answer hn => ?_, ?_, fun _ => ⟨renewed.sealed, renewed.binding⟩⟩
    · rw [called_eq calls]
      exact hn
    · rw [dispatcher, answer?_touch t h]
      exact hn
    · rw [renewed.latest]
      exact Nat.le_succ _

/-- Every step remembers. -/
theorem Step.remembers {w w' : World ε V} {m : Move ε V} (s : Step w m w') (h : Ordered w) :
    Remembers w w' := by
  cases s with
  | aside ha => exact .same ha.calls ha.dispatcher
  | pass since named => exact .same rfl rfl
  | bind source unsealed =>
      refine ⟨fun _ => id, fun _ _ => id, Nat.le_refl _, fun sealed => ?_⟩
      rw [unsealed] at sealed
      cases sealed
  | subscribe own => exact .touch (Cache.subscribe_touch w.cache w.now) h.dispatcher rfl rfl
  | invalidate ha => exact .same ha.calls ha.dispatcher
  | poke ha => exact .same ha.calls ha.dispatcher
  | openReader reading role holds => exact .same rfl rfl
  | follow key => exact .same rfl rfl
  | dropReader ha => exact .same ha.calls ha.dispatcher
  | reader own seated ha =>
      exact .touch (Reader.step_stepped _ _ _).touch h.dispatcher ha.calls ha.dispatcher
  | attempt own running t =>
      have kept := (t.progressed h.dispatcher (Dispatcher.attempt?_mem running).1).kept
      exact ⟨t.called_mono, fun _ _ => t.answer_mono, Nat.le_of_eq kept.latest.symm,
        fun sealed => ⟨by rw [kept.sealed]; exact sealed, kept.binding⟩⟩

/-! ## §3. What may be read after a point. -/

/-- Whether the reader of a key had taken a step already. -/
def hasStarted (w : World ε V) (key : Nat) : Bool :=
  w.seats.any fun s => s.key == key && s.reader != .new s.reader.reading

/-- The item comes from the attempt `k`: from its call of the source, or from finding that the owner
of the source is gone. -/
inductive ComesFrom (w : World ε V) (k : Nat) : Item V → Prop where
  | value {content : Sourced V} (origin : content.origin.attempt = k) (called : k ∈ w.called) :
      ComesFrom w k (.value content)
  | failed {reason : String} (called : k ∈ w.called) :
      ComesFrom w k (.failed (.fetchFailed k reason))
  | ownerGone {owner : String}
      (answered : w.cache.dispatcher.answer? k = some (.error (.ownerGone owner))) :
      ComesFrom w k (.failed (.ownerGone owner))

theorem ComesFrom.mono {w w' : World ε V} {k : Nat} {item : Item V} (h : ComesFrom w k item)
    (r : Remembers w w') : ComesFrom w' k item := by
  cases h with
  | value origin called => exact .value origin (r.called k called)
  | failed called => exact .failed (r.called k called)
  | ownerGone answered => exact .ownerGone (r.answers k _ answered)

/-- The item tells nothing, or comes from an attempt launched after the world `p`. -/
def IsRecent (p w : World ε V) (item : Item V) : Prop :=
  item = .finished ∨ item = .crashed ∨ item = .failed .unbound
    ∨ ∃ k, p.cache.dispatcher.latest < k ∧ ComesFrom w k item

theorem IsRecent.mono {p w w' : World ε V} {item : Item V} (h : IsRecent p w item)
    (r : Remembers w w') : IsRecent p w' item :=
  h.imp_right (Or.imp_right (Or.imp_right fun ⟨k, hk, comes⟩ => ⟨k, hk, comes.mono r⟩))

/-- What was handed out since the world `p`, to readers that had not started then, is recent. -/
def AllRecent (p w : World ε V) (deliveries : List (Delivery V)) : Prop :=
  ∃ new, deliveries = new ++ p.deliveries
    ∧ ∀ d ∈ new, p.hasStarted d.key = false → IsRecent p w d.item

theorem AllRecent.mono {p w w' : World ε V} {deliveries : List (Delivery V)}
    (h : AllRecent p w deliveries) (r : Remembers w w') : AllRecent p w' deliveries := by
  obtain ⟨new, same, recent⟩ := h
  exact ⟨new, same, fun d hd late => (recent d hd late).mono r⟩

theorem AllRecent.cons {p w : World ε V} {d : Delivery V} {deliveries : List (Delivery V)}
    (h : AllRecent p w deliveries) (hd : p.hasStarted d.key = false → IsRecent p w d.item) :
    AllRecent p w (d :: deliveries) := by
  obtain ⟨new, same, recent⟩ := h
  refine ⟨d :: new, by rw [same]; rfl, fun d' hd' => ?_⟩
  rcases List.mem_cons.mp hd' with rfl | hd'
  · exact hd
  · exact recent d' hd'

/-- The answer of an attempt comes from that attempt. -/
theorem Genuine.comesFrom {w : World ε V} (h : Genuine w) {k : Nat} {answer : Answer V}
    (hk : w.cache.dispatcher.answer? k = some answer) :
    (∃ fetched, answer = .ok fetched ∧ ComesFrom w k (.value fetched.content))
      ∨ ∃ failure, answer = .error failure ∧ ComesFrom w k (.failed failure) := by
  have stems := h.answers k answer hk
  -- an answer names its attempt, or says that the owner was gone
  match answer, stems with
  | .ok fetched, stems => exact Or.inl ⟨fetched, rfl, .value stems.1 stems.2⟩
  | .error (.fetchFailed incident reason), stems =>
      obtain ⟨rfl, called⟩ := stems
      exact Or.inr ⟨_, rfl, .failed called⟩
  | .error (.ownerGone owner), _ => exact Or.inr ⟨_, rfl, .ownerGone hk⟩

/-- The line that an invalidation draws.  In the world `w`, which came after the invalidated world
`p`, nothing of an attempt launched before is left for those who start to read after it. -/
structure Past (p w : World ε V) : Prop where
  latest : p.cache.dispatcher.latest ≤ w.cache.dispatcher.latest
  /-- A fetch on its way was launched after the line. -/
  calculating : w.cache.cell.phase = .calculating →
    p.cache.dispatcher.latest < w.cache.dispatcher.latest
  held : ∀ content, w.cache.cell.phase.value? = some content →
    p.cache.dispatcher.latest < content.origin.attempt
  /-- A reader that started after the line waits for an attempt launched after it. -/
  awaited : ∀ s ∈ w.seats, p.hasStarted s.key = false → ∀ k, s.reader.awaits? = some k →
    p.cache.dispatcher.latest < k
  delivered : AllRecent p w w.deliveries

/-- No attempt in the world makes more than one item, once its source is settled. -/
def IsOneShot (w : World ε V) : Prop :=
  w.cache.dispatcher.sealed = true → ¬w.cache.dispatcher.IsStreaming

/-- What a late reader hands out is recent. -/
theorem Past.item_recent {p w w' : World ε V} {seat : Seat} {item : Item V} (h : Past p w)
    (reachable : Reachable w) (r : Remembers w w') (seated : seat ∈ w.seats)
    (late : p.hasStarted seat.key = false) (hands : seat.reader.Hands w.cache item) :
    IsRecent p w' item := by
  have genuine := reachable.genuine
  cases hands with
  -- a reader hands out what the cell holds, or what the attempt it waited for answered
  | @held content hp =>
      have hc : w.cache.cell.phase.value? = some content := by rw [hp]; rfl
      exact Or.inr (Or.inr (Or.inr ⟨_, h.held content hc,
        (ComesFrom.value rfl (genuine.held content hc)).mono r⟩))
  | @answered k fetched awaits ha =>
      refine Or.inr (Or.inr (Or.inr ⟨k, h.awaited seat seated late k awaits, ?_⟩))
      rcases genuine.comesFrom ha with ⟨_, same, comes⟩ | ⟨_, same, _⟩
      · cases same
        exact comes.mono r
      · cases same
  | @refused k failure awaits ha =>
      refine Or.inr (Or.inr (Or.inr ⟨k, h.awaited seat seated late k awaits, ?_⟩))
      rcases genuine.comesFrom ha with ⟨_, same, _⟩ | ⟨_, same, comes⟩
      · cases same
      · cases same
        exact comes.mono r
  | unbound => exact Or.inr (Or.inr (Or.inl rfl))
  | broken holds hb => exact absurd hb (reachable.coherent.not_broken seated holds)
  | crashed => exact Or.inr (Or.inl rfl)
  | finished => exact Or.inl rfl

/-! ## §4. The line is kept. -/

/-- A section of a reader crosses the line in neither direction. -/
theorem Past.phase_touch {p w : World ε V} {c : Cache ε V} (h : Past p w)
    (t : Cache.Touch w.cache w.now c) (latest : w.cache.dispatcher.latest ≤ c.dispatcher.latest) :
    (c.cell.phase = .calculating → p.cache.dispatcher.latest < c.dispatcher.latest)
      ∧ ∀ content, c.cell.phase.value? = some content →
          p.cache.dispatcher.latest < content.origin.attempt := by
  rcases t.phase_cases with same | ⟨refetch, phase, _⟩ | ⟨phase, n, started⟩
  · rw [same]
    exact ⟨fun busy => Nat.lt_of_lt_of_le (h.calculating busy) latest, h.held⟩
  · rw [phase]
    exact ⟨fun busy => (nomatch busy), fun _ hc => nomatch hc⟩
  · rw [phase]
    refine ⟨fun _ => ?_, fun _ hc => nomatch hc⟩
    rw [started.latest]
    exact Nat.lt_succ_of_le h.latest

/-- Whoever is told to wait is told to wait for an attempt launched after the line. -/
theorem Past.told {p w : World ε V} {c : Cache ε V} {k : Nat} (h : Past p w) (ordered : Ordered w)
    (t : Cache.Ticketed w.cache w.now (c, .wait k)) : p.cache.dispatcher.latest < k := by
  cases t with
  | started sound idle hl =>
      rw [(Dispatcher.launch_started hl).number]
      exact Nat.lt_succ_of_le h.latest
  | joined sound busy hp =>
      rw [(ordered.dispatcher.pending k hp).2]
      exact h.calculating busy

/-- A step of a reader keeps the line. -/
theorem Past.advanced {p w w' : World ε V} {seat : Seat} (h : Past p w) (reachable : Reachable w)
    (r : Remembers w w') (seated : seat ∈ w.seats)
    (ha : Advanced w seat (seat.reader.step w.cache w.now) w') : Past p w' := by
  have stepped := seat.reader.step_stepped w.cache w.now
  have latest : w.cache.dispatcher.latest ≤ (seat.reader.step w.cache w.now).1.dispatcher.latest := by
    rw [← ha.dispatcher]
    exact r.latest
  obtain ⟨calculating, held⟩ := h.phase_touch stepped.touch latest
  refine ⟨Nat.le_trans h.latest r.latest, ?_, ?_, fun s hs late k awaits => ?_, ?_⟩
  · rw [ha.cell, ha.dispatcher]
    exact calculating
  · rw [ha.cell]
    exact held
  · rcases ha.seats s hs with ⟨old, _⟩ | ⟨key, reader, _⟩
    · exact h.awaited s old late k awaits
    · rw [reader] at awaits
      rw [key] at late
      cases hitem : (seat.reader.step w.cache w.now).2.2 with
      | none =>
-- it waits as before, or for the attempt that it was just told to wait for
          rcases (stepped.quiet hitem).2 k awaits with before | told
          · exact h.awaited seat seated late k before
          · exact h.told reachable.ordered told
      | some item =>
          rw [(stepped.hands item hitem).2] at awaits
          cases awaits
  · rcases ha.deliveries with ⟨_, same⟩ | ⟨item, time, hitem, new⟩
    · rw [same]
      exact h.delivered.mono r
    · rw [new]
      refine (h.delivered.mono r).cons fun late => ?_
      have hands := (stepped.hands item hitem).1
      show IsRecent p w' (presented seat.role item)
      rw [presented_eq (reachable.attended.isOpen seat seated) hands]
      exact h.item_recent reachable r seated late hands

/-- A step of an attempt keeps the line: with a one-shot source, only what was launched after it is
stored. -/
theorem Past.turn {p w w' : World ε V} {a : Attempt ε V} {left : Option (Attempt ε V)} (h : Past p w)
    (reachable : Reachable w) (r : Remembers w w') (t : Turn w a w' left)
    (ha : a ∈ w.cache.dispatcher.running) (oneShot : IsOneShot w) : Past p w' := by
  have ordered := reachable.ordered
  obtain ⟨seats, _, deliveries⟩ := t.seats
  have latest := (t.progressed ordered.dispatcher ha).kept.latest
  have fits := ordered.dispatcher.fits a ha
  have phase : (w'.cache.cell.phase = .calculating → w.cache.cell.phase = .calculating)
      -- only a report stores, and only the newest attempt's
      ∧ ∀ content, w'.cache.cell.phase.value? = some content →
          p.cache.dispatcher.latest < content.origin.attempt := by
    rcases t.phase_cases with same | ⟨_, _, phase⟩ | ⟨_, last, content, reporting, kept, phase⟩
    · rw [same]
      exact ⟨id, h.held⟩
    · rw [phase]
      exact ⟨fun busy => (nomatch busy), fun _ hc => nomatch hc⟩
    · rw [phase]
      refine ⟨fun busy => (nomatch busy), fun _ hc => ?_⟩
      -- the first item is stored only while the cell waits for it
      have executes := fits.executes (by simp [Attempt.isExecuting, reporting])
      have item : a.item = 0 := by
        by_cases hitem : a.item = 0
        · exact hitem
        · exact absurd (executes.streaming (executes.offers (Or.inl hitem)))
            (oneShot (ordered.dispatcher.bound_of_mem ha).1)
      have busy : w.cache.cell.phase = .calculating := by
        rw [Cache.keeps, if_pos item] at kept
        unfold Phase.isCalculating at kept
        split at kept
        next busy => exact busy
        next => cases kept
      have stems := (reachable.genuine.attempts a ha).of_reporting reporting
      cases hc
      rw [stems.1, ← last]
      exact h.calculating busy
  refine ⟨Nat.le_trans h.latest r.latest, fun busy => ?_, phase.2, ?_, ?_⟩
  · rw [latest]
    exact h.calculating (phase.1 busy)
  · rw [seats]
    exact h.awaited
  · rw [deliveries]
    exact h.delivered.mono r

/-- A move that stores nothing and leaves the readers that wait where they are keeps the line. -/
theorem Past.same {p w w' : World ε V} (h : Past p w) (r : Remembers w w')
    (phase : w'.cache.cell.phase = w.cache.cell.phase ∨ w'.cache.cell.phase = .flushed)
    (seats : ∀ s ∈ w'.seats, ∀ k, s.reader.awaits? = some k →
      ∃ s₀ ∈ w.seats, s₀.key = s.key ∧ s₀.reader = s.reader)
    (deliveries : w'.deliveries = w.deliveries) : Past p w' := by
  refine ⟨Nat.le_trans h.latest r.latest, fun busy => ?_, fun content hc => ?_,
    fun s hs late k awaits => ?_, ?_⟩
  · rcases phase with same | flushed
    · exact Nat.lt_of_lt_of_le (h.calculating (by rw [← same]; exact busy)) r.latest
    · rw [flushed] at busy
      cases busy
  · rcases phase with same | flushed
    · exact h.held content (by rw [← same]; exact hc)
    · rw [flushed] at hc
      cases hc
  · obtain ⟨s₀, hs₀, key, reader⟩ := seats s hs k awaits
    exact h.awaited s₀ hs₀ (by rw [key]; exact late) k (by rw [reader]; exact awaits)
  · rw [deliveries]
    exact h.delivered.mono r

/-- **Every step keeps the line**, as long as the source makes one item a call. -/
theorem Past.step {p w w' : World ε V} {m : Move ε V} (h : Past p w) (reachable : Reachable w)
    (s : Step w m w') (oneShot : IsOneShot w) : Past p w' := by
  have r := s.remembers reachable.ordered
  have stays {w' : World ε V} (seats : w'.seats = w.seats) : ∀ s ∈ w'.seats, ∀ k,
      s.reader.awaits? = some k → ∃ s₀ ∈ w.seats, s₀.key = s.key ∧ s₀.reader = s.reader :=
    fun s hs _ _ => ⟨s, by rw [← seats]; exact hs, rfl, rfl⟩
  cases s with
  | aside ha => exact h.same r (Or.inl (by rw [ha.cell])) (stays ha.seats) ha.deliveries
  | pass since named => exact h.same r (Or.inl rfl) (stays rfl) rfl
  | bind source unsealed => exact h.same r (Or.inl rfl) (stays rfl) rfl
  | subscribe own =>
      obtain ⟨calculating, held⟩ :=
        h.phase_touch (Cache.subscribe_touch w.cache w.now) r.latest
      exact ⟨Nat.le_trans h.latest r.latest, calculating, held, h.awaited, h.delivered.mono r⟩
  | invalidate ha => exact h.same r (Or.inr rfl) (stays ha.seats) ha.deliveries
  | @poke poked ha =>
      have phase : poked.cache.cell.phase = w.cache.cell.phase := by rw [ha.cell]
      exact h.same r (Or.inl phase) (stays ha.seats) ha.deliveries
  | openReader reading role holds =>
      refine h.same r (Or.inl rfl) (fun s hs k awaits => ?_) rfl
      rcases List.mem_append.mp hs with hs | hs
      · exact ⟨s, hs, rfl, rfl⟩
      · rw [List.mem_singleton.mp hs] at awaits
        cases hd : reading.demands <;> simp [Reader.new, Reader.awaits?, hd] at awaits
  | follow key =>
      refine h.same r (Or.inl rfl) (fun s hs _ _ => ?_) rfl
      obtain ⟨s₀, hs₀, hk, reader, _⟩ := mem_follow hs
      exact ⟨s₀, hs₀, hk.symm, reader.symm⟩
  | dropReader ha =>
      refine h.same r (Or.inl (by rw [ha.cell])) (fun s hs _ _ => ?_) ha.deliveries
      rw [ha.seats] at hs
      exact ⟨s, (List.mem_filter.mp hs).1, rfl, rfl⟩
  | reader own seated ha => exact h.advanced reachable r (seat?_mem seated).1 ha
  | attempt own running t => exact h.turn reachable r t (Dispatcher.attempt?_mem running).1 oneShot

/-- A source that offers one item a call in the end did so before. -/
theorem IsOneShot.before {w w' : World ε V} (h : IsOneShot w') (r : Remembers w w') :
    IsOneShot w := by
  intro sealed streaming
  obtain ⟨sealed', binding⟩ := r.binding sealed
  refine h sealed' ?_
  unfold Dispatcher.IsStreaming at streaming ⊢
  rw [binding]
  exact streaming

theorem IsOneShot.of_run {w : World ε V} (reachable : Reachable w) {moves : List (Move ε V)}
    (h : IsOneShot (w.run moves)) : IsOneShot w := by
  induction moves generalizing w with
  | nil => exact h
  | cons m moves ih =>
      -- from the end of the run back: a launch settles on the source for good
      exact (ih (reachable.move m) h).before ((apply_step w m).remembers reachable.ordered)

/-- **The line is kept for the rest of every run.** -/
theorem Past.run {p w : World ε V} (h : Past p w) (reachable : Reachable w)
    {moves : List (Move ε V)} (oneShot : IsOneShot (w.run moves)) : Past p (w.run moves) := by
  induction moves generalizing w with
  | nil => exact h
  | cons m moves ih =>
      have before : IsOneShot (w.run (m :: moves)) → IsOneShot w := .of_run reachable
      exact ih (h.step reachable (apply_step w m) (before oneShot)) (reachable.move m) oneShot

/-- An invalidation draws the line. -/
theorem Past.of_invalidates {w : World ε V} {m : Move ε V} (h : w.invalidates m = true) :
    Past (w.apply m) (w.apply m) := by
  have phase := flushed_of_invalidates h
  refine ⟨Nat.le_refl _, fun busy => ?_, fun content hc => ?_, fun s hs late k awaits => ?_,
    [], rfl, fun d hd => nomatch hd⟩
  · rw [phase] at busy
    cases busy
  · rw [phase] at hc
    cases hc
  · -- who has not started waits for nobody
    exfalso
    have fresh : s.reader = .new s.reader.reading := by
      by_cases hf : s.reader = .new s.reader.reading
      · exact hf
      · have started : (w.apply m).hasStarted s.key = true :=
          List.any_eq_true.mpr ⟨s, hs, by simp [hf]⟩
        rw [late] at started
        cases started
    rw [fresh] at awaits
    cases hd : s.reader.reading.demands <;> simp [Reader.new, Reader.awaits?, hd] at awaits

/-! ## §5. Nothing stale. -/

/-- A reader that is opened later has another key than all that have started. -/
theorem Attended.not_started {w : World ε V} (h : Attended w) {key : Nat} (hk : w.nextKey ≤ key) :
    w.hasStarted key = false := by
  cases hs : w.hasStarted key with
  | false => rfl
  | true =>
      obtain ⟨s, seated, started⟩ := List.any_eq_true.mp hs
      have below := h.below s seated
      have same : s.key = key := by
        rw [Bool.and_eq_true] at started
        exact eq_of_beq started.1
      omega

/-- **Nothing stale after an invalidation.**  Let the value be thrown away by the move `m`, whatever is
on its way then, let any moves follow, and let the source that is bound in the end make one item a call.
A reader that is opened after the invalidation, or takes its first step after it, is given nothing but
what comes from an attempt that was launched after it, and called the source after it, unless no source
is bound; and a value that is shown comes from such a call, too. -/
theorem nothing_stale {w : World ε V} (h : Reachable w) {m : Move ε V}
    (hm : w.invalidates m = true) (moves : List (Move ε V))
    (oneShot : ¬((w.apply m).run moves).cache.dispatcher.IsStreaming) :
    (∀ v, ((w.apply m).run moves).cache.peek = some v → ∃ content k,
        ((w.apply m).run moves).cache.cell.phase.value? = some content ∧ content.value = v
          ∧ content.origin.attempt = k ∧ w.cache.dispatcher.latest < k
          ∧ k ∈ ((w.apply m).run moves).called ∧ k ∉ (w.apply m).called)
      ∧ ∃ new, ((w.apply m).run moves).deliveries = new ++ (w.apply m).deliveries
          ∧ ∀ d ∈ new, (w.apply m).nextKey ≤ d.key ∨ (w.apply m).hasStarted d.key = false →
              d.item = .finished ∨ d.item = .crashed ∨ d.item = .failed .unbound
                ∨ ∃ k, w.cache.dispatcher.latest < k ∧ k ∉ (w.apply m).called
                    ∧ ((w.apply m).run moves).ComesFrom k d.item := by
  have reachable := h.move m
  have past : Past (w.apply m) ((w.apply m).run moves) :=
    (Past.of_invalidates hm).run reachable fun _ => oneShot
  have latest : (w.apply m).cache.dispatcher.latest = w.cache.dispatcher.latest := by
    obtain ⟨w', ha, same⟩ := invalidates_spec hm
    rw [same]
    exact congrArg Dispatcher.latest ha.dispatcher
  have uncalled {k : Nat} (hk : (w.apply m).cache.dispatcher.latest < k) : k ∉ (w.apply m).called :=
    fun called => Nat.not_le.mpr hk (reachable.ordered.called_le called)
  rw [← latest]
  refine ⟨fun v hv => ?_, ?_⟩
  · obtain ⟨content, hc, rfl⟩ := Option.map_eq_some_iff.mp hv
    have late := past.held content hc
    exact ⟨content, _, hc, rfl, rfl, late, (reachable.run moves).genuine.held content hc, uncalled late⟩
  · obtain ⟨new, same, recent⟩ := past.delivered
    refine ⟨new, same, fun d hd late => ?_⟩
    have late := late.elim reachable.attended.not_started id
    rcases recent d hd late with hf | hc | hu | ⟨k, hk, comes⟩
    · exact Or.inl hf
    · exact Or.inr (Or.inl hc)
    · exact Or.inr (Or.inr (Or.inl hu))
    · exact Or.inr (Or.inr (Or.inr ⟨k, hk, uncalled hk, comes⟩))

/-- A source whose calls make one number each. -/
def counting : Source Unit Nat where
  shape := .oneShot fun call => some ⟨0, fun _ _ => .value (10 * call)⟩

/-- The first call is about to report. -/
def beforeRace : List (Move Unit Nat) :=
  [.bind counting, .openReader .once .polled, .reader 0, .reader 0, .attempt 1, .attempt 1, .attempt 1]

/-- A second reader looks before the first call reports. -/
def afterRace : List (Move Unit Nat) :=
  [.openReader .once .polled, .reader 1, .reader 1, .attempt 1, .attempt 1, .attempt 2, .attempt 2,
    .attempt 2, .attempt 2, .attempt 2, .reader 0, .reader 1]

theorem nothing_stale_race :
    let w : World Unit Nat := (World.bare ⟨.periodic 1000, .unpaced⟩ none ()).run beforeRace
    let p := w.apply .invalidate
    w.invalidates .invalidate = true ∧ ¬(p.run afterRace).cache.dispatcher.IsStreaming
      ∧ (p.run afterRace).cache.peek = some 20
      ∧ ((p.run afterRace).deliveries.map fun d => (d.key, d.item))
          = [(1, .value ⟨20, 2, 0⟩), (0, .value ⟨10, 1, 0⟩)]
      ∧ ∃ content k, (p.run afterRace).cache.cell.phase.value? = some content ∧ content.value = 20
          ∧ content.origin.attempt = k ∧ 1 < k
          ∧ k ∈ (p.run afterRace).called ∧ k ∉ p.called := by
  have oneShot : ¬((((World.bare ⟨.periodic 1000, .unpaced⟩ none ()).run beforeRace).apply
      .invalidate).run afterRace).cache.dispatcher.IsStreaming := by
    rintro ⟨source, bound, continuous⟩
    cases bound
    cases continuous
  have h := nothing_stale ((Reachable.initial (.bare ⟨.periodic 1000, .unpaced⟩ none ())).run beforeRace)
    (m := .invalidate) rfl afterRace oneShot
  exact ⟨rfl, oneShot, rfl, rfl, h.1 20 rfl⟩

end World

end SingleFlight
