/-
  SingleFlight.Proofs.Repacing — a window of nothing is no window.

  The pacing has a say in one place only: how long a launch holds its attempt
  back.  A window of nothing holds nobody back.  So two worlds that differ in
  their pacing alone, one without any and one with a window of nothing, make the
  same of every move, and their runs never come apart.

  Main results:
    * `repaced_apply` — a move does the same to both.
    * `repaced_run` — so does a run.
-/
import SingleFlight.Proofs.Spacing

namespace SingleFlight

variable {ε V : Type}

/-! ## §1. Another pacing. -/

/-- The same dispatcher under another pacing. -/
def Dispatcher.repaced (pacing : Pacing) (d : Dispatcher ε V) : Dispatcher ε V := { d with pacing }

/-- The same cache under another pacing. -/
def Cache.repaced (pacing : Pacing) (c : Cache ε V) : Cache ε V :=
  { c with dispatcher := c.dispatcher.repaced pacing }

/-- The same world under another pacing. -/
def World.repaced (pacing : Pacing) (w : World ε V) : World ε V :=
  w.withCache (·.repaced pacing)

/-- The dispatcher holds nobody back. -/
def Dispatcher.IsUnpaced (d : Dispatcher ε V) : Prop := d.pacing = .unpaced ∨ d.pacing = .spaced 0

theorem Dispatcher.IsUnpaced.holdBack {d : Dispatcher ε V} (h : d.IsUnpaced) (now : Instant) :
    d.holdBack now = 0 := by
  unfold Dispatcher.holdBack
  rcases h with none | nothing
  · rw [none]
  · rw [nothing]
    cases d.lastStart <;> simp

/-! ## §2. Launching. -/

namespace Dispatcher

variable {d : Dispatcher ε V} {pacing : Pacing}

theorem repaced_dismiss (o : Option Nat) :
    (d.repaced pacing).dismiss o = (d.dismiss o).repaced pacing := by
  cases o with
  | none => rfl
  | some n =>
      show (d.repaced pacing).abort n = (d.abort n).repaced pacing
      have listed : (d.repaced pacing).attempt? n = d.attempt? n := rfl
      unfold abort
      rw [listed]
      split
      next =>
        unfold lose noteAnswer
        have answered : ((d.repaced pacing).retire n).hasAnswered n = (d.retire n).hasAnswered n := rfl
        rw [answered]
        split <;> rfl
      next => rfl

theorem repaced_settle (n : Nat) (answer : Answer V) :
    (d.repaced pacing).settle n answer = (d.settle n answer).repaced pacing := by
  have answered : (d.repaced pacing).hasAnswered n = d.hasAnswered n := rfl
  unfold settle noteAnswer
  rw [answered]
  split <;> rfl

theorem repaced_lose (n : Nat) : (d.repaced pacing).lose n = (d.lose n).repaced pacing := by
  have answered : ((d.repaced pacing).retire n).hasAnswered n = (d.retire n).hasAnswered n := rfl
  unfold lose noteAnswer
  rw [answered]
  split <;> rfl

/-- The same launch under another pacing. -/
def Launch.repaced (pacing : Pacing) : Launch ε V → Launch ε V
  | .unbound => .unbound
  | .overflow left => .overflow (left.repaced pacing)
  | .started next number => .started (next.repaced pacing) number

/-- **A launch does the same under two pacings that hold nobody back.** -/
theorem repaced_launch (unpaced : d.IsUnpaced) (repaced : (d.repaced pacing).IsUnpaced) (now : Instant) :
    (d.repaced pacing).launch now = Launch.repaced pacing (d.launch now) := by
  have binding : (d.repaced pacing).binding = d.binding := rfl
  have cleared : (d.repaced pacing).clear = d.clear.repaced pacing := by
    have stream : (d.repaced pacing).answeredStream = d.answeredStream := rfl
    unfold clear
    rw [stream, repaced_dismiss]
    rfl
  unfold launch
  rw [binding]
  cases d.binding with
  | none => rfl
  | some source =>
      dsimp only
      rw [repaced.holdBack, unpaced.holdBack, cleared]
      split <;> rfl

end Dispatcher

/-! ## §3. Looking. -/

namespace Cache

variable {c : Cache ε V} {pacing : Pacing}

theorem repaced_launch (unpaced : c.dispatcher.IsUnpaced)
    (repaced : (c.repaced pacing).dispatcher.IsUnpaced) (now : Instant) :
    (c.repaced pacing).launch now = (c.launch now).map (·.repaced pacing) id := by
  have launched : (c.repaced pacing).dispatcher.launch now
      = Dispatcher.Launch.repaced pacing (c.dispatcher.launch now) :=
    Dispatcher.repaced_launch unpaced repaced now
  unfold launch
  rw [launched]
  cases c.dispatcher.launch now <;> rfl

theorem repaced_join : (c.repaced pacing).join = c.join.map (·.repaced pacing) id := by
  have pending : (c.repaced pacing).dispatcher.pending = c.dispatcher.pending := rfl
  unfold join
  rw [pending]
  split <;> rfl

theorem repaced_access (unpaced : c.dispatcher.IsUnpaced)
    (repaced : (c.repaced pacing).dispatcher.IsUnpaced) (now : Instant) (delivered : Option Nat) :
    (c.repaced pacing).access now delivered = (c.access now delivered).map (·.repaced pacing) id := by
  have cell : (c.repaced pacing).cell = c.cell := rfl
  have staleness : (c.repaced pacing).staleness = c.staleness := rfl
  have launched : ((c.repaced pacing).launch now).map id Access.ticket
      = (((c.launch now).map id Access.ticket : Cache ε V × Access V)).map (·.repaced pacing) id := by
    rw [repaced_launch unpaced repaced]
    rfl
  have joined : ((c.repaced pacing).join).map id Access.ticket
      = ((c.join.map id Access.ticket : Cache ε V × Access V)).map (·.repaced pacing) id := by
    rw [repaced_join]
    rfl
  unfold access
  rw [cell, staleness]
  split
  next => rfl
  next =>
    split
    next => exact launched
    next => exact launched
    next => rfl
    next => exact joined
    next => rfl
    next =>
      split
      · exact launched
      · split <;> rfl
    next => rfl
    next => rfl

theorem repaced_demand (unpaced : c.dispatcher.IsUnpaced)
    (repaced : (c.repaced pacing).dispatcher.IsUnpaced) (now : Instant) :
    (c.repaced pacing).demand now = (c.demand now).map (·.repaced pacing) id := by
  have cell : (c.repaced pacing).cell = c.cell := rfl
  unfold demand
  rw [cell]
  split
  next => rfl
  next =>
    split
    · exact repaced_join
    · exact repaced_launch unpaced repaced now

theorem repaced_subscribe : (c.repaced pacing).subscribe = c.subscribe.repaced pacing := by
  have cell : (c.repaced pacing).cell = c.cell := rfl
  unfold subscribe
  rw [cell]
  split <;> rfl

end Cache

/-- A reader's step does the same under both. -/
theorem Reader.repaced_step {r : Reader} {c : Cache ε V} {pacing : Pacing}
    (unpaced : c.dispatcher.IsUnpaced) (repaced : (c.repaced pacing).dispatcher.IsUnpaced)
    (now : Instant) : r.step (c.repaced pacing) now = (r.step c now).map (·.repaced pacing) id := by
  have answers (k : Nat) : (c.repaced pacing).dispatcher.answer? k = c.dispatcher.answer? k := rfl
  have cell : (c.repaced pacing).cell = c.cell := rfl
  unfold step
  rw [cell]
  split
  next => rw [Cache.repaced_subscribe]; rfl
  next => rw [Cache.repaced_access unpaced repaced]; rfl
  next => rw [Cache.repaced_demand unpaced repaced]; rfl
  next => rw [answers]; split <;> rfl
  next => rw [answers]; split <;> rfl
  next => split <;> rfl
  next => rfl
  next => rfl
  next => rfl

namespace World

/-! ## §4. Moves. -/

variable {w : World ε V} {pacing : Pacing}

theorem repaced_stopRefresher : (w.repaced pacing).stopRefresher = w.stopRefresher.repaced pacing := by
  have refresher : (w.repaced pacing).refresher = w.refresher := rfl
  unfold stopRefresher
  rw [refresher]
  split <;> rfl

theorem repaced_untether : (w.repaced pacing).untether = w.untether.repaced pacing := by
  have tethered : ((w.repaced pacing).isTethered && !(w.repaced pacing).hasHandle
      && !(w.repaced pacing).hasReads) = (w.isTethered && !w.hasHandle && !w.hasReads) := rfl
  unfold untether
  rw [tethered]
  split
  · exact repaced_stopRefresher
  · rfl

theorem repaced_dropReader (key : Nat) :
    (w.repaced pacing).dropReader key = (w.dropReader key).repaced pacing :=
  repaced_untether (w := { w with seats := w.seats.filter (·.key != key) })

theorem repaced_advanceReader (unpaced : w.cache.dispatcher.IsUnpaced)
    (repaced : (w.repaced pacing).cache.dispatcher.IsUnpaced) (key : Nat) :
    (w.repaced pacing).advanceReader key = (w.advanceReader key).repaced pacing := by
  have seats : (w.repaced pacing).seat? key = w.seat? key := rfl
  have stepped (r : Reader) : r.step (w.repaced pacing).cache (w.repaced pacing).now
      = (r.step w.cache w.now).map (·.repaced pacing) id := Reader.repaced_step unpaced repaced w.now
  unfold advanceReader
  rw [seats]
  split
  next => rfl
  next seat _ =>
    rw [stepped]
    generalize seat.reader.step w.cache w.now = out
    obtain ⟨cache, reader, item⟩ := out
    dsimp only [Prod.map, id]
    cases item with
    | none => rfl
    | some item =>
        dsimp only
        split
        · exact repaced_dropReader (w := (w.reseat key cache reader).noteDelivery key _) key
        · rfl

theorem repaced_armRefresher : (w.repaced pacing).armRefresher = w.armRefresher.repaced pacing := by
  have refresher : (w.repaced pacing).refresher = w.refresher := rfl
  have staleness : (w.repaced pacing).cache.staleness = w.cache.staleness := rfl
  unfold armRefresher
  rw [refresher, staleness]
  split
  next =>
    split
    · exact repaced_stopRefresher
    · rfl
  next => rfl

theorem repaced_react (cue : Cue) : (w.repaced pacing).react cue = (w.react cue).repaced pacing := by
  have refresher : (w.repaced pacing).refresher = w.refresher := rfl
  have staleness : (w.repaced pacing).cache.staleness = w.cache.staleness := rfl
  have bus : (w.repaced pacing).bus = w.bus := rfl
  have due : (w.repaced pacing).hasCue .timer = w.hasCue .timer := rfl
  unfold react
  rw [refresher]
  cases w.refresher with
  | idle | arming | stopped => rfl
  | armed wokenFor deadline =>
      cases cue with
      | notice =>
          dsimp only
          rw [staleness]
          cases w.cache.staleness.notices with
          | nil => rfl
          | cons notice rest => cases notice <;> rfl
      | signal =>
          dsimp only
          rw [bus]
          cases w.bus.bind Bus.receive? with
          | none => rfl
          | some found =>
              obtain ⟨received, left⟩ := found
              cases received <;> rfl
      | timer =>
          dsimp only
          rw [due]
          split <;> rfl

theorem repaced_dismissing (o : Option Nat) : (w.repaced pacing).withDispatcher (·.dismiss o)
    = (w.withDispatcher (·.dismiss o)).repaced pacing :=
  congrArg (fun d => w.withDispatcher fun _ => d) (Dispatcher.repaced_dismiss o)

theorem repaced_losing (n : Nat) : (w.repaced pacing).withDispatcher (·.lose n)
    = (w.withDispatcher (·.lose n)).repaced pacing :=
  congrArg (fun d => w.withDispatcher fun _ => d) (Dispatcher.repaced_lose n)

theorem repaced_settling (n : Nat) (answer : Answer V) :
    (w.repaced pacing).withDispatcher (·.settle n answer)
      = (w.withDispatcher (·.settle n answer)).repaced pacing :=
  congrArg (fun d => w.withDispatcher fun _ => d) (Dispatcher.repaced_settle n answer)

theorem repaced_callSource (a : Attempt ε V) :
    (w.repaced pacing).callSource a = (w.callSource a).repaced pacing := by
  unfold callSource
  rw [repaced_dismissing]
  generalize w.withDispatcher (·.dismiss a.supersedes) = v
  have binding : (v.repaced pacing).cache.dispatcher.binding = v.cache.dispatcher.binding := rfl
  have owner : (v.repaced pacing).hasOwner = v.hasOwner := rfl
  dsimp only
  rw [binding, owner]
  cases v.cache.dispatcher.binding with
  | none => exact repaced_losing a.number
  | some source =>
      dsimp only
      cases (if v.hasOwner then none else source.owner) with
      | some => rfl
      | none =>
          -- the call has the same number in both
          have calls : ((v.repaced pacing).noteCall a).calls = (v.noteCall a).calls := rfl
          dsimp only
          rw [calls]
          cases source.shape with
          | oneShot call =>
              dsimp only
              cases call (v.noteCall a).calls.length <;> rfl
          | continuous call =>
              dsimp only
              cases call (v.noteCall a).calls.length <;> rfl

theorem repaced_askNext (a : Attempt ε V) :
    (w.repaced pacing).askNext a = (w.askNext a).repaced pacing := by
  unfold askNext
  split
  next => rfl
  next => rfl
  next => split <;> rfl
  next => split <;> rfl

theorem repaced_produce (a : Attempt ε V) (outcome : ε → Instant → Outcome V) :
    (w.repaced pacing).produce a outcome = (w.produce a outcome).repaced pacing := by
  have came : outcome (w.repaced pacing).surroundings (w.repaced pacing).now
      = outcome w.surroundings w.now := rfl
  unfold produce
  rw [came]
  dsimp only
  split
  next => rfl
  next => rfl
  next => rfl
  next => exact repaced_losing (w := { w with produced := w.produced + 1 }) a.number

theorem repaced_report (a : Attempt ε V) (report : Report V) :
    (w.repaced pacing).report a report = (w.report a report).repaced pacing := by
  have alive : (w.repaced pacing).isCacheAlive = w.isCacheAlive := rfl
  have taken : (w.repaced pacing).cache.take (w.repaced pacing).now a.number a.item report
      = (w.cache.take w.now a.number a.item report).map (·.repaced pacing) id := by
    have latest : (w.cache.repaced pacing).dispatcher.latest = w.cache.dispatcher.latest := rfl
    have keeps : (w.cache.repaced pacing).keeps a.item = w.cache.keeps a.item := rfl
    show (w.cache.repaced pacing).take w.now a.number a.item report = _
    unfold Cache.take
    rw [latest, keeps]
    split
    next => rfl
    next =>
      split
      next =>
        dsimp only
        split <;> rfl
      next => rfl
  unfold World.report
  rw [alive, taken]
  cases w.isCacheAlive <;> rfl

theorem repaced_answer (a : Attempt ε V) (answer : Answer V) (continues : Bool) :
    (w.repaced pacing).answer a answer continues = (w.answer a answer continues).repaced pacing := by
  unfold World.answer
  rw [repaced_settling]
  cases continues <;> rfl

theorem repaced_advanceAttempt (number : Nat) :
    (w.repaced pacing).advanceAttempt number = (w.advanceAttempt number).repaced pacing := by
  have listed : (w.repaced pacing).cache.dispatcher.attempt? number
      = w.cache.dispatcher.attempt? number := rfl
  unfold advanceAttempt
  rw [listed]
  split
  next a _ =>
    have can : (w.repaced pacing).canStep a = w.canStep a := rfl
    unfold stepAttempt
    rw [can]
    split
    next =>
      cases a.progress with
      | launched | heldBack | stuck => rfl
      | queued => exact repaced_callSource a
      | asking => exact repaced_askNext a
      | producing due outcome => exact repaced_produce a outcome
      | reporting report => exact repaced_report a report
      | answering answer continues => exact repaced_answer a answer continues
    next => rfl
  next => rfl

/-- **A move does the same under two pacings that hold nobody back.** -/
theorem repaced_apply (unpaced : w.cache.dispatcher.IsUnpaced)
    (repaced : (w.repaced pacing).cache.dispatcher.IsUnpaced) (m : Move ε V) :
    (w.repaced pacing).apply m = (w.apply m).repaced pacing := by
  have handle : (w.repaced pacing).hasHandle = w.hasHandle := rfl
  have spare : (w.repaced pacing).hasSpareEnd = w.hasSpareEnd := rfl
  cases m with
  | bind source =>
      have bound : (w.repaced pacing).cache.dispatcher.sealed = w.cache.dispatcher.sealed := rfl
      simp only [apply, World.bind, Dispatcher.bind]
      rw [bound]
      cases w.cache.dispatcher.sealed <;> rfl
  | subscribe =>
      have interest : (w.repaced pacing).withCache Cache.subscribe
          = (w.withCache Cache.subscribe).repaced pacing :=
        congrArg (fun c => w.withCache fun _ => c) (Cache.repaced_subscribe (c := w.cache))
      simp only [apply]
      rw [handle]
      split
      · exact interest
      · rfl
  | invalidate | poke =>
      simp only [apply]
      rw [handle]
      split <;> rfl
  | flush | observe | recordSuccess | publish | closeBus | follow | pollLookout | dropLookout
  | dropOwner | surround | pass => rfl
  | takeNotices | dropNotices =>
      simp only [apply]
      rw [spare]
      split <;> rfl
  | startRefresher =>
      simp only [apply, startRefresher]
      rw [handle, spare]
      split <;> rfl
  | stopRefresher => exact repaced_stopRefresher
  | openReader reading role =>
      simp only [apply, openReader]
      rw [handle]
      split <;> rfl
  | openLookout =>
      simp only [apply, openLookout]
      rw [handle]
      split <;> rfl
  | dropReader key => exact repaced_dropReader key
  | dropHandle => exact repaced_untether (w := { w with hasHandle := false })
  | reader key => exact repaced_advanceReader unpaced repaced key
  | attempt number => exact repaced_advanceAttempt number
  | arm => exact repaced_armRefresher
  | react cue => exact repaced_react cue

/-- **A run under a window of nothing is one without a window**, move by move. -/
theorem repaced_run (reachable : Reachable w) (unpaced : w.cache.dispatcher.IsUnpaced)
    (repaced : (w.repaced pacing).cache.dispatcher.IsUnpaced) (moves : List (Move ε V)) :
    (w.repaced pacing).run moves = (w.run moves).repaced pacing := by
  induction moves generalizing w with
  | nil => rfl
  | cons m moves ih =>
      have still : (w.apply m).cache.dispatcher.IsUnpaced := by
        unfold Dispatcher.IsUnpaced at unpaced ⊢
        rwa [(apply_step w m).pacing reachable.ordered]
      show ((w.repaced pacing).apply m).run moves = _
      rw [repaced_apply unpaced repaced]
      exact ih (reachable.move m) still repaced

end World

end SingleFlight
