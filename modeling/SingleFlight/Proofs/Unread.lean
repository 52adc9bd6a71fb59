/-
  SingleFlight.Proofs.Unread — what a world is apart from its readers.

  The cell and the attempts do not know who reads.  So one can forget the
  readers, the look-outs and the marks that wake them, and ask what a move
  makes of all the rest: whatever is not a reader's own move makes the same of
  two worlds that differ in these alone.  What must not be forgotten is that
  somebody holds the cache; a single read that waits stands in for that.

  Main results:
    * `unattended_apply` — a move of somebody else reads nothing of what is
      forgotten.
    * `unattended_run` — two worlds that differ in their readers alone do not
      come apart.
-/
import SingleFlight.Proofs.Cancellation

namespace SingleFlight

variable {ε V : Type}

/-- Whether a move is made by a reader, or by the program with one. -/
def Move.isReading : Move ε V → Bool
  | .openReader .. | .follow _ | .dropReader _ | .reader _ => true
  | _ => false

/-! ## §1. What is forgotten. -/

namespace Cell

/-- The cell without its mark. -/
def unmarked (c : Cell V) : Cell V := { c with version := 0 }

/-- The cell without its mark and its phase. -/
def unphased (c : Cell V) : Cell V := { c with phase := .empty, version := 0 }

end Cell

namespace Cache

/-- What `g` leaves of a cell decides what it leaves after somebody showed interest, after the value was
thrown away, and after the readers were woken. -/
structure Forgets (ε : Type) (g : Cell V → Cell V) : Prop where
  twice : ∀ c, g (g c) = g c
  subscribe : ∀ c : Cache ε V, (c.withCell g).subscribe.withCell g = c.subscribe.withCell g
  invalidate : ∀ c : Cache ε V, (c.withCell g).invalidate.withCell g = c.invalidate.withCell g
  poke : ∀ c : Cache ε V, (c.withCell g).poke.withCell g = c.poke.withCell g

theorem forgets_unmarked : Forgets ε (Cell.unmarked : Cell V → Cell V) := by
  refine ⟨fun _ => rfl, fun c => ?_, fun _ => rfl, fun _ => rfl⟩
  have phase : (c.withCell Cell.unmarked).cell.phase = c.cell.phase := rfl
  unfold subscribe
  rw [phase]
  split <;> rfl

theorem forgets_unphased : Forgets ε (Cell.unphased : Cell V → Cell V) := by
  refine ⟨fun _ => rfl, fun c => ?_, fun _ => rfl, fun _ => rfl⟩
  have interested : c.subscribe.withCell Cell.unphased = c.withCell Cell.unphased := by
    unfold subscribe
    split <;> rfl
  rw [interested]
  rfl

/-- A report is taken in as it is by a cell that has lost its mark. -/
theorem take_unmarked (c : Cache ε V) (now : Instant) (n item : Nat) (report : Report V) :
    ((c.withCell Cell.unmarked).take now n item report).map (·.withCell Cell.unmarked) id
      = (c.take now n item report).map (·.withCell Cell.unmarked) id := by
  have latest : (c.withCell Cell.unmarked).dispatcher.latest = c.dispatcher.latest := rfl
  have keeps : (c.withCell Cell.unmarked).keeps item = c.keeps item := rfl
  unfold take
  rw [latest]
  split
  · rfl
  · cases report with
    | error => rfl
    | ok content =>
        dsimp only
        rw [keeps]
        split <;> rfl

end Cache

namespace World

open Cache (Forgets)

/-- The world with nobody but one read that waits, without look-outs, and with what `g` leaves of the cell. -/
def unattended (g : Cell V → Cell V) (w : World ε V) : World ε V :=
  { w with
    cache := w.cache.withCell g
    seats := [⟨0, .read, { reading := .once, stage := .waiting 0 }⟩]
    lookouts := []
    nextKey := 0
    deliveries := [] }

section

variable {g : Cell V → Cell V} (w : World ε V)

theorem unattended_twice (f : Forgets ε g) : (w.unattended g).unattended g = w.unattended g := by
  unfold unattended Cache.withCell
  dsimp only
  rw [f.twice]

theorem unattended_alive : (w.unattended g).isCacheAlive = true := by
  simp [isCacheAlive, unattended, Reader.holdsCache]

theorem unattended_hasReads : (w.unattended g).hasReads = true := rfl

/-- What is left of a world tells its dispatcher, its clock and whether the program holds the cache. -/
theorem unattended_frame {w w' : World ε V} (same : w.unattended g = w'.unattended g) :
    w'.cache.dispatcher = w.cache.dispatcher ∧ w'.now = w.now ∧ w'.hasHandle = w.hasHandle := by
  show (w'.unattended g).cache.dispatcher = (w.unattended g).cache.dispatcher
    ∧ (w'.unattended g).now = (w.unattended g).now
    ∧ (w'.unattended g).hasHandle = (w.unattended g).hasHandle
  rw [same]
  exact ⟨rfl, rfl, rfl⟩

/-- A change of the cache makes the same of what is left, if it reads no more. -/
theorem unattended_withCache (change : Cache ε V → Cache ε V)
    (same : (change (w.cache.withCell g)).withCell g = (change w.cache).withCell g) :
    (w.withCache change).unattended g = ((w.unattended g).withCache change).unattended g := by
  unfold withCache unattended
  dsimp only
  rw [same]

/-! ## §2. The attempts know nothing of the readers. -/

theorem unattended_callSource (a : Attempt ε V) :
    (w.callSource a).unattended g = (w.unattended g).callSource a := by
  unfold callSource
  dsimp only [unattended, withDispatcher, withCache, Cache.withCell]
  cases (w.cache.dispatcher.dismiss a.supersedes).binding with
  | none => rfl
  | some source =>
      dsimp only
      cases (if w.hasOwner then none else source.owner) with
      | some owner => rfl
      | none =>
          dsimp only [noteCall]
          cases source.shape with
          | oneShot call =>
              dsimp only
              generalize call _ = p
              cases p <;> rfl
          | continuous call =>
              dsimp only
              generalize call _ = p
              cases p <;> rfl

theorem unattended_askNext (a : Attempt ε V) :
    (w.askNext a).unattended g = (w.unattended g).askNext a := by
  unfold askNext
  cases a.offers.map fun offers : Nat → Offer ε V => offers a.item with
  | none => exact apply_ite (unattended g) ..
  | some offer =>
      cases offer with
      | item p => rfl
      | never => rfl
      | done => exact apply_ite (unattended g) ..

theorem unattended_produce (a : Attempt ε V) (outcome : ε → Instant → Outcome V) :
    (w.produce a outcome).unattended g = (w.unattended g).produce a outcome := by
  unfold produce
  dsimp only [unattended]
  cases outcome w.surroundings w.now <;> rfl

theorem unattended_answer (a : Attempt ε V) (answer : Answer V) (continues : Bool) :
    (w.answer a answer continues).unattended g = (w.unattended g).answer a answer continues := by
  unfold World.answer
  cases continues <;> rfl

variable {w}

/-- A report to a cache in being leaves the same whoever reads. -/
theorem unattended_report (alive : w.isCacheAlive = true) (a : Attempt ε V) (result : Report V) :
    (w.report a result).unattended Cell.unmarked
      = ((w.unattended Cell.unmarked).report a result).unattended Cell.unmarked := by
  have taken := w.cache.take_unmarked w.now a.number a.item result
  have kept : (w.unattended Cell.unmarked).cache.take w.now a.number a.item result
      = (w.cache.withCell Cell.unmarked).take w.now a.number a.item result := rfl
  unfold World.report
  rw [if_pos alive, if_pos (unattended_alive w)]
  have now : (w.unattended Cell.unmarked).now = w.now := rfl
  rw [now, kept]
  generalize (w.cache.withCell Cell.unmarked).take w.now a.number a.item result = forgetful at taken
  generalize w.cache.take w.now a.number a.item result = full at taken ⊢
  obtain ⟨cache, verdict⟩ := forgetful
  obtain ⟨cache', verdict'⟩ := full
  obtain ⟨same, rfl⟩ := Prod.mk.inj taken
  have same : cache'.withCell Cell.unmarked = cache.withCell Cell.unmarked := same.symm
  show { w.unattended Cell.unmarked with cache := cache'.withCell Cell.unmarked }.advanceTo a _
    = { w.unattended Cell.unmarked with cache := cache.withCell Cell.unmarked }.advanceTo a _
  rw [same]
  rfl

/-- **A step of an attempt leaves the same whoever reads**, and whatever marks there were. -/
theorem unattended_attempt (alive : w.isCacheAlive = true) (number : Nat) :
    (w.apply (.attempt number)).unattended Cell.unmarked
      = ((w.unattended Cell.unmarked).apply (.attempt number)).unattended Cell.unmarked := by
  show (w.advanceAttempt number).unattended Cell.unmarked
    = ((w.unattended Cell.unmarked).advanceAttempt number).unattended Cell.unmarked
  have running : (w.unattended Cell.unmarked).cache.dispatcher = w.cache.dispatcher := rfl
  unfold advanceAttempt
  rw [running]
  cases w.cache.dispatcher.attempt? number with
  | none => rfl
  | some a =>
      have can : (w.unattended Cell.unmarked).canStep a = w.canStep a := rfl
      dsimp only
      unfold stepAttempt
      rw [can]
      split
      next =>
        have twice {v : World ε V} {v' : World ε V} (same : v.unattended Cell.unmarked = v') :
            v.unattended Cell.unmarked = v'.unattended Cell.unmarked := by
          rw [← same]
          rfl
        cases a.progress with
        | launched | heldBack | stuck => rfl
        | queued => exact twice (unattended_callSource w a)
        | asking => exact twice (unattended_askNext w a)
        | producing _ outcome => exact twice (unattended_produce w a outcome)
        | reporting result => exact unattended_report alive a result
        | answering answer continues => exact twice (unattended_answer w a answer continues)
      next => rfl

end

/-! ## §3. What the others do. -/

section

variable {g : Cell V → Cell V} {w : World ε V}

theorem unattended_stopRefresher : w.stopRefresher.unattended g = (w.unattended g).stopRefresher := by
  unfold stopRefresher
  rw [apply_ite (unattended g)]
  rfl

theorem unattended_arm : w.armRefresher.unattended g = (w.unattended g).armRefresher := by
  have refresher : (w.unattended g).refresher = w.refresher := rfl
  have deadline : (w.unattended g).cache.staleness.deadline = w.cache.staleness.deadline := rfl
  unfold armRefresher
  rw [refresher, deadline]
  cases w.refresher with
  | arming wokenFor =>
      dsimp only
      cases Refresher.arm wokenFor w.cache.staleness.deadline with
      | stopped => exact unattended_stopRefresher
      | idle | arming | armed => rfl
  | idle | armed | stopped => rfl

theorem heed_forgets (f : Forgets ε g) (c : Cache ε V) (notice : Notice) :
    (Refresher.heed (c.withCell g) notice).withCell g = (Refresher.heed c notice).withCell g := by
  cases notice with
  | flush => exact f.invalidate c
  | refresh => exact f.poke c
  | reschedule => exact congrArg (fun cell => { c with cell }) (f.twice c.cell)

theorem hear_forgets (f : Forgets ε g) (c : Cache ε V) (received : Received) :
    (Refresher.hear (c.withCell g) received).withCell g = (Refresher.hear c received).withCell g := by
  cases received with
  | signal s => exact congrArg (fun cell => { Refresher.hear c (.signal s) with cell }) (f.twice c.cell)
  | lagged => exact f.poke c
  | closed => exact congrArg (fun cell => { c with cell }) (f.twice c.cell)

theorem unattended_react (f : Forgets ε g) (cue : Cue) :
    (w.react cue).unattended g = ((w.unattended g).react cue).unattended g := by
  have rests : w.unattended g = (w.unattended g).unattended g := (unattended_twice w f).symm
  have refresher : (w.unattended g).refresher = w.refresher := rfl
  have notices : (w.unattended g).cache.staleness.notices = w.cache.staleness.notices := rfl
  have bus : (w.unattended g).bus = w.bus := rfl
  have rings : (w.unattended g).hasCue .timer = w.hasCue .timer := rfl
  unfold react
  rw [refresher, notices, bus, rings]
  cases w.refresher with
  | idle | arming | stopped => exact rests
  | armed wokenFor deadline =>
      cases cue with
      | notice =>
          dsimp only
          cases w.cache.staleness.notices with
          | nil => exact rests
          | cons notice rest =>
              have same := unattended_withCache (w.withStaleness ({ · with notices := rest }))
                (Refresher.heed · notice) (heed_forgets f _ notice)
              exact congrArg (fun v => { v with refresher := .arming wokenFor }) same
      | signal =>
          dsimp only
          cases w.bus.bind Bus.receive? with
          | none => exact rests
          | some found =>
              have same := unattended_withCache w (Refresher.hear · found.1) (hear_forgets f _ found.1)
              exact congrArg (fun v => { v with
                bus := some (if found.1 = Received.closed then found.2.leave else found.2)
                refresher := .arming wokenFor }) same
      | timer =>
          dsimp only
          split
          · exact congrArg (fun v => { v with refresher := .arming deadline })
              (unattended_withCache w Cache.poke (f.poke w.cache))
          · exact rests

/-- The refresher does not end with the handle while somebody reads for a single result. -/
theorem dropHandle_of_hasReads (reads : w.hasReads = true) :
    w.dropHandle = { w with hasHandle := false } := by
  have reads : ({ w with hasHandle := false } : World ε V).hasReads = true := reads
  rw [dropHandle, untether, if_neg (by simp [reads])]

/-- **A move of somebody else reads nothing of what is forgotten.** -/
theorem unattended_apply (f : Forgets ε g) {m : Move ε V} (unread : m.isReading = false)
    (reads : m = .dropHandle → w.hasReads = true)
    (attempts : ∀ n, m = .attempt n →
      (w.apply (.attempt n)).unattended g = ((w.unattended g).apply (.attempt n)).unattended g) :
    (w.apply m).unattended g = ((w.unattended g).apply m).unattended g := by
  have direct {v : World ε V} {v' : World ε V} (same : v.unattended g = v') :
      v.unattended g = v'.unattended g := by
    rw [← same, unattended_twice v f]
  cases m with
  | openReader | follow | dropReader | reader => cases unread
  | attempt n => exact attempts n rfl
  | bind source =>
      refine direct ?_
      show (w.bind source).unattended g = (w.unattended g).bind source
      have dispatcher : (w.unattended g).cache.dispatcher = w.cache.dispatcher := rfl
      unfold bind
      rw [dispatcher]
      cases w.cache.dispatcher.bind source <;> rfl
  | subscribe =>
      simp only [apply]
      by_cases handle : w.hasHandle = true
      · rw [if_pos handle, if_pos (by exact handle)]
        exact unattended_withCache w Cache.subscribe (f.subscribe w.cache)
      · rw [if_neg handle, if_neg (by exact handle), unattended_twice w f]
  | invalidate =>
      simp only [apply]
      by_cases handle : w.hasHandle = true
      · rw [if_pos handle, if_pos (by exact handle)]
        exact unattended_withCache w Cache.invalidate (f.invalidate w.cache)
      · rw [if_neg handle, if_neg (by exact handle), unattended_twice w f]
  | poke =>
      simp only [apply]
      by_cases handle : w.hasHandle = true
      · rw [if_pos handle, if_pos (by exact handle)]
        exact unattended_withCache w Cache.poke (f.poke w.cache)
      · rw [if_neg handle, if_neg (by exact handle), unattended_twice w f]
  | flush | observe | recordSuccess | publish | closeBus | dropOwner | surround | pass => exact direct rfl
  | takeNotices | dropNotices | startRefresher | stopRefresher =>
      refine direct ?_
      simp only [apply, World.startRefresher, World.stopRefresher]
      rw [apply_ite (unattended g)]
      rfl
  | openLookout =>
      have apart (v : World ε V) : (v.openLookout).unattended g = v.unattended g := by
        unfold World.openLookout
        split <;> rfl
      exact (apart w).trans ((apart _).trans (unattended_twice w f)).symm
  | pollLookout | dropLookout => exact direct rfl
  | dropHandle =>
      refine direct ?_
      show w.dropHandle.unattended g = (w.unattended g).dropHandle
      rw [dropHandle_of_hasReads (reads rfl), dropHandle_of_hasReads (unattended_hasReads w)]
      rfl
  | arm => exact direct unattended_arm
  | react cue => exact unattended_react f cue

/-! ## §4. Worlds that differ in their readers alone. -/

/-- Nobody else moves a reader or hands out an item. -/
theorem Step.unread {w' : World ε V} {m : Move ε V} (s : Step w m w') (unread : m.isReading = false) :
    w'.seats = w.seats ∧ w'.deliveries = w.deliveries := by
  cases s with
  | aside ha | invalidate ha | poke ha => exact ⟨ha.seats, ha.deliveries⟩
  | pass | bind | subscribe => exact ⟨rfl, rfl⟩
  | openReader _ _ _ own | follow _ own | dropReader _ own | reader own =>
      rw [own] at unread
      cases unread
  | attempt own running t => exact ⟨t.seats.1, t.seats.2.2⟩

theorem run_unread {moves : List (Move ε V)} (unread : ∀ m ∈ moves, m.isReading = false) :
    (w.run moves).seats = w.seats ∧ (w.run moves).deliveries = w.deliveries := by
  induction moves generalizing w with
  | nil => exact ⟨rfl, rfl⟩
  | cons m moves ih =>
      obtain ⟨seats, deliveries⟩ := (apply_step w m).unread (unread m List.mem_cons_self)
      obtain ⟨seats', deliveries'⟩ := ih (w := w.apply m) fun m' hm => unread m' (List.mem_cons_of_mem m hm)
      exact ⟨seats'.trans seats, deliveries'.trans deliveries⟩

/-- A read that is not through holds the cache, and keeps the refresher. -/
def HasOpenRead (w : World ε V) : Prop :=
  ∃ s ∈ w.seats, s.role = .read ∧ s.reader.holdsCache = true

theorem HasOpenRead.hasReads (h : w.HasOpenRead) : w.hasReads = true := by
  obtain ⟨s, seated, role, _⟩ := h
  exact List.any_eq_true.mpr ⟨s, seated, by simp [role]⟩

theorem HasOpenRead.alive (h : w.HasOpenRead) : w.isCacheAlive = true := by
  obtain ⟨s, seated, _, holds⟩ := h
  exact isCacheAlive_of_seat seated holds

/-- **Worlds that differ in their readers alone do not come apart**, whatever the others do, as long as
in each of them somebody reads for a single result. -/
theorem unattended_run {w' : World ε V} (reads : w.HasOpenRead) (reads' : w'.HasOpenRead)
    (same : w.unattended Cell.unmarked = w'.unattended Cell.unmarked) {moves : List (Move ε V)}
    (unread : ∀ m ∈ moves, m.isReading = false) :
    (w.run moves).unattended Cell.unmarked = (w'.run moves).unattended Cell.unmarked := by
  induction moves generalizing w w' with
  | nil => exact same
  | cons m moves ih =>
      have other := unread m List.mem_cons_self
      have leaves {v : World ε V} (reads : v.HasOpenRead) :
          (v.apply m).unattended Cell.unmarked
            = ((v.unattended Cell.unmarked).apply m).unattended Cell.unmarked :=
        unattended_apply Cache.forgets_unmarked other (fun _ => reads.hasReads)
          fun n _ => unattended_attempt reads.alive n
      have stays {v : World ε V} (reads : v.HasOpenRead) : (v.apply m).HasOpenRead := by
        unfold HasOpenRead
        rw [((apply_step v m).unread other).1]
        exact reads
      refine ih (stays reads) (stays reads') ?_ fun m' hm => unread m' (List.mem_cons_of_mem m hm)
      rw [leaves reads, leaves reads', same]

end

end World

end SingleFlight
