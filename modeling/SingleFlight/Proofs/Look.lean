/-
  SingleFlight.Proofs.Look — what one look at the cache can come to.

  A reader's step opens at most one critical section of the cache.  This file
  turns those sections around: from what came out to what the cache was like.
  `Ticketed` lists the fates of a reader that an attempt has to serve,
  `Accessed` those of a look, and `Touch` forgets what the reader got and
  keeps what became of the cache.

  Main results:
    * `demand_ticketed`, `access_accessed` — every section is listed.
    * `Reader.step_act` — so is every step of a reader.
    * `Reader.step_stepped` — what becomes of the cache with a step, where the
      items come from, and whom the reader waits for.
-/
import SingleFlight.Proofs.Running
import SingleFlight.Reader

namespace SingleFlight

variable {ε V : Type}

namespace Cache

/-! ## §1. Being served by an attempt. -/

/-- The cache after a launch that left the dispatcher `next`. -/
def begun (c : Cache ε V) (next : Dispatcher ε V) : Cache ε V :=
  { c with dispatcher := next }.withCell fun cell =>
    (cell.tally Counters.countFetch).moveTo .calculating

/-- The fates of a reader that an attempt has to serve: what becomes of the cache, and the
reader's ticket. -/
inductive Ticketed (c : Cache ε V) (now : Instant) : Cache ε V × Ticket → Prop where
  /-- A new attempt was launched. -/
  | started {next : Dispatcher ε V} {n : Nat} (sound : c.cell.broken = none)
      (idle : c.cell.phase ≠ .calculating) (h : c.dispatcher.launch now = .started next n) :
      Ticketed c now (c.begun next, .wait n)
  /-- No source is bound. -/
  | unbound (sound : c.cell.broken = none) (idle : c.cell.phase ≠ .calculating)
      (h : c.dispatcher.launch now = .unbound) : Ticketed c now (c, .failed .unbound)
  /-- The start lies beyond the clock. -/
  | overflow {left : Dispatcher ε V} (sound : c.cell.broken = none)
      (idle : c.cell.phase ≠ .calculating) (h : c.dispatcher.launch now = .overflow left) :
      Ticketed c now ({ c with dispatcher := left }, .crashed)
  /-- The reader joined the attempt on its way. -/
  | joined {n : Nat} (sound : c.cell.broken = none) (busy : c.cell.phase = .calculating)
      (h : c.dispatcher.pending = some n) :
      Ticketed c now (c.withCell (·.tally Counters.countCoalesced), .wait n)
  /-- There was nothing to join. -/
  | lost (busy : c.cell.phase = .calculating) (h : c.dispatcher.pending = none) :
      Ticketed c now
        (c.withCell fun cell => { cell with broken := some Failure.lostFlight },
          .failed (.internal Failure.lostFlight))
  /-- The cell can no longer be used. -/
  | broken {fault : String} (h : c.cell.broken = some fault) :
      Ticketed c now (c, .failed (.internal fault))

theorem launch_ticketed {c : Cache ε V} {now : Instant} (sound : c.cell.broken = none)
    (idle : c.cell.phase ≠ .calculating) : Ticketed c now (c.launch now) := by
  unfold launch
  cases h : c.dispatcher.launch now with
  | unbound => exact .unbound sound idle h
  | overflow left => exact .overflow sound idle h
  | started next n => exact .started sound idle h

theorem join_ticketed {c : Cache ε V} {now : Instant} (sound : c.cell.broken = none)
    (busy : c.cell.phase = .calculating) : Ticketed c now c.join := by
  unfold join
  cases h : c.dispatcher.pending with
  | none => exact .lost busy h
  | some n => exact .joined sound busy h

/-- Every demand is listed. -/
theorem demand_ticketed (c : Cache ε V) (now : Instant) : Ticketed c now (c.demand now) := by
  unfold demand
  cases hb : c.cell.broken with
  | some fault => exact .broken hb
  | none =>
      cases hp : c.cell.phase with
      | calculating => exact join_ticketed hb hp
      | empty => exact launch_ticketed hb (by simp [hp])
      | flushed => exact launch_ticketed hb (by simp [hp])
      | invalid refetch => exact launch_ticketed hb (by simp [hp])
      | holding content => exact launch_ticketed hb (by simp [hp])

/-! ## §2. Looking. -/

/-- The fates of a look: what becomes of the cache, and what the reader gets. -/
inductive Accessed (c : Cache ε V) (now : Instant) (delivered : Option Nat) :
    Cache ε V × Access V → Prop where
  /-- An attempt has to serve the reader. -/
  | ticket {c' : Cache ε V} {t : Ticket} (h : Ticketed c now (c', t)) :
      Accessed c now delivered (c', .ticket t)
  /-- There is nothing to hand out: the value is gone, or not to be handed out to this reader. -/
  | nothing (h : c.cell.phase = .invalid false ∨ ∃ v, c.cell.phase = .holding v
        ∧ ∀ content, v = .concealed content → delivered = some c.cell.revision) :
      Accessed c now delivered (c, .nothing)
  /-- The reader took notice of a flush. -/
  | noticed (h : c.cell.phase = .flushed) :
      Accessed c now delivered (c.withCell (·.moveTo (.invalid false)), .nothing)
  /-- The held value was handed out. -/
  | served {content : Sourced V} (h : c.cell.phase = .holding (.concealed content))
      (fresh : c.staleness.isDue now = false) (unseen : delivered ≠ some c.cell.revision) :
      Accessed c now delivered
        (c.withCell (·.tally Counters.countDelivery), .served content c.cell.revision)

/-- Every look is listed. -/
theorem access_accessed (c : Cache ε V) (now : Instant) (delivered : Option Nat) :
    Accessed c now delivered (c.access now delivered) := by
  unfold access
  cases hb : c.cell.broken with
  | some fault => exact .ticket (.broken hb)
  | none =>
      have launches (idle : c.cell.phase ≠ .calculating) :
          Accessed c now delivered ((c.launch now).map id .ticket) :=
        .ticket (launch_ticketed hb idle)
      cases hp : c.cell.phase with
      | empty => exact launches (by simp [hp])
      | calculating => exact .ticket (join_ticketed hb hp)
      | flushed => exact .noticed hp
      | invalid refetch =>
          cases refetch with
          | true => exact launches (by simp [hp])
          | false => exact .nothing (Or.inl hp)
      | holding content =>
          cases content with
          | exposed v => exact .nothing (Or.inr ⟨_, hp, fun _ same => nomatch same⟩)
          | absent => exact .nothing (Or.inr ⟨_, hp, fun _ same => nomatch same⟩)
          | concealed content =>
              cases hd : c.staleness.isDue now with
              | true => exact launches (by simp [hp])
              | false =>
                  dsimp only
                  rw [if_neg (by simp)]
                  by_cases hr : delivered = some c.cell.revision
                  · rw [if_pos hr]
                    exact .nothing (Or.inr ⟨_, hp, fun _ _ => hr⟩)
                  · rw [if_neg hr]
                    exact .served hp hd hr

/-! ## §3. What becomes of the cache. -/

/-- The ways in which a reader changes the cache. -/
inductive Touch (c : Cache ε V) (now : Instant) : Cache ε V → Prop where
  /-- At most the counters change. -/
  | tally (f : Counters → Counters) : Touch c now (c.withCell (·.tally f))
  /-- Somebody took notice that the value is gone, or asks for another. -/
  | noticed (refetch : Bool) (h : c.cell.phase = .flushed ∨ c.cell.phase = .invalid false) :
      Touch c now (c.withCell (·.moveTo (.invalid refetch)))
  /-- An attempt was launched. -/
  | started {next : Dispatcher ε V} {n : Nat} (idle : c.cell.phase ≠ .calculating)
      (h : c.dispatcher.launch now = .started next n) : Touch c now (c.begun next)
  /-- A launch ran beyond the clock. -/
  | overflow {left : Dispatcher ε V} (idle : c.cell.phase ≠ .calculating)
      (h : c.dispatcher.launch now = .overflow left) : Touch c now { c with dispatcher := left }
  /-- The bookkeeping broke. -/
  | lost (busy : c.cell.phase = .calculating) (h : c.dispatcher.pending = none) :
      Touch c now (c.withCell fun cell => { cell with broken := some Failure.lostFlight })

theorem Touch.rest {c : Cache ε V} {now : Instant} : Touch c now c := .tally id

/-- What a reader's section makes of the phase: nothing, a mark that the value is gone, or a fetch on
its way. -/
theorem Touch.phase_cases {c c' : Cache ε V} {now : Instant} (t : Touch c now c') :
    c'.cell.phase = c.cell.phase
      ∨ (∃ refetch, c'.cell.phase = .invalid refetch
          ∧ (c.cell.phase = .flushed ∨ c.cell.phase = .invalid false))
      ∨ (c'.cell.phase = .calculating ∧ ∃ n, c.dispatcher.Started c'.dispatcher now n) := by
  cases t with
  | tally f => exact Or.inl rfl
  | noticed refetch h => exact Or.inr (Or.inl ⟨refetch, rfl, h⟩)
  | started idle h => exact Or.inr (Or.inr ⟨rfl, _, Dispatcher.launch_started h⟩)
  | overflow idle h => exact Or.inl rfl
  | lost busy h => exact Or.inl rfl

/-- What a reader's section makes of the dispatcher: nothing, unless it launches. -/
theorem Touch.dispatcher_cases {c c' : Cache ε V} {now : Instant} (t : Touch c now c') :
    c'.dispatcher = c.dispatcher ∨ (c.cell.phase ≠ .calculating
      ∧ ((∃ n, c.dispatcher.Started c'.dispatcher now n ∧ c'.cell.phase = .calculating)
        ∨ (c.dispatcher.Overflowed c'.dispatcher now ∧ c'.cell.phase = c.cell.phase))) := by
  cases t with
  | tally f => exact Or.inl rfl
  | noticed refetch h => exact Or.inl rfl
  | started idle h => exact Or.inr ⟨idle, Or.inl ⟨_, Dispatcher.launch_started h, rfl⟩⟩
  | overflow idle h => exact Or.inr ⟨idle, Or.inr ⟨Dispatcher.launch_overflowed h, rfl⟩⟩
  | lost busy h => exact Or.inl rfl

/-- A reader's section leaves the dispatcher alone, or launches. -/
theorem Touch.renewed {c c' : Cache ε V} {now : Instant} (t : Touch c now c') :
    c'.dispatcher = c.dispatcher ∨ ∃ fresh, c.dispatcher.Renewed c'.dispatcher fresh
      ∧ ∀ a, fresh = some a → a = c.dispatcher.newest now := by
  rcases t.dispatcher_cases with same | ⟨_, ⟨n, started, _⟩ | ⟨overflowed, _⟩⟩
  · exact Or.inl same
  · exact Or.inr ⟨_, started.toRenewed, fun a ha => (Option.some.inj ha).symm⟩
  · exact Or.inr ⟨_, overflowed.toRenewed, fun a ha => nomatch ha⟩

theorem subscribe_dispatcher (c : Cache ε V) : c.subscribe.dispatcher = c.dispatcher := by
  unfold subscribe
  split <;> rfl

theorem subscribe_touch (c : Cache ε V) (now : Instant) : Touch c now c.subscribe := by
  unfold subscribe
  cases hp : c.cell.phase with
  | flushed => exact .noticed true (Or.inl hp)
  | invalid refetch =>
      cases refetch with
      | false => exact .noticed true (Or.inr hp)
      | true => exact .rest
  | empty => exact .rest
  | calculating => exact .rest
  | holding content => exact .rest

theorem Ticketed.touch {c c' : Cache ε V} {now : Instant} {t : Ticket}
    (h : Ticketed c now (c', t)) : Touch c now c' := by
  cases h with
  | started _ idle h => exact .started idle h
  | unbound => exact .rest
  | overflow _ idle h => exact .overflow idle h
  | joined => exact .tally _
  | lost busy h => exact .lost busy h
  | broken => exact .rest

/-- Whoever is told to wait leaves a fetch on its way. -/
theorem Ticketed.calculating {c c' : Cache ε V} {now : Instant} {k : Nat}
    (h : Ticketed c now (c', .wait k)) : c'.cell.phase = .calculating := by
  cases h with
  | started => rfl
  | joined _ busy => exact busy

theorem Accessed.touch {c c' : Cache ε V} {now : Instant} {delivered : Option Nat} {a : Access V}
    (h : Accessed c now delivered (c', a)) : Touch c now c' := by
  cases h with
  | ticket h => exact h.touch
  | nothing => exact .rest
  | noticed h => exact .noticed false (Or.inl h)
  | served => exact .tally _

end Cache

/-! ## §4. What a step of a reader can do. -/

namespace Reader

/-- The attempt whose first answer the reader waits for. -/
def awaits? (r : Reader) : Option Nat :=
  match r.stage with
  | .expecting attempt | .waiting attempt => some attempt
  | _ => none

/-- Whether the reader may still give its first item: it is neither through nor crashed. -/
def isOpen (r : Reader) : Bool :=
  match r.stage with
  | .closing | .over | .crashed => false
  | _ => true

/-- The reader has told its last item, or is about to. -/
def IsThrough (r : Reader) : Prop := r.stage = .closing ∨ r.stage = .over

/-- What one step of the reader `r` can do: what becomes of the cache and of the reader, and the item
that it gives. -/
inductive Act (r : Reader) (c : Cache ε V) (now : Instant) :
    Cache ε V × Reader × Option (Item V) → Prop where
  /-- It shows interest. -/
  | subscribed (h : r.stage = .subscribing) :
      Act r c now (c.subscribe, { r with stage := .looking }, none)
  /-- It looks in vain. -/
  | unserved {c' : Cache ε V} (h : r.stage = .looking)
      (looked : Cache.Accessed c now r.delivered (c', .nothing)) :
      Act r c now (c', { r with
        seen := c.cell.version, stage := if r.reading.follows then .parked else .subscribing }, none)
  /-- It looks, and takes the held value. -/
  | served {c' : Cache ε V} {content : Sourced V} {revision : Nat} (h : r.stage = .looking)
      (looked : Cache.Accessed c now r.delivered (c', .served content revision)) :
      Act r c now (c', { r with
        delivered := some revision, seen := c.cell.version, stage := r.stageAfterValue },
        some (.value content))
  /-- It looks, and is told to wait. -/
  | joined {c' : Cache ε V} {k : Nat} (h : r.stage = .looking)
      (told : Cache.Ticketed c now (c', .wait k)) :
      Act r c now (c', { r with seen := c.cell.version, stage := .waiting k }, none)
  /-- It demands a fetch, and is told to wait. -/
  | demanded {c' : Cache ε V} {k : Nat} (h : r.stage = .demanding)
      (told : Cache.Ticketed c now (c', .wait k)) :
      Act r c now (c', { r with stage := .expecting k }, none)
  /-- Nobody can serve it. -/
  | refused {c' : Cache ε V} {r' : Reader} {failure : Failure}
      (h : r.stage = .looking ∨ r.stage = .demanding)
      (told : Cache.Ticketed c now (c', .failed failure)) (through : r'.IsThrough)
      (same : r'.reading = r.reading ∧ r'.delivered = r.delivered)
      (seen : r'.seen = r.seen ∨ r'.seen = c.cell.version) :
      Act r c now (c', r', some (.failed failure))
  /-- It crashes with the launch that it asked for. -/
  | broke {c' : Cache ε V} {r' : Reader} (h : r.stage = .looking ∨ r.stage = .demanding)
      (told : Cache.Ticketed c now (c', .crashed)) (crashed : r'.stage = .crashed)
      (same : r'.reading = r.reading ∧ r'.delivered = r.delivered)
      (seen : r'.seen = r.seen ∨ r'.seen = c.cell.version) :
      Act r c now (c', r', some .crashed)
  /-- It takes the value of an attempt that it joined. -/
  | answered {k : Nat} {fetched : Fetched V} (h : r.stage = .waiting k)
      (answer : c.dispatcher.answer? k = some (.ok fetched)) :
      Act r c now (c, { r with
        delivered := fetched.revision.or r.delivered, stage := r.stageAfterValue },
        some (.value fetched.content))
  /-- It takes the value of the attempt that it demanded, and goes on from the cell as it is now. -/
  | started {k : Nat} {fetched : Fetched V} (h : r.stage = .expecting k)
      (answer : c.dispatcher.answer? k = some (.ok fetched)) (follows : r.reading.follows = true) :
      Act r c now (c, { r with
        delivered := some c.cell.revision, seen := c.cell.version, stage := .looking },
        some (.value fetched.content))
  /-- It takes the value of the attempt that it demanded, and wants no more. -/
  | satisfied {k : Nat} {fetched : Fetched V} (h : r.stage = .expecting k)
      (answer : c.dispatcher.answer? k = some (.ok fetched)) (single : r.reading.follows = false) :
      Act r c now (c, { r with stage := .over }, some (.value fetched.content))
  /-- It takes the failure of an attempt. -/
  | failed {k : Nat} {failure : Failure} {stage : Stage} (h : r.awaits? = some k)
      (answer : c.dispatcher.answer? k = some (.error failure))
      (through : { r with stage }.IsThrough) :
      Act r c now (c, { r with stage }, some (.failed failure))
  /-- It has to wait. -/
  | idle (h : (∃ k, r.awaits? = some k ∧ c.dispatcher.answer? k = none)
      ∨ (r.stage = .parked ∧ c.cell.version = r.seen)) : Act r c now (c, r, none)
  /-- It notices a mark. -/
  | woken (h : r.stage = .parked) (marked : c.cell.version ≠ r.seen) :
      Act r c now (c, { r with stage := .looking }, none)
  /-- It tells its end. -/
  | finished (h : r.IsThrough) : Act r c now (c, { r with stage := .over }, some .finished)
  /-- It has crashed. -/
  | crashed (h : r.stage = .crashed) : Act r c now (c, r, some .crashed)

/-- **Every step of a reader is listed.** -/
theorem step_act (r : Reader) (c : Cache ε V) (now : Instant) : Act r c now (r.step c now) := by
  -- one case a stage, each with the section of the cache that it opens
  cases hs : r.stage with
  | subscribing =>
      simp only [step, hs]
      exact .subscribed hs
  | looking =>
      simp only [step, hs]
      have looked := c.access_accessed now r.delivered
      generalize c.access now r.delivered = out at looked
      obtain ⟨c', access⟩ := out
      match access with
      | .nothing => exact .unserved hs looked
      | .served content revision => exact .served hs looked
      | .ticket (.wait k) =>
          cases looked with
          | ticket told => exact .joined hs told
      | .ticket (.failed failure) =>
          cases looked with
          | ticket told => exact .refused (Or.inl hs) told (Or.inl rfl) ⟨rfl, rfl⟩ (Or.inr rfl)
      | .ticket .crashed =>
          cases looked with
          | ticket told => exact .broke (Or.inl hs) told rfl ⟨rfl, rfl⟩ (Or.inr rfl)
  | demanding =>
      simp only [step, hs]
      have told := c.demand_ticketed now
      generalize c.demand now = out at told
      obtain ⟨c', ticket⟩ := out
      match ticket with
      | .wait k => exact .demanded hs told
      | .failed failure => exact .refused (Or.inr hs) told (Or.inr rfl) ⟨rfl, rfl⟩ (Or.inl rfl)
      | .crashed => exact .broke (Or.inr hs) told rfl ⟨rfl, rfl⟩ (Or.inl rfl)
  | expecting k =>
      have awaits : r.awaits? = some k := by simp only [awaits?, hs]
      simp only [step, hs]
      split
      next answer ha =>
        cases answer with
        | error failure => exact .failed awaits ha (Or.inr rfl)
        | ok fetched =>
            simp only [receiveExpected]
            split
            next follows => exact .started hs ha follows
            next single => exact .satisfied hs ha (by simpa using single)
      next none => exact .idle (Or.inl ⟨k, awaits, none⟩)
  | waiting k =>
      have awaits : r.awaits? = some k := by simp only [awaits?, hs]
      simp only [step, hs]
      split
      next answer ha =>
        cases answer with
        | error failure => exact .failed awaits ha (Or.inl rfl)
        | ok fetched => exact .answered hs ha
      next none => exact .idle (Or.inl ⟨k, awaits, none⟩)
  | parked =>
      simp only [step, hs]
      split
      next seen => exact .idle (Or.inr ⟨hs, seen⟩)
      next marked => exact .woken hs marked
  | closing =>
      simp only [step, hs]
      exact .finished (Or.inl hs)
  | «over» =>
      have same : r = { r with stage := .over } := by rw [← hs]
      simp only [step, hs]
      have finished : Act r c now (c, { r with stage := .over }, some .finished) := .finished (Or.inr hs)
      rwa [← same] at finished
  | crashed =>
      simp only [step, hs]
      exact .crashed hs

/-! ## §5. What a reader hands out. -/

/-- The items that a reader may hand out, and where it has them from. -/
inductive Hands (r : Reader) (c : Cache ε V) : Item V → Prop where
  /-- The held value. -/
  | held {content : Sourced V} (h : c.cell.phase = .holding (.concealed content)) :
      Hands r c (.value content)
  /-- The value that an attempt answered. -/
  | answered {attempt : Nat} {fetched : Fetched V} (awaits : r.awaits? = some attempt)
      (h : c.dispatcher.answer? attempt = some (.ok fetched)) : Hands r c (.value fetched.content)
  /-- The failure that an attempt answered. -/
  | refused {attempt : Nat} {failure : Failure} (awaits : r.awaits? = some attempt)
      (h : c.dispatcher.answer? attempt = some (.error failure)) : Hands r c (.failed failure)
  /-- No source is bound. -/
  | unbound : Hands r c (.failed .unbound)
  /-- The bookkeeping is broken. -/
  | broken {fault : String} (holds : r.holdsCache = true)
      (h : c.cell.broken = some fault
        ∨ (c.cell.phase = .calculating ∧ c.dispatcher.pending = none)) :
      Hands r c (.failed (.internal fault))
  /-- The reader crashed. -/
  | crashed : Hands r c .crashed
  /-- There is nothing more to come. -/
  | finished (h : r.isOpen = false) : Hands r c .finished

/-- What one step of a reader came to: what became of the cache, of the reader, and the item. -/
structure Stepped (r : Reader) (c : Cache ε V) (now : Instant)
    (out : Cache ε V × Reader × Option (Item V)) : Prop where
  touch : Cache.Touch c now out.1
  /-- An item has an origin, and with it the reader's waiting is over. -/
  hands : ∀ item, out.2.2 = some item → Hands r c item ∧ out.2.1.awaits? = none
  /-- Without an item the reader stays open, and waits for the attempt that it waited for, or for the
  one that it was told to wait for. -/
  quiet : out.2.2 = none → out.2.1.isOpen = true ∧ ∀ k, out.2.1.awaits? = some k →
    r.awaits? = some k ∨ Cache.Ticketed c now (out.1, .wait k)

section

variable {r r' : Reader} {c c' : Cache ε V} {now : Instant}

theorem Stepped.of_item {item : Item V} (touch : Cache.Touch c now c') (hands : Hands r c item)
    (free : r'.awaits? = none) : Stepped r c now (c', r', some item) :=
  ⟨touch, fun _ h => Option.some.inj h ▸ ⟨hands, free⟩, fun h => nomatch h⟩

theorem Stepped.of_quiet (touch : Cache.Touch c now c') (isOpen : r'.isOpen = true)
    (awaits : ∀ k, r'.awaits? = some k → r.awaits? = some k ∨ Cache.Ticketed c now (c', .wait k)) :
    Stepped r c now (c', r', none) :=
  ⟨touch, fun _ h => (nomatch h), fun _ => ⟨isOpen, awaits⟩⟩

/-- A reader that goes on or closes after a value waits for nothing. -/
theorem awaits_of_stage (h : r'.stage = r.stageAfterValue) : r'.awaits? = none := by
  unfold awaits?
  rw [h]
  unfold stageAfterValue
  cases r.reading.follows <;> rfl

theorem awaits_of_through (h : r.IsThrough) : r.awaits? = none := by
  unfold awaits?
  rcases h with hs | hs <;> rw [hs]

theorem isOpen_of_through (h : r.IsThrough) : r.isOpen = false := by
  unfold isOpen
  rcases h with hs | hs <;> rw [hs]

/-- A failed ticket has an origin. -/
theorem hands_of_ticketed (holds : r.holdsCache = true) {failure : Failure}
    (h : Cache.Ticketed c now (c', .failed failure)) :
    Hands r c (.failed failure : Item V) := by
  cases h with
  | unbound => exact .unbound
  | lost busy hp => exact .broken holds (Or.inr ⟨busy, hp⟩)
  | broken hb => exact .broken holds (Or.inl hb)

end

/-- **What every step of a reader keeps to.** -/
theorem step_stepped (r : Reader) (c : Cache ε V) (now : Instant) :
    Stepped r c now (r.step c now) := by
  have act := r.step_act c now
  generalize r.step c now = out at act ⊢
  cases act with
  | subscribed => exact .of_quiet (Cache.subscribe_touch c now) rfl fun k hk => nomatch hk
  | unserved _ looked =>
      -- a one-shot reader shows interest again, a live one waits for a mark
      cases follows : r.reading.follows with
      | false => exact .of_quiet looked.touch rfl fun k hk => nomatch hk
      | true => exact .of_quiet looked.touch rfl fun k hk => nomatch hk
  | served _ looked =>
      cases looked with
      | served held => exact .of_item (.tally _) (.held held) (awaits_of_stage rfl)
  | joined _ told => exact .of_quiet told.touch rfl fun k hk => Or.inr (Option.some.inj hk ▸ told)
  | demanded _ told => exact .of_quiet told.touch rfl fun k hk => Or.inr (Option.some.inj hk ▸ told)
  | refused h told through =>
      have holds : r.holdsCache = true := by rcases h with hs | hs <;> simp [holdsCache, hs]
      exact .of_item told.touch (hands_of_ticketed holds told) (awaits_of_through through)
  | broke _ told crashed => exact .of_item told.touch .crashed (by simp [awaits?, crashed])
  | answered h answer =>
      exact .of_item .rest (.answered (by simp [awaits?, h]) answer) (awaits_of_stage rfl)
  | started h answer => exact .of_item .rest (.answered (by simp [awaits?, h]) answer) rfl
  | satisfied h answer => exact .of_item .rest (.answered (by simp [awaits?, h]) answer) rfl
  | failed h answer through => exact .of_item .rest (.refused h answer) (awaits_of_through through)
  | idle h =>
      refine .of_quiet .rest ?_ fun k hk => Or.inl hk
      rcases h with ⟨k, awaits, _⟩ | ⟨parked, _⟩
      · unfold awaits? at awaits
        unfold isOpen
        split at awaits
        next hs => rw [hs]
        next hs => rw [hs]
        next => cases awaits
      · simp [isOpen, parked]
  | woken => exact .of_quiet .rest rfl fun k hk => nomatch hk
  | finished h => exact .of_item .rest (.finished (isOpen_of_through h)) rfl
  | crashed h => exact .of_item .rest .crashed (by simp [awaits?, h])

/-- A reader that is through leaves the cache alone. -/
theorem step_idle {r : Reader} {c : Cache ε V} {now : Instant} (h : r.holdsCache = false) :
    (r.step c now).1 = c := by
  unfold holdsCache at h
  split at h
  next hs => simp [step, hs]
  next hs => simp [step, hs]
  next => cases h

end Reader

end SingleFlight
