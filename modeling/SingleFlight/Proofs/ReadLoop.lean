/-
  SingleFlight.Proofs.ReadLoop — a read of a single value comes to its end.

  Such a read shows interest, looks, and begins anew if the look gave it
  nothing.  Nothing in this loop counts down: a look takes the mark of a flush
  away, the next show of interest asks for the value again, and a cell with a
  value that may not be handed out would keep the read going for ever.  No
  reachable cell holds such a value, and whoever shows interest leaves a cell
  that has something for it.  Only an invalidation or a report takes that away
  before the read looks, so every look in vain is charged to one of these.

  Main results:
    * `Step.serves` — who has shown interest is served, unless it is forestalled.
    * `Loop.apply` — one move keeps the account of the looks in vain.
    * `Loop.run` — so does every run.
    * `KeepsSeat.run` — a reader that nobody lets go stays until it is told something.
    * `read_loop_ends` — the loop of every such read ends, and not with nothing.
-/
import SingleFlight.Proofs.Conservation
import SingleFlight.Proofs.StreamOrder

namespace SingleFlight

variable {ε V : Type}

/-- Whether a move is a step of the reader of this key. -/
def Move.isStepOfReader (key : Nat) : Move ε V → Bool
  | .reader k => k == key
  | _ => false

/-- What the reader is given with its next step, if that step is a look. -/
def Reader.look? (r : Reader) (c : Cache ε V) (now : Instant) : Option (Access V) :=
  if r.stage = .looking then some (c.access now r.delivered).2 else none

namespace World

/-! ## §1. Looks, and what comes before them. -/

/-- Whether the reader of the key is about to look. -/
def isLooking (w : World ε V) (key : Nat) : Bool :=
  (w.seat? key).any (·.reader.stage = .looking)

/-- What the reader of the key is given with a move, if the move is a look of that reader. -/
def look? (key : Nat) (w : World ε V) : Move ε V → Option (Access V)
  | .reader k => if k = key then (w.seat? key).bind (·.reader.look? w.cache w.now) else none
  | _ => none

/-- What the looks of the reader of the key give along a run, oldest first. -/
def looks (w : World ε V) (key : Nat) (moves : List (Move ε V)) : List (Access V) :=
  w.observed (look? key) moves

/-- Whether a move is made by others while the reader of the key is about to look. -/
def interferes (key : Nat) (w : World ε V) (m : Move ε V) : Bool :=
  w.isLooking key && !m.isStepOfReader key

/-- Whether a move throws the value away, or makes an attempt report, while the reader of the key is
about to look. -/
def forestalls (key : Nat) (w : World ε V) (m : Move ε V) : Bool :=
  w.isLooking key && w.disturbs m

/-- Whoever forestalls a reader is somebody else. -/
theorem interferes_of_forestalls {key : Nat} {w : World ε V} {m : Move ε V}
    (h : w.forestalls key m = true) : w.interferes key m = true := by
  unfold forestalls at h
  unfold interferes
  cases m with
  | reader k => simp [disturbs, invalidates, reports] at h
  | _ => simpa [Move.isStepOfReader] using (Bool.and_eq_true_iff.mp h).1

/-- A kind of moves that is part of another comes up no more often. -/
theorem times_mono {kind kind' : World ε V → Move ε V → Bool}
    (h : ∀ w m, kind w m = true → kind' w m = true) (w : World ε V) (moves : List (Move ε V)) :
    w.times kind moves ≤ w.times kind' moves := by
  induction moves generalizing w with
  | nil => exact Nat.le_refl _
  | cons m moves ih =>
      refine Nat.add_le_add ?_ (ih (w.apply m))
      cases hk : kind w m with
      | false => exact Nat.zero_le _
      | true => exact Nat.le_of_eq (congrArg Bool.toNat (h w m hk).symm)

/-! ## §2. Who has shown interest is served. -/

/-- The cell has something for whoever looks for the first time: no mark of an invalidation is there,
and if the value is gone somebody has asked for another. -/
def Serves (phase : Phase (Sourced V)) : Prop := phase ≠ .flushed ∧ phase ≠ .invalid false

theorem serves_touch {c c' : Cache ε V} {now : Instant} (t : Cache.Touch c now c')
    (h : Serves c.cell.phase) : Serves c'.cell.phase := by
  rcases t.phase_cases with same | ⟨_, _, flushed | invalid⟩ | ⟨phase, _⟩
  · rw [same]
    exact h
  · exact absurd flushed h.1
  · exact absurd invalid h.2
  · rw [phase]
    exact ⟨nofun, nofun⟩

/-- **What the cell has for those who look stays there**, unless a move throws the value away or makes an
attempt report. -/
theorem Step.serves {w w' : World ε V} {m : Move ε V} (s : Step w m w') (calm : w.disturbs m = false)
    (h : Serves w.cache.cell.phase) : Serves w'.cache.cell.phase := by
  obtain ⟨kept, silent⟩ := Bool.or_eq_false_iff.mp calm
  cases s with
  | aside ha | dropReader ha => exact ha.cell ▸ h
  | pass | bind | openReader | follow => exact h
  | @poke asided ha =>
      show Serves asided.cache.cell.phase
      rw [ha.cell]
      exact h
  | invalidate ha own =>
      rw [own] at kept
      cases kept
  | subscribe => exact serves_touch (Cache.subscribe_touch w.cache w.now) h
  | reader own seated ha =>
      rw [ha.cell]
      exact serves_touch (Reader.step_stepped _ _ _).touch h
  | attempt own running t =>
      rw [t.cell_of_unreported running (own ▸ silent)]
      exact h

/-! ## §3. The loop. -/

/-- How the read of the key, of a single value, stands in the world `w`, when it has taken so many steps,
its looks gave `looks`, and it was forestalled `n` times: no more looks than that were in vain. -/
inductive Loop (key taken n : Nat) (looks : List (Access V)) (w : World ε V) : Prop where
  /-- It is about to show interest, after so many rounds in vain. -/
  | asking {seat : Seat} (vain : Nat) (seated : w.seat? key = some seat)
      (stage : seat.reader.stage = .subscribing) (looked : looks = List.replicate vain .nothing)
      (steps : taken = 2 * vain) (charged : vain ≤ n)
  /-- It is about to look, and finds something unless it was forestalled once more. -/
  | looking {seat : Seat} (vain : Nat) (seated : w.seat? key = some seat)
      (stage : seat.reader.stage = .looking) (looked : looks = List.replicate vain .nothing)
      (steps : taken = 2 * vain + 1) (charged : vain ≤ n)
      (serves : Serves w.cache.cell.phase ∨ vain < n)
  /-- It has left the loop with its last look, or was let go. -/
  | ended (vain : Nat) (last : Option (Access V)) (left : IsServed key w ∨ w.seat? key = none)
      (conclusive : last ≠ some .nothing) (looked : looks = List.replicate vain .nothing ++ last.toList)
      (charged : vain ≤ n)

section

variable {key taken n : Nat} {looks : List (Access V)} {w : World ε V}

/-- A move of others leaves the reader of the key alone, if it does not let it go. -/
theorem seat?_apply_other (reachable : Reachable w) (known : key < w.nextKey) {m : Move ε V}
    (other : m.isStepOfReader key = false) :
    (w.apply m).itemsTo key = w.itemsTo key ∧ ∀ seat, (w.apply m).seat? key = some seat →
      ∃ before, w.seat? key = some before ∧ before.reader = seat.reader := by
  rcases (apply_step w m).reader_cases known with ⟨items, seats⟩ | ⟨_, _, rfl, _⟩
  · refine ⟨items, fun seat seated => ?_⟩
    obtain ⟨listed, hk⟩ := seat?_mem seated
    obtain ⟨before, was, rfl, reader⟩ := seats seat listed hk
    exact ⟨before, reachable.attended.seat?_eq was, reader⟩
  · simp [Move.isStepOfReader] at other

/-- A reader that is somewhere else does not look. -/
theorem look?_of_stage {seat : Seat} (seated : w.seat? key = some seat)
    (elsewhere : seat.reader.stage ≠ .looking) : w.look? key (.reader key) = none := by
  simp [look?, seated, Reader.look?, elsewhere]

theorem look?_of_looking {seat : Seat} (seated : w.seat? key = some seat)
    (looking : seat.reader.stage = .looking) :
    w.look? key (.reader key) = some (w.cache.access w.now seat.reader.delivered).2 := by
  simp [look?, seated, Reader.look?, looking]

/-- Who has told its item, or waits for an attempt, does not look again. -/
theorem IsServed.look?_eq_none (h : IsServed key w) (reachable : Reachable w)
    (single : ∀ s ∈ w.seats, s.key = key → s.reader.reading.follows = false) :
    w.look? key (.reader key) = none := by
  cases seated : w.seat? key with
  | none => simp [look?, seated]
  | some seat =>
      obtain ⟨listed, rfl⟩ := seat?_mem seated
      refine look?_of_stage seated fun looking => ?_
      rcases h with told | ⟨seat', k, seated', awaits⟩
      · exact told (reachable.unserved.single seat listed (single seat listed rfl)
          (by simp [Reader.isOpen, looking]))
      · cases seated.symm.trans seated'
        simp [Reader.awaits?, looking] at awaits

/-- A look of a reader of a single value gives it something, or makes it begin anew. -/
theorem apply_look (reachable : Reachable w) {seat : Seat} (seated : w.seat? key = some seat)
    (looking : seat.reader.stage = .looking) (single : seat.reader.reading.follows = false) :
    let access := (w.cache.access w.now seat.reader.delivered).2
    (access ≠ .nothing ∧ IsServed key (w.apply (.reader key)))
      ∨ (access = .nothing ∧ ∃ seat', (w.apply (.reader key)).seat? key = some seat'
          ∧ seat'.reader.stage = .subscribing) := by
  intro access
  by_cases nothing : access = .nothing
  · have quiet : seat.reader.step w.cache w.now = ((w.cache.access w.now seat.reader.delivered).1,
        { seat.reader with seen := w.cache.cell.version, stage := .subscribing }, none) := by
      have nothing : (w.cache.access w.now seat.reader.delivered).2 = .nothing := nothing
      simp only [Reader.step, looking, nothing, Reader.receive, single, if_neg Bool.false_ne_true]
    rw [advanceReader_quiet seated quiet]
    exact Or.inr ⟨nothing, _, seat?_reseat seated _ _, rfl⟩
  · exact Or.inl ⟨nothing, isServed_of_step reachable seated (Reader.came_of_look looking nothing)⟩

/-- **Each step of the read keeps the account**: a look in vain was forestalled. -/
theorem Loop.own (h : Loop key taken n looks w) (reachable : Reachable w)
    (single : ∀ s ∈ w.seats, s.key = key → s.reader.reading.follows = false) :
    Loop key (taken + 1) n (looks ++ (w.look? key (.reader key)).toList) (w.apply (.reader key)) := by
  cases h with
  | asking vain seated stage looked steps charged =>
      rw [look?_of_stage seated (by simp [stage]), Option.toList_none, List.append_nil,
        apply_subscribing seated stage]
      exact .looking vain (seat?_reseat seated _ _) rfl looked (by omega) charged
        (Or.inl w.cache.subscribe_phase)
  | @looking seat vain seated stage looked steps charged serves =>
      obtain ⟨listed, hk⟩ := seat?_mem seated
      have reads := single seat listed hk
      rw [look?_of_looking seated stage, looked]
      rcases apply_look reachable seated stage reads with
        ⟨something, served⟩ | ⟨nothing, seat', seated', asks⟩
      · exact .ended vain (some _) (Or.inl served) (by simpa using something) rfl charged
      · -- it has received nothing before, so it found the cell without anything for it
        have unnoted := (reachable.isBare seat listed reads (by simp [Reader.isOpen, stage])).1
        have forestalled : vain < n := by
          refine serves.resolve_left fun serves => ?_
          rw [unnoted] at nothing
          exact access_of_interest reachable.concealed w.now serves.1 serves.2 nothing
        rw [nothing]
        exact .asking (vain + 1) seated' asks List.replicate_succ'.symm (by omega) forestalled
  | ended vain last left conclusive looked charged =>
      rcases left with served | absent
      · rw [served.look?_eq_none reachable single, Option.toList_none, List.append_nil]
        exact .ended vain last (Or.inl (served.step reachable)) conclusive looked charged
      · have unseen : w.look? key (.reader key) = none := by simp [look?, absent]
        rw [unseen, Option.toList_none, List.append_nil, apply_unseated absent]
        exact .ended vain last (Or.inr absent) conclusive looked charged

/-- **Each move of others keeps the account**: it leaves what the cell has for the read, or forestalls it. -/
theorem Loop.other (h : Loop key taken n looks w) (reachable : Reachable w) (known : key < w.nextKey)
    {m : Move ε V} (other : m.isStepOfReader key = false) :
    Loop key taken (n + (w.forestalls key m).toNat) looks (w.apply m) := by
  obtain ⟨items, before⟩ := seat?_apply_other reachable known other
  have more : n ≤ n + (w.forestalls key m).toNat := Nat.le_add_right _ _
  cases h with
  | asking vain seated stage looked steps charged =>
      have charged := Nat.le_trans charged more
      cases after : (w.apply m).seat? key with
      | none => exact .ended vain none (Or.inr after) nofun (by simpa using looked) charged
      | some seat' =>
          obtain ⟨seat₀, seated₀, reader⟩ := before seat' after
          cases seated.symm.trans seated₀
          exact .asking vain after (reader ▸ stage) looked steps charged
  | looking vain seated stage looked steps charged serves =>
      have still := Nat.le_trans charged more
      cases after : (w.apply m).seat? key with
      | none => exact .ended vain none (Or.inr after) nofun (by simpa using looked) still
      | some seat' =>
          obtain ⟨seat₀, seated₀, reader⟩ := before seat' after
          cases seated.symm.trans seated₀
          refine .looking vain after (reader ▸ stage) looked steps still ?_
          cases disturbs : w.disturbs m with
          | false =>
              exact serves.imp ((apply_step w m).serves disturbs) (Nat.lt_of_lt_of_le · more)
          | true =>
              -- the cell may have nothing for the read now, and the next look is paid for
              have forestalled : w.forestalls key m = true := by
                simp [forestalls, isLooking, seated, stage, disturbs]
              rw [forestalled]
              exact Or.inr (Nat.lt_succ_of_le charged)
  | ended vain last left conclusive looked charged =>
      refine .ended vain last ?_ conclusive looked (Nat.le_trans charged more)
      cases after : (w.apply m).seat? key with
      | none => exact Or.inr rfl
      | some seat' =>
          obtain ⟨seat₀, seated₀, reader⟩ := before seat' after
          rcases left with (told | ⟨seat, k, seated, awaits⟩) | absent
          · exact Or.inl (Or.inl (items ▸ told))
          · cases seated.symm.trans seated₀
            exact Or.inl (Or.inr ⟨seat', k, after, reader ▸ awaits⟩)
          · cases absent.symm.trans seated₀

/-- **One move keeps the account of the looks in vain.** -/
theorem Loop.apply (h : Loop key taken n looks w) (reachable : Reachable w) (known : key < w.nextKey)
    (single : ∀ s ∈ w.seats, s.key = key → s.reader.reading.follows = false) (m : Move ε V) :
    Loop key (taken + (m.isStepOfReader key).toNat) (n + (w.forestalls key m).toNat)
      (looks ++ (w.look? key m).toList) (w.apply m) := by
  cases turn : m.isStepOfReader key with
  | false =>
      have unseen : w.look? key m = none := by
        cases m with
        | reader k => exact if_neg (by simpa [Move.isStepOfReader] using turn)
        | _ => rfl
      rw [unseen, Option.toList_none, List.append_nil]
      exact h.other reachable known turn
  | true =>
      obtain rfl : m = .reader key := by
        cases m with
        | reader k => rw [eq_of_beq turn]
        | _ => cases turn
      have calm : w.forestalls key (.reader key) = false := by
        simp [forestalls, disturbs, invalidates, reports]
      rw [calm]
      exact h.own reachable single

/-- **Every run keeps the account of the looks in vain.** -/
theorem Loop.run (h : Loop key taken n looks w) (reachable : Reachable w) (known : key < w.nextKey)
    (streams : Streams false key w) (moves : List (Move ε V)) :
    Loop key (taken + moves.countP (·.isStepOfReader key)) (n + w.times (forestalls key) moves)
      (looks ++ w.looks key moves) (w.run moves) := by
  induction moves generalizing w taken n looks with
  | nil =>
      show Loop key taken n (looks ++ []) w
      rw [List.append_nil]
      exact h
  | cons m moves ih =>
      have s := apply_step w m
      have later := ih (h.apply reachable known streams.reads m) (reachable.move m)
        (Nat.lt_of_lt_of_le known s.nextKey_le) (streams.step reachable known s)
      have counted : (m :: moves).countP (·.isStepOfReader key)
          = (m.isStepOfReader key).toNat + moves.countP (·.isStepOfReader key) := by
        rw [List.countP_cons, Nat.add_comm]
        cases m.isStepOfReader key <;> rfl
      rw [Nat.add_assoc, Nat.add_assoc, List.append_assoc, ← counted] at later
      exact later

end

/-! ## §4. Whoever is not let go stays. -/

/-- The reader of the key is in its seat, or it has been told something. -/
def KeepsSeat (key : Nat) (w : World ε V) : Prop :=
  key ∈ w.seats.map (·.key) ∨ w.itemsTo key ≠ []

section

variable {key : Nat} {w : World ε V}

/-- **A move takes a reader out of its seat** only if it lets it go, or for an item. -/
theorem Step.keepsSeat {w' : World ε V} {m : Move ε V} (s : Step w m w') (reachable : Reachable w)
    (kept : m ≠ .dropReader key) (seated : key ∈ w.seats.map (·.key)) : KeepsSeat key w' := by
  have same {w' : World ε V} (seats : w'.seats = w.seats) : KeepsSeat key w' :=
    Or.inl (by rw [seats]; exact seated)
  cases s with
  | aside ha | invalidate ha | poke ha => exact same ha.seats
  | pass | bind | subscribe => exact Or.inl seated
  | openReader reading role =>
      refine Or.inl ?_
      rw [List.map_append]
      exact List.mem_append_left _ seated
  | follow k =>
      refine Or.inl ?_
      rw [follow_keys]
      exact seated
  | @dropReader k w' ha own =>
      obtain ⟨s, hs, rfl⟩ := List.mem_map.mp seated
      have spared : s.key ≠ k := fun it => kept (it ▸ own)
      refine Or.inl (List.mem_map.mpr ⟨s, ?_, rfl⟩)
      rw [ha.seats]
      exact List.mem_filter.mpr ⟨hs, bne_iff_ne.mpr spared⟩
  | @reader seat w' own found ha =>
      rcases ha.stays key seated with stays | ⟨rfl, item⟩
      · exact Or.inl stays
      · refine Or.inr ?_
        obtain ⟨given, some⟩ := Option.isSome_iff_exists.mp item
        rw [ha.itemsTo reachable.attended (seat?_mem found).1, some]
        exact List.cons_ne_nil _ _
  | attempt own running t => exact same t.seats.1

theorem KeepsSeat.apply (h : KeepsSeat key w) (reachable : Reachable w) (known : key < w.nextKey)
    {m : Move ε V} (kept : m ≠ .dropReader key) : KeepsSeat key (w.apply m) := by
  rcases h with seated | told
  · exact (apply_step w m).keepsSeat reachable kept seated
  · -- what it was told stays told
    rcases (apply_step w m).reader_cases known with ⟨items, _⟩ | ⟨_, _, rfl, _⟩
    · exact Or.inr (items ▸ told)
    · exact Or.inr (reachable.attended.told_apply told)

/-- **A reader that nobody lets go stays until it is told something.** -/
theorem KeepsSeat.run (h : KeepsSeat key w) (reachable : Reachable w) (known : key < w.nextKey)
    {moves : List (Move ε V)} (kept : .dropReader key ∉ moves) : KeepsSeat key (w.run moves) := by
  induction moves generalizing w with
  | nil => exact h
  | cons m moves ih =>
      simp only [List.mem_cons, not_or] at kept
      obtain ⟨now, later⟩ := kept
      exact ih (h.apply reachable known (Ne.symm now)) (reachable.move m)
        (Nat.lt_of_lt_of_le known (apply_step w m).nextKey_le) later

/-- Who keeps its seat is served, if it is gone or served. -/
theorem KeepsSeat.isServed (h : KeepsSeat key w) (left : IsServed key w ∨ w.seat? key = none) :
    IsServed key w := by
  refine left.elim id fun absent => Or.inl (h.resolve_left fun seated => ?_)
  obtain ⟨s, hs, rfl⟩ := List.mem_map.mp seated
  simpa using List.find?_eq_none.mp absent s hs

end

/-! ## §5. The end of the loop. -/

/-- **The loop of a read of a single value ends.**  Let such a read start in any reachable world, and let
the run go on in any way.  While the read is about to look, let the value be thrown away or an attempt
report `n` times; these are steps of others, and no other step of theirs counts.  Then the read looks at
most `n + 1` times: at most `n` looks are in vain, and one that gives something is the last, with which
the read has been told an item or waits for an attempt.  Unless the program lets the read go, it comes to
that within `2 * n + 2` steps of its own.  The first thing that it tells is never its end, so nobody is ever
told that a read ended without a value. -/
theorem read_loop_ends {p : World ε V} (h : Reachable p) (handle : p.hasHandle = true) (role : Role)
    (moves : List (Move ε V)) :
    let key := p.nextKey
    let w := p.apply (.openReader .once role)
    let q := w.run moves
    let n := w.times (forestalls key) moves
    n ≤ w.times (interferes key) moves
      ∧ (w.looks key moves).length ≤ n + 1
      ∧ (∃ vain ≤ n, ∃ last : Option (Access V), last ≠ some .nothing
          ∧ w.looks key moves = List.replicate vain .nothing ++ last.toList)
      ∧ (.dropReader key ∉ moves →
          (∃ access ∈ w.looks key moves, access ≠ .nothing)
              ∨ 2 * n + 2 ≤ moves.countP (·.isStepOfReader key) →
            IsServed key q)
      ∧ (q.itemsTo key).getLast? ≠ some .finished
      ∧ ∀ d ∈ q.deliveries, d.item ≠ .failed .endedEarly := by
  intro key w q n
  have reachable : Reachable w := h.move _
  obtain ⟨streams, known⟩ : Streams false key w ∧ key < w.nextKey := Streams.opened h handle .once role
  have opened : w.seat? key = some ⟨key, role, .new .once⟩ := h.attended.seat?_new .once role handle
  have start : Loop key 0 0 [] w := .asking 0 opened rfl rfl rfl (Nat.le_refl _)
  have loop := start.run reachable known streams moves
  rw [Nat.zero_add, Nat.zero_add, List.nil_append] at loop
  obtain ⟨standing, told, _⟩ := (streams.run reachable known moves).told
  refine ⟨times_mono (fun _ _ => interferes_of_forestalls) w moves, ?_, ?_, fun kept ends => ?_,
    told.first_ne_finished, fun d hd => (reachable.run moves).attended.delivered d hd _⟩
  · cases loop with
    | asking vain _ _ looked _ charged | looking vain _ _ looked _ charged =>
        rw [looked, List.length_replicate]
        exact Nat.le_succ_of_le charged
    | ended vain last _ _ looked charged =>
        rw [looked, List.length_append, List.length_replicate]
        exact Nat.add_le_add charged (by cases last <;> simp)
  · cases loop with
    | asking vain _ _ looked _ charged | looking vain _ _ looked _ charged =>
        exact ⟨vain, charged, none, nofun, by simpa using looked⟩
    | ended vain last _ conclusive looked charged => exact ⟨vain, charged, last, conclusive, looked⟩
  · have stays : KeepsSeat key w := Or.inl (List.mem_map.mpr ⟨_, (seat?_mem opened).1, rfl⟩)
    refine (stays.run reachable known kept).isServed ?_
    cases loop with
    | asking vain _ _ looked steps charged | looking vain _ _ looked steps charged =>
        rcases ends with ⟨access, given, something⟩ | steps'
        · rw [looked] at given
          exact absurd (List.mem_replicate.mp given).2 something
        · omega
    | ended _ _ left => exact left

/-- The value is thrown away between the interest of a read and its look, and fetched then. -/
def thrownAwayFirst : List (Move Unit Nat) :=
  [.reader 0, .invalidate, .reader 0, .reader 0, .reader 0, .attempt 1, .attempt 1, .attempt 1,
    .attempt 1, .attempt 1, .attempt 1, .reader 0]

/-- One look is in vain, and the bounds are met. -/
theorem read_loop_ends_thrownAwayFirst :
    let p : World Unit Nat := (bare ⟨.periodic 1000, .unpaced⟩ none ()).run [.bind counting]
    let w := p.apply (.openReader .once .read)
    let q := w.run thrownAwayFirst
    p.hasHandle = true ∧ w.times (forestalls 0) thrownAwayFirst = 1
      ∧ w.looks 0 thrownAwayFirst = [.nothing, .ticket (.wait 1)]
      ∧ (w.looks 0 thrownAwayFirst).length ≤ 1 + 1
      ∧ thrownAwayFirst.countP (·.isStepOfReader 0) = 5
      ∧ IsServed 0 (w.run (thrownAwayFirst.take 5))
      ∧ q.itemsTo 0 = [.value ⟨10, 1, 0⟩] ∧ (q.itemsTo 0).getLast? ≠ some .finished := by
  have reachable : Reachable
      ((bare ⟨.periodic 1000, .unpaced⟩ none () : World Unit Nat).run [.bind counting]) :=
    (Reachable.initial (.bare _ _ _)).run _
  have whole := read_loop_ends reachable (by decide) .read thrownAwayFirst
  have served := (read_loop_ends reachable (by decide) .read (thrownAwayFirst.take 5)).2.2.2.1
    (by simp [thrownAwayFirst]) (Or.inr (by decide))
  exact ⟨by decide, by decide, by decide, whole.2.1, by decide, served, by decide,
    whole.2.2.2.2.1⟩

end World

end SingleFlight
