/-
  SingleFlight.Proofs.Lookouts — whoever looks out for the phases misses no change.

  A look-out gives the phase whenever the cell was marked since it last did,
  and waits otherwise.  It learns of a change by the mark alone.  So the law
  behind it is one on the critical sections of the cache: each of them leaves
  a mark, or changes counters at most.  A look-out that waits has then given
  the phase as it still is; and what it gives, one phase for a mark at most,
  is part of what the cell went through.

  Main results:
    * `Cache.enter_told` — a section leaves a mark, or changes counters at most.
    * `sighted_apply` — a move adds nothing to what a look-out has before it,
      but what it marks.
    * `KeepsUp.apply` — a look-out that has seen the last mark has given the phase.
    * `changes_told` — the three laws together, for all runs.
-/
import SingleFlight.Proofs.Marks

namespace SingleFlight

variable {ε V : Type}

/-! ## §1. Critical sections. -/

/-- What became of the cell `c` in a critical section: a mark was left, or the counters changed at most. -/
inductive Cell.Told (c : Cell V) : Cell V → Prop where
  | unmarked (counters : Counters) : Told c { c with counters }
  | marked {c' : Cell V} (version : c'.version = c.version + 1) : Told c c'

/-- The critical sections of the cache. -/
inductive Cache.Section (V : Type) where
  | subscribe
  | access (delivered : Option Nat)
  | demand
  | invalidate
  | poke
  | take (attempt item : Nat) (report : Report V)

namespace Cache

/-- The cache after a critical section. -/
def enter (c : Cache ε V) (now : Instant) : Section V → Cache ε V
  | .subscribe => c.subscribe
  | .access delivered => (c.access now delivered).1
  | .demand => (c.demand now).1
  | .invalidate => c.invalidate
  | .poke => c.poke
  | .take attempt item report => (c.take now attempt item report).1

variable {c c' : Cache ε V} {now : Instant}

/-- A reader leaves a mark or changes counters at most, if it finds an attempt to wait for. -/
theorem Touch.told (t : Touch c now c')
    (owed : c.cell.phase = .calculating → c.dispatcher.pending ≠ none) : c.cell.Told c'.cell := by
  cases t with
  | tally f => exact .unmarked (f c.cell.counters)
  | overflow => exact .unmarked c.cell.counters
  | noticed | started => exact .marked rfl
  | lost busy absent => exact absurd absent (owed busy)

/-- A report leaves a mark, unless a newer attempt counts. -/
theorem take_told (c : Cache ε V) (now : Instant) (attempt item : Nat) (report : Report V) :
    c.cell.Told (c.take now attempt item report).1.cell := by
  unfold take
  by_cases older : c.dispatcher.latest ≠ attempt
  · rw [if_pos older]
    exact .unmarked c.cell.counters
  · rw [if_neg older]
    cases report with
    | error failure => exact .marked rfl
    | ok content =>
        dsimp only
        split
        · exact .marked rfl
        · exact .marked rfl

/-- **A critical section leaves a mark, or changes counters at most.** -/
theorem enter_told (now : Instant) (s : Section V)
    (owed : c.cell.phase = .calculating → c.dispatcher.pending ≠ none) :
    c.cell.Told (c.enter now s).cell := by
  cases s with
  | subscribe => exact (c.subscribe_touch now).told owed
  | access delivered => exact (c.access_accessed now delivered).touch.told owed
  | demand => exact (c.demand_ticketed now).touch.told owed
  | invalidate => exact .marked rfl
  | poke => exact .marked rfl
  | take attempt item report => exact c.take_told now attempt item report

end Cache

namespace World

/-! ## §2. Look-outs. -/

/-- The look-out of a key. -/
def lookout? (w : World ε V) (key : Nat) : Option Lookout := w.lookouts.find? (·.key == key)

/-- The phase, if the look-out sees one. -/
def Sight.phase? : Sight V → Option (Phase (Sourced V))
  | .phase p => some p
  | _ => none

/-- What the look-out of a key would give if it looked now. -/
def before? (w : World ε V) (key : Nat) : Option (Phase (Sourced V)) :=
  (w.lookout? key).bind fun l => (w.sight l).phase?

/-- The phase that the look-out of a key gives with a move, if it gives one. -/
def sighted? (w : World ε V) (key : Nat) : Move ε V → Option (Phase (Sourced V))
  | .pollLookout k => if k = key then w.before? key else none
  | _ => none

/-- The phases that the look-out of a key gives along a run, oldest first. -/
def sightings (w : World ε V) (key : Nat) (moves : List (Move ε V)) : List (Phase (Sourced V)) :=
  w.observed (sighted? · key) moves

/-- The phase after a move, if that leaves a mark. -/
def marked? (w : World ε V) (m : Move ε V) : Option (Phase (Sourced V)) :=
  if (w.apply m).cache.cell.version = w.cache.cell.version then none
  else some (w.apply m).cache.cell.phase

/-- The phases that the cell goes through along a run, oldest first: one at the beginning, and one for each
mark. -/
def phases (w : World ε V) (moves : List (Move ε V)) : List (Phase (Sourced V)) :=
  w.cache.cell.phase :: w.observed marked? moves

/-! ## §3. What becomes of a look-out. -/

/-- A look-out that starts gets a key of its own. -/
theorem apply_openLookout {w : World ε V} (handle : w.hasHandle = true) :
    w.apply .openLookout
      = { w with lookouts := w.lookouts ++ [{ key := w.nextKey }], nextKey := w.nextKey + 1 } :=
  if_pos handle

/-- A move that is not about look-outs leaves them alone. -/
theorem lookouts_apply (w : World ε V) (m : Move ε V) :
    (w.apply m).lookouts = w.lookouts ∨ (m = .openLookout ∧ w.hasHandle = true)
      ∨ (∃ k, m = .pollLookout k) ∨ ∃ k, m = .dropLookout k := by
  cases tends : w.tendsLookouts m with
  | false => exact Or.inl ((apply_step w m).lookouts tends)
  | true =>
      cases m with
      | openLookout => exact Or.inr (Or.inl ⟨rfl, tends⟩)
      | pollLookout k => exact Or.inr (Or.inr (Or.inl ⟨k, rfl⟩))
      | dropLookout k => exact Or.inr (Or.inr (Or.inr ⟨k, rfl⟩))
      | _ => cases tends

/-- The look-out after it has looked. -/
def looked (w : World ε V) (l : Lookout) : Lookout :=
  match w.sight l with
  | .phase _ => { l with seen := some w.cache.cell.version }
  | .nothing => l
  | .finished => { l with isOver := true }

theorem looked_key (w : World ε V) (l : Lookout) : (w.looked l).key = l.key := by
  unfold looked
  split <;> rfl

/-- A look-out changes when it looks. -/
theorem lookout?_poll (w : World ε V) (key k : Nat) :
    (w.apply (.pollLookout k)).lookout? key
      = (w.lookout? key).map fun l => if l.key = k then w.looked l else l := by
  show (w.lookouts.map fun l => if l.key = k then w.looked l else l).find? (·.key == key) = _
  have keys : ((·.key == key) ∘ fun l => if l.key = k then w.looked l else l)
      = fun l : Lookout => l.key == key := by
    funext l
    show ((if l.key = k then w.looked l else l).key == key) = _
    split
    · rw [looked_key]
    · rfl
  rw [List.find?_map, keys]
  rfl

theorem lookout?_key {w : World ε V} {key : Nat} {l : Lookout} (h : w.lookout? key = some l) :
    l.key = key := by
  have found := List.find?_some h
  simpa using found

/-- A look-out that does not look stays as it is, until it goes. -/
theorem lookout?_apply {w : World ε V} {m : Move ε V} {key : Nat} (known : key < w.nextKey)
    (other : m ≠ .pollLookout key) :
    (w.apply m).lookout? key = w.lookout? key ∨ (w.apply m).lookout? key = none := by
  rcases w.lookouts_apply m with same | ⟨rfl, handle⟩ | ⟨k, rfl⟩ | ⟨k, rfl⟩
  · exact Or.inl (by rw [lookout?, same]; rfl)
  · refine Or.inl ?_
    rw [apply_openLookout handle]
    show (w.lookouts ++ [({ key := w.nextKey } : Lookout)]).find? (·.key == key) = _
    have new : (w.nextKey == key) = false := by
      rw [beq_eq_false_iff_ne]
      omega
    simp [List.find?_append, lookout?, new]
  · refine Or.inl ?_
    rw [lookout?_poll]
    cases found : w.lookout? key with
    | none => rfl
    | some l =>
        have elsewhere : l.key ≠ k := by
          rw [lookout?_key found]
          rintro rfl
          exact other rfl
        rw [Option.map_some, if_neg elsewhere]
  · show (w.lookouts.filter (·.key != k)).find? (·.key == key) = _ ∨ _
    by_cases own : k = key
    · refine Or.inr (List.find?_eq_none.mpr ?_)
      intro l hl
      have spared := (List.mem_filter.mp hl).2
      simp only [bne_iff_ne, ne_eq] at spared
      simpa [own] using spared
    · refine Or.inl ?_
      have spares (l : Lookout) : ((l.key != k) && (l.key == key)) = (l.key == key) := by
        by_cases same : l.key = key
        · simp [same, Ne.symm own]
        · simp [same]
      rw [List.find?_filter]
      simp only [Bool.decide_and, Bool.decide_eq_true, spares]
      rfl

/-! ## §4. What a look-out has before it. -/

/-- A look-out sees the phase, unless it is over or has seen the last mark. -/
theorem phase?_sight (w : World ε V) (l : Lookout) :
    (w.sight l).phase?
      = if l.isOver = true ∨ l.seen = some w.cache.cell.version then none
        else some w.cache.cell.phase := by
  unfold sight
  by_cases isOver : l.isOver = true
  · simp [isOver, Sight.phase?]
  · by_cases seen : l.seen = some w.cache.cell.version
    · rw [if_neg isOver, if_neg (not_not_intro seen), if_pos (Or.inr seen)]
      split <;> rfl
    · rw [if_neg isOver, if_pos seen, if_neg (by simp [isOver, seen])]
      rfl

/-- A look-out that waits has seen the last mark. -/
theorem seen_of_waiting {w : World ε V} {l : Lookout} (waits : w.sight l = .nothing) :
    l.seen = some w.cache.cell.version := by
  unfold sight at waits
  split at waits
  next => cases waits
  next =>
    split at waits
    next => cases waits
    next seen => exact Decidable.not_not.mp seen

/-- Whatever a look-out sees is the phase as it is. -/
theorem before?_cases (w : World ε V) (key : Nat) :
    w.before? key = none ∨ w.before? key = some w.cache.cell.phase := by
  unfold before?
  cases w.lookout? key with
  | none => exact Or.inl rfl
  | some l =>
      rw [Option.bind_some, phase?_sight]
      split
      · exact Or.inl rfl
      · exact Or.inr rfl

/-- Who has looked is over or has seen the last mark. -/
theorem looked_cases (w : World ε V) (l : Lookout) :
    (w.looked l).isOver = true ∨ (w.looked l).seen = some w.cache.cell.version := by
  unfold looked
  cases h : w.sight l with
  | phase p => exact Or.inr rfl
  | finished => exact Or.inl rfl
  | nothing => exact Or.inr (seen_of_waiting h)

/-- Who has looked has nothing before it. -/
theorem before?_looked (w : World ε V) (key : Nat) :
    (w.apply (.pollLookout key)).before? key = none := by
  unfold before?
  rw [lookout?_poll]
  cases found : w.lookout? key with
  | none => rfl
  | some l =>
      rw [Option.map_some, if_pos (lookout?_key found)]
      show (sight _ (w.looked l)).phase? = none
      rw [phase?_sight]
      exact if_pos (w.looked_cases l)

/-- Without a mark nobody sees anything new. -/
theorem before?_unmarked {w : World ε V} {m : Move ε V} {key : Nat} (known : key < w.nextKey)
    (other : m ≠ .pollLookout key) (unmarked : (w.apply m).cache.cell.version = w.cache.cell.version) :
    (w.apply m).before? key = w.before? key ∨ (w.apply m).before? key = none := by
  have phase := ((apply_step w m).marks.same unmarked).1
  unfold before?
  rcases lookout?_apply known other with same | gone
  · refine Or.inl ?_
    simp only [same, phase?_sight, unmarked, phase]
  · refine Or.inr ?_
    rw [gone]
    rfl

theorem sighted?_other {w : World ε V} {m : Move ε V} {key : Nat} (other : m ≠ .pollLookout key) :
    w.sighted? key m = none := by
  cases m with
  | pollLookout k =>
      have elsewhere : k ≠ key := by
        rintro rfl
        exact other rfl
      exact if_neg elsewhere
  | _ => rfl

/-- **A move adds nothing to what a look-out has before it, but what it marks**; and what the look-out gives
it had before it. -/
theorem sighted_apply {w : World ε V} {key : Nat} (known : key < w.nextKey) (m : Move ε V) :
    ((w.sighted? key m).toList ++ ((w.apply m).before? key).toList).Sublist
      ((w.before? key).toList ++ (w.marked? m).toList) := by
  by_cases own : m = .pollLookout key
  · subst own
    have given : w.sighted? key (.pollLookout key) = w.before? key := if_pos rfl
    have unmarked : w.marked? (.pollLookout key) = none := if_pos rfl
    have same : (w.sighted? key (.pollLookout key)).toList
          ++ ((w.apply (.pollLookout key)).before? key).toList
        = (w.before? key).toList ++ (w.marked? (.pollLookout key)).toList := by
      rw [given, before?_looked, unmarked]
    exact same ▸ List.Sublist.refl _
  · rw [sighted?_other own]
    show ((w.apply m).before? key).toList.Sublist _
    by_cases unmarked : (w.apply m).cache.cell.version = w.cache.cell.version
    · rcases before?_unmarked known own unmarked with same | gone
      · rw [same]
        exact List.sublist_append_left _ _
      · rw [gone]
        exact List.nil_sublist _
    · have marked : w.marked? m = some (w.apply m).cache.cell.phase := if_neg unmarked
      rw [marked]
      rcases (w.apply m).before?_cases key with none | new
      · rw [none]
        exact List.nil_sublist _
      · rw [new]
        exact List.sublist_append_right _ _

/-- What a look-out gives along a run it had before it, or was marked since. -/
theorem sightings_sublist {w : World ε V} {key : Nat} (known : key < w.nextKey)
    (moves : List (Move ε V)) :
    (w.sightings key moves).Sublist ((w.before? key).toList ++ w.observed marked? moves) := by
  induction moves generalizing w with
  | nil => exact List.nil_sublist _
  | cons m moves ih =>
      have later := ih (Nat.lt_of_lt_of_le known (apply_step w m).nextKey_le)
      show ((w.sighted? key m).toList ++ (w.apply m).sightings key moves).Sublist
        ((w.before? key).toList ++ ((w.marked? m).toList ++ (w.apply m).observed marked? moves))
      rw [← List.append_assoc]
      refine ((List.Sublist.refl _).append later).trans ?_
      rw [← List.append_assoc]
      exact (sighted_apply known m).append (List.Sublist.refl _)

/-! ## §5. What a look-out has given. -/

/-- The look-out of the key, which has given these phases: it has seen marks of the past only, and if it has
seen the last one, it has given the phase as it is. -/
def KeepsUp (w : World ε V) (key : Nat) (given : List (Phase (Sourced V))) : Prop :=
  ∀ l, w.lookout? key = some l → (∀ v, l.seen = some v → v ≤ w.cache.cell.version)
    ∧ (l.seen = some w.cache.cell.version → given.getLast? = some w.cache.cell.phase)

/-- **A look-out that has seen the last mark has given the phase**, and every move leaves it so. -/
theorem KeepsUp.apply {w : World ε V} {key : Nat} {given : List (Phase (Sourced V))}
    (h : KeepsUp w key given) (known : key < w.nextKey) (m : Move ε V) :
    KeepsUp (w.apply m) key (given ++ (w.sighted? key m).toList) := by
  intro l' found'
  by_cases own : m = .pollLookout key
  · subst own
    rw [lookout?_poll] at found'
    obtain ⟨l, found, rfl⟩ := Option.map_eq_some_iff.mp found'
    rw [if_pos (lookout?_key found)]
    obtain ⟨past, last⟩ := h l found
    have gives : w.sighted? key (.pollLookout key) = (w.sight l).phase? := by
      show (if key = key then w.before? key else none) = _
      rw [if_pos rfl, before?, found]
      rfl
    have seen := w.phase?_sight l
    show (∀ v, (w.looked l).seen = some v → v ≤ w.cache.cell.version)
      ∧ ((w.looked l).seen = some w.cache.cell.version → _ = some w.cache.cell.phase)
    rw [gives]
    unfold looked
    cases sees : w.sight l with
    | phase p =>
        -- it gives the phase, and has seen the last mark with that
        have same : p = w.cache.cell.phase := by
          rw [sees] at seen
          split at seen
          next => cases seen
          next => exact Option.some.inj seen
        refine ⟨fun v hv => Nat.le_of_eq (Option.some.inj hv).symm, fun _ => ?_⟩
        rw [same]
        exact List.getLast?_concat
    | nothing | finished =>
        show _ ∧ (_ → (given ++ []).getLast? = _)
        rw [List.append_nil]
        exact ⟨past, last⟩
  · have marks := (apply_step w m).marks
    rw [sighted?_other own, Option.toList_none, List.append_nil]
    rcases lookout?_apply known own with same | gone
    · rw [same] at found'
      obtain ⟨past, last⟩ := h l' found'
      refine ⟨fun v hv => Nat.le_trans (past v hv) marks.le, fun seen => ?_⟩
      -- it had seen the last mark before, so there was none since
      have unmarked := Nat.le_antisymm (past _ seen) marks.le
      rw [unmarked] at seen
      rw [(marks.same unmarked).1]
      exact last seen
    · rw [gone] at found'
      cases found'

theorem KeepsUp.run {w : World ε V} {key : Nat} {given : List (Phase (Sourced V))}
    (h : KeepsUp w key given) (known : key < w.nextKey) (moves : List (Move ε V)) :
    KeepsUp (w.run moves) key (given ++ w.sightings key moves) := by
  induction moves generalizing w given with
  | nil =>
      show KeepsUp w key (given ++ [])
      rw [List.append_nil]
      exact h
  | cons m moves ih =>
      have later := ih (h.apply known m) (Nat.lt_of_lt_of_le known (apply_step w m).nextKey_le)
      rw [List.append_assoc] at later
      exact later

/-- Every look-out has a key that is known. -/
theorem Reachable.lookouts_below {w : World ε V} (h : Reachable w) :
    ∀ l ∈ w.lookouts, l.key < w.nextKey := by
  induction h with
  | initial h => cases h <;> exact fun l hl => nomatch hl
  | @move w h m ih =>
      intro l hl
      have more := (apply_step w m).nextKey_le
      rcases w.lookouts_apply m with same | ⟨rfl, handle⟩ | ⟨k, rfl⟩ | ⟨k, rfl⟩
      · rw [same] at hl
        exact Nat.lt_of_lt_of_le (ih l hl) more
      · rw [apply_openLookout handle] at hl ⊢
        rcases List.mem_append.mp hl with old | new
        · exact Nat.lt_succ_of_lt (ih l old)
        · rw [List.mem_singleton.mp new]
          exact Nat.lt_succ_self _
      · obtain ⟨l₀, hl₀, rfl⟩ := List.mem_map.mp hl
        show (if l₀.key = k then w.looked l₀ else l₀).key < w.nextKey
        split
        · rw [looked_key]
          exact ih l₀ hl₀
        · exact ih l₀ hl₀
      · exact ih l (List.mem_filter.mp hl).1

/-- A look-out that starts has given nothing, and has the phase before it. -/
theorem Reachable.opened {w : World ε V} (h : Reachable w) (handle : w.hasHandle = true) :
    KeepsUp (w.apply .openLookout) w.nextKey []
      ∧ (w.apply .openLookout).before? w.nextKey
        = some (w.apply .openLookout).cache.cell.phase := by
  have unknown : w.lookouts.find? (·.key == w.nextKey) = none := by
    refine List.find?_eq_none.mpr fun l hl => ?_
    have below := h.lookouts_below l hl
    simp only [beq_iff_eq]
    omega
  have found : (w.apply .openLookout).lookout? w.nextKey = some { key := w.nextKey } := by
    rw [apply_openLookout handle]
    simp [lookout?, List.find?_append, unknown]
  refine ⟨fun l hl => ?_, ?_⟩
  · rw [found] at hl
    cases hl
    exact ⟨nofun, nofun⟩
  · rw [before?, found, Option.bind_some, phase?_sight]
    rfl

/-! ## §6. All together. -/

/-- **Every change is told.**  In every reachable world whose cache is in being, a critical section that
changes the phase or the revision leaves a mark, and one that leaves none changes counters at most.  So
let a look-out start, and let anything happen since, with looks in between at any time.  The texts that
it gives are part of those that the cell went through, one at the beginning and one for each mark; and
where it gives nothing for now, the last text that it gave is that of the phase as it is. -/
theorem changes_told {w : World ε V} (h : Reachable w) :
    (w.isCacheAlive = true → ∀ s : Cache.Section V,
        let c := w.cache.cell
        let c' := (w.cache.enter w.now s).cell
        (c'.phase ≠ c.phase ∨ c'.revision ≠ c.revision → c'.version = c.version + 1)
          ∧ (c'.version = c.version → ∃ counters, c' = { c with counters }))
      ∧ (w.hasHandle = true → ∀ (moves : List (Move ε V)) (shown : Sourced V → String),
        let o := w.apply .openLookout
        let p := o.run moves
        let texts := (o.sightings w.nextKey moves).map (·.describe shown)
        texts.Sublist ((o.phases moves).map (·.describe shown))
          ∧ ∀ l, p.lookout? w.nextKey = some l → p.sight l = .nothing →
              texts.getLast? = some (p.cache.cell.phase.describe shown)) := by
  refine ⟨fun alive s => ?_, fun handle moves shown => ?_⟩
  · have told : w.cache.cell.Told (w.cache.enter w.now s).cell := by
      refine w.cache.enter_told w.now s fun busy absent => ?_
      rw [h.coherent.owed alive busy] at absent
      cases absent
    generalize (w.cache.enter w.now s).cell = c' at told ⊢
    cases told with
    | unmarked counters =>
        refine ⟨fun changed => ?_, fun _ => ⟨counters, rfl⟩⟩
        rcases changed with phase | revision
        · exact absurd rfl phase
        · exact absurd rfl revision
    | marked version =>
        refine ⟨fun _ => version, fun same => ?_⟩
        rw [version] at same
        exact absurd same (Nat.succ_ne_self _)
  · obtain ⟨keepsUp, before⟩ := h.opened handle
    have known : w.nextKey < (w.apply .openLookout).nextKey := by
      rw [apply_openLookout handle]
      exact Nat.lt_succ_self _
    refine ⟨?_, fun l found waits => ?_⟩
    · have part := sightings_sublist known moves
      rw [before] at part
      exact part.map _
    · have given := (keepsUp.run known moves l found).2 (seen_of_waiting waits)
      rw [List.nil_append] at given
      rw [List.getLast?_map, given]
      rfl

/-- A fetch stores a value, which is thrown away, with three looks in between and one at the end. -/
def thrownAway : List (Move Unit Nat) :=
  [.pollLookout 0, .openReader .once .polled, .reader 1, .reader 1, .attempt 1, .attempt 1, .attempt 1,
    .attempt 1, .pollLookout 0, .poke, .pollLookout 0, .invalidate, .subscribe, .pollLookout 0]

/-- A mark is told even where the phase is the same, and a phase between two looks is not told. -/
theorem changes_told_thrownAway :
    let w : World Unit Nat := (bare ⟨.periodic 1000, .unpaced⟩ none ()).run [.bind counting]
    let o := w.apply .openLookout
    let p := o.run thrownAway
    let shown : Sourced Nat → String := fun content => toString content.value
    w.isCacheAlive = true ∧ w.hasHandle = true
      ∧ p.lookout? 0 = some { key := 0, seen := some 5 }
      ∧ p.sight { key := 0, seen := some 5 } = .nothing
      ∧ (o.phases thrownAway).map (·.describe shown) = ["empty", "calculating", "private stream: 10",
          "private stream: 10", "flush", "invalid(should_fetch: true)"]
      ∧ ((o.sightings 0 thrownAway).map (·.describe shown)).Sublist
          ((o.phases thrownAway).map (·.describe shown))
      ∧ ((o.sightings 0 thrownAway).map (·.describe shown)).getLast?
          = some "invalid(should_fetch: true)"
      ∧ ∃ counters, (w.cache.enter w.now (.take 7 0 (.ok ⟨1, 7, 0⟩))).cell
          = { w.cache.cell with counters } := by
  have h := changes_told ((Reachable.initial (.bare ⟨.periodic 1000, .unpaced⟩ none ())).run
    [.bind counting])
  have texts := h.2 (by decide) thrownAway fun content => toString content.value
  refine ⟨by decide, by decide, by decide, by decide, by decide, texts.1, ?_, ?_⟩
  · exact texts.2 { key := 0, seen := some 5 } (by decide) (by decide)
  · exact (h.1 (by decide) (.take 7 0 (.ok ⟨1, 7, 0⟩))).2 (by decide)

end World

end SingleFlight
