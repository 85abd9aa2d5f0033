import NautilusCtrader.Bars.QueueMoves

/-!
# What a backfill catches up on

A backfill fetches the bars between the last emitted one and the last one the clock says has closed,
and then queues the boundaries that may have closed since. It works out where to look with the phase
it has observed, so a bar that opened on another phase may lie outside (`not_losesNone_earlier`). A
bar is caught up on when it lies where the backfill looks and no newer bar is emitted before it is
queued (`losesNone_of_catchesUp`).
-/

namespace NautilusCtrader

open Common

namespace Bars

variable (setup : Setup)

/-! ## Backfills -/

/-- A closer at rest that has observed a phase takes a backfill, and `during` runs until `last`
returns from it. No fetch fails, and the closer stays open. -/
structure Backfills (s : BarCloser) (during : List Action) (last : Action) : Prop where
  atRest : s.idle = true
  isOpen : s.closed = false
  notHolding : s.holding = false
  observed : s.phase.isSome = true
  staysOpen : ∀ action ∈ during, action ≠ .close
  noFailure : ∀ action ∈ during,
    action ≠ .failBackfill ∧ action ≠ .historyFailed ∧ action ≠ .historyUnreachable
  running : .backfilled ∉ (machine setup).told s (.backfill :: during)
  returns : .backfilled ∈
    ((machine setup).step ((machine setup).after s (.backfill :: during)) last).2

/-- `fetch_range` answers with every bar of the history in the range. -/
def serves (history : List RawBar) (s : BarCloser) : Action → Bool
  | .rangeAnswered bars =>
    match s.backfilling with
    | some (.fetching start stop) =>
      history.all fun bar =>
        !(start ≤ bar.boundarySecs && bar.boundarySecs ≤ stop) || bars.contains bar
    | _ => true
  | _ => true

/-- A backfill that starts in `s` has to catch up on `boundary`: it is above `last_emitted`, at the
floor or above, and its period is over. -/
def Missed (s : BarCloser) (boundary : ℤ) : Prop :=
  s.isCovered boundary = false ∧ s.floor ≤ boundary ∧ (boundary + setup.period : ℤ) ≤ s.clock

/-- Every bar of the history that a backfill in `s` has to catch up on is emitted or queued once
`records` have been told and the closer is left as `s'`. -/
def LosesNone (history : List RawBar) (s : BarCloser) (records : List Record) (s' : BarCloser) :
    Prop :=
  ∀ bar ∈ history, Missed setup s bar.boundarySecs →
    bar.boundarySecs ∈ emittedBoundaries records ∨
      ∃ p ∈ s'.queue, p.boundary = bar.boundarySecs

instance (s : BarCloser) (boundary : ℤ) : Decidable (Missed setup s boundary) := by
  unfold Missed
  infer_instance

instance (history : List RawBar) (s : BarCloser) (records : List Record) (s' : BarCloser) :
    Decidable (LosesNone setup history s records s') := by
  unfold LosesNone
  infer_instance

/-! ## Where a backfill looks -/

/-- The action is the turn of a backfill that works out the range. -/
def computesRange (s : BarCloser) : Action → Bool
  | .run => s.stack.head? = some .backfill && s.backfilling = some .pumping
  | _ => false

/-- The action is the turn of a backfill that works out the tail. -/
def computesTail (s : BarCloser) : Action → Bool
  | .run => computesRange s .run && s.lastClosedBoundary setup < s.rangeStart setup
  | .drained =>
    s.idle &&
      match s.backfilling with
      | some (.draining _) => true
      | _ => false
  | _ => false

/-- When the range is worked out, `boundary` is a period above `last_emitted` at least, and a period
below the newest boundary of the observed phase at least. -/
def inRange (boundary : ℤ) (s : BarCloser) (action : Action) : Bool :=
  !computesRange s action ||
    (match s.lastEmitted with
      | some last => last + setup.period ≤ boundary
      | none => true) &&
    boundary + setup.period ≤ s.floorBoundary setup s.clock

/-- When the range is worked out, `boundary` is less than two periods below the newest boundary of
the observed phase, or above it. -/
def nearEnd (boundary : ℤ) (s : BarCloser) (action : Action) : Bool :=
  !computesRange s action || s.floorBoundary setup s.clock < boundary + 2 * setup.period

/-- When the tail is worked out, the period of `boundary` is over by the clock then, the phase is that of
`boundary`, and an entry it may have is not one that history has given up. -/
def onPhase (boundary : ℤ) (s : BarCloser) (action : Action) : Bool :=
  !computesTail setup s action ||
    (boundary + setup.period : ℤ) ≤ s.clock && s.phase = some (boundary % setup.period) &&
    s.queue.all fun p => p.boundary ≠ boundary || p.Awaits

/-- A backfill in `s` catches up on `boundary`: it is queued with a bar already, or it lies where the
backfill looks and no newer bar is emitted before it. -/
inductive CatchesUp (boundary : ℤ) (s : BarCloser) (actions : List Action) : Prop
  | queued (p : Pending) (hp : p ∈ s.queue) (hboundary : p.boundary = boundary) (hbar : p.HasBar)
  | fetched
      (h : (machine setup).Always
        (fun s action => (keepsTurn boundary s action && inRange setup boundary s action) = true)
        s actions)
  | retried
      (h : (machine setup).Always
        (fun s action =>
          (keepsTurn boundary s action && nearEnd setup boundary s action &&
            onPhase setup boundary s action) = true)
        s actions)

variable {setup} {floor : ℤ} {records told : List Record} {action : Action} {s s' : BarCloser}
  {boundary : ℤ}

/-! ## Boundaries of a phase -/

/-- A boundary of the observed phase is tail enough when its period is over and the range ended less
than a period above it. -/
theorem mem_tailBoundaries_of_phase {stop : ℤ} (hphase : s.phase = some (boundary % setup.period))
    (hover : (boundary + setup.period : ℤ) ≤ s.clock) (hstop : stop < boundary + setup.period) :
    boundary ∈ s.tailBoundaries setup stop := by
  have hpos := setup.period_pos
  have hboundary := Int.mul_ediv_add_emod boundary setup.period
  unfold BarCloser.tailBoundaries BarCloser.lastClosedBoundary BarCloser.floorBoundary
  rw [hphase]
  dsimp only [Option.getD_some]
  rw [Int.floor_intCast]
  have hfloor : boundary + setup.period ≤ ⌊s.clock⌋ := Int.le_floor.mpr (by exact_mod_cast hover)
  set phase := boundary % setup.period with hphase_def
  set index := boundary / setup.period with hindex
  have hnewest : index + 1 ≤ (⌊s.clock⌋ - phase) / setup.period := by
    rw [Int.le_ediv_iff_mul_le hpos, Int.add_mul, Int.one_mul, Int.mul_comm]
    omega
  have hfirst : (stop - phase) / setup.period ≤ index := by
    have hlt : (stop - phase) / setup.period < index + 1 := by
      rw [Int.ediv_lt_iff_lt_mul hpos, Int.add_mul, Int.one_mul, Int.mul_comm]
      omega
    omega
  generalize (⌊s.clock⌋ - phase) / setup.period = newest at hnewest ⊢
  generalize (stop - phase) / setup.period = first at hfirst ⊢
  have hmin : min (first * setup.period + phase) (newest * setup.period + phase - setup.period) =
      first * setup.period + phase := by
    refine min_eq_left ?_
    have hmul : first * setup.period ≤ (newest - 1) * setup.period :=
      Int.mul_le_mul_of_nonneg_right (by omega) hpos.le
    rw [Int.sub_mul, Int.one_mul] at hmul
    omega
  rw [hmin]
  have hcount : (newest * setup.period + phase - setup.period - (first * setup.period + phase)) /
      setup.period = newest - 1 - first := by
    have hfactor : newest * setup.period + phase - setup.period - (first * setup.period + phase) =
        (newest - 1 - first) * setup.period := by ring
    rw [hfactor, Int.mul_ediv_cancel _ (ne_of_gt hpos)]
  rw [hcount]
  refine List.mem_map.mpr ⟨(index - first).toNat, List.mem_range.mpr (by omega), ?_⟩
  rw [Int.toNat_of_nonneg (by omega)]
  have hsum : first * setup.period + phase + (index - first) * setup.period =
      setup.period * index + phase := by ring
  rw [hsum, hboundary]

/-! ## Every step -/

/-- What every step of an open closer but a close does. -/
structure Turns (action : Action) (s s' : BarCloser) (told : List Record) : Prop where
  closed : s'.closed = s.closed
  queue : QueueMove action s s' told

/-- A move of the queue is a turn of it. -/
theorem Moves.turns (h : Moves action s s' told) : Turns action s s' told :=
  ⟨h.closed, h.queue⟩

/-- Nothing of the queue turns where nothing of it is touched. -/
theorem Turns.still (hclosed : s'.closed = s.closed)
    (hqueue : s'.queue = s.queue) (hlast : s'.lastEmitted = s.lastEmitted)
    (htold : emittedBoundaries told = []) : Turns action s s' told :=
  ⟨hclosed, .still hqueue hlast htold⟩

/-- A turn of a backfill that goes on with a move. -/
theorem Turns.of_moves {s₁ : BarCloser} (h : Moves action s₁ s' []) (hclosed : s₁.closed = s.closed)
    (hqueue : s₁.queue = s.queue) (hlast : s₁.lastEmitted = s.lastEmitted) (hstack : s₁.stack ≠ []) : Turns action s s' [] :=
  ⟨h.closed.trans hclosed, h.of_turn hqueue hlast hstack⟩

/-- Working out the tail queues nothing yet. -/
theorem turns_queueTail (s₀ : BarCloser) (stop : ℤ) (hclosed : s₀.closed = s.closed)
    (hqueue : s₀.queue = s.queue) (hlast : s₀.lastEmitted = s.lastEmitted) :
    Turns action s (s₀.queueTail setup stop).1 (s₀.queueTail setup stop).2 := by
  unfold BarCloser.queueTail
  split
  · exact .still hclosed hqueue hlast rfl
  · exact .still hclosed hqueue hlast rfl

/-- A turn of the backfill queues its boundaries and emits nothing. -/
theorem turns_runBackfill (s : BarCloser) (below : List Frame) :
    Turns action s (BarCloser.runBackfill setup { s with stack := below }).1
      (BarCloser.runBackfill setup { s with stack := below }).2 := by
  unfold BarCloser.runBackfill
  split
  · dsimp only
    split
    · exact turns_queueTail _ _ rfl rfl rfl
    · exact .still rfl rfl rfl rfl
  · exact .still rfl rfl rfl rfl
  · dsimp only
    split
    · exact .of_moves (moves_enqueue _ _ (.inr rfl)) rfl rfl rfl (List.cons_ne_nil _ _)
    · exact .still rfl rfl rfl rfl
  · exact .of_moves (moves_enqueue _ _ (.inl rfl)) rfl rfl rfl (List.cons_ne_nil _ _)
  · dsimp only
    split
    · exact .of_moves (moves_onUpdate _ _) rfl rfl rfl (List.cons_ne_nil _ _)
    · exact .still rfl rfl rfl rfl
  · exact .still rfl rfl rfl rfl
  · exact .still rfl rfl rfl rfl

/-- Served bars are not emitted ones. -/
theorem emittedBoundaries_served (bars : List RawBar) (more : List Record)
    (hmore : ∀ r ∈ more, r.Quiet) : emittedBoundaries (bars.map .served ++ more) = [] := by
  refine emittedBoundaries_quiet ?_
  intro r hr
  rcases List.mem_append.mp hr with hr | hr
  · obtain ⟨bar, -, rfl⟩ := List.mem_map.mp hr
    trivial
  · exact hmore r hr

/-- The answer for the range is kept for the turns to come. -/
theorem turns_rangeAnswered (s : BarCloser) (bars : List RawBar) :
    Turns action s (s.rangeAnswered bars).1 (s.rangeAnswered bars).2 := by
  unfold BarCloser.rangeAnswered
  split
  · split
    · refine .still rfl rfl rfl (emittedBoundaries_served bars _ ?_)
      intro r hr
      rw [List.mem_singleton.mp hr]
      trivial
    · refine .still rfl rfl rfl ?_
      have hserved := emittedBoundaries_served bars [] (by simp)
      rwa [List.append_nil] at hserved
  · exact .still rfl rfl rfl rfl

/-- A backfill begins with the queue as it is. -/
theorem turns_backfill (s : BarCloser) : Turns action s s.backfill [] := by
  unfold BarCloser.backfill
  split
  · exact .still rfl rfl rfl rfl
  · exact .of_moves (moves_pump _) rfl rfl rfl (List.cons_ne_nil _ _)

/-- A backfill's own steps: the turns of its frame, and what comes of what it waits for. -/
inductive BackfillStep (s : BarCloser) : Action → Prop
  | run (below : List Frame) (hstack : s.stack = .backfill :: below) : BackfillStep s .run
  | backfill : BackfillStep s .backfill
  | rangeAnswered (bars : List RawBar) : BackfillStep s (.rangeAnswered bars)
  | drained : BackfillStep s .drained
  | failBackfill : BackfillStep s .failBackfill

/-- A step of the backfill is one of the steps it is made of. -/
theorem backfillStep_of_steps (hown : s.stepsBackfill action = true) : BackfillStep s action := by
  cases action with
  | run =>
    have hhead : s.stack.head? = some .backfill := by
      simpa [BarCloser.stepsBackfill] using hown
    obtain ⟨below, hstack⟩ := List.head?_eq_some_iff.mp hhead
    exact .run below hstack
  | backfill => exact .backfill
  | rangeAnswered bars => exact .rangeAnswered bars
  | drained => exact .drained
  | failBackfill => exact .failBackfill
  | tick now => cases hown
  | onUpdate bar => cases hown
  | onDisconnect => cases hown
  | close => cases hown
  | returns => cases hown
  | timer => cases hown
  | startResolver => cases hown
  | wakeResolver => cases hown
  | historyAnswered result => cases hown
  | historyFailed => cases hown
  | historyUnreachable => cases hown

/-- Every step but a close turns the queue. -/
theorem turns_step (h : Invariant setup floor False records s) (hopen : s.closed = false)
    (hclose : action ≠ .close) :
    Turns action s ((machine setup).step s action).1 ((machine setup).step s action).2 := by
  have hatRest : ∀ next : BarCloser × List Record,
      (s.stack = [] → Turns action s next.1 next.2) →
      Turns action s (if s.idle then next else (s, [])).1 (if s.idle then next else (s, [])).2 := by
    intro next hnext
    split
    · rename_i hidle
      exact hnext (stack_of_idle hidle)
    · exact .still rfl rfl rfl rfl
  cases hown : s.stepsBackfill action with
  | false => exact (moves_step h hopen hclose hown).turns
  | true =>
    cases backfillStep_of_steps hown with
    | run below hstack =>
      have hrun : s.run setup = BarCloser.runBackfill setup { s with stack := below } := by
        unfold BarCloser.run
        rw [hstack]
      show Turns _ s (s.run setup).1 (s.run setup).2
      rw [hrun]
      exact turns_runBackfill s below
    | backfill => exact hatRest _ fun _ => turns_backfill s
    | rangeAnswered bars => exact hatRest _ fun _ => turns_rangeAnswered s bars
    | drained =>
      refine hatRest _ fun _ => ?_
      unfold BarCloser.drained
      split
      · exact turns_queueTail _ _ rfl rfl rfl
      · exact .still rfl rfl rfl rfl
    | failBackfill =>
      refine hatRest _ fun _ => ?_
      unfold BarCloser.failBackfill
      split
      · exact .still rfl rfl rfl rfl
      · exact .still rfl rfl rfl rfl
      · exact .still rfl rfl rfl rfl

/-! ## While a bar is caught up on -/

/-- An open closer that has to catch up on `boundary`, or had to. -/
structure Watched (setup : Setup) (floor : ℤ) (boundary : ℤ) (records : List Record)
    (s : BarCloser) : Prop where
  invariant : Invariant setup floor False records s
  isOpen : s.closed = false
  atFloor : s.floor ≤ boundary

/-- An open closer is watched on until it is closed. -/
theorem Watched.step (h : Watched setup floor boundary records s) (hclose : action ≠ .close) :
    Watched setup floor boundary (records ++ ((machine setup).step s action).2)
      ((machine setup).step s action).1 := by
  have hturn := turns_step h.invariant h.isOpen hclose
  have hinvariant : Invariant setup floor False
      (records ++ ((machine setup).step s action).2) ((machine setup).step s action).1 :=
    h.invariant.step False.elim
  exact
    { invariant := hinvariant
      isOpen := hturn.closed.trans h.isOpen
      atFloor := by
        rw [hinvariant.floor_eq, ← h.invariant.floor_eq]
        exact h.atFloor }

/-- A boundary that is queued in its turn is there afterwards. -/
theorem present_enqueue {kept : Pending → Prop} {streamed : Option RawBar} {needsHistory : Bool}
    (hopen : s.closed = false) (hfloor : s.floor ≤ boundary)
    (hpassed : Passed records s boundary) (hnew : kept ⟨boundary, streamed, needsHistory⟩)
    (hattach : ∀ p ∈ s.queue, p.boundary = boundary → kept (p.attach streamed)) :
    Present kept records (s.enqueue boundary streamed needsHistory) boundary := by
  cases hcovered : s.isCovered boundary with
  | true => exact .inl (hpassed hcovered)
  | false =>
    unfold BarCloser.enqueue
    rw [if_neg (by simp [hopen, hcovered, hfloor])]
    refine .inr ?_
    split
    · rename_i p hfind
      obtain ⟨hp, hboundary⟩ := find_eq_some hfind
      refine ⟨_, List.mem_map_of_mem hp, ?_, ?_⟩
      · rw [if_pos hboundary, p.attach_boundary]
        exact hboundary
      · rw [if_pos hboundary]
        exact hattach p hp hboundary
    · rw [(queue_pump _).1]
      exact ⟨_, mem_insertPending.mpr (.inl rfl), rfl, hnew⟩

/-- A bar of its boundary leaves no entry without one. -/
theorem Pending.attach_hasBar (p : Pending) (bar : RawBar) : (p.attach (some bar)).HasBar := by
  unfold Pending.attach
  split
  · rfl
  · rename_i hstreamed
    simp [Pending.HasBar, hstreamed]

/-- The backfill's frame on top runs the backfill. -/
theorem runBackfill_run {below : List Frame} (hstack : s.stack = .backfill :: below) :
    (machine setup).step s .run = BarCloser.runBackfill setup { s with stack := below } := by
  show s.run setup = _
  unfold BarCloser.run
  rw [hstack]

/-- Draining the queue ends no backfill. -/
theorem backfilled_notMem_pop (front : Pending) (rest : List Pending) :
    Record.backfilled ∉ (s.pop front rest).2 := by
  unfold BarCloser.pop
  split
  · exact List.not_mem_nil
  · unfold BarCloser.emit
    split
    · exact List.not_mem_nil
    · simp

/-- An open closer's backfill goes on with its tail. -/
theorem backfilled_notMem_queueTail (hopen : s.closed = false) (stop : ℤ) :
    Record.backfilled ∉ (s.queueTail setup stop).2 := by
  unfold BarCloser.queueTail
  rw [if_neg (by simp [hopen])]
  exact List.not_mem_nil

/-- What tells that a backfill returned is the end of its replay. -/
theorem told_backfilled (hopen : s.closed = false)
    (htold : Record.backfilled ∈ ((machine setup).step s action).2) :
    s.backfilling = some .replaying ∧ ((machine setup).step s action).1.queue = s.queue := by
  -- an action that does not apply tells nothing
  have hguarded : ∀ (guard : Bool) (next : BarCloser × List Record),
      Record.backfilled ∈ (if guard then next else (s, [])).2 → Record.backfilled ∈ next.2 := by
    intro guard next hmem
    split at hmem
    · exact hmem
    · cases hmem
  -- every action but a turn of the stack tells something else
  cases action with
  | tick now => cases htold
  | onUpdate bar => cases List.mem_singleton.mp (hguarded _ _ htold)
  | onDisconnect => cases hguarded _ _ htold
  | close => cases List.mem_singleton.mp (hguarded _ _ htold)
  | returns => cases htold
  | timer => cases hguarded _ _ htold
  | startResolver => cases hguarded _ _ htold
  | wakeResolver => cases hguarded _ _ htold
  | historyFailed => cases hguarded _ _ htold
  | historyUnreachable => cases hguarded _ _ htold
  | backfill => cases hguarded _ _ htold
  | historyAnswered result =>
    have hmem := hguarded _ _ htold
    unfold BarCloser.historyAnswered at hmem
    split at hmem
    · dsimp only at hmem
      split at hmem <;> cases List.mem_singleton.mp hmem
    · cases hmem
    · cases hmem
  | rangeAnswered bars =>
    have hmem := hguarded _ _ htold
    unfold BarCloser.rangeAnswered at hmem
    split at hmem
    · rw [if_neg (by simp [hopen])] at hmem
      obtain ⟨bar, -, hbar⟩ := List.mem_map.mp hmem
      cases hbar
    · cases hmem
  | drained =>
    have hmem := hguarded _ _ htold
    unfold BarCloser.drained at hmem
    split at hmem
    · exact absurd hmem (backfilled_notMem_queueTail hopen _)
    · cases hmem
  | failBackfill =>
    have hmem := hguarded _ _ htold
    unfold BarCloser.failBackfill at hmem
    split at hmem
    · cases List.mem_singleton.mp hmem
    · cases List.mem_singleton.mp hmem
    · cases hmem
  | run =>
    have hmem : Record.backfilled ∈ (s.run setup).2 := htold
    cases hstack : s.stack with
    | nil =>
      unfold BarCloser.run at hmem
      rw [hstack] at hmem
      cases hmem
    | cons frame below =>
      cases frame with
      | callback =>
        unfold BarCloser.run at hmem
        rw [hstack] at hmem
        cases hmem
      | pump =>
        unfold BarCloser.run at hmem
        rw [hstack] at hmem
        dsimp only at hmem
        split at hmem
        · cases hmem
        · exact absurd hmem (backfilled_notMem_pop _ _)
      | resolve =>
        unfold BarCloser.run at hmem
        rw [hstack] at hmem
        dsimp only at hmem
        split at hmem
        · cases hmem
        · exact absurd hmem (backfilled_notMem_pop _ _)
      | backfill =>
        -- the turns of the backfill: only that of `replaying` returns
        have hopen' : ({ s with stack := below } : BarCloser).closed = false := hopen
        rw [runBackfill_run hstack] at htold ⊢
        unfold BarCloser.runBackfill at htold
        split at htold
        · dsimp only at htold
          split at htold
          · exact absurd htold (backfilled_notMem_queueTail hopen' _)
          · cases htold
        · cases htold
        · dsimp only at htold
          split at htold <;> cases htold
        · cases htold
        · dsimp only at htold
          split at htold <;> cases htold
        · rename_i hreplaying
          refine ⟨hreplaying, ?_⟩
          unfold BarCloser.runBackfill
          rw [show ({ s with stack := below } : BarCloser).backfilling = some .replaying from
            hreplaying]
        · cases htold

/-! ## A bar that lies in the range -/

/-- Where a backfill stands that has `boundary` still to come from its range. -/
def AwaitsRange (boundary : ℤ) (records : List Record) (s : BarCloser) : Prop :=
  match s.backfilling with
  | some .pumping => Passed records s boundary
  | some (.fetching start stop) =>
    Passed records s boundary ∧ start ≤ boundary ∧ boundary ≤ stop
  | some (.queueing start stop bars) =>
    Passed records s boundary ∧ start ≤ boundary ∧ boundary ≤ stop ∧
      ∃ bar ∈ bars, bar.boundarySecs = boundary
  | _ => False

/-- A boundary that awaits the range, was queued or was emitted has not been passed over. -/
theorem AwaitsRange.passed (h : AwaitsRange boundary records s) : Passed records s boundary := by
  unfold AwaitsRange at h
  split at h
  · exact h
  · exact h.1
  · exact h.1
  · exact h.elim

/-- A move leaves a backfill waiting for its range. -/
theorem AwaitsRange.of_passed (h : AwaitsRange boundary records s)
    (hbackfilling : s'.backfilling = s.backfilling) (hpassed : Passed (records ++ told) s' boundary) :
    AwaitsRange boundary (records ++ told) s' := by
  unfold AwaitsRange at h ⊢
  rw [hbackfilling]
  split
  · exact hpassed
  · rename_i hstage
    simp only [hstage] at h
    exact ⟨hpassed, h.2⟩
  · rename_i hstage
    simp only [hstage] at h
    exact ⟨hpassed, h.2⟩
  · rename_i hpumping hfetching hqueueing
    split at h
    · rename_i hstage
      exact hpumping hstage
    · rename_i hstage
      exact hfetching _ _ hstage
    · rename_i hstage
      exact hqueueing _ _ _ hstage
    · exact h

/-- When the range is worked out, a boundary in it lies between its ends. -/
theorem range_of_inRange (hinRange : inRange setup boundary s action = true)
    (hcomputes : computesRange s action = true) (hfloor : s.floor ≤ boundary) :
    s.rangeStart setup ≤ boundary ∧ boundary ≤ s.lastClosedBoundary setup := by
  unfold inRange at hinRange
  rw [hcomputes] at hinRange
  simp only [Bool.not_true, Bool.false_or, Bool.and_eq_true, decide_eq_true_eq] at hinRange
  unfold BarCloser.rangeStart BarCloser.lastClosedBoundary
  refine ⟨?_, by omega⟩
  have hlast := hinRange.1
  split
  · rename_i last heq
    rw [heq] at hlast
    simp only [decide_eq_true_eq] at hlast
    exact max_le hfloor hlast
  · exact hfloor

/-- Draining does not move the backfill on. -/
@[simp] theorem backfilling_pump (s : BarCloser) : s.pump.backfilling = s.backfilling := by
  unfold BarCloser.pump
  split <;> rfl

/-- Nor does queueing. -/
@[simp] theorem backfilling_enqueue (s : BarCloser) (boundary : ℤ) (streamed : Option RawBar)
    (needsHistory : Bool) :
    (s.enqueue boundary streamed needsHistory).backfilling = s.backfilling := by
  unfold BarCloser.enqueue
  split
  · rfl
  · split
    · rfl
    · rw [backfilling_pump]

/-- The first turn of a backfill: its range, unless there is none. -/
theorem runBackfill_pumping (hstage : s.backfilling = some .pumping) :
    s.runBackfill setup =
      if s.lastClosedBoundary setup < s.rangeStart setup then
        s.queueTail setup (s.lastClosedBoundary setup)
      else
        ({ s with
            backfilling :=
              some (.fetching (s.rangeStart setup) (s.lastClosedBoundary setup)) }, []) := by
  unfold BarCloser.runBackfill
  rw [hstage]

/-- A turn of the loop over the fetched bars. -/
theorem runBackfill_queueing {start stop : ℤ} {bar : RawBar} {bars : List RawBar}
    (hstage : s.backfilling = some (.queueing start stop (bar :: bars))) :
    s.runBackfill setup =
      (if start ≤ bar.boundarySecs && bar.boundarySecs ≤ stop then
        BarCloser.enqueue
          { s with
            phase := some (bar.boundarySecs % setup.period)
            backfilling := some (.queueing start stop bars)
            stack := .backfill :: s.stack } bar.boundarySecs (some bar) false
      else
        { s with
          phase := some (bar.boundarySecs % setup.period)
          backfilling := some (.queueing start stop bars)
          stack := .backfill :: s.stack }, []) := by
  unfold BarCloser.runBackfill
  rw [hstage]
  dsimp only [BarCloser.observe]
  split <;> rfl

/-- A turn of a backfill that awaits its range, its frame off the stack. -/
theorem AwaitsRange.runBackfill (h : AwaitsRange boundary records s) (hopen : s.closed = false)
    (hfloor : s.floor ≤ boundary)
    (hrange : s.backfilling = some .pumping →
      s.rangeStart setup ≤ boundary ∧ boundary ≤ s.lastClosedBoundary setup)
    (hpassed : Passed (records ++ (s.runBackfill setup).2) (s.runBackfill setup).1 boundary) :
    Present Pending.HasBar (records ++ (s.runBackfill setup).2) (s.runBackfill setup).1 boundary ∨
      AwaitsRange boundary (records ++ (s.runBackfill setup).2) (s.runBackfill setup).1 := by
  have hold := h.passed
  -- the stages up to the last bar of the range
  unfold AwaitsRange at h
  split at h
  · rename_i hstage
    -- the range is worked out in this turn
    obtain ⟨hstart, hstop⟩ := hrange hstage
    rw [runBackfill_pumping hstage, if_neg (by omega)] at hpassed ⊢
    exact .inr ⟨hpassed, hstart, hstop⟩
  · rename_i start stop hstage
    have hnothing : s.runBackfill setup = (s, []) := by
      unfold BarCloser.runBackfill
      rw [hstage]
    rw [hnothing] at hpassed ⊢
    refine .inr ?_
    unfold AwaitsRange
    rw [hstage]
    exact ⟨hpassed, h.2⟩
  · rename_i start stop bars hstage
    obtain ⟨-, hstart, hstop, found, hfound, hown⟩ := h
    cases bars with
    | nil => cases hfound
    | cons bar bars =>
      rw [runBackfill_queueing hstage] at hpassed ⊢
      rw [List.append_nil] at hpassed ⊢
      -- the bar of the turn is the one awaited, or that is among those left
      by_cases hbar : bar.boundarySecs = boundary
      · rw [if_pos (by simp [hbar, hstart, hstop]), hbar]
        exact .inl (present_enqueue hopen hfloor hold rfl fun p _ _ => p.attach_hasBar bar)
      · have hleft : found ∈ bars := by
          rcases List.mem_cons.mp hfound with rfl | hfound
          · exact absurd hown hbar
          · exact hfound
        refine .inr ?_
        split
        · rename_i hin
          rw [if_pos hin] at hpassed
          unfold AwaitsRange
          rw [backfilling_enqueue]
          exact ⟨hpassed, hstart, hstop, found, hleft, hown⟩
        · rename_i hout
          rw [if_neg hout] at hpassed
          exact ⟨hpassed, hstart, hstop, found, hleft, hown⟩
  · exact h.elim

/-- A backfill that begins has the range before it. -/
theorem AwaitsRange.backfill (h : AwaitsRange boundary records s)
    (hpassed : Passed records s.backfill boundary) : AwaitsRange boundary records s.backfill := by
  unfold BarCloser.backfill at hpassed ⊢
  split
  · exact h
  · rename_i hguard
    rw [if_neg hguard] at hpassed
    unfold AwaitsRange
    rw [backfilling_pump]
    exact hpassed

/-- A boundary of the range is among the bars that answer it. -/
theorem AwaitsRange.rangeAnswered {history bars : List RawBar} (hopen : s.closed = false)
    (h : AwaitsRange boundary records s) (hbar : ∃ bar ∈ history, bar.boundarySecs = boundary)
    (hserves : serves history s (.rangeAnswered bars) = true)
    (hpassed : Passed (records ++ (s.rangeAnswered bars).2) (s.rangeAnswered bars).1 boundary) :
    AwaitsRange boundary (records ++ (s.rangeAnswered bars).2) (s.rangeAnswered bars).1 := by
  unfold BarCloser.rangeAnswered at hpassed ⊢
  split
  · rename_i start stop hstage
    simp only [hstage, hopen] at hpassed
    unfold AwaitsRange at h
    simp only [hstage] at h
    obtain ⟨bar, hmem, hown⟩ := hbar
    have hserved : bar ∈ bars := by
      unfold serves at hserves
      simp only [hstage, List.all_eq_true] at hserves
      have hfound := hserves bar hmem
      rw [hown] at hfound
      simpa [h.2.1, h.2.2] using hfound
    rw [if_neg (by simp [hopen])]
    exact ⟨hpassed, h.2.1, h.2.2, bar, mem_sortOn.mpr hserved, hown⟩
  · rw [List.append_nil]
    exact h

/-- What a step must meet for a bar in the range. -/
structure FetchedStep (setup : Setup) (history : List RawBar) (boundary : ℤ) (s : BarCloser)
    (action : Action) : Prop where
  notClose : action ≠ .close
  notFail : action ≠ .failBackfill
  serves : serves history s action = true
  keepsTurn : keepsTurn boundary s action = true
  inRange : inRange setup boundary s action = true

/-- Every step of a backfill brings a bar of its range into the queue in its turn. -/
theorem AwaitsRange.step {history : List RawBar} (hw : Watched setup floor boundary records s)
    (hbar : ∃ bar ∈ history, bar.boundarySecs = boundary) (h : AwaitsRange boundary records s)
    (hstep : FetchedStep setup history boundary s action) :
    Present Pending.HasBar (records ++ ((machine setup).step s action).2)
        ((machine setup).step s action).1 boundary ∨
      AwaitsRange boundary (records ++ ((machine setup).step s action).2)
        ((machine setup).step s action).1 := by
  have hturn := turns_step hw.invariant hw.isOpen hstep.notClose
  have hpassed := h.passed.move hturn.queue hstep.keepsTurn
  -- what goes on only while no frame is on the stack
  have hatRest : ∀ next : BarCloser × List Record,
      (Passed (records ++ next.2) next.1 boundary → AwaitsRange boundary (records ++ next.2) next.1) →
      Passed (records ++ (if s.idle then next else (s, [])).2)
        (if s.idle then next else (s, [])).1 boundary →
      AwaitsRange boundary (records ++ (if s.idle then next else (s, [])).2)
        (if s.idle then next else (s, [])).1 := by
    intro next hnext hpassed'
    split
    · rename_i hidle
      rw [if_pos hidle] at hpassed'
      exact hnext hpassed'
    · rw [List.append_nil]
      exact h
  -- a step of anything else only moves the queue
  cases hown : s.stepsBackfill action with
  | false =>
    have hmove : Moves action s ((machine setup).step s action).1
        ((machine setup).step s action).2 :=
      moves_step hw.invariant hw.isOpen hstep.notClose hown
    exact .inr (h.of_passed hmove.backfilling hpassed)
  | true =>
    cases backfillStep_of_steps hown with
    | run below hstack =>
      have hrange : s.backfilling = some .pumping →
          s.rangeStart setup ≤ boundary ∧ boundary ≤ s.lastClosedBoundary setup := by
        intro hstage
        exact range_of_inRange hstep.inRange (by simp [computesRange, hstack, hstage]) hw.atFloor
      rw [runBackfill_run hstack] at hpassed ⊢
      have hoff : AwaitsRange boundary records { s with stack := below } := h
      exact hoff.runBackfill hw.isOpen hw.atFloor hrange hpassed
    | backfill =>
      refine .inr (hatRest (s.backfill, []) ?_ hpassed)
      intro hpassed'
      rw [List.append_nil] at hpassed' ⊢
      exact h.backfill hpassed'
    | rangeAnswered bars =>
      exact .inr (hatRest (s.rangeAnswered bars)
        (h.rangeAnswered hw.isOpen hbar hstep.serves) hpassed)
    | drained =>
      refine .inr (hatRest (s.drained setup) ?_ hpassed)
      intro _
      unfold BarCloser.drained
      split
      · rename_i stop hstage
        unfold AwaitsRange at h
        rw [hstage] at h
        exact h.elim
      · rw [List.append_nil]
        exact h
    | failBackfill => exact absurd rfl hstep.notFail

/-! ## A bar that lies in the tail -/

/-- The backfill queues its tail or replays the held update, so its frame is on the stack. -/
def Backfill.isLate : Backfill → Bool
  | .tail _ => true
  | .replaying => true
  | _ => false

/-- What holds at a stage of a backfill whose tail `boundary` lies in. -/
def TailStage (setup : Setup) (boundary : ℤ) (records : List Record) (s : BarCloser) :
    Option Backfill → Prop
  | some .pumping => True
  | some (.fetching _ stop) => stop < boundary + setup.period
  | some (.queueing _ stop _) => stop < boundary + setup.period
  | some (.draining stop) => stop < boundary + setup.period
  | some (.tail boundaries) =>
    Present Pending.Awaits records s boundary ∨
      boundary ∈ boundaries ∧ ∀ p ∈ s.queue, p.boundary ≠ boundary
  | some .replaying => Present Pending.Awaits records s boundary
  | none => False

/-- A backfill has `boundary` still to come from its tail, or has queued it. -/
structure AwaitsTail (setup : Setup) (boundary : ℤ) (records : List Record) (s : BarCloser) :
    Prop where
  passed : Passed records s boundary
  stage : TailStage setup boundary records s s.backfilling
  running : ∀ backfill, s.backfilling = some backfill → backfill.isLate = true →
    Frame.backfill ∈ s.stack

/-- A boundary that is not queued is queued with history to be asked, or stays out. -/
theorem absent_move (h : ∀ p ∈ s.queue, p.boundary ≠ boundary)
    (hmove : QueueMove action s s' told) :
    Present Pending.Awaits (records ++ told) s' boundary ∨
      ∀ p ∈ s'.queue, p.boundary ≠ boundary := by
  cases hmove with
  | still hqueue hlast htold => exact .inr (hqueue ▸ h)
  | attached boundary' streamed hqueue hlast htold =>
    refine .inr ?_
    intro q hq
    rw [hqueue] at hq
    obtain ⟨p, hp, rfl⟩ := List.mem_map.mp hq
    have hne := h p hp
    split
    · rwa [p.attach_boundary]
    · exact hne
  | inserted p hawaits hqueue hlast htold =>
    by_cases hown : p.boundary = boundary
    · exact .inl (.inr ⟨p, hqueue ▸ mem_insertPending.mpr (.inl rfl), hown, hawaits⟩)
    · refine .inr ?_
      intro q hq
      rw [hqueue] at hq
      rcases mem_insertPending.mp hq with rfl | hq
      · exact hown
      · exact h q hq
  | dropped front rest hfront hready hnone hqueue hlast htold =>
    exact .inr fun p hp => h p (by rw [hfront]; exact List.mem_cons_of_mem _ (hqueue ▸ hp))
  | emitted front rest hrun hdrains hturn hbar hqueue hlast htold =>
    exact .inr fun p hp =>
      h p (by rw [(turn_pops hturn).2]; exact List.mem_cons_of_mem _ (hqueue ▸ hp))
  | resolved boundary' result hrest hkeeps hqueue hlast htold =>
    refine .inr ?_
    intro q hq
    rw [hqueue] at hq
    obtain ⟨p, hp, rfl⟩ := List.mem_map.mp hq
    have hne := h p hp
    split
    · exact hne
    · exact hne

/-- A move leaves a backfill with its tail to come. -/
theorem AwaitsTail.move (h : AwaitsTail setup boundary records s) (hmove : Moves action s s' told)
    (hturn : keepsTurn boundary s action = true) :
    AwaitsTail setup boundary (records ++ told) s' where
  passed := h.passed.move hmove.queue hturn
  running := by
    intro backfill hbackfill hlate
    exact hmove.stack (h.running backfill (hmove.backfilling ▸ hbackfill) hlate)
  stage := by
    have hstage := h.stage
    rw [hmove.backfilling]
    cases hbackfill : s.backfilling with
    | none =>
      rw [hbackfill] at hstage
      exact hstage.elim
    | some backfill =>
      rw [hbackfill] at hstage
      have hrunning : backfill.isLate = true → s.stack ≠ [] := by
        intro hlate hnil
        have hmem := h.running backfill hbackfill hlate
        rw [hnil] at hmem
        cases hmem
      cases backfill with
      | pumping => trivial
      | fetching start stop => exact hstage
      | queueing start stop bars => exact hstage
      | draining stop => exact hstage
      | tail boundaries =>
        rcases hstage with hpresent | ⟨hmem, habsent⟩
        · exact .inl (hpresent.awaits_move hmove.queue (hrunning rfl))
        · rcases absent_move habsent hmove.queue with hpresent | habsent'
          · exact .inl hpresent
          · exact .inr ⟨hmem, habsent'⟩
      | replaying => exact hstage.awaits_move hmove.queue (hrunning rfl)

/-- The tail is worked out while it holds `boundary`. -/
theorem awaitsTail_queueTail {stop : ℤ} (hopen : s.closed = false)
    (hover : (boundary + setup.period : ℤ) ≤ s.clock) (hpassed : Passed records s boundary)
    (hstop : stop < boundary + setup.period) (hphase : s.phase = some (boundary % setup.period))
    (hawaits : ∀ p ∈ s.queue, p.boundary = boundary → p.Awaits) :
    AwaitsTail setup boundary (records ++ (s.queueTail setup stop).2) (s.queueTail setup stop).1 := by
  unfold BarCloser.queueTail
  rw [if_neg (by simp [hopen]), List.append_nil]
  refine ⟨hpassed, ?_, fun _ _ _ => List.mem_cons_self⟩
  by_cases habsent : ∀ p ∈ s.queue, p.boundary ≠ boundary
  · exact .inr ⟨mem_tailBoundaries_of_phase hphase hover hstop, habsent⟩
  · simp only [not_forall, not_not] at habsent
    obtain ⟨p, hp, hboundary⟩ := habsent
    exact .inl (.inr ⟨p, hp, hboundary, hawaits p hp hboundary⟩)

/-- Where the tail is worked out on phase, the boundary's period is over. -/
theorem tail_of_onPhase (honPhase : onPhase setup boundary s action = true)
    (hcomputes : computesTail setup s action = true) :
    (boundary + setup.period : ℤ) ≤ s.clock ∧ s.phase = some (boundary % setup.period) ∧
      ∀ p ∈ s.queue, p.boundary = boundary → p.Awaits := by
  unfold onPhase at honPhase
  rw [hcomputes] at honPhase
  simp only [Bool.not_true, Bool.false_or, Bool.and_eq_true, decide_eq_true_eq, List.all_eq_true,
    Bool.or_eq_true] at honPhase
  refine ⟨honPhase.1.1, honPhase.1.2, ?_⟩
  intro p hp hboundary
  rcases honPhase.2 p hp with hne | hawaits
  · exact absurd hboundary hne
  · exact hawaits

/-- The tail's loop queues `boundary` when it comes to it. -/
theorem tailStage_enqueue {next : ℤ} {boundaries : List ℤ} (hopen : s.closed = false)
    (hfloor : s.floor ≤ boundary) (hpassed : Passed records s boundary) (hstack : s.stack ≠ [])
    (h : Present Pending.Awaits records s boundary ∨
      boundary ∈ next :: boundaries ∧ ∀ p ∈ s.queue, p.boundary ≠ boundary) :
    Present Pending.Awaits records (s.enqueue next none true) boundary ∨
      boundary ∈ boundaries ∧ ∀ p ∈ (s.enqueue next none true).queue, p.boundary ≠ boundary := by
  have hmove : Moves .run s (s.enqueue next none true) [] := moves_enqueue s next (.inl rfl)
  have hkept : ∀ s', Present Pending.Awaits (records ++ []) s' boundary →
      Present Pending.Awaits records s' boundary := by
    intro s' h'
    rwa [List.append_nil] at h'
  rcases h with hpresent | ⟨hmem, habsent⟩
  · exact .inl (hkept _ (hpresent.awaits_move hmove.queue hstack))
  · by_cases hnext : next = boundary
    · refine .inl ?_
      rw [hnext]
      exact present_enqueue hopen hfloor hpassed (.inl rfl) fun p hp hown =>
        absurd hown (habsent p hp)
    · have hleft : boundary ∈ boundaries := by
        rcases List.mem_cons.mp hmem with heq | hmem
        · exact absurd heq.symm hnext
        · exact hmem
      have hafter : Present Pending.Awaits (records ++ []) (s.enqueue next none true) boundary ∨
          ∀ p ∈ (s.enqueue next none true).queue, p.boundary ≠ boundary :=
        absent_move habsent hmove.queue
      rcases hafter with hpresent | habsent'
      · exact .inl (hkept _ hpresent)
      · exact .inr ⟨hleft, habsent'⟩

/-- Before its tail a backfill has nothing of it on the stack to keep. -/
theorem AwaitsTail.early {backfill : Backfill} (hpassed : Passed records s boundary)
    (hbackfill : s.backfilling = some backfill) (hearly : backfill.isLate = false)
    (hstage : TailStage setup boundary records s (some backfill)) :
    AwaitsTail setup boundary records s where
  passed := hpassed
  stage := by
    rw [hbackfill]
    exact hstage
  running := by
    intro stage hcase hlate
    rw [hbackfill] at hcase
    obtain rfl := Option.some.inj hcase
    rw [hearly] at hlate
    cases hlate

/-- A turn of the loop of `_queue_tail`. -/
theorem AwaitsTail.runTail {boundaries : List ℤ} (hbackfill : s.backfilling = some (.tail boundaries))
    (hpassed : Passed records s boundary)
    (hstage : TailStage setup boundary records s (some (.tail boundaries)))
    (hopen : s.closed = false) (hfloor : s.floor ≤ boundary)
    (hnext : Passed (records ++ (s.runBackfill setup).2) (s.runBackfill setup).1 boundary) :
    AwaitsTail setup boundary (records ++ (s.runBackfill setup).2) (s.runBackfill setup).1 := by
  cases boundaries with
  | cons next boundaries =>
    set queueing : BarCloser :=
      { s with backfilling := some (.tail boundaries), stack := .backfill :: s.stack }
    -- the next boundary of the tail is queued without a state
    have hturn : s.runBackfill setup = (queueing.enqueue next none true, []) := by
      unfold BarCloser.runBackfill
      rw [hbackfill]
    have hmove : Moves .run queueing (queueing.enqueue next none true) [] :=
      moves_enqueue queueing next (.inl rfl)
    rw [hturn, List.append_nil] at hnext ⊢
    refine ⟨hnext, ?_, fun _ _ _ => hmove.stack List.mem_cons_self⟩
    rw [backfilling_enqueue]
    exact tailStage_enqueue (s := queueing) hopen hfloor hpassed (List.cons_ne_nil _ _) hstage
  | nil =>
    -- all of the tail is queued, so the boundary is; the held update is replayed
    have hpresent : Present Pending.Awaits records s boundary := by
      rcases hstage with hpresent | ⟨hmem, -⟩
      · exact hpresent
      · cases hmem
    set replaying : BarCloser :=
      { s with
        holding := false
        baseline := true
        held := none
        backfilling := some .replaying
        stack := .backfill :: s.stack }
    have hreplayed : Present Pending.Awaits records replaying boundary := hpresent
    cases hheld : s.held with
    | none =>
      have hturn : s.runBackfill setup = (replaying, []) := by
        unfold BarCloser.runBackfill
        rw [hbackfill]
        dsimp only
        rw [hheld]
      rw [hturn, List.append_nil] at hnext ⊢
      exact ⟨hnext, hreplayed, fun _ _ _ => List.mem_cons_self⟩
    | some held =>
      have hturn : s.runBackfill setup = (replaying.onUpdate setup held, []) := by
        unfold BarCloser.runBackfill
        rw [hbackfill]
        dsimp only
        rw [hheld]
      have hmove : Moves .run replaying (replaying.onUpdate setup held) [] :=
        moves_onUpdate replaying held
      rw [hturn] at hnext ⊢
      refine ⟨hnext, ?_, fun _ _ _ => hmove.stack List.mem_cons_self⟩
      rw [hmove.backfilling]
      exact hreplayed.awaits_move hmove.queue (List.cons_ne_nil _ _)

/-- A turn of a backfill that is to queue its tail, its frame off the stack. -/
theorem AwaitsTail.runBackfill (hpassed : Passed records s boundary)
    (hstage : TailStage setup boundary records s s.backfilling) (hopen : s.closed = false)
    (hfloor : s.floor ≤ boundary)
    (hrange : s.backfilling = some .pumping →
      s.lastClosedBoundary setup < boundary + setup.period)
    (htail : s.backfilling = some .pumping → s.lastClosedBoundary setup < s.rangeStart setup →
      (boundary + setup.period : ℤ) ≤ s.clock ∧ s.phase = some (boundary % setup.period) ∧
        ∀ p ∈ s.queue, p.boundary = boundary → p.Awaits)
    (hreturns : .backfilled ∉ (s.runBackfill setup).2)
    (hnext : Passed (records ++ (s.runBackfill setup).2) (s.runBackfill setup).1 boundary) :
    AwaitsTail setup boundary (records ++ (s.runBackfill setup).2) (s.runBackfill setup).1 := by
  cases hbackfill : s.backfilling with
  | none =>
    rw [hbackfill] at hstage
    exact hstage.elim
  | some backfill =>
    rw [hbackfill] at hstage
    -- before the tail nothing is asked of the queue but that the boundary has not passed
    cases backfill with
    | pumping =>
      rw [runBackfill_pumping hbackfill] at hnext ⊢
      split
      · rename_i hempty
        -- the range is empty, so the tail is worked out at once
        obtain ⟨hover, hphase, hawaits⟩ := htail hbackfill hempty
        exact awaitsTail_queueTail hopen hover hpassed (hrange hbackfill) hphase hawaits
      · rename_i hfetch
        rw [if_neg hfetch] at hnext
        exact .early hnext rfl rfl (hrange hbackfill)
    | fetching start stop =>
      have hturn : s.runBackfill setup = (s, []) := by
        unfold BarCloser.runBackfill
        rw [hbackfill]
      rw [hturn] at hnext ⊢
      exact .early hnext hbackfill rfl hstage
    | draining stop =>
      have hturn : s.runBackfill setup = (s, []) := by
        unfold BarCloser.runBackfill
        rw [hbackfill]
      rw [hturn] at hnext ⊢
      exact .early hnext hbackfill rfl hstage
    | queueing start stop bars =>
      cases bars with
      | nil =>
        have hturn : s.runBackfill setup =
            ({ s with backfilling := some (.draining stop) }, []) := by
          unfold BarCloser.runBackfill
          rw [hbackfill]
        rw [hturn] at hnext ⊢
        exact .early hnext rfl rfl hstage
      | cons bar bars =>
        rw [runBackfill_queueing hbackfill] at hnext ⊢
        split
        · rename_i hin
          rw [if_pos hin] at hnext
          exact .early hnext (backfilling_enqueue _ _ _ _) rfl hstage
        · rename_i hout
          rw [if_neg hout] at hnext
          exact .early hnext rfl rfl hstage
    | tail boundaries => exact AwaitsTail.runTail hbackfill hpassed hstage hopen hfloor hnext
    | replaying =>
      refine absurd ?_ hreturns
      unfold BarCloser.runBackfill
      rw [hbackfill]
      exact List.mem_singleton_self _

/-- A backfill that begins has the tail before it. -/
theorem AwaitsTail.backfill (h : AwaitsTail setup boundary records s)
    (hpassed : Passed records s.backfill boundary) :
    AwaitsTail setup boundary records s.backfill := by
  unfold BarCloser.backfill at hpassed ⊢
  split
  · exact h
  · rename_i hguard
    rw [if_neg hguard] at hpassed
    exact .early hpassed (backfilling_pump _) rfl trivial

/-- The range that is answered leaves the tail before it. -/
theorem AwaitsTail.rangeAnswered (h : AwaitsTail setup boundary records s)
    (hopen : s.closed = false) (bars : List RawBar)
    (hpassed : Passed (records ++ (s.rangeAnswered bars).2) (s.rangeAnswered bars).1 boundary) :
    AwaitsTail setup boundary (records ++ (s.rangeAnswered bars).2) (s.rangeAnswered bars).1 := by
  unfold BarCloser.rangeAnswered at hpassed ⊢
  split
  · rename_i start stop hbackfill
    have hstage := h.stage
    rw [hbackfill] at hstage
    simp only [hbackfill, hopen] at hpassed
    rw [if_neg (by simp [hopen])]
    exact .early hpassed rfl rfl hstage
  · rw [List.append_nil]
    exact h

/-- The queue has drained, and the tail is worked out. -/
theorem AwaitsTail.drained (h : AwaitsTail setup boundary records s) (hopen : s.closed = false)
    (htail : (∃ stop, s.backfilling = some (.draining stop)) →
      (boundary + setup.period : ℤ) ≤ s.clock ∧ s.phase = some (boundary % setup.period) ∧
        ∀ p ∈ s.queue, p.boundary = boundary → p.Awaits) :
    AwaitsTail setup boundary (records ++ (s.drained setup).2) (s.drained setup).1 := by
  unfold BarCloser.drained
  split
  · rename_i stop hbackfill
    obtain ⟨hover, hphase, hawaits⟩ := htail ⟨stop, hbackfill⟩
    have hstage := h.stage
    rw [hbackfill] at hstage
    exact awaitsTail_queueTail hopen hover h.passed hstage hphase hawaits
  · rw [List.append_nil]
    exact h

/-- What a step must meet for a bar in the tail. -/
structure RetriedStep (setup : Setup) (boundary : ℤ) (s : BarCloser) (action : Action) : Prop where
  notClose : action ≠ .close
  notFail : action ≠ .failBackfill
  returnsNot : .backfilled ∉ ((machine setup).step s action).2
  keepsTurn : keepsTurn boundary s action = true
  nearEnd : nearEnd setup boundary s action = true
  onPhase : onPhase setup boundary s action = true

/-- Where the range ends near the boundary, it does not reach past it. -/
theorem stop_of_nearEnd (hnearEnd : nearEnd setup boundary s action = true)
    (hcomputes : computesRange s action = true) :
    s.lastClosedBoundary setup < boundary + setup.period := by
  unfold nearEnd at hnearEnd
  rw [hcomputes] at hnearEnd
  simp only [Bool.not_true, Bool.false_or, decide_eq_true_eq] at hnearEnd
  unfold BarCloser.lastClosedBoundary
  omega

/-- Every step of a backfill but its return brings a bar of its tail into the queue in its turn. -/
theorem AwaitsTail.step (hw : Watched setup floor boundary records s)
    (h : AwaitsTail setup boundary records s) (hstep : RetriedStep setup boundary s action) :
    AwaitsTail setup boundary (records ++ ((machine setup).step s action).2)
      ((machine setup).step s action).1 := by
  have hturn := turns_step hw.invariant hw.isOpen hstep.notClose
  have hpassed := h.passed.move hturn.queue hstep.keepsTurn
  -- what goes on only while no frame is on the stack
  have hatRest : ∀ next : BarCloser × List Record,
      (s.idle = true → Passed (records ++ next.2) next.1 boundary →
        AwaitsTail setup boundary (records ++ next.2) next.1) →
      Passed (records ++ (if s.idle then next else (s, [])).2)
        (if s.idle then next else (s, [])).1 boundary →
      AwaitsTail setup boundary (records ++ (if s.idle then next else (s, [])).2)
        (if s.idle then next else (s, [])).1 := by
    intro next hnext hpassed'
    split
    · rename_i hidle
      rw [if_pos hidle] at hpassed'
      exact hnext hidle hpassed'
    · rw [List.append_nil]
      exact h
  -- a step of anything else only moves the queue
  cases hown : s.stepsBackfill action with
  | false =>
    exact h.move (moves_step hw.invariant hw.isOpen hstep.notClose hown) hstep.keepsTurn
  | true =>
    cases backfillStep_of_steps hown with
    | run below hstack =>
      have hcomputes : s.backfilling = some .pumping → computesRange s .run = true := by
        intro hstage
        simp [computesRange, hstack, hstage]
      have hreturns := hstep.returnsNot
      have hstop : s.backfilling = some .pumping →
          s.lastClosedBoundary setup < boundary + setup.period := fun hstage =>
        stop_of_nearEnd hstep.nearEnd (hcomputes hstage)
      have htail : s.backfilling = some .pumping →
          s.lastClosedBoundary setup < s.rangeStart setup →
          (boundary + setup.period : ℤ) ≤ s.clock ∧ s.phase = some (boundary % setup.period) ∧
            ∀ p ∈ s.queue, p.boundary = boundary → p.Awaits := by
        intro hstage hempty
        refine tail_of_onPhase hstep.onPhase ?_
        unfold computesTail
        rw [hcomputes hstage]
        simpa using hempty
      rw [runBackfill_run hstack] at hpassed hreturns ⊢
      exact AwaitsTail.runBackfill (s := { s with stack := below }) h.passed h.stage hw.isOpen
        hw.atFloor hstop htail hreturns hpassed
    | backfill =>
      refine hatRest (s.backfill, []) ?_ hpassed
      intro _ hpassed'
      rw [List.append_nil] at hpassed' ⊢
      exact h.backfill hpassed'
    | rangeAnswered bars =>
      exact hatRest (s.rangeAnswered bars) (fun _ => h.rangeAnswered hw.isOpen bars) hpassed
    | drained =>
      refine hatRest (s.drained setup) ?_ hpassed
      intro hidle _
      refine h.drained hw.isOpen ?_
      rintro ⟨stop, hstage⟩
      refine tail_of_onPhase hstep.onPhase ?_
      unfold computesTail
      rw [hidle, hstage]
      rfl
    | failBackfill => exact absurd rfl hstep.notFail

/-! ## Every backfill -/

/-- A backfill that begins drains the queue first. -/
theorem backfilling_backfill (hopen : s.closed = false) (hholding : s.holding = false) :
    s.backfill.backfilling = some .pumping := by
  unfold BarCloser.backfill
  rw [if_neg (by simp [hopen, hholding]), backfilling_pump]

/-- The backfill of a run begins. -/
theorem step_backfill {during : List Action} {last : Action}
    (hrun : Backfills setup s during last) : (machine setup).step s .backfill = (s.backfill, []) := by
  show (if s.idle then (s.backfill, []) else (s, [])) = (s.backfill, [])
  rw [if_pos hrun.atRest]

/-- What holds of a bar once its backfill has begun. -/
theorem watched_begin {during : List Action} {last : Action}
    (h : Invariant setup floor False records s) (hrun : Backfills setup s during last)
    (hmissed : Missed setup s boundary) :
    Watched setup floor boundary records s.backfill ∧ Passed records s.backfill boundary := by
  have hw : Watched setup floor boundary records s := ⟨h, hrun.isOpen, hmissed.2.1⟩
  have hpassed : Passed records s boundary := by
    intro hcovered
    rw [hmissed.1] at hcovered
    cases hcovered
  have hwatched : Watched setup floor boundary
      (records ++ ((machine setup).step s .backfill).2) ((machine setup).step s .backfill).1 :=
    hw.step (by simp)
  have hturn : Turns .backfill s s.backfill [] := turns_backfill s
  have hpassed' := hpassed.move hturn.queue rfl
  rw [step_backfill hrun, List.append_nil] at hwatched
  rw [List.append_nil] at hpassed'
  exact ⟨hwatched, hpassed'⟩

/-- What every step of a backfill meets. -/
theorem always_during {during : List Action} {last : Action} (hrun : Backfills setup s during last) :
    (machine setup).Always
      (fun s action => (action ≠ .close ∧ action ≠ .failBackfill) ∧
        .backfilled ∉ ((machine setup).step s action).2) s.backfill during := by
  have hactions : (machine setup).Always
      (fun _ action => action ≠ .close ∧ action ≠ .failBackfill) s.backfill during :=
    Machine.always_of_forall (fun action haction _ =>
      ⟨hrun.staysOpen action haction, (hrun.noFailure action haction).1⟩) _
  have htold : .backfilled ∉ (machine setup).told s.backfill during := by
    have hrunning := hrun.running
    rw [Machine.told_cons, step_backfill hrun] at hrunning
    exact hrunning
  exact hactions.and (Machine.always_not_told htold)

/-- A bar that is queued with a bar when a backfill starts is emitted or still queued at its end. -/
theorem present_of_queued {during : List Action} {last : Action} {p : Pending}
    (hrun : Backfills setup s during last) (hw : Watched setup floor boundary records s.backfill)
    (hp : p ∈ s.queue) (hboundary : p.boundary = boundary) (hbar : p.HasBar) :
    Watched setup floor boundary (records ++ (machine setup).told s.backfill during)
        ((machine setup).after s.backfill during) ∧
      Present Pending.HasBar (records ++ (machine setup).told s.backfill during)
        ((machine setup).after s.backfill during) boundary := by
  have hstart : Present Pending.HasBar (records ++ []) s.backfill boundary := by
    have hpresent : Present Pending.HasBar records s boundary := .inr ⟨p, hp, hboundary, hbar⟩
    have hturn : Turns .backfill s s.backfill [] := turns_backfill s
    exact hpresent.hasBar_move hturn.queue
  rw [List.append_nil] at hstart
  refine Machine.told_invariant_of_always
    (I := fun told s => Watched setup floor boundary told s ∧
      Present Pending.HasBar told s boundary) ?_ ⟨hw, hstart⟩ (always_during hrun)
  intro told s action hI hcond
  have hturn : Turns action s ((machine setup).step s action).1 ((machine setup).step s action).2 :=
    turns_step hI.1.invariant hI.1.isOpen hcond.1.1
  exact ⟨hI.1.step hcond.1.1, hI.2.hasBar_move hturn.queue⟩

/-- A bar in the range is emitted or queued at the end of its backfill, or still to come. -/
theorem present_of_fetched {history : List RawBar} {during : List Action} {last : Action}
    (hrun : Backfills setup s during last) (hw : Watched setup floor boundary records s.backfill)
    (hpassed : Passed records s.backfill boundary)
    (hbar : ∃ bar ∈ history, bar.boundarySecs = boundary)
    (hserves : (machine setup).Always (fun s action => serves history s action = true) s.backfill
      during)
    (hsteps : (machine setup).Always
      (fun s action => (keepsTurn boundary s action && inRange setup boundary s action) = true)
      s.backfill during) :
    Watched setup floor boundary (records ++ (machine setup).told s.backfill during)
        ((machine setup).after s.backfill during) ∧
      (Present Pending.HasBar (records ++ (machine setup).told s.backfill during)
          ((machine setup).after s.backfill during) boundary ∨
        AwaitsRange boundary (records ++ (machine setup).told s.backfill during)
          ((machine setup).after s.backfill during)) := by
  have hstart : AwaitsRange boundary records s.backfill := by
    unfold AwaitsRange
    rw [backfilling_backfill hrun.isOpen hrun.notHolding]
    exact hpassed
  refine Machine.told_invariant_of_always
    (I := fun told s => Watched setup floor boundary told s ∧
      (Present Pending.HasBar told s boundary ∨ AwaitsRange boundary told s)) ?_ ⟨hw, .inr hstart⟩
    (((always_during hrun).and hserves).and hsteps)
  intro told s action hI hcond
  obtain ⟨⟨⟨⟨hclose, hfail⟩, -⟩, hserve⟩, hkeeps⟩ := hcond
  rw [Bool.and_eq_true] at hkeeps
  refine ⟨hI.1.step hclose, ?_⟩
  rcases hI.2 with hpresent | hawaits
  · have hturn : Turns action s ((machine setup).step s action).1
        ((machine setup).step s action).2 := turns_step hI.1.invariant hI.1.isOpen hclose
    exact .inl (hpresent.hasBar_move hturn.queue)
  · exact hawaits.step hI.1 hbar ⟨hclose, hfail, hserve, hkeeps.1, hkeeps.2⟩

/-- A backfill goes on to queue a boundary of its tail until it returns. -/
theorem awaits_of_retried {during : List Action} {last : Action}
    (hrun : Backfills setup s during last) (hw : Watched setup floor boundary records s.backfill)
    (hpassed : Passed records s.backfill boundary)
    (hsteps : (machine setup).Always
      (fun s action =>
        (keepsTurn boundary s action && nearEnd setup boundary s action &&
          onPhase setup boundary s action) = true) s.backfill during) :
    Watched setup floor boundary (records ++ (machine setup).told s.backfill during)
        ((machine setup).after s.backfill during) ∧
      AwaitsTail setup boundary (records ++ (machine setup).told s.backfill during)
        ((machine setup).after s.backfill during) := by
  have hstart : AwaitsTail setup boundary records s.backfill :=
    .early hpassed (backfilling_backfill hrun.isOpen hrun.notHolding) rfl trivial
  refine Machine.told_invariant_of_always
    (I := fun told s => Watched setup floor boundary told s ∧
      AwaitsTail setup boundary told s) ?_ ⟨hw, hstart⟩ ((always_during hrun).and hsteps)
  intro told s action hI hcond
  obtain ⟨⟨⟨hclose, hfail⟩, hreturns⟩, hkeeps⟩ := hcond
  rw [Bool.and_eq_true, Bool.and_eq_true] at hkeeps
  exact ⟨hI.1.step hclose,
    hI.2.step hI.1 ⟨hclose, hfail, hreturns, hkeeps.1.1, hkeeps.1.2, hkeeps.2⟩⟩

/-- A backfill ends with every bar it caught up on emitted or queued. -/
theorem present_of_catchesUp {history : List RawBar} {during : List Action} {last : Action}
    (h : Invariant setup floor False records s) (hrun : Backfills setup s during last)
    (hserves : (machine setup).Always (fun s action => serves history s action = true) s
      (.backfill :: during))
    (hbar : ∃ bar ∈ history, bar.boundarySecs = boundary) (hmissed : Missed setup s boundary)
    (hcatches : CatchesUp setup boundary s (.backfill :: during)) :
    boundary ∈ emittedBoundaries (records ++ (machine setup).told s.backfill during) ∨
      ∃ p ∈ ((machine setup).step ((machine setup).after s.backfill during) last).1.queue,
        p.boundary = boundary := by
  obtain ⟨hw, hpassed⟩ := watched_begin h hrun hmissed
  have hreturns := hrun.returns
  rw [Machine.after_cons, step_backfill hrun] at hreturns
  -- the last step returns and leaves the queue as it is
  have hend : ∀ kept,
      Watched setup floor boundary (records ++ (machine setup).told s.backfill during)
        ((machine setup).after s.backfill during) →
      Present kept (records ++ (machine setup).told s.backfill during)
        ((machine setup).after s.backfill during) boundary →
      boundary ∈ emittedBoundaries (records ++ (machine setup).told s.backfill during) ∨
        ∃ p ∈ ((machine setup).step ((machine setup).after s.backfill during) last).1.queue,
          p.boundary = boundary := by
    intro kept hwatched hpresent
    rcases hpresent with hemitted | ⟨p, hp, hown, -⟩
    · exact .inl hemitted
    · rw [(told_backfilled hwatched.isOpen hreturns).2]
      exact .inr ⟨p, hp, hown⟩
  -- the three ways a bar is caught up on
  cases hcatches with
  | queued p hp hboundary hhasBar =>
    obtain ⟨hwatched, hpresent⟩ := present_of_queued hrun hw hp hboundary hhasBar
    exact hend _ hwatched hpresent
  | fetched hsteps =>
    have hserves' := hserves.2
    have hsteps' := hsteps.2
    rw [step_backfill hrun] at hserves' hsteps'
    obtain ⟨hwatched, hpresent | hawaits⟩ :=
      present_of_fetched hrun hw hpassed hbar hserves' hsteps'
    · exact hend _ hwatched hpresent
    · unfold AwaitsRange at hawaits
      rw [(told_backfilled hwatched.isOpen hreturns).1] at hawaits
      exact hawaits.elim
  | retried hsteps =>
    have hsteps' := hsteps.2
    rw [step_backfill hrun] at hsteps'
    obtain ⟨hwatched, hawaits⟩ := awaits_of_retried hrun hw hpassed hsteps'
    have hstage := hawaits.stage
    rw [(told_backfilled hwatched.isOpen hreturns).1] at hstage
    exact hend _ hwatched hstage

/-- **A backfill loses none of the bars it catches up on.** Of a history that `fetch_range` answers
from, every bar a closer has missed when a backfill starts is emitted or queued when it returns, as
long as the bar is queued already or lies where the backfill looks, and no newer bar is emitted
before it. -/
theorem losesNone_of_catchesUp (setup : Setup) (clock : ℚ) (before during : List Action)
    (last : Action) (history : List RawBar)
    (hrun : Backfills setup ((machine setup).after (.new setup clock) before) during last)
    (hserves : (machine setup).Always (fun s action => serves history s action = true)
      ((machine setup).after (.new setup clock) before) (.backfill :: during))
    (hcatches : ∀ bar ∈ history,
      Missed setup ((machine setup).after (.new setup clock) before) bar.boundarySecs →
      CatchesUp setup bar.boundarySecs ((machine setup).after (.new setup clock) before)
        (.backfill :: during)) :
    LosesNone setup history ((machine setup).after (.new setup clock) before)
      ((machine setup).told (.new setup clock) (before ++ .backfill :: (during ++ [last])))
      ((machine setup).after (.new setup clock) (before ++ .backfill :: (during ++ [last]))) := by
  intro bar hbar hmissed
  have hinvariant : Invariant setup (BarCloser.new setup clock).floor False
      ((machine setup).told (.new setup clock) before)
      ((machine setup).after (.new setup clock) before) :=
    invariant_after setup clock before False.elim
  have hpresent := present_of_catchesUp hinvariant hrun hserves ⟨bar, hbar, rfl⟩ hmissed
    (hcatches bar hbar hmissed)
  rw [Machine.told_append, Machine.after_append, Machine.told_cons, Machine.after_cons,
    step_backfill hrun, Machine.told_append, Machine.after_append, List.nil_append,
    ← List.append_assoc, emittedBoundaries_append]
  rcases hpresent with hemitted | hqueued
  · exact .inl (List.mem_append_left _ hemitted)
  · exact .inr hqueued

/-! ## Two backfills of four-hour bars -/

/-- Four-hour bars, their history asked a second after they close. -/
def fourHours : Setup where
  period := 14400
  grace := 1
  retries := 3
  period_pos := by decide
  grace_nonneg := by decide

/-- A bar that opened at `boundary`. -/
def barAt (boundary : ℤ) : RawBar := ⟨boundary, 0, 0, 0, 0, 0⟩

/-- A closer constructed at 147610 s sees the bar of 147600 s close and emits it from history. Then
the connection goes, until `now`. -/
def disconnectedUntil (now : ℚ) : List Action :=
  [.onUpdate (barAt 147600), .tick 162001, .timer, .run, .startResolver, .run,
    .historyAnswered (some (barAt 147600)), .run, .returns, .run, .onDisconnect, .tick now]

/-- The backfill fetches the bar of 162000 s, which opened a period after the first. -/
def oneBarFetched : List Action :=
  [.run, .run, .rangeAnswered [barAt 162000], .run, .run, .returns, .run, .run, .drained, .run, .run]

/-- The bar that closed before the disconnect and the one after it are both caught up on. -/
theorem losesNone_oneBarFetched :
    LosesNone fourHours [barAt 147600, barAt 162000]
      ((machine fourHours).after (.new fourHours 147610) (disconnectedUntil 176410))
      ((machine fourHours).told (.new fourHours 147610)
        (disconnectedUntil 176410 ++ .backfill :: (oneBarFetched ++ [.run])))
      ((machine fourHours).after (.new fourHours 147610)
        (disconnectedUntil 176410 ++ .backfill :: (oneBarFetched ++ [.run]))) := by
  refine losesNone_of_catchesUp fourHours 147610 (disconnectedUntil 176410) oneBarFetched .run
    [barAt 147600, barAt 162000] ?_ ?_ ?_
  · exact
      { atRest := by decide +kernel
        isOpen := by decide +kernel
        notHolding := by decide +kernel
        observed := by decide +kernel
        staysOpen := by decide +kernel
        noFailure := by decide +kernel
        running := by decide +kernel
        returns := by decide +kernel }
  · decide +kernel
  · intro bar hbar hmissed
    rcases List.mem_pair.mp hbar with rfl | rfl
    · exact absurd hmissed (by decide +kernel)
    · exact .fetched (by decide +kernel)

/-- When the boundaries move an hour earlier, the next bar opens at 158400 s. The backfill after it
has closed still reckons with the old phase: the range would start at 162000 s and end at 147600 s,
so nothing is fetched and the bar is lost. -/
theorem not_losesNone_earlier :
    ([barAt 147600, barAt 158400].map (·.boundarySecs)).Pairwise (· < ·) ∧
      Backfills fourHours
        ((machine fourHours).after (.new fourHours 147610) (disconnectedUntil 172810))
        [.run, .run, .run, .run] .run ∧
      (machine fourHours).Always
        (fun s action => serves [barAt 147600, barAt 158400] s action = true)
        ((machine fourHours).after (.new fourHours 147610) (disconnectedUntil 172810))
        [.backfill, .run, .run, .run, .run] ∧
      ¬ LosesNone fourHours [barAt 147600, barAt 158400]
        ((machine fourHours).after (.new fourHours 147610) (disconnectedUntil 172810))
        ((machine fourHours).told (.new fourHours 147610)
          (disconnectedUntil 172810 ++ [.backfill, .run, .run, .run, .run, .run]))
        ((machine fourHours).after (.new fourHours 147610)
          (disconnectedUntil 172810 ++ [.backfill, .run, .run, .run, .run, .run])) := by
  refine ⟨by decide, ?_, by decide +kernel, by decide +kernel⟩
  exact
    { atRest := by decide +kernel
      isOpen := by decide +kernel
      notHolding := by decide +kernel
      observed := by decide +kernel
      staysOpen := by decide +kernel
      noFailure := by decide +kernel
      running := by decide +kernel
      returns := by decide +kernel }

end Bars

end NautilusCtrader
