import NautilusCtrader.Bars.Emissions

/-!
# What one step does to the queue

`QueueMove` says what a step of an open closer can do to the queue and to `last_emitted`, and `Moves`
adds that a step which is none of a backfill's own leaves the backfill where it stands. An entry is
lost only when history has nothing for it and it has no streamed state (`Present.move`), and a
boundary is passed over only by the emission of a newer bar (`Passed.move`).
-/

namespace NautilusCtrader

open Common

namespace Bars

variable {setup : Setup} {floor : ℤ} {forward : Prop} {records told : List Record} {action : Action}
  {s s' s₁ : BarCloser}

/-- The entry has a bar, or history is still to be asked for one. -/
def Pending.Awaits (p : Pending) : Prop := p.needsHistory = true ∨ p.streamed.isSome = true

instance (p : Pending) : Decidable p.Awaits := by
  unfold Pending.Awaits
  infer_instance

/-- The frame on top is a drain of the queue. -/
def BarCloser.drains (s : BarCloser) : Bool :=
  match s.stack with
  | .pump :: _ => true
  | .resolve :: _ => true
  | _ => false

/-! ## Moves -/

/-- What a step can do to the queue, and what it tells. -/
inductive QueueMove (action : Action) (s s' : BarCloser) (told : List Record) : Prop
  | still (hqueue : s'.queue = s.queue) (hlast : s'.lastEmitted = s.lastEmitted)
      (htold : emittedBoundaries told = [])
  | attached (boundary : ℤ) (streamed : Option RawBar)
      (hqueue : s'.queue = s.queue.map fun p =>
        if p.boundary = boundary then p.attach streamed else p)
      (hlast : s'.lastEmitted = s.lastEmitted) (htold : emittedBoundaries told = [])
  | inserted (p : Pending) (hawaits : p.Awaits)
      (hqueue : s'.queue = BarCloser.insertPending s.queue p)
      (hlast : s'.lastEmitted = s.lastEmitted) (htold : emittedBoundaries told = [])
  | dropped (front : Pending) (rest : List Pending) (hfront : s.queue = front :: rest)
      (hready : front.needsHistory = false) (hnone : front.streamed = none)
      (hqueue : s'.queue = rest) (hlast : s'.lastEmitted = s.lastEmitted)
      (htold : emittedBoundaries told = [])
  | emitted (front : Pending) (rest : List Pending) (hrun : action = .run)
      (hdrains : s.drains = true) (hturn : s.turn = .pops front rest)
      (hbar : front.streamed.isSome = true) (hqueue : s'.queue = rest)
      (hlast : s'.lastEmitted = some front.boundary)
      (htold : emittedBoundaries told = [front.boundary])
  | resolved (boundary : ℤ) (result : Option RawBar) (hrest : s.stack = [])
      (hkeeps : ∀ p ∈ s.queue, p.boundary = boundary → p.streamed.isSome = true →
        result.isSome = true)
      (hqueue : s'.queue = s.queue.map fun p =>
        if p.boundary = boundary then { p with streamed := result, needsHistory := false } else p)
      (hlast : s'.lastEmitted = s.lastEmitted) (htold : emittedBoundaries told = [])

/-- What a step that is none of a backfill's own can do. -/
structure Moves (action : Action) (s s' : BarCloser) (told : List Record) : Prop where
  backfilling : s'.backfilling = s.backfilling
  stack : Frame.backfill ∈ s.stack → Frame.backfill ∈ s'.stack
  closed : s'.closed = s.closed
  queue : QueueMove action s s' told

/-- The step leaves the queue and the backfill. -/
theorem Moves.still (hqueue : s'.queue = s.queue) (hlast : s'.lastEmitted = s.lastEmitted)
    (hclosed : s'.closed = s.closed) (hbackfilling : s'.backfilling = s.backfilling)
    (hstack : Frame.backfill ∈ s.stack → Frame.backfill ∈ s'.stack)
    (htold : emittedBoundaries told = []) : Moves action s s' told :=
  ⟨hbackfilling, hstack, hclosed, .still hqueue hlast htold⟩

/-- A step may be read from a state that differs in nothing a move is about. -/
theorem Moves.of_same (h : Moves action s₁ s' told) (hqueue : s₁.queue = s.queue)
    (hlast : s₁.lastEmitted = s.lastEmitted) (hclosed : s₁.closed = s.closed)
    (hbackfilling : s₁.backfilling = s.backfilling) (hstack : s₁.stack = s.stack) : Moves action s s' told where
  backfilling := h.backfilling.trans hbackfilling
  stack := hstack ▸ h.stack
  closed := h.closed.trans hclosed
  queue := by
    have hturn : s₁.turn = s.turn := by
      unfold BarCloser.turn BarCloser.isCovered
      rw [hqueue, hlast, hclosed]
    have hdrains : s₁.drains = s.drains := by
      unfold BarCloser.drains
      rw [hstack]
    have hq := h.queue
    cases hq with
    | still hqueue' hlast' htold =>
      exact .still (hqueue'.trans hqueue) (hlast'.trans hlast) htold
    | attached boundary streamed hqueue' hlast' htold =>
      exact .attached boundary streamed (hqueue ▸ hqueue') (hlast'.trans hlast) htold
    | inserted p hawaits hqueue' hlast' htold =>
      exact .inserted p hawaits (hqueue ▸ hqueue') (hlast'.trans hlast) htold
    | dropped front rest hfront hready hnone hqueue' hlast' htold =>
      exact .dropped front rest (hqueue ▸ hfront) hready hnone hqueue' (hlast'.trans hlast) htold
    | emitted front rest hrun hdrains' hturn' hbar hqueue' hlast' htold =>
      exact .emitted front rest hrun (hdrains ▸ hdrains') (hturn ▸ hturn') hbar hqueue' hlast' htold
    | resolved boundary result hrest hkeeps hqueue' hlast' htold =>
      exact .resolved boundary result (hstack ▸ hrest) (hqueue ▸ hkeeps) (hqueue ▸ hqueue')
        (hlast'.trans hlast) htold

/-- A turn of a backfill queues what the rest of the turn queues. -/
theorem Moves.of_turn (h : Moves action s₁ s' []) (hqueue : s₁.queue = s.queue)
    (hlast : s₁.lastEmitted = s.lastEmitted) (hstack : s₁.stack ≠ []) :
    QueueMove action s s' [] := by
  have hq := h.queue
  cases hq with
  | still hqueue' hlast' htold =>
    exact .still (hqueue'.trans hqueue) (hlast'.trans hlast) htold
  | attached boundary streamed hqueue' hlast' htold =>
    exact .attached boundary streamed (hqueue ▸ hqueue') (hlast'.trans hlast) htold
  | inserted p hawaits hqueue' hlast' htold =>
    exact .inserted p hawaits (hqueue ▸ hqueue') (hlast'.trans hlast) htold
  | dropped front rest hfront hready hnone hqueue' hlast' htold =>
    exact .dropped front rest (hqueue ▸ hfront) hready hnone hqueue' (hlast'.trans hlast) htold
  | emitted front rest hrun hdrains' hturn' hbar hqueue' hlast' htold => cases htold
  | resolved boundary result hrest hkeeps hqueue' hlast' htold => exact absurd hrest hstack

/-! ## The operations -/

/-- `_pump` leaves the queue as it is. -/
theorem moves_pump (s : BarCloser) : Moves action s s.pump [] := by
  unfold BarCloser.pump
  split
  · exact .still rfl rfl rfl rfl id rfl
  · exact .still rfl rfl rfl rfl (List.mem_cons_of_mem _) rfl

/-- It does not emit yet. -/
theorem queue_pump (s : BarCloser) :
    s.pump.queue = s.queue ∧ s.pump.lastEmitted = s.lastEmitted := by
  unfold BarCloser.pump
  split <;> exact ⟨rfl, rfl⟩

/-- An entry is queued in its place, or a queued one takes the streamed state. -/
theorem moves_enqueue (s : BarCloser) (boundary : ℤ) {streamed : Option RawBar}
    {needsHistory : Bool} (hawaits : needsHistory = true ∨ streamed.isSome = true) :
    Moves action s (s.enqueue boundary streamed needsHistory) [] := by
  unfold BarCloser.enqueue
  split
  · exact .still rfl rfl rfl rfl id rfl
  · split
    · exact ⟨rfl, id, rfl, .attached boundary streamed rfl rfl rfl⟩
    · set queued := BarCloser.insertPending s.queue ⟨boundary, streamed, needsHistory⟩ with hqueued
      have hpump : Moves action { s with queue := queued, isDrained := false } (BarCloser.pump _) [] :=
        moves_pump { s with queue := queued, isDrained := false }
      obtain ⟨hqueue, hlast⟩ := queue_pump { s with queue := queued, isDrained := false }
      exact
        { backfilling := hpump.backfilling
          stack := hpump.stack
          closed := hpump.closed
          queue := .inserted ⟨boundary, streamed, needsHistory⟩ hawaits hqueue hlast rfl }

/-- An update of the stream, which queues the bar before it. -/
theorem moves_track (s : BarCloser) (bar : RawBar) :
    Moves action s (s.track setup bar) [] := by
  unfold BarCloser.track
  split
  · exact .still rfl rfl rfl rfl id rfl
  · split
    · exact .still rfl rfl rfl rfl id rfl
    · split
      · exact (moves_enqueue _ _ (.inr rfl)).of_same rfl rfl rfl rfl rfl
      · exact .still rfl rfl rfl rfl id rfl

/-- An update, wherever it goes. -/
theorem moves_onUpdate (s : BarCloser) (bar : RawBar) :
    Moves action s (s.onUpdate setup bar) [] := by
  unfold BarCloser.onUpdate
  split
  · exact .still rfl rfl rfl rfl id rfl
  · dsimp only
    split
    · exact .still rfl rfl rfl rfl id rfl
    · split
      · exact .still rfl rfl rfl rfl id rfl
      · split
        · exact (moves_enqueue _ _ (.inl rfl)).of_same rfl rfl rfl rfl rfl
        · split
          · exact (moves_enqueue _ _ (.inl rfl)).of_same rfl rfl rfl rfl rfl
          · exact (moves_track _ _).of_same rfl rfl rfl rfl rfl

/-- The connection is lost. -/
theorem moves_onDisconnect (s : BarCloser) : Moves action s s.onDisconnect [] := by
  unfold BarCloser.onDisconnect
  split
  · exact .still rfl rfl rfl rfl id rfl
  · exact .still rfl rfl rfl rfl id rfl

/-- The timer queues its bar. -/
theorem moves_onTimer (s : BarCloser) : Moves action s s.onTimer [] := by
  unfold BarCloser.onTimer
  split
  · split
    · exact .still rfl rfl rfl rfl id rfl
    · exact (moves_enqueue _ _ (.inl rfl)).of_same rfl rfl rfl rfl rfl
  · exact .still rfl rfl rfl rfl id rfl

/-! ## The resolver -/

/-- An entry of an open closer is wanted. -/
theorem wanted_of_mem (h : Invariant setup floor forward records s) (hopen : s.closed = false) {p : Pending}
    (hp : p ∈ s.queue) : s.wanted p.boundary = true := by
  have hcovered : s.isCovered p.boundary = false := isCovered_eq_false.mpr (h.queueAbove p hp)
  have hfound : (s.find p.boundary).isSome = true := by
    by_contra hnone
    exact find_eq_none.mp (Option.not_isSome_iff_eq_none.mp hnone) p hp rfl
  unfold BarCloser.wanted
  rw [hopen, hcovered, hfound]
  rfl

/-- A queued boundary has one entry. -/
theorem find_of_mem (h : Invariant setup floor forward records s) {p : Pending} (hp : p ∈ s.queue) :
    s.find p.boundary = some p := by
  have hasc := h.queueAscending
  unfold BarCloser.find
  generalize s.queue = queue at hp hasc
  induction queue with
  | nil => cases hp
  | cons q queue ih =>
    rw [List.map_cons, List.pairwise_cons] at hasc
    rcases List.mem_cons.mp hp with rfl | hp
    · exact List.find?_cons_of_pos (by simp)
    · have hne : q.boundary ≠ p.boundary := (hasc.1 _ (List.mem_map_of_mem hp)).ne
      rw [List.find?_cons_of_neg (by simpa using hne)]
      exact ih hp hasc.2

/-- The resolver's entry takes its final bar. -/
theorem moves_resolved (hopen : s.closed = false) (hrest : s.stack = []) {boundary : ℤ}
    {result : Option RawBar}
    (hkeeps : ∀ p ∈ s.queue, p.boundary = boundary → p.streamed.isSome = true →
      result.isSome = true) : Moves action s (s.resolved boundary result) [] := by
  unfold BarCloser.resolved
  rw [if_neg (by simp [hopen])]
  exact
    { backfilling := rfl
      stack := List.mem_cons_of_mem _
      closed := rfl
      queue := .resolved boundary result hrest hkeeps rfl rfl rfl }

/-- Giving up a boundary that is not wanted loses no entry. -/
theorem moves_unwanted (h : Invariant setup floor forward records s) (hopen : s.closed = false)
    (hrest : s.stack = []) {boundary : ℤ} (hwanted : ¬ s.wanted boundary = true) :
    Moves action s (s.resolved boundary none) [] := by
  refine moves_resolved hopen hrest ?_
  intro p hp hboundary
  exact absurd (hboundary ▸ wanted_of_mem h hopen hp) hwanted

/-- The resolver asks history, or has nothing to ask for. -/
theorem moves_ask (h : Invariant setup floor forward records s) (hopen : s.closed = false)
    (hrest : s.stack = []) (boundary : ℤ) (deadline : ℚ) (attempt : ℕ) :
    Moves action s (s.ask boundary deadline attempt) [] := by
  unfold BarCloser.ask
  split
  · exact .still rfl rfl rfl rfl id rfl
  · rename_i hwanted
    exact moves_unwanted h hopen hrest hwanted

/-- The resolver falls back on the streamed state. -/
theorem moves_fallBack (h : Invariant setup floor forward records s) (hopen : s.closed = false)
    (hrest : s.stack = []) (boundary : ℤ) : Moves action s (s.fallBack boundary) [] := by
  unfold BarCloser.fallBack
  split
  · refine moves_resolved hopen hrest ?_
    intro p hp hboundary hstreamed
    rw [← hboundary, find_of_mem h hp]
    exact hstreamed
  · rename_i hwanted
    exact moves_unwanted h hopen hrest hwanted

/-- The resolver asks again later, or falls back. -/
theorem moves_retry (h : Invariant setup floor forward records s) (hopen : s.closed = false)
    (hrest : s.stack = []) (boundary : ℤ) (deadline : ℚ) (attempt : ℕ) :
    Moves action s (s.retry setup boundary deadline attempt) [] := by
  unfold BarCloser.retry
  split
  · split
    · exact moves_fallBack h hopen hrest boundary
    · exact .still rfl rfl rfl rfl id rfl
  · exact moves_fallBack h hopen hrest boundary

/-- The resolver wakes. -/
theorem moves_wakeResolver (h : Invariant setup floor forward records s) (hopen : s.closed = false)
    (hrest : s.stack = []) : Moves action s s.wakeResolver [] := by
  unfold BarCloser.wakeResolver
  split
  · exact moves_ask h hopen hrest _ _ _
  · exact .still rfl rfl rfl rfl id rfl

/-- The resolver runs for the first time. -/
theorem moves_startResolver (s : BarCloser) : Moves action s s.startResolver [] := by
  unfold BarCloser.startResolver
  split
  · exact .still rfl rfl rfl rfl (List.mem_cons_of_mem _) rfl
  · exact .still rfl rfl rfl rfl id rfl

/-- A request to history fails. -/
theorem moves_historyFailed (h : Invariant setup floor forward records s) (hopen : s.closed = false)
    (hrest : s.stack = []) : Moves action s (s.historyFailed setup) [] := by
  unfold BarCloser.historyFailed
  split
  · exact moves_retry h hopen hrest _ _ _
  · exact .still rfl rfl rfl rfl id rfl

/-- Without a connection the resolver ends. -/
theorem moves_historyUnreachable (s : BarCloser) : Moves action s s.historyUnreachable [] := by
  unfold BarCloser.historyUnreachable
  split
  · exact .still rfl rfl rfl rfl id rfl
  · exact .still rfl rfl rfl rfl id rfl

/-- A record that is no emission changes nothing of a move. -/
theorem Moves.tell {told' : List Record} (h : Moves action s s' [])
    (htold : emittedBoundaries told' = []) : Moves action s s' told' where
  backfilling := h.backfilling
  stack := h.stack
  closed := h.closed
  queue := by
    have hq := h.queue
    cases hq with
    | still hqueue hlast _ => exact .still hqueue hlast htold
    | attached boundary streamed hqueue hlast _ =>
      exact .attached boundary streamed hqueue hlast htold
    | inserted p hawaits hqueue hlast _ => exact .inserted p hawaits hqueue hlast htold
    | dropped front rest hfront hready hnone hqueue hlast _ =>
      exact .dropped front rest hfront hready hnone hqueue hlast htold
    | emitted front rest hrun hdrains hturn hbar hqueue hlast htold' => cases htold'
    | resolved boundary result hrest hkeeps hqueue hlast _ =>
      exact .resolved boundary result hrest hkeeps hqueue hlast htold

/-- History answers, with a bar of the boundary or not. -/
theorem moves_historyAnswered (h : Invariant setup floor forward records s) (hopen : s.closed = false)
    (hrest : s.stack = []) (result : Option RawBar) :
    Moves action s (s.historyAnswered setup result).1 (s.historyAnswered setup result).2 := by
  unfold BarCloser.historyAnswered
  split
  · rename_i boundary deadline attempt bar _
    have hobserved := h.observe bar.boundarySecs
    have hopen' : (s.observe setup bar.boundarySecs).closed = false := hopen
    have hrest' : (s.observe setup bar.boundarySecs).stack = [] := hrest
    have htold : emittedBoundaries [Record.served bar] = [] := rfl
    dsimp only
    split
    · have hresolved : Moves action (s.observe setup bar.boundarySecs)
          ((s.observe setup bar.boundarySecs).resolved boundary (some bar)) [] :=
        moves_resolved hopen' hrest' fun _ _ _ _ => rfl
      exact Moves.tell (hresolved.of_same rfl rfl rfl rfl rfl) htold
    · have hretried : Moves action (s.observe setup bar.boundarySecs)
          ((s.observe setup bar.boundarySecs).retry setup boundary deadline attempt) [] :=
        moves_retry hobserved hopen' hrest' boundary deadline attempt
      exact Moves.tell (hretried.of_same rfl rfl rfl rfl rfl) htold
  · exact moves_retry h hopen hrest _ _ _
  · exact .still rfl rfl rfl rfl id rfl

/-! ## Turns of a drain -/

/-- The front is popped, and emitted if it has a bar. -/
theorem moves_pop (h : Invariant setup floor forward records s) {front : Pending} {rest : List Pending}
    (hdrains : s.drains = true) (hturn : s.turn = .pops front rest) :
    Moves .run s (s.pop front rest).1 (s.pop front rest).2 := by
  obtain ⟨hopen, hqueue⟩ := turn_pops hturn
  have hfront : front ∈ s.queue := by rw [hqueue]; exact List.mem_cons_self
  have hcovered : s.isCovered front.boundary = false :=
    isCovered_eq_false.mpr (h.queueAbove front hfront)
  have hready : front.needsHistory = false := by
    by_contra hneeds
    unfold BarCloser.turn at hturn
    rw [hopen, hqueue] at hturn
    simp [hcovered, hneeds] at hturn
  unfold BarCloser.pop
  cases hbar : front.streamed with
  | none =>
    exact
      ⟨rfl, id, rfl, .dropped front rest hqueue hready hbar rfl rfl rfl⟩
  | some bar =>
    have hown : bar.boundarySecs = front.boundary :=
      ((h.queueSound front hfront).streamed bar hbar).1
    have huncovered : ({ s with queue := rest } : BarCloser).isCovered bar.boundarySecs = false :=
      hown ▸ hcovered
    dsimp only
    unfold BarCloser.emit
    rw [if_neg (by simp [huncovered])]
    exact
      { backfilling := rfl
        stack := List.mem_cons_of_mem _
        closed := rfl
        queue := .emitted front rest rfl hdrains hturn (by simp [hbar]) rfl
          (congrArg some hown) rfl }

/-- A drain's end takes its frame off the stack, which leaves the frame of a backfill. -/
theorem mem_below {frame : Frame} {below : List Frame} (hstack : s.stack = frame :: below)
    (hframe : frame ≠ .backfill) (hmem : Frame.backfill ∈ s.stack) : Frame.backfill ∈ below := by
  rw [hstack] at hmem
  rcases List.mem_cons.mp hmem with heq | hmem
  · exact absurd heq.symm hframe
  · exact hmem

/-- The loop of `_pump` ends. -/
theorem moves_endPump {below : List Frame} (hstack : s.stack = .pump :: below)
    (pending : Option ℤ) :
    Moves action s (BarCloser.handOver { s with stack := below } pending) [] := by
  have hback := mem_below hstack (by decide)
  cases pending with
  | none => exact .still rfl rfl rfl rfl hback rfl
  | some boundary => exact .still rfl rfl rfl rfl hback rfl

/-- The entry the resolver stops at is wanted, so it is asked for. -/
theorem moves_resolveNext (h : Invariant setup floor forward records s) {below : List Frame}
    (hstack : s.stack = .resolve :: below) {pending : Option ℤ}
    (hturn : s.turn = .ends pending) :
    Moves action s (BarCloser.resolveNext setup { s with stack := below } pending) [] := by
  have hback := mem_below hstack (by decide)
  cases pending with
  | none => exact .still rfl rfl rfl rfl hback rfl
  | some boundary =>
    have hwanted : s.wanted boundary = true := by
      unfold BarCloser.turn at hturn
      split at hturn
      · rename_i front rest hopen hqueue
        split at hturn
        · have hboundary := Option.some.inj (BarCloser.Turn.ends.inj hturn)
          rw [← hboundary]
          exact wanted_of_mem h hopen (by rw [hqueue]; exact List.mem_cons_self)
        · cases hturn
      · cases hturn
    have hwanted' : ({ s with stack := below } : BarCloser).wanted boundary = true := hwanted
    show Moves action s (BarCloser.ask _ boundary _ 0) []
    unfold BarCloser.ask
    rw [if_pos hwanted']
    exact .still rfl rfl rfl rfl hback rfl

/-- A turn of the loop that drains the queue. -/
theorem moves_drain (h : Invariant setup floor forward records s) (hdrains : s.drains = true) :
    Moves .run s (s.run setup).1 (s.run setup).2 := by
  cases hstack : s.stack with
  | nil => simp [BarCloser.drains, hstack] at hdrains
  | cons frame below =>
    unfold BarCloser.run
    rw [hstack]
    cases frame with
    | callback => simp [BarCloser.drains, hstack] at hdrains
    | backfill => simp [BarCloser.drains, hstack] at hdrains
    | pump =>
      dsimp only
      split
      · exact moves_endPump hstack _
      · rename_i hturn
        exact moves_pop h hdrains hturn
    | resolve =>
      dsimp only
      split
      · rename_i hturn
        exact moves_resolveNext h hstack hturn
      · rename_i hturn
        exact moves_pop h hdrains hturn

/-- The frame on top runs, other than a backfill's. -/
theorem moves_run (h : Invariant setup floor forward records s)
    (hframe : s.stack.head? ≠ some .backfill) :
    Moves .run s (s.run setup).1 (s.run setup).2 := by
  cases hdrains : s.drains with
  | true => exact moves_drain h hdrains
  | false =>
    have hnothing : s.run setup = (s, []) := by
      unfold BarCloser.run
      unfold BarCloser.drains at hdrains
      split
      · rfl
      · rfl
      · rename_i hstack
        simp [hstack] at hdrains
      · rename_i hstack
        simp [hstack] at hdrains
      · rename_i hstack
        simp [hstack] at hframe
    rw [hnothing]
    exact .still rfl rfl rfl rfl id rfl

/-- The emit callback returns. -/
theorem moves_returns (s : BarCloser) : Moves action s s.returns [] := by
  unfold BarCloser.returns
  split
  · rename_i hstack
    exact .still rfl rfl rfl rfl (mem_below hstack (by decide)) rfl
  · exact .still rfl rfl rfl rfl id rfl

/-- The action is a turn of a backfill, or is about one. -/
def BarCloser.stepsBackfill (s : BarCloser) : Action → Bool
  | .run => s.stack.head? = some .backfill
  | .backfill => true
  | .rangeAnswered _ => true
  | .drained => true
  | .failBackfill => true
  | _ => false

/-- An idle closer has an empty stack. -/
theorem stack_of_idle (h : s.idle = true) : s.stack = [] := by simpa [BarCloser.idle] using h

/-- Every step of an open closer that is none of a backfill's own is a move. -/
theorem moves_step (h : Invariant setup floor forward records s) (hopen : s.closed = false)
    (hclose : action ≠ .close) (hown : s.stepsBackfill action = false) :
    Moves action s ((machine setup).step s action).1 ((machine setup).step s action).2 := by
  have hnothing : Moves action s s [] := .still rfl rfl rfl rfl id rfl
  have hatRest : ∀ next : BarCloser × List Record,
      (s.stack = [] → Moves action s next.1 next.2) →
      Moves action s (if s.idle then next else (s, [])).1 (if s.idle then next else (s, [])).2 := by
    intro next hnext
    split
    · rename_i hidle
      exact hnext (stack_of_idle hidle)
    · exact hnothing
  have hcalled : ∀ next : BarCloser × List Record, Moves action s next.1 next.2 →
      Moves action s (if s.mayCall then next else (s, [])).1
        (if s.mayCall then next else (s, [])).2 := by
    intro next hnext
    split
    · exact hnext
    · exact hnothing
  cases action with
  | tick now => exact .still rfl rfl rfl rfl id rfl
  | onUpdate bar => exact hcalled _ (Moves.tell (moves_onUpdate s bar) rfl)
  | onDisconnect => exact hcalled _ (moves_onDisconnect s)
  | close => exact absurd rfl hclose
  | returns => exact moves_returns s
  | run => exact moves_run h (by simpa [BarCloser.stepsBackfill] using hown)
  | timer => exact hatRest _ fun _ => moves_onTimer s
  | startResolver => exact hatRest _ fun _ => moves_startResolver s
  | wakeResolver => exact hatRest _ fun hrest => moves_wakeResolver h hopen hrest
  | historyAnswered result =>
    exact hatRest _ fun hrest => moves_historyAnswered h hopen hrest result
  | historyFailed => exact hatRest _ fun hrest => moves_historyFailed h hopen hrest
  | historyUnreachable => exact hatRest _ fun _ => moves_historyUnreachable s
  | backfill => cases hown
  | rangeAnswered bars => cases hown
  | drained => cases hown
  | failBackfill => cases hown

/-! ## What a move keeps -/

/-- `boundary` has been emitted, or has an entry of the kind `kept`. -/
def Present (kept : Pending → Prop) (records : List Record) (s : BarCloser) (boundary : ℤ) : Prop :=
  boundary ∈ emittedBoundaries records ∨ ∃ p ∈ s.queue, p.boundary = boundary ∧ kept p

/-- `boundary` is covered only if it has been emitted: no newer bar went before it. -/
def Passed (records : List Record) (s : BarCloser) (boundary : ℤ) : Prop :=
  s.isCovered boundary = true → boundary ∈ emittedBoundaries records

/-- A bar that goes out now is not newer than `boundary`, unless that has gone out already. -/
def keepsTurn (boundary : ℤ) (s : BarCloser) : Action → Bool
  | .run =>
    match s.drains, s.turn with
    | true, .pops front _ =>
      front.streamed.isNone || front.boundary ≤ boundary || s.isCovered boundary
    | _, _ => true
  | _ => true

/-- The entry has a bar. -/
def Pending.HasBar (p : Pending) : Prop := p.streamed.isSome = true

/-- An entry keeps the bar it has. -/
theorem Pending.HasBar.attach {p : Pending} (h : p.HasBar) (streamed : Option RawBar) :
    (p.attach streamed).HasBar := by
  unfold Pending.attach
  split
  · rename_i hnone
    simp [Pending.HasBar, hnone] at h
  · exact h

/-- An entry that awaits history goes on awaiting it. -/
theorem Pending.Awaits.attach {p : Pending} (h : p.Awaits) (streamed : Option RawBar) :
    (p.attach streamed).Awaits := by
  unfold Pending.attach
  split
  · rename_i hnone
    rcases h with h | h
    · exact .inl h
    · simp [hnone] at h
  · exact h

/-- An entry stays until its bar is emitted, where the resolver cannot leave it with nothing. -/
theorem Present.move {kept : Pending → Prop} {boundary : ℤ}
    (h : Present kept records s boundary) (hmove : QueueMove action s s' told)
    (hattach : ∀ (p : Pending) (streamed : Option RawBar), kept p → kept (p.attach streamed))
    (hready : ∀ p : Pending, kept p → p.needsHistory = false → p.streamed.isSome = true)
    (hresolved : ∀ p result, kept p → s.stack = [] →
      (p.streamed.isSome = true → result.isSome = true) →
      kept { p with streamed := result, needsHistory := false }) :
    Present kept (records ++ told) s' boundary := by
  rcases h with hemitted | ⟨p, hp, hboundary, hkept⟩
  · refine .inl ?_
    rw [emittedBoundaries_append]
    exact List.mem_append_left _ hemitted
  · cases hmove with
    | still hqueue hlast htold => exact .inr ⟨p, hqueue ▸ hp, hboundary, hkept⟩
    | attached boundary' streamed hqueue hlast htold =>
      refine .inr ⟨_, hqueue ▸ List.mem_map_of_mem hp, ?_, ?_⟩
      · split
        · exact (p.attach_boundary streamed).trans hboundary
        · exact hboundary
      · split
        · exact hattach p streamed hkept
        · exact hkept
    | inserted q hawaits hqueue hlast htold =>
      exact .inr ⟨p, hqueue ▸ mem_insertPending.mpr (.inr hp), hboundary, hkept⟩
    | dropped front rest hfront hready' hnone hqueue hlast htold =>
      -- an entry that is dropped has no state, and one of this kind would
      rw [hfront] at hp
      rcases List.mem_cons.mp hp with rfl | hp
      · have hbar := hready p hkept hready'
        simp [hnone] at hbar
      · exact .inr ⟨p, hqueue ▸ hp, hboundary, hkept⟩
    | emitted front rest hrun hdrains hturn hbar hqueue hlast htold =>
      rw [(turn_pops hturn).2] at hp
      rcases List.mem_cons.mp hp with rfl | hp
      · refine .inl ?_
        rw [emittedBoundaries_append, htold, hboundary]
        simp
      · exact .inr ⟨p, hqueue ▸ hp, hboundary, hkept⟩
    | resolved boundary' result hrest hkeeps hqueue hlast htold =>
      -- the resolver's answer replaces the state, but not by nothing
      refine .inr ⟨_, hqueue ▸ List.mem_map_of_mem hp, ?_, ?_⟩
      · split
        · exact hboundary
        · exact hboundary
      · split
        · rename_i hown
          exact hresolved p result hkept hrest (hkeeps p hp hown)
        · exact hkept

/-- An entry with a bar stays until a bar of its boundary is emitted. -/
theorem Present.hasBar_move {boundary : ℤ} (h : Present Pending.HasBar records s boundary)
    (hmove : QueueMove action s s' told) :
    Present Pending.HasBar (records ++ told) s' boundary :=
  h.move hmove (fun _ streamed hbar => hbar.attach streamed) (fun _ hbar _ => hbar)
    (fun _ _ hbar _ hkeeps => hkeeps hbar)

/-- While code of the closer is running, an entry history is still to be asked for stays. -/
theorem Present.awaits_move {boundary : ℤ} (h : Present Pending.Awaits records s boundary)
    (hmove : QueueMove action s s' told) (hrunning : s.stack ≠ []) :
    Present Pending.Awaits (records ++ told) s' boundary :=
  h.move hmove (fun _ streamed hawaits => hawaits.attach streamed)
    (fun _ hawaits hready => hawaits.resolve_left (by simp [hready]))
    (fun _ _ _ hrest => absurd hrest hrunning)

/-- No newer bar goes before a boundary that keeps its turn. -/
theorem Passed.move {boundary : ℤ} (h : Passed records s boundary)
    (hmove : QueueMove action s s' told) (hturn : keepsTurn boundary s action = true) :
    Passed (records ++ told) s' boundary := by
  intro hcovered
  rw [emittedBoundaries_append]
  have hsame : s'.lastEmitted = s.lastEmitted → boundary ∈ emittedBoundaries records ++
      emittedBoundaries told := by
    intro hlast
    refine List.mem_append_left _ (h ?_)
    unfold BarCloser.isCovered at hcovered ⊢
    rwa [hlast] at hcovered
  cases hmove with
  | still hqueue hlast htold => exact hsame hlast
  | attached boundary' streamed hqueue hlast htold => exact hsame hlast
  | inserted p hawaits hqueue hlast htold => exact hsame hlast
  | dropped front rest hfront hready hnone hqueue hlast htold => exact hsame hlast
  | resolved boundary' result hrest hkeeps hqueue hlast htold => exact hsame hlast
  | emitted front rest hrun hdrains hpops hbar hqueue hlast htold =>
    have hle : boundary ≤ front.boundary := by
      unfold BarCloser.isCovered at hcovered
      rw [hlast] at hcovered
      simpa using hcovered
    subst hrun
    unfold keepsTurn at hturn
    rw [hdrains, hpops] at hturn
    simp only [Bool.or_eq_true, Option.isNone_iff_eq_none, decide_eq_true_eq] at hturn
    rcases hturn with (hnone | hge) | hold
    · simp [hnone] at hbar
    · rw [htold, le_antisymm hle hge]
      simp
    · exact List.mem_append_left _ (h hold)

end Bars

end NautilusCtrader
