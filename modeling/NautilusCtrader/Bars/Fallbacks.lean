import NautilusCtrader.Bars.Draining

/-!
# The fallback of a boundary that waits for history

An entry that waits for history carries a streamed state, its fallback: the forming bar's when the
timer queued it, else that of the first update that found it queued. A later update does not replace
it. So a bar that history does not have is emitted in its last streamed state as long as no update
comes for a boundary that already has another fallback (`fallback_last_streamed`), and in an older
state where one does (`late_update_dropped`).
-/

namespace NautilusCtrader

open Common

namespace Bars

variable {setup : Setup} {s s' : BarCloser}

/-! ## What was streamed, and what waits -/

/-- Nothing of the boundary is taken any more: it is before the floor, or emitted or passed over. -/
def BarCloser.gone (s : BarCloser) (boundary : ℤ) : Bool :=
  boundary < s.floor || s.isCovered boundary

/-- A closer with what was streamed to it. -/
structure Stream where
  closer : BarCloser
  /-- The last update of a boundary since the last disconnect. -/
  latest : ℤ → Option RawBar := fun _ => none
  /-- The boundary was queued for history, which has not returned its bar since. -/
  owed : ℤ → Bool := fun _ => false

/-- The boundary's entry waits for history. -/
def BarCloser.waitsFor (s : BarCloser) (boundary : ℤ) : Bool :=
  s.queue.any fun p => p.boundary = boundary && p.needsHistory

/-- History returns the bar of the boundary: to the resolver, or in a range a backfill queues. -/
def BarCloser.returned (s : BarCloser) (action : Action) (boundary : ℤ) : Bool :=
  match action with
  | .historyAnswered (some bar) =>
    match s.resolver with
    | some (.fetching asked _ _) => bar.boundarySecs = asked && asked = boundary
    | _ => false
  | .run =>
    match s.backfilling with
    | some (.queueing _ _ (bar :: _)) => bar.boundarySecs = boundary
    | _ => false
  | _ => false

/-- What was last streamed, after an action. -/
def latestAfter (s : BarCloser) (latest : ℤ → Option RawBar) (action : Action) :
    ℤ → Option RawBar :=
  match action with
  | .onUpdate bar =>
    if s.mayCall then Function.update latest bar.boundarySecs (some bar) else latest
  | .onDisconnect => if s.mayCall then fun _ => none else latest
  | _ => latest

/-- What history owes, after a step: a boundary that is newly queued owes its bar if it waits for it. -/
def owedAfter (s s' : BarCloser) (owed : ℤ → Bool) (action : Action) (boundary : ℤ) : Bool :=
  if (s.find boundary).isSome then owed boundary && !s.returned action boundary
  else s'.waitsFor boundary

/-- The closer with its stream. -/
def stream (setup : Setup) : Machine Stream Action Record where
  step w action :=
    let next := (machine setup).step w.closer action
    ({ closer := next.1
       latest := latestAfter w.closer w.latest action
       owed := owedAfter w.closer next.1 w.owed action }, next.2)

/-- No update comes for a queued boundary that waits, or waited, for history and has another fallback
already. -/
def Taken (w : Stream) : Action → Prop
  | .onUpdate bar => w.closer.mayCall = true → ∀ p ∈ w.closer.queue,
      p.boundary = bar.boundarySecs → w.owed p.boundary = true →
        ∀ fallback, p.streamed = some fallback → fallback = bar
  | _ => True

/-- The state is the last one streamed of its boundary, or none was since the last disconnect. -/
def Shows (latest : ℤ → Option RawBar) (boundary : ℤ) (bar : RawBar) : Prop :=
  latest boundary = none ∨ latest boundary = some bar

/-! ## Outside the queue -/

variable {latest : ℤ → Option RawBar} {skip : Option ℤ}

/-- What the closer keeps outside the queue is last streamed. An update that is being taken may have
replaced the state of its boundary, which is then skipped. -/
structure Rest (latest : ℤ → Option RawBar) (skip : Option ℤ) (s : BarCloser) : Prop where
  current {bar : RawBar} : s.current = some bar → skip ≠ some bar.boundarySecs →
    s.gone bar.boundarySecs = true ∨ latest bar.boundarySecs = some bar
  held {bar : RawBar} : s.holding = true → s.held = some bar → skip ≠ some bar.boundarySecs →
    s.gone bar.boundarySecs = true ∨ latest bar.boundarySecs = some bar
  apart {bar : RawBar} {p : Pending} : s.current = some bar → p ∈ s.queue →
    p.boundary ≠ bar.boundarySecs
  holding : s.holding = true → s.current = none
  baseline : s.baseline = true → s.current = none
  stage {stage : Backfill} : s.backfilling = some stage → stage = .replaying ∨ s.holding = true

/-- What the queue of a step's outcome is made of: entries that were queued, with the state they had or
one history returned or one that is fresh, and at most a new one. -/
structure Queues (s s' : BarCloser) (now : ℤ → Bool) (latest : ℤ → Option RawBar) : Prop where
  entries {p' : Pending} : p' ∈ s'.queue →
    (∃ p ∈ s.queue, p.boundary = p'.boundary ∧ (p'.streamed = p.streamed ∨
      now p'.boundary = true ∨ ∀ bar, p'.streamed = some bar → Shows latest p'.boundary bar)) ∨
    (∀ p ∈ s.queue, p.boundary ≠ p'.boundary) ∧
      (∀ q ∈ s'.queue, q.boundary = p'.boundary → q = p') ∧
      (p'.needsHistory = true → ∀ bar, p'.streamed = some bar → Shows latest p'.boundary bar)

/-- A step that keeps what is last streamed. -/
structure Keeps (latest : ℤ → Option RawBar) (now : ℤ → Bool) (s s' : BarCloser) : Prop where
  rest : Rest latest none s'
  queues : Queues s s' now latest

variable {now : ℤ → Bool}

/-- A queue that is the same has no new entries. -/
theorem queues_of_eq (h : s'.queue = s.queue) : Queues s s' now latest where
  entries {p'} hmem := .inl ⟨p', h ▸ hmem, rfl, .inl rfl⟩

/-- A queue counts as it was before what left it the same. -/
theorem Queues.of_eq {s₁ : BarCloser} (h : Queues s₁ s' now latest) (heq : s₁.queue = s.queue) :
    Queues s s' now latest where
  entries hmem := by
    have hentries := h.entries hmem
    rw [heq] at hentries
    exact hentries

/-- A state that differs in nothing that is read keeps what is last streamed. -/
theorem Rest.same (h : Rest latest skip s)
    (hqueue : ∀ p' ∈ s'.queue, ∃ p ∈ s.queue, p.boundary = p'.boundary)
    (hcurrent : s'.current = s.current) (hheld : s'.held = s.held)
    (hholding : s'.holding = s.holding) (hbaseline : s'.baseline = s.baseline)
    (hstage : s'.backfilling = s.backfilling)
    (hgone : ∀ boundary, s.gone boundary = true → s'.gone boundary = true) :
    Rest latest skip s' where
  current hbar hskip := (h.current (hcurrent ▸ hbar) hskip).imp_left (hgone _)
  held hhold hbar hskip := (h.held (hholding ▸ hhold) (hheld ▸ hbar) hskip).imp_left (hgone _)
  apart hbar hmem := by
    obtain ⟨p, hp, hboundary⟩ := hqueue _ hmem
    rw [← hboundary]
    exact h.apart (hcurrent ▸ hbar) hp
  holding hhold := hcurrent ▸ h.holding (hholding ▸ hhold)
  baseline hbase := hcurrent ▸ h.baseline (hbaseline ▸ hbase)
  stage hstage' := hholding ▸ h.stage (hstage ▸ hstage')

/-! ## Queueing -/

/-- `_pump` touches nothing but the stack. -/
theorem pump_fields (s : BarCloser) : s.pump.queue = s.queue ∧ s.pump.current = s.current ∧
    s.pump.held = s.held ∧ s.pump.holding = s.holding ∧ s.pump.baseline = s.baseline ∧
    s.pump.backfilling = s.backfilling ∧ ∀ boundary, s.pump.gone boundary = s.gone boundary := by
  unfold BarCloser.pump
  split <;> exact ⟨rfl, rfl, rfl, rfl, rfl, rfl, fun _ => rfl⟩

/-- The stream is as it was while the queue drains. -/
theorem Rest.pump (h : Rest latest skip s) : Rest latest skip s.pump := by
  obtain ⟨hqueue, hcurrent, hheld, hholding, hbaseline, hstage, hgone⟩ := pump_fields s
  exact h.same (fun p hp => ⟨p, hqueue ▸ hp, rfl⟩) hcurrent hheld hholding hbaseline hstage
    fun boundary => by rw [hgone]; exact id

/-- What `_enqueue` makes of the queue. -/
theorem queues_enqueue {boundary : ℤ} {streamed : Option RawBar} {needsHistory : Bool}
    (h : s.gone boundary = false → needsHistory = false ∧ now boundary = true ∨
      ∀ bar, streamed = some bar → Shows latest boundary bar) :
    Queues s (s.enqueue boundary streamed needsHistory) now latest := by
  unfold BarCloser.enqueue
  split
  · exact queues_of_eq rfl
  · rename_i hguard
    have hgone : s.gone boundary = false := by
      rw [Bool.not_eq_true, Bool.or_eq_false_iff, Bool.or_eq_false_iff] at hguard
      rw [BarCloser.gone, hguard.1.2, hguard.2, Bool.or_false]
    have hstate := h hgone
    split
    · -- The entry takes the state only if it has none.
      refine ⟨fun {p'} hmem => .inl ?_⟩
      obtain ⟨p, hp, rfl⟩ := List.mem_map.mp hmem
      by_cases hboundary : p.boundary = boundary
      · rw [if_pos hboundary]
        unfold Pending.attach
        split
        · refine ⟨p, hp, rfl, .inr ?_⟩
          rcases hstate with ⟨-, hnow⟩ | hshows
          · exact .inl (hboundary ▸ hnow)
          · exact .inr (hboundary ▸ hshows)
        · exact ⟨p, hp, rfl, .inl rfl⟩
      · rw [if_neg hboundary]
        exact ⟨p, hp, rfl, .inl rfl⟩
    · rename_i hfind
      have hnew := find_eq_none.mp hfind
      refine ⟨fun {p'} hmem => ?_⟩
      rw [(pump_fields _).1] at hmem ⊢
      rcases mem_insertPending.mp hmem with rfl | hold
      · refine .inr ⟨hnew, fun q hq hboundary => ?_, fun hneeds => ?_⟩
        · rcases mem_insertPending.mp hq with rfl | hq
          · rfl
          · exact absurd hboundary (hnew q hq)
        · rcases hstate with ⟨hready, -⟩ | hshows
          · rw [hready] at hneeds
            cases hneeds
          · exact hshows
      · exact .inl ⟨p', hold, rfl, .inl rfl⟩

/-- What `_enqueue` leaves outside the queue, for a boundary that is not the forming bar's. -/
theorem Rest.enqueue (h : Rest latest skip s) {boundary : ℤ} {streamed : Option RawBar}
    {needsHistory : Bool} (hother : ∀ bar, s.current = some bar → boundary ≠ bar.boundarySecs) :
    Rest latest skip (s.enqueue boundary streamed needsHistory) := by
  unfold BarCloser.enqueue
  split
  · exact h
  split
  · refine h.same (fun p' hp' => ?_) rfl rfl rfl rfl rfl fun _ => id
    obtain ⟨p, hp, rfl⟩ := List.mem_map.mp hp'
    refine ⟨p, hp, ?_⟩
    split
    · unfold Pending.attach
      split <;> rfl
    · rfl
  · refine Rest.pump { h with apart := fun {bar p} hbar hp => ?_ }
    rcases mem_insertPending.mp hp with rfl | hp
    · exact hother bar hbar
    · exact h.apart hbar hp

/-! ## The stream -/

/-- A step that leaves everything that is read. -/
theorem Keeps.same (h : Rest latest none s) (hqueue : s'.queue = s.queue)
    (hcurrent : s'.current = s.current) (hheld : s'.held = s.held)
    (hholding : s'.holding = s.holding) (hbaseline : s'.baseline = s.baseline)
    (hstage : s'.backfilling = s.backfilling)
    (hgone : ∀ boundary, s.gone boundary = true → s'.gone boundary = true) :
    Keeps latest now s s' where
  rest := h.same (fun p hp => ⟨p, hqueue ▸ hp, rfl⟩) hcurrent hheld hholding hbaseline hstage hgone
  queues := queues_of_eq hqueue

/-- The update of a boundary that is not queued becomes the forming bar's state, or is older. -/
theorem keeps_track {bar : RawBar} (h : Rest latest (some bar.boundarySecs) s)
    (hbar : latest bar.boundarySecs = some bar) (hfree : s.holding = false)
    (hbase : s.baseline = false) (hfind : ∀ p ∈ s.queue, p.boundary ≠ bar.boundarySecs) :
    Keeps latest now s (s.track setup bar) := by
  have hset (t : BarCloser) (ht : t.queue = s.queue) (hholding : t.holding = s.holding)
      (hbaseline : t.baseline = s.baseline) (hcurrent : t.current = some bar)
      (hstage : t.backfilling = s.backfilling) : Rest latest none t :=
    { current := fun {c} hc _ => by
        rw [hcurrent] at hc
        cases hc
        exact .inr hbar
      held := fun hhold => by
        rw [hholding, hfree] at hhold
        cases hhold
      apart := fun {c p} hc hp => by
        rw [hcurrent] at hc
        cases hc
        exact hfind p (ht ▸ hp)
      holding := fun hhold => by
        rw [hholding, hfree] at hhold
        cases hhold
      baseline := fun hb => by
        rw [hbaseline, hbase] at hb
        cases hb
      stage := fun hs => hholding ▸ h.stage (hstage ▸ hs) }
  unfold BarCloser.track
  split
  · exact ⟨hset _ rfl rfl rfl rfl rfl, queues_of_eq rfl⟩
  · rename_i current hcurrent
    split
    · exact ⟨hset _ rfl rfl rfl rfl rfl, queues_of_eq rfl⟩
    · rename_i hne
      have hskip : some bar.boundarySecs ≠ some current.boundarySecs := by
        intro heq
        exact hne (Option.some.inj heq)
      split
      · -- The bar before it is closed with its last state.
        have harmed : Rest latest none (BarCloser.arm setup { s with current := some bar }
            bar.boundarySecs) := hset _ rfl rfl rfl rfl rfl
        refine ⟨harmed.enqueue fun c hc => ?_, Queues.of_eq (queues_enqueue fun hgone => .inr ?_) rfl⟩
        · cases hc
          exact fun heq => hne heq.symm
        · intro state hstate
          cases hstate
          rcases h.current hcurrent hskip with hgone' | hlatest
          · have hgone' : (BarCloser.arm setup { s with current := some bar }
              bar.boundarySecs).gone current.boundarySecs = true := hgone'
            rw [hgone] at hgone'
            cases hgone'
          · exact .inr hlatest
      · refine ⟨?_, queues_of_eq rfl⟩
        exact
          { h with
            current := fun {c} hc _ => h.current hc (by
              rw [hcurrent] at hc
              cases hc
              exact hskip)
            held := fun hhold => by
              rw [hfree] at hhold
              cases hhold }

/-- An update, wherever it goes. -/
theorem keeps_onUpdate {bar : RawBar} (h : Rest latest (some bar.boundarySecs) s)
    (hbar : s.gone bar.boundarySecs = true ∨ latest bar.boundarySecs = some bar)
    (hopen : s.closed = false) : Keeps latest now s (s.onUpdate setup bar) := by
  unfold BarCloser.onUpdate
  rw [if_neg (by rw [hopen]; exact Bool.false_ne_true)]
  have hseen : Rest latest (some bar.boundarySecs) (s.observe setup bar.boundarySecs) :=
    h.same (fun p hp => ⟨p, hp, rfl⟩) rfl rfl rfl rfl rfl fun _ => id
  dsimp only
  -- the boundary is covered, so the update is passed over
  split
  · rename_i hgone
    have hgone : s.gone bar.boundarySecs = true := hgone
    have hskipped {other : RawBar} (hother : s.gone other.boundarySecs = true ∨
        some bar.boundarySecs ≠ some other.boundarySecs) (hrest : some bar.boundarySecs ≠
        some other.boundarySecs → s.gone other.boundarySecs = true ∨
          latest other.boundarySecs = some other) :
        s.gone other.boundarySecs = true ∨ latest other.boundarySecs = some other := by
      rcases hother with hgoneOther | hne
      · exact .inl hgoneOther
      · exact hrest hne
    have hcases (other : RawBar) : s.gone other.boundarySecs = true ∨
        some bar.boundarySecs ≠ some other.boundarySecs := by
      by_cases heq : bar.boundarySecs = other.boundarySecs
      · exact .inl (heq ▸ hgone)
      · exact .inr fun hsome => heq (Option.some.inj hsome)
    refine ⟨?_, queues_of_eq rfl⟩
    exact
      { hseen with
        current := fun {c} hc _ => hskipped (hcases c) (h.current hc)
        held := fun {c} hhold hc _ => hskipped (hcases c) (h.held hhold hc) }
  -- else the update is the latest of its boundary
  rename_i hguard
  have hlatest : latest bar.boundarySecs = some bar := by
    rcases hbar with hgone | hlatest
    · exact absurd hgone hguard
    · exact hlatest
  split
  · -- a backfill holds the stream: the update waits for its replay
    rename_i hhold
    have hhold : s.holding = true := hhold
    have hnone := h.holding hhold
    refine ⟨?_, queues_of_eq rfl⟩
    exact
      { hseen with
        current := fun {c} hc _ => by
          have hc : s.current = some c := hc
          rw [hnone] at hc
          cases hc
        held := fun {c} _ hc _ => by
          cases hc
          exact .inr hlatest }
  rename_i hfree
  have hfree : s.holding = false := Bool.not_eq_true _ ▸ hfree
  split
  · -- The entry takes the update if it has no state.
    rename_i hfound
    obtain ⟨p, hp, hboundary⟩ := isSome_find_iff.mp hfound
    have hother : ∀ c, s.current = some c → bar.boundarySecs ≠ c.boundarySecs := by
      intro c hc heq
      exact h.apart hc hp (hboundary.trans heq)
    have hunskipped : Rest latest none (s.observe setup bar.boundarySecs) :=
      { hseen with
        current := fun {c} hc _ => h.current hc fun heq => hother c hc (Option.some.inj heq)
        held := fun hhold => by
          have hhold : s.holding = true := hhold
          rw [hfree] at hhold
          cases hhold }
    refine ⟨hunskipped.enqueue hother, Queues.of_eq (queues_enqueue fun _ => .inr ?_) rfl⟩
    intro state hstate
    cases hstate
    exact .inr hlatest
  -- no entry has the boundary
  rename_i hfind
  have hnew : ∀ p ∈ s.queue, p.boundary ≠ bar.boundarySecs :=
    find_eq_none.mp (Option.not_isSome_iff_eq_none.mp hfind)
  split
  · -- the first update after a backfill: its bar has closed already
    rename_i hclosed
    have hbase : s.baseline = true := (Bool.and_eq_true_iff.mp hclosed).1
    have hnone := h.baseline hbase
    have hsettled : Rest latest none
        { s.observe setup bar.boundarySecs with baseline := false } :=
      { hseen with
        current := fun {c} hc _ => by
          have hc : s.current = some c := hc
          rw [hnone] at hc
          cases hc
        held := fun hhold => by
          have hhold : s.holding = true := hhold
          rw [hfree] at hhold
          cases hhold
        baseline := fun hb => by cases hb }
    refine ⟨hsettled.enqueue fun c hc => ?_, Queues.of_eq (queues_enqueue fun _ => .inr ?_) rfl⟩
    · have hc : s.current = some c := hc
      rw [hnone] at hc
      cases hc
    · intro state hstate
      cases hstate
      exact .inr hlatest
  · -- the update is of the forming bar, or closes it
    have hsettled : Rest latest (some bar.boundarySecs)
        { s.observe setup bar.boundarySecs with baseline := false } :=
      { hseen with baseline := fun hb => by cases hb }
    have htracked : Keeps latest now { s.observe setup bar.boundarySecs with baseline := false }
        (BarCloser.track setup { s.observe setup bar.boundarySecs with baseline := false } bar) :=
      keeps_track hsettled hlatest hfree rfl hnew
    exact ⟨htracked.rest, htracked.queues.of_eq rfl⟩

/-- The timer queues the bar with its last update. -/
theorem keeps_onTimer (h : Rest latest none s) : Keeps latest now s s.onTimer := by
  have hsame : Keeps latest now s s := ⟨h, queues_of_eq rfl⟩
  unfold BarCloser.onTimer
  split
  · rename_i boundary due current htimer hcurrent
    split
    · exact .same h rfl rfl rfl rfl rfl rfl fun _ => id
    · rename_i hown
      have hboundary : current.boundarySecs = boundary := by
        by_contra hne
        exact hown (by rw [decide_eq_true hne, Bool.or_true])
      have hended : Rest latest none { s with timer := none, current := none } :=
        { current := fun hc => by cases hc
          held := h.held
          apart := fun hc => by cases hc
          holding := fun _ => rfl
          baseline := fun _ => rfl
          stage := h.stage }
      refine ⟨hended.enqueue fun c hc => ?_, Queues.of_eq (queues_enqueue fun hgone => .inr ?_) rfl⟩
      · cases hc
      · intro state hstate
        cases hstate
        rcases h.current hcurrent (by rintro ⟨⟩) with hgone' | hlatest
        · have hgone : s.gone boundary = false := hgone
          rw [hboundary, hgone] at hgone'
          cases hgone'
        · exact .inr (hboundary ▸ hlatest)
  · exact hsame

/-- A disconnect forgets what was streamed. -/
theorem rest_onDisconnect (h : Rest latest none s) (hopen : s.closed = false) :
    Rest (fun _ => none) none s.onDisconnect := by
  unfold BarCloser.onDisconnect
  rw [if_neg (by rw [hopen]; exact Bool.false_ne_true)]
  exact
    { current := fun hc => by cases hc
      held := fun _ hc => by cases hc
      apart := fun hc => by cases hc
      holding := fun _ => rfl
      baseline := fun _ => rfl
      stage := h.stage }

/-! ## The drain and the resolver -/

/-- An emission only adds to what is gone. -/
theorem gone_emit {boundary : ℤ} {bar : RawBar} (hbar : s.isCovered bar.boundarySecs = false)
    (hgone : s.gone boundary = true) :
    ({ s with lastEmitted := some bar.boundarySecs } : BarCloser).gone boundary = true := by
  simp only [BarCloser.gone, Bool.or_eq_true, decide_eq_true_eq] at hgone ⊢
  refine hgone.imp_right fun hcovered => ?_
  unfold BarCloser.isCovered at hbar hcovered ⊢
  cases hlast : s.lastEmitted with
  | none =>
    rw [hlast] at hcovered
    cases hcovered
  | some last =>
    rw [hlast] at hbar hcovered
    simp only [decide_eq_true_eq, decide_eq_false_iff_not] at hbar hcovered ⊢
    omega

/-- The front is popped. -/
theorem keeps_pop (h : Rest latest none s) {front : Pending} {rest : List Pending}
    (hqueue : s.queue = front :: rest) : Keeps latest now s (s.pop front rest).1 := by
  have hpart : ∀ p ∈ rest, p ∈ s.queue := fun p hp => hqueue ▸ List.mem_cons_of_mem _ hp
  have hqueues (t : BarCloser) (ht : t.queue = rest) : Queues s t now latest :=
    ⟨fun {p'} hp' => .inl ⟨p', hpart p' (ht ▸ hp'), rfl, .inl rfl⟩⟩
  unfold BarCloser.pop
  split
  · exact ⟨h.same (fun p hp => ⟨p, hpart p hp, rfl⟩) rfl rfl rfl rfl rfl fun _ => id, hqueues _ rfl⟩
  · unfold BarCloser.emit
    split
    · exact ⟨h.same (fun p hp => ⟨p, hpart p hp, rfl⟩) rfl rfl rfl rfl rfl fun _ => id,
        hqueues _ rfl⟩
    · rename_i bar _ hcovered
      have hbar : s.isCovered bar.boundarySecs = false := Bool.not_eq_true _ ▸ hcovered
      exact ⟨h.same (fun p hp => ⟨p, hpart p hp, rfl⟩) rfl rfl rfl rfl rfl
        fun _ => gone_emit hbar, hqueues _ rfl⟩

/-- The resolver gives an entry the state it had, or one history returned, or none. -/
theorem keeps_resolved (h : Rest latest none s) {boundary : ℤ} {result : Option RawBar}
    (hresult : ∀ bar, result = some bar → now boundary = true ∨
      ∃ p ∈ s.queue, p.boundary = boundary ∧ p.streamed = some bar) :
    Keeps latest now s (s.resolved boundary result) := by
  unfold BarCloser.resolved
  split
  · exact .same h rfl rfl rfl rfl rfl rfl fun _ => id
  refine ⟨h.same (fun p' hp' => ?_) rfl rfl rfl rfl rfl fun _ => id, ⟨fun {p'} hp' => .inl ?_⟩⟩
  · obtain ⟨p, hp, rfl⟩ := List.mem_map.mp hp'
    refine ⟨p, hp, ?_⟩
    split <;> rfl
  · obtain ⟨p, hp, rfl⟩ := List.mem_map.mp hp'
    by_cases hboundary : p.boundary = boundary
    · rw [if_pos hboundary]
      cases hbar : result with
      | none => exact ⟨p, hp, rfl, .inr (.inr fun bar hnone => by cases hnone)⟩
      | some bar =>
        rcases hresult bar hbar with hnow | ⟨p₀, hp₀, hboundary₀, hstreamed⟩
        · exact ⟨p, hp, rfl, .inr (.inl (hboundary ▸ hnow))⟩
        · exact ⟨p₀, hp₀, hboundary₀.trans hboundary.symm, .inl hstreamed.symm⟩
    · rw [if_neg hboundary]
      exact ⟨p, hp, rfl, .inl rfl⟩

/-- The resolver asks history, or has nothing to ask for. -/
theorem keeps_ask (h : Rest latest none s) (boundary : ℤ) (deadline : ℚ) (attempt : ℕ) :
    Keeps latest now s (s.ask boundary deadline attempt) := by
  unfold BarCloser.ask
  split
  · exact .same h rfl rfl rfl rfl rfl rfl fun _ => id
  · exact keeps_resolved h fun bar hbar => by cases hbar

/-- The resolver falls back on the streamed state. -/
theorem keeps_fallBack (h : Rest latest none s) (boundary : ℤ) :
    Keeps latest now s (s.fallBack boundary) := by
  unfold BarCloser.fallBack
  split
  · refine keeps_resolved h fun bar hbar => .inr ?_
    obtain ⟨p, hp, hstreamed⟩ := Option.bind_eq_some_iff.mp hbar
    rw [BarCloser.find] at hp
    have hboundary := List.find?_some hp
    exact ⟨p, List.mem_of_find?_eq_some hp, of_decide_eq_true hboundary, hstreamed⟩
  · exact keeps_resolved h fun bar hbar => by cases hbar

/-- The resolver asks again later, or falls back. -/
theorem keeps_retry (h : Rest latest none s) (boundary : ℤ) (deadline : ℚ) (attempt : ℕ) :
    Keeps latest now s (s.retry setup boundary deadline attempt) := by
  unfold BarCloser.retry
  split
  · split
    · exact keeps_fallBack h boundary
    · exact .same h rfl rfl rfl rfl rfl rfl fun _ => id
  · exact keeps_fallBack h boundary

/-- The resolver runs for the first time. -/
theorem keeps_startResolver (h : Rest latest none s) : Keeps latest now s s.startResolver := by
  unfold BarCloser.startResolver
  split <;> exact .same h rfl rfl rfl rfl rfl rfl fun _ => id

/-- The resolver wakes. -/
theorem keeps_wakeResolver (h : Rest latest none s) : Keeps latest now s s.wakeResolver := by
  unfold BarCloser.wakeResolver
  split
  · exact keeps_ask h _ _ _
  · exact ⟨h, queues_of_eq rfl⟩

/-- History answers, with a bar of the boundary or not. -/
theorem keeps_historyAnswered (h : Rest latest none s) (result : Option RawBar) :
    Keeps latest (s.returned (.historyAnswered result)) s (s.historyAnswered setup result).1 := by
  unfold BarCloser.historyAnswered
  split
  · rename_i boundary deadline attempt bar hresolver
    have hseen : Rest latest none (s.observe setup bar.boundarySecs) :=
      h.same (fun p hp => ⟨p, hp, rfl⟩) rfl rfl rfl rfl rfl fun _ => id
    dsimp only
    split
    · rename_i hown
      have hkeeps : Keeps latest (s.returned (.historyAnswered (some bar)))
          (s.observe setup bar.boundarySecs)
          ((s.observe setup bar.boundarySecs).resolved boundary (some bar)) := by
        refine keeps_resolved hseen fun _ _ => .inl ?_
        simp only [BarCloser.returned, hresolver, hown, decide_true, Bool.and_self]
      exact ⟨hkeeps.rest, hkeeps.queues.of_eq rfl⟩
    · have hkeeps : Keeps latest (s.returned (.historyAnswered (some bar)))
          (s.observe setup bar.boundarySecs)
          ((s.observe setup bar.boundarySecs).retry setup boundary deadline attempt) :=
        keeps_retry hseen _ _ _
      exact ⟨hkeeps.rest, hkeeps.queues.of_eq rfl⟩
  · exact keeps_retry h _ _ _
  · exact ⟨h, queues_of_eq rfl⟩

/-- A request to history fails. -/
theorem keeps_historyFailed (h : Rest latest none s) : Keeps latest now s (s.historyFailed setup) := by
  unfold BarCloser.historyFailed
  split
  · exact keeps_retry h _ _ _
  · exact ⟨h, queues_of_eq rfl⟩

/-- Without a connection the resolver ends. -/
theorem keeps_historyUnreachable (h : Rest latest none s) :
    Keeps latest now s s.historyUnreachable := by
  unfold BarCloser.historyUnreachable
  split
  · exact .same h rfl rfl rfl rfl rfl rfl fun _ => id
  · exact ⟨h, queues_of_eq rfl⟩

/-- The queue is handed to a resolver. -/
theorem keeps_handOver (h : Rest latest none s) (pending : Option ℤ) :
    Keeps latest now s (s.handOver pending) := by
  cases pending with
  | none => exact .same h rfl rfl rfl rfl rfl rfl fun _ => id
  | some boundary => exact .same h rfl rfl rfl rfl rfl rfl fun _ => id

/-- The resolver goes on with the next entry, or ends. -/
theorem keeps_resolveNext (h : Rest latest none s) (pending : Option ℤ) :
    Keeps latest now s (s.resolveNext setup pending) := by
  cases pending with
  | none => exact .same h rfl rfl rfl rfl rfl rfl fun _ => id
  | some boundary => exact keeps_ask h _ _ _

/-! ## The backfill -/

/-- A step may be read from a state with the same queue. -/
theorem Keeps.of_queue {s₁ : BarCloser} (h : Keeps latest now s₁ s') (heq : s₁.queue = s.queue) :
    Keeps latest now s s' := ⟨h.rest, h.queues.of_eq heq⟩

/-- What a backfill's next stage leaves. -/
theorem Rest.staged (h : Rest latest skip s) {next : Option Backfill} (stack : List Frame)
    (hnext : ∀ stage, next = some stage → stage = .replaying ∨ s.holding = true) :
    Rest latest skip { s with backfilling := next, stack } :=
  { h with stage := fun {stage} hstage => hnext stage hstage }

/-- A backfill that ends holds no update. -/
theorem Rest.endBackfill (h : Rest latest none s) (hhold : s.holding = true) :
    Rest latest none s.endBackfill :=
  { h with
    held := fun hh => by cases hh
    holding := fun hh => by cases hh
    baseline := fun _ => h.holding hhold
    stage := fun hstage => by cases hstage }

/-- A backfill begins. -/
theorem keeps_backfill (h : Rest latest none s) : Keeps latest now s s.backfill := by
  unfold BarCloser.backfill
  split
  · exact ⟨h, queues_of_eq rfl⟩
  · have hbegun : Rest latest none
        { s.cancelTimer with
          holding := true
          held := none
          current := none
          backfilling := some .pumping
          stack := .backfill :: s.stack } :=
      { current := fun hc => by cases hc
        held := fun _ hc => by cases hc
        apart := fun hc => by cases hc
        holding := fun _ => rfl
        baseline := fun _ => rfl
        stage := fun _ => .inr rfl }
    exact ⟨hbegun.pump, queues_of_eq (pump_fields _).1⟩

/-- The tail of a backfill is worked out. -/
theorem keeps_queueTail (h : Rest latest none s) (hhold : s.holding = true) (stop : ℤ) :
    Keeps latest now s (s.queueTail setup stop).1 := by
  unfold BarCloser.queueTail
  split
  · exact ⟨h.endBackfill hhold, queues_of_eq rfl⟩
  · exact ⟨h.staged _ fun _ _ => .inr hhold, queues_of_eq rfl⟩

/-- The range of a backfill is answered. -/
theorem keeps_rangeAnswered (h : Rest latest none s) (bars : List RawBar) :
    Keeps latest now s (s.rangeAnswered bars).1 := by
  unfold BarCloser.rangeAnswered
  split
  · rename_i hstage
    have hhold : s.holding = true := (h.stage hstage).resolve_left (by rintro ⟨⟩)
    split
    · exact ⟨h.endBackfill hhold, queues_of_eq rfl⟩
    · exact ⟨h.staged _ fun _ _ => .inr hhold, queues_of_eq rfl⟩
  · exact ⟨h, queues_of_eq rfl⟩

/-- A backfill no longer waits for the queue to drain. -/
theorem keeps_drained (h : Rest latest none s) : Keeps latest now s (s.drained setup).1 := by
  unfold BarCloser.drained
  split
  · rename_i hstage
    exact keeps_queueTail h ((h.stage hstage).resolve_left (by rintro ⟨⟩)) _
  · exact ⟨h, queues_of_eq rfl⟩

/-- A backfill fails. -/
theorem keeps_failBackfill (h : Rest latest none s) : Keeps latest now s s.failBackfill.1 := by
  unfold BarCloser.failBackfill
  split
  · rename_i hstage
    exact ⟨h.endBackfill ((h.stage hstage).resolve_left (by rintro ⟨⟩)), queues_of_eq rfl⟩
  · rename_i hstage
    exact ⟨h.endBackfill ((h.stage hstage).resolve_left (by rintro ⟨⟩)), queues_of_eq rfl⟩
  · exact ⟨h, queues_of_eq rfl⟩

/-- A turn of the backfill, the replay of the held update among them. -/
theorem keeps_runBackfill (h : Rest latest none s) (hopen : s.closed = false) :
    Keeps latest (s.returned .run) s (s.runBackfill setup).1 := by
  unfold BarCloser.runBackfill
  split
  · rename_i hstage
    have hhold : s.holding = true := (h.stage hstage).resolve_left (by rintro ⟨⟩)
    dsimp only
    split
    · exact keeps_queueTail h hhold _
    · exact ⟨h.staged _ fun _ _ => .inr hhold, queues_of_eq rfl⟩
  · rename_i hstage
    have hhold : s.holding = true := (h.stage hstage).resolve_left (by rintro ⟨⟩)
    exact ⟨h.staged _ fun _ _ => .inr hhold, queues_of_eq rfl⟩
  · rename_i start stop bar bars hstage
    have hhold : s.holding = true := (h.stage hstage).resolve_left (by rintro ⟨⟩)
    have hnext : Rest latest none (BarCloser.observe setup
        { s with backfilling := some (.queueing start stop bars), stack := .backfill :: s.stack }
        bar.boundarySecs) :=
      (h.staged (.backfill :: s.stack) fun _ _ => .inr hhold).same (fun p hp => ⟨p, hp, rfl⟩) rfl rfl
        rfl rfl rfl fun _ => id
    dsimp only
    split
    · refine Keeps.of_queue ⟨hnext.enqueue fun c hc => ?_, queues_enqueue fun _ => .inl ⟨rfl, ?_⟩⟩ rfl
      · have hc : s.current = some c := hc
        rw [h.holding hhold] at hc
        cases hc
      · simp only [BarCloser.returned, hstage, decide_true]
    · exact ⟨hnext, queues_of_eq rfl⟩
  · rename_i boundary boundaries hstage
    have hhold : s.holding = true := (h.stage hstage).resolve_left (by rintro ⟨⟩)
    have hnext : Rest latest none
        { s with backfilling := some (.tail boundaries), stack := .backfill :: s.stack } :=
      h.staged _ fun _ _ => .inr hhold
    refine Keeps.of_queue ⟨hnext.enqueue fun c hc => ?_, queues_enqueue fun _ => .inr ?_⟩ rfl
    · have hc : s.current = some c := hc
      rw [h.holding hhold] at hc
      cases hc
    · intro bar hbar
      cases hbar
  · rename_i hstage
    have hhold : s.holding = true := (h.stage hstage).resolve_left (by rintro ⟨⟩)
    have hreplaying : Rest latest none
        { s with
          holding := false
          baseline := true
          held := none
          backfilling := some .replaying
          stack := .backfill :: s.stack } :=
      { current := h.current
        held := fun hh => by cases hh
        apart := h.apart
        holding := fun hh => by cases hh
        baseline := fun _ => h.holding hhold
        stage := fun hs => by
          cases hs
          exact .inl rfl }
    dsimp only
    split
    · -- The update held last is the last one streamed of its boundary.
      rename_i held hheld
      have hskipped : Rest latest (some held.boundarySecs) _ :=
        { hreplaying with
          current := fun hc _ => hreplaying.current hc (by rintro ⟨⟩)
          held := fun hh hc _ => hreplaying.held hh hc (by rintro ⟨⟩) }
      have hlast : s.gone held.boundarySecs = true ∨ latest held.boundarySecs = some held :=
        h.held hhold hheld (by rintro ⟨⟩)
      exact (keeps_onUpdate hskipped hlast hopen).of_queue rfl
    · exact ⟨hreplaying, queues_of_eq rfl⟩
  · exact ⟨h.staged s.stack (fun _ hnone => by cases hnone), queues_of_eq rfl⟩
  · exact ⟨h, queues_of_eq rfl⟩

/-! ## Every step -/

/-- The frame on top runs. -/
theorem keeps_run (h : Rest latest none s) (hopen : s.closed = false) :
    Keeps latest (s.returned .run) s (s.run setup).1 := by
  have hoff (below : List Frame) : Rest latest none { s with stack := below } :=
    h.same (fun p hp => ⟨p, hp, rfl⟩) rfl rfl rfl rfl rfl fun _ => id
  unfold BarCloser.run
  split
  · exact ⟨h, queues_of_eq rfl⟩
  · exact ⟨h, queues_of_eq rfl⟩
  · split
    · exact (keeps_handOver (hoff _) _).of_queue rfl
    · rename_i hturn
      exact keeps_pop h (turn_pops hturn).2
  · split
    · exact (keeps_resolveNext (hoff _) _).of_queue rfl
    · rename_i hturn
      exact keeps_pop h (turn_pops hturn).2
  · rename_i below _
    have hkeeps : Keeps latest (s.returned .run) { s with stack := below }
        (BarCloser.runBackfill setup { s with stack := below }).1 :=
      keeps_runBackfill (hoff below) hopen
    exact ⟨hkeeps.rest, hkeeps.queues.of_eq rfl⟩

/-- The emit callback returns. -/
theorem keeps_returns (h : Rest latest none s) : Keeps latest now s s.returns := by
  unfold BarCloser.returns
  split
  · exact .same h rfl rfl rfl rfl rfl rfl fun _ => id
  · exact ⟨h, queues_of_eq rfl⟩

/-- Every step of an open closer but an update, a disconnect and a close. -/
theorem keeps_step (h : Rest latest none s) (hopen : s.closed = false) {action : Action}
    (hupdate : ∀ bar, action ≠ .onUpdate bar) (hdisconnect : action ≠ .onDisconnect)
    (hclose : action ≠ .close) :
    Keeps latest (s.returned action) s ((machine setup).step s action).1 := by
  have hsame : Keeps latest (s.returned action) s s := ⟨h, queues_of_eq rfl⟩
  have hguarded (guard : Bool) (next : BarCloser × List Record)
      (hnext : Keeps latest (s.returned action) s next.1) :
      Keeps latest (s.returned action) s (if guard then next else (s, [])).1 := by
    split
    · exact hnext
    · exact hsame
  cases action with
  | onUpdate bar => exact absurd rfl (hupdate bar)
  | onDisconnect => exact absurd rfl hdisconnect
  | close => exact absurd rfl hclose
  | tick now => exact .same h rfl rfl rfl rfl rfl rfl fun _ => id
  | returns => exact keeps_returns h
  | run => exact keeps_run h hopen
  | timer => exact hguarded _ _ (keeps_onTimer h)
  | startResolver => exact hguarded _ _ (keeps_startResolver h)
  | wakeResolver => exact hguarded _ _ (keeps_wakeResolver h)
  | historyAnswered result => exact hguarded _ _ (keeps_historyAnswered h result)
  | historyFailed => exact hguarded _ _ (keeps_historyFailed h)
  | historyUnreachable => exact hguarded _ _ (keeps_historyUnreachable h)
  | backfill => exact hguarded _ _ (keeps_backfill h)
  | rangeAnswered bars => exact hguarded _ _ (keeps_rangeAnswered h bars)
  | drained => exact hguarded _ _ (keeps_drained h)
  | failBackfill => exact hguarded _ _ (keeps_failBackfill h)

/-! ## Every run -/

/-- What is kept for a boundary that history owes is what was last streamed of it. -/
structure Faithful (w : Stream) : Prop where
  rest : Rest w.latest none w.closer
  fallback {p : Pending} : p ∈ w.closer.queue → w.owed p.boundary = true →
    ∀ bar, p.streamed = some bar → Shows w.latest p.boundary bar

/-- The fallbacks after a step that keeps what is last streamed. -/
theorem fallback_of_queues {owed : ℤ → Bool} {action : Action}
    (hfallback : ∀ p ∈ s.queue, owed p.boundary = true → ∀ bar, p.streamed = some bar →
      Shows latest p.boundary bar)
    (hqueues : Queues s s' (s.returned action) latest) {p' : Pending} (hmem : p' ∈ s'.queue)
    (howed : owedAfter s s' owed action p'.boundary = true) {bar : RawBar}
    (hbar : p'.streamed = some bar) : Shows latest p'.boundary bar := by
  rw [owedAfter] at howed
  rcases hqueues.entries hmem with ⟨p, hp, hboundary, hstate⟩ | ⟨hnew, hsingle, hwaits⟩
  · rw [if_pos (isSome_find_iff.mpr ⟨p, hp, hboundary⟩), Bool.and_eq_true, Bool.not_eq_true'] at howed
    rcases hstate with hsame | hnow | hshows
    · have hstreamed : p.streamed = some bar := hsame ▸ hbar
      exact hboundary ▸ hfallback p hp (hboundary.symm ▸ howed.1) bar hstreamed
    · rw [howed.2] at hnow
      cases hnow
    · exact hshows bar hbar
  · have hnone : ¬(s.find p'.boundary).isSome = true := by
      rw [isSome_find_iff]
      rintro ⟨p, hp, hboundary⟩
      exact hnew p hp hboundary
    rw [if_neg hnone, BarCloser.waitsFor, List.any_eq_true] at howed
    obtain ⟨q, hq, hneeds⟩ := howed
    rw [Bool.and_eq_true, decide_eq_true_eq] at hneeds
    have hsame := hsingle q hq hneeds.1
    exact hwaits (hsame ▸ hneeds.2) bar hbar

/-- Only a close closes. -/
theorem closed_step {action : Action} (hclose : action ≠ .close) :
    ((machine setup).step s action).1.closed = s.closed := by
  by_cases hunreachable : action = .historyUnreachable
  · subst hunreachable
    rcases unreachable_cases setup s with ⟨-, -, -, hstep⟩ | ⟨-, hstep⟩
    · rw [hstep]
      rfl
    · rw [hstep]
  · exact (attends_step hclose hunreachable).closed

/-- Nothing happens. -/
theorem Faithful.still {w : Stream} (h : Faithful w) (action : Action) :
    Faithful { w with owed := owedAfter w.closer w.closer w.owed action } where
  rest := h.rest
  fallback hmem howed _ hbar :=
    fallback_of_queues (fun _ hp => h.fallback hp) (queues_of_eq rfl) hmem howed hbar

/-- After a close nothing is owed. -/
theorem close_step (setup : Setup) (w : Stream) :
    ((stream setup).step w .close).1.closer.closed = true ∨
      ((stream setup).step w .close).1 =
        { w with owed := owedAfter w.closer w.closer w.owed .close } := by
  simp only [stream, machine, latestAfter]
  by_cases hcall : w.closer.mayCall = true
  · rw [if_pos hcall]
    exact .inl rfl
  · rw [if_neg hcall]
    exact .inr rfl

/-- A step of an open closer that takes its update keeps the fallbacks last streamed. -/
theorem faithful_step {w : Stream} (h : Faithful w) (hopen : w.closer.closed = false)
    {action : Action} (htaken : Taken w action) (hclose : action ≠ .close) :
    Faithful ((stream setup).step w action).1 := by
  have hstill := h.still action
  by_cases hupdate : ∃ bar, action = .onUpdate bar
  · obtain ⟨bar, rfl⟩ := hupdate
    simp only [stream, machine, latestAfter]
    by_cases hcall : w.closer.mayCall = true
    · rw [if_pos hcall, if_pos hcall]
      set latest := Function.update w.latest bar.boundarySecs (some bar) with hlatest
      have hother {boundary : ℤ} (hne : boundary ≠ bar.boundarySecs) :
          latest boundary = w.latest boundary := Function.update_of_ne hne _ _
      have hown : latest bar.boundarySecs = some bar := Function.update_self _ _ _
      have hskip {other : RawBar} (hne : some bar.boundarySecs ≠ some other.boundarySecs) :
          latest other.boundarySecs = w.latest other.boundarySecs :=
        hother fun heq => hne (congrArg some heq.symm)
      have hrest : Rest latest (some bar.boundarySecs) w.closer :=
        { h.rest with
          current := fun hc hne => by
            rw [hskip hne]
            exact h.rest.current hc (by rintro ⟨⟩)
          held := fun hhold hc hne => by
            rw [hskip hne]
            exact h.rest.held hhold hc (by rintro ⟨⟩) }
      have hkeeps : Keeps latest (w.closer.returned (.onUpdate bar)) w.closer
          (w.closer.onUpdate setup bar) := keeps_onUpdate hrest (.inr hown) hopen
      refine ⟨hkeeps.rest, fun hmem howed _ hstate =>
        fallback_of_queues (fun p hp howed fallback hfallback => ?_) hkeeps.queues hmem howed hstate⟩
      by_cases hboundary : p.boundary = bar.boundarySecs
      · rw [htaken hcall p hp hboundary howed fallback hfallback, hboundary]
        exact .inr hown
      · unfold Shows
        rw [hother hboundary]
        exact h.fallback hp howed fallback hfallback
    · rw [if_neg hcall, if_neg hcall]
      exact hstill
  by_cases hdisconnect : action = .onDisconnect
  · subst hdisconnect
    simp only [stream, machine, latestAfter]
    by_cases hcall : w.closer.mayCall = true
    · rw [if_pos hcall, if_pos hcall]
      exact ⟨rest_onDisconnect h.rest hopen, fun _ _ _ _ => .inl rfl⟩
    · rw [if_neg hcall, if_neg hcall]
      exact hstill
  have hlatest : latestAfter w.closer w.latest action = w.latest := by
    cases action with
    | onUpdate bar => exact absurd ⟨bar, rfl⟩ hupdate
    | onDisconnect => exact absurd rfl hdisconnect
    | _ => rfl
  have hkeeps : Keeps w.latest (w.closer.returned action) w.closer
      ((machine setup).step w.closer action).1 :=
    keeps_step h.rest hopen (fun bar heq => hupdate ⟨bar, heq⟩) hdisconnect hclose
  simp only [stream, hlatest]
  exact ⟨hkeeps.rest, fun hmem howed _ hbar =>
    fallback_of_queues (fun _ hp => h.fallback hp) hkeeps.queues hmem howed hbar⟩

/-- What is told beside emissions. -/
theorem told_runBackfill {boundary : ℤ} {bar : RawBar} {at_ : ℚ} :
    .emitted boundary bar at_ ∉ (s.runBackfill setup).2 := by
  unfold BarCloser.runBackfill BarCloser.queueTail
  split
  · dsimp only
    split
    · split
      · simp
      · simp
    · simp
  · simp
  · dsimp only
    split <;> simp
  · simp
  · dsimp only
    split <;> simp
  · simp
  · simp

/-- What draining emits is the front's streamed state. -/
theorem emitted_pop {front : Pending} {rest : List Pending} {boundary : ℤ} {bar : RawBar} {at_ : ℚ}
    (h : .emitted boundary bar at_ ∈ (s.pop front rest).2) :
    front.boundary = boundary ∧ front.streamed = some bar := by
  unfold BarCloser.pop at h
  split at h
  · cases h
  · rename_i streamed hstreamed
    unfold BarCloser.emit at h
    split at h
    · cases h
    · cases List.mem_singleton.mp h
      exact ⟨rfl, hstreamed⟩

/-- What is emitted is the state of the queue's front. -/
theorem emitted_front {action : Action} {boundary : ℤ} {bar : RawBar} {at_ : ℚ}
    (h : .emitted boundary bar at_ ∈ ((machine setup).step s action).2) :
    s.closed = false ∧ ∃ p ∈ s.queue, p.boundary = boundary ∧ p.streamed = some bar := by
  -- an action that does not apply emits nothing
  have hguarded {guard : Bool} {next : BarCloser × List Record}
      (hnext : .emitted boundary bar at_ ∉ next.2)
      (hmem : .emitted boundary bar at_ ∈ (if guard then next else (s, [])).2) : False := by
    split at hmem
    · exact hnext hmem
    · cases hmem
  -- only a turn of the pump or the resolver that pops emits
  have hpopped {front : Pending} {rest : List Pending} (hturn : s.turn = .pops front rest)
      (hmem : .emitted boundary bar at_ ∈ (s.pop front rest).2) :
      s.closed = false ∧ ∃ p ∈ s.queue, p.boundary = boundary ∧ p.streamed = some bar := by
    obtain ⟨hopen, hqueue⟩ := turn_pops hturn
    exact ⟨hopen, front, hqueue ▸ List.mem_cons_self, emitted_pop hmem⟩
  cases action with
  | run =>
    have h : .emitted boundary bar at_ ∈ (s.run setup).2 := h
    unfold BarCloser.run at h
    split at h
    · cases h
    · cases h
    · split at h
      · cases h
      · rename_i hturn
        exact hpopped hturn h
    · split at h
      · cases h
      · rename_i hturn
        exact hpopped hturn h
    · exact absurd h told_runBackfill
  | tick now => cases h
  | returns => cases h
  | onUpdate update => exact (hguarded (by simp) h).elim
  | onDisconnect => exact (hguarded (by simp) h).elim
  | close => exact (hguarded (by simp) h).elim
  | timer => exact (hguarded (by simp) h).elim
  | startResolver => exact (hguarded (by simp) h).elim
  | wakeResolver => exact (hguarded (by simp) h).elim
  | historyFailed => exact (hguarded (by simp) h).elim
  | historyUnreachable => exact (hguarded (by simp) h).elim
  | backfill => exact (hguarded (by simp) h).elim
  | historyAnswered result =>
    refine (hguarded ?_ h).elim
    unfold BarCloser.historyAnswered
    split
    · dsimp only
      split <;> simp
    · simp
    · simp
  | rangeAnswered bars =>
    refine (hguarded ?_ h).elim
    unfold BarCloser.rangeAnswered
    split
    · split <;> simp
    · simp
  | drained =>
    refine (hguarded ?_ h).elim
    unfold BarCloser.drained BarCloser.queueTail
    split
    · split <;> simp
    · simp
  | failBackfill =>
    refine (hguarded ?_ h).elim
    unfold BarCloser.failBackfill
    split <;> simp

/-- A new closer owes nothing. -/
theorem faithful_new (setup : Setup) (clock : ℚ) : Faithful { closer := .new setup clock } where
  rest :=
    { current := fun hc => by cases hc
      held := fun _ hc => by cases hc
      apart := fun hc => by cases hc
      holding := fun hh => by cases hh
      baseline := fun _ => rfl
      stage := fun hs => by cases hs }
  fallback hmem := by cases hmem

/-- In every run in which no update comes for a boundary that waits for history and has another
fallback, the bar that is emitted for a boundary whose bar history did not return, once it waited for
it, is the last one streamed of that boundary, if one was since the last disconnect. -/
theorem fallback_last_streamed (setup : Setup) (clock : ℚ) (before : List Action) (action : Action)
    (htaken : (stream setup).Always Taken { closer := .new setup clock } before)
    {boundary : ℤ} {bar last : RawBar} {now : ℚ} :
    let w := (stream setup).after { closer := .new setup clock } before
    .emitted boundary bar now ∈ ((stream setup).step w action).2 → w.owed boundary = true →
      w.latest boundary = some last → bar = last := by
  intro w hemitted howed hlast
  obtain ⟨hopen, p, hp, rfl, hstreamed⟩ := emitted_front hemitted
  have hfaithful : w.closer.closed = true ∨ Faithful w := by
    refine Machine.after_invariant_of_always
      (I := fun w => w.closer.closed = true ∨ Faithful w) ?_ (.inr (faithful_new setup clock)) htaken
    intro w action h htaken
    by_cases hclose : action = .close
    · subst hclose
      rcases close_step setup w with hclosed | hstep
      · exact .inl hclosed
      · rw [hstep]
        exact h.imp_right fun h => h.still .close
    by_cases hclosed : w.closer.closed = true
    · exact .inl ((closed_step hclose).trans hclosed)
    · exact .inr (faithful_step (h.resolve_left hclosed) (Bool.not_eq_true _ ▸ hclosed) htaken hclose)
  have hshows := (hfaithful.resolve_left (by rw [hopen]; exact Bool.false_ne_true)).fallback hp howed
    bar hstreamed
  rcases hshows with hnone | hsome
  · rw [hnone] at hlast
    cases hlast
  · rw [hsome] at hlast
    exact Option.some.inj hlast

/-! ## A late update -/

/-- The minute from 0 with its last price. -/
def closingAt (deltaClose : ℤ) : RawBar := ⟨0, 100, 0, 20, deltaClose, 5⟩

/-- The bar is queued by its timer, and history is asked for it. -/
def queuedByTimer : List Action :=
  [.onUpdate (closingAt 10), .tick 61, .timer, .run, .startResolver, .run]

/-- History does not have the bar, as often as it is asked. -/
def historyEmpty : List Action :=
  [.historyAnswered none, .tick 62, .wakeResolver, .historyAnswered none, .tick 63, .wakeResolver,
    .historyAnswered none]

/-- The bar's only price is emitted. -/
theorem fallback_of_one_update :
    .emitted 0 (closingAt 10) 63 ∈ ((stream oneMinute).step ((stream oneMinute).after
      { closer := .new oneMinute 0 } (queuedByTimer ++ historyEmpty)) .run).2 ∧
    ∀ last, ((stream oneMinute).after { closer := .new oneMinute 0 }
      (queuedByTimer ++ historyEmpty)).latest 0 = some last → closingAt 10 = last := by
  have hemitted : .emitted 0 (closingAt 10) 63 ∈ ((stream oneMinute).step ((stream oneMinute).after
      { closer := .new oneMinute 0 } (queuedByTimer ++ historyEmpty)) .run).2 := by decide +kernel
  refine ⟨hemitted, fun last hlast => ?_⟩
  refine fallback_last_streamed oneMinute 0 (queuedByTimer ++ historyEmpty) .run ?_ hemitted
    (by decide +kernel) hlast
  refine ⟨fun _ p hp => ?_, ?_⟩
  · cases hp
  · exact ⟨trivial, trivial, trivial, trivial, trivial, trivial, trivial, trivial, trivial, trivial,
      trivial, trivial, trivial⟩

/-- What a later price leaves that comes while history is asked. -/
def afterLateUpdate : Stream :=
  (stream oneMinute).after { closer := .new oneMinute 0 }
    (queuedByTimer ++ .onUpdate (closingAt 15) :: historyEmpty)

/-- The earlier price is emitted. -/
theorem late_update_dropped :
    .emitted 0 (closingAt 10) 63 ∈ ((stream oneMinute).step afterLateUpdate .run).2 ∧
      afterLateUpdate.owed 0 = true ∧ afterLateUpdate.latest 0 = some (closingAt 15) ∧
      closingAt 10 ≠ closingAt 15 := by
  decide +kernel

end Bars

end NautilusCtrader
