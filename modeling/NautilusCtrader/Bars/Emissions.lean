import NautilusCtrader.Bars.BarCloser
import Mathlib.Data.List.InsertIdx
import Mathlib.Tactic.Linarith

/-!
# What a bar closer emits

Over every run the boundaries of the emitted bars ascend, and each bar is emitted for the boundary it
is of. The queue ascends above everything emitted (`emissions_lawful`). Where the clock goes forward,
an emitted bar's period is over or a newer boundary was on the stream. `Invariant` is what the closer keeps between any two turns of its code,
so that it does not matter who pushes to the queue or drains it in between.
-/

namespace NautilusCtrader

open Common

namespace Bars

variable {setup : Setup} {floor : ℤ} {forward : Prop} {records : List Record} {s : BarCloser}

/-! ## The law -/

/-- The boundaries of the emitted bars, in order. -/
def emittedBoundaries (records : List Record) : List ℤ :=
  records.filterMap fun
    | .emitted boundary _ _ => some boundary
    | _ => none

/-- `bar` is a streamed or a history bar. -/
def Seen (records : List Record) (bar : RawBar) : Prop :=
  .streamed bar ∈ records ∨ .served bar ∈ records

/-- The period of `boundary` is over at `now`, or an update of a newer boundary was streamed. -/
def HasClosed (setup : Setup) (records : List Record) (now : ℚ) (boundary : ℤ) : Prop :=
  (boundary + setup.period : ℤ) ≤ now ∨
    ∃ newer, .streamed newer ∈ records ∧ boundary < newer.boundarySecs

/-- After `before`, `bar` may be emitted for `boundary`. -/
structure SoundEmission (floor : ℤ) (before : List Record) (boundary : ℤ) (bar : RawBar) : Prop where
  atFloor : floor ≤ boundary
  own : bar.boundarySecs = boundary
  seen : Seen before bar
  notClosed : .closed ∉ before

/-- The emission law, for what a closer told and the queue it is left with. -/
structure Lawful (floor : ℤ) (records : List Record) (queue : List Pending) : Prop where
  ascending : (emittedBoundaries records).Pairwise (· < ·)
  sound : ∀ before boundary bar now rest, records = before ++ .emitted boundary bar now :: rest →
    SoundEmission floor before boundary bar
  queueAscending : (queue.map (·.boundary)).Pairwise (· < ·)
  queueAbove : ∀ emitted ∈ emittedBoundaries records, ∀ p ∈ queue, emitted < p.boundary

/-- No bar was emitted before it had closed, by the clock or on the stream. -/
def Timely (setup : Setup) (records : List Record) : Prop :=
  ∀ before boundary bar now rest, records = before ++ .emitted boundary bar now :: rest →
    HasClosed setup before now boundary

/-- The clock does not go back, and its timer does not run before it is due. -/
def Forward (s : BarCloser) : Action → Prop
  | .tick now => s.clock ≤ now
  | .timer => ∀ armed ∈ s.timer, armed.2 ≤ s.clock
  | _ => True

instance (s : BarCloser) : DecidablePred (Forward s)
  | .tick now => inferInstanceAs (Decidable (s.clock ≤ now))
  | .timer => inferInstanceAs (Decidable (∀ armed ∈ s.timer, armed.2 ≤ s.clock))
  | .onUpdate _ | .onDisconnect | .close | .returns | .run | .startResolver | .wakeResolver
  | .historyAnswered _ | .historyFailed | .historyUnreachable | .backfill | .rangeAnswered _
  | .drained | .failBackfill => .isTrue trivial

/-! ## The queue -/

/-- An entry that is inserted joins those there are. -/
theorem mem_insertPending {queue : List Pending} {p q : Pending} :
    q ∈ BarCloser.insertPending queue p ↔ q = p ∨ q ∈ queue := by
  unfold BarCloser.insertPending
  exact List.mem_insertIdx (List.countP_le_length)

/-- An entry is inserted behind an earlier boundary. -/
theorem insertPending_cons_of_lt {queue : List Pending} {p q : Pending}
    (h : q.boundary < p.boundary) :
    BarCloser.insertPending (q :: queue) p = q :: BarCloser.insertPending queue p := by
  unfold BarCloser.insertPending
  rw [List.countP_cons_of_pos (by simpa using h), List.insertIdx_succ_cons]

/-- An entry is inserted before those that are not earlier. -/
theorem insertPending_of_forall_le {queue : List Pending} {p : Pending}
    (h : ∀ q ∈ queue, p.boundary ≤ q.boundary) :
    BarCloser.insertPending queue p = p :: queue := by
  unfold BarCloser.insertPending
  have hnone : queue.countP (fun q => decide (q.boundary < p.boundary)) = 0 := by
    rw [List.countP_eq_zero]
    intro q hq
    simpa using h q hq
  rw [hnone, List.insertIdx_zero]

/-- A new boundary takes its place in an ascending queue. -/
theorem insertPending_ascending {queue : List Pending} {p : Pending}
    (hasc : (queue.map (·.boundary)).Pairwise (· < ·)) (hnew : ∀ q ∈ queue, q.boundary ≠ p.boundary) :
    ((BarCloser.insertPending queue p).map (·.boundary)).Pairwise (· < ·) := by
  induction queue with
  | nil => exact List.pairwise_singleton _ _
  | cons q queue ih =>
    obtain ⟨hbelow, hasc'⟩ := List.pairwise_cons.mp hasc
    rcases lt_or_ge q.boundary p.boundary with hlt | hge
    · rw [insertPending_cons_of_lt hlt, List.map_cons, List.pairwise_cons]
      refine ⟨?_, ih hasc' fun r hr => hnew r (List.mem_cons_of_mem _ hr)⟩
      intro boundary hboundary
      obtain ⟨r, hr, rfl⟩ := List.mem_map.mp hboundary
      rcases mem_insertPending.mp hr with rfl | hr
      · exact hlt
      · exact hbelow _ (List.mem_map_of_mem hr)
    · have hall : ∀ r ∈ q :: queue, p.boundary < r.boundary := by
        intro r hr
        have hq : p.boundary < q.boundary :=
          lt_of_le_of_ne hge (hnew q List.mem_cons_self).symm
        rcases List.mem_cons.mp hr with rfl | hr
        · exact hq
        · exact hq.trans (hbelow _ (List.mem_map_of_mem hr))
      rw [insertPending_of_forall_le fun r hr => (hall r hr).le, List.map_cons, List.pairwise_cons]
      refine ⟨?_, hasc⟩
      intro boundary hboundary
      obtain ⟨r, hr, rfl⟩ := List.mem_map.mp hboundary
      exact hall r hr

/-- No entry is found just if none has the boundary. -/
theorem find_eq_none {boundary : ℤ} :
    s.find boundary = none ↔ ∀ p ∈ s.queue, p.boundary ≠ boundary := by
  unfold BarCloser.find
  rw [List.find?_eq_none]
  simp

/-- An entry is found just if one has the boundary. -/
theorem isSome_find_iff {boundary : ℤ} :
    (s.find boundary).isSome = true ↔ ∃ p ∈ s.queue, p.boundary = boundary := by
  rw [BarCloser.find, List.find?_isSome]
  exact exists_congr fun p => and_congr_right fun _ => decide_eq_true_iff

/-- An entry that is found is queued, with the boundary. -/
theorem find_eq_some {boundary : ℤ} {p : Pending} (h : s.find boundary = some p) :
    p ∈ s.queue ∧ p.boundary = boundary :=
  ⟨List.mem_of_find?_eq_some h, by simpa using List.find?_some h⟩

/-- Changes to the entry of one boundary that keep its boundary leave the boundaries. -/
theorem map_boundary_update {queue : List Pending} {boundary : ℤ} {f : Pending → Pending}
    (hf : ∀ p, (f p).boundary = p.boundary) :
    (queue.map fun p => if p.boundary = boundary then f p else p).map (·.boundary) =
      queue.map (·.boundary) := by
  rw [List.map_map]
  refine List.map_congr_left fun p _ => ?_
  show (if p.boundary = boundary then f p else p).boundary = p.boundary
  split
  · exact hf p
  · rfl

/-- A streamed state does not move an entry. -/
theorem Pending.attach_boundary (p : Pending) (streamed : Option RawBar) :
    (p.attach streamed).boundary = p.boundary := by
  unfold Pending.attach
  split <;> rfl

/-- An attached entry carries its own state or the new one. -/
theorem Pending.attach_streamed (p : Pending) (streamed : Option RawBar) :
    (p.attach streamed).streamed = p.streamed ∨ (p.attach streamed).streamed = streamed := by
  unfold Pending.attach
  split
  · exact .inr rfl
  · exact .inl rfl

/-! ## The clock -/

/-- The boundary a time is in begins no later. -/
theorem floorBoundary_le (setup : Setup) (s : BarCloser) (t : ℚ) :
    (s.floorBoundary setup t : ℚ) ≤ t := by
  have hfloor : s.floorBoundary setup t ≤ ⌊t⌋ := by
    unfold BarCloser.floorBoundary
    have := Int.ediv_mul_le (⌊t⌋ - s.phase.getD 0) (ne_of_gt setup.period_pos)
    omega
  exact (Int.cast_le.mpr hfloor).trans (Int.floor_le t)

/-- The period of the last closed boundary is over. -/
theorem lastClosedBoundary_over (setup : Setup) (s : BarCloser) :
    ((s.lastClosedBoundary setup + setup.period : ℤ) : ℚ) ≤ s.clock := by
  unfold BarCloser.lastClosedBoundary
  rw [Int.sub_add_cancel]
  exact floorBoundary_le setup s s.clock

/-- The tail ends with the last closed boundary. -/
theorem mem_tailBoundaries {stop boundary : ℤ} (h : boundary ∈ s.tailBoundaries setup stop) :
    boundary ≤ s.lastClosedBoundary setup := by
  unfold BarCloser.tailBoundaries at h
  split at h
  · cases h
  · dsimp only at h
    obtain ⟨i, hi, rfl⟩ := List.mem_map.mp h
    rw [List.mem_range] at hi
    have hpos := setup.period_pos
    have hle := min_le_right (s.floorBoundary setup stop) (s.lastClosedBoundary setup)
    generalize min (s.floorBoundary setup stop) (s.lastClosedBoundary setup) = first at *
    generalize s.lastClosedBoundary setup = newest at *
    have hnonneg : 0 ≤ (newest - first) / setup.period :=
      Int.ediv_nonneg (by omega) hpos.le
    have hile : (i : ℤ) ≤ (newest - first) / setup.period := by omega
    have hmul : (i : ℤ) * setup.period ≤ (newest - first) / setup.period * setup.period :=
      Int.mul_le_mul_of_nonneg_right hile hpos.le
    have hdiv := Int.ediv_mul_le (newest - first) (ne_of_gt hpos)
    omega

/-! ## The invariant -/

/-- What a stage of a backfill carries: bars that history served, and, while the clock goes forward,
boundaries whose periods are over. -/
def StageSound (setup : Setup) (forward : Prop) (records : List Record) (now : ℚ) : Backfill → Prop
  | .fetching _ stop => forward → (stop + setup.period : ℤ) ≤ now
  | .queueing _ stop bars =>
    (forward → (stop + setup.period : ℤ) ≤ now) ∧ ∀ bar ∈ bars, Record.served bar ∈ records
  | .tail boundaries => forward → ∀ boundary ∈ boundaries, (boundary + setup.period : ℤ) ≤ now
  | .pumping | .draining _ | .replaying => True

/-- What a queued entry carries. -/
structure SoundPending (setup : Setup) (floor : ℤ) (forward : Prop) (records : List Record) (now : ℚ)
    (p : Pending) : Prop where
  atFloor : floor ≤ p.boundary
  hasClosed : forward → HasClosed setup records now p.boundary
  streamed : ∀ bar, p.streamed = some bar → bar.boundarySecs = p.boundary ∧ Seen records bar

/-- What a closer keeps between any two turns of its code, with what it told so far; `forward` says
whether the clock has only gone forward. -/
structure Invariant (setup : Setup) (floor : ℤ) (forward : Prop) (records : List Record)
    (s : BarCloser) : Prop where
  floor_eq : s.floor = floor
  ascending : (emittedBoundaries records).Pairwise (· < ·)
  sound : ∀ before boundary bar now rest, records = before ++ .emitted boundary bar now :: rest →
    SoundEmission floor before boundary bar
  timely : forward → Timely setup records
  last : ∀ emitted ∈ emittedBoundaries records, ∃ l, s.lastEmitted = some l ∧ emitted ≤ l
  queueAscending : (s.queue.map (·.boundary)).Pairwise (· < ·)
  queueAbove : ∀ p ∈ s.queue, ∀ l, s.lastEmitted = some l → l < p.boundary
  queueSound : ∀ p ∈ s.queue, SoundPending setup floor forward records s.clock p
  current : ∀ bar, s.current = some bar → Record.streamed bar ∈ records
  held : ∀ bar, s.held = some bar → Record.streamed bar ∈ records
  timer : ∀ boundary due, s.timer = some (boundary, due) → (boundary + setup.period : ℤ) ≤ due
  backfilling : ∀ stage, s.backfilling = some stage → StageSound setup forward records s.clock stage
  notClosed : s.closed = false → .closed ∉ records
  emptied : s.closed = true → s.queue = []

/-- The emission law is part of the invariant. -/
theorem Invariant.lawful (h : Invariant setup floor forward records s) :
    Lawful floor records s.queue where
  ascending := h.ascending
  sound := h.sound
  queueAscending := h.queueAscending
  queueAbove := by
    intro emitted hemitted p hp
    obtain ⟨l, hl, hle⟩ := h.last emitted hemitted
    exact lt_of_le_of_lt hle (h.queueAbove p hp l hl)

/-! ## Telling more -/

/-- A record that is neither an emission nor a close. -/
def Record.Quiet : Record → Prop
  | .emitted _ _ _ | .closed => False
  | .streamed _ | .served _ | .backfilled | .backfillFailed => True

/-- What is emitted one after the other. -/
theorem emittedBoundaries_append (records more : List Record) :
    emittedBoundaries (records ++ more) = emittedBoundaries records ++ emittedBoundaries more :=
  List.filterMap_append

/-- Quiet records emit nothing. -/
theorem emittedBoundaries_quiet {more : List Record} (h : ∀ r ∈ more, r.Quiet) :
    emittedBoundaries more = [] := by
  unfold emittedBoundaries
  rw [List.filterMap_eq_nil_iff]
  intro r hr
  have hquiet := h r hr
  cases r <;> first | rfl | exact hquiet.elim

/-- A bar that was seen stays seen. -/
theorem Seen.append {bar : RawBar} (h : Seen records bar) (more : List Record) :
    Seen (records ++ more) bar := by
  rcases h with h | h
  · exact .inl (List.mem_append_left _ h)
  · exact .inr (List.mem_append_left _ h)

/-- A boundary that has closed stays closed. -/
theorem HasClosed.mono {boundary : ℤ} {now later : ℚ} (h : HasClosed setup records now boundary)
    (more : List Record) (hlater : now ≤ later) :
    HasClosed setup (records ++ more) later boundary := by
  rcases h with h | ⟨newer, hnewer, hlt⟩
  · exact .inl (h.trans hlater)
  · exact .inr ⟨newer, List.mem_append_left _ hnewer, hlt⟩

/-- A stage of the backfill stays sound as the clock goes forward. -/
theorem StageSound.mono {stage : Backfill} {now later : ℚ}
    (h : StageSound setup forward records now stage) (more : List Record)
    (hlater : forward → now ≤ later) : StageSound setup forward (records ++ more) later stage := by
  cases stage with
  | fetching start stop => exact fun hforward => le_trans (h hforward) (hlater hforward)
  | queueing start stop bars =>
    exact ⟨fun hforward => (h.1 hforward).trans (hlater hforward),
      fun bar hbar => List.mem_append_left _ (h.2 bar hbar)⟩
  | tail boundaries =>
    exact fun hforward boundary hboundary => (h hforward boundary hboundary).trans (hlater hforward)
  | pumping => trivial
  | draining stop => trivial
  | replaying => trivial

/-- An entry stays sound as the clock goes forward. -/
theorem SoundPending.mono {p : Pending} {now later : ℚ}
    (h : SoundPending setup floor forward records now p) (more : List Record)
    (hlater : forward → now ≤ later) : SoundPending setup floor forward (records ++ more) later p where
  atFloor := h.atFloor
  hasClosed hforward := (h.hasClosed hforward).mono more (hlater hforward)
  streamed := fun bar hbar =>
    ⟨(h.streamed bar hbar).1, (h.streamed bar hbar).2.append more⟩

/-- The law holds on over records that are quiet. -/
theorem Invariant.tell (h : Invariant setup floor forward records s) {more : List Record}
    (hquiet : ∀ r ∈ more, r.Quiet) : Invariant setup floor forward (records ++ more) s where
  floor_eq := h.floor_eq
  ascending := by
    rw [emittedBoundaries_append, emittedBoundaries_quiet hquiet, List.append_nil]
    exact h.ascending
  sound := by
    intro before boundary bar now rest hsplit
    rcases Machine.append_split hsplit with ⟨earlier, -, hrecords⟩ | ⟨earlier, -, hmore⟩
    · exact h.sound before boundary bar now earlier hrecords
    · have hmem : Record.emitted boundary bar now ∈ more := by rw [hmore]; simp
      exact (hquiet _ hmem).elim
  timely := by
    intro hforward before boundary bar now rest hsplit
    rcases Machine.append_split hsplit with ⟨earlier, -, hrecords⟩ | ⟨earlier, -, hmore⟩
    · exact h.timely hforward before boundary bar now earlier hrecords
    · have hmem : Record.emitted boundary bar now ∈ more := by rw [hmore]; simp
      exact (hquiet _ hmem).elim
  last := by
    rw [emittedBoundaries_append, emittedBoundaries_quiet hquiet, List.append_nil]
    exact h.last
  queueAscending := h.queueAscending
  queueAbove := h.queueAbove
  queueSound := fun p hp => (h.queueSound p hp).mono more fun _ => le_rfl
  current := fun bar hbar => List.mem_append_left _ (h.current bar hbar)
  held := fun bar hbar => List.mem_append_left _ (h.held bar hbar)
  timer := h.timer
  backfilling := fun stage hstage => (h.backfilling stage hstage).mono more fun _ => le_rfl
  notClosed := by
    intro hopen hmem
    rcases List.mem_append.mp hmem with hmem | hmem
    · exact h.notClosed hopen hmem
    · exact hquiet _ hmem
  emptied := h.emptied

/-! ## Queueing -/

/-- `_pump` puts its frame on the stack. -/
theorem Invariant.pump (h : Invariant setup floor forward records s) :
    Invariant setup floor forward records s.pump := by
  unfold BarCloser.pump
  split
  · exact h
  · exact { h with }

/-- Entries are changed in place, with bars of their own boundaries. -/
theorem Invariant.update (h : Invariant setup floor forward records s) {boundary : ℤ}
    {f : Pending → Pending} (hboundary : ∀ p, (f p).boundary = p.boundary)
    (hstreamed : ∀ p ∈ s.queue, p.boundary = boundary → ∀ bar, (f p).streamed = some bar →
      bar.boundarySecs = boundary ∧ Seen records bar) :
    Invariant setup floor forward records
      { s with queue := s.queue.map fun p => if p.boundary = boundary then f p else p } :=
  { h with
    queueAscending := by
      show (List.map _ (List.map _ _)).Pairwise _
      rw [map_boundary_update hboundary]
      exact h.queueAscending
    queueAbove := by
      intro q hq l hl
      obtain ⟨p, hp, rfl⟩ := List.mem_map.mp hq
      have habove := h.queueAbove p hp l hl
      split
      · rw [hboundary]
        exact habove
      · exact habove
    queueSound := by
      intro q hq
      obtain ⟨p, hp, rfl⟩ := List.mem_map.mp hq
      have hsound := h.queueSound p hp
      dsimp only
      split
      · rename_i hown
        refine ⟨?_, ?_, ?_⟩
        · rw [hboundary]
          exact hsound.atFloor
        · rw [hboundary]
          exact hsound.hasClosed
        · intro bar hbar
          rw [hboundary, hown]
          exact hstreamed p hp hown bar hbar
      · exact hsound
    emptied := by
      intro hclosed
      show List.map _ _ = []
      rw [h.emptied hclosed, List.map_nil] }

/-- A boundary is not covered just if it is above what was emitted last. -/
theorem isCovered_eq_false {boundary : ℤ} :
    s.isCovered boundary = false ↔ ∀ l, s.lastEmitted = some l → l < boundary := by
  unfold BarCloser.isCovered
  split
  · rename_i last hlast
    rw [decide_eq_false_iff_not, not_le]
    constructor
    · intro hlt l hl
      rw [hlast] at hl
      exact (Option.some.inj hl) ▸ hlt
    · intro hall
      exact hall last hlast
  · rename_i hnone
    simp [hnone]

/-- A boundary that has closed may be queued, with a bar of its own. -/
theorem Invariant.enqueue (h : Invariant setup floor forward records s) {boundary : ℤ}
    {streamed : Option RawBar} (needsHistory : Bool)
    (hclosed : forward → HasClosed setup records s.clock boundary)
    (hstreamed : ∀ bar, streamed = some bar → bar.boundarySecs = boundary ∧ Seen records bar) :
    Invariant setup floor forward records (s.enqueue boundary streamed needsHistory) := by
  unfold BarCloser.enqueue
  split
  · exact h
  · rename_i hguard
    simp only [Bool.or_eq_true, decide_eq_true_eq, not_or, Bool.not_eq_true, not_lt] at hguard
    obtain ⟨⟨hopen, hfloor⟩, hcovered⟩ := hguard
    split
    · refine h.update (fun p => p.attach_boundary streamed) ?_
      intro p hp hown bar hbar
      rcases p.attach_streamed streamed with heq | heq
      · rw [heq] at hbar
        have hsound := (h.queueSound p hp).streamed bar hbar
        exact ⟨hsound.1.trans hown, hsound.2⟩
      · exact hstreamed bar (heq ▸ hbar)
    · rename_i hfind
      refine Invariant.pump
        { h with
          queueAscending := insertPending_ascending h.queueAscending (find_eq_none.mp hfind)
          queueAbove := ?_
          queueSound := ?_
          emptied := ?_ }
      · intro q hq l hl
        rcases mem_insertPending.mp hq with rfl | hq
        · exact isCovered_eq_false.mp hcovered l hl
        · exact h.queueAbove q hq l hl
      · intro q hq
        rcases mem_insertPending.mp hq with rfl | hq
        · exact ⟨h.floor_eq ▸ hfloor, hclosed, hstreamed⟩
        · exact h.queueSound q hq
      · intro hclosed'
        exact absurd hclosed' (by simp [hopen])

/-! ## Draining -/

/-- A turn that pops the front pops it from an open closer. -/
theorem turn_pops {front : Pending} {rest : List Pending} (h : s.turn = .pops front rest) :
    s.closed = false ∧ s.queue = front :: rest := by
  unfold BarCloser.turn at h
  split at h
  · rename_i hopen hqueue
    split at h
    · cases h
    · cases h
      exact ⟨hopen, hqueue⟩
  · cases h

/-- The front is popped: it is sound, and above everything emitted. -/
theorem Invariant.pop (h : Invariant setup floor forward records s) {front : Pending}
    {rest : List Pending} (hturn : s.turn = .pops front rest) :
    Invariant setup floor forward (records ++ (s.pop front rest).2) (s.pop front rest).1 := by
  obtain ⟨hopen, hqueue⟩ := turn_pops hturn
  have hfront : front ∈ s.queue := by rw [hqueue]; exact List.mem_cons_self
  have hsub : ∀ p ∈ rest, p ∈ s.queue := by
    intro p hp
    rw [hqueue]
    exact List.mem_cons_of_mem _ hp
  have hasc := h.queueAscending
  rw [hqueue, List.map_cons, List.pairwise_cons] at hasc
  have hrest : Invariant setup floor forward records { s with queue := rest } :=
    { h with
      queueAscending := hasc.2
      queueAbove := fun p hp => h.queueAbove p (hsub p hp)
      queueSound := fun p hp => h.queueSound p (hsub p hp)
      emptied := fun hclosed => absurd hclosed (by simp [hopen]) }
  unfold BarCloser.pop
  cases hbar : front.streamed with
  | none =>
    rw [List.append_nil]
    exact hrest
  | some bar =>
    -- the front has a state, which is emitted unless it is covered
    obtain ⟨hown, hseen⟩ := (h.queueSound front hfront).streamed bar hbar
    show Invariant setup floor forward (_ ++ (BarCloser.emit _ _ _).2) (BarCloser.emit _ _ _).1
    unfold BarCloser.emit
    split
    · rw [List.append_nil]
      exact hrest
    · have htold : emittedBoundaries [Record.emitted front.boundary bar s.clock] =
          [front.boundary] := rfl
      -- the queue is above everything emitted
      have hnew : ∀ emitted ∈ emittedBoundaries records, emitted < front.boundary := by
        intro emitted hemitted
        obtain ⟨l, hl, hle⟩ := h.last emitted hemitted
        exact lt_of_le_of_lt hle (h.queueAbove front hfront l hl)
      refine
        { floor_eq := h.floor_eq
          ascending := ?_
          sound := ?_
          timely := ?_
          last := ?_
          queueAscending := hasc.2
          queueAbove := ?_
          queueSound := fun p hp => (h.queueSound p (hsub p hp)).mono _ fun _ => le_rfl
          current := fun bar hbar => List.mem_append_left _ (h.current bar hbar)
          held := fun bar hbar => List.mem_append_left _ (h.held bar hbar)
          timer := h.timer
          backfilling := fun stage hstage => (h.backfilling stage hstage).mono _ fun _ => le_rfl
          notClosed := ?_
          emptied := fun hclosed => absurd hclosed (by simp [hopen]) }
      · rw [emittedBoundaries_append, htold, List.pairwise_append]
        refine ⟨h.ascending, List.pairwise_singleton _ _, ?_⟩
        intro emitted hemitted boundary hboundary
        rw [List.mem_singleton.mp hboundary]
        exact hnew emitted hemitted
      · intro before boundary bar' now rest' hsplit
        -- an earlier emission, or the one of this turn
        rcases Machine.concat_split hsplit with ⟨earlier, -, hrecords⟩ | ⟨-, hrecords, heq⟩
        · exact h.sound before boundary bar' now earlier hrecords
        · cases heq
          have hsound := h.queueSound front hfront
          exact hrecords ▸ ⟨hsound.atFloor, hown, hseen, h.notClosed hopen⟩
      · intro hforward before boundary bar' now rest' hsplit
        rcases Machine.concat_split hsplit with ⟨earlier, -, hrecords⟩ | ⟨-, hrecords, heq⟩
        · exact h.timely hforward before boundary bar' now earlier hrecords
        · cases heq
          exact hrecords ▸ (h.queueSound front hfront).hasClosed hforward
      · intro emitted hemitted
        rw [emittedBoundaries_append, htold, List.mem_append, List.mem_singleton] at hemitted
        refine ⟨bar.boundarySecs, rfl, ?_⟩
        rcases hemitted with hemitted | rfl
        · exact hown ▸ (hnew emitted hemitted).le
        · exact hown.ge
      · intro p hp l hl
        obtain rfl := Option.some.inj hl
        rw [hown]
        exact hasc.1 _ (List.mem_map_of_mem hp)
      · intro _ hmem
        rcases List.mem_append.mp hmem with hmem | hmem
        · exact h.notClosed hopen hmem
        · cases List.mem_singleton.mp hmem

/-! ## The resolver -/

/-- The queue is handed to a resolver. -/
theorem Invariant.handOver (h : Invariant setup floor forward records s) (pending : Option ℤ) :
    Invariant setup floor forward records (s.handOver pending) := by
  cases pending with
  | none => exact { h with }
  | some boundary => exact { h with }

/-- The entry takes its final bar, which is of its boundary. -/
theorem Invariant.resolved (h : Invariant setup floor forward records s) {boundary : ℤ}
    {result : Option RawBar}
    (hresult : ∀ bar, result = some bar → bar.boundarySecs = boundary ∧ Seen records bar) :
    Invariant setup floor forward records (s.resolved boundary result) := by
  unfold BarCloser.resolved
  split
  · exact { h with }
  · have hupdate : Invariant setup floor forward records
        { s with
          queue := s.queue.map fun p =>
            if p.boundary = boundary then { p with streamed := result, needsHistory := false }
            else p } :=
      h.update (fun _ => rfl) fun p _ _ bar hbar => hresult bar hbar
    exact { hupdate with }

/-- The resolver asks history, or has nothing to ask for. -/
theorem Invariant.ask (h : Invariant setup floor forward records s) (boundary : ℤ) (deadline : ℚ)
    (attempt : ℕ) : Invariant setup floor forward records (s.ask boundary deadline attempt) := by
  unfold BarCloser.ask
  split
  · exact { h with }
  · exact h.resolved fun bar hbar => by cases hbar

/-- The resolver falls back on the entry's own streamed state. -/
theorem Invariant.fallBack (h : Invariant setup floor forward records s) (boundary : ℤ) :
    Invariant setup floor forward records (s.fallBack boundary) := by
  unfold BarCloser.fallBack
  split
  · refine h.resolved ?_
    intro bar hbar
    obtain ⟨p, hp, hstreamed⟩ := Option.bind_eq_some_iff.mp hbar
    obtain ⟨hmem, hown⟩ := find_eq_some hp
    exact hown ▸ (h.queueSound p hmem).streamed bar hstreamed
  · exact h.resolved fun bar hbar => by cases hbar

/-- The resolver asks again later, or falls back. -/
theorem Invariant.retry (h : Invariant setup floor forward records s) (boundary : ℤ) (deadline : ℚ)
    (attempt : ℕ) : Invariant setup floor forward records (s.retry setup boundary deadline attempt) := by
  unfold BarCloser.retry
  split
  · split
    · exact h.fallBack boundary
    · exact { h with }
  · exact h.fallBack boundary

/-- The resolver goes on with the next entry, or ends. -/
theorem Invariant.resolveNext (h : Invariant setup floor forward records s) (pending : Option ℤ) :
    Invariant setup floor forward records (s.resolveNext setup pending) := by
  cases pending with
  | none => exact { h with }
  | some boundary => exact h.ask boundary _ 0

/-- The resolver runs for the first time. -/
theorem Invariant.startResolver (h : Invariant setup floor forward records s) :
    Invariant setup floor forward records s.startResolver := by
  unfold BarCloser.startResolver
  split
  · exact { h with }
  · exact h

/-- The resolver wakes. -/
theorem Invariant.wakeResolver (h : Invariant setup floor forward records s) :
    Invariant setup floor forward records s.wakeResolver := by
  unfold BarCloser.wakeResolver
  split
  · exact h.ask _ _ _
  · exact h

/-- The phase is no part of the invariant. -/
theorem Invariant.observe (h : Invariant setup floor forward records s) (boundary : ℤ) :
    Invariant setup floor forward records (s.observe setup boundary) :=
  { h with }

/-- History answers, with a bar of the boundary or not. -/
theorem Invariant.historyAnswered (h : Invariant setup floor forward records s) (result : Option RawBar) :
    Invariant setup floor forward (records ++ (s.historyAnswered setup result).2)
      (s.historyAnswered setup result).1 := by
  unfold BarCloser.historyAnswered
  split
  · rename_i boundary deadline attempt bar _
    have htold : Invariant setup floor forward (records ++ [.served bar])
        (s.observe setup bar.boundarySecs) :=
      (h.observe bar.boundarySecs).tell fun r hr => by
        rw [List.mem_singleton.mp hr]
        trivial
    dsimp only
    split
    · rename_i hown
      refine htold.resolved ?_
      intro bar' hbar'
      obtain rfl := Option.some.inj hbar'
      exact ⟨hown, .inr (by simp)⟩
    · exact htold.retry boundary deadline attempt
  · rw [List.append_nil]
    exact h.retry _ _ _
  · rw [List.append_nil]
    exact h

/-- A request to history fails. -/
theorem Invariant.historyFailed (h : Invariant setup floor forward records s) :
    Invariant setup floor forward records (s.historyFailed setup) := by
  unfold BarCloser.historyFailed
  split
  · exact h.retry _ _ _
  · exact h

/-- Without a connection the resolver ends. -/
theorem Invariant.historyUnreachable (h : Invariant setup floor forward records s) :
    Invariant setup floor forward records s.historyUnreachable := by
  unfold BarCloser.historyUnreachable
  split
  · exact { h with }
  · exact h

/-! ## The stream -/

/-- A timer is not due before the period of its boundary is over. -/
theorem Invariant.arm (h : Invariant setup floor forward records s) (boundary : ℤ) :
    Invariant setup floor forward records (s.arm setup boundary) :=
  { h with
    timer := by
      intro armed due harmed
      obtain ⟨rfl, rfl⟩ := Prod.mk.inj (Option.some.inj harmed)
      have hmax := le_max_left ((boundary : ℚ) + setup.period + setup.grace - s.clock) 0
      have hgrace := setup.grace_nonneg
      push_cast
      linarith }

/-- The current bar is a streamed one. -/
theorem Invariant.setCurrent (h : Invariant setup floor forward records s) {bar : RawBar}
    (hbar : Record.streamed bar ∈ records) :
    Invariant setup floor forward records { s with current := some bar } :=
  { h with
    current := by
      intro current hcurrent
      obtain rfl := Option.some.inj hcurrent
      exact hbar }

/-- An update of the stream, which closes the bar before it. -/
theorem Invariant.track (h : Invariant setup floor forward records s) {bar : RawBar}
    (hbar : Record.streamed bar ∈ records) :
    Invariant setup floor forward records (s.track setup bar) := by
  unfold BarCloser.track
  split
  · exact (h.setCurrent hbar).arm _
  · rename_i current hcurrent
    have hseen := h.current current hcurrent
    split
    · exact h.setCurrent hbar
    · split
      · rename_i hnewer
        refine ((h.setCurrent hbar).arm bar.boundarySecs).enqueue false
          (fun _ => .inr ⟨bar, hbar, hnewer⟩) ?_
        intro bar' hbar'
        obtain rfl := Option.some.inj hbar'
        exact ⟨rfl, .inl hseen⟩
      · exact h

/-- An update, wherever it goes. -/
theorem Invariant.onUpdate (h : Invariant setup floor forward records s) {bar : RawBar}
    (hbar : Record.streamed bar ∈ records) :
    Invariant setup floor forward records (s.onUpdate setup bar) := by
  have hown : ∀ bar', some bar = some bar' →
      bar'.boundarySecs = bar.boundarySecs ∧ Seen records bar' := by
    intro bar' hbar'
    obtain rfl := Option.some.inj hbar'
    exact ⟨rfl, .inl hbar⟩
  have hobserved := h.observe bar.boundarySecs
  unfold BarCloser.onUpdate
  split
  · exact h
  · dsimp only
    split
    · exact hobserved
    · split
      · exact
          { hobserved with
            held := by
              intro held hheld
              obtain rfl := Option.some.inj hheld
              exact hbar }
      · split
        · rename_i hfind
          obtain ⟨p, hp, hboundary⟩ := isSome_find_iff.mp hfind
          exact hobserved.enqueue true (hboundary ▸ (hobserved.queueSound p hp).hasClosed) hown
        · have hsettled : Invariant setup floor forward records
              { s.observe setup bar.boundarySecs with baseline := false } := { hobserved with }
          split
          · rename_i hbaseline
            simp only [Bool.and_eq_true, decide_eq_true_eq] at hbaseline
            exact hsettled.enqueue true (fun _ => .inl (by exact_mod_cast hbaseline.2)) hown
          · exact hsettled.track hbar

/-- The connection is lost, and the stream's bar with it. -/
theorem Invariant.onDisconnect (h : Invariant setup floor forward records s) :
    Invariant setup floor forward records s.onDisconnect := by
  unfold BarCloser.onDisconnect
  split
  · exact h
  · exact
      { h with
        current := fun bar hbar => by cases hbar
        held := fun bar hbar => by cases hbar
        timer := fun boundary due hdue => by cases hdue }

/-- A close empties the queue. -/
theorem Invariant.close (h : Invariant setup floor forward records s) :
    Invariant setup floor forward (records ++ [.closed]) s.close where
  floor_eq := h.floor_eq
  ascending := by
    rw [emittedBoundaries_append]
    exact (List.append_nil _).symm ▸ h.ascending
  sound := by
    intro before boundary bar now rest hsplit
    rcases Machine.concat_split hsplit with ⟨earlier, -, hrecords⟩ | ⟨-, -, heq⟩
    · exact h.sound before boundary bar now earlier hrecords
    · cases heq
  timely := by
    intro hforward before boundary bar now rest hsplit
    rcases Machine.concat_split hsplit with ⟨earlier, -, hrecords⟩ | ⟨-, -, heq⟩
    · exact h.timely hforward before boundary bar now earlier hrecords
    · cases heq
  last := by
    intro emitted hemitted
    rw [emittedBoundaries_append] at hemitted
    rcases List.mem_append.mp hemitted with hemitted | hemitted
    · exact h.last emitted hemitted
    · cases hemitted
  queueAscending := List.Pairwise.nil
  queueAbove := fun p hp => by cases hp
  queueSound := fun p hp => by cases hp
  current := fun bar hbar => by cases hbar
  held := fun bar hbar => by cases hbar
  timer := fun boundary due hdue => by cases hdue
  backfilling := fun stage hstage => (h.backfilling stage hstage).mono _ fun _ => le_rfl
  notClosed := fun hopen => by cases hopen
  emptied := fun _ => rfl

/-- The timer queues its bar, whose period is over where the clock goes forward. -/
theorem Invariant.onTimer (h : Invariant setup floor forward records s)
    (hforward : forward → Forward s .timer) :
    Invariant setup floor forward records s.onTimer := by
  have hspent : Invariant setup floor forward records { s with timer := none } :=
    { h with timer := fun boundary due hdue => by cases hdue }
  unfold BarCloser.onTimer
  split
  · rename_i boundary due current htimer hcurrent
    split
    · exact hspent
    · rename_i hguard
      simp only [ne_eq, Bool.or_eq_true, decide_eq_true_eq, not_or, not_not] at hguard
      have htaken : Invariant setup floor forward records { s with timer := none, current := none } :=
        { hspent with current := fun bar hbar => by cases hbar }
      refine htaken.enqueue true ?_ ?_
      · intro hgoes
        have hdue : due ≤ s.clock := hforward hgoes (boundary, due) htimer
        exact .inl ((h.timer boundary due htimer).trans hdue)
      · intro bar hbar
        obtain rfl := Option.some.inj hbar
        exact ⟨hguard.2, .inl (h.current current hcurrent)⟩
  · exact h

/-! ## The backfill -/

/-- The stage of a backfill changes, and code of it is put on the stack or taken off. -/
theorem Invariant.stage (h : Invariant setup floor forward records s) {backfilling : Option Backfill}
    (hstage : ∀ stage, backfilling = some stage → StageSound setup forward records s.clock stage)
    (stack : List Frame) :
    Invariant setup floor forward records { s with backfilling := backfilling, stack := stack } :=
  { h with backfilling := hstage }

/-- A backfill begins. -/
theorem Invariant.backfill (h : Invariant setup floor forward records s) :
    Invariant setup floor forward records s.backfill := by
  unfold BarCloser.backfill
  split
  · exact h
  · refine Invariant.pump
      { h with
        current := fun bar hbar => by cases hbar
        held := fun bar hbar => by cases hbar
        timer := fun boundary due hdue => by cases hdue
        backfilling := ?_ }
    intro stage hstage
    obtain rfl := Option.some.inj hstage
    trivial

/-- A backfill ends. -/
theorem Invariant.endBackfill (h : Invariant setup floor forward records s) :
    Invariant setup floor forward records s.endBackfill :=
  { h with backfilling := fun stage hstage => by cases hstage }

/-- A quiet record is told. -/
theorem Invariant.tellOne (h : Invariant setup floor forward records s) {record : Record}
    (hquiet : record.Quiet) : Invariant setup floor forward (records ++ [record]) s :=
  h.tell fun _ hr => (List.mem_singleton.mp hr) ▸ hquiet

/-- The boundaries of the tail have closed by the clock. -/
theorem Invariant.queueTail (h : Invariant setup floor forward records s) (stop : ℤ) :
    Invariant setup floor forward (records ++ (s.queueTail setup stop).2) (s.queueTail setup stop).1 := by
  unfold BarCloser.queueTail
  split
  · exact h.endBackfill.tellOne trivial
  · rw [List.append_nil]
    refine h.stage ?_ _
    intro stage hstage
    obtain rfl := Option.some.inj hstage
    intro _ boundary hboundary
    have hle := mem_tailBoundaries hboundary
    have hover := lastClosedBoundary_over setup s
    exact le_trans (Int.cast_le.mpr (by omega)) hover

/-- A turn of the backfill. -/
theorem Invariant.runBackfill (h : Invariant setup floor forward records s) :
    Invariant setup floor forward (records ++ (s.runBackfill setup).2) (s.runBackfill setup).1 := by
  unfold BarCloser.runBackfill
  -- a stage each, from the range to the return
  split
  · dsimp only
    split
    · exact h.queueTail _
    · rw [List.append_nil]
      refine h.stage ?_ _
      intro stage hstage
      obtain rfl := Option.some.inj hstage
      exact fun _ => lastClosedBoundary_over setup s
  · rw [List.append_nil]
    refine h.stage ?_ _
    intro stage hstage
    obtain rfl := Option.some.inj hstage
    trivial
  · rename_i start stop bar bars hqueueing
    obtain ⟨hstop, hserved⟩ := h.backfilling _ hqueueing
    have hnext : Invariant setup floor forward records
        { s with
          backfilling := some (.queueing start stop bars), stack := .backfill :: s.stack } := by
      refine h.stage ?_ _
      intro stage hstage
      obtain rfl := Option.some.inj hstage
      exact ⟨hstop, fun bar hbar => hserved bar (List.mem_cons_of_mem _ hbar)⟩
    dsimp only
    split
    · rename_i hrange
      simp only [Bool.and_eq_true, decide_eq_true_eq] at hrange
      rw [List.append_nil]
      refine (hnext.observe bar.boundarySecs).enqueue false ?_ ?_
      · exact fun hforward => .inl (le_trans (Int.cast_le.mpr (by omega)) (hstop hforward))
      · intro bar' hbar'
        obtain rfl := Option.some.inj hbar'
        exact ⟨rfl, .inr (hserved _ List.mem_cons_self)⟩
    · rw [List.append_nil]
      exact hnext.observe bar.boundarySecs
  · rename_i boundary boundaries htail
    have hover := h.backfilling _ htail
    rw [List.append_nil]
    refine Invariant.enqueue (h.stage ?_ _) true ?_ fun bar hbar => by cases hbar
    · intro stage hstage
      obtain rfl := Option.some.inj hstage
      exact fun hforward boundary' hboundary => hover hforward boundary' (List.mem_cons_of_mem _ hboundary)
    · exact fun hforward => .inl (hover hforward boundary List.mem_cons_self)
  · have hreplaying : Invariant setup floor forward records
        { s with
          holding := false
          baseline := true
          held := none
          backfilling := some .replaying
          stack := .backfill :: s.stack } :=
      { h with
        held := fun bar hbar => by cases hbar
        backfilling := by
          intro stage hstage
          obtain rfl := Option.some.inj hstage
          trivial }
    dsimp only
    split
    · rename_i held hheld
      rw [List.append_nil]
      exact hreplaying.onUpdate (h.held held hheld)
    · rw [List.append_nil]
      exact hreplaying
  · have hreturned : Invariant setup floor forward records { s with backfilling := none } :=
      { h with backfilling := fun stage hstage => by cases hstage }
    exact hreturned.tellOne trivial
  · rw [List.append_nil]
    exact h

/-- The range of a backfill is answered with bars that are served. -/
theorem Invariant.rangeAnswered (h : Invariant setup floor forward records s) (bars : List RawBar) :
    Invariant setup floor forward (records ++ (s.rangeAnswered bars).2) (s.rangeAnswered bars).1 := by
  unfold BarCloser.rangeAnswered
  split
  · rename_i start stop hfetching
    have hstop := h.backfilling _ hfetching
    have hquiet : ∀ r ∈ bars.map Record.served, r.Quiet := by
      intro r hr
      obtain ⟨bar, -, rfl⟩ := List.mem_map.mp hr
      trivial
    split
    · rw [← List.append_assoc]
      exact (h.tell hquiet).endBackfill.tellOne trivial
    · refine (h.tell hquiet).stage ?_ _
      intro stage hstage
      obtain rfl := Option.some.inj hstage
      refine ⟨hstop, ?_⟩
      intro bar hbar
      exact List.mem_append_right _ (List.mem_map_of_mem (mem_sortOn.mp hbar))
  · rw [List.append_nil]
    exact h

/-- A backfill no longer waits for the queue to drain. -/
theorem Invariant.drained (h : Invariant setup floor forward records s) :
    Invariant setup floor forward (records ++ (s.drained setup).2) (s.drained setup).1 := by
  unfold BarCloser.drained
  split
  · exact h.queueTail _
  · rw [List.append_nil]
    exact h

/-- A backfill fails. -/
theorem Invariant.failBackfill (h : Invariant setup floor forward records s) :
    Invariant setup floor forward (records ++ s.failBackfill.2) s.failBackfill.1 := by
  unfold BarCloser.failBackfill
  split
  · exact h.endBackfill.tellOne trivial
  · exact h.endBackfill.tellOne trivial
  · rw [List.append_nil]
    exact h

/-! ## Every run -/

/-- The stack is no part of the invariant. -/
theorem Invariant.onStack (h : Invariant setup floor forward records s) (stack : List Frame) :
    Invariant setup floor forward records { s with stack := stack } :=
  { h with }

/-- The frame on top runs. -/
theorem Invariant.run (h : Invariant setup floor forward records s) :
    Invariant setup floor forward (records ++ (s.run setup).2) (s.run setup).1 := by
  unfold BarCloser.run
  split
  · rw [List.append_nil]
    exact h
  · rw [List.append_nil]
    exact h
  · split
    · rw [List.append_nil]
      exact (h.onStack _).handOver _
    · rename_i hturn
      exact h.pop hturn
  · split
    · rw [List.append_nil]
      exact (h.onStack _).resolveNext _
    · rename_i hturn
      exact h.pop hturn
  · exact (h.onStack _).runBackfill

/-- The emit callback returns. -/
theorem Invariant.returns (h : Invariant setup floor forward records s) :
    Invariant setup floor forward records s.returns := by
  unfold BarCloser.returns
  split
  · exact { h with }
  · exact h

/-- The clock shows another time. -/
theorem Invariant.tick (h : Invariant setup floor forward records s) {now : ℚ}
    (hforward : forward → s.clock ≤ now) :
    Invariant setup floor forward records { s with clock := now } :=
  { h with
    queueSound := by
      intro p hp
      have hsound := (h.queueSound p hp).mono [] hforward
      rwa [List.append_nil] at hsound
    backfilling := by
      intro stage hstage
      have hsound := (h.backfilling stage hstage).mono [] hforward
      rwa [List.append_nil] at hsound }

/-- Whatever happens keeps the invariant. -/
theorem Invariant.step (h : Invariant setup floor forward records s) {action : Action}
    (hforward : forward → Forward s action) :
    Invariant setup floor forward (records ++ ((machine setup).step s action).2)
      ((machine setup).step s action).1 := by
  have hquietly : ∀ s', Invariant setup floor forward records s' →
      Invariant setup floor forward (records ++ []) s' := by
    intro s' h'
    rw [List.append_nil]
    exact h'
  have hguarded : ∀ (guard : Bool) (next : BarCloser × List Record),
      Invariant setup floor forward (records ++ next.2) next.1 →
      Invariant setup floor forward (records ++ (if guard then next else (s, [])).2)
        (if guard then next else (s, [])).1 := by
    intro guard next hnext
    split
    · exact hnext
    · exact hquietly s h
  cases action with
  | tick now => exact hquietly _ (h.tick hforward)
  | onUpdate bar =>
    have htold : Invariant setup floor forward (records ++ [.streamed bar]) s := h.tellOne trivial
    exact hguarded _ _ (htold.onUpdate (by simp))
  | onDisconnect => exact hguarded _ _ (hquietly _ h.onDisconnect)
  | close => exact hguarded _ _ h.close
  | returns => exact hquietly _ h.returns
  | run => exact h.run
  | timer => exact hguarded _ _ (hquietly _ (h.onTimer hforward))
  | startResolver => exact hguarded _ _ (hquietly _ h.startResolver)
  | wakeResolver => exact hguarded _ _ (hquietly _ h.wakeResolver)
  | historyAnswered result => exact hguarded _ _ (h.historyAnswered result)
  | historyFailed => exact hguarded _ _ (hquietly _ h.historyFailed)
  | historyUnreachable => exact hguarded _ _ (hquietly _ h.historyUnreachable)
  | backfill => exact hguarded _ _ (hquietly _ h.backfill)
  | rangeAnswered bars => exact hguarded _ _ (h.rangeAnswered bars)
  | drained => exact hguarded _ _ h.drained
  | failBackfill => exact hguarded _ _ h.failBackfill

/-- A new closer keeps the invariant. -/
theorem invariant_new (setup : Setup) (forward : Prop) (clock : ℚ) :
    Invariant setup (BarCloser.new setup clock).floor forward [] (BarCloser.new setup clock) where
  floor_eq := rfl
  ascending := List.Pairwise.nil
  sound := by
    intro before boundary bar now rest hsplit
    exact absurd hsplit (by simp)
  timely := by
    intro _ before boundary bar now rest hsplit
    exact absurd hsplit (by simp)
  last := fun emitted hemitted => by cases hemitted
  queueAscending := List.Pairwise.nil
  queueAbove := fun p hp => by cases hp
  queueSound := fun p hp => by cases hp
  current := fun bar hbar => by cases hbar
  held := fun bar hbar => by cases hbar
  timer := fun boundary due hdue => by cases hdue
  backfilling := fun stage hstage => by cases hstage
  notClosed := fun _ hmem => by cases hmem
  emptied := fun _ => rfl

/-- The invariant holds after every run, with what it says of times where the clock goes forward. -/
theorem invariant_after (setup : Setup) (clock : ℚ) (actions : List Action)
    (hforward : forward → (machine setup).Always Forward (.new setup clock) actions) :
    Invariant setup (BarCloser.new setup clock).floor forward
      ((machine setup).told (BarCloser.new setup clock) actions)
      ((machine setup).after (BarCloser.new setup clock) actions) := by
  have halways : (machine setup).Always (fun s action => forward → Forward s action)
      (.new setup clock) actions := by
    by_cases hholds : forward
    · exact (hforward hholds).mono fun _ _ hgoes _ => hgoes
    · exact Machine.always_of_forall (fun _ _ _ hnot => absurd hnot hholds) _
  have hstart : Invariant setup (BarCloser.new setup clock).floor forward []
      (BarCloser.new setup clock) := invariant_new setup forward clock
  have hrun := Machine.told_invariant_of_always (m := machine setup)
    (I := fun told s => Invariant setup (BarCloser.new setup clock).floor forward told s)
    (fun _ _ _ h hgoes => h.step hgoes) hstart halways
  rwa [List.nil_append] at hrun

/-- **The emission law.** After every run of a closer the emitted boundaries ascend from its floor,
each bar was streamed or served and is of the boundary it was emitted for; nothing was emitted after a
close; and the queue ascends above everything emitted. Where the clock does not go back, the period of
each bar was over when it was emitted, or a newer streamed boundary had closed it. -/
theorem emissions_lawful (setup : Setup) (clock : ℚ) (actions : List Action) :
    Lawful (BarCloser.new setup clock).floor
        ((machine setup).told (BarCloser.new setup clock) actions)
        ((machine setup).after (BarCloser.new setup clock) actions).queue ∧
      ((machine setup).Always Forward (.new setup clock) actions →
        Timely setup ((machine setup).told (BarCloser.new setup clock) actions)) :=
  ⟨(invariant_after setup clock actions False.elim).lawful,
    fun hforward => (invariant_after setup clock actions fun _ : True => hforward).timely trivial⟩

/-- Bars of a minute. -/
def oneMinute : Setup := ⟨60, 1, 2, by decide, zero_le_one⟩

/-- The timer closes a bar once its minute is over, and history serves it as it ended. -/
def servedMinute : List Action :=
  [.onUpdate ⟨0, 100, 0, 20, 10, 5⟩, .tick 61, .timer, .run, .startResolver, .run, .tick 62,
    .historyAnswered (some ⟨0, 100, 0, 20, 15, 6⟩), .run]

/-- It is emitted a second after its timer ran. -/
theorem emissions_lawful_servedMinute :
    .emitted 0 ⟨0, 100, 0, 20, 15, 6⟩ 62 ∈
        (machine oneMinute).told (.new oneMinute 0) servedMinute ∧
      Timely oneMinute ((machine oneMinute).told (.new oneMinute 0) servedMinute) := by
  have hlawful := emissions_lawful oneMinute 0 servedMinute
  exact ⟨by decide +kernel, hlawful.2 (by decide +kernel)⟩

end Bars

end NautilusCtrader
