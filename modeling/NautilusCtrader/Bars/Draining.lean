import NautilusCtrader.Bars.Emissions

/-!
# The queue is never stranded

A queued boundary waits for the drain of the queue, which runs inline or in the one resolver task.
`Tracked` is what the queue, the resolver and the drained event have to do with each other while
something is running, and `Attended` adds that a drain runs or will run, unless the last resolver ended
on a connection error and nothing woke it since. A call of `_pump` makes a tracked queue attended
(`Tracked.pump`), so nothing that queues a boundary can strand it.
-/

namespace NautilusCtrader

open Common

namespace Bars

variable {setup : Setup} {s s' : BarCloser} {outage : Bool}

/-! ## What holds while something runs -/

/-- The frame of the resolver's drain is only ever the outermost one. -/
def ResolveLast : List Frame → Prop
  | [] => True
  | .resolve :: below => below = []
  | _ :: below => ResolveLast below

/-- What ties the queue to the resolver and to the drained event. -/
structure Tracked (s : BarCloser) : Prop where
  tasks : s.tasks = if s.resolver.isSome then 1 else 0
  emptied : s.isDrained = true → s.queue = []
  drains : s.queue = [] → s.isDrained = true ∨ .pump ∈ s.stack ∨ .resolve ∈ s.stack
  resolving : .resolve ∈ s.stack → s.resolver.isSome = true
  last : ResolveLast s.stack

/-- A queue with entries is drained by a resolver or by a `_pump` that runs, unless there was an outage
of history since either was asked to. -/
structure Attended (s : BarCloser) (outage : Bool) : Prop extends Tracked s where
  attended : s.queue ≠ [] → s.resolver.isSome = true ∨ .pump ∈ s.stack ∨ outage = true

/-- What the invariant reads of two states is the same, up to the contents of the queue's entries. -/
structure Alike (s s' : BarCloser) : Prop where
  queue : s'.queue.length = s.queue.length
  resolver : s'.resolver.isSome = s.resolver.isSome
  tasks : s'.tasks = s.tasks
  isDrained : s'.isDrained = s.isDrained
  stack : s'.stack = s.stack
  closed : s'.closed = s.closed

/-- Closers alike have empty queues alike. -/
theorem Alike.nil_iff (h : Alike s s') : s'.queue = [] ↔ s.queue = [] := by
  rw [← List.length_eq_zero_iff, h.queue, List.length_eq_zero_iff]

/-- Tasks are tracked alike. -/
theorem Tracked.alike (h : Tracked s) (hs : Alike s s') : Tracked s' where
  tasks := by rw [hs.tasks, hs.resolver]; exact h.tasks
  emptied hdrained := hs.nil_iff.mpr (h.emptied (hs.isDrained ▸ hdrained))
  drains hnil := by rw [hs.isDrained, hs.stack]; exact h.drains (hs.nil_iff.mp hnil)
  resolving hmem := by rw [hs.resolver]; exact h.resolving (hs.stack ▸ hmem)
  last := hs.stack ▸ h.last

/-- The queue is attended alike. -/
theorem Attended.alike (h : Attended s outage) (hs : Alike s s') : Attended s' outage where
  toTracked := h.toTracked.alike hs
  attended hsome := by
    rw [hs.resolver, hs.stack]
    exact h.attended fun hnil => hsome (hs.nil_iff.mpr hnil)

/-- A queue attended without an outage is attended with one. -/
theorem Attended.weaken (h : Attended s false) : Attended s outage where
  toTracked := h.toTracked
  attended hsome := by
    rcases h.attended hsome with hresolver | hpump | hnever
    · exact .inl hresolver
    · exact .inr (.inl hpump)
    · cases hnever

/-! ## Frames -/

/-- The frame of a drain of the queue. -/
def Frame.isDrain : Frame → Bool
  | .pump => true
  | .resolve => true
  | _ => false

/-- A frame that is none of a drain goes onto the stack. -/
theorem Tracked.push {frame : Frame} (h : Tracked s) (hframe : frame.isDrain = false) :
    Tracked { s with stack := frame :: s.stack } where
  tasks := h.tasks
  emptied := h.emptied
  drains hnil := (h.drains hnil).imp_right (.imp (List.mem_cons_of_mem _) (List.mem_cons_of_mem _))
  resolving hmem := by
    rcases List.mem_cons.mp hmem with rfl | hbelow
    · cases hframe
    · exact h.resolving hbelow
  last := by
    cases frame with
    | pump => exact h.last
    | resolve => cases hframe
    | callback => exact h.last
    | backfill => exact h.last

/-- A frame that drains nothing is put on the stack. -/
theorem Attended.push {frame : Frame} (h : Attended s outage) (hframe : frame.isDrain = false) :
    Attended { s with stack := frame :: s.stack } outage where
  toTracked := h.toTracked.push hframe
  attended hsome := (h.attended hsome).imp_right (.imp_left (List.mem_cons_of_mem _))

/-- A frame that is none of a drain comes off the stack. -/
theorem Tracked.pop {frame : Frame} {below : List Frame} (h : Tracked s)
    (hstack : s.stack = frame :: below) (hframe : frame.isDrain = false) :
    Tracked { s with stack := below } := by
  have hbelow {other : Frame} (hother : other.isDrain = true) (hmem : other ∈ s.stack) :
      other ∈ below := by
    rw [hstack] at hmem
    rcases List.mem_cons.mp hmem with rfl | hmem
    · rw [hframe] at hother
      cases hother
    · exact hmem
  have hlast := h.last
  rw [hstack] at hlast
  refine
    { tasks := h.tasks
      emptied := h.emptied
      drains := fun hnil => (h.drains hnil).imp_right (.imp (hbelow rfl) (hbelow rfl))
      resolving := fun hmem => h.resolving (hstack ▸ List.mem_cons_of_mem _ hmem)
      last := ?_ }
  cases frame with
  | pump => cases hframe
  | resolve => cases hframe
  | callback => exact hlast
  | backfill => exact hlast

/-- A frame that drains nothing is taken off. -/
theorem Attended.pop {frame : Frame} {below : List Frame} (h : Attended s outage)
    (hstack : s.stack = frame :: below) (hframe : frame.isDrain = false) :
    Attended { s with stack := below } outage where
  toTracked := h.toTracked.pop hstack hframe
  attended hsome := by
    rcases h.attended hsome with hresolver | hpump | houtage
    · exact .inl hresolver
    · rw [hstack] at hpump
      rcases List.mem_cons.mp hpump with rfl | hbelow
      · cases hframe
      · exact .inr (.inl hbelow)
    · exact .inr (.inr houtage)

/-! ## Queueing -/

/-- `_pump` sees to it that the queue is drained, whatever happened before. -/
theorem Tracked.pump (h : Tracked s) : Attended s.pump false := by
  unfold BarCloser.pump
  split
  · rename_i hresolver
    exact ⟨h, fun _ => .inl (by rw [hresolver]; rfl)⟩
  · refine ⟨⟨h.tasks, h.emptied, fun _ => .inr (.inl List.mem_cons_self), fun hmem => ?_, h.last⟩,
      fun _ => .inr (.inl List.mem_cons_self)⟩
    rcases List.mem_cons.mp hmem with heq | hbelow
    · cases heq
    · exact h.resolving hbelow

/-- An entry is one more. -/
theorem length_insertPending (queue : List Pending) (p : Pending) :
    (BarCloser.insertPending queue p).length = queue.length + 1 :=
  List.length_insertIdx_of_le_length List.countP_le_length p

/-- A step that queues a boundary ends an outage; any other leaves it. -/
def queued (s s' : BarCloser) : Bool := s.queue.length < s'.queue.length

/-- A step of an open closer keeps the invariant. -/
structure Attends (s s' : BarCloser) : Prop where
  closed : s'.closed = s.closed
  attended {outage : Bool} : s.closed = false → Attended s outage →
    Attended s' (outage && !queued s s')

/-- A step that queues nothing keeps an outage. -/
theorem Attends.of_attended (hclosed : s'.closed = s.closed)
    (hlength : s'.queue.length ≤ s.queue.length)
    (h : ∀ outage, s.closed = false → Attended s outage → Attended s' outage) : Attends s s' where
  closed := hclosed
  attended {outage} hopen hattended := by
    have hnone : queued s s' = false := decide_eq_false (by omega)
    rw [hnone, Bool.not_false, Bool.and_true]
    exact h outage hopen hattended

/-- A step that leaves the closer alike attends to the queue. -/
theorem Attends.alike (hs : Alike s s') : Attends s s' :=
  .of_attended hs.closed (by rw [hs.queue]) fun _ _ h => h.alike hs

/-- A step may be read from a state alike. -/
theorem Attends.of_alike {s₁ : BarCloser} (h : Attends s₁ s') (hs : Alike s s₁) : Attends s s' where
  closed := h.closed.trans hs.closed
  attended hopen hattended := by
    have hqueued : queued s₁ s' = queued s s' := by rw [queued, queued, hs.queue]
    rw [← hqueued]
    exact h.attended (hs.closed.trans hopen) (hattended.alike hs)

/-- Draining closes nothing. -/
theorem closed_pump (s : BarCloser) : s.pump.closed = s.closed := by
  unfold BarCloser.pump
  split <;> rfl

/-- `_pump` attends to the queue, unless a resolver does already. -/
theorem attends_pump : Attends s s.pump where
  closed := closed_pump s
  attended _ h := h.toTracked.pump.weaken

/-- What `_enqueue` queues is attended; what it leaves stays as it was. -/
theorem attends_enqueue (boundary : ℤ) (streamed : Option RawBar) (needsHistory : Bool) :
    Attends s (s.enqueue boundary streamed needsHistory) := by
  unfold BarCloser.enqueue
  split
  · exact .alike ⟨rfl, rfl, rfl, rfl, rfl, rfl⟩
  split
  · exact .alike ⟨List.length_map _, rfl, rfl, rfl, rfl, rfl⟩
  · have hlength := length_insertPending s.queue ⟨boundary, streamed, needsHistory⟩
    set queue := BarCloser.insertPending s.queue ⟨boundary, streamed, needsHistory⟩ with hqueue
    have hsome : queue ≠ [] := by
      intro hnil
      rw [hnil, List.length_nil] at hlength
      omega
    refine ⟨closed_pump _, fun _ h => ?_⟩
    have htracked : Tracked { s with queue, isDrained := false } :=
      { tasks := h.tasks
        emptied := fun hdrained => by cases hdrained
        drains := fun hnil => absurd hnil hsome
        resolving := h.resolving
        last := h.last }
    exact htracked.pump.weaken

/-- An update of the stream. -/
theorem attends_track (bar : RawBar) : Attends s (s.track setup bar) := by
  unfold BarCloser.track
  split
  · exact .alike ⟨rfl, rfl, rfl, rfl, rfl, rfl⟩
  split
  · exact .alike ⟨rfl, rfl, rfl, rfl, rfl, rfl⟩
  split
  · exact (attends_enqueue _ _ _).of_alike ⟨rfl, rfl, rfl, rfl, rfl, rfl⟩
  · exact .alike ⟨rfl, rfl, rfl, rfl, rfl, rfl⟩

/-- An update, wherever it goes. -/
theorem attends_onUpdate (bar : RawBar) : Attends s (s.onUpdate setup bar) := by
  unfold BarCloser.onUpdate
  split
  · exact .alike ⟨rfl, rfl, rfl, rfl, rfl, rfl⟩
  dsimp only
  split
  · exact .alike ⟨rfl, rfl, rfl, rfl, rfl, rfl⟩
  split
  · exact .alike ⟨rfl, rfl, rfl, rfl, rfl, rfl⟩
  split
  · exact (attends_enqueue _ _ _).of_alike ⟨rfl, rfl, rfl, rfl, rfl, rfl⟩
  split
  · exact (attends_enqueue _ _ _).of_alike ⟨rfl, rfl, rfl, rfl, rfl, rfl⟩
  · exact (attends_track bar).of_alike ⟨rfl, rfl, rfl, rfl, rfl, rfl⟩

/-- The timer runs. -/
theorem attends_onTimer : Attends s s.onTimer := by
  unfold BarCloser.onTimer
  split
  · split
    · exact .alike ⟨rfl, rfl, rfl, rfl, rfl, rfl⟩
    · exact (attends_enqueue _ _ _).of_alike ⟨rfl, rfl, rfl, rfl, rfl, rfl⟩
  · exact .alike ⟨rfl, rfl, rfl, rfl, rfl, rfl⟩

/-- The connection is lost. -/
theorem attends_onDisconnect : Attends s s.onDisconnect := by
  unfold BarCloser.onDisconnect
  split <;> exact .alike ⟨rfl, rfl, rfl, rfl, rfl, rfl⟩

/-! ## The drain of the queue -/

/-- The loop of an open closer ends without an entry only on an empty queue. -/
theorem turn_ends_none (hopen : s.closed = false) (h : s.turn = .ends none) : s.queue = [] := by
  unfold BarCloser.turn at h
  cases hqueue : s.queue with
  | nil => rfl
  | cons front rest =>
    rw [hopen, hqueue] at h
    dsimp only at h
    split at h <;> cases h

/-- It ends at an entry of the queue. -/
theorem turn_ends_some {boundary : ℤ} (h : s.turn = .ends (some boundary)) : s.queue ≠ [] := by
  unfold BarCloser.turn at h
  split at h
  · rename_i hqueue
    intro hnil
    rw [hqueue] at hnil
    cases hnil
  · cases h

/-- The front is popped, and perhaps emitted, by a drain that runs. -/
theorem attends_pop {front : Pending} {rest : List Pending} (hqueue : s.queue = front :: rest)
    (hdrain : .pump ∈ s.stack ∨ .resolve ∈ s.stack) : Attends s (s.pop front rest).1 := by
  have hpopped (outage : Bool) (h : Attended s outage) : Attended { s with queue := rest } outage :=
    { tasks := h.tasks
      emptied := fun hdrained => by
        have hnil := h.emptied hdrained
        rw [hqueue] at hnil
        cases hnil
      drains := fun _ => .inr hdrain
      resolving := h.resolving
      last := h.last
      attended := fun _ => h.attended (by rw [hqueue]; exact List.cons_ne_nil _ _) }
  have hlength : rest.length ≤ s.queue.length := by
    rw [hqueue, List.length_cons]
    omega
  unfold BarCloser.pop
  split
  · exact .of_attended rfl hlength fun outage _ h => hpopped outage h
  · unfold BarCloser.emit
    split
    · exact .of_attended rfl hlength fun outage _ h => hpopped outage h
    · refine .of_attended rfl hlength fun outage _ h => ?_
      have hpushed : Attended { s with queue := rest, stack := .callback :: s.stack } outage :=
        (hpopped outage h).push rfl
      exact hpushed.alike ⟨rfl, rfl, rfl, rfl, rfl, rfl⟩

/-- `_pump` ends: with the queue empty the event is set, else there is a resolver. -/
theorem attends_endPump {below : List Frame} (hstack : s.stack = .pump :: below)
    {pending : Option ℤ} (hturn : s.turn = .ends pending) :
    Attends s (BarCloser.handOver { s with stack := below } pending) := by
  have hlast (h : Tracked s) : ResolveLast below := by
    have hlast := h.last
    rw [hstack] at hlast
    exact hlast
  have hresolving (h : Tracked s) (hmem : .resolve ∈ below) : s.resolver.isSome = true :=
    h.resolving (hstack ▸ List.mem_cons_of_mem _ hmem)
  cases pending with
  | none =>
    refine .of_attended rfl le_rfl fun outage hopen h => ?_
    have hnil := turn_ends_none hopen hturn
    exact
      { tasks := h.tasks
        emptied := fun _ => hnil
        drains := fun _ => .inl rfl
        resolving := hresolving h.toTracked
        last := hlast h.toTracked
        attended := fun hsome => absurd hnil hsome }
  | some boundary =>
    refine .of_attended rfl le_rfl fun outage hopen h => ?_
    have hsome := turn_ends_some hturn
    refine
      { tasks := ?_
        emptied := fun hdrained => absurd (h.emptied hdrained) hsome
        drains := fun hnil => absurd hnil hsome
        resolving := fun _ => rfl
        last := hlast h.toTracked
        attended := fun _ => .inl rfl }
    have htasks := h.tasks
    show (if s.resolver.isNone then s.tasks + 1 else s.tasks) = 1
    cases hresolver : s.resolver with
    | none =>
      rw [hresolver] at htasks
      rw [htasks]
      rfl
    | some resolver =>
      rw [hresolver] at htasks
      rw [htasks]
      rfl

/-! ## The resolver -/

/-- The resolver waits or begins a drain while nothing else is running. -/
theorem Tracked.resolver (h : Tracked s) (hresolver : s.resolver.isSome = true)
    (resolver : Resolver) {stack : List Frame} (hstack : stack = [] ∨ stack = [.resolve])
    (hempty : s.queue = [] → s.isDrained = true ∨ stack = [.resolve]) (outage : Bool) :
    Attended { s with resolver := some resolver, stack } outage where
  tasks := by
    have htasks := h.tasks
    rw [hresolver] at htasks
    exact htasks
  emptied := h.emptied
  drains hnil := by
    rcases hempty hnil with hdrained | hresolve
    · exact .inl hdrained
    · exact .inr (.inr (hresolve ▸ List.mem_cons_self))
  resolving _ := rfl
  last := by
    rcases hstack with rfl | rfl
    · exact trivial
    · exact rfl
  attended _ := .inl rfl

/-- With nothing running, an empty queue has the event set. -/
theorem Tracked.drained_of_idle (h : Tracked s) (hidle : s.stack = []) (hnil : s.queue = []) :
    s.isDrained = true := by
  rcases h.drains hnil with hdrained | hpump | hresolve
  · exact hdrained
  · rw [hidle] at hpump
    cases hpump
  · rw [hidle] at hresolve
    cases hresolve

/-- The resolver goes on waiting. -/
theorem attends_wait (hidle : s.stack = []) (hresolver : s.resolver.isSome = true)
    (resolver : Resolver) : Attends s { s with resolver := some resolver } := by
  refine .of_attended rfl le_rfl fun outage _ h => ?_
  have hwaits : Attended { s with resolver := some resolver, stack := [] } outage :=
    h.toTracked.resolver hresolver resolver (.inl rfl)
      (fun hnil => .inl (h.toTracked.drained_of_idle hidle hnil)) outage
  exact hwaits.alike ⟨rfl, rfl, rfl, rfl, hidle, rfl⟩

/-- The resolver begins a drain. -/
theorem attends_emitting (hidle : s.stack = []) (hresolver : s.resolver.isSome = true) :
    Attends s { s with resolver := some .emitting, stack := .resolve :: s.stack } := by
  refine .of_attended rfl le_rfl fun outage _ h => ?_
  have hdrain : Attended { s with resolver := some .emitting, stack := [.resolve] } outage :=
    h.toTracked.resolver hresolver .emitting (.inr rfl) (fun _ => .inr rfl) outage
  exact hdrain.alike ⟨rfl, rfl, rfl, rfl, congrArg (List.cons _) hidle, rfl⟩

/-- The resolver has its bar, and drains the queue. -/
theorem attends_resolved (hidle : s.stack = []) (hresolver : s.resolver.isSome = true)
    (boundary : ℤ) (result : Option RawBar) : Attends s (s.resolved boundary result) := by
  unfold BarCloser.resolved
  split
  · rename_i hclosed
    refine ⟨rfl, fun hopen _ => ?_⟩
    rw [hopen] at hclosed
    cases hclosed
  · set queue := s.queue.map fun p =>
      if p.boundary = boundary then { p with streamed := result, needsHistory := false } else p
    have halike : Alike s { s with queue } := ⟨List.length_map _, rfl, rfl, rfl, rfl, rfl⟩
    exact (attends_emitting (s := { s with queue }) hidle hresolver).of_alike halike

/-- Asking history closes nothing. -/
theorem closed_ask (s : BarCloser) (boundary : ℤ) (deadline : ℚ) (attempt : ℕ) :
    (s.ask boundary deadline attempt).closed = s.closed := by
  unfold BarCloser.ask BarCloser.resolved
  split
  · rfl
  · split <;> rfl

/-- The resolver asks history, or has nothing to ask for. -/
theorem attends_ask (hidle : s.stack = []) (hresolver : s.resolver.isSome = true) (boundary : ℤ)
    (deadline : ℚ) (attempt : ℕ) : Attends s (s.ask boundary deadline attempt) := by
  unfold BarCloser.ask
  split
  · exact attends_wait hidle hresolver _
  · exact attends_resolved hidle hresolver boundary none

/-- The resolver falls back on the streamed state. -/
theorem attends_fallBack (hidle : s.stack = []) (hresolver : s.resolver.isSome = true)
    (boundary : ℤ) : Attends s (s.fallBack boundary) := by
  unfold BarCloser.fallBack
  split <;> exact attends_resolved hidle hresolver boundary _

/-- The resolver asks again later, or falls back. -/
theorem attends_retry (hidle : s.stack = []) (hresolver : s.resolver.isSome = true) (boundary : ℤ)
    (deadline : ℚ) (attempt : ℕ) : Attends s (s.retry setup boundary deadline attempt) := by
  unfold BarCloser.retry
  split
  · split
    · exact attends_fallBack hidle hresolver boundary
    · exact attends_wait hidle hresolver _
  · exact attends_fallBack hidle hresolver boundary

/-- A resolver that finds the queue empty ends and sets the event; else it asks history. -/
theorem attends_resolveNext {below : List Frame} (hstack : s.stack = .resolve :: below)
    {pending : Option ℤ} (hturn : s.turn = .ends pending) :
    Attends s (BarCloser.resolveNext setup { s with stack := below } pending) := by
  have hbelow (h : Tracked s) : below = [] := by
    have hlast := h.last
    rw [hstack] at hlast
    exact hlast
  have hresolver (h : Tracked s) : s.resolver.isSome = true :=
    h.resolving (hstack ▸ List.mem_cons_self)
  cases pending with
  | none =>
    refine .of_attended rfl le_rfl fun outage hopen h => ?_
    have hnil := turn_ends_none hopen hturn
    have hlast := hbelow h.toTracked
    subst hlast
    refine
      { tasks := ?_
        emptied := fun _ => hnil
        drains := fun _ => .inl ?_
        resolving := fun hmem => by cases hmem
        last := trivial
        attended := fun hsome => absurd hnil hsome }
    · have htasks := h.tasks
      rw [hresolver h.toTracked] at htasks
      show s.tasks - 1 = 0
      rw [htasks]
      rfl
    · show (s.isDrained || s.queue.isEmpty) = true
      rw [hnil, List.isEmpty_nil, Bool.or_true]
  | some boundary =>
    have hsome := turn_ends_some hturn
    refine ⟨?_, fun {outage} hopen h => ?_⟩
    · exact closed_ask _ _ _ _
    · have hlast := hbelow h.toTracked
      subst hlast
      have hoff : Attended { s with stack := [] } outage :=
        { tasks := h.tasks
          emptied := h.emptied
          drains := fun hnil => absurd hnil hsome
          resolving := fun hmem => by cases hmem
          last := trivial
          attended := fun _ => .inl (hresolver h.toTracked) }
      exact (attends_ask (s := { s with stack := [] }) rfl (hresolver h.toTracked) boundary _ 0).attended
        hopen hoff

/-- The resolver runs for the first time. -/
theorem attends_startResolver (hidle : s.stack = []) : Attends s s.startResolver := by
  unfold BarCloser.startResolver
  split
  · rename_i hresolver
    exact attends_emitting hidle (by rw [hresolver]; rfl)
  · exact .alike ⟨rfl, rfl, rfl, rfl, rfl, rfl⟩

/-- The resolver wakes. -/
theorem attends_wakeResolver (hidle : s.stack = []) : Attends s s.wakeResolver := by
  unfold BarCloser.wakeResolver
  split
  · rename_i hresolver
    exact attends_ask hidle (by rw [hresolver]; rfl) _ _ _
  · exact .alike ⟨rfl, rfl, rfl, rfl, rfl, rfl⟩

/-- History answers. -/
theorem attends_historyAnswered (hidle : s.stack = []) (result : Option RawBar) :
    Attends s (s.historyAnswered setup result).1 := by
  unfold BarCloser.historyAnswered
  split
  · rename_i bar hresolver
    have hsome : s.resolver.isSome = true := by rw [hresolver]; rfl
    have hobserved : Alike s (s.observe setup bar.boundarySecs) := ⟨rfl, rfl, rfl, rfl, rfl, rfl⟩
    have hidle' : (s.observe setup bar.boundarySecs).stack = [] := hidle
    have hsome' : (s.observe setup bar.boundarySecs).resolver.isSome = true := hsome
    dsimp only
    split
    · exact (attends_resolved hidle' hsome' _ _).of_alike hobserved
    · exact (attends_retry hidle' hsome' _ _ _).of_alike hobserved
  · rename_i hresolver
    exact attends_retry hidle (by rw [hresolver]; rfl) _ _ _
  · exact .alike ⟨rfl, rfl, rfl, rfl, rfl, rfl⟩

/-- A request to history fails. -/
theorem attends_historyFailed (hidle : s.stack = []) : Attends s (s.historyFailed setup) := by
  unfold BarCloser.historyFailed
  split
  · rename_i hresolver
    exact attends_retry hidle (by rw [hresolver]; rfl) _ _ _
  · exact .alike ⟨rfl, rfl, rfl, rfl, rfl, rfl⟩

/-- A resolver without a connection ends and leaves the queue to an outage. -/
theorem Attended.endResolver (h : Attended s outage) (hidle : s.stack = [])
    (hresolver : s.resolver.isSome = true) : Attended s.endResolver true where
  tasks := by
    have htasks := h.tasks
    rw [hresolver] at htasks
    show s.tasks - 1 = 0
    rw [htasks]
    rfl
  emptied hdrained := by
    rcases Bool.or_eq_true_iff.mp hdrained with hset | hempty
    · exact h.emptied hset
    · exact List.isEmpty_iff.mp hempty
  drains hnil := .inl (by
    have hset := h.toTracked.drained_of_idle hidle hnil
    show (s.isDrained || s.queue.isEmpty) = true
    rw [hset, Bool.true_or])
  resolving hmem := by
    have hmem : .resolve ∈ s.stack := hmem
    rw [hidle] at hmem
    cases hmem
  last := h.last
  attended _ := .inr (.inr rfl)

/-! ## The backfill -/

/-- A step that queues nothing, and one after it. -/
theorem Attends.trans {s₁ : BarCloser} (h : Attends s s₁) (hlength : s₁.queue.length = s.queue.length)
    (h' : Attends s₁ s') : Attends s s' where
  closed := h'.closed.trans h.closed
  attended {outage} hopen hattended := by
    have hnone : queued s s₁ = false := decide_eq_false (by omega)
    have hmiddle := h.attended hopen hattended
    rw [hnone, Bool.not_false, Bool.and_true] at hmiddle
    have hqueued : queued s₁ s' = queued s s' := by rw [queued, queued, hlength]
    rw [← hqueued]
    exact h'.attended (h.closed.trans hopen) hmiddle

/-- A frame that drains nothing is put on the stack. -/
theorem attends_push {frame : Frame} (hframe : frame.isDrain = false) :
    Attends s { s with stack := frame :: s.stack } :=
  .of_attended rfl le_rfl fun _ _ h => h.push hframe

/-- A frame that drains nothing is taken off. -/
theorem attends_popFrame {frame : Frame} {below : List Frame} (hstack : s.stack = frame :: below)
    (hframe : frame.isDrain = false) : Attends s { s with stack := below } :=
  .of_attended rfl le_rfl fun _ _ h => h.pop hstack hframe

/-- The backfill goes on with its frame on the stack. -/
theorem Attends.onFrame (h : Attends { s with stack := .backfill :: s.stack } s') : Attends s s' :=
  (attends_push rfl).trans rfl h

/-- A backfill that begins sees to it that the queue is drained. -/
theorem Attended.backfill (h : Attended s outage) (hopen : s.closed = false)
    (hfree : s.holding = false) : Attended s.backfill false := by
  have hframe : Tracked { s with stack := .backfill :: s.stack } := h.toTracked.push rfl
  unfold BarCloser.backfill
  rw [if_neg (by simp [hopen, hfree])]
  exact Tracked.pump (hframe.alike ⟨rfl, rfl, rfl, rfl, rfl, rfl⟩)

/-- A backfill begins. -/
theorem attends_backfill : Attends s s.backfill := by
  unfold BarCloser.backfill
  split
  · exact .alike ⟨rfl, rfl, rfl, rfl, rfl, rfl⟩
  · exact .onFrame (attends_pump.of_alike ⟨rfl, rfl, rfl, rfl, rfl, rfl⟩)

/-- The tail of a backfill is worked out. -/
theorem attends_queueTail (stop : ℤ) : Attends s (s.queueTail setup stop).1 := by
  unfold BarCloser.queueTail
  split
  · exact .alike ⟨rfl, rfl, rfl, rfl, rfl, rfl⟩
  · exact .onFrame (.alike ⟨rfl, rfl, rfl, rfl, rfl, rfl⟩)

/-- A turn of the backfill. -/
theorem attends_runBackfill : Attends s (s.runBackfill setup).1 := by
  unfold BarCloser.runBackfill
  split
  · dsimp only
    split
    · exact attends_queueTail _
    · exact .alike ⟨rfl, rfl, rfl, rfl, rfl, rfl⟩
  · exact .alike ⟨rfl, rfl, rfl, rfl, rfl, rfl⟩
  · dsimp only
    split
    · exact .onFrame ((attends_enqueue _ _ _).of_alike ⟨rfl, rfl, rfl, rfl, rfl, rfl⟩)
    · exact .onFrame (.alike ⟨rfl, rfl, rfl, rfl, rfl, rfl⟩)
  · exact .onFrame ((attends_enqueue _ _ _).of_alike ⟨rfl, rfl, rfl, rfl, rfl, rfl⟩)
  · dsimp only
    split
    · exact .onFrame ((attends_onUpdate _).of_alike ⟨rfl, rfl, rfl, rfl, rfl, rfl⟩)
    · exact .onFrame (.alike ⟨rfl, rfl, rfl, rfl, rfl, rfl⟩)
  · exact .alike ⟨rfl, rfl, rfl, rfl, rfl, rfl⟩
  · exact .alike ⟨rfl, rfl, rfl, rfl, rfl, rfl⟩

/-- The range of a backfill is answered. -/
theorem attends_rangeAnswered (bars : List RawBar) : Attends s (s.rangeAnswered bars).1 := by
  unfold BarCloser.rangeAnswered
  split
  · split
    · exact .alike ⟨rfl, rfl, rfl, rfl, rfl, rfl⟩
    · exact .onFrame (.alike ⟨rfl, rfl, rfl, rfl, rfl, rfl⟩)
  · exact .alike ⟨rfl, rfl, rfl, rfl, rfl, rfl⟩

/-- A backfill no longer waits for the queue to drain. -/
theorem attends_drained : Attends s (s.drained setup).1 := by
  unfold BarCloser.drained
  split
  · exact attends_queueTail _
  · exact .alike ⟨rfl, rfl, rfl, rfl, rfl, rfl⟩

/-- A backfill fails. -/
theorem attends_failBackfill : Attends s s.failBackfill.1 := by
  unfold BarCloser.failBackfill
  split <;> exact .alike ⟨rfl, rfl, rfl, rfl, rfl, rfl⟩

/-! ## Every step -/

/-- The frame on top runs. -/
theorem attends_run : Attends s (s.run setup).1 := by
  unfold BarCloser.run
  split
  · exact .alike ⟨rfl, rfl, rfl, rfl, rfl, rfl⟩
  · exact .alike ⟨rfl, rfl, rfl, rfl, rfl, rfl⟩
  · rename_i hstack
    split
    · rename_i hturn
      exact attends_endPump hstack hturn
    · rename_i hturn
      exact attends_pop (turn_pops hturn).2 (.inl (hstack ▸ List.mem_cons_self))
  · rename_i hstack
    split
    · rename_i hturn
      exact attends_resolveNext hstack hturn
    · rename_i hturn
      exact attends_pop (turn_pops hturn).2 (.inr (hstack ▸ List.mem_cons_self))
  · rename_i hstack
    exact (attends_popFrame hstack rfl).trans rfl attends_runBackfill

/-- The emit callback returns. -/
theorem attends_returns : Attends s s.returns := by
  unfold BarCloser.returns
  split
  · rename_i hstack
    exact attends_popFrame hstack rfl
  · exact .alike ⟨rfl, rfl, rfl, rfl, rfl, rfl⟩

/-- A closer is idle when no frame is on its stack. -/
theorem idle_iff : s.idle = true ↔ s.stack = [] := decide_eq_true_iff

/-- Every step but a close and the loss of history. -/
theorem attends_step {action : Action} (hclose : action ≠ .close)
    (hreachable : action ≠ .historyUnreachable) : Attends s ((machine setup).step s action).1 := by
  -- an action that does not apply changes nothing
  have hrefl : Attends s s := .alike ⟨rfl, rfl, rfl, rfl, rfl, rfl⟩
  cases action with
  | close => exact absurd rfl hclose
  | historyUnreachable => exact absurd rfl hreachable
  | tick now => exact .alike ⟨rfl, rfl, rfl, rfl, rfl, rfl⟩
  | returns => exact attends_returns
  | run => exact attends_run
  | onUpdate bar =>
    simp only [machine]
    split
    · exact attends_onUpdate bar
    · exact hrefl
  | onDisconnect =>
    simp only [machine]
    split
    · exact attends_onDisconnect
    · exact hrefl
  | timer =>
    simp only [machine]
    split
    · exact attends_onTimer
    · exact hrefl
  | startResolver =>
    simp only [machine]
    split
    · rename_i hidle
      exact attends_startResolver (idle_iff.mp hidle)
    · exact hrefl
  | wakeResolver =>
    simp only [machine]
    split
    · rename_i hidle
      exact attends_wakeResolver (idle_iff.mp hidle)
    · exact hrefl
  | historyAnswered result =>
    simp only [machine]
    split
    · rename_i hidle
      exact attends_historyAnswered (idle_iff.mp hidle) result
    · exact hrefl
  | historyFailed =>
    simp only [machine]
    split
    · rename_i hidle
      exact attends_historyFailed (idle_iff.mp hidle)
    · exact hrefl
  | backfill =>
    simp only [machine]
    split
    · exact attends_backfill
    · exact hrefl
  | rangeAnswered bars =>
    simp only [machine]
    split
    · exact attends_rangeAnswered bars
    · exact hrefl
  | drained =>
    simp only [machine]
    split
    · exact attends_drained
    · exact hrefl
  | failBackfill =>
    simp only [machine]
    split
    · exact attends_failBackfill
    · exact hrefl

/-! ## Every run -/

/-- A closer, and whether its last resolver ended on a connection error with nothing queued and no
backfill begun since. -/
structure Monitored where
  closer : BarCloser
  outage : Bool := false
deriving DecidableEq, Repr

/-- The resolver ends on a connection error. -/
def losesHistory (s : BarCloser) : Action → Bool
  | .historyUnreachable =>
    match s.resolver with
    | some (.fetching _ _ _) => s.idle
    | _ => false
  | _ => false

/-- A backfill begins. -/
def begins (s : BarCloser) (action : Action) : Bool :=
  action = .backfill && s.idle && !s.closed && !s.holding

/-- The closer, monitored. -/
def monitored (setup : Setup) : Machine Monitored Action Record where
  step w action :=
    let next := (machine setup).step w.closer action
    let outage := losesHistory w.closer action ||
      (w.outage && !queued w.closer next.1 && !begins w.closer action)
    (⟨next.1, outage⟩, next.2)

/-- Without a connection the resolver ends, if it was waiting for history. -/
theorem unreachable_cases (setup : Setup) (s : BarCloser) :
    (losesHistory s .historyUnreachable = true ∧ s.stack = [] ∧ s.resolver.isSome = true ∧
      ((machine setup).step s .historyUnreachable).1 = s.endResolver) ∨
    (losesHistory s .historyUnreachable = false ∧
      ((machine setup).step s .historyUnreachable).1 = s) := by
  have hstep : ((machine setup).step s .historyUnreachable).1 =
      if s.idle = true then s.historyUnreachable else s := by
    simp only [machine]
    split <;> rfl
  rw [hstep]
  unfold losesHistory BarCloser.historyUnreachable
  rcases hresolver : s.resolver with _ | (_ | _ | _ | ⟨boundary, deadline, attempt⟩)
  case some.fetching =>
    dsimp only
    by_cases hidle : s.idle = true
    · rw [if_pos hidle]
      exact .inl ⟨hidle, idle_iff.mp hidle, rfl, rfl⟩
    · rw [if_neg hidle]
      exact .inr ⟨Bool.not_eq_true _ ▸ hidle, rfl⟩
  all_goals exact .inr ⟨rfl, by split <;> rfl⟩

/-- What a step of the monitored closer keeps while nobody closes it. -/
structure Open (w : Monitored) : Prop extends Attended w.closer w.outage where
  opened : w.closer.closed = false

/-- A closer stays open until it is closed. -/
theorem open_step {w : Monitored} (h : Open w) {action : Action} (hclose : action ≠ .close) :
    Open ((monitored setup).step w action).1 := by
  by_cases hunreachable : action = .historyUnreachable
  · subst hunreachable
    rcases unreachable_cases setup w.closer with ⟨hloses, hidle, hresolver, hstep⟩ | ⟨hloses, hstep⟩
    · refine { (?_ : Attended _ _) with opened := ?_ }
      · simp only [monitored, hstep, hloses, Bool.true_or]
        exact h.toAttended.endResolver hidle hresolver
      · simp only [monitored, hstep]
        exact h.opened
    · have hnone : queued w.closer w.closer = false := decide_eq_false (Nat.lt_irrefl _)
      have hbegins : begins w.closer .historyUnreachable = false := rfl
      refine { (?_ : Attended _ _) with opened := ?_ }
      · simp only [monitored, hstep, hloses, hnone, hbegins, Bool.false_or, Bool.not_false, Bool.and_true]
        exact h.toAttended
      · simp only [monitored, hstep]
        exact h.opened
  · have hattends : Attends w.closer ((machine setup).step w.closer action).1 :=
      attends_step hclose hunreachable
    have hloses : losesHistory w.closer action = false := by
      cases action with
      | historyUnreachable => exact absurd rfl hunreachable
      | _ => rfl
    refine { (?_ : Attended _ _) with opened := hattends.closed.trans h.opened }
    simp only [monitored, hloses, Bool.false_or]
    cases hbegins : begins w.closer action with
    | false =>
      rw [Bool.not_false, Bool.and_true]
      exact hattends.attended h.opened h.toAttended
    | true =>
      simp only [begins, Bool.and_eq_true, decide_eq_true_eq, Bool.not_eq_true'] at hbegins
      obtain ⟨⟨⟨rfl, hidle⟩, -⟩, hfree⟩ := hbegins
      have hstep : ((machine setup).step w.closer .backfill).1 = w.closer.backfill := by
        simp only [machine, if_pos hidle]
      rw [hstep, Bool.not_true, Bool.and_false]
      exact h.toAttended.backfill h.opened hfree

/-- A closer that was just constructed. -/
theorem open_new (setup : Setup) (clock : ℚ) : Open ⟨.new setup clock, false⟩ where
  tasks := rfl
  emptied _ := rfl
  drains _ := .inl rfl
  resolving hmem := by cases hmem
  last := trivial
  attended hsome := absurd rfl hsome
  opened := rfl

/-- In every run without a close, wherever control returns to the event loop: at most one resolver task
runs, the drained event is set exactly with the queue empty, and a queue with entries has a resolver,
unless the last one ended on a connection error with nothing queued and no backfill begun since. -/
theorem bar_queue_never_stranded (setup : Setup) (clock : ℚ) (actions : List Action)
    (hopen : ∀ action ∈ actions, action ≠ .close) :
    let w := (monitored setup).after ⟨.new setup clock, false⟩ actions
    w.closer.stack = [] →
      w.closer.tasks ≤ 1 ∧ (w.closer.isDrained = true ↔ w.closer.queue = []) ∧
        (w.closer.queue ≠ [] →
          w.closer.resolver.isSome = true ∧ w.closer.tasks = 1 ∨ w.outage = true) := by
  intro w hidle
  have h : Open w := by
    have hrun : ∀ actions : List Action, (∀ action ∈ actions, action ≠ .close) →
        ∀ w, Open w → Open ((monitored setup).after w actions) := by
      intro actions
      induction actions with
      | nil => exact fun _ w h => h
      | cons action actions ih =>
        intro hopen w h
        exact ih (fun other hmem => hopen other (List.mem_cons_of_mem _ hmem)) _
          (open_step h (hopen action List.mem_cons_self))
    exact hrun actions hopen _ (open_new setup clock)
  have htasks := h.tasks
  refine ⟨?_, ⟨h.emptied, h.toTracked.drained_of_idle hidle⟩, fun hsome => ?_⟩
  · rw [htasks]
    split <;> omega
  · rcases h.attended hsome with hresolver | hpump | houtage
    · rw [hresolver, if_pos rfl] at htasks
      exact .inl ⟨hresolver, htasks⟩
    · rw [hidle] at hpump
      cases hpump
    · exact .inr houtage

/-- The first bar has already closed, so history is asked for it. -/
def oneClosed : List Action := [.tick 70, .onUpdate ⟨0, 1, 0, 1, 1, 5⟩, .run]

/-- The queue is attended in the middle of that run. -/
theorem closed_bar_attended :
    ((monitored oneMinute).after ⟨.new oneMinute 0, false⟩ oneClosed).closer.queue ≠ [] ∧
      ((monitored oneMinute).after ⟨.new oneMinute 0, false⟩ oneClosed).closer.tasks ≤ 1 := by
  have hattended := bar_queue_never_stranded oneMinute 0 oneClosed (by decide) (by decide +kernel)
  exact ⟨by decide +kernel, hattended.1⟩

end Bars

end NautilusCtrader
