import NautilusCtrader.Common.Machine
import NautilusCtrader.Common.Sorting
import Mathlib.Algebra.Order.Floor.Defs
import Mathlib.Data.Rat.Floor

/-!
# The bar closer

A bar closer decides when a live bar is closed, from the stream, from a timer or from history. A
closed bar's boundary is queued, and the queue is drained front to back. What drains it emits, and
the callback that takes an emitted bar may call the closer again, so the code that is running is a
stack of frames: `machine` takes one turn of the frame on top, or lets the outside world act.
-/

namespace NautilusCtrader

open Common

namespace Bars

/-- `RawBar`: a trendbar in venue units. -/
structure RawBar where
  boundarySecs : ℤ
  low : ℤ
  deltaOpen : ℤ
  deltaHigh : ℤ
  deltaClose : ℤ
  volume : ℤ
deriving DecidableEq, Repr

/-- What a closer is constructed with. -/
structure Setup where
  period : ℤ
  grace : ℚ
  retries : ℕ
  period_pos : 0 < period
  grace_nonneg : 0 ≤ grace

/-- `_Pending`: a closed boundary waiting its turn. -/
structure Pending where
  boundary : ℤ
  streamed : Option RawBar
  needsHistory : Bool
deriving DecidableEq, Repr

/-- An entry that is queued again takes the streamed state it lacks. -/
def Pending.attach (p : Pending) (streamed : Option RawBar) : Pending :=
  match p.streamed with
  | none => { p with streamed := streamed }
  | some _ => p

/-- Where the resolver task stands. -/
inductive Resolver
  /-- It is created and has not run yet. -/
  | starting
  /-- It drains the queue. -/
  | emitting
  /-- It sleeps before it asks history once more. -/
  | sleeping (boundary : ℤ) (deadline : ℚ) (attempt : ℕ)
  /-- It waits for history to answer. -/
  | fetching (boundary : ℤ) (deadline : ℚ) (attempt : ℕ)
deriving DecidableEq, Repr

/-- Where a backfill stands. -/
inductive Backfill
  | pumping
  | fetching (start stop : ℤ)
  /-- The loop over the fetched bars, with those left. -/
  | queueing (start stop : ℤ) (bars : List RawBar)
  | draining (stop : ℤ)
  /-- The loop of `_queue_tail`, with the boundaries left. -/
  | tail (boundaries : List ℤ)
  /-- The held update is replayed. -/
  | replaying
deriving DecidableEq, Repr

/-- Code of the closer that is running, or the emit callback it waits for. -/
inductive Frame
  /-- `_emit_ready`, called by `_pump`. -/
  | pump
  /-- `_emit_ready`, called by `_resolve`. -/
  | resolve
  | callback
  | backfill
deriving DecidableEq, Repr

/-- The closer with its clock, its tasks and the stack of what is running, the innermost first. -/
structure BarCloser where
  floor : ℤ
  phase : Option ℤ := none
  lastEmitted : Option ℤ := none
  current : Option RawBar := none
  /-- The boundary the timer was armed for, and when it is due. -/
  timer : Option (ℤ × ℚ) := none
  queue : List Pending := []
  resolver : Option Resolver := none
  /-- The resolver tasks that were created and have not ended. -/
  tasks : ℕ := 0
  /-- `_drained`. -/
  isDrained : Bool := true
  holding : Bool := false
  held : Option RawBar := none
  baseline : Bool := true
  closed : Bool := false
  clock : ℚ
  backfilling : Option Backfill := none
  stack : List Frame := []
deriving DecidableEq, Repr

/-- What the outside world sees of a closer, and what a closer sees of it. -/
inductive Record
  | streamed (bar : RawBar)
  | served (bar : RawBar)
  /-- The callback is called with the bar of a queued boundary. -/
  | emitted (boundary : ℤ) (bar : RawBar) (now : ℚ)
  | closed
  | backfilled
  | backfillFailed
deriving DecidableEq, Repr

namespace BarCloser

variable (setup : Setup) (s : BarCloser)

/-- `_observe`. -/
def observe (boundarySecs : ℤ) : BarCloser :=
  { s with phase := some (boundarySecs % setup.period) }

/-- `_floor_boundary`. -/
def floorBoundary (t : ℚ) : ℤ :=
  (⌊t⌋ - s.phase.getD 0) / setup.period * setup.period + s.phase.getD 0

/-- `_last_closed_boundary`. -/
def lastClosedBoundary : ℤ := s.floorBoundary setup s.clock - setup.period

/-- `_is_covered`. -/
def isCovered (boundary : ℤ) : Bool :=
  match s.lastEmitted with
  | some last => boundary ≤ last
  | none => false

/-- `_find`. -/
def find (boundary : ℤ) : Option Pending := s.queue.find? (·.boundary = boundary)

/-- `_cancel_timer`. -/
def cancelTimer : BarCloser := { s with timer := none }

/-- `_arm`. -/
def arm (boundary : ℤ) : BarCloser :=
  { s with
    timer := some (boundary, s.clock + max (boundary + setup.period + setup.grace - s.clock) 0) }

/-! ## The queue -/

/-- `_pump`, up to its call of `_emit_ready`. -/
def pump : BarCloser :=
  match s.resolver with
  | some _ => s
  | none => { s with stack := .pump :: s.stack }

/-- The queue with an entry before the first one of a later boundary. -/
def insertPending (queue : List Pending) (p : Pending) : List Pending :=
  queue.insertIdx (queue.countP (·.boundary < p.boundary)) p

/-- `_enqueue`. -/
def enqueue (boundary : ℤ) (streamed : Option RawBar) (needsHistory : Bool) : BarCloser :=
  if s.closed || boundary < s.floor || s.isCovered boundary then s
  else
    match s.find boundary with
    | some _ =>
      { s with
        queue := s.queue.map fun p => if p.boundary = boundary then p.attach streamed else p }
    | none =>
      pump
        { s with
          queue := insertPending s.queue ⟨boundary, streamed, needsHistory⟩
          isDrained := false }

/-- `_emit`; the callback starts to run. -/
def emit (boundary : ℤ) (bar : RawBar) : BarCloser × List Record :=
  if s.isCovered bar.boundarySecs then (s, [])
  else
    ({ s with lastEmitted := some bar.boundarySecs, stack := .callback :: s.stack },
      [.emitted boundary bar s.clock])

/-- A turn of the loop of `_emit_ready`. -/
inductive Turn
  /-- The loop ends, with the boundary whose entry needs history, if any. -/
  | ends (pending : Option ℤ)
  /-- The front is popped. -/
  | pops (front : Pending) (rest : List Pending)

/-- What the next turn of the loop of `_emit_ready` does. -/
def turn : Turn :=
  match s.closed, s.queue with
  | false, front :: rest =>
    if front.needsHistory && !s.isCovered front.boundary then .ends (some front.boundary)
    else .pops front rest
  | _, _ => .ends none

/-- The front is popped, and emitted if it has a bar. -/
def pop (front : Pending) (rest : List Pending) : BarCloser × List Record :=
  match front.streamed with
  | none => ({ s with queue := rest }, [])
  | some bar => emit { s with queue := rest } front.boundary bar

/-- `_pump` from where `_emit_ready` returned. -/
def handOver : Option ℤ → BarCloser
  | none => { s with isDrained := true }
  | some _ =>
    -- An emit callback may have re-entered and started one.
    { s with
      resolver := some (s.resolver.getD .starting)
      tasks := if s.resolver.isNone then s.tasks + 1 else s.tasks }

/-! ## The resolver -/

/-- `_wanted`. An entry's boundary tells it from every other one. -/
def wanted (boundary : ℤ) : Bool :=
  !s.closed && !s.isCovered boundary && (s.find boundary).isSome

/-- The resolver task ends. -/
def endResolver : BarCloser :=
  { s with
    resolver := none
    tasks := s.tasks - 1
    isDrained := s.isDrained || s.queue.isEmpty }

/-- `_resolve` from where `_from_history` returned: the entry carries its final bar, if there is
one, and the queue is drained. -/
def resolved (boundary : ℤ) (result : Option RawBar) : BarCloser :=
  if s.closed then s.endResolver
  else
    { s with
      queue := s.queue.map fun p =>
        if p.boundary = boundary then { p with streamed := result, needsHistory := false } else p
      resolver := some .emitting
      stack := .resolve :: s.stack }

/-- An attempt of `_from_history` as far as its request. -/
def ask (boundary : ℤ) (deadline : ℚ) (attempt : ℕ) : BarCloser :=
  if s.wanted boundary then { s with resolver := some (.fetching boundary deadline attempt) }
  else s.resolved boundary none

/-- `_from_history` after its last attempt. -/
def fallBack (boundary : ℤ) : BarCloser :=
  if s.wanted boundary then s.resolved boundary ((s.find boundary).bind (·.streamed))
  else s.resolved boundary none

/-- `_from_history` after an attempt that gave no bar. -/
def retry (boundary : ℤ) (deadline : ℚ) (attempt : ℕ) : BarCloser :=
  if attempt < setup.retries then
    if deadline ≤ s.clock + setup.grace then s.fallBack boundary
    else { s with resolver := some (.sleeping boundary deadline (attempt + 1)) }
  else s.fallBack boundary

/-- `_from_history` as far as its first request. -/
def fromHistory (boundary : ℤ) : BarCloser := s.ask boundary (s.clock + setup.period) 0

/-- `_resolve` from where `_emit_ready` returned. -/
def resolveNext : Option ℤ → BarCloser
  | none => s.endResolver
  | some boundary => s.fromHistory setup boundary

/-- The resolver task runs for the first time. -/
def startResolver : BarCloser :=
  match s.resolver with
  | some .starting => { s with resolver := some .emitting, stack := .resolve :: s.stack }
  | _ => s

/-- The resolver's sleep between two attempts is over. -/
def wakeResolver : BarCloser :=
  match s.resolver with
  | some (.sleeping boundary deadline attempt) => s.ask boundary deadline attempt
  | _ => s

/-- History answers the resolver. -/
def historyAnswered (result : Option RawBar) : BarCloser × List Record :=
  match s.resolver, result with
  | some (.fetching boundary deadline attempt), some bar =>
    let s := s.observe setup bar.boundarySecs
    if bar.boundarySecs = boundary then (s.resolved boundary (some bar), [.served bar])
    else (s.retry setup boundary deadline attempt, [.served bar])
  | some (.fetching boundary deadline attempt), none =>
    (s.retry setup boundary deadline attempt, [])
  | _, _ => (s, [])

/-- The resolver's request fails, or is given up at its deadline. -/
def historyFailed : BarCloser :=
  match s.resolver with
  | some (.fetching boundary deadline attempt) => s.retry setup boundary deadline attempt
  | _ => s

/-- The resolver's request fails for want of a connection: the entry stays queued. -/
def historyUnreachable : BarCloser :=
  match s.resolver with
  | some (.fetching _ _ _) => s.endResolver
  | _ => s

/-! ## The stream -/

/-- `on_update` from where the update is neither covered, held nor queued. -/
def track (bar : RawBar) : BarCloser :=
  match s.current with
  | none => arm setup { s with current := some bar } bar.boundarySecs
  | some current =>
    if bar.boundarySecs = current.boundarySecs then { s with current := some bar }
    else if current.boundarySecs < bar.boundarySecs then
      enqueue (arm setup { s with current := some bar } bar.boundarySecs)
        current.boundarySecs (some current) false
    else s

/-- `on_update`. -/
def onUpdate (bar : RawBar) : BarCloser :=
  if s.closed then s
  else
    let s := s.observe setup bar.boundarySecs
    if bar.boundarySecs < s.floor || s.isCovered bar.boundarySecs then s
    else if s.holding then { s with held := some bar }
    else if (s.find bar.boundarySecs).isSome then s.enqueue bar.boundarySecs (some bar) true
    else if s.baseline && bar.boundarySecs + setup.period ≤ s.clock then
      enqueue { s with baseline := false } bar.boundarySecs (some bar) true
    else track setup { s with baseline := false } bar

/-- `on_disconnect`. -/
def onDisconnect : BarCloser :=
  if s.closed then s
  else { s.cancelTimer with current := none, held := none, baseline := true }

/-- `close`. -/
def close : BarCloser :=
  { s.cancelTimer with
    closed := true
    current := none
    held := none
    queue := []
    resolver := none
    isDrained := true }

/-- `_on_timer`. A timer that has run is gone. -/
def onTimer : BarCloser :=
  match s.timer, s.current with
  | some (boundary, _), some current =>
    if s.closed || current.boundarySecs ≠ boundary then { s with timer := none }
    else enqueue { s with timer := none, current := none } boundary (some current) true
  | _, _ => s

/-! ## The backfill -/

/-- `backfill`, up to the first turn of its `_pump`. -/
def backfill : BarCloser :=
  if s.closed || s.holding then s
  else
    pump
      { s.cancelTimer with
        holding := true
        held := none
        current := none
        backfilling := some .pumping
        stack := .backfill :: s.stack }

/-- The lower bound of the range a backfill fetches. -/
def rangeStart : ℤ :=
  match s.lastEmitted with
  | some last => max s.floor (last + setup.period)
  | none => s.floor

/-- The end of a backfill that queues no tail. -/
def endBackfill : BarCloser := { s with holding := false, baseline := true, backfilling := none }

/-- The boundaries `_queue_tail` queues, for a range that ended at `stop`. -/
def tailBoundaries (stop : ℤ) : List ℤ :=
  match s.phase with
  | none => []
  | some _ =>
    let newest := s.lastClosedBoundary setup
    let first := min (s.floorBoundary setup stop) newest
    (List.range (((newest - first) / setup.period).toNat + 1)).map fun (i : ℕ) =>
      first + i * setup.period

/-- `backfill` from where `_fetch_and_drain` returned. -/
def queueTail (stop : ℤ) : BarCloser × List Record :=
  if s.closed then (s.endBackfill, [.backfilled])
  else
    ({ s with
        backfilling := some (.tail (s.tailBoundaries setup stop))
        stack := .backfill :: s.stack }, [])

/-- The next turn of a backfill, whose frame is off the stack. -/
def runBackfill : BarCloser × List Record :=
  match s.backfilling with
  | some .pumping =>
    let stop := s.lastClosedBoundary setup
    let start := s.rangeStart setup
    if stop < start then s.queueTail setup stop
    else ({ s with backfilling := some (.fetching start stop) }, [])
  | some (.queueing _ stop []) => ({ s with backfilling := some (.draining stop) }, [])
  | some (.queueing start stop (bar :: bars)) =>
    let s := observe setup
      { s with backfilling := some (.queueing start stop bars), stack := .backfill :: s.stack }
      bar.boundarySecs
    if start ≤ bar.boundarySecs && bar.boundarySecs ≤ stop then
      (s.enqueue bar.boundarySecs (some bar) false, [])
    else (s, [])
  | some (.tail (boundary :: boundaries)) =>
    (enqueue
      { s with backfilling := some (.tail boundaries), stack := .backfill :: s.stack }
      boundary none true, [])
  | some (.tail []) =>
    let replaying :=
      { s with
        holding := false
        baseline := true
        held := none
        backfilling := some .replaying
        stack := .backfill :: s.stack }
    match s.held with
    | some held => (onUpdate setup replaying held, [])
    | none => (replaying, [])
  | some .replaying => ({ s with backfilling := none }, [.backfilled])
  | _ => (s, [])

/-- `fetch_range` answers, and the loop over the sorted bars begins. -/
def rangeAnswered (bars : List RawBar) : BarCloser × List Record :=
  match s.backfilling with
  | some (.fetching start stop) =>
    if s.closed then (s.endBackfill, bars.map .served ++ [.backfilled])
    else
      ({ s with
          backfilling := some (.queueing start stop (sortOn (·.boundarySecs) bars))
          stack := .backfill :: s.stack }, bars.map .served)
  | _ => (s, [])

/-- The wait for the queue to drain is over. How long it lasts is left open: it ends with the queue
empty or at a bound. -/
def drained : BarCloser × List Record :=
  match s.backfilling with
  | some (.draining stop) => s.queueTail setup stop
  | _ => (s, [])

/-- What a backfill awaits raises. -/
def failBackfill : BarCloser × List Record :=
  match s.backfilling with
  | some (.fetching _ _) => (s.endBackfill, [.backfillFailed])
  | some (.draining _) => (s.endBackfill, [.backfillFailed])
  | _ => (s, [])

/-! ## Runs -/

/-- The next turn of the frame on top. -/
def run : BarCloser × List Record :=
  match s.stack with
  | [] => (s, [])
  | .callback :: _ => (s, [])
  | .pump :: below =>
    match s.turn with
    | .ends pending => (handOver { s with stack := below } pending, [])
    | .pops front rest => s.pop front rest
  | .resolve :: below =>
    match s.turn with
    | .ends pending => (resolveNext setup { s with stack := below } pending, [])
    | .pops front rest => s.pop front rest
  | .backfill :: below => runBackfill setup { s with stack := below }

/-- The emit callback returns, or raises. -/
def returns : BarCloser :=
  match s.stack with
  | .callback :: below => { s with stack := below }
  | _ => s

/-- Nothing of the closer is running. -/
def idle : Bool := s.stack = []

/-- The outside world may call the closer: nothing of it is running, or it waits for the callback. -/
def mayCall : Bool :=
  match s.stack with
  | [] => true
  | frame :: _ => frame = .callback

end BarCloser

/-- Everything that can happen to a closer. -/
inductive Action
  | tick (now : ℚ)
  | onUpdate (bar : RawBar)
  | onDisconnect
  | close
  | returns
  | run
  | timer
  | startResolver
  | wakeResolver
  | historyAnswered (result : Option RawBar)
  | historyFailed
  | historyUnreachable
  | backfill
  | rangeAnswered (bars : List RawBar)
  | drained
  | failBackfill
deriving DecidableEq, Repr

/-- The closer as a machine. Only a call from the emit callback comes while something is running. -/
def machine (setup : Setup) : Machine BarCloser Action Record where
  step s
    | .tick now => ({ s with clock := now }, [])
    | .onUpdate bar => if s.mayCall then (s.onUpdate setup bar, [.streamed bar]) else (s, [])
    | .onDisconnect => if s.mayCall then (s.onDisconnect, []) else (s, [])
    | .close => if s.mayCall then (s.close, [.closed]) else (s, [])
    | .returns => (s.returns, [])
    | .run => s.run setup
    | .timer => if s.idle then (s.onTimer, []) else (s, [])
    | .startResolver => if s.idle then (s.startResolver, []) else (s, [])
    | .wakeResolver => if s.idle then (s.wakeResolver, []) else (s, [])
    | .historyAnswered result => if s.idle then s.historyAnswered setup result else (s, [])
    | .historyFailed => if s.idle then (s.historyFailed setup, []) else (s, [])
    | .historyUnreachable => if s.idle then (s.historyUnreachable, []) else (s, [])
    | .backfill => if s.idle then (s.backfill, []) else (s, [])
    | .rangeAnswered bars => if s.idle then s.rangeAnswered bars else (s, [])
    | .drained => if s.idle then s.drained setup else (s, [])
    | .failBackfill => if s.idle then s.failBackfill else (s, [])

/-- A closer constructed at `clock`. -/
def BarCloser.new (setup : Setup) (clock : ℚ) : BarCloser where
  floor := ⌊clock⌋ - setup.period + 1
  clock := clock

end Bars

end NautilusCtrader
