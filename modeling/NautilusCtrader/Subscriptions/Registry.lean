import Mathlib.Data.Finset.Card
import NautilusCtrader.Common.Dict
import NautilusCtrader.Common.Machine

/-!
# The registry of venue subscriptions

Consumers share the spot and trendbar subscriptions of one account. A call takes the lock of its key,
and a trendbar call inside it that of the symbol's spots; between two awaits it runs undisturbed. The
session's bring-up and its retries run the restores, under the same locks. `machine` lets one task take
its next turn, the venue act on one request, or the connection be lost, in any order; a lock that is free
goes to any task that waits for it. No call is cancelled and no answer lost: the connection is lost only
while no request is out.

What a consumer is active for, its last prices and its listeners are left out.
-/

namespace NautilusCtrader

open Common

namespace Subscriptions

/-! ## Keys and consumers -/

/-- `_Key`. -/
inductive Key
  | spots (symbolId : ℤ)
  | trendbar (symbolId period : ℤ)
deriving DecidableEq, Repr

/-- `_spots_key` of a key's symbol. -/
def Key.spotsKey : Key → Key
  | spots symbolId => spots symbolId
  | trendbar symbolId _ => spots symbolId

/-- `_Consumer`: the same name under two owners is two consumers. -/
structure Consumer where
  owner : String
  name : String
deriving DecidableEq, Repr

/-- `_trendbar_spot_consumer`. -/
def trendbarSpotConsumer (period : ℤ) (consumer : Consumer) : Consumer :=
  ⟨consumer.owner, "trendbar:" ++ toString period ++ ":" ++ consumer.name⟩

/-- The consumer a trendbar key's consumer holds the spots under. -/
def Key.leg (key : Key) (consumer : Consumer) : Consumer :=
  match key with
  | spots _ => consumer
  | trendbar _ period => trendbarSpotConsumer period consumer

/-! ## Calls -/

/-- Why a trendbar call takes the spots' lock inside its own. -/
inductive LegUse
  /-- To hold the spots before the trendbars are subscribed. -/
  | take
  /-- To release them again after the venue refused the trendbars. -/
  | giveBack
  /-- To release them once the trendbars are. -/
  | drop
deriving DecidableEq, Repr

/-- Where a call stands; a request that is out has an answer once the venue has acted on it. -/
inductive Stage
  /-- It waits for the lock of its key. -/
  | waits
  /-- It holds that lock and its key's request is out. -/
  | asks (answer : Option Bool)
  /-- It holds that lock and waits for the one of the spots. -/
  | legWaits (use : LegUse)
  /-- It holds both and the spots' request is out. -/
  | legAsks (use : LegUse) (answer : Option Bool)
deriving DecidableEq, Repr

/-- A running `subscribe_spots`, `unsubscribe_spots`, `subscribe_trendbars` or
`unsubscribe_trendbars`. -/
structure Call where
  subscribe : Bool
  key : Key
  consumer : Consumer
  stage : Stage := .waits
deriving DecidableEq, Repr

/-- A request that is out. -/
structure Flight where
  subscribe : Bool
  key : Key
  consumer : Consumer
  answer : Option Bool
deriving DecidableEq, Repr

namespace Call

variable (c : Call)

def leg : Consumer := c.key.leg c.consumer

def flight : Option Flight :=
  match c.stage with
  | .asks answer => some ⟨c.subscribe, c.key, c.consumer, answer⟩
  | .legAsks use answer => some ⟨use = .take, c.key.spotsKey, c.leg, answer⟩
  | _ => none

/-- Whether the call holds a key's lock. -/
def holds (key : Key) : Bool :=
  match c.stage with
  | .waits => false
  | .asks _ | .legWaits _ => key = c.key
  | .legAsks _ _ => key = c.key || key = c.key.spotsKey

/-- The call once the venue has acted on its request. -/
def acted (ok : Bool) : Call :=
  match c.stage with
  | .asks _ => { c with stage := .asks (some ok) }
  | .legAsks use _ => { c with stage := .legAsks use (some ok) }
  | _ => c

end Call

/-! ## Restores -/

/-- Where a restore stands. -/
inductive RestoreStage
  | waits
  | asks (answer : Option Bool)
deriving DecidableEq, Repr

/-- A running `_restore` of a key. -/
structure Restore where
  key : Key
  /-- Whether the spots' request of a trendbar restore is still to come. -/
  first : Bool
  stage : RestoreStage := .waits
deriving DecidableEq, Repr

namespace Restore

variable (r : Restore)

/-- The restore of a key, before its first request: spots first. -/
def new : Key → Restore
  | .spots symbolId => ⟨.spots symbolId, false, .waits⟩
  | .trendbar symbolId period => ⟨.trendbar symbolId period, true, .waits⟩

/-- The key its next request subscribes. -/
def request : Key := if r.first then r.key.spotsKey else r.key

def answer? : Option (Option Bool) :=
  match r.stage with
  | .waits => none
  | .asks answer => some answer

def holds (key : Key) : Bool := r.stage ≠ .waits && key = r.key

end Restore

/-- How a restore ends: `lost` is a connection error. -/
inductive RestoreEnd
  | done | refused | lost
deriving DecidableEq, Repr

/-! ## The session -/

inductive SessionState
  | connecting | authenticating | restoring | ready
deriving DecidableEq, Repr

/-- Where the supervisor stands. -/
inductive Supervisor
  /-- Between two bring-ups. -/
  | backsOff
  /-- In `_bring_up`, before the restores. -/
  | bringsUp
  /-- In `_bring_up`'s loop over the restores. -/
  | restores (left : List Key) (current : Option Restore)
  /-- `_bring_up` has returned. -/
  | up
deriving DecidableEq, Repr

/-- A running `retry_failed_restores`; the current restore goes with the bring-up it was begun in. -/
structure Retry where
  left : List Key
  current : Option (Restore × ℕ)
deriving DecidableEq, Repr

/-- The registry, its session and the venue. -/
structure World where
  consumers : Dict Key (Finset Consumer) := Dict.empty
  calls : Dict ℕ Call := Dict.empty
  state : SessionState := .connecting
  supervisor : Supervisor := .backsOff
  /-- The session's registered restores, in the order they were added. -/
  restores : List Key := []
  failed : Finset Key := ∅
  retry : Option Retry := none
  generation : ℕ := 0
  /-- The subscriptions of the connection that the venue holds. -/
  subscribed : Finset Key := ∅

namespace World

variable (w : World)

/-- `_accepting_session`. -/
def accepting : Bool := w.state = .restoring || w.state = .ready

/-- The consumers counted on a key. -/
def counted (key : Key) : Finset Consumer := (w.consumers.get? key).getD ∅

def bringUpRestore : Option Restore :=
  match w.supervisor with
  | .restores _ current => current
  | _ => none

def retryRestore : Option Restore := w.retry.bind fun retry => retry.current.map Prod.fst

/-- Whether no task holds a key's lock. -/
def free (key : Key) : Bool :=
  w.calls.values.all (fun c => !c.holds key) && w.bringUpRestore.all (fun r => !r.holds key) &&
    w.retryRestore.all fun r => !r.holds key

/-- Whether no request is out. -/
def quiet : Bool :=
  w.calls.values.all (fun c => c.flight.isNone) && w.bringUpRestore.all (fun r => r.answer?.isNone) &&
    w.retryRestore.all fun r => r.answer?.isNone

/-! ## Counting -/

/-- `_record`. -/
def record (key : Key) (consumer : Consumer) : World :=
  { w with
    consumers := w.consumers.set key (insert consumer (w.counted key))
    restores := if key ∈ w.restores then w.restores else w.restores ++ [key] }

/-- `_acquire`, up to its request: the flag says that one is sent. -/
def acquire (key : Key) (consumer : Consumer) : World × Bool :=
  match w.consumers.get? key with
  | some consumers =>
    ({ w with consumers := w.consumers.set key (insert consumer consumers) }, false)
  | none => if w.accepting then (w, true) else (w.record key consumer, false)

/-- The end of `_release`, for the last consumer. -/
def drop (key : Key) : World :=
  { w with
    consumers := w.consumers.erase key
    restores := w.restores.filter (· ≠ key)
    failed := w.failed.erase key }

/-- `_release`, up to its request: the flag says that one is sent. -/
def release (key : Key) (consumer : Consumer) : World × Bool :=
  match w.consumers.get? key with
  | none => (w, false)
  | some consumers =>
    if consumer ∉ consumers then (w, false)
    else if 1 < consumers.card then
      ({ w with consumers := w.consumers.set key (consumers.erase consumer) }, false)
    else if w.accepting then (w, true)
    else (w.drop key, false)

/-! ## The turns of a call -/

def setCall (id : ℕ) (c : Call) : World := { w with calls := w.calls.set id c }

def endCall (id : ℕ) : World := { w with calls := w.calls.erase id }

/-- What follows the section under its own key's lock. -/
def afterOwn (id : ℕ) (c : Call) : World :=
  match c.key with
  | .spots _ => w.endCall id
  | .trendbar _ _ =>
    if c.subscribe then w.endCall id else w.setCall id { c with stage := .legWaits .drop }

/-- The section under its own key's lock. -/
def own (id : ℕ) (c : Call) : World :=
  let done := if c.subscribe then w.acquire c.key c.consumer else w.release c.key c.consumer
  if done.2 then done.1.setCall id { c with stage := .asks none } else done.1.afterOwn id c

/-- What follows the section under the spots' lock. -/
def afterLeg (id : ℕ) (c : Call) (use : LegUse) : World :=
  match use with
  | .take => w.own id c
  | .giveBack | .drop => w.endCall id

/-- The section under the spots' lock. -/
def legSection (id : ℕ) (c : Call) (use : LegUse) : World :=
  let done := match use with
    | .take => w.acquire c.key.spotsKey c.leg
    | .giveBack | .drop => w.release c.key.spotsKey c.leg
  if done.2 then done.1.setCall id { c with stage := .legAsks use none }
  else done.1.afterLeg id c use

/-- A call takes the lock it waits for. -/
def enter (id : ℕ) : World :=
  match w.calls.get? id with
  | none => w
  | some c =>
    match c.stage with
    | .waits =>
      if !w.free c.key then w
      else
        match c.key with
        | .spots _ => w.own id c
        | .trendbar _ _ =>
          if !c.subscribe then w.own id c
          else if c.consumer ∈ w.counted c.key then w.endCall id
          else w.setCall id { c with stage := .legWaits .take }
    | .legWaits use => if w.free c.key.spotsKey then w.legSection id c use else w
    | _ => w

/-- A call gets the answer to its request. -/
def answered (id : ℕ) : World :=
  match w.calls.get? id with
  | none => w
  | some c =>
    match c.stage with
    | .asks (some ok) =>
      if !c.subscribe then (w.drop c.key).afterOwn id c
      else if ok then (w.record c.key c.consumer).afterOwn id c
      else
        match c.key with
        | .spots _ => w.endCall id
        | .trendbar _ _ => w.setCall id { c with stage := .legWaits .giveBack }
    | .legAsks use (some ok) =>
      if use ≠ .take then (w.drop c.key.spotsKey).afterLeg id c use
      else if ok then (w.record c.key.spotsKey c.leg).afterLeg id c use
      else w.endCall id
    | _ => w

/-! ## The venue -/

/-- The venue acts on a subscribe: it may refuse any, and must refuse trendbars without their spots. -/
def venueSubscribe (accept : Bool) (key : Key) : Finset Key × Bool :=
  if accept && (key.spotsKey = key || key.spotsKey ∈ w.subscribed) then (insert key w.subscribed, true)
  else (w.subscribed, false)

/-- The venue acts on an unsubscribe: it refuses none of a key it holds. -/
def venueUnsubscribe (accept : Bool) (key : Key) : Finset Key × Bool :=
  if key ∈ w.subscribed then (w.subscribed.erase key, true) else (w.subscribed, accept)

/-- The venue acts on a call's request. -/
def actOn (id : ℕ) (accept : Bool) : World :=
  match w.calls.get? id with
  | none => w
  | some c =>
    match c.flight with
    | some ⟨subscribe, key, _, none⟩ =>
      let acted := if subscribe then w.venueSubscribe accept key else w.venueUnsubscribe accept key
      { w with subscribed := acted.1 }.setCall id (c.acted acted.2)
    | _ => w

/-! ## The turns of a restore -/

/-- A restore takes the lock it waits for. -/
def restoreEnters (r : Restore) : Restore ⊕ RestoreEnd :=
  if w.counted r.key = ∅ then .inr .done
  else if w.accepting then .inl { r with stage := .asks none }
  else .inr .lost

/-- A restore gets the answer to its request. -/
def restoreAnswered (r : Restore) (ok : Bool) : Restore ⊕ RestoreEnd :=
  if !ok then .inr .refused
  else if r.first then .inl { r with first := false, stage := .waits }
  else .inr .done

/-- `_bring_up` goes on after a turn of the restore it runs. -/
def bringUpTurn (left : List Key) (key : Key) : Restore ⊕ RestoreEnd → World
  | .inl r => { w with supervisor := .restores left (some r) }
  | .inr .done => { w with supervisor := .restores left none }
  | .inr .refused => { w with supervisor := .restores left none, failed := insert key w.failed }
  | .inr .lost => { w with supervisor := .backsOff }

/-- `retry_failed_restores` goes on after a turn of the restore it runs, which was begun in the bring-up
`generation`. -/
def retryTurn (left : List Key) (key : Key) (generation : ℕ) : Restore ⊕ RestoreEnd → World
  | .inl r => { w with retry := some ⟨left, some (r, generation)⟩ }
  | .inr .lost => { w with retry := none }
  | .inr ended =>
    if generation ≠ w.generation ∨ w.state ≠ .ready then { w with retry := none }
    else
      { w with
        retry := some ⟨left, none⟩
        failed := if ended = .done then w.failed.erase key else w.failed }

/-- The next turn of a restore: it takes its lock, the venue acts on its request, or it is answered. -/
inductive RestoreTurn
  | enters
  | acted (accept : Bool)
  | answered
deriving DecidableEq, Repr

/-- What a turn of a restore leaves of it, and of the venue's subscriptions; `none` when it is not the
restore's turn. -/
def restoreTurn (r : Restore) : RestoreTurn → Option (Finset Key × (Restore ⊕ RestoreEnd))
  | .enters =>
    if r.stage = .waits ∧ w.free r.key = true then some (w.subscribed, w.restoreEnters r) else none
  | .acted accept =>
    if r.stage = .asks none then
      let acted := w.venueSubscribe accept r.request
      some (acted.1, .inl { r with stage := .asks (some acted.2) })
    else none
  | .answered =>
    match r.stage with
    | .asks (some ok) => some (w.subscribed, restoreAnswered r ok)
    | _ => none

/-- A turn of the restore that the bring-up runs. -/
def bringUpRuns (turn : RestoreTurn) : World :=
  match w.supervisor with
  | .restores left (some r) =>
    match w.restoreTurn r turn with
    | none => w
    | some (subscribed, result) => { w with subscribed }.bringUpTurn left r.key result
  | _ => w

/-- A turn of the restore that a retry runs. -/
def retryRuns (turn : RestoreTurn) : World :=
  match w.retry with
  | some ⟨left, some (r, generation)⟩ =>
    match w.restoreTurn r turn with
    | none => w
    | some (subscribed, result) => { w with subscribed }.retryTurn left r.key generation result
  | _ => w

/-! ## The session's other steps -/

/-- `_bring_up` begins. -/
def bringUp : World :=
  match w.supervisor with
  | .backsOff =>
    { w with
      supervisor := .bringsUp, state := .connecting, failed := ∅, generation := w.generation + 1 }
  | _ => w

/-- The connection is there, and is authenticated on. -/
def connected : World :=
  if w.supervisor = .bringsUp then { w with state := .authenticating } else w

/-- Authenticated: the restores begin, as they are registered now. -/
def authenticated : World :=
  if w.supervisor = .bringsUp ∧ w.state = .authenticating then
    { w with supervisor := .restores w.restores none, state := .restoring }
  else w

/-- The loop of `_bring_up` begins its next restore. -/
def restoreNext : World :=
  match w.supervisor with
  | .restores (key :: left) none => { w with supervisor := .restores left (some (.new key)) }
  | _ => w

/-- The loop is over: ready, or lost meanwhile. -/
def restored : World :=
  match w.supervisor with
  | .restores [] none =>
    if w.state = .restoring then { w with supervisor := .up, state := .ready }
    else { w with supervisor := .backsOff }
  | _ => w

/-- The connection, or the account's authentication on it, is lost, and the venue's subscriptions with
it. No request is under way: an unanswered one would lose its answer, and a call that is answered takes
its turn before the loss is acted on. -/
def lose : World :=
  if !w.quiet then w
  else
    { w with
      state := .connecting
      subscribed := ∅
      supervisor := match w.supervisor with
        | .restores left current => .restores left current
        | _ => .backsOff }

/-- `retry_failed_restores` begins, over the failed restores in some order. -/
def retryBegins (keys : List Key) : World :=
  if w.retry = none ∧ w.state = .ready ∧ keys.toFinset = w.failed then
    { w with retry := some ⟨keys, none⟩ }
  else w

/-- The loop of `retry_failed_restores` goes on with the next key. -/
def retryNext : World :=
  match w.retry with
  | some ⟨[], none⟩ => { w with retry := none }
  | some ⟨key :: left, none⟩ =>
    if w.state ≠ .ready then { w with retry := none }
    -- The restore may have been removed since.
    else if key ∉ w.restores then
      { w with retry := some ⟨left, none⟩, failed := w.failed.erase key }
    else { w with retry := some ⟨left, some (.new key, w.generation)⟩ }
  | _ => w

end World

/-! ## The machine -/

/-- What can happen next. -/
inductive Action
  | call (id : ℕ) (subscribe : Bool) (key : Key) (consumer : Consumer)
  | enters (id : ℕ)
  | acted (id : ℕ) (accept : Bool)
  | answered (id : ℕ)
  | bringUp
  | connected
  | authenticated
  | restoreNext
  | bringUpRuns (turn : World.RestoreTurn)
  | restored
  | lose
  | retryBegins (keys : List Key)
  | retryNext
  | retryRuns (turn : World.RestoreTurn)
deriving DecidableEq, Repr

/-- One step: an action out of turn changes nothing. -/
def World.step (w : World) : Action → World
  | .call id subscribe key consumer =>
    if w.calls.contains id then w else w.setCall id { subscribe, key, consumer }
  | .enters id => w.enter id
  | .acted id accept => w.actOn id accept
  | .answered id => w.answered id
  | .bringUp => w.bringUp
  | .connected => w.connected
  | .authenticated => w.authenticated
  | .restoreNext => w.restoreNext
  | .bringUpRuns turn => w.bringUpRuns turn
  | .restored => w.restored
  | .lose => w.lose
  | .retryBegins keys => w.retryBegins keys
  | .retryNext => w.retryNext
  | .retryRuns turn => w.retryRuns turn

def machine : Machine World Action Empty where
  step w action := (w.step action, [])

end Subscriptions

end NautilusCtrader
