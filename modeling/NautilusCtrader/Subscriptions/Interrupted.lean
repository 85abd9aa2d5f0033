import Mathlib.Algebra.Order.Field.Rat
import NautilusCtrader.Subscriptions.Counting

/-!
# The registry with calls cut short

The same calls as they may end: cancelled at any await, their request lost or refused, the session they
went through replaced. `World` holds what the registry keeps of them, an intent for each consumer still to
be released and each symbol's last spot included. A call still takes the lock of its key, a trendbar call
inside it that of the symbol's spots, and a restore that of its key for each request.

What an intent wants, listeners and the session's own order of restores are left out.
-/

namespace NautilusCtrader

open Common

namespace Subscriptions

namespace Interrupted

/-! ## The session -/

inductive SessionState
  | stopped | connecting | authenticating | restoring | ready
deriving DecidableEq, Repr

/-- What the registry sees of an attached session. -/
structure Session where
  id : ℕ
  state : SessionState := .stopped
  /-- Whether its connection was lost, or its bring-up failed, since the bring-up began. -/
  lost : Bool := false
  generation : ℕ := 0
  /-- The keys the registry has a restore registered for. -/
  restores : List Key := []
  failed : Finset Key := ∅
deriving DecidableEq

namespace Session

variable (s : Session)

/-- Whether its state is one of `_ACCEPTING`. -/
def accepting : Bool := s.state = .ready || s.state = .restoring

def addRestore (key : Key) : Session :=
  { s with restores := if key ∈ s.restores then s.restores else s.restores ++ [key] }

def removeRestore (key : Key) : Session :=
  { s with restores := s.restores.filter (· ≠ key), failed := s.failed.erase key }

def markRestoreFailed (key : Key) : Session :=
  if key ∈ s.restores then { s with failed := insert key s.failed } else s

/-- `_bring_up` connects. -/
def bringUp : Session :=
  { s with state := .connecting, lost := false, failed := ∅, generation := s.generation + 1 }

/-- It is connected, and authenticates. -/
def connected : Session :=
  if s.state = .connecting ∧ s.lost = false then { s with state := .authenticating } else s

/-- It is authenticated, and restores. -/
def authenticated : Session :=
  if s.state = .authenticating then { s with state := .restoring } else s

/-- It is ready; some restores failed. -/
def restored (failed : Finset Key) : Session :=
  if s.state = .restoring then { s with state := .ready, failed } else s

/-- Its connection is lost, or its bring-up fails. -/
def lose : Session := { s with state := .connecting, lost := true }

def stop : Session := { s with state := .stopped, lost := true }

end Session

/-! ## Spots -/

/-- `ProtoOASpotEvent`, as far as the registry keeps it. -/
structure SpotEvent where
  symbolId : ℤ
  bid : Option ℕ := none
  ask : Option ℕ := none
  timestamp : Option ℕ := none
deriving DecidableEq, Repr

/-- `LastSpot`; `time` is its `at`. -/
structure LastSpot where
  bid : Option ℕ
  ask : Option ℕ
  time : ℚ
  timestamp : Option ℕ := none
deriving DecidableEq

/-- What has happened to the spots of a registry. -/
inductive Happened
  | attached
  | bringUp
  | spot (event : SpotEvent)
  /-- The last consumer's release of a symbol's spots completed. -/
  | released (symbolId : ℤ)
  /-- It was cancelled with its request out. -/
  | releaseCancelled (symbolId : ℤ)
deriving DecidableEq, Repr

/-! ## Calls -/

/-- Where a call stands; a request goes through one session. -/
inductive Stage
  | waits
  | asks (session : ℕ)
  | legWaits (use : LegUse)
  | legAsks (use : LegUse) (session : ℕ)
deriving DecidableEq, Repr

structure Call where
  subscribe : Bool
  key : Key
  consumer : Consumer
  stage : Stage := .waits
deriving DecidableEq, Repr

namespace Call

variable (c : Call)

def leg : Consumer := c.key.leg c.consumer

/-- Whether the call holds a key's lock. -/
def holds (key : Key) : Bool :=
  match c.stage with
  | .waits => false
  | .asks _ | .legWaits _ => key = c.key
  | .legAsks _ _ => key = c.key || key = c.key.spotsKey

/-- The key and the consumer that a release under way is of. -/
def releases : Option (Key × Consumer) :=
  match c.stage with
  | .asks _ => if c.subscribe then none else some (c.key, c.consumer)
  | .legAsks .take _ => none
  | .legAsks _ _ => some (c.key.spotsKey, c.leg)
  | _ => none

end Call

/-- How the await of a request ends. `ok` is also a subscribe answered with `ALREADY_SUBSCRIBED`, and
`failed` any error of the adapter's but a refusal, a lost connection and a timeout. -/
inductive Outcome
  | ok | refused | lost | failed | cancelled
deriving DecidableEq, Repr

/-- What a section of a call raises. -/
inductive Raised
  | refused | failed | cancelled
deriving DecidableEq, Repr

/-! ## The registry -/

/-- `SubscriptionRegistry`, its session, and the calls and restores that run. -/
structure World where
  session : Option Session := none
  /-- How many sessions have been attached. -/
  sessions : ℕ := 0
  consumers : Dict Key (Finset Consumer) := Dict.empty
  /-- `_intents`, each by how many subscribe calls of its consumer run. -/
  intents : Dict Key (Dict Consumer ℕ) := Dict.empty
  maybeUnsubscribed : Finset Key := ∅
  /-- Each symbol's last spot, with the bring-up it came in. -/
  lastSpots : Dict ℤ (ℕ × LastSpot) := Dict.empty
  calls : Dict ℕ Call := Dict.empty
  /-- The restores that run, each with its session. -/
  restores : Dict ℕ (Restore × ℕ) := Dict.empty
  /-- What has happened, oldest first. -/
  history : List Happened := []
deriving DecidableEq

namespace World

variable (w : World)

/-- `_accepting_session`. -/
def acceptingSession : Option Session := w.session.filter Session.accepting

/-- The consumers counted on a key. -/
def counted (key : Key) : Finset Consumer := (w.consumers.get? key).getD ∅

/-- `_counted`: whether any of a consumer's references on a key is counted, a trendbar's spots leg too. -/
def isCounted (key : Key) (consumer : Consumer) : Bool :=
  match key with
  | .spots _ => consumer ∈ w.counted key
  | .trendbar symbolId period =>
    consumer ∈ w.counted key || trendbarSpotConsumer period consumer ∈ w.counted (.spots symbolId)

/-- How many subscribe calls a consumer's intent is pending for, if it has one. -/
def intent? (key : Key) (consumer : Consumer) : Option ℕ :=
  (w.intents.get? key).bind fun intents => intents.get? consumer

def setIntent (key : Key) (consumer : Consumer) (pending : ℕ) : World :=
  { w with intents := w.intents.set key (((w.intents.get? key).getD Dict.empty).set consumer pending) }

/-- A consumer's intent goes, and its key's dictionary once empty. -/
def forgetIntent (key : Key) (consumer : Consumer) : World :=
  let rest := ((w.intents.get? key).getD Dict.empty).erase consumer
  { w with intents := if rest.keys = [] then w.intents.erase key else w.intents.set key rest }

/-- `_settle`. -/
def settle (key : Key) (consumer : Consumer) : World :=
  match w.intent? key consumer with
  | none => w
  | some pending =>
    if pending ≠ 0 ∨ w.isCounted key consumer = true then w else w.forgetIntent key consumer

/-- Whether no task holds a key's lock. -/
def free (key : Key) : Bool :=
  w.calls.values.all (fun c => !c.holds key) && w.restores.values.all fun r => !r.1.holds key

/-! ## Counting -/

/-- `_record`. -/
def record (key : Key) (consumer : Consumer) : World :=
  { w with
    consumers := w.consumers.set key (insert consumer (w.counted key))
    session := w.session.map (·.addRestore key) }

/-- Whether a session is the one that accepts requests. -/
def accepts (session : ℕ) : Bool := w.acceptingSession.any fun s => s.id = session

/-- `_record_unknown`. -/
def recordUnknown (session : ℕ) (key : Key) (consumer : Consumer) : World :=
  let w := w.record key consumer
  if w.accepts session then { w with session := w.session.map (·.markRestoreFailed key) } else w

/-- `_acquire`, up to its request, and the session that goes through. -/
def acquire (key : Key) (consumer : Consumer) : World × Option ℕ :=
  if w.consumers.contains key ∧ key ∉ w.maybeUnsubscribed then
    ({ w with consumers := w.consumers.set key (insert consumer (w.counted key)) }, none)
  else
    match w.acceptingSession with
    | none => (w.record key consumer, none)
    | some session => (w, some session.id)

/-- `_acquire`, from its request's outcome on. -/
def acquired (session : ℕ) (key : Key) (consumer : Consumer) : Outcome → World × Option Raised
  | .ok =>
    let w := w.record key consumer
    ({ w with maybeUnsubscribed := w.maybeUnsubscribed.erase key }, none)
  | .refused => (w, some .refused)
  | .lost => (w.recordUnknown session key consumer, none)
  | .failed =>
    if w.accepts session then (w, some .failed) else (w.recordUnknown session key consumer, none)
  | .cancelled => (w.recordUnknown session key consumer, some .cancelled)

/-- The symbol's last spot goes, if the key is of spots. -/
def dropSpot (key : Key) (happened : ℤ → Happened) : World :=
  match key with
  | .spots symbolId =>
    { w with
      lastSpots := w.lastSpots.erase symbolId
      history := w.history ++ [happened symbolId] }
  | .trendbar _ _ => w

/-- The end of `_release`, for the last consumer. -/
def drop (key : Key) : World :=
  let w : World :=
    { w with
      consumers := w.consumers.erase key
      maybeUnsubscribed := w.maybeUnsubscribed.erase key
      session := w.session.map (·.removeRestore key) }
  w.dropSpot key .released

/-- `_release`, up to its request, and the session that goes through. -/
def release (key : Key) (consumer : Consumer) : World × Option ℕ :=
  if consumer ∉ w.counted key then (w, none)
  else if 1 < (w.counted key).card then
    ({ w with consumers := w.consumers.set key ((w.counted key).erase consumer) }, none)
  else
    match w.acceptingSession with
    | none => (w.drop key, none)
    | some session => (w, some session.id)

/-- `_release`, from its request's outcome on: only a cancelled one keeps the consumer. -/
def released (key : Key) : Outcome → World
  | .cancelled =>
    { w with maybeUnsubscribed := insert key w.maybeUnsubscribed }.dropSpot key .releaseCancelled
  | _ => w.drop key

/-! ## The turns of a call -/

def setCall (id : ℕ) (c : Call) : World := { w with calls := w.calls.set id c }

/-- A call begins: it enters `_subscribing` or `_releasing`. -/
def beginCall (id : ℕ) (subscribe : Bool) (key : Key) (consumer : Consumer) : World :=
  let pending := (w.intent? key consumer).getD 0
  (w.setIntent key consumer (if subscribe then pending + 1 else pending)).setCall id
    { subscribe, key, consumer }

/-- A subscribe call's intent as it leaves `_subscribing`. -/
def unpend (c : Call) : World :=
  match w.intent? c.key c.consumer with
  | none => w
  | some pending => if c.subscribe then w.setIntent c.key c.consumer (pending - 1) else w

/-- A call ends: it leaves `_subscribing` or `_releasing`. -/
def endCall (id : ℕ) (c : Call) : World :=
  let w := (w.unpend c).settle c.key c.consumer
  { w with calls := w.calls.erase id }

/-- What follows the section under its own key's lock, and what that raised. -/
def afterOwn (id : ℕ) (c : Call) (raised : Option Raised) : World :=
  match c.key with
  | .spots _ => w.endCall id c
  | .trendbar _ _ =>
    if !c.subscribe then w.setCall id { c with stage := .legWaits .drop }
    else if raised = some .refused then w.setCall id { c with stage := .legWaits .giveBack }
    else w.endCall id c

/-- The section under its own key's lock. -/
def own (id : ℕ) (c : Call) : World :=
  let done := if c.subscribe then w.acquire c.key c.consumer else w.release c.key c.consumer
  match done.2 with
  | some session => done.1.setCall id { c with stage := .asks session }
  | none => done.1.afterOwn id c none

/-- The section under the spots' lock. -/
def legSection (id : ℕ) (c : Call) (use : LegUse) : World :=
  let done := if use = .take then w.acquire c.key.spotsKey c.leg else w.release c.key.spotsKey c.leg
  match done.2 with
  | some session => done.1.setCall id { c with stage := .legAsks use session }
  | none => if use = .take then done.1.own id c else done.1.endCall id c

/-- A call takes the lock it waits for. -/
def enter (id : ℕ) : World :=
  match w.calls.get? id with
  | none => w
  | some c =>
    match c.stage with
    | .waits =>
      if !w.free c.key then w
      else if c.subscribe = false ∨ c.key.spotsKey = c.key then w.own id c
      else if c.consumer ∈ w.counted c.key ∧ c.key ∉ w.maybeUnsubscribed then w.endCall id c
      else w.setCall id { c with stage := .legWaits .take }
    | .legWaits use => if w.free c.key.spotsKey then w.legSection id c use else w
    | _ => w

/-- The await of a call's request ends. -/
def answered (id : ℕ) (outcome : Outcome) : World :=
  match w.calls.get? id with
  | none => w
  | some c =>
    match c.stage with
    | .asks session =>
      if c.subscribe then
        let done := w.acquired session c.key c.consumer outcome
        done.1.afterOwn id c done.2
      else (w.released c.key outcome).afterOwn id c none
    | .legAsks use session =>
      if use = .take then
        let done := w.acquired session c.key.spotsKey c.leg outcome
        if done.2 = none then done.1.own id c else done.1.endCall id c
      else (w.released c.key.spotsKey outcome).endCall id c
    | _ => w

/-- A call is cancelled at the await it stands at. -/
def cancel (id : ℕ) : World :=
  match w.calls.get? id with
  | none => w
  | some c =>
    match c.stage with
    | .waits | .legWaits _ => w.endCall id c
    | _ => w.answered id .cancelled

/-! ## The turns of a restore -/

def setRestore (id : ℕ) (r : Restore) (session : ℕ) : World :=
  { w with restores := w.restores.set id (r, session) }

/-- A restore ends: it is done, or raises. -/
def endRestore (id : ℕ) : World := { w with restores := w.restores.erase id }

/-- The session runs the restore registered for a key. -/
def beginRestore (id : ℕ) (key : Key) : World :=
  match w.acceptingSession with
  | none => w
  | some s => if key ∈ s.restores then w.setRestore id (.new key) s.id else w

/-- A restore takes the lock it waits for. -/
def enterRestore (id : ℕ) : World :=
  match w.restores.get? id with
  | none => w
  | some (r, session) =>
    if r.stage ≠ .waits ∨ w.free r.key = false then w
    else if w.consumers.contains r.key ∧ w.accepts session then
      w.setRestore id { r with stage := .asks none } session
    else w.endRestore id

/-- The await of a restore's request ends. -/
def answerRestore (id : ℕ) (ok : Bool) : World :=
  match w.restores.get? id with
  | none => w
  | some (r, session) =>
    if r.stage = .waits then w
    else if !ok then w.endRestore id
    else if r.first then w.setRestore id { r with first := false, stage := .waits } session
    else { w with maybeUnsubscribed := w.maybeUnsubscribed.erase r.key }.endRestore id

/-! ## Sessions and spots -/

/-- `attach`, of a new session. -/
def attach : World :=
  { w with
    session := some { id := w.sessions, restores := w.consumers.keys }
    sessions := w.sessions + 1
    lastSpots := Dict.empty
    history := w.history ++ [.attached] }

def detach : World := { w with session := none, lastSpots := Dict.empty }

/-- The session begins a bring-up; one that accepts requests loses its connection first. -/
def bringUp : World :=
  match w.session with
  | none => w
  | some s =>
    if s.accepting then w
    else { w with session := some s.bringUp, history := w.history ++ [.bringUp] }

/-- The session does something else. -/
def onSession (f : Session → Session) : World := { w with session := w.session.map f }

/-- `_holds_spots`. -/
def holdsSpots (symbolId : ℤ) : Bool :=
  w.consumers.contains (.spots symbolId) ||
    w.intents.keys.any fun key => key.spotsKey = .spots symbolId

/-- A symbol's spot, if it was kept in this bring-up. -/
def keptIn (generation : ℕ) (symbolId : ℤ) : Option LastSpot :=
  match w.lastSpots.get? symbolId with
  | none => none
  | some kept => if kept.1 = generation then some kept.2 else none

/-- `_keep`: the spot a spot event makes, over the one kept. -/
def keep (event : SpotEvent) (now : ℚ) : World :=
  match w.session with
  | none => w
  | some s =>
    if event.bid = none ∧ event.ask = none ∨ w.holdsSpots event.symbolId = false then w
    else
      let last := w.keptIn s.generation event.symbolId
      let spot : LastSpot :=
        { bid := event.bid.or (last.bind LastSpot.bid)
          ask := event.ask.or (last.bind LastSpot.ask)
          time := now
          timestamp := event.timestamp }
      { w with lastSpots := w.lastSpots.set event.symbolId (s.generation, spot) }

/-- `_on_spot`, of an event that comes on the session's connection. -/
def onSpot (event : SpotEvent) (now : ℚ) : World :=
  { w.keep event now with
    history := if w.session = none then w.history else w.history ++ [.spot event] }

/-! ## What the registry answers -/

/-- `last_spot`. -/
def lastSpot (symbolId : ℤ) : Option LastSpot :=
  match w.session, w.lastSpots.get? symbolId with
  | some s, some (generation, spot) =>
    if s.accepting ∧ generation = s.generation then some spot else none
  | _, _ => none

/-- `_held`: the keys of an owner's intents, with the consumers' names. -/
def held (owner : String) : List (Key × String) :=
  w.intents.entries.flatMap fun (key, intents) =>
    intents.keys.filterMap fun c => if c.owner = owner then some (key, c.name) else none

def spotHolds (owner : String) : Finset (ℤ × String) :=
  ((w.held owner).filterMap fun
    | (.spots symbolId, name) => some (symbolId, name)
    | _ => none).toFinset

def trendbarHolds (owner : String) : Finset (ℤ × ℤ × String) :=
  ((w.held owner).filterMap fun
    | (.trendbar symbolId period, name) => some (symbolId, period, name)
    | _ => none).toFinset

end World

/-! ## The machine -/

/-- What can happen next. -/
inductive Action
  | call (id : ℕ) (subscribe : Bool) (key : Key) (consumer : Consumer)
  | enter (id : ℕ)
  | answered (id : ℕ) (outcome : Outcome)
  | cancel (id : ℕ)
  | beginRestore (id : ℕ) (key : Key)
  | enterRestore (id : ℕ)
  | answerRestore (id : ℕ) (ok : Bool)
  | endRestore (id : ℕ)
  | attach
  | detach
  | bringUp
  | connected
  | authenticated
  | restored (failed : Finset Key)
  | lose
  | stop
  | spot (event : SpotEvent) (now : ℚ)
deriving DecidableEq

/-- One step: an action out of turn changes nothing. -/
def World.step (w : World) : Action → World
  | .call id subscribe key consumer =>
    if w.calls.contains id then w else w.beginCall id subscribe key consumer
  | .enter id => w.enter id
  | .answered id outcome => w.answered id outcome
  | .cancel id => w.cancel id
  | .beginRestore id key => if w.restores.contains id then w else w.beginRestore id key
  | .enterRestore id => w.enterRestore id
  | .answerRestore id ok => w.answerRestore id ok
  | .endRestore id => w.endRestore id
  | .attach => w.attach
  | .detach => w.detach
  | .bringUp => w.bringUp
  | .connected => w.onSession Session.connected
  | .authenticated => w.onSession Session.authenticated
  | .restored failed => w.onSession fun s => s.restored failed
  | .lose => w.onSession Session.lose
  | .stop => w.onSession Session.stop
  | .spot event now => w.onSpot event now

def machine : Machine World Action Empty where
  step w action := (w.step action, [])

end Interrupted

end Subscriptions

end NautilusCtrader
