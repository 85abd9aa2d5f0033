import Mathlib.Data.Finset.Basic
import Mathlib.Data.Finset.Dedup
import NautilusCtrader.RefreshSpacing
import NautilusCtrader.Supervision

/-!
# Bringing a session up

The supervisor connects, authenticates and runs every restore that is registered, and the session is
ready. When it is lost, the supervisor tells the loss listeners, closes what is left of the connection
and brings the session up anew. A restore that failed is run again while the session is ready, which may
still be under way when the next bring-up begins.

`machine` is one session over everything that can happen between two of its awaits. What the venue and
the token refresh make of an authentication comes with its answer.
-/

namespace NautilusCtrader

open Common

namespace BringUp

/-! ## The session -/

/-- `SessionState`. -/
inductive SessionState
  | stopped
  | connecting
  | authenticating
  | restoring
  | ready
deriving DecidableEq, Repr

/-- The await of `_authenticate` that is under way. -/
inductive Stage
  | application
  /-- `_refresh_before_account_auth`. -/
  | refreshingBefore
  | account
  /-- `_refresh_for_rejection`. -/
  | refreshingFor
  | accountAgain
deriving DecidableEq, Repr

/-- How an await of `_authenticate` ends. -/
inductive Answer
  /-- It returns; `due` says whether a refresh is. -/
  | returns (due : Bool)
  /-- The venue refuses the request; the access token may be another by now, and a refresh may be worth
  it (`_may_refresh_for`). -/
  | refused (errorCode : String) (tokenChanged mayRefresh : Bool)
  | raises
deriving DecidableEq, Repr

/-- How a restore factory ends. -/
inductive Outcome
  | done
  /-- It raises `CTraderConnectionError`. -/
  | connectionError
  /-- It raises anything else. -/
  | failed
deriving DecidableEq, Repr

/-- The await of the supervisor that is under way. -/
inductive Phase (κ φ : Type)
  /-- Its task was created and has not run yet. -/
  | created
  | connecting
  | authenticating (stage : Stage)
  | restoring (key : κ) (factory : φ) (rest : List (κ × φ))
  /-- For the loss of the session that is up. -/
  | waiting
  /-- `_hold_for_refresh_reply`. -/
  | holding
  /-- `_teardown_connection`, of a session that was up or of a bring-up that failed. -/
  | closing (up : Bool)
  | backingOff
deriving DecidableEq, Repr

/-- `_supervise`. -/
structure Supervisor (κ φ : Type) where
  phase : Phase κ φ := .created
  attempt : ℕ := 0
deriving DecidableEq, Repr

/-- `retry_failed_restores`, which awaits a factory. -/
structure Retry (κ φ : Type) where
  generation : ℕ
  key : κ
  factory : φ
  rest : List κ
deriving DecidableEq, Repr

/-- The fields of the session that its supervision, its restores and its losses read and write. -/
structure Session (κ φ : Type) where
  state : SessionState := .stopped
  ready : Bool := false
  lost : Bool := false
  stopping : Bool := false
  reauthRequested : Bool := false
  accountAuthSent : Bool := false
  /-- Its connection is open and not lost. -/
  connected : Bool := false
  bringUpGeneration : ℕ := 0
  restores : Dict κ φ := Dict.empty
  failedRestores : Finset κ := ∅
  /-- The supervisor, unless there is none, or it is done or cancelled. -/
  supervisor : Option (Supervisor κ φ) := none
  retry : Option (Retry κ φ) := none

/-- An event of the venue, as far as it may end an authentication. -/
inductive Event
  | clientDisconnect
  | accountDisconnect (ctidTraderAccountId : ℤ)
  | accountsTokenInvalidated (ctidTraderAccountIds : List ℤ)
  | other
deriving DecidableEq, Repr

/-- Why a session is lost. -/
inductive Cause
  | dropped
  | authenticationEnded
  /-- To authenticate with a token that was refreshed. -/
  | reauthentication
deriving DecidableEq, Repr

/-- What happens, each with the bring-up it belongs to. -/
inductive Told (κ φ : Type)
  | began (generation : ℕ)
  /-- The venue accepts the account's authentication. -/
  | authenticated (generation : ℕ)
  /-- The bring-up takes the restores to run. -/
  | restoring (generation : ℕ)
  /-- A restore factory was run, in a bring-up or for a retry. -/
  | ran (generation : ℕ) (key : κ) (factory : φ) (ok : Bool)
  | lost (generation : ℕ) (cause : Cause)
  /-- The loss listeners are called. -/
  | lossTold
  | stopped
  | registered (key : κ) (factory : φ)
  | marked (generation : ℕ) (key : κ)
deriving DecidableEq, Repr

namespace Session

variable {κ φ : Type} [DecidableEq κ] (s : Session κ φ)

/-- The supervisor comes to its next await. -/
def awaits (phase : Phase κ φ) (attempt : ℕ) : Session κ φ := { s with supervisor := some { phase, attempt } }

/-- `_bring_up` up to its first await. -/
def beginBringUp (attempt : ℕ) : Session κ φ × List (Told κ φ) :=
  ({ s with
      lost := false
      ready := false
      failedRestores := ∅
      accountAuthSent := false
      bringUpGeneration := s.bringUpGeneration + 1
      state := .connecting
      supervisor := some { phase := .connecting, attempt } },
    [.began (s.bringUpGeneration + 1)])

/-- `_teardown_connection` up to its await. -/
def teardownConnection (up : Bool) (attempt : ℕ) : Session κ φ :=
  { s with
    state := .connecting
    ready := false
    connected := false
    supervisor := some { phase := .closing up, attempt } }

/-- A bring-up fails. -/
def failBringUp (attempt : ℕ) : Session κ φ × List (Told κ φ) :=
  (s.teardownConnection false attempt, if s.lost && !s.stopping then [.lossTold] else [])

/-- `_bring_up` goes on to the next restore, or to its end. -/
def restoreNext (attempt : ℕ) : List (κ × φ) → Session κ φ × List (Told κ φ)
  | [] =>
    if s.lost then s.failBringUp attempt
    else
      ({ s with
          state := .ready
          ready := true
          supervisor := some { phase := .waiting, attempt } }, [])
  | (key, factory) :: rest => (s.awaits (.restoring key factory rest) attempt, [])

/-- `_authenticate` returns. -/
def authenticated (attempt : ℕ) : Session κ φ × List (Told κ φ) :=
  if s.lost then
    let failed := s.failBringUp attempt
    (failed.1, .authenticated s.bringUpGeneration :: failed.2)
  else
    let next := { s with state := .restoring }.restoreNext attempt s.restores.entries
    (next.1, .authenticated s.bringUpGeneration :: .restoring s.bringUpGeneration :: next.2)

/-- `_authenticate_account` up to its await. -/
def authenticateAccount (stage : Stage) (attempt : ℕ) : Session κ φ :=
  { s with accountAuthSent := true }.awaits (.authenticating stage) attempt

/-- An await of `_authenticate` ends. -/
def authenticate (stage : Stage) (attempt : ℕ) : Answer → Session κ φ × List (Told κ φ)
  | .returns due =>
    match stage with
    | .application =>
      if due then (s.awaits (.authenticating .refreshingBefore) attempt, [])
      else (s.authenticateAccount .account attempt, [])
    | .refreshingBefore => (s.authenticateAccount .account attempt, [])
    | .refreshingFor => (s.authenticateAccount .accountAgain attempt, [])
    | .account | .accountAgain => s.authenticated attempt
  | .refused errorCode tokenChanged mayRefresh =>
    match stage with
    | .account =>
      if tokenChanged ∧ errorCode ∈ TokenRefresh.tokenErrorCodes then
        (s.authenticateAccount .accountAgain attempt, [])
      else if !mayRefresh then s.failBringUp attempt
      else (s.awaits (.authenticating .refreshingFor) attempt, [])
    -- a refused refresh does not fail the authentication it comes before
    | .refreshingBefore => (s.authenticateAccount .account attempt, [])
    | _ => s.failBringUp attempt
  | .raises => s.failBringUp attempt

/-- `_run_restore` ends in a bring-up. -/
def restored (attempt : ℕ) (key : κ) (factory : φ) (rest : List (κ × φ)) :
    Outcome → Session κ φ × List (Told κ φ)
  | .done =>
    let next := s.restoreNext attempt rest
    (next.1, .ran s.bringUpGeneration key factory true :: next.2)
  | .connectionError =>
    let failed := s.failBringUp attempt
    (failed.1, .ran s.bringUpGeneration key factory false :: failed.2)
  | .failed =>
    if s.lost then
      let failed := s.failBringUp attempt
      (failed.1, .ran s.bringUpGeneration key factory false :: failed.2)
    else
      let next := { s with failedRestores := insert key s.failedRestores }.restoreNext attempt rest
      (next.1, .ran s.bringUpGeneration key factory false :: next.2)

/-- The connection is closed; `stable` says whether the session was ready for `STABLE_SESSION_SECS`. -/
def closed (up : Bool) (attempt : ℕ) (stable : Bool) : Session κ φ × List (Told κ φ) :=
  let round : Supervision.Round :=
    if !up then .failed else if s.reauthRequested || stable then .lost else .lostSoon
  let s' := if up then { s with reauthRequested := false } else s
  match Supervision.supervise attempt round with
  | none => ({ s' with supervisor := none }, [])
  | some attempt =>
    if round = .lost then s'.beginBringUp attempt else (s'.awaits .backingOff attempt, [])

/-- The session is lost. -/
def lose (cause : Cause) : Session κ φ × List (Told κ φ) :=
  ({ s with lost := true }, if s.lost then [] else [.lost s.bringUpGeneration cause])

/-- `_on_disconnect`. -/
def onDisconnect : Session κ φ × List (Told κ φ) :=
  if s.stopping then ({ s with connected := false }, [])
  else { s with connected := false, state := .connecting, ready := false }.lose .dropped

/-- `_ends_our_authentication`. -/
def endsOurAuthentication (accountId : ℤ) : Event → Bool
  | .clientDisconnect => true
  | .accountDisconnect ctidTraderAccountId => s.accountAuthSent && ctidTraderAccountId == accountId
  | .accountsTokenInvalidated ids => s.accountAuthSent && (ids.isEmpty || ids.contains accountId)
  | .other => false

/-- `_on_event`, up to the handlers of the event. -/
def onEvent (accountId : ℤ) (event : Event) : Session κ φ × List (Told κ φ) :=
  if s.endsOurAuthentication accountId event && !s.stopping then
    { s with state := .connecting, ready := false }.lose .authenticationEnded
  else (s, [])

/-- `request` is accepted. -/
def acceptsRequests : Bool := decide (s.state = .ready ∨ s.state = .restoring)

/-! ### Retries -/

/-- `retry_failed_restores` goes on to the next key, or to its end. -/
def retryNext (s : Session κ φ) : List κ → Session κ φ
  | [] => { s with retry := none }
  | key :: rest =>
    if s.state ≠ .ready then { s with retry := none }
    else
      match s.restores.get? key with
      | none => { s with failedRestores := s.failedRestores.erase key }.retryNext rest
      | some factory => { s with retry := some { generation := s.bringUpGeneration, key, factory, rest } }

/-- A result of a retry is from another bring-up, or the session is not ready. -/
def stale (r : Retry κ φ) : Bool := decide (r.generation ≠ s.bringUpGeneration ∨ s.state ≠ .ready)

/-- `_run_restore` ends in a retry. -/
def retried (r : Retry κ φ) : Outcome → Session κ φ × List (Told κ φ)
  | .done =>
    (if s.stale r then { s with retry := none }
      else { s with failedRestores := s.failedRestores.erase r.key }.retryNext r.rest,
      [.ran r.generation r.key r.factory true])
  | .connectionError => ({ s with retry := none }, [.ran r.generation r.key r.factory false])
  | .failed =>
    (if s.lost || s.stale r then { s with retry := none } else s.retryNext r.rest,
      [.ran r.generation r.key r.factory false])

end Session

/-! ## Runs -/

/-- What happens. -/
inductive Input (κ φ : Type)
  /-- `start` creates a supervisor, if none runs. -/
  | start
  /-- `stop` up to its awaits. -/
  | stop
  /-- The supervisor's task runs for the first time. -/
  | runs
  | connects (ok : Bool)
  | answers (answer : Answer)
  | restored (outcome : Outcome)
  /-- The supervisor finds the session lost; no refresh reply is awaited if `settled`. -/
  | wakes (settled : Bool)
  | held
  | closed (stable : Bool)
  | slept
  /-- The connection tells of its loss. -/
  | disconnects
  | event (event : Event)
  /-- A pair was taken while the session is ready, by the refresh loop or from a late reply. -/
  | reauthenticate
  | addRestore (key : κ) (factory : φ)
  | removeRestore (key : κ)
  | markRestoreFailed (key : κ)
  /-- `retry_failed_restores` goes over the failed restores in some order. -/
  | retry (order : List κ)
  | retried (outcome : Outcome)
  | retryCancelled

section Machine

variable {κ φ : Type} [DecidableEq κ]

/-- The supervisor goes on from its await, if that is the one that ended. -/
def Session.supervise (s : Session κ φ) (input : Input κ φ) : Session κ φ × List (Told κ φ) :=
  match s.supervisor with
  | none => (s, [])
  | some ⟨phase, attempt⟩ =>
    match phase, input with
    | .created, .runs => s.beginBringUp attempt
    | .connecting, .connects true =>
      ({ s with state := .authenticating, connected := true }.awaits
        (.authenticating .application) attempt, [])
    | .connecting, .connects false => s.failBringUp attempt
    | .authenticating stage, .answers answer => s.authenticate stage attempt answer
    | .restoring key factory rest, .restored outcome => s.restored attempt key factory rest outcome
    | .waiting, .wakes settled =>
      if s.lost then
        (if settled then s.teardownConnection true attempt else s.awaits .holding attempt, [.lossTold])
      else (s, [])
    | .holding, .held => (s.teardownConnection true attempt, [])
    | .closing up, .closed stable => s.closed up attempt stable
    | .backingOff, .slept => s.beginBringUp attempt
    | _, _ => (s, [])

/-- The session as a machine. -/
def machine (accountId : ℤ) : Machine (Session κ φ) (Input κ φ) (Told κ φ) where
  step s
    | .start =>
      if s.supervisor.isSome then (s, [])
      else ({ s with stopping := false, reauthRequested := false, supervisor := some {} }, [])
    | .stop =>
      ({ s with
          stopping := true
          lost := true
          state := .stopped
          ready := false
          connected := false
          supervisor := none }, [.stopped])
    | .disconnects => if s.connected then s.onDisconnect else (s, [])
    | .event event => if s.connected then s.onEvent accountId event else (s, [])
    | .reauthenticate =>
      if s.state = .ready ∧ s.lost = false then
        { s with reauthRequested := true }.lose .reauthentication
      else (s, [])
    | .addRestore key factory =>
      ({ s with restores := s.restores.set key factory }, [.registered key factory])
    | .removeRestore key =>
      ({ s with
          restores := s.restores.erase key
          failedRestores := s.failedRestores.erase key }, [])
    | .markRestoreFailed key =>
      if s.restores.contains key then
        ({ s with failedRestores := insert key s.failedRestores },
          [.marked s.bringUpGeneration key])
      else (s, [])
    | .retry order =>
      if s.retry.isNone ∧ order.Nodup ∧ order.toFinset = s.failedRestores then (s.retryNext order, [])
      else (s, [])
    | .retried outcome => s.retry.elim (s, []) (s.retried · outcome)
    | .retryCancelled => ({ s with retry := none }, [])
    | input => s.supervise input

end Machine

end BringUp

end NautilusCtrader
