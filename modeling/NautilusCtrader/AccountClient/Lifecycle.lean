import Mathlib.Data.Finset.Insert
import NautilusCtrader.Common.Dict
import NautilusCtrader.Common.Machine
import NautilusCtrader.Instruments.Symbols
import NautilusCtrader.Messages
import NautilusCtrader.RefreshSpacing

/-!
# The account client

One client an account shares its session among the Nautilus clients by counting its users. The first
`connect` resolves the account over a connection of its own, builds the session and waits for it, the
last `disconnect` stops it, and a lock keeps these calls apart. A call can fail, run out of time or be
cancelled wherever it waits. A client belongs to the event loop it was brought up on; the cache of
clients, one per login and application, puts a successor in its place once that loop is closed.
-/

namespace NautilusCtrader

open Common Instruments

namespace AccountClient

/-! ## Errors -/

inductive ErrorKind
  | connection | protocol | timeout | auth | request
deriving DecidableEq, Repr

structure CTraderError where
  kind : ErrorKind
  message : String
  /-- `request_error_code` of it. -/
  errorCode : Option String := none
deriving DecidableEq, Repr

/-- How an await ends that does not return. -/
inductive Failure
  | error (error : CTraderError)
  /-- The deadline of the bring-up, or of a later user's wait, is over. -/
  | timedOut
  | cancelled
  | other
deriving DecidableEq, Repr

/-- How a request of the connection that lists the accounts ends without its response. -/
inductive RequestEnd
  | rejected (errorCode : String)
  | failed (failure : Failure)
deriving DecidableEq, Repr

/-! ## The account list -/

inductive Environment
  | auto | demo | live
deriving DecidableEq, Repr

structure AccountRecord where
  ctidTraderAccountId : ℤ
  isLive : Option Bool
  traderLogin : Option ℤ
deriving DecidableEq, Repr

structure AccountCredentials where
  clientId : String
  clientSecret : String
  accessToken : String
  refreshToken : Option String
  tokenExpiresAt : Option ℚ
deriving DecidableEq

/-- What a client is built with; nothing changes it. -/
structure Settings where
  traderLogin : ℤ
  environment : Environment
  /-- `connect_timeout_secs`, as its message writes it. -/
  connectTimeoutSecs : String := "60"
  demoHost : String := "demo.ctraderapi.com"
  liveHost : String := "live.ctraderapi.com"
deriving DecidableEq, Repr

/-- `account_host`. -/
def accountHost (isLive : Option Bool) (demoHost liveHost : String) : String :=
  if isLive = some true then liveHost else demoHost

/-- The account of a login in the list a token grants, as `_resolve_account` picks it. -/
def matchAccount (traderLogin : ℤ) (accounts : List AccountRecord) :
    Except CTraderError AccountRecord :=
  match accounts.filter fun entry => entry.traderLogin = some traderLogin with
  | [] => .error ⟨.auth, "no account with that trader login is granted to this token", none⟩
  | [entry] => .ok entry
  | _ => .error
      ⟨.auth, "more than one granted account has that trader login; the account is ambiguous", none⟩

/-- The host a session of the account runs on. -/
def Settings.hostOf (settings : Settings) (entry : AccountRecord) : String :=
  match settings.environment with
  | .demo => settings.demoHost
  | .live => settings.liveHost
  | .auto => accountHost entry.isLive settings.demoHost settings.liveHost

/-! ## The reference data -/

/-- What `_load_reference_data` leaves; the deposit asset is one of the assets. -/
structure ReferenceData where
  moneyDigits : ℕ
  depositAssetId : ℤ
  depositAsset : ProtoOAAsset
  assets : Dict ℤ ProtoOAAsset
  lightSymbols : Dict String ProtoOALightSymbol
  listed : assets.get? depositAssetId = some depositAsset

/-- `_load_reference_data`, given the three responses. -/
def loadReferenceData (trader : ProtoOATrader) (asset : List ProtoOAAsset)
    (symbol : List ProtoOALightSymbol) : Except CTraderError ReferenceData :=
  match trader.moneyDigits? with
  | none => .error ⟨.protocol, "trader response carries no moneyDigits", none⟩
  | some moneyDigits =>
    let assets := asset.foldl (fun assets a => assets.set a.assetId a) Dict.empty
    match h : assets.get? trader.depositAssetId with
    | none => .error ⟨.protocol, "deposit asset missing from the asset list", none⟩
    | some depositAsset =>
      .ok
        { moneyDigits
          depositAssetId := trader.depositAssetId
          depositAsset
          assets
          lightSymbols := symbol.foldl (fun symbols s => symbols.set s.symbolName s) Dict.empty
          listed := h }

/-! ## Sessions -/

/-- A session as its client sees it. -/
structure Session where
  host : String
  accountId : ℤ
  credentials : AccountCredentials
  started : Bool := false
  /-- `stop` was called. -/
  stopped : Bool := false
  ready : Bool := false
  lastError : Option CTraderError := none
deriving DecidableEq

def Session.running (s : Session) : Bool := s.started && !s.stopped

/-! ## Clients -/

/-- Where `_resolve_account` waits. -/
inductive Resolving
  /-- For the connection, and for the application's authentication on it. -/
  | connecting
  | listing (refreshed : Bool)
  | refreshing
  /-- For the late reply to a refresh that ran into `timeout`. -/
  | awaitingReply (timeout : CTraderError)
  /-- For the end of the connection. -/
  | closing (result : Except Failure (List AccountRecord))

/-- What a call that stops the session comes to. -/
inductive Ending
  | raises (failure : Failure)
  | returns
deriving DecidableEq, Repr

/-- Where the call that holds the lock waits. `woken` says that the session became ready since. -/
inductive Stage
  | resolving (at? : Resolving)
  | readying (session : ℕ) (woken : Bool)
  | loading (session : ℕ)
  | joining (session : ℕ) (woken : Bool)
  /-- `_stop` waits for the tasks it cancelled. -/
  | winding (session : Option ℕ) (tasks : List ℕ) (ending : Ending)
  /-- `_stop` waits for the session's `stop`. -/
  | stopping (session : ℕ) (ending : Ending)

inductive Call
  | connect (loop : ℕ)
  | disconnect
deriving DecidableEq, Repr

/-- `CTraderAccountClient`. Sessions, tasks and calls are numbers, sessions those of `sessions`. -/
structure Client where
  settings : Settings
  credentials : AccountCredentials
  accountId : Option ℤ := none
  session : Option ℕ := none
  sessions : List Session := []
  /-- The session the subscriptions are attached to and the symbol handler is added to. -/
  attached : Option ℕ := none
  lastConnectError : Option CTraderError := none
  tokenListeners : List ℕ := []
  reloadTasks : List ℕ := []
  retryTask : Option ℕ := none
  /-- The tasks cancelled that have not ended. -/
  cancelledTasks : List ℕ := []
  created : ℕ := 0
  users : ℕ := 0
  /-- The lifecycle lock: the call that holds it, and those that wait. -/
  holder : Option (ℕ × Stage) := none
  waiting : List (ℕ × Call) := []
  begun : ℕ := 0
  sessionLoop : Option ℕ := none
  retired : Bool := false
  referenceData : Option ReferenceData := none

/-- What is told of a client. -/
inductive Record
  | connected (call : ℕ)
  | raised (call : ℕ) (failure : Failure)
  /-- A `disconnect` counts a user out. -/
  | released (call : ℕ)
  /-- A new pair is taken, and given to the listeners in turn. -/
  | tokens (accessToken refreshToken : String) (expiresAtSecs : ℚ) (listeners : List ℕ)
deriving DecidableEq

/-- How a step of `_resolve_account` ends. -/
inductive Answer
  | connected (result : Except RequestEnd Unit)
  | listed (result : Except RequestEnd (List AccountRecord))
  | refreshed (now : ℚ) (result : Except RequestEnd (TokenRefresh.Pair String))
  /-- The late reply, unless the connection is lost first. -/
  | reply (now : ℚ) (reply : Option (TokenRefresh.Pair String))
  | waitedOut
  | closed

/-- What happens to a client. -/
inductive Input
  | connect (loop : ℕ)
  | disconnect
  /-- The call that waits longest takes the free lock. -/
  | wake
  | answered (answer : Answer)
  | becomesReady (session : ℕ)
  /-- It is lost, or its bring-up fails. -/
  | fails (session : ℕ) (error : Option CTraderError)
  /-- The holder's wait for the session returns. -/
  | readied
  /-- It has waited `_READY_POLL_SECS`. -/
  | polled
  | loaded (result : Except Failure (ProtoOATrader × List ProtoOAAsset × List ProtoOALightSymbol))
  | timeOut
  | cancel (call : ℕ)
  /-- A `ProtoOASymbolChangedEvent` that names this many loaded symbols. -/
  | symbolChanged (session : ℕ) (loaded : ℕ)
  | taskEnds (task : ℕ)
  | woundDown
  | sessionStopped
  | refreshed (session : ℕ) (now : ℚ) (response : TokenRefresh.Pair String)
  | addTokenListener (listener : ℕ)

namespace Client

variable (c : Client)

/-- `_on_tokens_refreshed`. -/
def onTokensRefreshed (access refresh : String) (expiresAtSecs : ℚ) : Client × List Record :=
  ({ c with
      credentials :=
        { c.credentials with
          accessToken := access
          refreshToken := some refresh
          tokenExpiresAt := some expiresAtSecs } },
    [.tokens access refresh expiresAtSecs c.tokenListeners])

/-! ### The end of a call -/

/-- The call that holds the lock raises. -/
def raise (call : ℕ) (failure : Failure) : Client × List Record :=
  ({ c with
      holder := none
      lastConnectError :=
        match failure with
        | .error error => some error
        | _ => c.lastConnectError },
    [.raised call failure])

/-- The `connect` that holds the lock counts its user and returns. -/
def connected (call : ℕ) : Client × List Record :=
  ({ c with users := c.users + 1, lastConnectError := none, holder := none }, [.connected call])

/-- `_stop` is over. -/
def ended (call : ℕ) : Ending → Client × List Record
  | .raises failure => c.raise call failure
  | .returns => ({ c with holder := none }, [])

/-- `_stop` calls the session's `stop`. -/
def stopSession (call : ℕ) (ending : Ending) : Option ℕ → Client × List Record
  | none => c.ended call ending
  | some session =>
    ({ c with
        sessions := c.sessions.modify session fun s => { s with stopped := true, ready := false }
        holder := some (call, .stopping session ending) }, [])

/-- `_stop`, for the call that holds the lock. -/
def stop (call : ℕ) (session : Option ℕ) (ending : Ending) : Client × List Record :=
  let tasks := c.reloadTasks ++ c.retryTask.toList
  let c' :=
    { c with
      attached := none
      reloadTasks := []
      retryTask := none
      cancelledTasks := c.cancelledTasks ++ tasks }
  if tasks = [] then c'.stopSession call ending session
  else ({ c' with holder := some (call, .winding session tasks ending) }, [])

/-! ### Bringing the session up -/

/-- `_connect_timeout_error`. -/
def connectTimeoutError : CTraderError :=
  ⟨.timeout, s!"connect did not complete within {c.settings.connectTimeoutSecs}s", none⟩

/-- What a deadline that is over is raised as. -/
def raisedAs : Failure → Failure
  | .timedOut => .error c.connectTimeoutError
  | failure => failure

/-- `_bring_up` fails, having built `session` or none yet. -/
def failBringUp (call : ℕ) (session : Option ℕ) (failure : Failure) : Client × List Record :=
  let c' := { c with session := none }
  match session with
  | none => c'.raise call (c.raisedAs failure)
  | some session => c'.stop call (some session) (.raises (c.raisedAs failure))

/-- The end of `_bring_up`, and of its `connect`. -/
def broughtUp (call : ℕ) : Client × List Record :=
  { c with retryTask := some c.created, created := c.created + 1 }.connected call

/-- `_build_session` on the host of the account, and `_bring_up` up to the wait for the session. -/
def startSession (call : ℕ) (entry : AccountRecord) : Client :=
  let session : Session :=
    { host := c.settings.hostOf entry
      accountId := entry.ctidTraderAccountId
      credentials := c.credentials
      started := true }
  { c with
    accountId := some entry.ctidTraderAccountId
    sessions := c.sessions ++ [session]
    attached := some c.sessions.length
    session := some c.sessions.length
    holder := some (call, .readying c.sessions.length false) }

/-- The rest of `_resolve_account` once its connection is closed, and what follows it. -/
def resolved (call : ℕ) : Except Failure (List AccountRecord) → Client × List Record
  | .error failure => c.failBringUp call none failure
  | .ok accounts =>
    match matchAccount c.settings.traderLogin accounts with
    | .error error => c.failBringUp call none (.error error)
    | .ok entry => (c.startSession call entry, [])

/-- `_resolve_account` waits at `at?`. -/
def resolveAt (call : ℕ) (at? : Resolving) : Client := { c with holder := some (call, .resolving at?) }

/-- It closes its connection, whatever came of it. -/
def closing (call : ℕ) (result : Except Failure (List AccountRecord)) : Client × List Record :=
  (c.resolveAt call (.closing result), [])

/-- The venue refuses a request of it. -/
def refuse (call : ℕ) (message errorCode : String) : Client × List Record :=
  c.closing call (.error (.error ⟨.auth, message, some errorCode⟩))

/-- The end of `_refresh_over`, after which the accounts are listed again. -/
def takePair (call : ℕ) (now : ℚ) (response : TokenRefresh.Pair String) : Client × List Record :=
  let taken := c.onTokensRefreshed response.accessToken response.refreshToken
    (now + response.expiresIn)
  (taken.1.resolveAt call (.listing true), taken.2)

/-- `_resolve_account`, with `_list_accounts` and `_refresh_over`, from one wait to the next. -/
def resolve (call : ℕ) : Resolving → Answer → Client × List Record
  | .connecting, .connected (.ok _) => (c.resolveAt call (.listing false), [])
  | .connecting, .connected (.error (.rejected code)) =>
    c.refuse call s!"application auth rejected: {code}" code
  | .connecting, .connected (.error (.failed failure)) => c.closing call (.error failure)
  | .listing _, .listed (.ok accounts) => c.closing call (.ok accounts)
  | .listing refreshed, .listed (.error (.rejected code)) =>
    if refreshed then c.refuse call s!"account list rejected after refresh: {code}" code
    else if code ∉ TokenRefresh.tokenErrorCodes then
      c.refuse call s!"account list rejected: {code}" code
    else if c.credentials.refreshToken = none then
      c.refuse call s!"access token rejected ({code}) and no refresh token is configured" code
    else (c.resolveAt call .refreshing, [])
  | .listing _, .listed (.error (.failed failure)) => c.closing call (.error failure)
  | .refreshing, .refreshed now (.ok response) => c.takePair call now response
  | .refreshing, .refreshed _ (.error (.rejected code)) =>
    c.refuse call s!"token refresh rejected: {code}" code
  | .refreshing, .refreshed _ (.error (.failed (.error error))) =>
    if error.kind = .timeout then (c.resolveAt call (.awaitingReply error), [])
    else c.closing call (.error (.error error))
  | .refreshing, .refreshed _ (.error (.failed failure)) => c.closing call (.error failure)
  | .awaitingReply _, .reply now (some response) => c.takePair call now response
  | .awaitingReply timeout, .reply _ none => c.closing call (.error (.error timeout))
  | .awaitingReply timeout, .waitedOut => c.closing call (.error (.error timeout))
  | .closing result, .closed => c.resolved call result
  | _, _ => (c, [])

/-! ### `connect` and `disconnect` -/

/-- `_left_unclean`. -/
def leftUnclean : Bool := c.session.isSome || decide (0 < c.users) || c.holder.isSome

/-- `_loop_closed`. -/
def loopClosed (closed : Finset ℕ) : Bool := c.sessionLoop.any (· ∈ closed)

/-- `_other_loop_error`. -/
def otherLoopError (closed : Finset ℕ) (loop : ℕ) : Option CTraderError :=
  if c.retired then
    some ⟨.connection, "this account client was replaced after its event loop closed; look the " ++
      "account client up again", none⟩
  else
    match c.sessionLoop with
    | none => none
    | some sessionLoop =>
      if sessionLoop = loop then none
      else if sessionLoop ∈ closed ∧ c.leftUnclean = false then none
      else some ⟨.connection, "the account session belongs to another event loop; one node per " ++
        "account is supported, and a node rebuilt after its loop closed must look the account " ++
        "client up again", none⟩

/-- `connect`, once it has the lock. -/
def enterConnect (call loop : ℕ) : Client × List Record :=
  if 0 < c.users then
    match c.session with
    -- `None` has no `is_ready`
    | none => c.raise call .other
    | some session =>
      if (c.sessions[session]?).any Session.ready then c.connected call
      else ({ c with holder := some (call, .joining session false) }, [])
  else
    ({ c with sessionLoop := some loop, holder := some (call, .resolving .connecting) }, [])

/-- `disconnect`, once it has the lock. -/
def enterDisconnect (call : ℕ) : Client × List Record :=
  if c.users = 0 then (c, [])
  else if 1 < c.users then ({ c with users := c.users - 1 }, [.released call])
  else
    let stopped := { c with users := c.users - 1, session := none }.stop call c.session .returns
    (stopped.1, .released call :: stopped.2)

/-- The lock is free and nobody waits for it. -/
def lockFree : Bool := c.holder.isNone && c.waiting.isEmpty

def connect (closed : Finset ℕ) (loop : ℕ) : Client × List Record :=
  let call := c.begun
  let c' := { c with begun := c.begun + 1 }
  match c.otherLoopError closed loop with
  | some error => ({ c' with lastConnectError := some error }, [.raised call (.error error)])
  | none =>
    if c.lockFree then c'.enterConnect call loop
    else if c.sessionLoop = some loop then
      ({ c' with waiting := c.waiting ++ [(call, .connect loop)] }, [])
    -- the lock is bound to the loop that closed with calls waiting for it
    else (c', [.raised call .other])

def disconnect : Client × List Record :=
  let call := c.begun
  let c' := { c with begun := c.begun + 1 }
  if c.lockFree then c'.enterDisconnect call
  else ({ c' with waiting := c.waiting ++ [(call, .disconnect)] }, [])

/-- The call that waits longest takes the free lock. -/
def wake : Client × List Record :=
  match c.holder, c.waiting with
  | none, (call, .connect loop) :: waiting => { c with waiting := waiting }.enterConnect call loop
  | none, (call, .disconnect) :: waiting => { c with waiting := waiting }.enterDisconnect call
  | _, _ => (c, [])

/-! ### The waits of the lock's holder -/

/-- The holder's wait for the session is over. -/
def proceed (call : ℕ) : Stage → Client × List Record
  | .readying session _ =>
    if c.referenceData.isSome then c.broughtUp call
    else ({ c with holder := some (call, .loading session) }, [])
  | .joining _ _ => c.connected call
  | _ => (c, [])

/-- The holder fails where it waits, before `_stop`. -/
def fail (call : ℕ) (failure : Failure) : Stage → Client × List Record
  | .resolving (.closing _) => c.resolved call (.error failure)
  | .resolving _ => c.closing call (.error failure)
  | .readying session _ | .loading session => c.failBringUp call (some session) failure
  | .joining _ _ => c.raise call (c.raisedAs failure)
  | .winding _ _ _ | .stopping _ _ => (c, [])

/-- What `_wait_ready` raises for `error`, a rejected authentication. -/
def authError (error : CTraderError) : CTraderError :=
  if c.settings.environment ≠ .auto ∧ error.errorCode = some "CANT_ROUTE_REQUEST" then
    ⟨.auth, "configured environment does not match the account; use 'auto'", error.errorCode⟩
  else ⟨.auth, error.message, error.errorCode⟩

/-- `_wait_ready` after a poll. -/
def poll (call session : ℕ) (stage : Stage) : Client × List Record :=
  match c.sessions[session]? with
  | none => (c, [])
  | some s =>
    match s.lastError.filter (·.kind = .auth) with
    | some error => c.fail call (.error (c.authError error)) stage
    | none => if s.ready then c.proceed call stage else (c, [])

/-- `_load_reference_data` ends, or one of its requests fails. -/
def load (call session : ℕ) :
    Except Failure (ProtoOATrader × List ProtoOAAsset × List ProtoOALightSymbol) →
      Client × List Record
  | .error failure => c.failBringUp call (some session) failure
  | .ok (trader, asset, symbol) =>
    match loadReferenceData trader asset symbol with
    | .error error => c.failBringUp call (some session) (.error error)
    | .ok data => { c with referenceData := some data }.broughtUp call

/-- A call is cancelled where it waits with the lock. -/
def cancelHolder (call : ℕ) : Stage → Client × List Record
  -- the session is stopped even then
  | .winding session _ _ => c.stopSession call (.raises .cancelled) session
  | .stopping _ _ => c.raise call .cancelled
  | stage => c.fail call .cancelled stage

/-- A call is cancelled where it waits for the lock. -/
def cancelWaiting (call : ℕ) : Client × List Record :=
  if c.waiting.any (·.1 = call) then
    ({ c with waiting := c.waiting.filter (·.1 ≠ call) }, [.raised call .cancelled])
  else (c, [])

def cancel (call : ℕ) : Client × List Record :=
  match c.holder with
  | some (holder, stage) =>
    if holder = call then c.cancelHolder call stage else c.cancelWaiting call
  | none => c.cancelWaiting call

/-- The deadline of the holder is over, which it has outside `_stop`. -/
def timeOut (call : ℕ) : Stage → Client × List Record
  | .resolving (.closing (.error .timedOut)) => (c, [])
  | stage => c.fail call .timedOut stage

end Client

/-! ## What happens to a session -/

/-- `_ready` is set: it wakes the holder that waits for it. -/
def Stage.wake (session : ℕ) : Stage → Stage
  | .readying s woken => .readying s (woken || decide (s = session))
  | .joining s woken => .joining s (woken || decide (s = session))
  | stage => stage

namespace Client

variable (c : Client)

/-- Whether the session runs. -/
def runs (session : ℕ) : Bool := (c.sessions[session]?).any Session.running

def becomesReady (session : ℕ) : Client :=
  if c.runs session then
    { c with
      sessions := c.sessions.modify session fun s => { s with ready := true, lastError := none }
      holder := c.holder.map fun (call, stage) => (call, stage.wake session) }
  else c

def fails (session : ℕ) (error : Option CTraderError) : Client :=
  if c.runs session then
    { c with
      sessions := c.sessions.modify session fun s =>
        { s with ready := false, lastError := error.or s.lastError } }
  else c

/-- The session takes a new pair, and calls `_on_tokens_refreshed`. -/
def refreshed (session : ℕ) (now : ℚ) (response : TokenRefresh.Pair String) : Client × List Record :=
  if c.runs session then
    let taken := c.onTokensRefreshed response.accessToken response.refreshToken
      (now + response.expiresIn)
    ({ taken.1 with
        sessions := c.sessions.modify session fun s => { s with credentials := taken.1.credentials } },
      taken.2)
  else (c, [])

/-- `_on_symbol_changed`: one reload for each symbol that is loaded. -/
def symbolChanged (session loaded : ℕ) : Client :=
  if c.attached = some session then
    { c with
      reloadTasks := c.reloadTasks ++ (List.range loaded).map (c.created + ·)
      created := c.created + loaded }
  else c

/-- A reload ends, or a task that was cancelled. -/
def taskEnds (task : ℕ) : Client :=
  { c with
    reloadTasks := c.reloadTasks.filter (· ≠ task)
    cancelledTasks := c.cancelledTasks.filter (· ≠ task) }

/-- A client takes an input; `closed` are the event loops that are closed. -/
def step (closed : Finset ℕ) : Input → Client × List Record
  | .connect loop => c.connect closed loop
  | .disconnect => c.disconnect
  | .wake => c.wake
  | .answered answer =>
    match c.holder with
    | some (call, .resolving at?) => c.resolve call at? answer
    | _ => (c, [])
  | .becomesReady session => (c.becomesReady session, [])
  | .fails session error => (c.fails session error, [])
  | .readied =>
    match c.holder with
    | some (call, .readying session true) => c.proceed call (.readying session true)
    | some (call, .joining session true) => c.proceed call (.joining session true)
    | _ => (c, [])
  | .polled =>
    match c.holder with
    | some (call, .readying session woken) => c.poll call session (.readying session woken)
    | some (call, .joining session woken) => c.poll call session (.joining session woken)
    | _ => (c, [])
  | .loaded result =>
    match c.holder with
    | some (call, .loading session) => c.load call session result
    | _ => (c, [])
  | .timeOut =>
    match c.holder with
    | some (call, stage) => c.timeOut call stage
    | none => (c, [])
  | .cancel call => c.cancel call
  | .symbolChanged session loaded => (c.symbolChanged session loaded, [])
  | .taskEnds task => (c.taskEnds task, [])
  | .woundDown =>
    match c.holder with
    | some (call, .winding session tasks ending) =>
      if tasks.any (· ∈ c.cancelledTasks) then (c, []) else c.stopSession call ending session
    | _ => (c, [])
  | .sessionStopped =>
    match c.holder with
    | some (call, .stopping _ ending) => c.ended call ending
    | _ => (c, [])
  | .refreshed session now response => c.refreshed session now response
  | .addTokenListener listener =>
    (if listener ∈ c.tokenListeners then c
    else { c with tokenListeners := c.tokenListeners ++ [listener] }, [])

/-- `_successor`. -/
def successor : Client :=
  { settings := c.settings, credentials := c.credentials, tokenListeners := c.tokenListeners }

end Client

/-! ## The cache -/

/-- The clients ever built, the one cached for each login and application, and the loops closed. -/
structure World where
  clients : List Client := []
  accountClients : Dict (ℤ × String) ℕ := Dict.empty
  closed : Finset ℕ := ∅

/-- What happens. -/
inductive Event
  | lookUp (settings : Settings) (credentials : AccountCredentials)
  | client (index : ℕ) (input : Input)
  | closeLoop (loop : ℕ)

/-- What is told. -/
inductive Told
  /-- `get_cached_ctrader_account_client` returns a client. -/
  | found (key : ℤ × String) (index : ℕ)
  | client (key : ℤ × String) (index : ℕ) (record : Record)
deriving DecidableEq

/-- The key of a client in the cache. -/
def Client.key (c : Client) : ℤ × String := (c.settings.traderLogin, c.credentials.clientId)

namespace World

variable (w : World)

/-- `get_cached_ctrader_account_client`. -/
def lookUp (settings : Settings) (credentials : AccountCredentials) : World × List Told :=
  let key := (settings.traderLogin, credentials.clientId)
  let new := w.clients.length
  match w.accountClients.get? key with
  | none =>
    ({ w with
        clients := w.clients ++ [{ settings, credentials }]
        accountClients := w.accountClients.set key new }, [.found key new])
  | some index =>
    match w.clients[index]? with
    | none => (w, [])
    | some c =>
      if c.loopClosed w.closed then
        ({ w with
            clients := w.clients.set index { c with retired := true } ++ [c.successor]
            accountClients := w.accountClients.set key new }, [.found key new])
      else (w, [.found key index])

/-- Whether an input reaches the client: nothing runs on a loop that is closed. -/
def reaches (c : Client) : Input → Bool
  | .connect loop => loop ∉ w.closed
  | .addTokenListener _ => true
  | _ => !c.loopClosed w.closed

def onClient (index : ℕ) (input : Input) : World × List Told :=
  match w.clients[index]? with
  | none => (w, [])
  | some c =>
    if w.reaches c input then
      let stepped := c.step w.closed input
      ({ w with clients := w.clients.set index stepped.1 }, stepped.2.map (.client c.key index))
    else (w, [])

end World

def machine : Machine World Event Told where
  step w
    | .lookUp settings credentials => w.lookUp settings credentials
    | .client index input => w.onClient index input
    | .closeLoop loop => ({ w with closed := insert loop w.closed }, [])

end AccountClient

end NautilusCtrader
