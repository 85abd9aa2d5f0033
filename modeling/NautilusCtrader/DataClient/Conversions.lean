import NautilusCtrader.Bars.Requests
import NautilusCtrader.Common.Dict
import NautilusCtrader.Common.Machine

/-!
# Subscribes that wait for a conversion

The data client subscribes an instrument's quotes or bars only once the chain that prices it in the
account currency is subscribed. A subscribe whose chain is refused waits on a retry, one for each
instrument, which tries again after an interval and completes every subscribe that waits on it. An
unsubscribe may come while the conversion is prepared or retried, and so may a connect or a disconnect.

`machine` is one client over everything that can happen between two of its awaits.
-/

namespace NautilusCtrader

open Common Instruments

namespace DataClient

/-- Who a subscription is held for: an instrument's quotes, or bars of a type. -/
inductive Consumer
  | quotes (instrumentId : InstrumentId)
  | bars (barType : Requests.BarType)
deriving DecidableEq, Repr

def Consumer.instrumentId : Consumer → InstrumentId
  | .quotes instrumentId => instrumentId
  | .bars barType => barType.instrumentId

/-- `RESTORE_RETRY_ERROR_ATTEMPTS`. -/
def restoreRetryErrorAttempts : ℕ := 3

/-! ## Conversions -/

/-- `_Conversion`. -/
inductive Conversion
  | ready
  | refused
  /-- The chain can never be built, and the instrument has been dropped. -/
  | dropped
  /-- Not wanted any more, or the client connected or disconnected meanwhile. -/
  | abandoned
deriving DecidableEq, Repr

/-- How `_prepare_conversion` ends. -/
inductive Prepared
  /-- It returns the chain's instruments. -/
  | chain
  /-- The chain cannot be built, and the provider drops the instrument. -/
  | impossible
  /-- The venue refused it or the request failed; `loaded` says whether the instrument still is. -/
  | refused (loaded : Bool)
  | raises
deriving DecidableEq, Repr

/-- The await of `_convert_chain` that is under way. -/
inductive Converting
  /-- `_prepare_conversion`, in the connection it began in. -/
  | preparing (connection : ℕ)
  /-- `_retire_old_legs`, of a chain prepared for a connection that is gone. -/
  | retiring
deriving DecidableEq, Repr

/-- How `_convert_chain` goes on when an await of it ends. -/
inductive Goes
  | awaits
  | returns (conversion : Conversion)
  | raises
deriving DecidableEq, Repr

/-- `_convert_chain` after `_prepare_conversion`. -/
def prepared (current connection : ℕ) : Prepared → Goes
  | .raises => .raises
  | outcome =>
    if connection ≠ current then .awaits
    else
      match outcome with
      | .chain => .returns .ready
      | .refused true => .returns .refused
      | _ => .returns .dropped

/-- `_convert_chain` after `_retire_old_legs`. -/
def retired (ok : Bool) : Goes := if ok then .returns .abandoned else .raises

/-! ## The client -/

/-- The await of a subscribe that is under way. -/
inductive CallStage
  | converting (stage : Converting)
  /-- The `subscribe` it was begun for. -/
  | subscribing
deriving DecidableEq, Repr

/-- A call of `_subscribe_converted`, which is its own marker among those preparing. -/
structure Call where
  consumer : Consumer
  stage : CallStage
deriving DecidableEq, Repr

/-- The await of `_retry_conversion` that is under way. -/
inductive RetryStage
  | sleeping
  | converting (stage : Converting)
  /-- `_complete_waiting` completes the subscribe of a consumer. -/
  | completing (consumer : Consumer)
  /-- Its task is done; `_forget_conversion_retry` has not run yet. -/
  | done
deriving DecidableEq, Repr

/-- `_ConversionRetry`, with its task. What completes a subscribe follows from the consumer. -/
structure Retry where
  instrumentId : InstrumentId
  waiting : List Consumer
  stage : RetryStage := .sleeping
  cancelled : Bool := false
  failures : ℕ := 0
deriving DecidableEq, Repr

/-- `running`. -/
def Retry.running (retry : Retry) : Bool := decide (retry.stage ≠ .done)

/-- `attempting`. -/
def Retry.attempting (retry : Retry) : Bool :=
  decide (retry.stage ≠ .sleeping ∧ retry.stage ≠ .done)

/-- `waiting[consumer] = ..`. -/
def Retry.add (retry : Retry) (consumer : Consumer) : Retry :=
  { retry with
    waiting := if consumer ∈ retry.waiting then retry.waiting else retry.waiting ++ [consumer] }

/-- The fields of the data client that its subscribes read and write. -/
structure Client where
  /-- The calls of `_subscribe_converted` under way. -/
  calls : Dict ℕ Call := Dict.empty
  preparing : Dict Consumer (List ℕ) := Dict.empty
  /-- The retries whose task is not done or not forgotten. -/
  retries : Dict ℕ Retry := Dict.empty
  conversionRetries : Dict InstrumentId ℕ := Dict.empty
  connectionGeneration : ℕ := 0
  /-- Whether `_session` is set. -/
  session : Bool := false
  /-- The number of calls and retries made. -/
  made : ℕ := 0

/-- Why a subscribe ends without its subscription. -/
inductive Reason
  | notLoaded
  /-- Bars of the type are subscribed already, or their period is not supported. -/
  | passedOver
  | dropped
  | notConnected
  | raised
  | cancelled
  | abandoned
deriving DecidableEq, Repr

/-- What happens. -/
inductive Told
  | asked (call : ℕ) (consumer : Consumer)
  | unsubscribed (consumer : Consumer)
  /-- The client connects or disconnects. -/
  | reconnected
  /-- The chain of an instrument is subscribed and published. -/
  | converted (instrumentId : InstrumentId)
  /-- The `subscribe` of a consumer is run. -/
  | runs (consumer : Consumer)
  | waits (call : ℕ)
  | ended (call : ℕ) (reason : Reason)
  /-- A retry is refused, the number of times, told as an error or as a warning. -/
  | refusedAgain (instrumentId : InstrumentId) (failures : ℕ) (error : Bool)
  /-- A retry ends with these waiting. -/
  | gaveUp (waiting : List Consumer) (reason : Reason)
deriving DecidableEq, Repr

/-- `_conversion_not_subscribed` counts a refusal of `_prepare_conversion` against the retry. -/
def Retry.refusal (retry : Retry) : Prepared → Retry × List Told
  | .refused _ =>
    ({ retry with failures := retry.failures + 1 },
      [.refusedAgain retry.instrumentId (retry.failures + 1)
        (decide (retry.failures + 1 = restoreRetryErrorAttempts))])
  | _ => (retry, [])

namespace Client

variable (s : Client)

/-- The subscribes of `consumer` that are still wanted. -/
def markers (consumer : Consumer) : List ℕ := (s.preparing.get? consumer).getD []

/-- `_conversion_retries.get(instrument.id)`, if it is running. -/
def running? (instrumentId : InstrumentId) : Option (ℕ × Retry) :=
  (s.conversionRetries.get? instrumentId).bind fun number =>
    (s.retries.get? number).bind fun retry => if retry.running then some (number, retry) else none

def setRetry (number : ℕ) (retry : Retry) : Client :=
  { s with retries := s.retries.set number retry }

def endCall (call : ℕ) : Client := { s with calls := s.calls.erase call }

def setCall (call : ℕ) (consumer : Consumer) (stage : CallStage) : Client :=
  { s with calls := s.calls.set call { consumer, stage } }

/-! ### Subscribes -/

/-- `_preparing.setdefault(consumer, set()).add(marker)`. -/
def addMarker (consumer : Consumer) (call : ℕ) : Client :=
  { s with preparing := s.preparing.set consumer (s.markers consumer ++ [call]) }

/-- The `finally` of `_convert_before_subscribing`. -/
def dropMarker (consumer : Consumer) (call : ℕ) : Client :=
  let markers := (s.markers consumer).filter (· ≠ call)
  { s with
    preparing :=
      if markers = [] then s.preparing.erase consumer else s.preparing.set consumer markers }

/-- A retry for the chain of `consumer`'s instrument, which waits on it. -/
def startRetry (consumer : Consumer) : Client :=
  { s with
    retries := s.retries.set s.made { instrumentId := consumer.instrumentId, waiting := [consumer] }
    conversionRetries := s.conversionRetries.set consumer.instrumentId s.made
    made := s.made + 1 }

/-- A subscribe whose conversion was refused. -/
def waitForRetry (call : ℕ) (consumer : Consumer) : Client × List Told :=
  if !s.session then (s.endCall call, [.ended call .notConnected])
  else
    match s.running? consumer.instrumentId with
    | some (number, retry) => ((s.endCall call).setRetry number (retry.add consumer), [.waits call])
    | none => ((s.endCall call).startRetry consumer, [.waits call])

/-- A subscribe goes on after `_convert_before_subscribing`. -/
def afterConversion (call : ℕ) (consumer : Consumer) : Conversion → Client × List Told
  | .ready =>
    (s.setCall call consumer .subscribing, [.converted consumer.instrumentId, .runs consumer])
  | .refused => s.waitForRetry call consumer
  | .dropped => (s.endCall call, [.ended call .dropped])
  | .abandoned => (s.endCall call, [.ended call .abandoned])

/-- `_convert_before_subscribing` after `_convert_chain`. -/
def convertBeforeSubscribing (call : ℕ) (consumer : Consumer) (conversion : Conversion) :
    Client × List Told :=
  let wanted := call ∈ s.markers consumer
  (s.dropMarker consumer call).afterConversion call consumer
    (if conversion = .dropped then .dropped else if wanted then conversion else .abandoned)

/-- An await of the `_convert_chain` of a subscribe ends. -/
def convertCall (call : ℕ) (consumer : Consumer) : Goes → Client × List Told
  | .awaits => (s.setCall call consumer (.converting .retiring), [])
  | .returns conversion => s.convertBeforeSubscribing call consumer conversion
  | .raises => ((s.dropMarker consumer call).endCall call, [.ended call .raised])

/-- `_subscribe_converted` up to its first await. -/
def subscribeConverted (subscribeConversionQuotes : Bool) (call : ℕ) (consumer : Consumer) :
    Client × List Told :=
  match s.running? consumer.instrumentId with
  | some (number, retry) => (s.setRetry number (retry.add consumer), [.waits call])
  | none =>
    if subscribeConversionQuotes then
      ((s.addMarker consumer call).setCall call consumer
        (.converting (.preparing s.connectionGeneration)), [])
    else (s.setCall call consumer .subscribing, [.runs consumer])

/-! ### Unsubscribes -/

/-- `_stop_waiting`. -/
def stopWaiting (consumer : Consumer) : Client :=
  match s.conversionRetries.get? consumer.instrumentId with
  | none => s
  | some number =>
    match s.retries.get? number with
    | none => s
    | some retry =>
      let left := { retry with waiting := retry.waiting.filter (· ≠ consumer) }
      if consumer ∉ retry.waiting then s
      else if left.waiting ≠ [] ∨ retry.attempting then s.setRetry number left
      else
        { s.setRetry number { left with cancelled := true } with
          conversionRetries := s.conversionRetries.erase consumer.instrumentId }

/-- `_cancel_conversion_retries` up to its wait. -/
def cancelConversionRetries : Client :=
  { s with
    retries := (s.retries.mapAccum fun _ retry =>
      ({ retry with cancelled := retry.cancelled || retry.running }, ([] : List Told))).1
    conversionRetries := Dict.empty }

/-- `_connect` and `_disconnect` up to that wait. -/
def reconnects (session : Bool) : Client :=
  { s with
    connectionGeneration := s.connectionGeneration + 1
    preparing := Dict.empty
    session }.cancelConversionRetries

/-! ### Retries -/

/-- The task of a retry is done. -/
def endRetry (number : ℕ) (retry : Retry) : Client := s.setRetry number { retry with stage := .done }

/-- `_complete_waiting`, up to the next subscribe it completes or to the end of the retry. -/
def completeWaiting (number : ℕ) (retry : Retry) : Client × List Told :=
  match retry.waiting.getLast? with
  | some consumer =>
    (s.setRetry number
      { retry with waiting := retry.waiting.dropLast, stage := .completing consumer },
      [.runs consumer])
  | none => (s.endRetry number retry, [])

/-- `_retry_conversion` after `_convert_chain`. -/
def afterAttempt (number : ℕ) (retry : Retry) : Conversion → Client × List Told
  | .ready =>
    let next := s.completeWaiting number retry
    (next.1, .converted retry.instrumentId :: next.2)
  | .refused =>
    if retry.waiting = [] then (s.endRetry number retry, [])
    else (s.setRetry number { retry with stage := .sleeping }, [])
  | .dropped => (s.endRetry number retry, [.gaveUp retry.waiting .dropped])
  | .abandoned => (s.endRetry number retry, [])

/-- An await of the `_convert_chain` of a retry ends. -/
def convertRetry (number : ℕ) (retry : Retry) : Goes → Client × List Told
  | .awaits => (s.setRetry number { retry with stage := .converting .retiring }, [])
  | .returns conversion => s.afterAttempt number retry conversion
  | .raises => (s.endRetry number retry, [.gaveUp retry.waiting .raised])

/-- A retry whose sleep is over. -/
def wakeRetry (subscribeConversionQuotes : Bool) (number : ℕ) (retry : Retry) (ready loaded : Bool) :
    Client × List Told :=
  if !(s.session && ready) then (s, [])
  else if !loaded then (s.endRetry number retry, [.gaveUp retry.waiting .notLoaded])
  else if subscribeConversionQuotes then
    (s.setRetry number
      { retry with stage := .converting (.preparing s.connectionGeneration) }, [])
  else s.completeWaiting number retry

end Client

/-! ## Runs -/

/-- What `_subscribe_quote_ticks` and `_subscribe_bars` find before they convert. -/
inductive Found
  | instrument
  | notLoaded
  /-- Bars of the type are subscribed already, or their period is not supported. -/
  | passedOver
deriving DecidableEq, Repr

/-- What happens between two awaits. -/
inductive Input
  | subscribe (consumer : Consumer) (found : Found)
  | unsubscribe (consumer : Consumer)
  /-- `_prepare_conversion` of a call ends. -/
  | prepared (call : ℕ) (outcome : Prepared)
  /-- `_retire_old_legs` of a call ends. -/
  | retired (call : ℕ) (ok : Bool)
  /-- The `subscribe` of a call ends. -/
  | subscribed (call : ℕ)
  | cancelled (call : ℕ)
  /-- The sleep of a retry is over; whether the session is ready and the instrument loaded. -/
  | slept (number : ℕ) (ready loaded : Bool)
  | retryPrepared (number : ℕ) (outcome : Prepared)
  | retryRetired (number : ℕ) (ok : Bool)
  /-- The subscribe that a retry completes ends, or raises, which is logged. -/
  | completed (number : ℕ)
  /-- The task of a cancelled retry ends. -/
  | unwinds (number : ℕ)
  /-- `_forget_conversion_retry`. -/
  | forgets (number : ℕ)
  | connect
  /-- `_connect` takes the account's session. -/
  | established
  | disconnect
deriving DecidableEq, Repr

section Machine

variable (subscribeConversionQuotes : Bool)

/-- `_subscribe_quote_ticks` and `_subscribe_bars`. -/
def Client.subscribe (s : Client) (consumer : Consumer) (found : Found) : Client × List Told :=
  let s' := { s with made := s.made + 1 }
  match found with
  | .instrument =>
    let next := s'.subscribeConverted subscribeConversionQuotes s.made consumer
    (next.1, .asked s.made consumer :: next.2)
  | .notLoaded => (s', [.asked s.made consumer, .ended s.made .notLoaded])
  | .passedOver => (s', [.asked s.made consumer, .ended s.made .passedOver])

/-- A call goes on from its await, if that is the one that ended. -/
def Client.resumeCall (s : Client) (number : ℕ) (call : Call) : Input → Client × List Told
  | .prepared _ outcome =>
    match call.stage with
    | .converting (.preparing connection) =>
      s.convertCall number call.consumer (prepared s.connectionGeneration connection outcome)
    | _ => (s, [])
  | .retired _ ok =>
    if call.stage = .converting .retiring then s.convertCall number call.consumer (retired ok)
    else (s, [])
  | .subscribed _ => if call.stage = .subscribing then (s.endCall number, []) else (s, [])
  | .cancelled _ =>
    ((if call.stage = .subscribing then s else s.dropMarker call.consumer number).endCall number,
      [.ended number .cancelled])
  | _ => (s, [])

/-- A retry goes on from its await, if that is the one that ended; one that is cancelled only ends. -/
def Client.resumeRetry (s : Client) (number : ℕ) (retry : Retry) : Input → Client × List Told
  | .slept _ ready loaded =>
    if retry.cancelled = false ∧ retry.stage = .sleeping then
      s.wakeRetry subscribeConversionQuotes number retry ready loaded
    else (s, [])
  | .retryPrepared _ outcome =>
    match retry.cancelled, retry.stage with
    | false, .converting (.preparing connection) =>
      let counted := retry.refusal outcome
      let next := s.convertRetry number counted.1 (prepared s.connectionGeneration connection outcome)
      (next.1, counted.2 ++ next.2)
    | _, _ => (s, [])
  | .retryRetired _ ok =>
    if retry.cancelled = false ∧ retry.stage = .converting .retiring then
      s.convertRetry number retry (retired ok)
    else (s, [])
  | .completed _ =>
    match retry.cancelled, retry.stage with
    | false, .completing _ => s.completeWaiting number retry
    | _, _ => (s, [])
  | .unwinds _ => if retry.cancelled then (s.endRetry number retry, []) else (s, [])
  | .forgets _ =>
    if retry.stage = .done then
      ({ s with
          retries := s.retries.erase number
          conversionRetries :=
            if s.conversionRetries.get? retry.instrumentId = some number then
              s.conversionRetries.erase retry.instrumentId
            else s.conversionRetries }, [])
    else (s, [])
  | _ => (s, [])

/-- The data client's subscribes as a machine. -/
def machine : Machine Client Input Told where
  step s
    | .subscribe consumer found => s.subscribe subscribeConversionQuotes consumer found
    | .unsubscribe consumer =>
      ({ s.stopWaiting consumer with preparing := s.preparing.erase consumer },
        [.unsubscribed consumer])
    | .connect => (s.reconnects s.session, [.reconnected])
    | .established => ({ s with session := true }, [])
    | .disconnect => (s.reconnects false, [.reconnected])
    | .prepared call outcome =>
      (s.calls.get? call).elim (s, []) (s.resumeCall call · (.prepared call outcome))
    | .retired call ok => (s.calls.get? call).elim (s, []) (s.resumeCall call · (.retired call ok))
    | .subscribed call => (s.calls.get? call).elim (s, []) (s.resumeCall call · (.subscribed call))
    | .cancelled call => (s.calls.get? call).elim (s, []) (s.resumeCall call · (.cancelled call))
    | .slept number ready loaded =>
      (s.retries.get? number).elim (s, [])
        (s.resumeRetry subscribeConversionQuotes number · (.slept number ready loaded))
    | .retryPrepared number outcome =>
      (s.retries.get? number).elim (s, [])
        (s.resumeRetry subscribeConversionQuotes number · (.retryPrepared number outcome))
    | .retryRetired number ok =>
      (s.retries.get? number).elim (s, [])
        (s.resumeRetry subscribeConversionQuotes number · (.retryRetired number ok))
    | .completed number =>
      (s.retries.get? number).elim (s, [])
        (s.resumeRetry subscribeConversionQuotes number · (.completed number))
    | .unwinds number =>
      (s.retries.get? number).elim (s, [])
        (s.resumeRetry subscribeConversionQuotes number · (.unwinds number))
    | .forgets number =>
      (s.retries.get? number).elim (s, [])
        (s.resumeRetry subscribeConversionQuotes number · (.forgets number))

end Machine

end DataClient

end NautilusCtrader
