import NautilusCtrader.Bars.Paging
import NautilusCtrader.Common.Raising
import NautilusCtrader.Instruments.Symbols

/-!
# The data client's requests

`_submit` keeps a request among the unanswered and hands it to a task Nautilus creates. The task's handler
takes the request on its first line and answers it from there; a task that is cancelled before its first
step never runs its handler, and its done-callback answers instead. The handler of a bar request awaits
one page after another. `machine` lets a task take a turn, which begins it, resumes it with how its call
to the venue ended or runs its callback, lets it be cancelled at any time, and lets the connection and the
loaded instruments change in between.
-/

namespace NautilusCtrader

open Common Instruments Bars

namespace Requests

/-! ## Bar types -/

inductive PriceType
  | bid | ask | mid | last | mark
deriving DecidableEq, Repr

inductive AggregationSource
  | external | internal
deriving DecidableEq, Repr

inductive BarAggregation
  | minute | hour | day
  | other (name : String)
deriving DecidableEq, Repr

/-- `bar_aggregation_to_str`. -/
def BarAggregation.name : BarAggregation → String
  | .minute => "MINUTE"
  | .hour => "HOUR"
  | .day => "DAY"
  | .other name => name

structure BarType where
  instrumentId : InstrumentId
  step : ℕ
  aggregation : BarAggregation
  priceType : PriceType
  aggregationSource : AggregationSource
deriving DecidableEq, Repr

/-- `_STEPS_BY_AGGREGATION`. -/
def stepsByAggregation : BarAggregation → ℕ → Option ProtoOATrendbarPeriod
  | .minute, 1 => some .m1
  | .minute, 2 => some .m2
  | .minute, 3 => some .m3
  | .minute, 4 => some .m4
  | .minute, 5 => some .m5
  | .minute, 10 => some .m10
  | .minute, 15 => some .m15
  | .minute, 30 => some .m30
  | .hour, 1 => some .h1
  | .hour, 4 => some .h4
  | .hour, 12 => some .h12
  | .day, 1 => some .d1
  | _, _ => none

/-- `trendbar_period_for`, with the text of its `ValueError`. -/
def trendbarPeriodFor (barType : BarType) : Except String ProtoOATrendbarPeriod :=
  if barType.priceType ≠ .bid then .error "trendbars are only available for the BID price type"
  else if barType.aggregationSource ≠ .external then
    .error "trendbars are always EXTERNAL aggregation"
  else
    match stepsByAggregation barType.aggregation barType.step with
    | none =>
      .error (toString barType.step ++ "-" ++ barType.aggregation.name ++ " trendbars are not supported")
    | some period => .ok period

/-! ## Exceptions -/

/-- An exception, by its class. -/
inductive Exception
  | requestError (errorCode : String)
  | timeoutError
  | queueTimeoutError
  | connectionError
  | notSentConnectionError
  | notSentError
  | protocolError
  | notSentProtocolError
  /-- Any other `CTraderError`. -/
  | ctraderError
  /-- One that is not the adapter's. -/
  | other
deriving DecidableEq, Repr

/-- Whether it is a `CTraderConnectionError`. -/
def Exception.isConnectionError : Exception → Bool
  | .connectionError | .notSentConnectionError => true
  | _ => false

/-- `_failure_reason`. -/
def failureReason : Exception → String
  | .requestError errorCode => "venue refused: " ++ errorCode
  | .timeoutError | .queueTimeoutError => "timed out"
  | .connectionError | .notSentConnectionError => "connection lost"
  | .notSentError | .notSentProtocolError => "not sent"
  | .protocolError => "invalid venue response"
  | .ctraderError => "request failed"
  | .other => "internal error"

/-! ## Requests and answers -/

/-- What `RequestBars` asks for; times as their `timestamp()`, and no limit is 0. -/
structure RequestBars where
  barType : BarType
  start : Option ℚ := none
  stop : Option ℚ := none
  limit : ℕ := 0
deriving DecidableEq, Repr

inductive Content
  | bars (request : RequestBars)
  | instrument (instrumentId : InstrumentId)
  | instruments (venue : String)
  /-- A kind the adapter does not support. -/
  | unsupported (name : String) (instrumentId : Option InstrumentId)
deriving DecidableEq, Repr

/-- `RequestData`. -/
structure RequestData where
  id : ℕ
  correlationId : Option ℕ := none
  content : Content
deriving DecidableEq, Repr

/-- `DataType`, with the metadata Nautilus puts on a response. -/
inductive DataType
  | bars (barType : BarType)
  | instrument (instrumentId : InstrumentId)
  | instruments (venue : String)
  | other (name : String) (instrumentId : Option InstrumentId)
deriving DecidableEq, Repr

/-- `_answer_data_type`. -/
def answerDataType (request : RequestData) : DataType :=
  match request.content with
  | .bars bars => .bars bars.barType
  | .instrument instrumentId => .instrument instrumentId
  | .instruments venue => .instruments venue
  | .unsupported name instrumentId => .other name instrumentId

/-- A Nautilus `Bar`; prices in 1/100000 at their precision. -/
structure Bar where
  barType : BarType
  openPrice : ℤ
  highPrice : ℤ
  lowPrice : ℤ
  closePrice : ℤ
  volume : ℤ
  pricePrecision : ℤ
  sizePrecision : ℕ
  tsEvent : ℤ
  tsInit : ℤ
deriving DecidableEq, Repr

inductive Data
  | nothing
  | bars (bars : List Bar)
  | instruments (instruments : List Instrument)
deriving DecidableEq, Repr

structure CTraderRequestFailed where
  requestId : ℕ
  dataType : DataType
  reason : String
deriving DecidableEq, Repr

/-- What the client tells Nautilus. -/
inductive Told
  | published (failure : CTraderRequestFailed)
  /-- The response to the request with this id. -/
  | response (id : ℕ) (dataType : DataType) (data : Data)
deriving DecidableEq, Repr

/-- `_request_failed`. A subscriber that raises is logged. -/
def requestFailed (request : RequestData) (dataType : DataType) (reason : String) : List Told :=
  [.published ⟨request.correlationId.getD request.id, dataType, reason⟩,
    .response request.id dataType .nothing]

/-! ## The client -/

/-- How Nautilus's constructors refuse a bar's values. -/
inductive Refusal
  | valueError
  | other
deriving DecidableEq, Repr

/-- What the client is configured with. -/
structure Settings where
  accountId : ℤ
  historyPageSize : ℕ
  historyMaxGapDays : ℚ
  historyMaxGapOverrides : Dict String ℚ
  /-- What Nautilus refuses of a bar, if anything. -/
  refuses : Bar → Option Refusal
  historyPageSize_pos : 0 < historyPageSize

/-- A bar request that awaits a page, with the connection it began on. -/
structure Reading where
  request : RequestBars
  instrument : Instrument
  paging : Paging
  state : PagingState
  connection : ℕ

/-- Where a task stands. -/
inductive Stage
  /-- It has not run yet. -/
  | created (cancelled : Bool)
  | reading (reading : Reading)
  /-- It is done, and its callback is still to run. -/
  | ended (cancelled : Bool)
  | finished

structure Task where
  request : RequestData
  stage : Stage

/-- `CTraderDataClient`, with the tasks Nautilus created for its requests. -/
structure DataClient where
  unanswered : Dict ℕ RequestData := Dict.empty
  /-- Whether there is a session. -/
  session : Bool := false
  connectionGeneration : ℕ := 0
  /-- The instruments the provider has loaded. -/
  instruments : Dict InstrumentId Instrument := Dict.empty
  tasks : Dict ℕ Task := Dict.empty
  nextTask : ℕ := 0

/-- What a turn reads of the outside. -/
structure World where
  /-- `_bar_clock.now()`. -/
  now : ℚ
  /-- `_clock.timestamp_ns()`. -/
  timestampNs : ℤ
  /-- Whether `session.request` raises before it awaits anything. -/
  raises : ProtoOAGetTrendbarsReq → Option Exception

/-- How an awaited call ends. -/
inductive Outcome
  | served (response : ProtoOAGetTrendbarsRes)
  | raised (exception : Exception)
  /-- The task is cancelled. -/
  | cancelled

/-- `int` of a time. -/
def truncate (time : ℚ) : ℤ := if 0 ≤ time then ⌊time⌋ else ⌈time⌉

/-! ## Bars -/

/-- What `price_from_raw` demands. -/
def priceFromRaw (raw digits : ℤ) : Except Exception Unit :=
  if digits ≤ 5 ∧ raw % 10 ^ (5 - digits).toNat = 0 then .ok () else .error .protocolError

/-- `bar_from_trendbar`. -/
def barFromTrendbar (settings : Settings) (barType : BarType) (pricePrecision : ℤ) (sizePrecision : ℕ)
    (tsInit : ℤ) (raw : RawBar) : Except Exception Bar := do
  let period ← (trendbarPeriodFor barType).mapError fun _ => .other
  priceFromRaw (raw.low + raw.deltaOpen) pricePrecision
  priceFromRaw (raw.low + raw.deltaHigh) pricePrecision
  priceFromRaw raw.low pricePrecision
  priceFromRaw (raw.low + raw.deltaClose) pricePrecision
  let bar : Bar :=
    { barType
      openPrice := raw.low + raw.deltaOpen
      highPrice := raw.low + raw.deltaHigh
      lowPrice := raw.low
      closePrice := raw.low + raw.deltaClose
      volume := raw.volume
      pricePrecision
      sizePrecision
      tsEvent := (raw.boundarySecs + periodSecs period) * 1000000000
      tsInit }
  match settings.refuses bar with
  | none => return bar
  | some .valueError => throw .protocolError
  | some .other => throw .other

section Handlers

variable (settings : Settings) (client : DataClient) (world : World) (request : RequestData)

/-- `_request_bars` where `_historical_bars` raises. Nautilus logs what is not the adapter's. -/
def barsRaised (bars : RequestBars) (connection : ℕ) (exception : Exception) : Stage × List Told :=
  -- Closed by the client's own disconnect, not lost.
  let closed := exception.isConnectionError && connection ≠ client.connectionGeneration
  (.ended false, requestFailed request (.bars bars.barType)
    (if closed then "connection closed" else failureReason exception))

/-- The request for the page that comes next. -/
def trendbarsReq (paging : Paging) (s : PagingState) : ProtoOAGetTrendbarsReq where
  ctidTraderAccountId := paging.accountId
  symbolId := paging.symbolId
  period := paging.period
  fromTimestamp := paging.fromSecs s.toSecs * 1000
  toTimestamp := s.toSecs * 1000
  count := paging.pageSize + 2

/-- `_get_trendbars` up to its await. -/
def getTrendbars (reading : Reading) : Stage × List Told :=
  if !client.session then
    barsRaised client request reading.request reading.connection .connectionError
  else
    match world.raises (trendbarsReq reading.paging reading.state) with
    | some exception => barsRaised client request reading.request reading.connection exception
    | none => (.reading reading, [])

/-- Whether paging back stops at a stretch without a bar, so that the time it stopped at is logged. -/
def stopsAtGap (paging : Paging) (page : List RawBar) (s : PagingState) : Bool :=
  !(paging.startSecs.isNone && paging.limit.isNone ||
    paging.limit.any (· ≤ paging.closedCount s.bars) || paging.runsOut page s)

/-- Whether `datetime.fromtimestamp` takes a time: from the year 1 to 9999. -/
def isDatetime (secs : ℤ) : Bool := -62135596800 ≤ secs && secs < 253402300800

/-- The bars of an answer: closed, and the newest of them. -/
def newestClosed (bars : RequestBars) (paging : Paging) (served : List RawBar) : List RawBar :=
  let closed := served.filter paging.closed
  if bars.limit ≠ 0 then closed.drop (closed.length - bars.limit)
  else if bars.start.isNone then closed.drop (closed.length - settings.historyPageSize)
  else closed

/-- `_request_bars` once a page is served: another page, or the answer. -/
def pageServed (reading : Reading) (response : ProtoOAGetTrendbarsRes) : Stage × List Told :=
  let raised := barsRaised client request reading.request reading.connection
  let page := response.trendbar.map rawBar
  let s := reading.paging.turn reading.state page
  if reading.paging.stops page s then
    if stopsAtGap reading.paging page s && !isDatetime s.historyStart then raised .other
    else
      let barType := reading.request.barType
      let served := newestClosed settings reading.request reading.paging (Paging.ascending s.bars)
      match served.mapM (barFromTrendbar settings barType reading.instrument.pricePrecision
        reading.instrument.sizePrecision world.timestampNs) with
      | .error exception => raised exception
      | .ok bars => (.ended false, [.response request.id (.bars barType) (.bars bars)])
  else getTrendbars client world request { reading with state := s }

/-- `_request_bars` resumes. -/
def resumeBars (reading : Reading) : Outcome → Stage × List Told
  | .served response => pageServed settings client world request reading response
  | .raised exception => barsRaised client request reading.request reading.connection exception
  | .cancelled =>
    (.ended true, requestFailed request (.bars reading.request.barType) "connection closed")

/-- What `_historical_bars` reads of a request. -/
def pagingOf (bars : RequestBars) (instrument : Instrument) (period : ProtoOATrendbarPeriod) : Paging :=
  let nowSecs := truncate world.now
  { accountId := settings.accountId
    symbolId := instrument.symbolId
    period
    -- Rounded up, so that no bar opening just before the start comes in.
    startSecs := bars.start.map Int.ceil
    endSecs := (bars.stop.map truncate).getD nowSecs
    limit := if bars.limit = 0 then none else some bars.limit
    closedSecs := nowSecs
    pageSize := settings.historyPageSize
    maxGapDays :=
      (settings.historyMaxGapOverrides.get? instrument.id.symbol).getD settings.historyMaxGapDays
    pageSize_pos := settings.historyPageSize_pos }

/-- `_request_bars` after its first line, up to its first await. -/
def requestBars (bars : RequestBars) : Stage × List Told :=
  let failed (reason : String) : Stage × List Told :=
    (.ended false, requestFailed request (.bars bars.barType) reason)
  match trendbarPeriodFor bars.barType with
  | .error message => failed message
  | .ok period =>
    if !client.session then failed "not connected"
    else
      let id := bars.barType.instrumentId
      match client.instruments.get? id with
      | none => failed ("instrument " ++ id.symbol ++ "." ++ id.venue ++ " is not loaded")
      | some instrument =>
        let paging := pagingOf settings world bars instrument period
        getTrendbars client world request
          { request := bars, instrument, paging, state := paging.initial
            connection := client.connectionGeneration }

/-- What a handler does in its first step, once it has taken its request. -/
def handle : Stage × List Told :=
  match request.content with
  | .bars bars => requestBars settings client world request bars
  | .instrument id =>
    match client.instruments.get? id with
    | none =>
      (.ended false, requestFailed request (answerDataType request)
        ("instrument " ++ id.symbol ++ "." ++ id.venue ++ " is not loaded"))
    | some instrument =>
      (.ended false, [.response request.id (answerDataType request) (.instruments [instrument])])
  | .instruments _ =>
    (.ended false,
      [.response request.id (answerDataType request) (.instruments client.instruments.values)])
  | .unsupported name _ =>
    (.ended false,
      requestFailed request (answerDataType request) (name ++ " requests are not supported"))

/-- `_on_request_done`: what is left unanswered, and the answer. -/
def onRequestDone (requestId : ℕ) (cancelled : Bool) : Dict ℕ RequestData × List Told :=
  match cancelled, client.unanswered.get? requestId with
  | true, some request =>
    (client.unanswered.erase requestId,
      requestFailed request (answerDataType request) "connection closed")
  | _, _ => (client.unanswered, [])

/-- A task's turn: where it stands after it, what is left unanswered, and what is told. -/
def taskTurn (outcome : Outcome) : Stage → Stage × Dict ℕ RequestData × List Told
  -- Its coroutine never runs.
  | .created true => (.ended true, client.unanswered, [])
  | .created false =>
    let (stage, told) := handle settings client world request
    (stage, client.unanswered.erase request.id, told)
  | .reading reading =>
    let (stage, told) := resumeBars settings client world request reading outcome
    (stage, client.unanswered, told)
  | .ended cancelled =>
    let (unanswered, told) := onRequestDone client request.id cancelled
    (.finished, unanswered, told)
  | .finished => (.finished, client.unanswered, [])

end Handlers

namespace DataClient

variable (client : DataClient)

/-- `_submit`, to which Nautilus gives `count` tasks. -/
def submit (request : RequestData) (count : ℕ) : DataClient :=
  let unanswered := client.unanswered.set request.id request
  if count = 0 then { client with unanswered := unanswered.erase request.id }
  else
    { client with
      unanswered
      tasks := (List.range count).foldl
        (fun tasks i => tasks.set (client.nextTask + i) ⟨request, .created false⟩) client.tasks
      nextTask := client.nextTask + count }

def turn (settings : Settings) (id : ℕ) (world : World) (outcome : Outcome) :
    DataClient × List Told :=
  match client.tasks.get? id with
  | none => (client, [])
  | some task =>
    let (stage, unanswered, told) := taskTurn settings client world task.request outcome task.stage
    ({ client with unanswered, tasks := client.tasks.set id { task with stage } }, told)

/-- A task that has not run is marked; one that awaits is cancelled by the turn that resumes it. -/
def cancel (id : ℕ) : DataClient :=
  match client.tasks.get? id with
  | some ⟨request, .created _⟩ =>
    { client with tasks := client.tasks.set id ⟨request, .created true⟩ }
  | _ => client

end DataClient

/-- Everything that can happen. -/
inductive Action
  | request (request : RequestData) (tasks : ℕ)
  | turn (task : ℕ) (world : World) (outcome : Outcome)
  | cancel (task : ℕ)
  /-- `_connect` begins. -/
  | connects
  /-- `_connect` has brought the session up. -/
  | connected
  | disconnects
  /-- The provider loads or drops instruments. -/
  | loads (instruments : Dict InstrumentId Instrument)

/-- The client as a machine; it tells what Nautilus is told. -/
def machine (settings : Settings) : Machine DataClient Action Told where
  step client
    | .request request tasks => (client.submit request tasks, [])
    | .turn task world outcome => client.turn settings task world outcome
    | .cancel task => (client.cancel task, [])
    | .connects => ({ client with connectionGeneration := client.connectionGeneration + 1 }, [])
    | .connected => ({ client with session := true }, [])
    | .disconnects =>
      ({ client with session := false, connectionGeneration := client.connectionGeneration + 1 }, [])
    | .loads instruments => ({ client with instruments }, [])

end Requests

end NautilusCtrader
