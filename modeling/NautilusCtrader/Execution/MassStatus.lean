import NautilusCtrader.Reconciliation.Reconcile

/-!
# The mass status

`mass_status` turns the reconciliation records into the reports Nautilus takes. A record whose price or
quantity its instrument cannot hold takes everything of its position with it, and what is left out for
that, or for want of a price, is unlinked from what is kept (`mass_status_whole`). Records of a symbol
that is not loaded are left out before anything else, and links to them stay (`unloaded_leg_linked`).

What Nautilus' own constructors refuse is given: the text of the `ValueError` they raise.
-/

namespace NautilusCtrader

open Common

namespace MassStatus

/-! ## Nautilus' values -/

structure CurrencyPair where
  baseCurrency : String
  quoteCurrency : String
deriving DecidableEq, Repr

structure Instrument where
  id : String
  pricePrecision : ℕ
  sizePrecision : ℕ
  /-- Its currencies, where it is a currency pair. -/
  currencyPair : Option CurrencyPair := none
deriving DecidableEq, Repr

/-- A price or a quantity, at its precision. -/
structure Fixed where
  value : ℚ
  precision : ℕ
deriving DecidableEq, Repr

/-- Money, at the amount it is made of. -/
structure Money where
  amount : ℚ
  currency : String
deriving DecidableEq, Repr

inductive TimeInForce
  | gtc | ioc | fok | atTheOpen | gtd
deriving DecidableEq, Repr

structure OrderStatusReport where
  accountId : String
  instrumentId : String
  venueOrderId : String
  orderSide : Side
  orderType : ExternalType
  timeInForce : TimeInForce
  orderStatus : ReportStatus
  quantity : Fixed
  filledQty : Fixed
  tsAccepted : ℤ
  tsLast : ℤ
  tsInit : ℤ
  clientOrderId : Option String
  venuePositionId : Option String
  linkedOrderIds : Option (List String)
  parentOrderId : Option String
  contingencyType : Option Contingency
  expireTime : Option ℤ
  price : Option Fixed
  triggerPrice : Option Fixed
  triggered : Bool
  avgPx : Option ℚ
  reduceOnly : Bool
deriving DecidableEq, Repr

structure FillReport where
  accountId : String
  instrumentId : String
  venueOrderId : String
  tradeId : String
  orderSide : Side
  lastQty : Fixed
  lastPx : Fixed
  commission : Money
  tsEvent : ℤ
  tsInit : ℤ
  clientOrderId : Option String
  venuePositionId : String
deriving DecidableEq, Repr

structure PositionStatusReport where
  accountId : String
  instrumentId : String
  positionSide : Side
  quantity : Fixed
  tsLast : ℤ
  tsInit : ℤ
  venuePositionId : String
  avgPxOpen : ℚ
deriving DecidableEq, Repr

/-- What Nautilus' constructors, and the date of an expiry, refuse, with the text they refuse it by. -/
structure Library where
  datetime : ℤ → Option String := fun _ => none
  price : ℚ → ℕ → Option String := fun _ _ => none
  quantity : ℚ → ℕ → Option String := fun _ _ => none
  money : ℚ → String → Option String := fun _ _ => none
  order : OrderStatusReport → Option String := fun _ => none
  fill : FillReport → Option String := fun _ => none
  position : PositionStatusReport → Option String := fun _ => none

/-! ## What is raised -/

/-- The text of a `ValueError`. -/
inductive Reason
  /-- "price … does not fit … decimals", "quantity … does not fit … decimals" -/
  | doesNotFit (what : String) (value : ℚ) (precision : ℕ)
  | refused (text : String)
deriving DecidableEq, Repr

/-- A reason a position's records do not fit. -/
inductive Unfit
  /-- "order …: …" -/
  | order (name : String) (reason : Reason)
  /-- "position: …" -/
  | position (reason : Reason)
deriving DecidableEq, Repr

/-- A line `misfit` is called with. -/
inductive Misfit
  /-- "Order … on … is not reported: …" -/
  | order (name instrumentId : String) (reason : Reason)
  /-- "Position … on … is not reported, nor any of its orders: …" -/
  | position (positionId instrumentId : String) (reasons : List Unfit)
deriving DecidableEq, Repr

inductive Raise
  | valueError (reason : Reason)
  /-- A decimal with more digits than its context holds. -/
  | invalidOperation
  /-- An average price that cannot be made. -/
  | average (failure : Failure)
  /-- What `misfit` raised for a line. -/
  | misfit (line : Misfit)
deriving DecidableEq, Repr

/-- A constructor's answer as its raise. -/
def accepted (answer : Option String) : Except Raise Unit :=
  match answer with
  | none => .ok ()
  | some text => .error (.valueError (.refused text))

/-! ## The reports of one record -/

/-- What `mass_status` is given beside the reconciliation. -/
structure Reporter where
  library : Library := {}
  clientId : String := ""
  accountId : String := ""
  venue : String := ""
  currency : String := ""
  tsInit : ℤ := 0
  instrumentFor : ℤ → Option Instrument
  heldPrice : String → Option ℚ := fun _ => none
  knownId : String → Option String := fun _ => none
  misfit : Misfit → Except Raise Unit

def nanos (ms : ℤ) : ℤ := ms * 1000000

/-- `_text_at`. -/
def textAt (value : ℚ) (precision : ℕ) (what : String) : Except Raise ℚ :=
  match quantize value precision with
  | none => .error .invalidOperation
  | some exact =>
    if exact ≠ value then .error (.valueError (.doesNotFit what value precision)) else .ok exact

/-- `refuse`. -/
def refuse (line : Misfit) : Except Raise Unit := .error (.misfit line)

namespace Reporter

variable (r : Reporter)

/-- `price`. -/
def price (value : ℚ) (instrument : Instrument) : Except Raise Fixed := do
  let exact ← textAt value instrument.pricePrecision "price"
  accepted (r.library.price exact instrument.pricePrecision)
  return ⟨exact, instrument.pricePrecision⟩

/-- `quantity`. -/
def quantity (units : ℚ) (instrument : Instrument) : Except Raise Fixed := do
  let exact ← textAt units instrument.sizePrecision "quantity"
  accepted (r.library.quantity exact instrument.sizePrecision)
  return ⟨exact, instrument.sizePrecision⟩

/-- `commission`. -/
def commission (fill : Fill) (instrument : Instrument) : Except Raise Money := do
  let charge := inContext (-fill.commission)
  let money : Money :=
    match instrument.currencyPair with
    | some pair =>
      if r.currency = pair.baseCurrency then ⟨inContext (charge * fill.price), pair.quoteCurrency⟩
      else ⟨charge, r.currency⟩
    | none => ⟨charge, r.currency⟩
  accepted (r.library.money money.amount money.currency)
  return money

/-- `_time_in_force`. -/
def timeInForce (name : Option String) (expireTsMs : Option ℤ) :
    Except Raise (TimeInForce × Option ℤ) :=
  match name, expireTsMs with
  | some "GOOD_TILL_DATE", some ms => do
    accepted (r.library.datetime ms)
    return (.gtd, some ms)
  | some "IMMEDIATE_OR_CANCEL", _ => .ok (.ioc, none)
  | some "FILL_OR_KILL", _ => .ok (.fok, none)
  | some "MARKET_ON_OPEN", _ => .ok (.atTheOpen, none)
  | _, _ => .ok (.gtc, none)

/-- `fill_report`. -/
def fillReport (fill : Fill) (venueOrderId : String) (instrument : Instrument)
    (clientOrderId : Option String) : Except Raise FillReport := do
  let report : FillReport := {
    accountId := r.accountId
    instrumentId := instrument.id
    venueOrderId
    tradeId := fill.tradeId
    orderSide := fill.side
    lastQty := ← r.quantity fill.units instrument
    lastPx := ← r.price fill.price instrument
    commission := ← r.commission fill instrument
    tsEvent := nanos fill.tsMs
    tsInit := r.tsInit
    clientOrderId
    venuePositionId := fill.venuePositionId }
  accepted (r.library.fill report)
  return report

/-- The order report of `reported_order`. -/
def orderReport (record : ReportedOrder) (instrument : Instrument) :
    Except Raise OrderStatusReport := do
  let (timeInForce, expireTime) ← r.timeInForce record.timeInForce record.expireTsMs
  let linked := record.linkedOrderIds
  let report : OrderStatusReport := {
    accountId := r.accountId
    instrumentId := instrument.id
    venueOrderId := record.venueOrderId
    orderSide := record.side
    orderType := record.orderType
    timeInForce
    orderStatus := record.status
    quantity := ← r.quantity record.units instrument
    filledQty := ← r.quantity record.filledUnits instrument
    tsAccepted := nanos record.tsAcceptedMs
    tsLast := nanos record.tsMs
    tsInit := r.tsInit
    clientOrderId := record.clientOrderId
    venuePositionId := record.venuePositionId
    linkedOrderIds := if linked.isEmpty then none else some linked
    parentOrderId := record.parentOrderId
    contingencyType := if linked.isEmpty then none else record.contingency
    expireTime
    price := ← record.price.mapM (r.price · instrument)
    triggerPrice := ← record.triggerPrice.mapM (r.price · instrument)
    triggered := record.orderType = .stopMarket || record.orderType = .stopLimit
    avgPx := if record.fills.isEmpty then none else record.avgPrice
    reduceOnly := record.reduceOnly }
  accepted (r.library.order report)
  return report

/-- `reported_order`. -/
def reportedOrder (record : ReportedOrder) (instrument : Instrument) :
    Except Raise (OrderStatusReport × List FillReport) := do
  let report ← r.orderReport record instrument
  let fills ← record.fills.mapM fun fill =>
    r.fillReport fill record.venueOrderId instrument record.clientOrderId
  return (report, fills)

/-- `position_report`. -/
def positionReport (record : ReportedPosition) (instrument : Instrument) :
    Except Raise PositionStatusReport := do
  let report : PositionStatusReport := {
    accountId := r.accountId
    instrumentId := instrument.id
    positionSide := record.side
    quantity := ← r.quantity record.units instrument
    tsLast := nanos record.tsMs
    tsInit := r.tsInit
    venuePositionId := record.venuePositionId
    avgPxOpen := record.avgPrice }
  accepted (r.library.position report)
  return report

/-- The price a record lacks for its type, if one can be filled in: whether it is the trigger price;
`none` where nothing lacks. -/
def lacking (record : ReportedOrder) : Option Bool :=
  match record.orderType with
  | .limit => if record.price.isNone then some false else none
  | .stopMarket => if record.triggerPrice.isNone then some true else none
  | _ => none

/-- The price Nautilus holds for a record, else the average of its fills. -/
def heldOrAverage (record : ReportedOrder) (precision : ℕ) : Except Raise (Option ℚ) :=
  let clientOrderId := (record.clientOrderId.filter (· ≠ "")).orElse fun _ =>
    r.knownId record.venueOrderId
  match clientOrderId.bind r.heldPrice with
  | some held => .ok (some held)
  | none => (averagePrice record.fills precision).mapError Raise.average

/-- `_priced`: the record with every price its type needs; `none` if one is missing and unknown. -/
def priced (record : ReportedOrder) (precision : ℕ) : Except Raise (Option ReportedOrder) :=
  if record.orderType = .stopLimit ∧ (record.price = none ∨ record.triggerPrice = none) then .ok none
  else
    match lacking record with
    | none => .ok (some record)
    | some trigger => do
      let held ← r.heldOrAverage record precision
      return held.map fun held =>
        if trigger then { record with triggerPrice := some held }
        else { record with price := some held }

/-! ## The reports of all records -/

/-- What becomes of a record before it is built. -/
inductive Prepared
  /-- Its symbol is not loaded. -/
  | unloaded
  /-- It lacks a price. -/
  | leftOut (record : ReportedOrder)
  | kept (record : ReportedOrder) (instrument : Instrument)

def Prepared.leftOut? : Prepared → Option ReportedOrder
  | .leftOut record => some record
  | _ => none

def Prepared.kept? : Prepared → Option (ReportedOrder × Instrument)
  | .kept record instrument => some (record, instrument)
  | _ => none

/-- The first loop's body. -/
def prepare (record : ReportedOrder) : Except Raise Prepared :=
  match r.instrumentFor record.symbolId with
  | none => .ok .unloaded
  | some instrument => do
    match ← r.priced record instrument.pricePrecision with
    | none => return .leftOut record
    | some priced => return .kept priced instrument

/-- A record that was built. -/
structure Built where
  record : ReportedOrder
  instrument : Instrument
  report : OrderStatusReport
  fills : List FillReport

/-- What becomes of a record that is built. -/
inductive Tried
  | built (built : Built)
  | unfit (record : ReportedOrder) (instrument : Instrument) (reason : Reason)

def Tried.built? : Tried → Option Built
  | .built made => some made
  | _ => none

def Tried.misfit? : Tried → Option ReportedOrder
  | .unfit record _ _ => some record
  | _ => none

/-- `record.client_order_id or record.venue_order_id`. -/
def nameOf (record : ReportedOrder) : String :=
  (record.clientOrderId.filter (· ≠ "")).getD record.venueOrderId

/-- What is said of a record on no position that does not fit. -/
def tellOrder (record : ReportedOrder) (instrument : Instrument) (reason : Reason) :
    Except Raise Unit :=
  if record.venuePositionId.isNone then r.misfit (.order (nameOf record) instrument.id reason)
  else .ok ()

/-- The second loop's body. -/
def tryOrder (kept : ReportedOrder × Instrument) : Except Raise Tried :=
  match r.reportedOrder kept.1 kept.2 with
  | .ok made => .ok (.built ⟨kept.1, kept.2, made.1, made.2⟩)
  | .error (.valueError reason) => do
    r.tellOrder kept.1 kept.2 reason
    return .unfit kept.1 kept.2 reason
  | .error raised => .error raised

/-- What becomes of a position record. -/
inductive TriedPosition
  | unloaded
  | built (positionId : String) (report : PositionStatusReport)
  | unfit (positionId : String) (instrument : Instrument) (reason : Reason)

/-- The position loop's body. -/
def tryPosition (record : ReportedPosition) : Except Raise TriedPosition :=
  match r.instrumentFor record.symbolId with
  | none => .ok .unloaded
  | some instrument =>
    match r.positionReport record instrument with
    | .ok report => .ok (.built record.venuePositionId report)
    | .error (.valueError reason) => .ok (.unfit record.venuePositionId instrument reason)
    | .error raised => .error raised

/-- Why a record's position does not fit, and on which instrument. -/
def Tried.unfitOn : Tried → Option (String × String × Unfit)
  | .built _ => none
  | .unfit record instrument reason =>
    record.venuePositionId.map (·, instrument.id, .order (nameOf record) reason)

def TriedPosition.unfitOn : TriedPosition → Option (String × String × Unfit)
  | .unfit positionId instrument reason => some (positionId, instrument.id, .position reason)
  | _ => none

/-- Why each position's records do not fit, and its instrument. -/
def unfit (reasons : List (String × String × Unfit)) : Dict String (String × List Unfit) :=
  reasons.foldl (fun found reason =>
    found.set reason.1
      (reason.2.1, ((found.get? reason.1).elim [] Prod.snd) ++ [reason.2.2])) Dict.empty

/-- The mass status Nautilus is handed. -/
structure ExecutionMassStatus where
  clientId : String
  accountId : String
  venue : String
  tsInit : ℤ
  orderReports : List OrderStatusReport
  fillReports : List FillReport
  positionReports : List PositionStatusReport
deriving DecidableEq, Repr

/-- A record without its links to those that are `gone`. -/
def unlinked (gone : List (Option String)) (record : ReportedOrder) : ReportedOrder :=
  { record with
    linkedOrderIds := record.linkedOrderIds.filter fun id => some id ∉ gone
    parentOrderId := if record.parentOrderId ∈ gone then none else record.parentOrderId }

/-- The last loop's body: the reports of a record, unlinked from those that are `gone`. -/
def finish (gone : List (Option String)) (built : Built) :
    Except Raise (OrderStatusReport × List FillReport) :=
  let record := unlinked gone built.record
  if record.linkedOrderIds ≠ built.record.linkedOrderIds ∨
      record.parentOrderId ≠ built.record.parentOrderId then
    r.reportedOrder record built.instrument
  else .ok (built.report, built.fills)

/-- A position's report, unless the position does not fit. -/
def TriedPosition.report? (unfit : Dict String (String × List Unfit)) :
    TriedPosition → Option PositionStatusReport
  | .built positionId report => if unfit.contains positionId then none else some report
  | _ => none

/-- `record.venue_position_id in unfit`. -/
def onUnfit (unfit : Dict String (String × List Unfit)) (record : ReportedOrder) : Bool :=
  record.venuePositionId.any unfit.contains

/-- The ids of the records that are left out. -/
def gone (prepared : List Prepared) (tried : List Tried) (unfit : Dict String (String × List Unfit)) :
    List (Option String) :=
  (prepared.filterMap Prepared.leftOut? ++ tried.filterMap Tried.misfit? ++
    ((tried.filterMap Tried.built?).map Built.record).filter (onUnfit unfit)).map
      ReportedOrder.clientOrderId

/-- `mass_status`: the mass status, and the records left out for want of a price. -/
def massStatus (reconciliation : Reconciliation) :
    Except Raise (ExecutionMassStatus × List ReportedOrder) := do
  let prepared ← reconciliation.orders.mapM r.prepare
  let tried ← (prepared.filterMap Prepared.kept?).mapM r.tryOrder
  let positions ← reconciliation.positions.mapM r.tryPosition
  let unfit := unfit (tried.filterMap Tried.unfitOn ++ positions.filterMap TriedPosition.unfitOn)
  unfit.entries.forM fun entry => r.misfit (.position entry.1 entry.2.1 entry.2.2)
  let built := (tried.filterMap Tried.built?).filter fun built => !onUnfit unfit built.record
  let reports ← built.mapM (r.finish (gone prepared tried unfit))
  return ({
    clientId := r.clientId
    accountId := r.accountId
    venue := r.venue
    tsInit := r.tsInit
    orderReports := reports.map Prod.fst
    fillReports := reports.flatMap Prod.snd
    positionReports := positions.filterMap (TriedPosition.report? unfit) },
    prepared.filterMap Prepared.leftOut?)

end Reporter

/-! ## What does not fit -/

open Reporter

variable {r : Reporter} {reconciliation : Reconciliation}

/-- A record of a loaded symbol, with the prices it is reported at. -/
structure Priced (r : Reporter) (record : ReportedOrder) (priced : ReportedOrder)
    (instrument : Instrument) : Prop where
  loaded : r.instrumentFor record.symbolId = some instrument
  has_price : r.priced record instrument.pricePrecision = .ok (some priced)

/-- A position record, or an order record of the position that has a price, does not fit its
instrument. -/
def PositionUnfit (r : Reporter) (reconciliation : Reconciliation) (positionId : String) : Prop :=
  (∃ record ∈ reconciliation.positions, record.venuePositionId = positionId ∧
    ∃ instrument reason, r.instrumentFor record.symbolId = some instrument ∧
      r.positionReport record instrument = .error (.valueError reason)) ∨
  ∃ record ∈ reconciliation.orders, record.venuePositionId = some positionId ∧
    ∃ priced instrument reason, Priced r record priced instrument ∧
      r.reportedOrder priced instrument = .error (.valueError reason)

/-- A record of a loaded symbol that is left out: it lacks a price, it does not fit, or its position
does not. -/
def LeftOut (r : Reporter) (reconciliation : Reconciliation) (record : ReportedOrder) : Prop :=
  ∃ instrument, r.instrumentFor record.symbolId = some instrument ∧
    (r.priced record instrument.pricePrecision = .ok none ∨
      (∃ priced reason, Priced r record priced instrument ∧
        r.reportedOrder priced instrument = .error (.valueError reason)) ∨
      ∃ positionId, record.venuePositionId = some positionId ∧
        PositionUnfit r reconciliation positionId)

/-! ## The reports of a record -/

variable {record : ReportedOrder} {instrument : Instrument}

/-- What the reports of a record take over from it. -/
structure ReportsOf (record : ReportedOrder) (instrument : Instrument)
    (made : OrderStatusReport × List FillReport) : Prop where
  venueOrderId : made.1.venueOrderId = record.venueOrderId
  clientOrderId : made.1.clientOrderId = record.clientOrderId
  instrumentId : made.1.instrumentId = instrument.id
  venuePositionId : made.1.venuePositionId = record.venuePositionId
  linked : made.1.linkedOrderIds.getD [] = record.linkedOrderIds
  parent : made.1.parentOrderId = record.parentOrderId
  fills : ∀ report ∈ made.2, report.venueOrderId = record.venueOrderId ∧
    report.clientOrderId = record.clientOrderId ∧ report.instrumentId = instrument.id ∧
    ∃ fill ∈ record.fills, report.tradeId = fill.tradeId ∧
      report.venuePositionId = fill.venuePositionId

/-- A fill's report names its order, its instrument, its trade and its position. -/
theorem fillReport_of {fill : Fill} {venueOrderId : String} {clientOrderId : Option String}
    {report : FillReport}
    (h : r.fillReport fill venueOrderId instrument clientOrderId = .ok report) :
    report.venueOrderId = venueOrderId ∧ report.clientOrderId = clientOrderId ∧
      report.instrumentId = instrument.id ∧ report.tradeId = fill.tradeId ∧
      report.venuePositionId = fill.venuePositionId := by
  simp only [fillReport, bind_eq_ok, pure_eq_ok] at h
  obtain ⟨_, -, _, -, _, -, _, -, rfl⟩ := h
  exact ⟨rfl, rfl, rfl, rfl, rfl⟩

/-- An order's reports are of its record. -/
theorem reportsOf_reportedOrder {made : OrderStatusReport × List FillReport}
    (h : r.reportedOrder record instrument = .ok made) : ReportsOf record instrument made := by
  simp only [reportedOrder, orderReport, bind_eq_ok, pure_eq_ok] at h
  obtain ⟨report, ⟨_, -, _, -, _, -, _, -, _, -, _, -, rfl⟩, fills, hfills, rfl⟩ := h
  refine ⟨rfl, rfl, rfl, rfl, ?_, rfl, fun report hreport => ?_⟩
  · cases hlinked : record.linkedOrderIds <;> rfl
  · obtain ⟨fill, hfill, hmade⟩ := exists_of_mapM hfills report hreport
    obtain ⟨hvenue, hclient, hinstrument, htrade, hposition⟩ := fillReport_of hmade
    exact ⟨hvenue, hclient, hinstrument, fill, hfill, htrade, hposition⟩

/-- A price filled in leaves the rest of a record as it is. -/
structure SameRecord (record priced : ReportedOrder) : Prop where
  venueOrderId : priced.venueOrderId = record.venueOrderId
  clientOrderId : priced.clientOrderId = record.clientOrderId
  venuePositionId : priced.venuePositionId = record.venuePositionId
  fills : priced.fills = record.fills

/-- Pricing a record changes its prices only. -/
theorem sameRecord_priced {priced : ReportedOrder} {precision : ℕ}
    (h : r.priced record precision = .ok (some priced)) : SameRecord record priced := by
  unfold Reporter.priced at h
  split at h
  · cases h
  split at h
  · cases h
    exact ⟨rfl, rfl, rfl, rfl⟩
  · rename_i trigger _
    obtain ⟨held, -, hmade⟩ := bind_eq_ok.mp h
    obtain ⟨price, -, rfl⟩ := Option.map_eq_some_iff.mp (pure_eq_ok.mp hmade)
    cases trigger <;> exact ⟨rfl, rfl, rfl, rfl⟩

/-! ## What becomes of a record -/

/-- A record is kept just if it is priced on a loaded instrument. -/
theorem prepare_kept {priced : ReportedOrder} :
    r.prepare record = .ok (.kept priced instrument) ↔ Priced r record priced instrument := by
  unfold prepare
  cases hinstrument : r.instrumentFor record.symbolId with
  | none =>
    refine ⟨fun h => ?_, fun h => ?_⟩
    · cases h
    · rw [h.loaded] at hinstrument
      cases hinstrument
  | some found =>
    simp only [bind_eq_ok]
    constructor
    · rintro ⟨priced?, hpriced, hkept⟩
      cases priced? with
      | none => cases hkept
      | some priced =>
        cases hkept
        exact ⟨hinstrument, hpriced⟩
    · intro h
      obtain rfl : found = instrument := Option.some.inj (hinstrument.symm.trans h.loaded)
      exact ⟨some priced, h.has_price, rfl⟩

/-- A record whose prices do not fit is left out. -/
theorem prepare_leftOut (hinstrument : r.instrumentFor record.symbolId = some instrument)
    (hpriced : r.priced record instrument.pricePrecision = .ok none) :
    r.prepare record = .ok (.leftOut record) := by
  unfold prepare
  rw [hinstrument]
  simp only [bind_eq_ok]
  exact ⟨none, hpriced, rfl⟩

/-- A report that is built is of the record it was built for. -/
theorem tryOrder_built {kept : ReportedOrder × Instrument} {built : Built}
    (h : r.tryOrder kept = .ok (.built built)) :
    (built.record, built.instrument) = kept ∧
      r.reportedOrder kept.1 kept.2 = .ok (built.report, built.fills) := by
  unfold tryOrder at h
  cases hmade : r.reportedOrder kept.1 kept.2 with
  | ok made =>
    rw [hmade] at h
    cases h
    exact ⟨rfl, rfl⟩
  | error raised =>
    rw [hmade] at h
    cases raised with
    | valueError reason =>
      obtain ⟨_, -, hunfit⟩ := bind_eq_ok.mp h
      cases hunfit
    | invalidOperation => cases h
    | average failure => cases h
    | misfit line => cases h

/-- A record that does not fit is not built, if the loop goes on. -/
theorem tryOrder_unfit {kept : ReportedOrder × Instrument} {reason : Reason} {tried : Tried}
    (hunfit : r.reportedOrder kept.1 kept.2 = .error (.valueError reason))
    (h : r.tryOrder kept = .ok tried) : tried = .unfit kept.1 kept.2 reason := by
  unfold tryOrder at h
  rw [hunfit] at h
  obtain ⟨_, -, hmade⟩ := bind_eq_ok.mp h
  exact (Except.ok.inj hmade).symm

/-- A record that is unfit is the one that was tried. -/
theorem tryOrder_unfit_record {kept : ReportedOrder × Instrument} {record : ReportedOrder}
    {reason : Reason} (h : r.tryOrder kept = .ok (.unfit record instrument reason)) :
    (record, instrument) = kept := by
  unfold tryOrder at h
  cases hmade : r.reportedOrder kept.1 kept.2 with
  | ok made =>
    rw [hmade] at h
    cases h
  | error raised =>
    rw [hmade] at h
    cases raised with
    | valueError reason =>
      obtain ⟨_, -, hunfit⟩ := bind_eq_ok.mp h
      cases hunfit
      rfl
    | invalidOperation => cases h
    | average failure => cases h
    | misfit line => cases h

/-- A position's report is of its record. -/
theorem tryPosition_built {record : ReportedPosition} {positionId : String}
    {report : PositionStatusReport} (h : r.tryPosition record = .ok (.built positionId report)) :
    record.venuePositionId = positionId ∧ record.venuePositionId = report.venuePositionId := by
  unfold tryPosition at h
  cases hinstrument : r.instrumentFor record.symbolId with
  | none =>
    rw [hinstrument] at h
    cases h
  | some instrument =>
    rw [hinstrument] at h
    dsimp only at h
    cases hmade : r.positionReport record instrument with
    | ok made =>
      rw [hmade] at h
      cases h
      simp only [Reporter.positionReport, bind_eq_ok, pure_eq_ok] at hmade
      obtain ⟨_, -, _, -, rfl⟩ := hmade
      exact ⟨rfl, rfl⟩
    | error raised =>
      rw [hmade] at h
      cases raised <;> cases h

/-- The positions with a reason not to fit. -/
theorem contains_unfit {reasons : List (String × String × Unfit)} {positionId : String} :
    (unfit reasons).contains positionId = true ↔ ∃ reason ∈ reasons, reason.1 = positionId := by
  have hfold : ∀ (reasons : List (String × String × Unfit)) (found : Dict String (String × List Unfit)),
      (reasons.foldl (fun found reason => found.set reason.1
        (reason.2.1, ((found.get? reason.1).elim [] Prod.snd) ++ [reason.2.2])) found).contains
          positionId = true ↔
        found.contains positionId = true ∨ ∃ reason ∈ reasons, reason.1 = positionId := by
    intro reasons
    induction reasons with
    | nil =>
      intro found
      simp only [List.foldl_nil, List.not_mem_nil, false_and, exists_false, or_false]
    | cons reason reasons ih =>
      intro found
      rw [List.foldl_cons, ih, Dict.contains, Dict.get?_set]
      by_cases hid : reason.1 = positionId
      · simp [hid]
      · simp [hid, Dict.contains]
  rw [unfit, hfold]
  simp [Dict.contains]

/-! ## The whole pass -/

/-- What the loops of a pass that returns have made. -/
structure Pass (r : Reporter) (reconciliation : Reconciliation) (status : ExecutionMassStatus) where
  prepared : List Prepared
  tried : List Tried
  positions : List TriedPosition
  unfit : Dict String (String × List Unfit)
  reports : List (OrderStatusReport × List FillReport)
  prepares : reconciliation.orders.mapM r.prepare = .ok prepared
  tries : (prepared.filterMap Prepared.kept?).mapM r.tryOrder = .ok tried
  triesPositions : reconciliation.positions.mapM r.tryPosition = .ok positions
  unfit_eq : unfit = Reporter.unfit
    (tried.filterMap Tried.unfitOn ++ positions.filterMap TriedPosition.unfitOn)
  finishes : ((tried.filterMap Tried.built?).filter fun built => !onUnfit unfit built.record).mapM
    (r.finish (gone prepared tried unfit)) = .ok reports
  orderReports : status.orderReports = reports.map Prod.fst
  fillReports : status.fillReports = reports.flatMap Prod.snd
  positionReports : status.positionReports = positions.filterMap (TriedPosition.report? unfit)

/-- A mass status that is made went through the whole pass. -/
theorem pass_of_massStatus {status : ExecutionMassStatus} {leftOut : List ReportedOrder}
    (h : r.massStatus reconciliation = .ok (status, leftOut)) :
    Nonempty (Pass r reconciliation status) := by
  simp only [massStatus, bind_eq_ok, pure_eq_ok, Prod.mk.injEq] at h
  obtain ⟨prepared, hprepared, tried, htried, positions, hpositions, _, -, reports, hreports, rfl, -⟩ :=
    h
  exact ⟨⟨prepared, tried, positions, _, reports, hprepared, htried, hpositions, rfl, hreports, rfl,
    rfl, rfl⟩⟩

namespace Pass

variable {status : ExecutionMassStatus} (pass : Pass r reconciliation status)
include pass

/-- A record that has a price is built or does not fit. -/
theorem tried_of_priced {priced : ReportedOrder} (hrecord : record ∈ reconciliation.orders)
    (h : Priced r record priced instrument) :
    ∃ tried ∈ pass.tried, r.tryOrder (priced, instrument) = .ok tried := by
  obtain ⟨prepared, hmem, hprepared⟩ := made_of_mapM pass.prepares record hrecord
  obtain rfl := Except.ok.inj (hprepared.symm.trans (prepare_kept.mpr h))
  have hkept : (priced, instrument) ∈ pass.prepared.filterMap Prepared.kept? :=
    List.mem_filterMap.mpr ⟨_, hmem, rfl⟩
  exact made_of_mapM pass.tries _ hkept

/-- A position with a record that does not fit is one of the unfit. -/
theorem contains_of_unfit {positionId : String} (h : PositionUnfit r reconciliation positionId) :
    pass.unfit.contains positionId = true := by
  rw [pass.unfit_eq, contains_unfit]
  rcases h with ⟨record, hrecord, hposition, instrument, reason, hinstrument, hraised⟩ |
    ⟨record, hrecord, hposition, priced, instrument, reason, hpriced, hraised⟩
  · obtain ⟨tried, hmem, htried⟩ := made_of_mapM pass.triesPositions record hrecord
    have hunfit : r.tryPosition record = .ok (.unfit record.venuePositionId instrument reason) := by
      rw [tryPosition, hinstrument]
      simp only [hraised]
    obtain rfl := Except.ok.inj (htried.symm.trans hunfit)
    exact ⟨(record.venuePositionId, instrument.id, .position reason),
      List.mem_append_right _ (List.mem_filterMap.mpr ⟨_, hmem, rfl⟩), hposition⟩
  · obtain ⟨tried, hmem, htried⟩ := pass.tried_of_priced hrecord hpriced
    obtain rfl := tryOrder_unfit hraised htried
    have hpositionPriced : priced.venuePositionId = some positionId :=
      (sameRecord_priced hpriced.has_price).venuePositionId.trans hposition
    refine ⟨(positionId, instrument.id, .order (nameOf priced) reason),
      List.mem_append_left _ (List.mem_filterMap.mpr ⟨_, hmem, ?_⟩), rfl⟩
    rw [Tried.unfitOn, hpositionPriced, Option.map_some]

/-- A record that is left out is one of those gone. -/
theorem gone_of_leftOut (hrecord : record ∈ reconciliation.orders)
    (h : LeftOut r reconciliation record) :
    record.clientOrderId ∈ gone pass.prepared pass.tried pass.unfit := by
  obtain ⟨instrument, hinstrument, hout⟩ := h
  have hgone {other : ReportedOrder} (hother : other.clientOrderId = record.clientOrderId)
      (hmem : other ∈ pass.prepared.filterMap Prepared.leftOut? ++
        pass.tried.filterMap Tried.misfit? ++
        ((pass.tried.filterMap Tried.built?).map Built.record).filter (onUnfit pass.unfit)) :
      record.clientOrderId ∈ gone pass.prepared pass.tried pass.unfit :=
    List.mem_map.mpr ⟨other, hmem, hother⟩
  have hunpriced (hpriced : r.priced record instrument.pricePrecision = .ok none) :
      record.clientOrderId ∈ gone pass.prepared pass.tried pass.unfit := by
    obtain ⟨prepared, hmem, hprepared⟩ := made_of_mapM pass.prepares record hrecord
    obtain rfl := Except.ok.inj (hprepared.symm.trans (prepare_leftOut hinstrument hpriced))
    exact hgone rfl (List.mem_append_left _ (List.mem_append_left _
      (List.mem_filterMap.mpr ⟨_, hmem, rfl⟩)))
  have hmisfit {priced : ReportedOrder} {reason : Reason} (hpriced : Priced r record priced instrument)
      (hmem : Tried.unfit priced instrument reason ∈ pass.tried) :
      record.clientOrderId ∈ gone pass.prepared pass.tried pass.unfit :=
    hgone (sameRecord_priced hpriced.has_price).clientOrderId (List.mem_append_left _
      (List.mem_append_right _ (List.mem_filterMap.mpr ⟨_, hmem, rfl⟩)))
  rcases hout with hpriced | ⟨priced, reason, hpriced, hraised⟩ | ⟨positionId, hposition, hunfit⟩
  · exact hunpriced hpriced
  · obtain ⟨tried, hmem, htried⟩ := pass.tried_of_priced hrecord hpriced
    obtain rfl := tryOrder_unfit hraised htried
    exact hmisfit hpriced hmem
  · obtain ⟨prepared, hmemPrepared, hprepared⟩ := made_of_mapM pass.prepares record hrecord
    cases prepared with
    | unloaded =>
      rw [prepare, hinstrument] at hprepared
      obtain ⟨priced?, -, hmade⟩ := bind_eq_ok.mp hprepared
      cases priced? with
      | none => cases hmade
      | some priced => cases hmade
    | leftOut other =>
      rw [prepare, hinstrument] at hprepared
      obtain ⟨priced?, hpriced, hmade⟩ := bind_eq_ok.mp hprepared
      cases priced? with
      | none => exact hunpriced hpriced
      | some priced => cases hmade
    | kept priced found =>
      have hpriced := prepare_kept.mp hprepared
      obtain rfl : instrument = found := Option.some.inj (hinstrument.symm.trans hpriced.loaded)
      obtain ⟨tried, hmem, htried⟩ := pass.tried_of_priced hrecord hpriced
      cases tried with
      | built built =>
        obtain ⟨hbuilt, -⟩ := tryOrder_built htried
        have hsame := sameRecord_priced hpriced.has_price
        have hrecordBuilt : built.record = priced := congrArg Prod.fst hbuilt
        refine hgone (hrecordBuilt ▸ hsame.clientOrderId) (List.mem_append_right _
          (List.mem_filter.mpr ⟨List.mem_map.mpr
            ⟨built, List.mem_filterMap.mpr ⟨_, hmem, rfl⟩, rfl⟩, ?_⟩))
        rw [onUnfit, hrecordBuilt, hsame.venuePositionId, hposition]
        exact pass.contains_of_unfit hunfit
      | unfit other onInstrument reason =>
        obtain ⟨rfl, rfl⟩ := Prod.mk.inj (tryOrder_unfit_record htried)
        exact hmisfit hpriced hmem

/-- The reports in the result are those of a record on no unfit position, unlinked from what is
gone. -/
theorem report_of {made : OrderStatusReport × List FillReport} (hmade : made ∈ pass.reports) :
    ∃ record ∈ reconciliation.orders, ∃ priced instrument, SameRecord record priced ∧
      onUnfit pass.unfit record = false ∧ ReportsOf priced instrument made ∧
      (∀ id ∈ made.1.linkedOrderIds.getD [],
        some id ∉ gone pass.prepared pass.tried pass.unfit) ∧
      ∀ id, made.1.parentOrderId = some id →
        some id ∉ gone pass.prepared pass.tried pass.unfit := by
  obtain ⟨built, hbuilt, hfinish⟩ := exists_of_mapM pass.finishes made hmade
  obtain ⟨hmemBuilt, hfits⟩ := List.mem_filter.mp hbuilt
  obtain ⟨tried, hmemTried, htried⟩ := List.mem_filterMap.mp hmemBuilt
  cases tried with
  | unfit => cases htried
  | built other =>
  obtain rfl := Option.some.inj htried
  obtain ⟨kept, hkept, hmadeOf⟩ := exists_of_mapM pass.tries _ hmemTried
  obtain ⟨rfl, hreported⟩ := tryOrder_built hmadeOf
  obtain ⟨prepared, hmemPrepared, hprepared⟩ := List.mem_filterMap.mp hkept
  cases prepared with
  | unloaded => cases hprepared
  | leftOut => cases hprepared
  | kept priced instrument =>
  cases hprepared
  obtain ⟨record, hrecord, hprepare⟩ := exists_of_mapM pass.prepares _ hmemPrepared
  have hsame := sameRecord_priced (prepare_kept.mp hprepare).has_price
  have hon : onUnfit pass.unfit record = false := by
    rw [onUnfit, ← hsame.venuePositionId]
    exact Bool.not_eq_true' _ ▸ hfits
  have hsameUnlinked : SameRecord record (unlinked (gone pass.prepared pass.tried pass.unfit)
      other.record) :=
    ⟨hsame.venueOrderId, hsame.clientOrderId, hsame.venuePositionId, hsame.fills⟩
  -- A record whose links are all kept is reported as it was built.
  have hfinished : ReportsOf (unlinked (gone pass.prepared pass.tried pass.unfit) other.record)
      other.instrument made := by
    unfold finish at hfinish
    dsimp only at hfinish
    split at hfinish
    · exact reportsOf_reportedOrder hfinish
    · rename_i hunchanged
      obtain ⟨hlinked, hparent⟩ := not_or.mp hunchanged
      cases hfinish
      have hof := reportsOf_reportedOrder hreported
      exact { hof with
        linked := hof.linked.trans (not_not.mp hlinked).symm
        parent := hof.parent.trans (not_not.mp hparent).symm }
  refine ⟨record, hrecord, _, other.instrument, hsameUnlinked, hon, hfinished, fun id hid => ?_,
    fun id hid => ?_⟩
  · rw [hfinished.linked] at hid
    exact of_decide_eq_true (List.mem_filter.mp hid).2
  · rw [hfinished.parent, unlinked] at hid
    dsimp only at hid
    split at hid
    · cases hid
    · rename_i hkeptParent
      exact hid ▸ hkeptParent

end Pass

/-! ## All or nothing -/

/-- A report of one of an order's fills. -/
def FillOf (report : FillReport) (order : ReportedOrder) : Prop :=
  report.venueOrderId = order.venueOrderId ∧ report.clientOrderId = order.clientOrderId ∧
    ∃ fill ∈ order.fills, report.tradeId = fill.tradeId ∧
      report.venuePositionId = fill.venuePositionId

/-- An order's fills are of the position it is on. -/
def FillsOnPosition (order : ReportedOrder) : Prop :=
  ∀ fill ∈ order.fills, order.venuePositionId = some fill.venuePositionId

/-- A fill report names its order report. -/
def Belongs (fill : FillReport) (report : OrderStatusReport) : Prop :=
  fill.venueOrderId = report.venueOrderId ∧ fill.clientOrderId = report.clientOrderId ∧
    fill.instrumentId = report.instrumentId

/-- A position of which the position record, or an order record that has a price, does not fit has no
order report, no fill report and no position report. Every fill report belongs to an order report. The
linked and parent ids of an order report name no record that is left out, those of symbols that are
not loaded apart. -/
theorem mass_status_whole {status : ExecutionMassStatus} {leftOut : List ReportedOrder}
    (h : r.massStatus reconciliation = .ok (status, leftOut)) :
    (∀ positionId, PositionUnfit r reconciliation positionId →
      (∀ report ∈ status.orderReports, report.venuePositionId ≠ some positionId) ∧
      (∀ fill ∈ status.fillReports, ∃ order ∈ reconciliation.orders,
        FillOf fill order ∧ order.venuePositionId ≠ some positionId) ∧
      ((∀ order ∈ reconciliation.orders, FillsOnPosition order) →
        ∀ fill ∈ status.fillReports, fill.venuePositionId ≠ positionId) ∧
      ∀ report ∈ status.positionReports, report.venuePositionId ≠ positionId) ∧
    (∀ fill ∈ status.fillReports, ∃ report ∈ status.orderReports, Belongs fill report) ∧
    ∀ report ∈ status.orderReports, ∀ id,
      id ∈ report.linkedOrderIds.getD [] ∨ report.parentOrderId = some id →
        ∀ record ∈ reconciliation.orders, LeftOut r reconciliation record →
          record.clientOrderId ≠ some id := by
  obtain ⟨pass⟩ := pass_of_massStatus h
  refine ⟨fun positionId hunfit => ?_, fun fill hfill => ?_, fun report hreport id hlink => ?_⟩
  · have hcontains := pass.contains_of_unfit hunfit
    have hother {record : ReportedOrder} (hon : onUnfit pass.unfit record = false) :
        record.venuePositionId ≠ some positionId := by
      intro hposition
      rw [onUnfit, hposition, Option.any_some, hcontains] at hon
      cases hon
    have hfills : ∀ fill ∈ status.fillReports, ∃ order ∈ reconciliation.orders,
        FillOf fill order ∧ order.venuePositionId ≠ some positionId := by
      intro fill hfill
      rw [pass.fillReports] at hfill
      obtain ⟨made, hmade, hfill⟩ := List.mem_flatMap.mp hfill
      obtain ⟨record, hrecord, priced, instrument, hsame, hon, hof, -⟩ := pass.report_of hmade
      obtain ⟨hvenue, hclient, -, hfillOf⟩ := hof.fills fill hfill
      refine ⟨record, hrecord, ⟨hvenue.trans hsame.venueOrderId, hclient.trans hsame.clientOrderId,
        ?_⟩, hother hon⟩
      rw [← hsame.fills]
      exact hfillOf
    refine ⟨fun report hreport => ?_, hfills, fun hown fill hfill => ?_, fun report hreport => ?_⟩
    · rw [pass.orderReports] at hreport
      obtain ⟨made, hmade, rfl⟩ := List.mem_map.mp hreport
      obtain ⟨record, -, priced, instrument, hsame, hon, hof, -⟩ := pass.report_of hmade
      rw [hof.venuePositionId, hsame.venuePositionId]
      exact hother hon
    · obtain ⟨order, horder, ⟨-, -, own, hown', -, hposition⟩, hnot⟩ := hfills fill hfill
      intro heq
      refine hnot ?_
      rw [hown order horder own hown', ← hposition, heq]
    · rw [pass.positionReports] at hreport
      obtain ⟨tried, htried, hreportOf⟩ := List.mem_filterMap.mp hreport
      cases tried with
      | unloaded => cases hreportOf
      | unfit => cases hreportOf
      | built triedId made =>
        rw [TriedPosition.report?] at hreportOf
        split at hreportOf
        · cases hreportOf
        · rename_i hfits
          obtain rfl := Option.some.inj hreportOf
          rintro rfl
          obtain ⟨record, -, hmade⟩ := exists_of_mapM pass.triesPositions _ htried
          refine hfits ?_
          rw [← (tryPosition_built hmade).1, (tryPosition_built hmade).2]
          exact hcontains
  · rw [pass.fillReports] at hfill
    obtain ⟨made, hmade, hfill⟩ := List.mem_flatMap.mp hfill
    obtain ⟨record, -, priced, instrument, -, -, hof, -⟩ := pass.report_of hmade
    obtain ⟨hvenue, hclient, hinstrument, -⟩ := hof.fills fill hfill
    refine ⟨made.1, pass.orderReports ▸ List.mem_map_of_mem hmade, ?_, ?_, ?_⟩
    · exact hvenue.trans hof.venueOrderId.symm
    · exact hclient.trans hof.clientOrderId.symm
    · exact hinstrument.trans hof.instrumentId.symm
  · intro record hrecord hleftOut heq
    have hgone := pass.gone_of_leftOut hrecord hleftOut
    rw [pass.orderReports] at hreport
    obtain ⟨made, hmade, rfl⟩ := List.mem_map.mp hreport
    obtain ⟨-, -, -, -, -, -, -, hlinked, hparent⟩ := pass.report_of hmade
    rw [heq] at hgone
    rcases hlink with hmem | hof
    · exact hlinked id hmem hgone
    · exact hparent id hof hgone

/-! ## Records -/

/-- A market order of two units, on a position. -/
def sampleRecord (venueOrderId : String) (symbolId : ℤ) (units : ℚ) (position : String)
    (linked : List String) : ReportedOrder where
  venueOrderId
  clientOrderId := some ("O-" ++ venueOrderId)
  symbolId
  side := .buy
  orderType := .market
  status := .accepted
  units
  filledUnits := 0
  reduceOnly := false
  venuePositionId := some position
  tsAcceptedMs := 1
  tsMs := 1
  linkedOrderIds := linked

/-- One symbol is loaded, in whole units. -/
def sampleReporter : Reporter where
  instrumentFor symbolId :=
    if symbolId = 1 then some { id := "EURUSD", pricePrecision := 5, sizePrecision := 0 } else none
  misfit _ := .ok ()

/-- The second order is finer than its instrument, so its position goes with it. -/
def sampleUnfit : Reconciliation where
  orders := [sampleRecord "1" 1 2 "7" ["O-2"], sampleRecord "2" 1 (1 / 2) "7" [],
    sampleRecord "3" 1 2 "8" ["O-2"]]
  positions := []
  notices := []

/-- A position that is unfit is left out, with its orders. -/
theorem unfit_position_left_out : ∃ result, sampleReporter.massStatus sampleUnfit = .ok result ∧
    result.1.orderReports.map OrderStatusReport.venueOrderId = ["3"] ∧
    (∀ report ∈ result.1.orderReports, report.venuePositionId ≠ some "7") := by
  have hunfit : PositionUnfit sampleReporter sampleUnfit "7" := by
    refine .inr ⟨sampleRecord "2" 1 (1 / 2) "7" [],
      List.mem_cons_of_mem _ List.mem_cons_self, rfl, _,
      { id := "EURUSD", pricePrecision := 5, sizePrecision := 0 },
      .doesNotFit "quantity" (1 / 2) 0, ⟨rfl, rfl⟩, ?_⟩
    decide +kernel
  obtain ⟨result, hresult⟩ := exists_of_isOk
    (show (sampleReporter.massStatus sampleUnfit).isOk = true by decide +kernel)
  refine ⟨result, hresult, ?_, ((mass_status_whole hresult).1 "7" hunfit).1⟩
  have hids : (sampleReporter.massStatus sampleUnfit).map (fun result =>
      result.1.orderReports.map OrderStatusReport.venueOrderId) = .ok ["3"] := by decide +kernel
  rw [hresult] at hids
  exact Except.ok.inj hids

/-- A leg of a symbol that is not loaded is left out, and the order linked to it still names it. -/
theorem unloaded_leg_linked :
    (sampleReporter.massStatus
      ⟨[sampleRecord "1" 1 2 "7" ["O-2"], sampleRecord "2" 2 2 "7" []], [], []⟩).map (fun result =>
        result.1.orderReports.map fun report => (report.clientOrderId, report.linkedOrderIds)) =
      .ok [(some "O-1", some ["O-2"])] := by
  decide +kernel

end MassStatus

end NautilusCtrader
