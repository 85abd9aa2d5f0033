import Mathlib.Data.String.Basic
import NautilusCtrader.Common.Raising
import NautilusCtrader.VenueBook.Handlers

/-!
# What reconciliation is given and what it reports

One snapshot, each position's own order and deal lists, the window's deals, and what Nautilus holds;
and the reports made of them. A collection the code only asks for membership is a `Finset`.
-/

namespace NautilusCtrader

open Common

/-- One position's order and deal lists; `complete` is false when the deal list did not end. -/
structure PositionHistory where
  orders : List ProtoOAOrder
  deals : List ProtoOADeal
  complete : Bool := true
deriving DecidableEq, Repr

/-- What Nautilus holds of the legs of positions the node did not open, by venue order id. -/
structure HeldOrders where
  /-- The orders Nautilus holds as closed orders. -/
  closed : Finset String := ∅
  /-- The trade ids of the fills Nautilus holds for an order. -/
  tradeIds : String → Finset String := fun _ => ∅
  /-- The open legs Nautilus holds for an entry. -/
  openLegs : ℤ → List String := fun _ => []

inductive ReportStatus
  | accepted | partiallyFilled | filled | canceled | expired | rejected
deriving DecidableEq, Repr

inductive Contingency
  | oto | ouo
deriving DecidableEq, Repr

/-- An order as reconciliation reports it, from the broker's lists. -/
structure ReportedOrder where
  venueOrderId : String
  clientOrderId : Option String
  symbolId : ℤ
  side : Side
  orderType : ExternalType
  status : ReportStatus
  units : ℚ
  filledUnits : ℚ
  reduceOnly : Bool
  venuePositionId : Option String
  tsAcceptedMs : ℤ
  tsMs : ℤ
  avgPrice : Option ℚ := none
  price : Option ℚ := none
  triggerPrice : Option ℚ := none
  timeInForce : Option String := none
  expireTsMs : Option ℤ := none
  parentOrderId : Option String := none
  linkedOrderIds : List String := []
  contingency : Option Contingency := none
  fills : List Fill := []
deriving DecidableEq, Repr

/-- An open position; `avgPrice` is the broker's position price. -/
structure ReportedPosition where
  venuePositionId : String
  symbolId : ℤ
  side : Side
  units : ℚ
  avgPrice : ℚ
  tsMs : ℤ
deriving DecidableEq, Repr

namespace Reconciliation

/-! ## Orders as they stand -/

/-- `_ENDED_REPORT_STATUS`: the status an order that ended without filling is reported in. -/
def endedReportStatus : ProtoOAOrderStatus → Option ReportStatus
  | .cancelled => some .canceled
  | .expired => some .expired
  | .rejected => some .rejected
  | _ => none

/-- `_status`. -/
def statusOf (order : ProtoOAOrder) (fills : List Fill) : ReportStatus :=
  if order.orderStatus = .filled then .filled
  else
    (endedReportStatus order.orderStatus).getD
      (if fills.isEmpty then .accepted else .partiallyFilled)

/-- `_order_report`: `order` as it stands, with `fills` its own deals in time order. -/
def orderReport (order : ProtoOAOrder) (precision : ℕ) (fills : List Fill)
    (clientOrderId : Option String) (reduceOnly : Bool) (kind : ExternalType) :
    Except Failure ReportedOrder := do
  let prices ← VenueBook.levelsOf order precision
  let average ← averagePrice fills precision
  let data := order.tradeData
  return {
    venueOrderId := toString order.orderId
    clientOrderId
    symbolId := data.symbolId
    side := sideOf data.tradeSide
    orderType := kind
    status := statusOf order fills
    units := volumeToUnits data.volume
    filledUnits := filledUnits fills
    reduceOnly
    venuePositionId := order.positionId?.map toString
    tsAcceptedMs := data.openTimestamp?.getD
      ((fills.head?.map Fill.tsMs).getD order.utcLastUpdateTimestamp)
    tsMs := max order.utcLastUpdateTimestamp ((fills.getLast?.map Fill.tsMs).getD 0)
    avgPrice := average
    price := if kind = .limit || kind = .stopLimit then prices.takeProfit else none
    triggerPrice := if kind = .stopMarket || kind = .stopLimit then prices.stopLoss else none
    timeInForce := order.timeInForce?.map ProtoOATimeInForce.name
    expireTsMs := order.expirationTimestamp?
    fills }

/-- `unfilled_order`: a pending order, or one that ended unfilled. -/
def unfilledOrder (order : ProtoOAOrder) (precision : ℕ) (clientOrderId : Option String) :
    Except Failure ReportedOrder :=
  orderReport order precision [] clientOrderId order.closingOrder
    (VenueBook.externalType order.orderType)

/-- `_position_report`: `position` as the snapshot holds it, with `units` instead of its volume when
given. -/
def positionReport (position : ProtoOAPosition) (precision : ℕ) (units : Option ℚ := none) :
    Except Failure ReportedPosition := do
  let price ← priceOf position.price precision
  return {
    venuePositionId := toString position.positionId
    symbolId := position.tradeData.symbolId
    side := sideOf position.tradeData.tradeSide
    units := units.getD (volumeToUnits position.tradeData.volume)
    avgPrice := price
    tsMs := position.utcLastUpdateTimestamp }

/-- What an order's place among the reports goes by: its time, then non-closing orders, then a
position's entry, then its venue order id. -/
abbrev SortKey := ℤ ×ₗ Bool ×ₗ Bool ×ₗ String

/-- `_sort_key`. -/
def sortKey (report : ReportedOrder) (notBefore : ℤ := 0) (entry : Bool := false) : SortKey :=
  let first := (report.fills.head?.map Fill.tsMs).getD report.tsMs
  toLex (max first notBefore, toLex (report.reduceOnly, toLex (!entry, report.venueOrderId)))

/-! ## Closes -/

/-- What tells the node's close for a closing order: the closes matched before, and the search among
those in flight (`operations.closing`). -/
structure Closes where
  known : Dict ℤ String := Dict.empty
  closing : ℤ → ℕ → ℤ → ℤ → Option String := fun _ _ _ _ => none

/-- `_close_id`: the node's id for a closing order, if it is the node's, with the closes claimed from
then on; `ask` offers it to the closes in flight. -/
def closeId (closes : Closes) (claimed : Finset String) (order : ProtoOAOrder) (ask : Bool) :
    Option String × Finset String :=
  match closes.known.get? order.orderId with
  | some known => (some known, claimed)
  | none =>
    -- A stop-out is the broker's own close, never the node's.
    if ask && !order.isStopOut then
      match closes.closing order.positionId order.tradeData.volume (VenueBook.createdOf order)
          order.orderId with
      | some candidate =>
        if candidate ∈ claimed then (none, claimed) else (some candidate, insert candidate claimed)
      | none => (none, claimed)
    else (none, claimed)

/-! ## Volumes -/

/-- A deal's volume, counted on `side`. -/
def signedVolume (side : ProtoOATradeSide) (deal : ProtoOADeal) : ℤ :=
  if deal.tradeSide = side then deal.filledVolume else -deal.filledVolume

/-- `open_volume`: the venue volume a position's own deals leave open, its entry's side less the
other's; zero when its lists show no entry. -/
def openVolume (found : PositionHistory) : ℤ :=
  match VenueBook.entryOf found.orders with
  | none => 0
  | some entry => (found.deals.map (signedVolume entry.tradeData.tradeSide)).sum

/-- `_symbol_of`. -/
def symbolOf (found : PositionHistory) : Option ℤ :=
  match VenueBook.entryOf found.orders with
  | some entry => some entry.tradeData.symbolId
  | none => found.deals.head?.map ProtoOADeal.symbolId

end Reconciliation

end NautilusCtrader
