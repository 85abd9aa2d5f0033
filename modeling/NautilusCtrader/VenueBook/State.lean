import NautilusCtrader.Common.Dict
import NautilusCtrader.OrderRecord
import NautilusCtrader.VenueRecords

/-!
# The venue model's state

Legs, positions and the book that holds them, with the readings of the broker's messages that every
handler shares. A `set` of the source is a `Finset`, a `dict` a `Dict`, except a dictionary by level
that no code iterates out of order, which is a `ByLevel`.
-/

namespace NautilusCtrader

open Common

/-- `_Leg`: a leg as Nautilus knows it; `quantity` and `filled` are venue volumes. -/
structure Leg where
  clientOrderId : String
  alive : Bool := true
  accepted : Bool := false
  quantity : ℕ := 0
  filled : ℕ := 0
deriving DecidableEq, Repr

/-- A level of a position the node did not open, as the external order Nautilus holds. -/
structure ForeignLeg where
  venueOrderId : String
  generation : ℕ+
  quantity : ℕ
  alive : Bool := true
  filled : ℕ := 0
deriving DecidableEq, Repr

/-- `_Position`. -/
structure Position where
  positionId : ℤ
  symbolId : ℤ
  side : Side
  volume : ℕ := 0
  isOpen : Bool := false
  entryOrderId : Option ℤ := none
  entryClientOrderId : Option String := none
  entryAccepted : Bool := false
  legs : ByLevel Leg := {}
  /-- A foreign position's current or last leg of each level. -/
  foreignLegs : Dict Level ForeignLeg := Dict.empty
  entryUnknownTold : Bool := false
  awaitingProtection : Bool := false
  protectiveOrderId : Option ℤ := none
  protectiveVolume : ℕ := 0
  protectiveOpenedMs : Option ℤ := none
  /-- When the entry first filled, if the model saw it. -/
  entryFilledMs : Option ℤ := none
  /-- When the position opened, as the broker last stated it. -/
  openedMs : Option ℤ := none
  /-- Protective orders replaced by a new id or cancelled: any later event of theirs is stale. -/
  retiredProtectiveIds : Finset ℤ := ∅
  levels : Levels := {}
  terms : Option LevelTerms := none
  /-- The `utcLastUpdateTimestamp` of the position state last applied. -/
  updatedMs : ℤ := -1
  /-- The broker's time of the last trailing move applied, -1 for none. -/
  trailedMs : ℤ := -1
  /-- The broker's time of the newest protective order state applied, -1 for none. -/
  protectiveMs : ℤ := -1
deriving DecidableEq

/-- `_Position.ours`. -/
def Position.ours (p : Position) : Bool := p.entryClientOrderId.isSome

/-- What `_seen` holds: an execution event's key, with a deal or by content, or a trailing move's. -/
inductive SeenKey
  | deal (orderId : ℤ) (kind : ProtoOAExecutionType) (dealId : ℤ)
  | change (orderId : ℤ) (kind : ProtoOAExecutionType) (tsMs : ℤ) (stopPrice limitPrice : Option Double)
      (volume : ℕ)
  | trailing (orderId : ℤ) (tsMs : ℤ) (stopPrice : Double)
deriving DecidableEq

/-- Whether a key equals itself: one that holds a NaN is found in no set. -/
def SeenKey.reflexive : SeenKey → Bool
  | .deal .. => true
  | .change _ _ _ stop limit _ => stop ≠ some .nan && limit ≠ some .nan
  | .trailing _ _ stop => stop ≠ .nan

/-- `VenueBook`'s own fields. -/
structure Book where
  positions : Dict ℤ Position := Dict.empty
  /-- The node's closes, by broker order id. -/
  closes : Dict ℤ String := Dict.empty
  closesAccepted : Finset ℤ := ∅
  /-- The position each matched close belongs to, by broker order id. -/
  closePositions : Dict ℤ ℤ := Dict.empty
  /-- Pending orders on symbols the node has not loaded, by broker order id. -/
  unloadedOrders : Dict ℤ Exposure := Dict.empty
  /-- Never-opened entries that ended, dropped from `positions`. -/
  endedEntries : Finset ℤ := ∅
  /-- External orders reported once. -/
  reported : Finset ℤ := ∅
  /-- The last known state of each pending order reported, while it is open. -/
  openOrders : Dict ℤ ProtoOAOrder := Dict.empty
  seen : Finset SeenKey := ∅
  syncedDeals : Finset ℤ := ∅
  /-- Deals whose fill events were applied, by deal id. -/
  appliedDeals : Finset ℤ := ∅
  /-- Positions a load kept though its snapshot lacked them, until an event of theirs comes. -/
  kept : Finset ℤ := ∅
  keptMs : ℤ := -1
  /-- Kept positions whose keep a non-closing event ended. -/
  unconfirmed : Finset ℤ := ∅
  closedInReconciliation : Finset ℤ := ∅
deriving DecidableEq

/-- What the book is built with, as each call finds it: the price precision of a loaded symbol, the
venue order ids Nautilus holds as closed orders, and the account's money digits once known. -/
structure Env where
  pricePrecision : ℤ → Option ℕ
  heldClosed : Finset String := ∅
  moneyDigits : Option ℕ := none

/-- The answers `Operations` gives while one event is applied: each is asked at most once. -/
structure Operations where
  amending : ℤ → Bool := fun _ => false
  lateAmend : ℤ → Levels → Bool := fun _ _ => false
  closing : ℤ → ℕ → ℤ → ℤ → Option String := fun _ _ _ _ => none

namespace VenueBook

/-- `_FILLS`. -/
def isFill (kind : ProtoOAExecutionType) : Bool := kind = .orderFilled || kind = .orderPartialFill

/-- `_ENDED_EVENT_KIND`: the event of each execution that ends an order without filling it. -/
def endedEventKind : ProtoOAExecutionType → Option OrderEventKind
  | .orderCancelled => some .canceled
  | .orderExpired => some .expired
  | .orderRejected => some .rejected
  | _ => none

/-- `EXTERNAL_TYPE`, with the `MARKET` every lookup falls back to. -/
def externalType : ProtoOAOrderType → ExternalType
  | .limit => .limit
  | .stop => .stopMarket
  | .stopLimit => .stopLimit
  | _ => .market

/-- Membership in `PENDING_ORDER_TYPES`. -/
def isPending (kind : ProtoOAOrderType) : Bool := kind = .limit || kind = .stop || kind = .stopLimit

/-- When the broker created `order`, in ms, if it says. -/
def openedOf (order : ProtoOAOrder) : Option ℤ := order.tradeData.openTimestamp?

/-- When the broker created `order`, in ms; its last change if it carries no creation time. -/
def createdOf (order : ProtoOAOrder) : ℤ := (openedOf order).getD order.utcLastUpdateTimestamp

/-- When `position` opened, in ms; a created position that never filled says nothing. -/
def openedMs (position : ProtoOAPosition) : Option ℤ := position.tradeData.openTimestamp?

/-- The broker's newest time an execution event carries, in ms. -/
def eventMs (event : ProtoOAExecutionEvent) (order : ProtoOAOrder) : ℤ :=
  let times := (event.position?.map (·.utcLastUpdateTimestamp)).toList ++
    (event.deal?.map (·.executionTimestamp)).toList
  times.foldl max order.utcLastUpdateTimestamp

/-- `_opposite`. -/
def opposite : ProtoOATradeSide → ProtoOATradeSide
  | .buy => .sell
  | .sell => .buy

/-- The levels a protective order holds: its stop price and its limit price. -/
def levelsOf (order : ProtoOAOrder) (precision : ℕ) : Except Failure Levels :=
  levelsAt order.stopPrice? order.limitPrice? precision

/-- How `position`'s levels work. -/
def termsOf (position : ProtoOAPosition) : LevelTerms where
  trailingStopLoss := position.trailingStopLoss
  guaranteedStopLoss := position.guaranteedStopLoss
  stopLossTriggerMethod := position.stopLossTriggerMethod

/-- What is left of an order, as a venue volume. -/
def remainingOf (order : ProtoOAOrder) : ℕ := order.tradeData.volume - order.executedVolume?.getD 0

/-- The level a protective order's fill triggered, by the order's own semantics. -/
def whichLevel (side : Side) (levels : Levels) (fillPrice : ℚ) : Level × List Notice :=
  match levels.stopLoss, levels.takeProfit with
  | _, none => (.stopLoss, [])
  | none, some _ => (.takeProfit, [])
  | some stop, some target =>
    let hitTarget := if side = .buy then target ≤ fillPrice else fillPrice ≤ target
    let level := if hitTarget then Level.takeProfit else Level.stopLoss
    let inverted := if side = .buy then target ≤ stop else stop ≤ target
    (level, if inverted then [.invertedLevels stop target fillPrice level] else [])

end VenueBook

end NautilusCtrader
