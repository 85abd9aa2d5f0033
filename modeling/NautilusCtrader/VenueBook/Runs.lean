import NautilusCtrader.Common.Machine
import NautilusCtrader.VenueBook.Load

/-!
# Runs of the book

An `Operation` is any call that can change the book between two loads, with the environment and the
answers it finds. The book is a machine over operations; a call that raises tells nothing and leaves
what it changed so far. `Reachable` is every book some history of operations and loads leads to.
-/

namespace NautilusCtrader

open Common

namespace VenueBook

/-- One call between two loads. -/
inductive Operation
  | apply (env : Env) (ops : Operations) (event : ProtoOAExecutionEvent)
  | trailingStopMoved (env : Env) (event : ProtoOATrailingSLChangedEvent)
  | entryFound (env : Env) (positionId : ℤ) (orders : List ProtoOAOrder)
  | cancelLeg (positionId : ℤ) (level : Level) (ts : ℤ)
  | rejectLegs (positionId : ℤ) (reason : String) (ts : ℤ)
  | matchClose (orderId positionId : ℤ) (closeId : String)
  | endKeep (positionId : ℤ)
  | closedInReconciliation (positionIds : Finset ℤ)

/-- The book a call leaves, and what it returns unless it raises. -/
def perform (b : Book) : Operation → Book × Except Failure (List Record)
  | .apply env ops event => apply env ops b event
  | .trailingStopMoved env event => trailingStopMoved env b event
  | .entryFound env positionId orders =>
    let done := entryFound env b positionId orders
    (done.1, .ok done.2)
  | .cancelLeg positionId level ts =>
    let done := cancelLeg b positionId level ts
    (done.1, .ok done.2)
  | .rejectLegs positionId reason ts =>
    let done := rejectLegs b positionId reason ts
    (done.1, .ok done.2)
  | .matchClose orderId positionId closeId => (matchClose b orderId positionId closeId, .ok [])
  | .endKeep positionId => (endKeep b positionId, .ok [])
  | .closedInReconciliation positionIds => (closedInReconciliation b positionIds, .ok [])

/-- The records a call hands its caller: none when it raises. -/
def recordsOf : Except Failure (List Record) → List Record
  | .ok records => records
  | .error _ => []

/-- The book as a machine over its operations. -/
def machine : Machine Book Operation Record where
  step b operation :=
    let done := perform b operation
    (done.1, recordsOf done.2)

/-- The books some history of operations and loads leads to. -/
inductive Reachable : Book → Prop
  | new : Reachable {}
  | operation {b : Book} (operation : Operation) :
      Reachable b → Reachable (perform b operation).1
  | load {b : Book} (env : Env) (snapshot : ProtoOAReconcileRes) (orders : ℤ → List ProtoOAOrder)
      (keepGone : Bool) (readMs : ℤ) (waiting : Finset String) :
      Reachable b → Reachable (load env b snapshot orders keepGone readMs waiting).1

/-- A run from a reachable book ends in one. -/
theorem Reachable.after {b : Book} (hb : Reachable b) (operations : List Operation) :
    Reachable (machine.after b operations) :=
  Machine.after_invariant (fun _ operation h => .operation operation h) hb operations

end VenueBook

/-! ## A small market

The messages of one long position, 10, on the one loaded symbol, 1: its entry, order 1, its protective
order, 2, and its closing order, 3.
-/

namespace Sample

def env : Env where
  pricePrecision symbolId := if symbolId = 1 then some 2 else none
  moneyDigits := some 2

/-- A trader's entry of ten units. -/
def entry : ProtoOAOrder where
  orderId := 1
  tradeData := { symbolId := 1, volume := 1000, tradeSide := .buy, openTimestamp? := some 100 }
  orderType := .market
  positionId? := some 10
  utcLastUpdateTimestamp? := some 100

/-- The node's entry, with both legs. -/
def nodeEntry : ProtoOAOrder :=
  { entry with tradeData :=
      { entry.tradeData with label := "ntca1:O-1", comment := "ntca1|sl=O-2|tp=O-3" } }

/-- The protective order's state at `ts`. -/
def protective (ts : ℤ) (stop target : Option Double) (volume : ℕ := 1000) : ProtoOAOrder where
  orderId := 2
  tradeData := { symbolId := 1, volume, tradeSide := .sell, openTimestamp? := some 200 }
  orderType := .stopLossTakeProfit
  positionId? := some 10
  utcLastUpdateTimestamp? := some ts
  stopPrice? := stop
  limitPrice? := target

/-- The order that closes the position. -/
def closing : ProtoOAOrder where
  orderId := 3
  tradeData := { symbolId := 1, volume := 1000, tradeSide := .sell, openTimestamp? := some 500 }
  orderType := .market
  closingOrder := true
  positionId? := some 10
  utcLastUpdateTimestamp? := some 500

/-- The position's state at `ts`. -/
def position (ts : ℤ) (status : ProtoOAPositionStatus) (volume : ℕ := 1000) : ProtoOAPosition where
  positionId := 10
  tradeData := { symbolId := 1, volume, tradeSide := .buy, openTimestamp? := some 150 }
  positionStatus := status
  utcLastUpdateTimestamp := ts

/-- A deal of `order`, at 100. -/
def deal (dealId : ℤ) (order : ProtoOAOrder) (ts : ℤ) (volume : ℕ := 1000) : ProtoOADeal where
  dealId
  orderId := order.orderId
  positionId := 10
  filledVolume := volume
  symbolId := 1
  executionTimestamp := ts
  executionPrice := .finite 100
  tradeSide := order.tradeData.tradeSide

/-- An event of `order`, with the position's state. -/
def event (kind : ProtoOAExecutionType) (order : ProtoOAOrder) (state : ProtoOAPosition)
    (deal? : Option ProtoOADeal := none) : ProtoOAExecutionEvent where
  executionType := kind
  position? := some state
  order? := some order
  deal?

/-- The entry filled whole. -/
def entryFill (order : ProtoOAOrder) : ProtoOAExecutionEvent :=
  event .orderFilled order (position 150 .open) (some (deal 1 order 150))

/-- The position closed by hand. -/
def closingFill : ProtoOAExecutionEvent :=
  event .orderFilled closing (position 510 .closed 0) (some (deal 3 closing 510))

/-- The protective order accepted or replaced at `ts`, with the position open. -/
def protectiveEvent (kind : ProtoOAExecutionType) (ts : ℤ) (stop target : Option Double)
    (volume : ℕ := 1000) : ProtoOAExecutionEvent :=
  event kind (protective ts stop target volume) (position ts .open volume)

/-- The protective order filled at 100, which closes the position. -/
def trigger (volume : ℕ := 1000) : ProtoOAExecutionEvent :=
  let order := protective 600 (some (.finite 100)) (some (.finite 120)) volume
  event .orderFilled order (position 610 .closed 0) (some (deal 4 order 610 volume))

end Sample

end NautilusCtrader
