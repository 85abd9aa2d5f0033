import NautilusCtrader.VenueBook.Apply

/-!
# Rebuilding the book, and reading it

`load` replaces the positions and the orders known from reports by what a snapshot states. What the
book has seen, the closes it has matched and the entries it holds ended stay. `view` is what the
execution client reads of a position.
-/

namespace NautilusCtrader

open Common

namespace VenueBook

/-! ## Loading -/

/-- The node's legs the book holds ended or accepted, which a load no longer keeps waiting. -/
def settledLegs (b : Book) : Finset String :=
  (b.positions.values.flatMap fun p =>
    (p.legs.values.filter fun leg => !leg.alive || leg.accepted).map Leg.clientOrderId).toFinset

/-- Whether some leg of either kind lives. -/
def hasLiveLeg (p : Position) : Bool :=
  p.legs.values.any Leg.alive || p.foreignLegs.values.any ForeignLeg.alive

/-- The positions a load keeps as they stood: open ones with a live leg that the snapshot lacks. -/
def gonePositions (b : Book) (snapshot : ProtoOAReconcileRes) (keepGone : Bool) :
    List (ℤ × Position) :=
  let listed := snapshot.position.map ProtoOAPosition.positionId
  b.positions.entries.filter fun entry =>
    keepGone && entry.1 ∉ listed && entry.2.isOpen && hasLiveLeg entry.2

/-- A listed position before its levels and its entry are read. -/
def listedPosition (state : ProtoOAPosition) : Position where
  positionId := state.positionId
  symbolId := state.tradeData.symbolId
  side := sideOf state.tradeData.tradeSide
  volume := state.tradeData.volume
  isOpen := true
  openedMs := openedMs state
  updatedMs := state.utcLastUpdateTimestamp
  terms := some (termsOf state)

/-- The rest of `load`'s pass over one listed position, at the levels it states. -/
def restorePosition (waiting : Finset String) (orders : List ProtoOAOrder) (levels : Levels)
    (p : Position) : Position × List Record :=
  let p := { p with levels }
  let adopted := match entryOf orders with
    | none => (p, [])
    | some entry => adopt p entry true waiting
  if waits adopted.1 then
    ({ adopted.1 with awaitingProtection := true },
      adopted.2 ++ [.awaitProtection adopted.1.positionId])
  else adopted

/-- The levels of a listed position, none on a symbol the node has not loaded. -/
def listedLevels (env : Env) (state : ProtoOAPosition) : Except Failure Levels :=
  match env.pricePrecision state.tradeData.symbolId with
  | none => .ok {}
  | some precision => positionLevels state precision

/-- `load`'s loop over the snapshot's positions. -/
def loadPositions (env : Env) (waiting : Finset String) (orders : ℤ → List ProtoOAOrder) :
    List ProtoOAPosition → Book → Book × Except Failure (List Record)
  | [], b => (b, .ok [])
  | state :: rest, b =>
    let p := listedPosition state
    match listedLevels env state with
    | .error failure =>
      ({ b with positions := b.positions.set state.positionId p }, .error failure)
    | .ok levels =>
      let restored := restorePosition waiting (orders state.positionId) levels p
      let done := loadPositions env waiting orders rest
        { b with positions := b.positions.set state.positionId restored.1 }
      (done.1, done.2.map (restored.2 ++ ·))

/-- The protective order a snapshot lists, on its position: an accepted leg has its volume. -/
def listProtective (order : ProtoOAOrder) (p : Position) : Position :=
  let sized (leg : Leg) : Leg :=
    if leg.accepted then { leg with quantity := remainingOf order } else leg
  { p with
    protectiveOrderId := some order.orderId
    protectiveVolume := remainingOf order
    protectiveOpenedMs := openedOf order
    protectiveMs := order.utcLastUpdateTimestamp?.getD p.protectiveMs
    legs := { stopLoss := p.legs.stopLoss.map sized, takeProfit := p.legs.takeProfit.map sized } }

/-- One order of the snapshot. -/
def loadOrder (env : Env) (b : Book) (order : ProtoOAOrder) : Book :=
  if order.orderType = .stopLossTakeProfit then
    match b.positions.get? order.positionId with
    | none => b
    | some p => { b with positions := b.positions.set order.positionId (listProtective order p) }
  else
    -- Reconciliation reports every other open order, so Nautilus knows it from then on.
    let b := { b with reported := insert order.orderId b.reported }
    if (env.pricePrecision order.tradeData.symbolId).isNone then
      { b with unloadedOrders := b.unloadedOrders.set order.orderId (pending order) }
    else if isPending order.orderType then
      { b with openOrders := b.openOrders.set order.orderId order }
    else b

/-- The legs `load` opens for a foreign position. -/
def loadForeignLegs (heldClosed : Finset String) (p : Position) : Position × List Record :=
  if !p.ours && !p.levels.isEmpty then ForeignLegs.openLegs heldClosed p else (p, [])

/-- `load`. -/
def load (env : Env) (b : Book) (snapshot : ProtoOAReconcileRes) (orders : ℤ → List ProtoOAOrder)
    (keepGone : Bool) (readMs : ℤ) (waiting : Finset String) :
    Book × Except Failure (List Record) :=
  let waiting := waiting \ settledLegs b
  let gone := gonePositions b snapshot keepGone
  let b := { b with
    positions := Dict.empty, unloadedOrders := Dict.empty, reported := ∅, openOrders := Dict.empty
    kept := (gone.map Prod.fst).toFinset, keptMs := readMs, unconfirmed := ∅ }
  let loaded := loadPositions env waiting orders snapshot.position b
  match loaded.2 with
  | .error failure => (loaded.1, .error failure)
  | .ok notices =>
    let b := snapshot.order.foldl (loadOrder env) loaded.1
    let foreign := b.positions.mapAccum fun _ p => loadForeignLegs env.heldClosed p
    ({ b with positions := gone.foldl (fun positions entry => positions.set entry.1 entry.2) foreign.1 },
      .ok (notices ++ foreign.2))

/-! ## Reading -/

/-- What the execution client and reconciliation read of one position. -/
structure PositionView where
  positionId : ℤ
  symbolId : ℤ
  side : Side
  units : ℚ
  isOpen : Bool
  ours : Bool
  entryOrderId : Option ℤ
  entryClientOrderId : Option String
  protectiveOrderId : Option ℤ
  levels : Levels
  legs : ByLevel (String × Bool)
  /-- The units each live leg is counted against: the node's once accepted, or a foreign one's. -/
  legUnits : ByLevel ℚ
  foreignLegs : ByLevel String
  terms : Option LevelTerms

/-- The foreign legs by level: one entry a level is all the dictionary can hold. -/
def foreignByLevel (p : Position) : ByLevel ForeignLeg where
  stopLoss := (p.foreignLegs.get? .stopLoss).filter ForeignLeg.alive
  takeProfit := (p.foreignLegs.get? .takeProfit).filter ForeignLeg.alive

/-- The node's accepted live legs by level. -/
def acceptedByLevel (p : Position) : ByLevel Leg where
  stopLoss := p.legs.stopLoss.filter fun leg => leg.alive && leg.accepted
  takeProfit := p.legs.takeProfit.filter fun leg => leg.alive && leg.accepted

/-- `leg_units` of `view`: a foreign leg's entry comes last and so wins. -/
def legUnits (p : Position) (level : Level) : Option ℚ :=
  (((foreignByLevel p).get? level).map fun leg => volumeToUnits leg.quantity).or
    (((acceptedByLevel p).get? level).map fun leg => volumeToUnits leg.quantity)

/-- `view`. -/
def view (b : Book) (positionId : ℤ) : Option PositionView :=
  (b.positions.get? positionId).map fun p => {
    positionId := p.positionId
    symbolId := p.symbolId
    side := p.side
    units := volumeToUnits p.volume
    isOpen := p.isOpen
    ours := p.ours
    entryOrderId := p.entryOrderId
    entryClientOrderId := p.entryClientOrderId
    protectiveOrderId := p.protectiveOrderId
    levels := p.levels
    legs := ⟨p.legs.stopLoss.map fun leg => (leg.clientOrderId, leg.alive),
      p.legs.takeProfit.map fun leg => (leg.clientOrderId, leg.alive)⟩
    legUnits := ⟨legUnits p .stopLoss, legUnits p .takeProfit⟩
    foreignLegs := ⟨(foreignByLevel p).stopLoss.map ForeignLeg.venueOrderId,
      (foreignByLevel p).takeProfit.map ForeignLeg.venueOrderId⟩
    terms := p.terms }

end VenueBook

end NautilusCtrader
