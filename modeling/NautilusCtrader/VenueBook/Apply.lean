import NautilusCtrader.VenueBook.Events

/-!
# The operations between two loads

`apply` with its two ways of refusing a repeat, and the operations that touch a position's legs
without an execution event. An operation that raises in the source leaves its book beside an
`Except`, as the handlers do.
-/

namespace NautilusCtrader

open Common

namespace VenueBook

/-! ## Applying an event -/

/-- `_key`: by deal, else by content, since two level changes can share a millisecond. -/
def keyOf (event : ProtoOAExecutionEvent) (order : ProtoOAOrder) : SeenKey :=
  match event.deal? with
  | some deal => .deal order.orderId event.executionType deal.dealId
  | none =>
    .change order.orderId event.executionType order.utcLastUpdateTimestamp order.stopPrice?
      order.limitPrice? order.tradeData.volume

/-- `key in self._seen`. -/
def holdsKey (b : Book) (key : SeenKey) : Bool := key.reflexive && key ∈ b.seen

/-- The position handlers on an event of a loaded symbol, none for an ended entry's news. -/
def handleLoaded (env : Env) (ops : Operations) (b : Book) (event : ProtoOAExecutionEvent)
    (order : ProtoOAOrder) (precision : ℕ) : Handled :=
  let f := positionFor b event order
  if order.orderType = .stopLossTakeProfit then protectiveOn env ops event order precision f
  else if order.closingOrder then closingOn env ops event order precision f
  else if order.orderId ∈ b.endedEntries ∧ !isFill event.executionType then
    Handled.mk ⟨b, f.position, none⟩ (.ok [])
  else openingOn env event order precision f

/-- `_handle`. -/
def handle (env : Env) (ops : Operations) (b : Book) (event : ProtoOAExecutionEvent)
    (order : ProtoOAOrder) : Book × Except Failure (List Record) :=
  match env.pricePrecision order.tradeData.symbolId with
  | none => (trackUnloaded event order b, .ok (unloadedActivity event order))
  | some precision =>
    let done := handleLoaded env ops b event order precision
    (done.focus.finish, done.records)

/-- A fill event's deal, marked once applied. -/
def markDeal (event : ProtoOAExecutionEvent) (b : Book) : Book :=
  match event.deal? with
  | some deal =>
    if isFill event.executionType then { b with appliedDeals := insert deal.dealId b.appliedDeals }
    else b
  | none => b

/-- The end of a kept position's keep: the broker states the position since the snapshot. -/
def releaseKeep (event : ProtoOAExecutionEvent) (order : ProtoOAOrder) (b : Book) : Book :=
  let positionId := order.positionId
  if positionId ∈ b.kept then
    if ((b.positions.get? positionId).map Position.isOpen).getD false then
      -- An older event says nothing the snapshot did not.
      if b.keptMs ≤ eventMs event order then
        { b with kept := b.kept.erase positionId, unconfirmed := insert positionId b.unconfirmed }
      else b
    else { b with kept := b.kept.erase positionId }
  else b

/-- What `apply` does once an event's handling has not raised. -/
def markApplied (event : ProtoOAExecutionEvent) (order : ProtoOAOrder) (b : Book) : Book :=
  releaseKeep event order (markDeal event { b with seen := insert (keyOf event order) b.seen })

/-- Whether `apply` refuses an event as one seen before: by its key, or by its deal, which fills
once whatever execution type its events name. -/
def repeated (b : Book) (event : ProtoOAExecutionEvent) (order : ProtoOAOrder) : Bool :=
  holdsKey b (keyOf event order) ||
    (isFill event.executionType &&
      (event.deal?.map fun deal => decide (deal.dealId ∈ b.appliedDeals)).getD false)

/-- `apply`. -/
def apply (env : Env) (ops : Operations) (b : Book) (event : ProtoOAExecutionEvent) :
    Book × Except Failure (List Record) :=
  match event.order? with
  -- Swap and cash-flow events change the account, not an order.
  | none => (b, .ok [])
  | some order =>
    if order.positionId ∈ b.closedInReconciliation then (b, .ok [])
    else if repeated b event order then (b, .ok [])
    else
      let done := handle env ops b event order
      match done.2 with
      -- Marked only once handled, so an event whose handling raised can be applied again.
      | .error failure => (done.1, .error failure)
      | .ok records => (markApplied event order done.1, .ok records)

/-- `deal_applied`. -/
def dealApplied (b : Book) (dealId : ℤ) : Bool := dealId ∈ b.appliedDeals

/-! ## Trailing moves -/

/-- What `trailing_stop_moved` does to the position's own state. -/
def trail (stopLoss : ℚ) (ts : ℤ) (p : Position) : Position :=
  { p with levels := { p.levels with stopLoss := some stopLoss }, trailedMs := max p.trailedMs ts }

/-- `trailing_stop_moved`: the broker moved a trailing stop-loss, and the leg follows it. -/
def trailingStopMoved (env : Env) (b : Book) (event : ProtoOATrailingSLChangedEvent) :
    Book × Except Failure (List Record) :=
  match b.positions.get? event.positionId with
  | none => (b, .ok [])
  | some p =>
    let key := SeenKey.trailing event.orderId event.utcLastUpdateTimestamp event.stopPrice
    match env.pricePrecision p.symbolId with
    | none => (b, .ok [])
    | some precision =>
      if holdsKey b key then (b, .ok [])
      -- A retired id is never current.
      else if some event.orderId ≠ p.protectiveOrderId then (b, .ok [])
      else
        let ts := event.utcLastUpdateTimestamp
        let marked := { b with seen := insert key b.seen }
        -- Made before a protective order state already applied, which states a newer stop-loss.
        if ts < p.protectiveMs then (marked, .ok [])
        else
          match priceOf event.stopPrice precision with
          | .error failure => (b, .error failure)
          | .ok stopLoss =>
            let moved := trail stopLoss ts p
            let changed :=
              if p.ours then levelChanges p.levels false ts moved
              else ForeignLegs.levelChanges env.heldClosed p.levels ts moved
            ({ marked with positions := marked.positions.set event.positionId changed.1 },
              .ok changed.2)

/-! ## Operations of the execution client -/

/-- Run `change` on the position held under `positionId`, if there is one. -/
def onPosition (b : Book) (positionId : ℤ) (change : Position → Position × List Record) :
    Book × List Record :=
  match b.positions.get? positionId with
  | none => (b, [])
  | some p =>
    let changed := change p
    ({ b with positions := b.positions.set positionId changed.1 }, changed.2)

/-- `entry_found`, on the position. -/
def foundEntry (heldClosed : Finset String) (orders : List ProtoOAOrder) (p : Position) :
    Position × List Record :=
  match p.entryOrderId, entryOf orders with
  | none, some entry =>
    let adopted := adopt p entry false ∅
    if adopted.1.ours then adopted
    else
      let changed :=
        ForeignLegs.levelChanges heldClosed {} entry.utcLastUpdateTimestamp adopted.1
      (changed.1, adopted.2 ++ changed.2)
  | _, _ => (p, [])

/-- `entry_found`: the order list of a position whose entry the model did not know. -/
def entryFound (env : Env) (b : Book) (positionId : ℤ) (orders : List ProtoOAOrder) :
    Book × List Record :=
  onPosition b positionId (foundEntry env.heldClosed orders)

/-- `cancel_leg`, on the position. -/
def canceledLeg (level : Level) (ts : ℤ) (p : Position) : Position × List Record :=
  match p.legs.get? level with
  | none => (p, [])
  | some leg =>
    if !leg.alive || (p.levels.get? level).isSome then (p, [])
    else
      ({ p with legs := p.legs.set level { leg with alive := false } },
        [legEvent .canceled p level leg ts])

/-- `cancel_leg`: the node cancels a live leg whose level the broker does not hold. -/
def cancelLeg (b : Book) (positionId : ℤ) (level : Level) (ts : ℤ) : Book × List Record :=
  onPosition b positionId (canceledLeg level ts)

/-- `reject_legs`, on the position. -/
def rejectedLegs (reason : String) (ts : ℤ) (p : Position) : Position × List Record :=
  p.overLegs fun level leg =>
    if leg.alive && !leg.accepted then
      ({ leg with alive := false },
        [.orderEvent {
          kind := .rejected, venueOrderId := legId p level, clientOrderId := some leg.clientOrderId
          tsMs := ts, reason := some reason }])
    else (leg, [])

/-- `reject_legs`: the broker refused the levels of the live legs it never accepted. -/
def rejectLegs (b : Book) (positionId : ℤ) (reason : String) (ts : ℤ) : Book × List Record :=
  onPosition b positionId (rejectedLegs reason ts)

/-- `match_close`: take a broker order for the node's close, as a query found it. -/
def matchClose (b : Book) (orderId positionId : ℤ) (closeId : String) : Book :=
  if b.closes.contains orderId || closeId ∈ b.closes.values then b
  else
    { b with
      closes := b.closes.set orderId closeId
      closePositions := b.closePositions.set orderId positionId
      -- Listed by the broker, so accepted: a late acceptance adds nothing.
      closesAccepted := insert orderId b.closesAccepted }

/-- `end_keep`. -/
def endKeep (b : Book) (positionId : ℤ) : Book :=
  { b with kept := b.kept.erase positionId, unconfirmed := b.unconfirmed.erase positionId }

/-- `closed_in_reconciliation`: no event of these positions is applied from now on. -/
def closedInReconciliation (b : Book) (positionIds : Finset ℤ) : Book :=
  { b with closedInReconciliation := positionIds }

end VenueBook

end NautilusCtrader
