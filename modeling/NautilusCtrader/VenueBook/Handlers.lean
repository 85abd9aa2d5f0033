import NautilusCtrader.Common.Sorting
import NautilusCtrader.VenueBook.ForeignLegs

/-!
# What one execution event does to the book

A handler works on one position object, which the book may hold in its dictionary. `Focus` is the
book with that object taken out: handlers change both, and `Focus.finish` puts the object back. A
handler that raises keeps what it changed so far and tells nothing, so its result is the focus it
leaves beside an `Except`.
-/

namespace NautilusCtrader

open Common OrderRecord

namespace VenueBook

/-! ## Orders of a position -/

/-- A position's orders that are neither closing nor protective, earliest created first. -/
def openingOrders (orders : List ProtoOAOrder) : List ProtoOAOrder :=
  sortOn (fun order => toLex (createdOf order, order.orderId))
    (orders.filter fun order => !order.closingOrder && order.orderType ≠ .stopLossTakeProfit)

/-- The entry among a position's orders: the earliest with the node's record, else the earliest. -/
def entryOf (orders : List ProtoOAOrder) : Option ProtoOAOrder :=
  let opening := openingOrders orders
  let named := opening.find? fun order => (parseLabel order.tradeData.label).isSome
  named.or opening.head?

end VenueBook

open VenueBook

/-! ## The focus of a handler -/

/-- The book and the position a handler works on. `stored` is the id under which the book holds
that position, if it does. -/
structure Focus where
  book : Book
  position : Position
  stored : Option ℤ

/-- What a handler leaves: the focus, and the records it tells unless it raised. -/
structure Handled where
  focus : Focus
  records : Except Failure (List Record)

namespace Focus

def tell (f : Focus) (records : List Record) : Handled := ⟨f, .ok records⟩

def raise (f : Focus) (failure : Failure) : Handled := ⟨f, .error failure⟩

/-- The book with the position put back where it came from. -/
def finish (f : Focus) : Book :=
  match f.stored with
  | some positionId => { f.book with positions := f.book.positions.set positionId f.position }
  | none => f.book

end Focus

/-- Run `next` on what `h` leaves and add its records, unless `h` raised. -/
def Handled.andThen (h : Handled) (next : Focus → Handled) : Handled :=
  match h.records with
  | .error failure => h.focus.raise failure
  | .ok told =>
    let done := next h.focus
    ⟨done.focus, done.records.map (told ++ ·)⟩

/-- Two handlers tell what the first does and then what the second does. -/
theorem told_andThen {h : Handled} {next : Focus → Handled} {told : List Record}
    (hok : (h.andThen next).records = .ok told) :
    ∃ first later, h.records = .ok first ∧ (next h.focus).records = .ok later ∧
      told = first ++ later := by
  unfold Handled.andThen at hok
  cases hfirst : h.records with
  | error reason =>
    rw [hfirst] at hok
    cases hok
  | ok first =>
    rw [hfirst] at hok
    dsimp only at hok
    cases hlater : (next h.focus).records with
    | error reason =>
      rw [hlater] at hok
      cases hok
    | ok later =>
      rw [hlater] at hok
      exact ⟨first, later, rfl, rfl, (Except.ok.inj hok).symm⟩

/-- A loop over the node's legs that changes each and tells records. -/
def Position.overLegs (f : Level → Leg → Leg × List Record) (p : Position) :
    Position × List Record :=
  p.overLevels fun p level =>
    match p.legs.get? level with
    | none => (p, [])
    | some leg =>
      let out := f level leg
      ({ p with legs := p.legs.set level out.1 }, out.2)

namespace VenueBook

/-! ## Positions -/

/-- The position an event without a known one creates. -/
def newPosition (event : ProtoOAExecutionEvent) (order : ProtoOAOrder) : Position :=
  let data : ℤ × ProtoOATradeSide := match event.position? with
    | some position => (position.tradeData.symbolId, position.tradeData.tradeSide)
    | none =>
      (order.tradeData.symbolId,
        if order.closingOrder then opposite order.tradeData.tradeSide else order.tradeData.tradeSide)
  { positionId := order.positionId, symbolId := data.1, side := sideOf data.2 }

/-- `_position_for`: the event's position, created from the event if the model never saw it. An
order without a `positionId` gets a position of its own that is not kept. -/
def positionFor (b : Book) (event : ProtoOAExecutionEvent) (order : ProtoOAOrder) : Focus :=
  match order.positionId? with
  | none => ⟨b, newPosition event order, none⟩
  | some positionId =>
    match b.positions.get? positionId with
    | some p => ⟨b, p, some positionId⟩
    | none =>
      let p := newPosition event order
      ⟨{ b with positions := b.positions.set positionId p }, p, some positionId⟩

/-- `_sync` with the position an event carries: only one at least as new as the state held. -/
def syncState (p : Position) (state : ProtoOAPosition) : Position :=
  -- `or`: an open time of 0 counts as none.
  let p := { p with openedMs := ((openedMs state).filter (· ≠ 0)).or p.openedMs }
  if state.utcLastUpdateTimestamp < p.updatedMs then p
  else
    { p with
      updatedMs := state.utcLastUpdateTimestamp
      terms := some (termsOf state)
      volume := state.tradeData.volume
      isOpen := state.positionStatus = .open }

/-- `_sync` with the deal of a fill that carries no position. -/
def syncDeal (p : Position) (deal : ProtoOADeal) (closing : Bool) : Position :=
  if !closing then { p with volume := p.volume + deal.filledVolume, isOpen := true }
  else if p.isOpen then
    let volume := p.volume - deal.filledVolume
    { p with volume, isOpen := 0 < volume }
  else p

/-- `_sync`. -/
def sync (event : ProtoOAExecutionEvent) (order : ProtoOAOrder) (f : Focus) : Focus :=
  match event.position? with
  | some state => { f with position := syncState f.position state }
  | none =>
    match event.deal? with
    | none => f
    | some deal =>
      -- An event whose handling raised may come again; its deal must not move the volume twice.
      if !isFill event.executionType || deal.dealId ∈ f.book.syncedDeals then f
      else
        { f with
          book := { f.book with syncedDeals := insert deal.dealId f.book.syncedDeals }
          position := syncDeal f.position deal order.closingOrder }

/-- The leg `_adopt` gives a level. -/
def adoptedLeg (p : Position) (restored : Bool) (waiting : Finset String) (level : Level)
    (clientOrderId : String) : Leg :=
  if !restored then { clientOrderId }
  else if (p.levels.get? level).isSome then
    { clientOrderId, accepted := true, quantity := p.volume }
  -- After a restart a leg lives while its level does, or while it waits for it.
  else { clientOrderId, alive := clientOrderId ∈ waiting }

/-- `_adopt`: take `entry` as the position's; the position is the node's if `entry` has its
record. -/
def adopt (p : Position) (entry : ProtoOAOrder) (restored : Bool) (waiting : Finset String) :
    Position × List Record :=
  let p := { p with entryOrderId := some entry.orderId }
  match parseLabel entry.tradeData.label with
  | none => (p, [])
  | some entryId =>
    let p := { p with entryClientOrderId := some entryId, entryAccepted := restored }
    match parseComment entry.tradeData.comment with
    | none => (p, [.notice (.legsUnreadable p.positionId)])
    | some ids =>
      let leg := adoptedLeg p restored waiting
      let set (level : Level) : Option String → ByLevel Leg → ByLevel Leg
        | none, legs => legs
        | some clientOrderId, legs => legs.set level (leg level clientOrderId)
      ({ p with legs := set .takeProfit ids.takeProfit (set .stopLoss ids.stopLoss p.legs) }, [])

/-! ## Records -/

/-- `_leg_id`. -/
def legId (p : Position) (level : Level) : Option String :=
  p.entryOrderId.map fun entryOrderId => legVenueOrderId entryOrderId level

/-- `_leg_event`. -/
def legEvent (kind : OrderEventKind) (p : Position) (level : Level) (leg : Leg) (tsMs : ℤ)
    (quantity : Option ℚ := none) (price : Option ℚ := none) (fill : Option Fill := none) : Record :=
  let prices := legPrices level price
  .orderEvent {
    kind, venueOrderId := legId p level, clientOrderId := some leg.clientOrderId, tsMs, fill
    quantity, price := prices.1, triggerPrice := prices.2 }

/-- `_cancel_legs`. -/
def cancelLegs (ts : ℤ) (p : Position) : Position × List Record :=
  p.overLegs fun level leg =>
    if leg.alive then ({ leg with alive := false }, [legEvent .canceled p level leg ts])
    else (leg, [])

/-- `_closed_by`: what is left of a position a deal has closed. -/
def closedBy (deal : ProtoOADeal) (p : Position) : Position × List Record :=
  let ts := deal.executionTimestamp
  let node := cancelLegs ts { p with protectiveOrderId := none, levels := {} }
  let foreign := ForeignLegs.cancelAll ts node.1
  (foreign.1, node.2 ++ foreign.2)

/-- `_activity`, about a position. -/
def activity (kind : ActivityKind) (p : Position) (action : Action) (tsMs : ℤ)
    (units : Option ℚ := none) : Record :=
  .activity {
    kind, symbolId := p.symbolId, subject := .position, side := p.side
    units := units.getD (volumeToUnits p.volume), action, tsMs }

/-- `_external_report` with the prices it reads: `levels` of the order, or those given in their
place. -/
def externalReport (order : ProtoOAOrder) (reduceOnly : Bool) (fills : List Fill)
    (kind : ExternalType) (prices : Levels) : ExternalOrder where
  venueOrderId := toString order.orderId
  symbolId := order.tradeData.symbolId
  side := sideOf order.tradeData.tradeSide
  orderType := kind
  units := volumeToUnits order.tradeData.volume
  reduceOnly := reduceOnly
  venuePositionId := order.positionId?.map toString
  tsMs := order.utcLastUpdateTimestamp
  price := if kind = .limit || kind = .stopLimit then prices.takeProfit else none
  triggerPrice := if kind = .stopMarket || kind = .stopLimit then prices.stopLoss else none
  fills := fills
  timeInForce := order.timeInForce?.map ProtoOATimeInForce.name
  expireTsMs := order.expirationTimestamp?
  tsAcceptedMs := order.tradeData.openTimestamp?

/-- `_order_updated`, with the order's own prices. -/
def orderUpdated (order : ProtoOAOrder) (prices : Levels) (tsMs : ℤ) : Record :=
  let report := externalReport order false [] (externalType order.orderType) prices
  .orderEvent {
    kind := .updated, venueOrderId := some (toString order.orderId), clientOrderId := none, tsMs
    quantity := some report.units, price := report.price, triggerPrice := report.triggerPrice }

/-- The event of a broker order Nautilus holds: its fill. -/
def orderFilled (order : ProtoOAOrder) (clientOrderId : Option String) (fill : Fill) : Record :=
  .orderEvent {
    kind := .filled, venueOrderId := some (toString order.orderId), clientOrderId
    tsMs := fill.tsMs, fill := some fill }

/-- The event of a broker order Nautilus holds: its acceptance, or its end without a fill. -/
def orderNews (kind : OrderEventKind) (order : ProtoOAOrder) (clientOrderId : Option String)
    (reason : Option String := none) : Record :=
  .orderEvent {
    kind, venueOrderId := some (toString order.orderId), clientOrderId
    tsMs := order.utcLastUpdateTimestamp, reason }

/-- `event.errorCode or None`. -/
def reasonOf (event : ProtoOAExecutionEvent) : Option String :=
  if event.errorCode = "" then none else some event.errorCode

/-- `_unnamed_close`. -/
def unnamedClose (p : Position) (deal : ProtoOADeal) : Record :=
  .notice (.unnamedClose (volumeToUnits deal.filledVolume) p.positionId)

/-! ## External orders -/

/-- `_keep_open_order`: keep the latest state of a pending order while it is open. The flag says
whether the event's state was taken as the latest. -/
def keepOpenOrder (event : ProtoOAExecutionEvent) (order : ProtoOAOrder) (known : Bool) (b : Book) :
    Book × Bool :=
  let kind := event.executionType
  let take : Book × Bool := ({ b with openOrders := b.openOrders.set order.orderId order }, true)
  if !isPending order.orderType then (b, false)
  else if kind = .orderFilled || (endedEventKind kind).isSome then
    ({ b with openOrders := b.openOrders.erase order.orderId }, false)
  else if (kind = .orderAccepted || kind = .orderPartialFill) && !known then take
  else if kind = .orderReplaced || kind = .orderPartialFill then
    match b.openOrders.get? order.orderId with
    -- An ended order is not held, so a late event never brings it back.
    | none => (b, false)
    | some held =>
      if held.utcLastUpdateTimestamp ≤ order.utcLastUpdateTimestamp then take else (b, false)
  else (b, false)

/-- Report `order` as an external order with its own prices, its id marked first. -/
def reportExternal (order : ProtoOAOrder) (precision : ℕ) (reduceOnly : Bool) (fills : List Fill)
    (f : Focus) : Handled :=
  let f := { f with book := { f.book with reported := insert order.orderId f.book.reported } }
  match levelsOf order precision with
  | .error failure => f.raise failure
  | .ok prices =>
    f.tell [.externalOrder
      (externalReport order reduceOnly fills (externalType order.orderType) prices)]

/-- `_external_event`: an order Nautilus learns of only from reports. -/
def externalEvent (env : Env) (event : ProtoOAExecutionEvent) (order : ProtoOAOrder)
    (precision : ℕ) (reduceOnly : Bool) (f : Focus) : Handled :=
  let kind := event.executionType
  let known : Bool := order.orderId ∈ f.book.reported
  let kept := keepOpenOrder event order known f.book
  let taken := kept.2
  let f := { f with book := kept.1 }
  if kind = .orderAccepted then
    if known then f.tell [] else reportExternal order precision reduceOnly [] f
  else if isFill kind then
    match fillOf event.deal precision env.moneyDigits with
    | .error failure => f.raise failure
    | .ok fill =>
      if known then f.tell [orderFilled order none fill]
      else reportExternal order precision reduceOnly [fill] f
  else if !known then f.tell []
  else if kind = .orderReplaced then
    -- A pending order's state older than the one held, or of an order since ended, would take
    -- Nautilus back.
    if isPending order.orderType && !taken then f.tell []
    else
      match levelsOf order precision with
      | .error failure => f.raise failure
      | .ok prices => f.tell [orderUpdated order prices order.utcLastUpdateTimestamp]
  else
    match endedEventKind kind with
    | some ended => f.tell [orderNews ended order none (reasonOf event)]
    | none => f.tell []

end VenueBook

end NautilusCtrader
