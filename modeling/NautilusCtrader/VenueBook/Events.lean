import NautilusCtrader.VenueBook.Handlers

/-!
# The kinds of execution event

The four routes an event on a loaded symbol takes (opening, protective, closing, and the entry's own
events), and the one of an unloaded symbol.
-/

namespace NautilusCtrader

open Common OrderRecord

namespace VenueBook

/-! ## The node's legs follow the levels -/

/-- One level of `_level_changes`. -/
def levelChange (oldLevels : Levels) (manual : Bool) (ts : ℤ) (p : Position) (level : Level) :
    Position × List Record :=
  let old := oldLevels.get? level
  let new := p.levels.get? level
  let live := (p.legs.get? level).filter Leg.alive
  let said (action : Action) : List Record :=
    if manual then [activity .manualChange p action ts] else []
  match live.filter (fun leg => !leg.accepted), new with
  | some leg, some price =>
    let leg := { leg with accepted := true, quantity := leg.filled + p.protectiveVolume }
    ({ p with legs := p.legs.set level leg },
      legEvent .accepted p level leg ts (some (volumeToUnits leg.quantity)) (some price) ::
        said (if old.isNone then .levelAdded else .levelMoved))
  | _, _ =>
    if old = new then (p, [])
    else
      match new with
      | none =>
        match live with
        | some leg =>
          ({ p with legs := p.legs.set level { leg with alive := false } },
            legEvent .canceled p level leg ts :: said .levelRemoved)
        | none => (p, said .levelRemoved)
      | some price =>
        -- A level re-added after its leg was cancelled is not the node's.
        if old.isNone then (p, said .levelAdded)
        else
          match live with
          | some leg =>
            let leg := { leg with quantity := leg.filled + p.protectiveVolume }
            ({ p with legs := p.legs.set level leg },
              legEvent .updated p level leg ts (some (volumeToUnits leg.quantity)) (some price) ::
                said .levelMoved)
          | none => (p, said .levelMoved)

/-- The loop of `_level_changes` that makes each live leg follow the protective order's volume. -/
def resizeLegs (ts : ℤ) (p : Position) : Position × List Record :=
  p.overLegs fun level leg =>
    let quantity := leg.filled + p.protectiveVolume
    if leg.alive && leg.accepted && leg.quantity ≠ quantity then
      let leg := { leg with quantity }
      (leg, [legEvent .updated p level leg ts (some (volumeToUnits quantity))])
    else (leg, [])

/-- `_level_changes`. -/
def levelChanges (oldLevels : Levels) (manual : Bool) (ts : ℤ) (p : Position) :
    Position × List Record :=
  let changed := p.overLevels (levelChange oldLevels manual ts)
  let sized := resizeLegs ts changed.1
  (sized.1, changed.2 ++ sized.2)

/-- The end of a handler's fill, if `asked`: what is left of a position the deal has closed. -/
def endIfClosed (event : ProtoOAExecutionEvent) (asked : Bool) (f : Focus) : Handled :=
  if asked && !f.position.isOpen then
    let closed := closedBy event.deal f.position
    { f with position := closed.1 }.tell closed.2
  else f.tell []

/-! ## The entry's events -/

/-- Whether some leg lives without having been accepted. -/
def waits (p : Position) : Bool := p.legs.values.any fun leg => leg.alive && !leg.accepted

/-- The part of the entry's fill that follows a protective order which came first: its levels accept
the legs now, at the deal's time so that they never predate the fill. -/
def followProtection (fill : Fill) (p : Position) : Position × List Record :=
  if p.protectiveOrderId.isSome then levelChanges {} false fill.tsMs p else (p, [])

/-- The wait for the protective order, told once. -/
def awaitLevels (p : Position) : Position × List Record :=
  if waits p && !p.awaitingProtection then
    ({ p with awaitingProtection := true }, [.awaitProtection p.positionId])
  else (p, [])

/-- The fill of the entry, with its acceptance if that is still to tell. -/
def entryFilled (order : ProtoOAOrder) (fill : Fill) (p : Position) : Position × List Record :=
  -- The acceptance can be applied after the fill, or never come: it is told here.
  let accepted : List Record :=
    if p.entryAccepted then [] else [orderNews .accepted order p.entryClientOrderId]
  let followed := followProtection fill { p with entryAccepted := true }
  let awaited := awaitLevels followed.1
  (awaited.1, accepted ++ orderFilled order p.entryClientOrderId fill :: followed.2 ++ awaited.2)

/-- The legs of an entry that ended. A remainder cancelled after a fill leaves the position, and its
legs, standing. -/
def endEntryLegs (ended : OrderEventKind) (order : ProtoOAOrder) (p : Position) :
    Position × List Record :=
  if ended = .rejected || p.volume = 0 then cancelLegs order.utcLastUpdateTimestamp p else (p, [])

/-- A never-opened entry that ended is dropped with its position. -/
def dropEntry (order : ProtoOAOrder) (f : Focus) : Focus :=
  let b := { f.book with endedEntries := insert order.orderId f.book.endedEntries }
  match f.stored with
  | some positionId => { f with book := { b with positions := b.positions.erase positionId }, stored := none }
  | none => { f with book := b }

/-- `_entry_event`. -/
def entryEvent (env : Env) (event : ProtoOAExecutionEvent) (order : ProtoOAOrder) (precision : ℕ)
    (f : Focus) : Handled :=
  let p := f.position
  if event.executionType = .orderAccepted then
    -- A repeat past the dedupe key, or a late one after the fill, says nothing new.
    if p.entryAccepted then f.tell []
    else
      { f with position := { p with entryAccepted := true } }.tell
        [orderNews .accepted order p.entryClientOrderId]
  else if isFill event.executionType then
    match fillOf event.deal precision env.moneyDigits with
    | .error failure => f.raise failure
    | .ok fill =>
      let done := entryFilled order fill p
      { f with position := done.1 }.tell done.2
  else
    match endedEventKind event.executionType with
    | none => f.tell []
    | some ended =>
      let cancelled := endEntryLegs ended order p
      let f := { f with position := cancelled.1 }
      let f := if p.volume = 0 && !p.isOpen then dropEntry order f else f
      f.tell (orderNews ended order p.entryClientOrderId (reasonOf event) :: cancelled.2)

/-! ## Opening orders -/

/-- `_raises`: whether the event's opening order was created after its position opened. -/
def raises (p : Position) (event : ProtoOAExecutionEvent) (order : ProtoOAOrder) : Bool :=
  -- The node never raises a position.
  if (parseLabel order.tradeData.label).isSome then false
  else
    match openedOf order, (event.position?.bind openedMs).or p.openedMs with
    | some created, some opened => opened < created
    | _, _ => false

/-- Whether an opening order's event makes it the entry of the position `p`. An order that raises a
position is never its entry, even when the entry is not known. -/
def takesEntry (event : ProtoOAExecutionEvent) (order : ProtoOAOrder) (p : Position) : Bool :=
  p.entryOrderId.isNone && !raises p event order

/-- The legs of an entry that filled after it ended are not live again. -/
def endLegs (p : Position) : Position :=
  let done (leg : Option Leg) : Option Leg := leg.map fun leg => { leg with alive := false }
  { p with
    entryAccepted := true
    legs := { stopLoss := done p.legs.stopLoss, takeProfit := done p.legs.takeProfit } }

/-- The position once an opening order is taken as its entry, if it is `learnt`. Nautilus holds an
entry that `ended` and its legs ended: a fill is legal after that, the legs are not live again. -/
def learn (order : ProtoOAOrder) (learnt ended : Bool) (p : Position) : Position × List Record :=
  let adopted := if learnt then adopt p order false ∅ else (p, [])
  (if ended then endLegs adopted.1 else adopted.1,
    adopted.2 ++ if ended then [.notice (.entryFilledAfterEnd order.orderId)] else [])

/-- The time of the entry's first fill, if the model sees it. -/
def stampFill (event : ProtoOAExecutionEvent) (order : ProtoOAOrder) (wasOpen : Bool)
    (p : Position) : Position :=
  if isFill event.executionType && !wasOpen && p.entryOrderId = some order.orderId then
    { p with entryFilledMs := some event.deal.executionTimestamp }
  else p

/-- An opening order's fill that took volume away: a close the event does not name. A triggered
pending order is a server event too. -/
def unnamedReduction (event : ProtoOAExecutionEvent) (order : ProtoOAOrder) (before p : Position) :
    List Record :=
  let reduced := before.isOpen && (!p.isOpen || p.volume < before.volume)
  if isFill event.executionType && event.isServerEvent && !order.isStopOut && reduced then
    [unnamedClose p event.deal]
  else []

/-- The part of `_opening` before the event's own records: the entry learnt, the state synced. -/
def opened (event : ProtoOAExecutionEvent) (order : ProtoOAOrder) (learnt : Bool) (f : Focus) :
    Handled :=
  let learned := learn order learnt (order.orderId ∈ f.book.endedEntries) f.position
  let f := sync event order { f with position := learned.1 }
  let f := { f with position := stampFill event order learned.1.isOpen f.position }
  f.tell (learned.2 ++ unnamedReduction event order learned.1 f.position)

/-- What an opening order that is not the node's entry means. -/
def openedExternal (env : Env) (event : ProtoOAExecutionEvent) (order : ProtoOAOrder)
    (precision : ℕ) (learnt : Bool) (f : Focus) : Handled :=
  (externalEvent env event order precision false f).andThen fun f =>
    let p := f.position
    -- A trader raised the node's position.
    let raised : List Record :=
      if isFill event.executionType && p.ours && !event.isServerEvent && !order.isStopOut then
        [activity .manualChange p .opened event.deal.executionTimestamp
          (some (volumeToUnits event.deal.filledVolume))]
      else []
    -- Levels seen before their entry get their legs now, after the entry's report.
    let changed :=
      if learnt && !p.levels.isEmpty then
        ForeignLegs.levelChanges env.heldClosed {} order.utcLastUpdateTimestamp p
      else (p, [])
    { f with position := changed.1 }.tell (raised ++ changed.2)

/-- Whether the position has legs of either kind, live or not. -/
def hasLegs (p : Position) : Bool := !p.legs.isEmpty || p.foreignLegs.entries ≠ []

/-- What `_opening` says about a stop-out. -/
def stopOutActivity (event : ProtoOAExecutionEvent) (order : ProtoOAOrder) (p : Position) :
    List Record :=
  if isFill event.executionType && order.isStopOut then
    [activity .stopOut p (if p.isOpen then .partiallyClosed else .closed)
      event.deal.executionTimestamp (some (volumeToUnits event.deal.filledVolume))]
  else []

/-- The part of `_opening` after the event's own records: a stop-out, and a position it closed. -/
def openedTail (event : ProtoOAExecutionEvent) (order : ProtoOAOrder) (f : Focus) : Handled :=
  (f.tell (stopOutActivity event order f.position)).andThen fun f =>
    endIfClosed event (isFill event.executionType && hasLegs f.position) f

/-- The event's own records in `_opening`: the node's entry's, or an external order's. -/
def openingRecords (env : Env) (event : ProtoOAExecutionEvent) (order : ProtoOAOrder)
    (precision : ℕ) (learnt : Bool) (f : Focus) : Handled :=
  if f.position.ours && f.position.entryOrderId = some order.orderId then
    entryEvent env event order precision f
  else openedExternal env event order precision learnt f

/-- `_opening`, on the event's position. -/
def openingOn (env : Env) (event : ProtoOAExecutionEvent) (order : ProtoOAOrder) (precision : ℕ)
    (f : Focus) : Handled :=
  let learnt := takesEntry event order f.position
  ((opened event order learnt f).andThen (openingRecords env event order precision learnt)).andThen
    (openedTail event order)

/-! ## Protective orders -/

/-- The level a protective order's fill triggered, with what is said about it. -/
def triggeredLevel (p : Position) (levels : Levels) (fillPrice : ℚ) :
    Option Level × List Record :=
  if levels.isEmpty then (none, [.notice (.noLevelKnown fillPrice)])
  else
    let found := whichLevel p.side levels fillPrice
    (some found.1, found.2.map .notice)

/-- The type a protective order's fill has as an external order. -/
def triggerType : Option Level → ExternalType
  | none => .market
  | some .stopLoss => .stopMarket
  | some .takeProfit => .limit

/-- The order a protective order's fill belongs to: the live leg of its level, else an external
order under the protective order's own id. -/
def takeTrigger (order : ProtoOAOrder) (deal : ProtoOADeal) (fill : Fill) (level : Option Level)
    (levels : Levels) (f : Focus) : Handled :=
  let p := f.position
  let leg := level.bind fun level =>
    ((p.legs.get? level).filter fun leg => p.ours && leg.alive).map (level, ·)
  let foreign := level.bind fun level =>
    ((p.foreignLegs.get? level).filter fun leg => !p.ours && leg.alive).map (level, ·)
  match leg, foreign with
  | some (level, leg), _ =>
    let done := leg.filled + deal.filledVolume
    -- A leg left with a remainder lives while the position does.
    let leg := { leg with filled := done, alive := done < leg.quantity }
    { f with position := { p with legs := p.legs.set level leg } }.tell
      [legEvent .filled p level leg fill.tsMs none none (some fill)]
  | none, some (level, leg) =>
    let done := ForeignLegs.filled leg deal.filledVolume fill
    { f with position := { p with foreignLegs := p.foreignLegs.set level done.1 } }.tell done.2
  | none, none =>
    if order.orderId ∈ f.book.reported then f.tell [orderFilled order none fill]
    else
      { f with book := { f.book with reported := insert order.orderId f.book.reported } }.tell
        [.externalOrder (externalReport order true [fill] (triggerType level) levels)]

/-- `_triggered`. -/
def triggered (env : Env) (event : ProtoOAExecutionEvent) (order : ProtoOAOrder) (precision : ℕ)
    (f : Focus) : Handled :=
  match fillOf event.deal precision env.moneyDigits with
  | .error failure => f.raise failure
  | .ok fill =>
    match levelsOf order precision with
    | .error failure => f.raise failure
    | .ok stated =>
      let levels := if stated.isEmpty then f.position.levels else stated
      let level := triggeredLevel f.position levels fill.price
      let f := sync event order f
      let p := f.position
      let p := { p with protectiveVolume := p.protectiveVolume - event.deal.filledVolume }
      (({ f with position := p }.tell level.2).andThen
        (takeTrigger order event.deal fill level.1 levels)).andThen (endIfClosed event true)

/-- Whether a protective order's state is stamped before the last trailing move. -/
def overtaken (order : ProtoOAOrder) (p : Position) : Bool :=
  match order.utcLastUpdateTimestamp? with
  | none => false
  | some ts => ts < p.trailedMs

/-- The levels a protective order's new state leaves. A trailing move can overtake the answer to an
amend made before it, whose older stop-loss must not undo the move. -/
def levelsAfter (order : ProtoOAOrder) (stated : Levels) (p : Position) : Levels :=
  if p.protectiveOrderId = some order.orderId && overtaken order p && p.levels.stopLoss.isSome &&
      stated.stopLoss.isSome then
    { stated with stopLoss := p.levels.stopLoss }
  else stated

/-- What a protective order's new state changes before its prices are read. -/
def takeProtective (order : ProtoOAOrder) (p : Position) : Position :=
  { p with
    retiredProtectiveIds := match p.protectiveOrderId with
      | some current =>
        if current ≠ order.orderId then insert current p.retiredProtectiveIds
        else p.retiredProtectiveIds
      | none => p.retiredProtectiveIds
    protectiveOrderId := some order.orderId
    protectiveVolume := remainingOf order
    protectiveOpenedMs := openedOf order }

/-- The position under a protective order's new state whose prices are `stated`. -/
def setProtective (order : ProtoOAOrder) (stated : Levels) (p : Position) : Position :=
  { takeProtective order p with
    levels := levelsAfter order stated p
    protectiveMs := match order.utcLastUpdateTimestamp? with
      | some ts => max p.protectiveMs ts
      | none => p.protectiveMs
    awaitingProtection := false }

/-- The position once its protective order is cancelled. -/
def cancelProtective (order : ProtoOAOrder) (p : Position) : Position :=
  { p with
    retiredProtectiveIds := insert order.orderId p.retiredProtectiveIds
    protectiveOrderId := none
    levels := {} }

/-- The end of `_protective`: the legs follow the levels now held, `oldLevels` before. -/
def protectiveChanged (env : Env) (ops : Operations) (event : ProtoOAExecutionEvent)
    (order : ProtoOAOrder) (oldLevels : Levels) (f : Focus) : Handled :=
  let f := sync event order f
  let p := f.position
  let ts := order.utcLastUpdateTimestamp
  -- Asked for a foreign position too, so its lost amends are matched or forgotten.
  let late := !event.isServerEvent && ops.lateAmend p.positionId p.levels
  let manual := !event.isServerEvent && !late && !ops.amending p.positionId
  let changed :=
    if p.ours then levelChanges oldLevels manual ts p
    else ForeignLegs.levelChanges env.heldClosed oldLevels ts p
  { f with position := changed.1 }.tell changed.2

/-- `_protective`, on the event's position. -/
def protectiveOn (env : Env) (ops : Operations) (event : ProtoOAExecutionEvent)
    (order : ProtoOAOrder) (precision : ℕ) (f : Focus) : Handled :=
  let kind := event.executionType
  let p := f.position
  let retired : Bool := order.orderId ∈ p.retiredProtectiveIds
  if isFill kind then
    -- A deal is never stale, whatever became of the order's id.
    (f.tell (if retired then [.notice (.retiredProtectiveFilled order.orderId)] else [])).andThen
      (triggered env event order precision)
  else if retired then f.tell []
  else if kind ≠ .orderAccepted && p.protectiveOrderId.isSome &&
      p.protectiveOrderId ≠ some order.orderId then
    -- A late event of a protective order the broker has since replaced with a new one.
    f.tell []
  else if kind = .orderAccepted || kind = .orderReplaced then
    match levelsOf order precision with
    | .error failure => { f with position := takeProtective order p }.raise failure
    | .ok stated =>
      protectiveChanged env ops event order p.levels
        { f with position := setProtective order stated p }
  else if kind = .orderCancelled then
    protectiveChanged env ops event order p.levels { f with position := cancelProtective order p }
  else f.tell []

/-! ## Closing orders -/

/-- The node's close a closing order carries out: one matched before, else one in flight. -/
def matchClosing (ops : Operations) (event : ProtoOAExecutionEvent) (order : ProtoOAOrder)
    (f : Focus) : Focus × Option String :=
  match f.book.closes.get? order.orderId with
  | some closeId => (f, some closeId)
  | none =>
    -- A close the broker made itself is never the node's.
    if !event.isServerEvent && !order.isStopOut && order.orderId ∉ f.book.reported then
      match ops.closing f.position.positionId order.tradeData.volume (createdOf order)
          order.orderId with
      | some candidate =>
        -- One close id names one broker order; a second match is somebody else's close.
        if candidate ∈ f.book.closes.values then (f, none)
        else
          ({ f with book := { f.book with
              closes := f.book.closes.set order.orderId candidate
              closePositions := f.book.closePositions.set order.orderId f.position.positionId } },
            some candidate)
      | none => (f, none)
    else (f, none)

/-- `_node_close`. -/
def nodeClose (env : Env) (event : ProtoOAExecutionEvent) (order : ProtoOAOrder) (closeId : String)
    (precision : ℕ) (f : Focus) : Handled :=
  let accept (f : Focus) : Focus :=
    { f with book := { f.book with closesAccepted := insert order.orderId f.book.closesAccepted } }
  let accepted : List Record :=
    if order.orderId ∈ f.book.closesAccepted then [] else [orderNews .accepted order (some closeId)]
  if event.executionType = .orderAccepted then (accept f).tell accepted
  else if isFill event.executionType then
    match fillOf event.deal precision env.moneyDigits with
    | .error failure => f.raise failure
    -- As for an entry: the acceptance can be applied after the fill.
    | .ok fill => (accept f).tell (accepted ++ [orderFilled order (some closeId) fill])
  else
    match endedEventKind event.executionType with
    | some ended => f.tell [orderNews ended order (some closeId) (reasonOf event)]
    | none => f.tell []

/-- `_close_activity`. -/
def closeActivity (event : ProtoOAExecutionEvent) (order : ProtoOAOrder) (p : Position) :
    List Record :=
  let say (kind : ActivityKind) : Record :=
    activity kind p (if p.isOpen then .partiallyClosed else .closed) event.deal.executionTimestamp
      (some (volumeToUnits event.deal.filledVolume))
  if order.isStopOut then [say .stopOut]
  else if p.ours && !event.isServerEvent then [say .manualChange]
  else []

/-- The event's own records in `_closing`: the node's close, or an external order. -/
def closingRecords (env : Env) (event : ProtoOAExecutionEvent) (order : ProtoOAOrder)
    (precision : ℕ) (closeId : Option String) (f : Focus) : Handled :=
  match closeId with
  | some closeId => nodeClose env event order closeId precision f
  | none =>
    (externalEvent env event order precision true f).andThen fun f =>
      f.tell (if isFill event.executionType then closeActivity event order f.position else [])

/-- `_closing`, on the event's position. -/
def closingOn (env : Env) (ops : Operations) (event : ProtoOAExecutionEvent) (order : ProtoOAOrder)
    (precision : ℕ) (f : Focus) : Handled :=
  let filled := isFill event.executionType
  let found := matchClosing ops event order (sync event order f)
  let unnamed : List Record :=
    if filled && event.isServerEvent && !order.isStopOut then
      [unnamedClose found.1.position event.deal]
    else []
  ((found.1.tell unnamed).andThen (closingRecords env event order precision found.2)).andThen
    (endIfClosed event filled)

/-! ## Unloaded symbols -/

/-- `_pending`. -/
def pending (order : ProtoOAOrder) : Exposure where
  symbolId := order.tradeData.symbolId
  subject := .order
  side := sideOf order.tradeData.tradeSide
  units := volumeToUnits (remainingOf order)

/-- `_track_unloaded`: keep the position and the pending orders `exposure()` reports current. -/
def trackUnloaded (event : ProtoOAExecutionEvent) (order : ProtoOAOrder) (b : Book) : Book :=
  let kind := event.executionType
  let b :=
    if event.position?.isSome || isFill kind then (sync event order (positionFor b event order)).finish
    else b
  if order.orderType = .stopLossTakeProfit then b
  else if kind = .orderAccepted || kind = .orderReplaced then
    { b with unloadedOrders := b.unloadedOrders.set order.orderId (pending order) }
  else
    match kind, b.unloadedOrders.get? order.orderId with
    | .orderPartialFill, some held =>
      let left := held.units - volumeToUnits event.deal.filledVolume
      { b with unloadedOrders :=
          if 0 < left then b.unloadedOrders.set order.orderId { held with units := left }
          else b.unloadedOrders.erase order.orderId }
    | kind, _ =>
      if kind = .orderFilled || (endedEventKind kind).isSome then
        { b with unloadedOrders := b.unloadedOrders.erase order.orderId }
      else b

/-- What `_unloaded` tells: activity, never an order. -/
def unloadedActivity (event : ProtoOAExecutionEvent) (order : ProtoOAOrder) : List Record :=
  let kind := event.executionType
  let data := order.tradeData
  let positionSide := match event.position? with
    | some position => sideOf position.tradeData.tradeSide
    -- A closing order trades against its position.
    | none => sideOf (if order.closingOrder then opposite data.tradeSide else data.tradeSide)
  let say (subject : Subject) (side : Side) (units : ℚ) (action : Action) (tsMs : ℤ) : List Record :=
    [.activity {
      kind := if order.isStopOut then .stopOut else .unloadedSymbol
      symbolId := data.symbolId, subject, side, units, action, tsMs }]
  if isFill kind then
    let openAfter : Bool :=
      (event.position?.map fun p => decide (p.positionStatus = .open)).getD false
    let action :=
      if order.closingOrder then (if openAfter then Action.partiallyClosed else .closed) else .opened
    say .position positionSide (volumeToUnits event.deal.filledVolume) action
      event.deal.executionTimestamp
  else if order.orderType = .stopLossTakeProfit then
    if kind = .orderAccepted || kind = .orderReplaced || kind = .orderCancelled then
      let volume := (event.position?.map fun p => p.tradeData.volume).getD data.volume
      say .position positionSide (volumeToUnits volume) .changed order.utcLastUpdateTimestamp
    else []
  else
    let tell (action : Action) : List Record :=
      say .order (sideOf data.tradeSide) (volumeToUnits data.volume) action
        order.utcLastUpdateTimestamp
    match kind with
    | .orderAccepted => tell .opened
    | .orderReplaced => tell .changed
    | .orderCancelled | .orderExpired => tell .closed
    | _ => []

end VenueBook

end NautilusCtrader
