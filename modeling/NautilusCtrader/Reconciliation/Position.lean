import NautilusCtrader.Reconciliation.Records

/-!
# One position's reports

`Taken` is one taken position with its own lists read and sorted. Its reports are its entry, the
orders that raised it, its closing orders, its legs, and the protective orders' deals no leg takes.
Whatever states the position in the snapshot stands as `venue`, and its protective order there as
`live`.
-/

namespace NautilusCtrader

open Common VenueBook OrderRecord

namespace Reconciliation

/-- A `_Position`. -/
structure Taken where
  positionId : ℤ
  entry : ProtoOAOrder
  precision : ℕ
  side : Side
  /-- The position's deals in the order they happened. -/
  deals : List ProtoOADeal
  /-- Each of these deals with its fill. -/
  dealFills : List (ProtoOADeal × Fill)
  /-- The opening orders besides the entry that have a deal, earliest created first. -/
  raises : List ProtoOAOrder
  orders : List ProtoOAOrder
  protective : List ProtoOAOrder

/-- `fills.get(order_id, [])`: the fills of an order's deals. -/
def fillsOf (dealFills : List (ProtoOADeal × Fill)) (orderId : ℤ) : List Fill :=
  (dealFills.filter fun dealFill => dealFill.1.orderId = orderId).map Prod.snd

/-- Deals in the order they happened. -/
def sortDeals (deals : List ProtoOADeal) : List ProtoOADeal :=
  sortOn (fun deal => toLex (deal.executionTimestamp, deal.dealId)) deals

/-- `_Position.__init__`. -/
def take (positionId : ℤ) (entry : ProtoOAOrder) (found : PositionHistory) (precision : ℕ)
    (moneyDigits : Option ℕ) : Except Failure Taken := do
  let deals := sortDeals found.deals
  let dealFills ← deals.mapM fun deal => (fillOf deal precision moneyDigits).map (deal, ·)
  let orders := sortOn ProtoOAOrder.orderId found.orders
  return {
    positionId, entry, precision
    side := sideOf entry.tradeData.tradeSide
    deals, dealFills
    raises := (openingOrders found.orders).filter fun order =>
      order.orderId ≠ entry.orderId && !(fillsOf dealFills order.orderId).isEmpty
    orders
    protective := orders.filter fun order => order.orderType = .stopLossTakeProfit }

namespace Taken

variable (t : Taken)

/-- The fills of one of the position's orders. -/
def fills (orderId : ℤ) : List Fill := fillsOf t.dealFills orderId

def entryFills : List Fill := t.fills t.entry.orderId

/-- The time of the entry's first fill; a taken position's entry has one. -/
def firstFillMs : ℤ := (t.entryFills.head?.map Fill.tsMs).getD 0

/-- The time of the position's last deal. -/
def lastDealMs : ℤ := (t.deals.getLast?.map ProtoOADeal.executionTimestamp).getD 0

/-! ## The entry, the raises and the closes -/

/-- The legs the entry's record names, with what is said where it cannot be read. -/
def legIds : ByLevel String × List Notice :=
  match parseLabel t.entry.tradeData.label with
  | none => ({}, [])
  | some _ =>
    match parseComment t.entry.tradeData.comment with
    | none => ({}, [.legsUnreadable t.positionId])
    | some ids => (⟨ids.stopLoss, ids.takeProfit⟩, [])

/-- The entry's report, linked to its legs. -/
def entryReport : Except Failure ReportedOrder := do
  let report ← orderReport t.entry t.precision t.entryFills (parseLabel t.entry.tradeData.label) false
    (externalType t.entry.orderType)
  let legs := t.legIds.1
  return if legs.isEmpty then report
    else { report with linkedOrderIds := legs.values, contingency := some .oto }

/-- The report of an order that raised the position. -/
def raiseReport (order : ProtoOAOrder) : Except Failure ReportedOrder :=
  orderReport order t.precision (t.fills order.orderId) none false (externalType order.orderType)

/-- The closing orders with a deal, newest first: a close in flight whose answer was lost is the
latest of its volume. -/
def closingOrders : List ProtoOAOrder :=
  sortOn (fun order =>
      toLex (OrderDual.toDual order.utcLastUpdateTimestamp, OrderDual.toDual order.orderId))
    (t.orders.filter fun order => order.closingOrder && order.orderType ≠ .stopLossTakeProfit &&
      !(t.fills order.orderId).isEmpty)

/-- Whether a closing order has a deal in the window: only a recent close can be the answer to a close
still in flight. -/
def recent (inWindow : Finset String) (order : ProtoOAOrder) : Bool :=
  (t.fills order.orderId).any fun fill => fill.tradeId ∈ inWindow

/-- One closing order's report. -/
def closeReport (closes : Closes) (inWindow claimed : Finset String) (order : ProtoOAOrder) :
    Except Failure (ReportedOrder × Finset String) := do
  let close := closeId closes claimed order (t.recent inWindow order)
  let report ← orderReport order t.precision (t.fills order.orderId) close.1 true .market
  return (report, close.2)

/-- `_closes`. -/
def closeReports (closes : Closes) (inWindow claimed : Finset String) :
    Except Failure (List ReportedOrder × Finset String) :=
  accumulate (t.closeReport closes inWindow) claimed t.closingOrders

/-! ## The protective orders' deals -/

/-- The level a protective order's fill triggered, if it holds any level, and what is said of it. -/
def attributed (levels : Levels) (fill : Fill) : Option Level × List Notice :=
  if levels.isEmpty then (none, [])
  else
    let found := whichLevel t.side levels fill.price
    (some found.1, found.2)

/-- The level of `withLegs` that takes a fill. -/
def takenBy (withLegs : Level → Bool) (levels : Levels) (fill : Fill) : Option Level :=
  (t.attributed levels fill).1.filter withLegs

/-- The type of a protective order's deals that no leg takes: of the last one with a level. -/
def untakenType (levels : Levels) (untaken : List Fill) : ExternalType :=
  match (untaken.filterMap fun fill => (t.attributed levels fill).1).getLast? with
  | none => .market
  | some .stopLoss => .stopMarket
  | some .takeProfit => .limit

/-- What the protective orders' deals come to: the fills each leg takes, reports for the rest, and
what is said of them. -/
structure Triggers where
  legFills : Level → List Fill := fun _ => []
  external : List ReportedOrder := []
  notices : List Notice := []

/-- The two parts of a loop's result together. -/
def Triggers.add (first second : Triggers) : Triggers where
  legFills level := first.legFills level ++ second.legFills level
  external := first.external ++ second.external
  notices := first.notices ++ second.notices

/-- `_triggers`, for one protective order. -/
def triggersOf (withLegs : Level → Bool) (order : ProtoOAOrder) : Except Failure Triggers := do
  let fills := t.fills order.orderId
  if fills.isEmpty then return {}
  let levels ← levelsOf order t.precision
  let untaken := fills.filter fun fill => (t.takenBy withLegs levels fill).isNone
  let external ← if untaken.isEmpty then pure []
    else (orderReport order t.precision untaken none true (t.untakenType levels untaken)).map ([·])
  return {
    legFills level := fills.filter fun fill => t.takenBy withLegs levels fill = some level
    external
    notices := fills.flatMap fun fill => (t.attributed levels fill).2 }

/-- `_triggers`. -/
def triggers (withLegs : Level → Bool) : Except Failure Triggers := do
  let found ← t.protective.mapM (t.triggersOf withLegs)
  return found.foldl Triggers.add {}

/-! ## Legs -/

/-- `_fill_orders`: the orders of the deals `fills` are. -/
def fillOrders (fills : List Fill) : List ℤ :=
  (t.deals.filter fun deal => toString deal.dealId ∈ fills.map Fill.tradeId).map ProtoOADeal.orderId

/-- `_closing_source`: the protective order that filled for a level, else the last one listed. -/
def closingSource (fills : List Fill) : Option ProtoOAOrder :=
  (t.protective.find? fun order => order.orderId ∈ t.fillOrders fills).or
    (latest ProtoOAOrder.utcLastUpdateTimestamp t.protective)

/-- `_levels_source`: the protective order a leg's level comes from, and the levels a leg reads. -/
def levelsSource (fills : List Fill) (venue : Option ProtoOAPosition) (live : Option ProtoOAOrder) :
    Except Failure (Option ProtoOAOrder × Levels) :=
  match venue with
  | some position => (positionLevels position t.precision).map (live, ·)
  | none =>
    match t.closingSource fills with
    | none => .ok (none, {})
    | some source => (levelsOf source t.precision).map (some source, ·)

/-- What a leg of an open position covers besides its fills, and when that was last stated. -/
def standingRest (position : ProtoOAPosition) : Option ProtoOAOrder → ℕ × ℤ
  | some order => (remainingOf order, order.utcLastUpdateTimestamp)
  | none => (position.tradeData.volume, position.utcLastUpdateTimestamp)

/-- What a leg of a closed position covered: the protective order's volume, else all that opened the
position. -/
def closedUnits : Option ProtoOAOrder → ℚ
  | some source => volumeToUnits source.tradeData.volume
  | none => filledUnits (t.entryFills ++ t.raises.flatMap fun order => t.fills order.orderId)

/-- A leg's status, units and last change. -/
def legState (level : Level) (fills : List Fill) (venue : Option ProtoOAPosition)
    (live : Option ProtoOAOrder) (found : Option ProtoOAOrder × Levels) : ReportStatus × ℚ × ℤ :=
  let filled := filledUnits fills
  match venue with
  | some position =>
    let rest := standingRest position live
    let units := filled + volumeToUnits rest.1
    if (found.2.get? level).isSome then
      (if fills.isEmpty then .accepted else .partiallyFilled, units, rest.2)
    else (.canceled, units, position.utcLastUpdateTimestamp)
  | none =>
    let legUnits := t.closedUnits found.1
    let units := max legUnits filled
    match fills.getLast? with
    | some last =>
      if legUnits ≤ filled then (.filled, units, last.tsMs) else (.canceled, units, t.lastDealMs)
    | none => (.canceled, units, t.lastDealMs)

/-- `_leg`: a leg as the broker's lists leave it; `legId` is the node's, `none` for a foreign one. -/
def leg (level : Level) (legId entryId : Option String) (linked : List String) (fills : List Fill)
    (venue : Option ProtoOAPosition) (live : Option ProtoOAOrder) (venueOrderId : String)
    (found : Option ProtoOAOrder × Levels) : Except Failure ReportedOrder := do
  let state := t.legState level fills venue live found
  -- A leg is accepted once its level is set, never before the entry filled.
  let accepted := match found.1.bind (·.tradeData.openTimestamp?) with
    | some opened => max opened t.firstFillMs
    | none => t.firstFillMs
  let prices := legPrices level (found.2.get? level)
  let average ← averagePrice fills t.precision
  return {
    venueOrderId
    clientOrderId := legId
    symbolId := t.entry.tradeData.symbolId
    side := t.side.opposite
    orderType := match level with
      | .stopLoss => .stopMarket
      | .takeProfit => .limit
    status := state.1
    units := state.2.1
    filledUnits := filledUnits fills
    reduceOnly := true
    venuePositionId := some (toString t.positionId)
    tsAcceptedMs := accepted
    tsMs := max state.2.2 accepted
    avgPrice := average
    price := prices.1
    triggerPrice := prices.2
    timeInForce := some "GOOD_TILL_CANCEL"
    parentOrderId := entryId
    linkedOrderIds := linked
    contingency := if legId.isNone then none else some .ouo
    fills }

/-- One leg of the node's position. -/
def nodeLeg (legs : ByLevel String) (legFills : Level → List Fill) (venue : Option ProtoOAPosition)
    (live : Option ProtoOAOrder) (named : Level × String) : Except Failure ReportedOrder := do
  let linked := (legs.items.filter fun other => other.1 ≠ named.1).map Prod.snd
  let fills := legFills named.1
  let found ← t.levelsSource fills venue live
  t.leg named.1 (some named.2) (parseLabel t.entry.tradeData.label) linked fills venue live
    (legVenueOrderId t.entry.orderId named.1) found

/-! ## Foreign legs -/

/-- The loop of `_generation` from `generation` on, `taken` the fills held under earlier ones. It asks
no more often than there are closed orders. -/
def generationFrom (level : Level) (fills : List Fill) (held : HeldOrders) (stands : Bool) :
    ℕ → ℕ+ → Finset String → String × ℕ+ × List Fill
  | fuel, generation, taken =>
    let venueOrderId := legVenueOrderId t.entry.orderId level generation
    let heldTrades := (fills.map Fill.tradeId).toFinset ∩ held.tradeIds venueOrderId
    let answer := (venueOrderId, generation, fills.filter fun fill => fill.tradeId ∉ taken)
    if venueOrderId ∉ held.closed ∨ heldTrades ≠ ∅ ∧ stands = false then answer
    else
      match fuel with
      | 0 => answer
      | fuel + 1 => generationFrom level fills held stands fuel (generation + firstGeneration)
          (taken ∪ heldTrades)

/-- `_generation`: a foreign leg's venue order id, its generation, and the fills it takes of `fills`.
A level that stands takes the lowest generation Nautilus does not hold closed, an ended one also one
that holds one of `fills`. -/
def generation (level : Level) (fills : List Fill) (held : HeldOrders) (stands : Bool) :
    String × ℕ+ × List Fill :=
  t.generationFrom level fills held stands held.closed.card firstGeneration ∅

/-- One level of a foreign position, as a leg if it stands or filled; `standing` is what an open
position's levels are read from. -/
def foreignLevel (legFills : Level → List Fill) (venue : Option ProtoOAPosition)
    (live : Option ProtoOAOrder) (held : HeldOrders)
    (standing : Option (Option ProtoOAOrder × Levels)) (level : Level) :
    Except Failure (List ReportedOrder) := do
  let fills := legFills level
  let found ← match standing with
    | some found => pure found
    | none => t.levelsSource fills venue live
  if (found.2.get? level).isNone && fills.isEmpty then return []
  let stands := venue.isSome && (found.2.get? level).isSome
  let chosen := t.generation level fills held stands
  let report ← t.leg level none none [] chosen.2.2 venue live chosen.1 found
  let endedUnfilled := report.status = .canceled && chosen.2.2.isEmpty
  return if endedUnfilled && firstGeneration < chosen.2.1 && chosen.1 ∉ held.openLegs t.entry.orderId then []
    else [report]

/-- A leg Nautilus holds open that the lists no longer have. Any level the broker lists now is another
leg's: the price is the one held. -/
def goneLeg (venue : Option ProtoOAPosition) (live : Option ProtoOAOrder) (reported : List String)
    (venueOrderId : String) : Except Failure (List ReportedOrder) :=
  match parseLegVenueOrderId venueOrderId with
  | none => .ok []
  | some (_, level, _) =>
    if venueOrderId ∈ reported then .ok []
    else do
      let found ← t.levelsSource [] venue live
      let gone ← t.leg level none none [] [] venue live venueOrderId found
      let ts := (venue.map ProtoOAPosition.utcLastUpdateTimestamp).getD t.lastDealMs
      return [{ gone with
        status := .canceled, tsMs := max ts gone.tsAcceptedMs, price := none, triggerPrice := none }]

/-- `_foreign_legs`: a foreign position's levels as its legs. -/
def foreignLegs (legFills : Level → List Fill) (venue : Option ProtoOAPosition)
    (live : Option ProtoOAOrder) (held : HeldOrders) : Except Failure (List ReportedOrder) := do
  -- An open position's levels are its own, whatever filled.
  let standing ← match venue with
    | none => pure none
    | some _ => (t.levelsSource [] venue live).map some
  let levels ← Level.all.mapM (t.foreignLevel legFills venue live held standing)
  let reports := levels.flatten
  let gone ← (sortOn id (held.openLegs t.entry.orderId)).mapM
    (t.goneLeg venue live (reports.map ReportedOrder.venueOrderId))
  return reports ++ gone.flatten

/-! ## All reports -/

/-- The levels whose fills are a leg's: a foreign position's every level, else those the entry's
record names. -/
def withLegs (level : Level) : Bool :=
  (parseLabel t.entry.tradeData.label).isNone || (t.legIds.1.get? level).isSome

/-- `_Position.reports`: the entry's report first, then the rest; with the notices, and the closes
claimed from then on. -/
def reports (venue : Option ProtoOAPosition) (live : Option ProtoOAOrder) (closes : Closes)
    (inWindow : Finset String) (held : HeldOrders) (claimed : Finset String) :
    Except Failure (List ReportedOrder × List Notice × Finset String) := do
  let entry ← t.entryReport
  let raised ← t.raises.mapM t.raiseReport
  let closing ← t.closeReports closes inWindow claimed
  let found ← t.triggers t.withLegs
  let foreign ← if (parseLabel t.entry.tradeData.label).isNone then
      t.foreignLegs found.legFills venue live held
    else pure []
  let legs ← t.legIds.1.items.mapM (t.nodeLeg t.legIds.1 found.legFills venue live)
  return (entry :: raised ++ closing.1 ++ foreign ++ legs ++ found.external,
    t.legIds.2 ++ found.notices, closing.2)

/-- What a position's reports are put together from. -/
theorem reports_eq_ok {t : Taken} {venue : Option ProtoOAPosition} {live : Option ProtoOAOrder}
    {closes : Closes} {inWindow : Finset String} {held : HeldOrders} {claimed : Finset String}
    {made : List ReportedOrder × List Notice × Finset String} :
    t.reports venue live closes inWindow held claimed = .ok made ↔
      ∃ entry raised closing found foreign legs, t.entryReport = .ok entry ∧
        t.raises.mapM t.raiseReport = .ok raised ∧
        t.closeReports closes inWindow claimed = .ok closing ∧ t.triggers t.withLegs = .ok found ∧
        (if (parseLabel t.entry.tradeData.label).isNone then
          t.foreignLegs found.legFills venue live held else .ok []) = .ok foreign ∧
        t.legIds.1.items.mapM (t.nodeLeg t.legIds.1 found.legFills venue live) = .ok legs ∧
        made = (entry :: raised ++ closing.1 ++ foreign ++ legs ++ found.external,
          t.legIds.2 ++ found.notices, closing.2) := by
  unfold reports
  dsimp only
  constructor
  · intro h
    obtain ⟨entry, hentry, h⟩ := bind_eq_ok.mp h
    obtain ⟨raised, hraised, h⟩ := bind_eq_ok.mp h
    obtain ⟨closing, hclosing, h⟩ := bind_eq_ok.mp h
    obtain ⟨found, hfound, h⟩ := bind_eq_ok.mp h
    by_cases hlabel : (parseLabel t.entry.tradeData.label).isNone = true
    · rw [if_pos hlabel] at h
      obtain ⟨foreign, hforeign, h⟩ := bind_eq_ok.mp h
      obtain ⟨legs, hlegs, h⟩ := bind_eq_ok.mp h
      refine ⟨entry, raised, closing, found, foreign, legs, hentry, hraised, hclosing, hfound, ?_,
        hlegs, (Except.ok.inj h).symm⟩
      rwa [if_pos hlabel]
    · rw [if_neg hlabel] at h
      obtain ⟨foreign, hforeign, h⟩ := bind_eq_ok.mp h
      obtain ⟨legs, hlegs, h⟩ := bind_eq_ok.mp h
      refine ⟨entry, raised, closing, found, foreign, legs, hentry, hraised, hclosing, hfound, ?_,
        hlegs, (Except.ok.inj h).symm⟩
      rwa [if_neg hlabel]
  · rintro ⟨entry, raised, closing, found, foreign, legs, hentry, hraised, hclosing, hfound, hforeign,
      hlegs, rfl⟩
    refine bind_eq_ok.mpr ⟨entry, hentry, bind_eq_ok.mpr ⟨raised, hraised, bind_eq_ok.mpr
      ⟨closing, hclosing, bind_eq_ok.mpr ⟨found, hfound, ?_⟩⟩⟩⟩
    by_cases hlabel : (parseLabel t.entry.tradeData.label).isNone = true
    · rw [if_pos hlabel] at hforeign ⊢
      exact bind_eq_ok.mpr ⟨foreign, hforeign, bind_eq_ok.mpr ⟨legs, hlegs, rfl⟩⟩
    · rw [if_neg hlabel] at hforeign ⊢
      exact bind_eq_ok.mpr ⟨foreign, hforeign, bind_eq_ok.mpr ⟨legs, hlegs, rfl⟩⟩

end Taken

end Reconciliation

end NautilusCtrader
