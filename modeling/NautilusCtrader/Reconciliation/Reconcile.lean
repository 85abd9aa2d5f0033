import NautilusCtrader.Reconciliation.Position

/-!
# The whole pass

`reconcile` takes the positions in the order of their ids, then the snapshot's orders that no position
reported, and sorts what they report. A closing order of either part may claim a close in flight, and
a claimed close is not given again.
-/

namespace NautilusCtrader

open Common VenueBook OrderRecord

/-- What `reconcile` reports; `orders` is chronological. -/
structure Reconciliation where
  orders : List ReportedOrder
  positions : List ReportedPosition
  notices : List Notice
deriving DecidableEq

namespace Reconciliation

/-- What `reconcile` is given. -/
structure Inputs where
  snapshot : ProtoOAReconcileRes
  histories : Dict ℤ PositionHistory := Dict.empty
  windowDeals : List ProtoOADeal := []
  precision : ℤ → Option ℕ
  closes : Closes := {}
  held : HeldOrders := {}
  moneyDigits : Option ℕ := none

namespace Inputs

variable (inputs : Inputs)

/-- The snapshot's positions by id. -/
def openPositions : Dict ℤ ProtoOAPosition :=
  inputs.snapshot.position.foldl (fun found position => found.set position.positionId position)
    Dict.empty

/-- The snapshot's protective orders by position. -/
def liveProtective : Dict ℤ ProtoOAOrder :=
  (inputs.snapshot.order.filter fun order => order.orderType = .stopLossTakeProfit).foldl
    (fun found order => found.set order.positionId order) Dict.empty

/-- The symbol of every position taken: as the snapshot states it, else a deal in the window, else the
position's own lists. -/
def symbols : Dict ℤ ℤ :=
  let listed := inputs.snapshot.position.foldl
    (fun found position => found.set position.positionId position.tradeData.symbolId) Dict.empty
  let traded := inputs.windowDeals.foldl
    (fun found deal => found.setDefault deal.positionId deal.symbolId) listed
  inputs.histories.entries.foldl (fun found history =>
    match symbolOf history.2 with
    | none => found
    | some symbolId => found.setDefault history.1 symbolId) traded

/-- The trade ids of the window's deals. -/
def inWindow : Finset String :=
  (inputs.windowDeals.map fun deal => toString deal.dealId).toFinset

/-- The closes matched before, which no other order claims. -/
def claimedBefore : Finset String := inputs.closes.known.values.toFinset

end Inputs

/-- What one position comes to: its reports with their places, its position report, and what is said
of it. -/
structure Outcome where
  keyed : List (SortKey × ReportedOrder) := []
  positions : List ReportedPosition := []
  notices : List Notice := []

/-- A position's reports with their places: none sorts before its entry. -/
def keyedReports : List ReportedOrder → List (SortKey × ReportedOrder)
  | [] => []
  | entry :: rest =>
    let entryMs := (ofLex (sortKey entry)).1
    (sortKey entry entryMs true, entry) :: rest.map fun report => (sortKey report entryMs, report)

/-- The reports of a position whose entry filled; `venue` states it if it stands open. -/
def takenOutcome (inputs : Inputs) (claimed : Finset String) (t : Taken) (found : PositionHistory)
    (venue : Option ProtoOAPosition) : Except Failure (Outcome × Finset String) := do
  let made ← t.reports venue (inputs.liveProtective.get? t.positionId) inputs.closes inputs.inWindow
    inputs.held claimed
  let volume := openVolume found
  let units := if found.complete && 0 < volume then some (volumeToUnits volume.toNat) else none
  let positions ← match venue with
    | none => pure []
    | some position => (positionReport position t.precision units).map ([·])
  return ({ keyed := keyedReports made.1, positions, notices := made.2.1 }, made.2.2)

/-- One position of `reconcile`'s first loop, on a loaded symbol and with its entry listed. -/
def entryOutcome (inputs : Inputs) (claimed : Finset String) (positionId : ℤ) (digits : ℕ)
    (found : PositionHistory) (entry : ProtoOAOrder) : Except Failure (Outcome × Finset String) := do
  let venue := inputs.openPositions.get? positionId
  let t ← take positionId entry found digits inputs.moneyDigits
  if t.entryFills.isEmpty then
    -- Created and never filled: nothing to tell Nautilus, unless the broker holds it open.
    match venue with
    | none => return ({}, claimed)
    | some position =>
      let report ← positionReport position digits
      return ({ positions := [report], notices := [.noEntryFill positionId] }, claimed)
  else
    let stillOpen : Bool := 0 < openVolume found
    if venue.isSome && !stillOpen && found.complete then
      -- Closed after the snapshot was taken.
      takenOutcome inputs claimed t found none
    else if venue.isNone && stillOpen then
      return ({ notices := [.notInSnapshot positionId] }, claimed)
    else takenOutcome inputs claimed t found venue

/-- One position of `reconcile`'s first loop. -/
def positionOutcome (inputs : Inputs) (claimed : Finset String) (positionId : ℤ) :
    Except Failure (Outcome × Finset String) :=
  match (inputs.symbols.get? positionId).bind inputs.precision with
  | none => .ok ({}, claimed)
  | some digits =>
    match inputs.histories.get? positionId with
    | none => .ok ({ notices := [.noHistory positionId] }, claimed)
    | some found =>
      match entryOf found.orders with
      | none => .ok ({ notices := [.noEntryListed positionId] }, claimed)
      | some entry => entryOutcome inputs claimed positionId digits found entry

/-- One order of `reconcile`'s last loop: reported as it stands, unless a position `reported` it. -/
def listedOrder (inputs : Inputs) (reported : List String) (claimed : Finset String)
    (order : ProtoOAOrder) : Except Failure (List (SortKey × ReportedOrder) × Finset String) :=
  if order.orderType = .stopLossTakeProfit || toString order.orderId ∈ reported then .ok ([], claimed)
  else
    match inputs.precision order.tradeData.symbolId with
    | none => .ok ([], claimed)
    | some digits => do
      let named :=
        if order.closingOrder then closeId inputs.closes claimed order true
        else (parseLabel order.tradeData.label, claimed)
      let report ← unfilledOrder order digits named.1
      return ([(sortKey report, report)], named.2)

/-- `reconcile`. -/
def reconcile (inputs : Inputs) : Except Failure Reconciliation := do
  let taken ← accumulate (positionOutcome inputs) inputs.claimedBefore
    (sortOn id inputs.symbols.keys)
  let keyed := taken.1.flatMap Outcome.keyed
  let reported := keyed.map fun item => item.2.venueOrderId
  let listed ← accumulate (listedOrder inputs reported) taken.2 inputs.snapshot.order
  return {
    orders := (sortOn Prod.fst (keyed ++ listed.1.flatten)).map Prod.snd
    positions := taken.1.flatMap Outcome.positions
    notices := taken.1.flatMap Outcome.notices }

/-- `one_position`: `reconcile` of one position alone, from its own lists. -/
def onePosition (inputs : Inputs) (positionId : ℤ) (found : PositionHistory) :
    Except Failure Reconciliation :=
  reconcile { inputs with
    snapshot := {
      position := inputs.snapshot.position.filter fun position => position.positionId = positionId
      order := inputs.snapshot.order.filter fun order => order.positionId = positionId }
    histories := Dict.empty.set positionId found
    windowDeals := found.deals }

end Reconciliation

end NautilusCtrader
