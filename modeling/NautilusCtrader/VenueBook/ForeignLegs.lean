import Mathlib.Data.Finset.Card
import NautilusCtrader.VenueBook.State

/-!
# The legs of positions the node did not open

Each level of such a position is a reduce-only external order named after the position's entry. A
level set again after its leg ended is a new order, at the next generation of that id. The rules
change only a position's `foreignLegs` and `entryUnknownTold`.
-/

namespace NautilusCtrader

open Common

/-- A loop over `_LEVELS` that changes the position and tells records. -/
def Position.overLevels (f : Position → Level → Position × List Record) (p : Position) :
    Position × List Record :=
  let first := f p .stopLoss
  let second := f first.1 .takeProfit
  (second.1, first.2 ++ second.2)

namespace ForeignLegs

/-- The first generation from `generation` on whose id is not in `heldClosed`, asking at most
`fuel` times. -/
def firstOpenFrom (heldClosed : Finset String) (entryOrderId : ℤ) (level : Level) :
    ℕ → ℕ+ → ℕ+
  | 0, generation => generation
  | fuel + 1, generation =>
    if legVenueOrderId entryOrderId level generation ∈ heldClosed then
      firstOpenFrom heldClosed entryOrderId level fuel (generation + firstGeneration)
    else generation

/-- The loop of `_open` and `_generation`: the first generation from `generation` on that Nautilus
does not hold closed. It asks no more often than there are closed orders. -/
def firstOpen (heldClosed : Finset String) (entryOrderId : ℤ) (level : Level) (generation : ℕ+) :
    ℕ+ :=
  firstOpenFrom heldClosed entryOrderId level heldClosed.card generation

/-- `_rest`: what a foreign leg covers besides its fills. -/
def rest (p : Position) : ℕ :=
  match p.protectiveOrderId with
  | none => p.volume
  | some _ => p.protectiveVolume

/-- `_entry_unknown`. -/
def entryUnknown (p : Position) : Position × List Record :=
  if p.levels.isEmpty || p.entryUnknownTold then (p, [])
  else ({ p with entryUnknownTold := true }, [.entryUnknown p.positionId])

/-- A level of a position the node did not open, as the external order Nautilus learns. -/
def foreignLeg (venueOrderId : String) (level : Level) (symbolId positionId : ℤ)
    (positionSide : Side) (price : ℚ) (volume : ℕ) (tsMs acceptedMs : ℤ) : ExternalOrder :=
  let prices := legPrices level (some price)
  { venueOrderId
    symbolId
    side := positionSide.opposite
    orderType := match level with
      | .stopLoss => .stopMarket
      | .takeProfit => .limit
    units := volumeToUnits volume
    reduceOnly := true
    venuePositionId := some (toString positionId)
    tsMs
    price := prices.1
    triggerPrice := prices.2
    timeInForce := some "GOOD_TILL_CANCEL"
    tsAcceptedMs := some acceptedMs }

/-- `_open`: a new leg for `level`, at the first generation Nautilus does not hold closed. -/
def openLeg (heldClosed : Finset String) (entryOrderId : ℤ) (p : Position) (level : Level) :
    ForeignLeg :=
  let last := p.foreignLegs.get? level
  -- A generation this model ended may not have reached Nautilus's cache yet.
  let start := match last with
    | none => firstGeneration
    | some leg => leg.generation + firstGeneration
  let generation := firstOpen heldClosed entryOrderId level start
  { venueOrderId := legVenueOrderId entryOrderId level generation
    generation
    quantity := rest p }

/-- `_accepted_ms`: when a foreign leg was accepted. -/
def acceptedMs (p : Position) (ts : ℤ) : ℤ :=
  match p.protectiveOpenedMs, p.entryFilledMs with
  | none, none => ts
  | none, some entryFilled => entryFilled
  | some opened, none => opened
  | some opened, some entryFilled => max opened entryFilled

/-- `_new_leg`. -/
def newLeg (heldClosed : Finset String) (entryOrderId : ℤ) (p : Position) (level : Level)
    (price : ℚ) (ts : ℤ) : Position × List Record :=
  let leg := openLeg heldClosed entryOrderId p level
  let accepted := acceptedMs p ts
  ({ p with foreignLegs := p.foreignLegs.set level leg },
    [.externalOrder (foreignLeg leg.venueOrderId level p.symbolId p.positionId p.side price
      leg.quantity (max ts accepted) accepted)])

/-- `_resized`: the leg updated to its quantity, its price unchanged. -/
def resized (leg : ForeignLeg) (ts : ℤ) : Record :=
  .orderEvent {
    kind := .updated, venueOrderId := some leg.venueOrderId, clientOrderId := none, tsMs := ts
    quantity := some (volumeToUnits leg.quantity) }

/-- `_moved`: the leg updated to its quantity, its level at `price`. -/
def moved (leg : ForeignLeg) (level : Level) (price : ℚ) (ts : ℤ) : Record :=
  let prices := legPrices level (some price)
  .orderEvent {
    kind := .updated, venueOrderId := some leg.venueOrderId, clientOrderId := none, tsMs := ts
    quantity := some (volumeToUnits leg.quantity), price := prices.1, triggerPrice := prices.2 }

/-- The end of a foreign leg. -/
def canceled (leg : ForeignLeg) (ts : ℤ) : Record :=
  .orderEvent {
    kind := .canceled, venueOrderId := some leg.venueOrderId, clientOrderId := none, tsMs := ts }

/-- Open a leg for each standing level of a position just loaded, telling Nautilus nothing. -/
def openLegs (heldClosed : Finset String) (p : Position) : Position × List Record :=
  match p.entryOrderId with
  | none => entryUnknown p
  | some entryOrderId =>
    p.overLevels fun p level =>
      let live := ((p.foreignLegs.get? level).map ForeignLeg.alive).getD false
      if (p.levels.get? level).isSome && !live then
        ({ p with foreignLegs :=
            p.foreignLegs.set level (openLeg heldClosed entryOrderId p level) }, [])
      else (p, [])

/-- One level of `level_changes`: a level seen with no live leg opens a new one, a moved level
updates it, a removed one cancels it. -/
def levelChange (heldClosed : Finset String) (entryOrderId : ℤ) (oldLevels : Levels) (ts : ℤ)
    (p : Position) (level : Level) : Position × List Record :=
  match p.levels.get? level, (p.foreignLegs.get? level).filter ForeignLeg.alive with
  | some price, none => newLeg heldClosed entryOrderId p level price ts
  | none, some leg =>
    ({ p with foreignLegs := p.foreignLegs.set level { leg with alive := false } },
      [canceled leg ts])
  | some price, some leg =>
    if some price = oldLevels.get? level then (p, [])
    else
      let leg := { leg with quantity := leg.filled + rest p }
      ({ p with foreignLegs := p.foreignLegs.set level leg }, [moved leg level price ts])
  | none, none => (p, [])

/-- The loop that makes each live leg's quantity follow the protective order's volume. -/
def resizeLegs (ts : ℤ) (p : Position) : Position × List Record :=
  let out := p.foreignLegs.mapAccum fun _ leg =>
    let quantity := leg.filled + rest p
    if leg.alive && leg.quantity ≠ quantity then
      let leg := { leg with quantity }
      (leg, [resized leg ts])
    else (leg, [])
  ({ p with foreignLegs := out.1 }, out.2)

/-- A foreign position's level changes, as its legs: external orders reported once. -/
def levelChanges (heldClosed : Finset String) (oldLevels : Levels) (ts : ℤ) (p : Position) :
    Position × List Record :=
  match p.entryOrderId with
  | none => entryUnknown p
  | some entryOrderId =>
    let changed := p.overLevels (levelChange heldClosed entryOrderId oldLevels ts)
    let sized := resizeLegs ts changed.1
    (sized.1, changed.2 ++ sized.2)

/-- A foreign leg's fill; its quantity is raised to cover it first. -/
def filled (leg : ForeignLeg) (volume : ℕ) (fill : Fill) : ForeignLeg × List Record :=
  let raised := leg.quantity < leg.filled + volume
  let leg := if raised then { leg with quantity := leg.filled + volume } else leg
  let told := if raised then [resized leg fill.tsMs] else []
  let done := leg.filled + volume
  -- A leg left with a remainder lives while the position does.
  ({ leg with filled := done, alive := leg.alive && done < leg.quantity },
    told ++ [.orderEvent {
      kind := .filled, venueOrderId := some leg.venueOrderId, clientOrderId := none
      tsMs := fill.tsMs, fill := some fill }])

/-- End every live leg of a position that closed. -/
def cancelAll (ts : ℤ) (p : Position) : Position × List Record :=
  let out := p.foreignLegs.mapAccum fun _ leg =>
    if leg.alive then ({ leg with alive := false }, [canceled leg ts]) else (leg, [])
  ({ p with foreignLegs := out.1 }, out.2)

end ForeignLegs

end NautilusCtrader
