import Mathlib.Data.PNat.Basic
import Mathlib.Data.Finset.Basic
import NautilusCtrader.Common.Decimal
import NautilusCtrader.Messages

/-!
# What the venue model hands the execution client, and the conversions it relies on

Prices, volumes and money are decimals, ids are the broker's or the node's own, times are
milliseconds. A function that raises in the source returns an `Except` here.
-/

namespace NautilusCtrader

open Common

/-- What the modelled functions raise: the two `ValueError`s of `price_of`, the `InvalidOperation`
of an average that does not fit, and whatever asking for the account's money digits raises before
they are known. -/
inductive Failure
  | priceNotFinite
  | priceDoesNotFit (value : ℚ) (precision : ℕ)
  | averageDoesNotFit
  | moneyDigitsUnknown
deriving DecidableEq, Repr

inductive Side
  | buy | sell
deriving DecidableEq, Repr, Inhabited

/-- A `ProtoOATradeSide` as a side. -/
def sideOf : ProtoOATradeSide → Side
  | .buy => .buy
  | .sell => .sell

/-- `_OPPOSITE` of a side. -/
def Side.opposite : Side → Side
  | .buy => .sell
  | .sell => .buy

/-- Volume in cents-of-a-unit to a plain unit amount. -/
def volumeToUnits (volumeCents : ℕ) : ℚ := volumeCents / 100

inductive Level
  | stopLoss | takeProfit
deriving DecidableEq, Repr

/-- `_LEVELS`: the levels in the order every loop takes them. -/
def Level.all : List Level := [.stopLoss, .takeProfit]

/-- `Level.value`, as a leg's venue order id spells it. -/
def Level.value : Level → String
  | .stopLoss => "SL"
  | .takeProfit => "TP"

/-- A dictionary by level whose order no code depends on, or which is always filled stop-loss
first. -/
structure ByLevel (α : Type) where
  stopLoss : Option α := none
  takeProfit : Option α := none
deriving DecidableEq, Repr

namespace ByLevel

variable {α β : Type}

def get? (d : ByLevel α) : Level → Option α
  | .stopLoss => d.stopLoss
  | .takeProfit => d.takeProfit

def set (d : ByLevel α) (level : Level) (a : α) : ByLevel α :=
  match level with
  | .stopLoss => { d with stopLoss := some a }
  | .takeProfit => { d with takeProfit := some a }

/-- What `f` gives each level. -/
def ofFn (f : Level → Option α) : ByLevel α := ⟨f .stopLoss, f .takeProfit⟩

@[simp] theorem get?_ofFn (f : Level → Option α) (level : Level) : (ofFn f).get? level = f level := by
  cases level <;> rfl

/-- The values with their levels, stop-loss first. -/
def items (d : ByLevel α) : List (Level × α) :=
  Level.all.filterMap fun level => (d.get? level).map (level, ·)

def values (d : ByLevel α) : List α := d.items.map Prod.snd

def isEmpty (d : ByLevel α) : Bool := d.stopLoss.isNone && d.takeProfit.isNone

@[simp] theorem get?_stopLoss (d : ByLevel α) : d.get? .stopLoss = d.stopLoss := rfl

@[simp] theorem get?_takeProfit (d : ByLevel α) : d.get? .takeProfit = d.takeProfit := rfl

/-- What is held by level is known by its levels. -/
@[ext] theorem ext_get? {d e : ByLevel α} (h : ∀ level, d.get? level = e.get? level) : d = e := by
  obtain ⟨s, t⟩ := d
  obtain ⟨s', t'⟩ := e
  have hs : s = s' := h .stopLoss
  have ht : t = t' := h .takeProfit
  rw [hs, ht]

/-- Setting a level changes that level alone. -/
theorem get?_set (d : ByLevel α) (level : Level) (a : α) (x : Level) :
    (d.set level a).get? x = if level = x then some a else d.get? x := by
  cases level <;> cases x <;> rfl

/-- The items are the levels with what they hold. -/
theorem mem_items {d : ByLevel α} {level : Level} {a : α} :
    (level, a) ∈ d.items ↔ d.get? level = some a := by
  cases level <;> cases hs : d.stopLoss <;> cases ht : d.takeProfit <;>
    simp [items, Level.all, get?, hs, ht, eq_comm]

/-- The values are what some level holds. -/
theorem mem_values {d : ByLevel α} {a : α} : a ∈ d.values ↔ ∃ level, d.get? level = some a := by
  simp [values, mem_items]

end ByLevel

/-- A position's or a protective order's prices by level. -/
abbrev Levels := ByLevel ℚ

/-- How a position's levels work besides their prices, as its last known state says. -/
structure LevelTerms where
  trailingStopLoss : Bool
  guaranteedStopLoss : Bool
  stopLossTriggerMethod : ProtoOAOrderTriggerMethod
deriving DecidableEq, Repr

/-- The generation of a level's first leg. -/
def firstGeneration : ℕ+ := 1

/-- A leg's venue order id: `<entry>-SL`, then `<entry>-SL-2`, `<entry>-SL-3`, ... -/
def legVenueOrderId (entryOrderId : ℤ) (level : Level) (generation : ℕ+ := firstGeneration) :
    String :=
  toString entryOrderId ++ "-" ++ level.value ++
    (if generation = firstGeneration then "" else "-" ++ toString (generation : ℕ))

/-- The text as a decimal number written as the id pattern wants it: no sign, no leading zero. -/
def plainNumber (text : List Char) : Option ℕ :=
  if text ≠ [] ∧ text.all Char.isDigit ∧ text.head? ≠ some '0' then
    some (Nat.ofDigitChars 10 text 0)
  else none

/-- The level a leg's venue order id spells. -/
def levelOf (text : List Char) : Option Level :=
  if text = Level.stopLoss.value.toList then some .stopLoss
  else if text = Level.takeProfit.value.toList then some .takeProfit
  else none

/-- The entry order id, level and generation of a leg's venue order id; `none` for any other. -/
def parseLegVenueOrderId (text : String) : Option (ℤ × Level × ℕ+) :=
  match text.toList.splitOn '-' with
  | [entry, level] =>
    match plainNumber entry, levelOf level with
    | some n, some l => some (n, l, 1)
    | _, _ => none
  | [entry, level, generation] =>
    match plainNumber entry, levelOf level, plainNumber generation with
    | some n, some l, some g => if h : 2 ≤ g then some (n, l, ⟨g, by omega⟩) else none
    | _, _, _ => none
  | _ => none

/-- A leg's `price` and `trigger_price` at the level `price`. -/
def legPrices (level : Level) (price : Option ℚ) : Option ℚ × Option ℚ :=
  match level with
  | .stopLoss => (none, price)
  | .takeProfit => (price, none)

/-- A price the venue sent as a double, at `precision` decimals, half-even. -/
def priceOf (value : Double) (precision : ℕ) : Except Failure ℚ :=
  match value with
  | .finite q =>
    match quantize q precision with
    | some price => .ok price
    | none => .error (.priceDoesNotFit q precision)
  | _ => .error .priceNotFinite

/-- The price of an optional field, if it is set. -/
def priceOf? (value : Option Double) (precision : ℕ) : Except Failure (Option ℚ) :=
  match value with
  | none => .ok none
  | some v => (priceOf v precision).map some

/-- The stop-loss and take-profit of two optional fields, the stop-loss read first. -/
def levelsAt (stop target : Option Double) (precision : ℕ) : Except Failure Levels :=
  match priceOf? stop precision with
  | .error failure => .error failure
  | .ok stopLoss =>
    match priceOf? target precision with
    | .error failure => .error failure
    | .ok takeProfit => .ok ⟨stopLoss, takeProfit⟩

/-- The stop-loss and take-profit levels `position` carries, at `precision` decimals. -/
def positionLevels (position : ProtoOAPosition) (precision : ℕ) : Except Failure Levels :=
  levelsAt position.stopLoss? position.takeProfit? precision

/-- A venue money amount, scaled by its own message's `moneyDigits`. -/
def moneyOf (amount : ℤ) (moneyDigits : ℕ) : ℚ := amount / 10 ^ moneyDigits

/-- An amount a message carries, at its `moneyDigits`, else at the account's. -/
def moneyIn (amount : ℤ) (own account : Option ℕ) : Except Failure ℚ :=
  match own, account with
  | some digits, _ => .ok (moneyOf amount digits)
  | none, some digits => .ok (moneyOf amount digits)
  | none, none => .error .moneyDigitsUnknown

inductive OrderEventKind
  | accepted | filled | updated | canceled | rejected | expired
deriving DecidableEq, Repr

/-- One deal. -/
structure Fill where
  tradeId : String
  venuePositionId : String
  side : Side
  units : ℚ
  price : ℚ
  commission : ℚ
  tsMs : ℤ
deriving DecidableEq, Repr

/-- `deal` as a `Fill`, its price at `precision`. -/
def fillOf (deal : ProtoOADeal) (precision : ℕ) (accountMoneyDigits : Option ℕ) :
    Except Failure Fill :=
  match priceOf deal.executionPrice precision with
  | .error failure => .error failure
  | .ok price =>
    match moneyIn deal.commission deal.moneyDigits? accountMoneyDigits with
    | .error failure => .error failure
    | .ok commission =>
      .ok {
        tradeId := toString deal.dealId
        venuePositionId := toString deal.positionId
        side := sideOf deal.tradeSide
        units := volumeToUnits deal.filledVolume
        price
        commission
        tsMs := deal.executionTimestamp }

/-- What the fills' units add up to. -/
def filledUnits (fills : List Fill) : ℚ := (fills.map Fill.units).sum

/-- The volume-weighted price of `fills`, half-even at `precision`; `none` without units. -/
def averagePrice (fills : List Fill) (precision : ℕ) : Except Failure (Option ℚ) :=
  let units := filledUnits fills
  if units = 0 then .ok none
  else
    let total := fills.foldl (fun sum fill => inContext (sum + inContext (fill.price * fill.units))) 0
    match quantize (inContext (total / units)) precision with
    | some price => .ok (some price)
    | none => .error .averageDoesNotFit

/-- An event of an order Nautilus already knows. -/
structure OrderEvent where
  kind : OrderEventKind
  venueOrderId : Option String
  clientOrderId : Option String
  tsMs : ℤ
  fill : Option Fill := none
  quantity : Option ℚ := none
  price : Option ℚ := none
  triggerPrice : Option ℚ := none
  reason : Option String := none
deriving DecidableEq, Repr

inductive ExternalType
  | market | limit | stopMarket | stopLimit
deriving DecidableEq, Repr

/-- An order Nautilus does not know yet, as it stood before any fill; `fills` follow it. -/
structure ExternalOrder where
  venueOrderId : String
  symbolId : ℤ
  side : Side
  orderType : ExternalType
  units : ℚ
  reduceOnly : Bool
  venuePositionId : Option String
  tsMs : ℤ
  price : Option ℚ := none
  triggerPrice : Option ℚ := none
  fills : List Fill := []
  timeInForce : Option String := none
  expireTsMs : Option ℤ := none
  tsAcceptedMs : Option ℤ := none
deriving DecidableEq, Repr

inductive ActivityKind
  | unloadedSymbol | manualChange | stopOut
deriving DecidableEq, Repr

inductive Action
  | opened | changed | closed | partiallyClosed | levelMoved | levelRemoved | levelAdded
deriving DecidableEq, Repr

/-- What an activity or an exposure is about. -/
inductive Subject
  | order | position
deriving DecidableEq, Repr

/-- Account activity the node did not start. -/
structure Activity where
  kind : ActivityKind
  symbolId : ℤ
  subject : Subject
  side : Side
  units : ℚ
  action : Action
  tsMs : ℤ
deriving DecidableEq, Repr

/-- An open position or pending order on a symbol the node has not loaded. -/
structure Exposure where
  symbolId : ℤ
  subject : Subject
  side : Side
  units : ℚ
deriving DecidableEq, Repr

/-- The notices, each the constructor of one text with what the text names. -/
inductive Notice
  /-- "a protective order with inverted levels (stop-loss …, take-profit …) filled at …; read as
  the …" -/
  | invertedLevels (stop target fillPrice : ℚ) (level : Level)
  /-- "position … is the node's own, but its legs' record cannot be read; its levels stay at the
  broker without legs" -/
  | legsUnreadable (positionId : ℤ)
  /-- "entry … filled after it ended" -/
  | entryFilledAfterEnd (orderId : ℤ)
  /-- "protective order … filled after it was replaced or cancelled; the fill is reported all the
  same" -/
  | retiredProtectiveFilled (orderId : ℤ)
  /-- "a protective order filled at … with no level known; read as a market close" -/
  | noLevelKnown (fillPrice : ℚ)
  /-- "the broker closed … of position … on its own, for a reason the event does not name" -/
  | unnamedClose (units : ℚ) (positionId : ℤ)
  /-- "position … has no order and deal lists; it is not reported" -/
  | noHistory (positionId : ℤ)
  /-- "position … lists no entry order; it is not reported" -/
  | noEntryListed (positionId : ℤ)
  /-- "open position … lists no entry fill; only the position is reported" -/
  | noEntryFill (positionId : ℤ)
  /-- "position … is open by its own deals but not in the snapshot; it is not reported, and its
  execution events carry it" -/
  | notInSnapshot (positionId : ℤ)
deriving DecidableEq, Repr

/-- What the model tells about one event. -/
inductive Record
  | orderEvent (event : OrderEvent)
  | externalOrder (order : ExternalOrder)
  | activity (activity : Activity)
  | awaitProtection (positionId : ℤ)
  | protectionMissing (positionId : ℤ) (stopLossId takeProfitId : Option String)
  | notice (notice : Notice)
  | entryUnknown (positionId : ℤ)
deriving DecidableEq, Repr

/-- The fills a record reports: an order event's fill or an external order's fills. -/
def Record.fills : Record → List Fill
  | .orderEvent event => event.fill.toList
  | .externalOrder order => order.fills
  | _ => []

/-- The fills a list of records reports. -/
def fillsOf (records : List Record) : List Fill := records.flatMap Record.fills

@[simp] theorem fillsOf_nil : fillsOf [] = [] := rfl

@[simp] theorem fillsOf_cons (r : Record) (rs : List Record) :
    fillsOf (r :: rs) = r.fills ++ fillsOf rs := rfl

@[simp] theorem fillsOf_append (rs rs' : List Record) :
    fillsOf (rs ++ rs') = fillsOf rs ++ fillsOf rs' := List.flatMap_append

example : legVenueOrderId 6000001 .stopLoss = "6000001-SL" := by decide +kernel

example : parseLegVenueOrderId "6000001-TP-2" = some (6000001, .takeProfit, 2) := by decide +kernel

end NautilusCtrader
