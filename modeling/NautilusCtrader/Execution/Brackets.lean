import NautilusCtrader.Execution.OrderTranslation

/-!
# Brackets as one request

A bracket goes out as one market order that carries its levels as distances from the fill, in 1/100000
of a price, measured from the side of the market the entry fills on. What the venue cannot express is
refused, never rounded: an accepted bracket's request is exactly what was asked for, as long as no
number has more digits than the decimal context holds, which rounds first (`bracketExact_iff`).
-/

namespace NautilusCtrader

open Common

namespace OrderTranslation

/-! ## Orders -/

inductive TriggerType
  | noTrigger
  | default
  | other (name : String)
deriving DecidableEq, Repr

inductive TimeInForce
  | gtc
  | ioc
  | other (name : String)
deriving DecidableEq, Repr

def TriggerType.name : TriggerType → String
  | .noTrigger => "NO_TRIGGER"
  | .default => "DEFAULT"
  | .other name => name

def TimeInForce.name : TimeInForce → String
  | .gtc => "GTC"
  | .ioc => "IOC"
  | .other name => name

/-- A Nautilus order's type, with the prices an order of it has. -/
inductive OrderKind
  | market
  | stopMarket (triggerPrice : ℚ) (triggerType : TriggerType)
  | limit (price : ℚ) (displayQty : Option ℚ)
  | other (name : String)
deriving DecidableEq, Repr

def OrderKind.name : OrderKind → String
  | .market => "MARKET"
  | .stopMarket _ _ => "STOP_MARKET"
  | .limit _ _ => "LIMIT"
  | .other name => name

/-- What the translation reads of an instrument. -/
structure Instrument where
  id : String
  pricePrecision : ℕ
  symbolId : ℤ
deriving DecidableEq, Repr

/-- What the translation reads of a Nautilus order. -/
structure Order where
  clientOrderId : String
  instrumentId : String
  kind : OrderKind
  side : Side
  quantity : ℚ
  timeInForce : TimeInForce := .gtc
  isReduceOnly : Bool := false
  isQuoteQuantity : Bool := false
  emulationTrigger : TriggerType := .noTrigger
  execAlgorithmId : Option String := none
  parentOrderId : Option String := none
deriving DecidableEq, Repr

structure ProtoOANewOrderReq where
  symbolId : ℤ
  orderType : ProtoOAOrderType
  tradeSide : Side
  volume : ℕ
  timeInForce : ProtoOATimeInForce
  clientOrderId : String
  label : String
  comment : String
  relativeStopLoss? : Option ℕ := none
  relativeTakeProfit? : Option ℕ := none
deriving DecidableEq, Repr

/-! ## The translation -/

/-- `raise failure` if `refused`. -/
def refuseIf (refused : Bool) (failure : Unsupported) : Except Unsupported Unit :=
  if refused then .error failure else .ok ()

/-- Raised as `Unsupported` with its own text. -/
def orUnsupported {α : Type} : Except OrderRecord.RecordError α → Except Unsupported α
  | .error error => .error (.record error)
  | .ok value => .ok value

/-- How far a level is from the reference, on the side it has to be on. -/
def gap (reference level : ℚ) (below : Bool) : ℚ := if below then reference - level else level - reference

/-- `relative_level`: the distance from `reference` to `level` in 1/100000 of a price. -/
def relativeLevel (reference level : ℚ) (below : Bool) : Except Unsupported ℕ :=
  if reference ≤ 0 then .error (.referenceNotPositive reference)
  else if (inContext (reference * 100000)).den ≠ 1 then .error (.referenceFiner reference)
  else
    let scaled := inContext (inContext (gap reference level below) * 100000)
    if scaled ≤ 0 then .error (.levelWrongSide level reference)
    else if scaled.den ≠ 1 then .error (.levelFiner level)
    else .ok scaled.num.toNat

/-- `_require_instrument`. -/
def requireInstrument (instrument : Instrument) (order : Order) : Except Unsupported Unit :=
  refuseIf (order.instrumentId ≠ instrument.id) (.otherInstrument order.instrumentId instrument.id)

/-- `_require_expressible`; only a market order may be immediate-or-cancel. -/
def requireExpressible (order : Order) (market : Bool) : Except Unsupported Unit := do
  refuseIf order.isQuoteQuantity .quoteQuantity
  refuseIf (order.emulationTrigger ≠ .noTrigger) .emulated
  refuseIf order.execAlgorithmId.isSome .execAlgorithm
  refuseIf (!(order.timeInForce = .gtc || market && order.timeInForce = .ioc))
    (.timeInForce order.timeInForce.name)

/-- `_require_opening_market_order`. -/
def requireOpeningMarketOrder (instrument : Instrument) (entry : Order) : Except Unsupported Unit := do
  requireInstrument instrument entry
  refuseIf (entry.kind ≠ .market) (.entryType entry.kind.name)
  refuseIf entry.isReduceOnly .entryReduceOnly
  requireExpressible entry true

/-- `_new_order`. -/
def newOrder (instrument : Instrument) (entry : Order) (legs : OrderRecord.LegIds) :
    Except Unsupported ProtoOANewOrderReq := do
  let volume ← volumeFromQuantity entry.quantity
  let clientOrderId ← orUnsupported (OrderRecord.checkClientOrderId entry.clientOrderId)
  let label ← orUnsupported (OrderRecord.encodeLabel entry.clientOrderId)
  let comment ← orUnsupported (OrderRecord.encodeComment legs)
  return {
    symbolId := instrument.symbolId
    orderType := .market
    tradeSide := entry.side
    volume
    timeInForce := .immediateOrCancel
    clientOrderId
    label
    comment }

/-- `_require_protective_leg`. -/
def requireProtectiveLeg (instrument : Instrument) (entry leg : Order) : Except Unsupported Unit := do
  requireInstrument instrument leg
  requireExpressible leg false
  match leg.kind with
  | .stopMarket _ _ | .limit _ _ => .ok ()
  | kind => .error (.legType kind.name)
  refuseIf (leg.side = entry.side) .legSide
  refuseIf (leg.quantity ≠ entry.quantity) .legQuantity
  refuseIf (!leg.isReduceOnly) .legNotReduceOnly
  refuseIf (leg.parentOrderId ≠ some entry.clientOrderId) .legParent

/-- The legs found so far, each with its id and price. -/
structure ProtectiveLegs where
  stopLoss : Option (String × ℚ) := none
  takeProfit : Option (String × ℚ) := none
deriving DecidableEq, Repr

/-- One pass of `bracket`'s loop over the legs. -/
def takeLeg (instrument : Instrument) (entry : Order) (found : ProtectiveLegs) (leg : Order) :
    Except Unsupported ProtectiveLegs := do
  requireProtectiveLeg instrument entry leg
  match leg.kind with
  | .stopMarket triggerPrice triggerType => do
    refuseIf found.stopLoss.isSome .secondStopLoss
    refuseIf (triggerType ≠ .default) (.triggerType triggerType.name)
    return { found with stopLoss := some (leg.clientOrderId, triggerPrice) }
  | .limit price displayQty => do
    refuseIf found.takeProfit.isSome .secondTakeProfit
    refuseIf displayQty.isSome .displayQuantity
    return { found with takeProfit := some (leg.clientOrderId, price) }
  | _ => return found

/-- The distance of a leg that is there, its price being on the instrument's grid. -/
def distance (instrument : Instrument) (reference : ℚ) (below : Bool) :
    Option (String × ℚ) → Except Unsupported (Option ℕ)
  | none => .ok none
  | some (_, price) => do
    requireOnPriceGrid instrument.pricePrecision price
    let distance ← relativeLevel reference price below
    return some distance

/-- A bracket as the one request that opens it, and what must follow once it is filled. -/
structure Bracket where
  request : ProtoOANewOrderReq
  stopLoss : Option (String × ℚ)
  takeProfit : Option (String × ℚ)
  reference : ℚ
deriving DecidableEq, Repr

/-- The side of the market the entry fills on. -/
def referenceOf (entry : Order) (bid ask : ℚ) : ℚ := if entry.side = .buy then ask else bid

/-- `bracket` of an entry and its legs, once there is one or two of them. -/
def bracketOf (instrument : Instrument) (entry : Order) (legs : List Order) (bid ask : ℚ) :
    Except Unsupported Bracket := do
  requireOpeningMarketOrder instrument entry
  let found ← legs.foldlM (takeLeg instrument entry) {}
  let request ← newOrder instrument entry ⟨found.stopLoss.map Prod.fst, found.takeProfit.map Prod.fst⟩
  let reference := referenceOf entry bid ask
  let relativeStopLoss ← distance instrument reference (entry.side = .buy) found.stopLoss
  let relativeTakeProfit ← distance instrument reference (entry.side ≠ .buy) found.takeProfit
  return {
    request := { request with
      relativeStopLoss? := relativeStopLoss
      relativeTakeProfit? := relativeTakeProfit }
    stopLoss := found.stopLoss
    takeProfit := found.takeProfit
    reference }

/-- `bracket`: a market entry and its protective legs as one request. -/
def bracket (instrument : Instrument) (orders : List Order) (bid ask : ℚ) :
    Except Unsupported Bracket :=
  if !(2 ≤ orders.length && orders.length ≤ 3) then .error (.bracketSize orders.length)
  else
    match orders with
    | [] => .error (.bracketSize 0)
    | entry :: legs => bracketOf instrument entry legs bid ask

/-! ## Exact distances -/

/-- A relative distance leads from the reference to `price`, on its right side. -/
def Reaches (reference price : ℚ) (below : Bool) (distance : ℕ) : Prop :=
  if below then price < reference ∧ reference - (distance : ℚ) / 100000 = price
  else reference < price ∧ reference + (distance : ℚ) / 100000 = price

instance (reference price : ℚ) (below : Bool) (distance : ℕ) :
    Decidable (Reaches reference price below distance) :=
  inferInstanceAs (Decidable (if below then _ ∧ _ else _ ∧ _))

/-- The price of a leg's level and whether the level is below the reference. -/
def legPrice (entry leg : Order) : Option (ℚ × Bool) :=
  match leg.kind with
  | .stopMarket price _ => some (price, entry.side = .buy)
  | .limit price _ => some (price, entry.side ≠ .buy)
  | _ => none

/-- The relative distance a request carries for a leg. -/
def legDistance (request : ProtoOANewOrderReq) (leg : Order) : Option ℕ :=
  match leg.kind with
  | .stopMarket _ _ => request.relativeStopLoss?
  | .limit _ _ => request.relativeTakeProfit?
  | _ => none

/-- A request opens just what was asked for: its volume is the quantity, and the distance of each leg
leads to its price. -/
structure Exact (entry : Order) (legs : List Order) (reference : ℚ) (request : ProtoOANewOrderReq) :
    Prop where
  volume : volumeToUnits request.volume = entry.quantity
  levels : ∀ leg ∈ legs, ∀ price below, legPrice entry leg = some (price, below) →
    ∃ distance, legDistance request leg = some distance ∧ Reaches reference price below distance

/-- The quantity, and the difference of each leg's price and the reference, have no more digits than the
decimal context holds. -/
structure WithinContext (entry : Order) (legs : List Order) (reference : ℚ) : Prop where
  quantity : inContext entry.quantity = entry.quantity
  gaps : ∀ leg ∈ legs, ∀ price below, legPrice entry leg = some (price, below) →
    inContext (gap reference price below) = gap reference price below

section Accepted

variable {instrument : Instrument} {entry leg : Order} {legs : List Order} {bid ask : ℚ}

/-- What is not refused does not meet the condition. -/
theorem refuseIf_ok {refused : Bool} {failure : Unsupported} {u : Unit}
    (h : refuseIf refused failure = .ok u) : refused = false := by
  unfold refuseIf at h
  split at h
  · cases h
  · rename_i hnot
    exact Bool.not_eq_true _ ▸ hnot

/-- A distance accepted is the difference at the context's digits, which is positive. -/
theorem relativeLevel_ok {reference level : ℚ} {below : Bool} {distance : ℕ}
    (h : relativeLevel reference level below = .ok distance) :
    (distance : ℚ) = inContext (gap reference level below) * 100000 ∧ 0 < gap reference level below := by
  unfold relativeLevel at h
  split at h
  · cases h
  · split at h
    · cases h
    · dsimp only at h
      split at h
      · cases h
      · rename_i hpos
        split at h
        · cases h
        · rename_i hden
          injection h with h
          rw [not_le] at hpos
          rw [not_not] at hden
          have hshift : inContext (inContext (gap reference level below) * 100000) =
              inContext (gap reference level below) * 100000 := by
            have hmove := inContext_mul_zpow (inContext (gap reference level below)) 5
            rw [inContext_inContext] at hmove
            norm_num at hmove
            exact hmove
          constructor
          · rw [← h, toNat_num hpos.le hden]
            exact hshift
          · have hrounded : 0 < inContext (gap reference level below) * 100000 := by
              rw [← hshift]
              exact hpos
            exact inContext_pos_iff.mp (by linarith)

/-- A distance accepted leads to the price just if their difference is within the context. -/
theorem reaches_iff {reference level : ℚ} {below : Bool} {distance : ℕ}
    (h : relativeLevel reference level below = .ok distance) :
    Reaches reference level below distance ↔
      inContext (gap reference level below) = gap reference level below := by
  obtain ⟨hdistance, hpos⟩ := relativeLevel_ok h
  unfold Reaches gap at *
  rw [hdistance, mul_div_cancel_right₀ _ (by norm_num : (100000 : ℚ) ≠ 0)]
  cases below with
  | true =>
    simp only [if_true] at hpos ⊢
    constructor
    · rintro ⟨-, hreach⟩
      linarith
    · intro hexact
      exact ⟨by linarith, by linarith⟩
  | false =>
    simp only [Bool.false_eq_true, if_false] at hpos ⊢
    constructor
    · rintro ⟨-, hreach⟩
      linarith
    · intro hexact
      exact ⟨by linarith, by linarith⟩

/-- A leg's distance is its price's from the reference. -/
theorem distance_ok {reference price : ℚ} {below : Bool} {id : String} {found : Option ℕ}
    (h : distance instrument reference below (some (id, price)) = .ok found) :
    ∃ value, found = some value ∧ relativeLevel reference price below = .ok value := by
  unfold distance at h
  obtain ⟨_, -, h⟩ := bind_eq_ok.mp h
  obtain ⟨value, hvalue, h⟩ := bind_eq_ok.mp h
  injection h with h
  exact ⟨value, h.symm, hvalue⟩

/-! ## The legs found -/

/-- The price found for a leg's level. -/
def ProtectiveLegs.priceOf (found : ProtectiveLegs) (leg : Order) : Option ℚ :=
  match leg.kind with
  | .stopMarket _ _ => found.stopLoss.map Prod.snd
  | .limit _ _ => found.takeProfit.map Prod.snd
  | _ => none

/-- A leg taken is found with its price, and those found before it stay. -/
theorem takeLeg_ok {found found' : ProtectiveLegs} (h : takeLeg instrument entry found leg = .ok found') :
    (∀ price below, legPrice entry leg = some (price, below) → found'.priceOf leg = some price) ∧
      ∀ other price, found.priceOf other = some price → found'.priceOf other = some price := by
  unfold takeLeg at h
  obtain ⟨_, -, h⟩ := bind_eq_ok.mp h
  unfold legPrice ProtectiveLegs.priceOf
  split at h
  · rename_i triggerPrice triggerType hkind
    obtain ⟨_, hfirst, h⟩ := bind_eq_ok.mp h
    obtain ⟨_, -, h⟩ := bind_eq_ok.mp h
    injection h with h
    have hnone : found.stopLoss = none := by simpa using refuseIf_ok hfirst
    rw [← h, hnone]
    constructor
    · rintro price below hprice
      simp only [Option.some.injEq, Prod.mk.injEq] at hprice
      simp [hprice.1]
    · intro other price hother
      split at hother
      · simp at hother
      · exact hother
      · cases hother
  · rename_i limitPrice displayQty hkind
    obtain ⟨_, hfirst, h⟩ := bind_eq_ok.mp h
    obtain ⟨_, -, h⟩ := bind_eq_ok.mp h
    injection h with h
    have hnone : found.takeProfit = none := by simpa using refuseIf_ok hfirst
    rw [← h, hnone]
    constructor
    · rintro price below hprice
      simp only [Option.some.injEq, Prod.mk.injEq] at hprice
      simp [hprice.1]
    · intro other price hother
      split at hother
      · exact hother
      · simp at hother
      · cases hother
  · injection h with h
    subst h
    refine ⟨fun price below hprice => ?_, fun other price hother => hother⟩
    cases hprice

/-- Every leg of an accepted bracket is found with its price. -/
theorem foldlM_takeLeg_ok {found found' : ProtectiveLegs}
    (h : legs.foldlM (takeLeg instrument entry) found = .ok found') :
    (∀ leg ∈ legs, ∀ price below, legPrice entry leg = some (price, below) →
      found'.priceOf leg = some price) ∧
      ∀ other price, found.priceOf other = some price → found'.priceOf other = some price := by
  induction legs generalizing found with
  | nil =>
    injection h with h
    subst h
    exact ⟨fun leg hleg => absurd hleg List.not_mem_nil, fun _ _ hother => hother⟩
  | cons first legs ih =>
    rw [List.foldlM_cons] at h
    obtain ⟨next, hnext, hrest⟩ := bind_eq_ok.mp h
    obtain ⟨htaken, hkept⟩ := takeLeg_ok hnext
    obtain ⟨hlater, hstays⟩ := ih hrest
    constructor
    · intro leg hleg price below hprice
      rcases List.mem_cons.mp hleg with rfl | hin
      · exact hstays leg price (htaken price below hprice)
      · exact hlater leg hin price below hprice
    · intro other price hother
      exact hstays other price (hkept other price hother)

/-- A new order has the volume of its quantity. -/
theorem newOrder_ok {ids : OrderRecord.LegIds} {request : ProtoOANewOrderReq}
    (h : newOrder instrument entry ids = .ok request) :
    volumeFromQuantity entry.quantity = .ok request.volume := by
  unfold newOrder at h
  obtain ⟨volume, hvolume, h⟩ := bind_eq_ok.mp h
  obtain ⟨_, -, h⟩ := bind_eq_ok.mp h
  obtain ⟨_, -, h⟩ := bind_eq_ok.mp h
  obtain ⟨_, -, h⟩ := bind_eq_ok.mp h
  injection h with h
  rw [← h]
  exact hvolume

/-- What an accepted bracket's request carries: the quantity at the context's digits, and for each leg
the distance that `relative_level` gives. -/
theorem bracketOf_ok {built : Bracket} (h : bracketOf instrument entry legs bid ask = .ok built) :
    volumeToUnits built.request.volume = inContext entry.quantity ∧
      ∀ leg ∈ legs, ∀ price below, legPrice entry leg = some (price, below) →
        ∃ distance, legDistance built.request leg = some distance ∧
          relativeLevel (referenceOf entry bid ask) price below = .ok distance := by
  unfold bracketOf at h
  obtain ⟨_, -, h⟩ := bind_eq_ok.mp h
  obtain ⟨found, hfound, h⟩ := bind_eq_ok.mp h
  obtain ⟨request, hrequest, h⟩ := bind_eq_ok.mp h
  obtain ⟨stop, hstop, h⟩ := bind_eq_ok.mp h
  obtain ⟨target, htarget, h⟩ := bind_eq_ok.mp h
  injection h with h
  have hvolume := volumeFromQuantity_ok (newOrder_ok hrequest)
  rw [← h]
  refine ⟨hvolume, fun leg hleg price below hprice => ?_⟩
  have hin := (foldlM_takeLeg_ok hfound).1 leg hleg price below hprice
  unfold ProtectiveLegs.priceOf at hin
  unfold legPrice at hprice
  unfold legDistance
  split at hprice
  · rename_i hkind
    rw [hkind] at hin
    obtain ⟨⟨id, value⟩, hsome, hvalue⟩ := Option.map_eq_some_iff.mp hin
    simp only [Option.some.injEq, Prod.mk.injEq] at hprice
    obtain ⟨rfl, rfl⟩ := hprice
    obtain rfl : value = _ := hvalue
    rw [hsome] at hstop
    exact distance_ok hstop
  · rename_i hkind
    rw [hkind] at hin
    obtain ⟨⟨id, value⟩, hsome, hvalue⟩ := Option.map_eq_some_iff.mp hin
    simp only [Option.some.injEq, Prod.mk.injEq] at hprice
    obtain ⟨rfl, rfl⟩ := hprice
    obtain rfl : value = _ := hvalue
    rw [hsome] at htarget
    exact distance_ok htarget
  · cases hprice

/-- An accepted bracket is exact just if its numbers are within the context. -/
theorem exact_iff {built : Bracket} (h : bracketOf instrument entry legs bid ask = .ok built) :
    Exact entry legs (referenceOf entry bid ask) built.request ↔
      WithinContext entry legs (referenceOf entry bid ask) := by
  obtain ⟨hvolume, hlevels⟩ := bracketOf_ok h
  constructor
  · intro hexact
    refine ⟨hvolume.symm.trans hexact.volume, fun leg hleg price below hprice => ?_⟩
    obtain ⟨distance, hdistance, hlevel⟩ := hlevels leg hleg price below hprice
    obtain ⟨distance', hdistance', hreaches⟩ := hexact.levels leg hleg price below hprice
    rw [hdistance] at hdistance'
    obtain rfl := Option.some.inj hdistance'
    exact (reaches_iff hlevel).mp hreaches
  · intro hwithin
    refine ⟨hvolume.trans hwithin.quantity, fun leg hleg price below hprice => ?_⟩
    obtain ⟨distance, hdistance, hlevel⟩ := hlevels leg hleg price below hprice
    exact ⟨distance, hdistance, (reaches_iff hlevel).mpr (hwithin.gaps leg hleg price below hprice)⟩

/-- A bracket with an entry is built from it. -/
theorem bracket_ok {built : Bracket} (h : bracket instrument (entry :: legs) bid ask = .ok built) :
    bracketOf instrument entry legs bid ask = .ok built := by
  unfold bracket at h
  split at h
  · cases h
  · exact h

end Accepted

/-- **Exact distances.** A bracket is refused or exact just if it is refused or its quantity and the
differences of its prices and the reference have no more digits than the decimal context holds. -/
theorem bracketExact_iff (instrument : Instrument) (entry : Order) (legs : List Order) (bid ask : ℚ) :
    (∀ built, bracket instrument (entry :: legs) bid ask = .ok built →
      Exact entry legs (referenceOf entry bid ask) built.request) ↔
      ∀ built, bracket instrument (entry :: legs) bid ask = .ok built →
        WithinContext entry legs (referenceOf entry bid ask) := by
  constructor
  · intro hexact built hbuilt
    exact (exact_iff (bracket_ok hbuilt)).mp (hexact built hbuilt)
  · intro hwithin built hbuilt
    exact (exact_iff (bracket_ok hbuilt)).mpr (hwithin built hbuilt)

/-- A buy of 1000 units with both its levels. -/
def sampleEntry : Order where
  clientOrderId := "O-1"
  instrumentId := "EURUSD"
  kind := .market
  side := .buy
  quantity := 1000

def sampleLeg (id : String) (kind : OrderKind) : Order where
  clientOrderId := id
  instrumentId := "EURUSD"
  kind := kind
  side := .sell
  quantity := 1000
  isReduceOnly := true
  parentOrderId := some "O-1"

def sampleInstrument : Instrument where
  id := "EURUSD"
  pricePrecision := 5
  symbolId := 1

/-- A stop-loss at 0.9 and a take-profit at 1.2. -/
def sampleLegs : List Order :=
  [sampleLeg "O-2" (.stopMarket (9 / 10) .default), sampleLeg "O-3" (.limit (12 / 10) none)]

/-- At an ask of 30 digits, which is found on the venue's scale only once it is rounded, a bracket is
accepted with distances that miss both its prices. -/
theorem finer_reference_accepted :
    ¬ ∀ built, bracket sampleInstrument (sampleEntry :: sampleLegs) (109 / 100) (1 + 1 / 10 ^ 29) =
      .ok built → Exact sampleEntry sampleLegs (referenceOf sampleEntry (109 / 100) (1 + 1 / 10 ^ 29))
        built.request := by
  intro h
  have haccepted : ((bracket sampleInstrument (sampleEntry :: sampleLegs) (109 / 100)
      (1 + 1 / 10 ^ 29)).toOption.map fun built => built.request.relativeStopLoss?) =
        some (some 10000) := by
    decide +kernel
  obtain ⟨built, hok, hstop⟩ := toOption_map_eq_some.mp haccepted
  obtain ⟨distance, hdistance, hreaches⟩ :=
    (h built hok).levels _ List.mem_cons_self (9 / 10) true rfl
  have hsame : some distance = some 10000 := hdistance.symm.trans hstop
  obtain rfl := Option.some.inj hsame
  revert hreaches
  decide +kernel

end OrderTranslation

end NautilusCtrader
