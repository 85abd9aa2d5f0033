import NautilusCtrader.RecordCodec
import NautilusCtrader.VenueBook.State

/-!
# The requests that amend

What the order translation makes of the levels a position is to have, and of a modify of a pending
order. Both requests state everything that is to stand, so what a command does not change is sent
again as it is held (`amendOrder_changes_only_asked`), and `carries` tells whether the broker's answer
to an amend is what it asked for.
-/

namespace NautilusCtrader

open Common

namespace OrderTranslation

/-- Why a command is `Unsupported`. -/
inductive Unsupported
  /-- The `ValueError` of `price_of` for a price the order holds. -/
  | priceUnreadable (failure : Failure)
  | quantityNotExpressible (quantity : ℚ)
  /-- `market_refusal("modified")`. -/
  | marketModified
  | priceOffGrid (price : ℚ) (precision : ℕ)
  | priceNotSettable (name : String) (orderType : ProtoOAOrderType)
  | referenceNotPositive (reference : ℚ)
  | referenceFiner (reference : ℚ)
  | levelWrongSide (level reference : ℚ)
  | levelFiner (level : ℚ)
  | otherInstrument (ordered given : String)
  | quoteQuantity
  | emulated
  | execAlgorithm
  | timeInForce (name : String)
  | bracketSize (orders : ℕ)
  | entryType (name : String)
  | entryReduceOnly
  | legType (name : String)
  | legSide
  | legQuantity
  | legNotReduceOnly
  | legParent
  | secondStopLoss
  | triggerType (name : String)
  | secondTakeProfit
  | displayQuantity
  /-- An id or a record that its field cannot hold. -/
  | record (error : OrderRecord.RecordError)
deriving DecidableEq, Repr

/-- `volume_from_quantity`: a quantity in units as the venue's volume, in hundredths of a unit. -/
def volumeFromQuantity (quantity : ℚ) : Except Unsupported ℕ :=
  let scaled := inContext (quantity * 100)
  if scaled ≤ 0 ∨ scaled.den ≠ 1 then .error (.quantityNotExpressible quantity)
  else .ok scaled.num.toNat

/-- Whether `value` has no more than `precision` decimals. -/
def fits (value : ℚ) (precision : ℕ) : Bool := quantize value precision = some value

/-- `_require_on_price_grid`. -/
def requireOnPriceGrid (precision : ℕ) (price : ℚ) : Except Unsupported Unit :=
  if fits price precision then .ok () else .error (.priceOffGrid price precision)

/-! ## Doubles

`Price.as_double` is Nautilus's own; `asDouble` stands for it. -/

/-- A price has at most 15 digits at `precision` decimals. -/
def FifteenDigits (precision : ℕ) (price : ℚ) : Prop := |price| * 10 ^ precision < 1000000000000000

/-- The double of a price of at most 15 digits is finite, and its shortest form is the price up to one
part in 2^51. -/
def Precise (precision : ℕ) (asDouble : ℚ → Double) : Prop :=
  ∀ price : ℚ, fits price precision = true → FifteenDigits precision price →
    ∃ value, asDouble price = .finite value ∧ |value - price| * 2251799813685248 ≤ |price|

/-! ## Levels -/

/-- `amend_levels`: a level given is set, one left out is removed. -/
def amendLevels (asDouble : ℚ → Double) (positionId : ℤ) (levels : Levels)
    (terms : Option LevelTerms) : ProtoOAAmendPositionSLTPReq where
  positionId := positionId
  stopLoss? := levels.stopLoss.map asDouble
  takeProfit? := levels.takeProfit.map asDouble
  stopLossTriggerMethod? := terms.map (·.stopLossTriggerMethod)
  -- These describe the stop-loss and go only with one.
  trailingStopLoss? := if levels.stopLoss.isSome then terms.map (·.trailingStopLoss) else none
  guaranteedStopLoss? := if levels.stopLoss.isSome then terms.map (·.guaranteedStopLoss) else none

/-- The level a request states. -/
def statedLevel (request : ProtoOAAmendPositionSLTPReq) : Level → Option Double
  | .stopLoss => request.stopLoss?
  | .takeProfit => request.takeProfit?

/-- A request states the doubles of the levels it is made of. -/
theorem statedLevel_amendLevels (asDouble : ℚ → Double) (positionId : ℤ) (levels : Levels)
    (terms : Option LevelTerms) (level : Level) :
    statedLevel (amendLevels asDouble positionId levels terms) level =
      (levels.get? level).map asDouble := by
  cases level <;> rfl

/-! ## Pending orders -/

/-- What a modify asks of a pending order. -/
structure ModifyOrder where
  quantity : Option ℚ := none
  price : Option ℚ := none
  triggerPrice : Option ℚ := none
deriving DecidableEq, Repr

/-- What a command names is within the digits of the decimal context and of a double. -/
structure ModifyOrder.InDigits (precision : ℕ) (command : ModifyOrder) : Prop where
  quantity : ∀ quantity ∈ command.quantity, inContext quantity = quantity
  price : ∀ price ∈ command.price, FifteenDigits precision price
  triggerPrice : ∀ price ∈ command.triggerPrice, FifteenDigits precision price

/-- Whether `held` reads as `wanted` at `precision` decimals. -/
def readsAs (precision : ℕ) (held : Option Double) (wanted : ℚ) : Bool :=
  match held with
  | none => false
  | some held =>
    match priceOf held precision with
    | .ok price => price = wanted
    | .error _ => false

/-- `_amended_price`: the order's price once amended to `wanted`; the order's own if it is the
same. -/
def amendedPrice (asDouble : ℚ → Double) (precision : ℕ) (orderType : ProtoOAOrderType)
    (held : Option Double) (wanted : Option ℚ) (settable : Bool) (name : String) :
    Except Unsupported (Option Double) :=
  match wanted with
  | none => .ok held
  | some wanted =>
    match priceOf? held precision with
    | .error failure => .error (.priceUnreadable failure)
    | .ok _ =>
      if readsAs precision held wanted then .ok held
      else if !settable then .error (.priceNotSettable name orderType)
      else (requireOnPriceGrid precision wanted).map fun _ => some (asDouble wanted)

/-- Whether a price is the one an order holds, as floats compare. -/
def samePrice (price held : Option Double) : Bool := price = held && price ≠ some .nan

/-- Membership in `_STOP_TYPES`. -/
def isStop (orderType : ProtoOAOrderType) : Bool := orderType = .stop || orderType = .stopLimit

/-- The request that states a pending order as it stands, with `volume`, `limit` and `stop` for its
own. -/
def restate (order : ProtoOAOrder) (volume : ℕ) (limit stop : Option Double) :
    ProtoOAAmendOrderReq where
  orderId := order.orderId
  volume := volume
  limitPrice? := if order.orderType = .limit then limit else none
  stopPrice? := if isStop order.orderType then stop else none
  stopTriggerMethod? := if isStop order.orderType then some order.stopTriggerMethod else none
  expirationTimestamp? := order.expirationTimestamp?
  slippageInPoints? := order.slippageInPoints?
  relativeStopLoss? := order.relativeStopLoss?
  -- A level set as a distance is reported as one.
  stopLoss? := if order.relativeStopLoss?.isSome then none else order.stopLoss?
  relativeTakeProfit? := order.relativeTakeProfit?
  takeProfit? := if order.relativeTakeProfit?.isSome then none else order.takeProfit?
  trailingStopLoss? :=
    if order.relativeStopLoss?.isSome || order.stopLoss?.isSome then some order.trailingStopLoss
    else none
  guaranteedStopLoss? :=
    if order.relativeStopLoss?.isSome || order.stopLoss?.isSome then
      some order.tradeData.guaranteedStopLoss
    else none

/-- The request that states a pending order just as it stands. -/
def restated (order : ProtoOAOrder) : ProtoOAAmendOrderReq :=
  restate order order.tradeData.volume order.limitPrice? order.stopPrice?

/-- The order's volume once amended to `quantity`. -/
def amendedVolume (order : ProtoOAOrder) : Option ℚ → Except Unsupported ℕ
  | none => .ok order.tradeData.volume
  | some quantity => volumeFromQuantity quantity

/-- `amend_order`: the broker's pending `order` with the values given, `none` when it already has
them. -/
def amendOrder (asDouble : ℚ → Double) (precision : ℕ) (order : ProtoOAOrder)
    (command : ModifyOrder) : Except Unsupported (Option ProtoOAAmendOrderReq) :=
  if !VenueBook.isPending order.orderType then .error .marketModified
  else
    match amendedVolume order command.quantity with
    | .error failure => .error failure
    | .ok volume =>
      match amendedPrice asDouble precision order.orderType order.limitPrice? command.price
        (order.orderType = .limit) "limit price" with
      | .error failure => .error failure
      | .ok limit =>
        match amendedPrice asDouble precision order.orderType order.stopPrice? command.triggerPrice
          (isStop order.orderType) "trigger price" with
        | .error failure => .error failure
        | .ok stop =>
          if volume = order.tradeData.volume ∧ samePrice limit order.limitPrice? ∧
              samePrice stop order.stopPrice? then .ok none
          else .ok (some (restate order volume limit stop))

/-! ## What a modify changes -/

/-- What a modify changes of the request that states a pending order. -/
structure OrderEdit where
  precision : ℕ
  volume : Option ℕ
  limit : Option ℚ
  stop : Option ℚ
deriving DecidableEq, Repr

/-- A price set to `wanted`, unless it reads so already. -/
def editedPrice (asDouble : ℚ → Double) (precision : ℕ) (held : Option Double) :
    Option ℚ → Option Double
  | none => held
  | some wanted => if readsAs precision held wanted then held else some (asDouble wanted)

/-- The request with what a modify changes of it. -/
def OrderEdit.apply (asDouble : ℚ → Double) (edit : OrderEdit) (stated : ProtoOAAmendOrderReq) :
    ProtoOAAmendOrderReq :=
  { stated with
    volume := edit.volume.getD stated.volume
    limitPrice? := editedPrice asDouble edit.precision stated.limitPrice? edit.limit
    stopPrice? := editedPrice asDouble edit.precision stated.stopPrice? edit.stop }

/-- What `command` changes of `order`: a price of its own type only. -/
def orderEdit (precision : ℕ) (order : ProtoOAOrder) (command : ModifyOrder) : OrderEdit where
  precision := precision
  volume := command.quantity.bind fun quantity =>
    match volumeFromQuantity quantity with
    | .ok volume => some volume
    | .error _ => none
  limit := if order.orderType = .limit then command.price else none
  stop := if isStop order.orderType then command.triggerPrice else none

variable {asDouble : ℚ → Double}

/-- A price amended to is the one held where that reads as wanted, else the wanted one, on the grid. -/
theorem amendedPrice_cases {precision : ℕ} {orderType : ProtoOAOrderType} {held : Option Double}
    {wanted : ℚ} {settable : Bool} {name : String} {price : Option Double}
    (h : amendedPrice asDouble precision orderType held (some wanted) settable name = .ok price) :
    readsAs precision held wanted = true ∧ price = held ∨
      readsAs precision held wanted = false ∧ fits wanted precision = true ∧
        price = some (asDouble wanted) := by
  unfold amendedPrice at h
  dsimp only at h
  split at h
  · cases h
  · by_cases hsame : readsAs precision held wanted = true
    · rw [if_pos hsame] at h
      injection h with h
      exact .inl ⟨hsame, h.symm⟩
    · rw [if_neg hsame] at h
      split at h
      · cases h
      · unfold requireOnPriceGrid at h
        by_cases hfits : fits wanted precision = true
        · rw [if_pos hfits] at h
          injection h with h
          exact .inr ⟨Bool.eq_false_of_not_eq_true hsame, hfits, h.symm⟩
        · rw [if_neg hfits] at h
          cases h

/-- A price amended to is the one held, edited. -/
theorem amendedPrice_ok {precision : ℕ} {orderType : ProtoOAOrderType} {held : Option Double}
    {wanted : Option ℚ} {settable : Bool} {name : String} {price : Option Double}
    (h : amendedPrice asDouble precision orderType held wanted settable name = .ok price) :
    price = editedPrice asDouble precision held wanted := by
  cases wanted with
  | none =>
    injection h with h
    exact h.symm
  | some wanted =>
    unfold editedPrice
    dsimp only
    rcases amendedPrice_cases h with ⟨hsame, hprice⟩ | ⟨hsame, -, hprice⟩
    · rw [if_pos hsame, hprice]
    · rw [hsame, if_neg Bool.false_ne_true, hprice]

/-- Prices that compare as equal are equal. -/
theorem samePrice_eq {price held : Option Double} (h : samePrice price held = true) : price = held := by
  unfold samePrice at h
  rw [Bool.and_eq_true, decide_eq_true_eq] at h
  exact h.1

/-- A volume amended to is that of the quantity, if the command names one. -/
theorem amendedVolume_ok {order : ProtoOAOrder} {quantity : Option ℚ} {volume : ℕ}
    (h : amendedVolume order quantity = .ok volume) :
    volume = (quantity.bind fun quantity =>
      match volumeFromQuantity quantity with
      | .ok volume => some volume
      | .error _ => none).getD order.tradeData.volume := by
  cases quantity with
  | none =>
    injection h with h
    exact h.symm
  | some quantity =>
    have hvolume : volumeFromQuantity quantity = .ok volume := h
    simp [hvolume]

/-- The volume and the prices of an amend that is not refused. -/
structure Amended (asDouble : ℚ → Double) (precision : ℕ) (order : ProtoOAOrder)
    (command : ModifyOrder) (volume : ℕ) (limit stop : Option Double) : Prop where
  volume : amendedVolume order command.quantity = .ok volume
  limit : amendedPrice asDouble precision order.orderType order.limitPrice? command.price
    (order.orderType = .limit) "limit price" = .ok limit
  stop : amendedPrice asDouble precision order.orderType order.stopPrice? command.triggerPrice
    (isStop order.orderType) "trigger price" = .ok stop

/-- An amend that is not refused states the order anew, unless that changes nothing. -/
theorem amendOrder_cases {precision : ℕ} {order : ProtoOAOrder} {command : ModifyOrder}
    {request : Option ProtoOAAmendOrderReq}
    (h : amendOrder asDouble precision order command = .ok request) :
    ∃ volume limit stop, Amended asDouble precision order command volume limit stop ∧
      request = if volume = order.tradeData.volume ∧ samePrice limit order.limitPrice? ∧
        samePrice stop order.stopPrice? then none else some (restate order volume limit stop) := by
  unfold amendOrder at h
  split at h
  · cases h
  · split at h
    · cases h
    · rename_i volume hvolume
      split at h
      · cases h
      · rename_i limit hlimit
        split at h
        · cases h
        · rename_i stop hstop
          refine ⟨volume, limit, stop, ⟨hvolume, hlimit, hstop⟩, ?_⟩
          split at h
          · rename_i hsame
            rw [if_pos hsame]
            injection h with h
            exact h.symm
          · rename_i hsame
            rw [if_neg hsame]
            injection h with h
            exact h.symm

/-- An amend states the order as it stands but for what the command changes, and asks for nothing
where that changes nothing. -/
theorem amendOrder_ok {precision : ℕ} {order : ProtoOAOrder} {command : ModifyOrder}
    {request : Option ProtoOAAmendOrderReq} (h : amendOrder asDouble precision order command = .ok request) :
    request.getD (restated order) = (orderEdit precision order command).apply asDouble (restated order) := by
  obtain ⟨volume, limit, stop, hamended, hrequest⟩ := amendOrder_cases h
  have hasked : restate order volume limit stop =
      (orderEdit precision order command).apply asDouble (restated order) := by
    rw [amendedVolume_ok hamended.volume, amendedPrice_ok hamended.limit, amendedPrice_ok hamended.stop]
    unfold OrderEdit.apply orderEdit restated restate
    simp only [ProtoOAAmendOrderReq.mk.injEq, true_and, and_true]
    refine ⟨?_, ?_⟩
    · split
      · rfl
      · rfl
    · split
      · rfl
      · rfl
  rw [hrequest, ← hasked]
  split
  · rename_i hsame
    obtain ⟨rfl, hlimit, hstop⟩ := hsame
    rw [samePrice_eq hlimit, samePrice_eq hstop]
    rfl
  · rfl

/-! ## What an amend asks for, and whether it took effect -/

/-- `same` in `carries`: whether an order's price is the one asked for, if one is. -/
def sameAsked (precision : ℕ) (asked held : Option Double) : Except Failure Bool :=
  match asked with
  | none => .ok true
  | some asked =>
    match held with
    | none => .ok false
    | some held =>
      match priceOf held precision with
      | .error failure => .error failure
      | .ok price => (priceOf asked precision).map fun wanted => price = wanted

/-- `carries`: whether `order` has the volume and the prices that `request` asks for. -/
def carries (request : ProtoOAAmendOrderReq) (order : ProtoOAOrder) (precision : ℕ) :
    Except Failure Bool :=
  if request.volume ≠ order.tradeData.volume then .ok false
  else
    match sameAsked precision request.limitPrice? order.limitPrice? with
    | .error failure => .error failure
    | .ok false => .ok false
    | .ok true => sameAsked precision request.stopPrice? order.stopPrice?

/-- `price_of` takes the prices of a pending order. -/
structure Readable (precision : ℕ) (order : ProtoOAOrder) : Prop where
  limit : ∃ price, priceOf? order.limitPrice? precision = .ok price
  stop : ∃ price, priceOf? order.stopPrice? precision = .ok price

/-- A pending order has the values a command names, as they read at `precision` decimals. -/
structure AlreadyHas (precision : ℕ) (order : ProtoOAOrder) (command : ModifyOrder) : Prop where
  volume : ∀ quantity ∈ command.quantity, quantity = volumeToUnits order.tradeData.volume
  limit : ∀ price ∈ command.price, readsAs precision order.limitPrice? price = true
  stop : ∀ price ∈ command.triggerPrice, readsAs precision order.stopPrice? price = true

/-- A price asked for is the wanted one if the command names it, else the order's own. -/
def AskedFor (precision : ℕ) (held : Option Double) (wanted : Option ℚ) (asked : Option Double) :
    Prop :=
  match wanted with
  | none => asked = held
  | some wanted => readsAs precision asked wanted = true

/-- A request asks for the values a command names, and for the order's own in every other attribute
that an amend of its type sets. -/
structure AsksFor (precision : ℕ) (order : ProtoOAOrder) (command : ModifyOrder)
    (request : ProtoOAAmendOrderReq) : Prop where
  orderId : request.orderId = order.orderId
  volume : volumeToUnits request.volume =
    command.quantity.getD (volumeToUnits order.tradeData.volume)
  limit : if order.orderType = .limit then
      AskedFor precision order.limitPrice? command.price request.limitPrice?
    else request.limitPrice? = none
  stop : if isStop order.orderType = true then
      AskedFor precision order.stopPrice? command.triggerPrice request.stopPrice?
    else request.stopPrice? = none
  triggerMethod : request.stopTriggerMethod? =
    if isStop order.orderType = true then some order.stopTriggerMethod else none
  expiration : request.expirationTimestamp? = order.expirationTimestamp?
  slippage : request.slippageInPoints? = order.slippageInPoints?
  relativeStopLoss : request.relativeStopLoss? = order.relativeStopLoss?
  stopLoss : request.stopLoss? =
    if order.relativeStopLoss?.isSome then none else order.stopLoss?
  relativeTakeProfit : request.relativeTakeProfit? = order.relativeTakeProfit?
  takeProfit : request.takeProfit? =
    if order.relativeTakeProfit?.isSome then none else order.takeProfit?
  trailing : request.trailingStopLoss? =
    if order.relativeStopLoss?.isSome || order.stopLoss?.isSome then some order.trailingStopLoss
    else none
  guaranteed : request.guaranteedStopLoss? =
    if order.relativeStopLoss?.isSome || order.stopLoss?.isSome then
      some order.tradeData.guaranteedStopLoss
    else none

/-- An order has exactly the volume and the prices a request asks for. -/
structure HasExactly (request : ProtoOAAmendOrderReq) (order : ProtoOAOrder) : Prop where
  volume : order.tradeData.volume = request.volume
  limit : request.limitPrice?.isSome = true → order.limitPrice? = request.limitPrice?
  stop : request.stopPrice?.isSome = true → order.stopPrice? = request.stopPrice?

/-- A price is not the one asked for, as both read at `precision` decimals. -/
def PriceDiffers (precision : ℕ) (asked held : Option Double) : Prop :=
  ∃ price, asked = some price ∧
    ∀ wanted, priceOf price precision = .ok wanted → readsAs precision held wanted = false

/-- An order's volume is not the one asked for, or the price of its type is not. -/
def Differs (precision : ℕ) (request : ProtoOAAmendOrderReq) (order : ProtoOAOrder) : Prop :=
  order.tradeData.volume ≠ request.volume ∨
    PriceDiffers precision request.limitPrice? order.limitPrice? ∨
    PriceDiffers precision request.stopPrice? order.stopPrice?

/-- What a modify of a pending order comes to: it is refused, or asks for nothing just if the order has
what it names already, or asks for just that, which `carries` tells from anything else. -/
structure ChangesOnlyAsked (asDouble : ℚ → Double) (precision : ℕ) (order : ProtoOAOrder)
    (command : ModifyOrder) : Prop where
  nothing : ∀ request, amendOrder asDouble precision order command = .ok request →
    (request = none ↔ AlreadyHas precision order command)
  asks : ∀ request, amendOrder asDouble precision order command = .ok (some request) →
    AsksFor precision order command request
  holds : ∀ request, amendOrder asDouble precision order command = .ok (some request) →
    ∀ amended, HasExactly request amended → carries request amended precision = .ok true
  fails : ∀ request, amendOrder asDouble precision order command = .ok (some request) →
    ∀ amended, Differs precision request amended → carries request amended precision ≠ .ok true

section Asked

variable {precision : ℕ} {orderType : ProtoOAOrderType} {held : Option Double} {wanted : Option ℚ}
  {settable : Bool} {name : String} {price : Option Double}

/-- A whole number that is not negative, as the `int` made of it. -/
theorem toNat_num {scaled : ℚ} (hle : 0 ≤ scaled) (hden : scaled.den = 1) :
    (scaled.num.toNat : ℚ) = scaled := by
  rw [← Int.cast_natCast, Int.toNat_of_nonneg (Rat.num_nonneg.mpr hle)]
  exact Rat.coe_int_num_of_den_eq_one hden

/-- The volume is the quantity at the context's digits. -/
theorem volumeFromQuantity_ok {quantity : ℚ} {volume : ℕ} (h : volumeFromQuantity quantity = .ok volume) :
    volumeToUnits volume = inContext quantity := by
  unfold volumeFromQuantity at h
  dsimp only at h
  split at h
  · cases h
  · rename_i hwhole
    rw [not_or, not_not, not_le] at hwhole
    obtain ⟨hpos, hden⟩ := hwhole
    injection h with h
    rw [← h]
    unfold volumeToUnits
    rw [toNat_num hpos.le hden]
    have hshift : inContext (quantity * 100) = inContext quantity * 100 := by
      have hmove := inContext_mul_zpow quantity 2
      norm_num at hmove
      exact hmove
    rw [hshift]
    exact mul_div_cancel_right₀ _ (by norm_num)

/-- A price on the grid of at most 15 digits is read back from its double. -/
theorem readsAs_of_fits (hdouble : Precise precision asDouble) {wanted : ℚ} (h : fits wanted precision = true)
    (hdigits : FifteenDigits precision wanted) :
    readsAs precision (some (asDouble wanted)) wanted = true := by
  have hone : (1 : ℚ) ≤ 10 ^ precision := one_le_pow₀ (by norm_num)
  obtain ⟨value, hvalue, hnear⟩ := hdouble wanted h hdigits
  have hscaled : |value - wanted| * 10 ^ precision * 2251799813685248 < 1000000000000000 := by
    calc |value - wanted| * 10 ^ precision * 2251799813685248 =
          |value - wanted| * 2251799813685248 * 10 ^ precision := mul_right_comm _ _ _
      _ ≤ |wanted| * 10 ^ precision := mul_le_mul_of_nonneg_right hnear (zero_le_one.trans hone)
      _ < 1000000000000000 := hdigits
  have hread : quantize value precision = some wanted := by
    refine quantize_of_near (of_decide_eq_true h) ?_
    linarith
  unfold readsAs priceOf
  rw [hvalue]
  simp [hread]

/-- A price amended to is the wanted one. -/
theorem amendedPrice_asked (hdouble : Precise precision asDouble)
    (hdigits : ∀ named ∈ wanted, FifteenDigits precision named) (h : amendedPrice asDouble precision orderType held wanted settable name = .ok price) :
    AskedFor precision held wanted price := by
  unfold AskedFor
  cases wanted with
  | none =>
    injection h with h
    exact h.symm
  | some wanted =>
    rcases amendedPrice_cases h with ⟨hsame, rfl⟩ | ⟨-, hfits, rfl⟩
    · exact hsame
    · exact readsAs_of_fits hdouble hfits (hdigits wanted rfl)

/-- A price that reads at `precision` is the same as itself. -/
theorem samePrice_of_readable (h : ∃ price, priceOf? held precision = .ok price) :
    samePrice held held = true := by
  obtain ⟨price, hprice⟩ := h
  unfold samePrice
  rw [Bool.and_eq_true, decide_eq_true_eq, decide_eq_true_eq]
  refine ⟨rfl, ?_⟩
  rintro rfl
  cases hprice

/-- An amended price is the order's own just if that reads as the command names it. -/
theorem samePrice_iff (hdouble : Precise precision asDouble)
    (hdigits : ∀ named ∈ wanted, FifteenDigits precision named)
    (hheld : ∃ price, priceOf? held precision = .ok price) (h : amendedPrice asDouble precision orderType held wanted settable name = .ok price) :
    samePrice price held = true ↔ ∀ named ∈ wanted, readsAs precision held named = true := by
  have hasked := amendedPrice_asked hdouble hdigits h
  constructor
  · intro hsame named hnamed
    rw [samePrice_eq hsame, Option.mem_def.mp hnamed] at hasked
    exact hasked
  · intro hreads
    rw [amendedPrice_ok h]
    unfold editedPrice
    cases wanted with
    | none => exact samePrice_of_readable hheld
    | some named =>
      dsimp only
      rw [if_pos (hreads named rfl)]
      exact samePrice_of_readable hheld

end Asked

section Changes

variable {precision : ℕ} {order : ProtoOAOrder} {command : ModifyOrder}

/-- A volume amended to is the quantity named, else the order's own. -/
theorem amendedVolume_asked {volume : ℕ}
    (hdigits : ∀ quantity ∈ command.quantity, inContext quantity = quantity)
    (h : amendedVolume order command.quantity = .ok volume) :
    volumeToUnits volume = command.quantity.getD (volumeToUnits order.tradeData.volume) := by
  unfold amendedVolume at h
  cases hquantity : command.quantity with
  | none =>
    rw [hquantity] at h
    injection h with h
    rw [← h]
    rfl
  | some quantity =>
    rw [hquantity] at h
    exact (volumeFromQuantity_ok h).trans (hdigits quantity hquantity)

/-- Volumes of the same units are the same. -/
theorem volumeToUnits_inj {volume volume' : ℕ} (h : volumeToUnits volume = volumeToUnits volume') :
    volume = volume' := by
  unfold volumeToUnits at h
  rw [div_left_inj' (by norm_num)] at h
  exact Nat.cast_injective h

/-- An amended volume is the order's own just if that is the quantity named. -/
theorem Amended.volume_iff {volume : ℕ} {limit stop : Option Double}
    (hdigits : ∀ quantity ∈ command.quantity, inContext quantity = quantity)
    (h : Amended asDouble precision order command volume limit stop) : volume = order.tradeData.volume ↔
      ∀ quantity ∈ command.quantity, quantity = volumeToUnits order.tradeData.volume := by
  have hasked := amendedVolume_asked hdigits h.volume
  constructor
  · intro hsame quantity hquantity
    rw [hsame, Option.mem_def.mp hquantity, Option.getD_some] at hasked
    exact hasked.symm
  · intro hhas
    refine volumeToUnits_inj (hasked.trans ?_)
    cases hquantity : command.quantity with
    | none => rfl
    | some quantity => exact hhas quantity hquantity

/-- An amend asks for nothing just if the order has already what the command names. -/
theorem amendOrder_none_iff (hdouble : Precise precision asDouble) (hreadable : Readable precision order)
    (hdigits : command.InDigits precision)
    {request : Option ProtoOAAmendOrderReq} (h : amendOrder asDouble precision order command = .ok request) :
    request = none ↔ AlreadyHas precision order command := by
  obtain ⟨volume, limit, stop, hamended, hrequest⟩ := amendOrder_cases h
  have hnone : request = none ↔ volume = order.tradeData.volume ∧ samePrice limit order.limitPrice? ∧
      samePrice stop order.stopPrice? := by
    rw [hrequest]
    split
    · rename_i hsame
      exact ⟨fun _ => hsame, fun _ => rfl⟩
    · rename_i hdiffers
      exact ⟨fun hsome => absurd hsome (Option.some_ne_none _), fun hsame => absurd hsame hdiffers⟩
  rw [hnone, hamended.volume_iff hdigits.quantity,
    samePrice_iff hdouble hdigits.price hreadable.limit hamended.limit,
    samePrice_iff hdouble hdigits.triggerPrice hreadable.stop hamended.stop]
  exact ⟨fun ⟨hvolume, hlimit, hstop⟩ => ⟨hvolume, hlimit, hstop⟩,
    fun hhas => ⟨hhas.volume, hhas.limit, hhas.stop⟩⟩

/-- A request is the order stated anew. -/
theorem amendOrder_some {request : ProtoOAAmendOrderReq}
    (h : amendOrder asDouble precision order command = .ok (some request)) :
    ∃ volume limit stop, Amended asDouble precision order command volume limit stop ∧
      request = restate order volume limit stop := by
  obtain ⟨volume, limit, stop, hamended, hrequest⟩ := amendOrder_cases h
  refine ⟨volume, limit, stop, hamended, ?_⟩
  split at hrequest
  · cases hrequest
  · exact Option.some.inj hrequest

/-- A request asks for what the command names and for the order's own in everything else. -/
theorem amendOrder_asks (hdouble : Precise precision asDouble) {request : ProtoOAAmendOrderReq}
    (hdigits : command.InDigits precision)
    (h : amendOrder asDouble precision order command = .ok (some request)) :
    AsksFor precision order command request := by
  obtain ⟨volume, limit, stop, hamended, rfl⟩ := amendOrder_some h
  refine ⟨rfl, amendedVolume_asked hdigits.quantity hamended.volume, ?_, ?_, rfl, rfl, rfl, rfl, rfl, rfl,
    rfl, rfl, rfl⟩
  · by_cases htype : order.orderType = .limit
    · rw [if_pos htype]
      have hlimit : (restate order volume limit stop).limitPrice? = limit := if_pos htype
      rw [hlimit]
      exact amendedPrice_asked hdouble hdigits.price hamended.limit
    · rw [if_neg htype]
      exact if_neg htype
  · by_cases htype : isStop order.orderType = true
    · rw [if_pos htype]
      have hstop : (restate order volume limit stop).stopPrice? = stop := if_pos htype
      rw [hstop]
      exact amendedPrice_asked hdouble hdigits.triggerPrice hamended.stop
    · rw [if_neg htype]
      exact if_neg htype

/-- A price asked for can be read, as the order's own can. -/
theorem askedFor_readable {held wanted} {asked : Option Double}
    (hheld : ∃ price, priceOf? held precision = .ok price) (h : AskedFor precision held wanted asked) :
    ∃ price, priceOf? asked precision = .ok price := by
  unfold AskedFor at h
  cases wanted with
  | none =>
    obtain rfl : asked = held := h
    exact hheld
  | some named =>
    dsimp only at h
    unfold readsAs at h
    cases asked with
    | none => exact ⟨none, rfl⟩
    | some asked =>
      dsimp only at h
      split at h
      · rename_i price hprice
        refine ⟨some price, ?_⟩
        show (priceOf asked precision).map some = _
        rw [hprice]
        rfl
      · cases h

/-- A readable price is the same as itself. -/
theorem sameAsked_self {asked : Option Double} (h : ∃ price, priceOf? asked precision = .ok price) :
    sameAsked precision asked asked = .ok true := by
  obtain ⟨price, hprice⟩ := h
  unfold sameAsked
  cases asked with
  | none => rfl
  | some asked =>
    unfold priceOf? at hprice
    dsimp only at hprice ⊢
    cases hread : priceOf asked precision with
    | error failure =>
      rw [hread] at hprice
      cases hprice
    | ok value => simp [Except.map]

/-- A price that is not the one asked for is told from it. -/
theorem sameAsked_of_differs {asked held : Option Double} (h : PriceDiffers precision asked held) :
    sameAsked precision asked held ≠ .ok true := by
  obtain ⟨price, rfl, hdiffers⟩ := h
  unfold sameAsked
  cases held with
  | none => simp
  | some held =>
    dsimp only
    cases hheld : priceOf held precision with
    | error failure => simp
    | ok value =>
      cases hasked : priceOf price precision with
      | error failure => simp [Except.map]
      | ok wanted =>
        have hfalse := hdiffers wanted hasked
        unfold readsAs at hfalse
        simp only [hheld, decide_eq_false_iff_not] at hfalse
        simp [Except.map, hfalse]

/-- `carries` holds of an order with exactly what was asked for. -/
theorem carries_of_exactly {request : ProtoOAAmendOrderReq} {amended : ProtoOAOrder}
    (hlimit : ∃ price, priceOf? request.limitPrice? precision = .ok price)
    (hstop : ∃ price, priceOf? request.stopPrice? precision = .ok price)
    (h : HasExactly request amended) : carries request amended precision = .ok true := by
  have hsame {asked held : Option Double} (hasked : ∃ price, priceOf? asked precision = .ok price)
      (hheld : asked.isSome = true → held = asked) : sameAsked precision asked held = .ok true := by
    cases asked with
    | none => rfl
    | some asked =>
      rw [hheld rfl]
      exact sameAsked_self hasked
  unfold carries
  rw [if_neg (not_not.mpr h.volume.symm), hsame hlimit h.limit]
  exact hsame hstop h.stop

/-- `carries` holds of no order with another volume or price. -/
theorem carries_of_differs {request : ProtoOAAmendOrderReq} {amended : ProtoOAOrder}
    (h : Differs precision request amended) : carries request amended precision ≠ .ok true := by
  unfold carries
  intro hcarries
  by_cases hvolume : request.volume ≠ amended.tradeData.volume
  · rw [if_pos hvolume] at hcarries
    cases hcarries
  · rw [if_neg hvolume] at hcarries
    rw [not_not] at hvolume
    split at hcarries
    · cases hcarries
    · cases hcarries
    · rename_i hlimit
      rcases h with hother | hother | hother
      · exact hother hvolume.symm
      · exact sameAsked_of_differs hother hlimit
      · exact sameAsked_of_differs hother hcarries

/-- **An amend changes only what is asked.** For a pending order whose prices can be read, a modify within
the digits of a decimal context and of a double is refused, or asks for nothing just if the order has what
it names already, or asks for what it names and for the order's own in everything else; `carries` holds of
the order with exactly that, and of none whose volume or price of its type differs. -/
theorem amendOrder_changes_only_asked (asDouble : ℚ → Double) (precision : ℕ)
    (hdouble : Precise precision asDouble) (order : ProtoOAOrder) (command : ModifyOrder)
    (h : Readable precision order) (hdigits : command.InDigits precision) :
    ChangesOnlyAsked asDouble precision order command := by
  have hreadable {request : ProtoOAAmendOrderReq}
      (hrequest : amendOrder asDouble precision order command = .ok (some request)) :
      (∃ price, priceOf? request.limitPrice? precision = .ok price) ∧
        ∃ price, priceOf? request.stopPrice? precision = .ok price := by
    have hasks := amendOrder_asks hdouble hdigits hrequest
    have hlimit := hasks.limit
    have hstop := hasks.stop
    constructor
    · split at hlimit
      · exact askedFor_readable h.limit hlimit
      · rw [hlimit]
        exact ⟨none, rfl⟩
    · split at hstop
      · exact askedFor_readable h.stop hstop
      · rw [hstop]
        exact ⟨none, rfl⟩
  constructor
  · intro request hrequest
    exact amendOrder_none_iff hdouble h hdigits hrequest
  · intro request hrequest
    exact amendOrder_asks hdouble hdigits hrequest
  · intro request hrequest amended hexactly
    exact carries_of_exactly (hreadable hrequest).1 (hreadable hrequest).2 hexactly
  · intro request _ amended hdiffers
    exact carries_of_differs hdiffers

end Changes

/-- A pending limit order at `price`. -/
def pendingLimit (price : Double) : ProtoOAOrder where
  orderId := 4
  tradeData := { symbolId := 1, volume := 1000, tradeSide := .buy }
  orderType := .limit
  limitPrice? := some price
  relativeStopLoss? := some 500000

/-- Doubles that write each price as it is. -/
theorem precise_finite (precision : ℕ) : Precise precision .finite := fun price _ _ =>
  ⟨price, rfl, by rw [sub_self, abs_zero, zero_mul]; exact abs_nonneg price⟩

/-- A modify of the price alone sends the volume and the stop-loss again. -/
theorem pendingLimit_changes_only_asked :
    amendOrder .finite 2 (pendingLimit (.finite 95)) { price := some 96 } =
        .ok (some
          { orderId := 4, volume := 1000, limitPrice? := some (.finite 96),
            relativeStopLoss? := some 500000, guaranteedStopLoss? := some false,
            trailingStopLoss? := some false }) ∧
      ChangesOnlyAsked .finite 2 (pendingLimit (.finite 95)) { price := some 96 } := by
  refine ⟨by decide +kernel, amendOrder_changes_only_asked .finite 2 (precise_finite 2)
    (pendingLimit (.finite 95)) { price := some 96 }
    ⟨⟨some 95, by decide +kernel⟩, ⟨none, by decide +kernel⟩⟩ ⟨?_, ?_, ?_⟩⟩
  · intro quantity hnone
    cases hnone
  · intro price hprice
    cases hprice
    unfold FifteenDigits
    norm_num
  · intro price hnone
    cases hnone

/-- The doubles of prices, with that of 9007199254740.993. -/
def sixteenDigits (price : ℚ) : Double :=
  if price = 9007199254740993 / 1000 then .finite (9007199254740992 / 1000) else .finite price

/-- No order carries a request at a price that `price_of` refuses, not even the one it states; a quantity
of 30 digits is rounded to the context's 28 before it is found to be whole; and a price of 16 digits is
rounded to a double that reads as another. -/
theorem beyond_reading :
    ¬ ChangesOnlyAsked .finite 2 (pendingLimit (.infinite false)) { quantity := some 5 } ∧
      ¬ ChangesOnlyAsked .finite 2 (pendingLimit (.finite 95))
        { quantity := some (20000000000000 + 1 / 10 ^ 16) } ∧
      ¬ ChangesOnlyAsked sixteenDigits 3 (pendingLimit (.finite 95))
        { price := some (9007199254740993 / 1000) } := by
  refine ⟨?_, ?_, ?_⟩
  · intro h
    have hrequest : amendOrder .finite 2 (pendingLimit (.infinite false)) { quantity := some 5 } =
        .ok (some
          { orderId := 4, volume := 500, limitPrice? := some (.infinite false),
            relativeStopLoss? := some 500000, guaranteedStopLoss? := some false,
            trailingStopLoss? := some false }) := by
      decide +kernel
    have hcarries := h.holds _ hrequest
      { pendingLimit (.infinite false) with
        tradeData := { symbolId := 1, volume := 500, tradeSide := .buy } }
      ⟨rfl, fun _ => rfl, fun hstop => by cases hstop⟩
    revert hcarries
    decide +kernel
  · intro h
    have hrequest : amendOrder .finite 2 (pendingLimit (.finite 95))
        { quantity := some (20000000000000 + 1 / 10 ^ 16) } =
          .ok (some
            { orderId := 4, volume := 2000000000000000, limitPrice? := some (.finite 95),
              relativeStopLoss? := some 500000, guaranteedStopLoss? := some false,
              trailingStopLoss? := some false }) := by
      decide +kernel
    have hvolume := (h.asks _ hrequest).volume
    revert hvolume
    decide +kernel
  · intro h
    have hrequest : amendOrder sixteenDigits 3 (pendingLimit (.finite 95))
        { price := some (9007199254740993 / 1000) } =
          .ok (some
            { orderId := 4, volume := 1000, limitPrice? := some (.finite (9007199254740992 / 1000)),
              relativeStopLoss? := some 500000, guaranteedStopLoss? := some false,
              trailingStopLoss? := some false }) := by
      decide +kernel
    have hlimit := (h.asks _ hrequest).limit
    have hreads : readsAs 3 (some (.finite (9007199254740992 / 1000))) (9007199254740993 / 1000) = true :=
      hlimit
    revert hreads
    decide +kernel

end OrderTranslation

end NautilusCtrader
