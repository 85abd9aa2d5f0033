import Mathlib.Data.Rat.Defs

/-!
# The broker's messages

The fields the execution side reads of the protocol's messages, under their protocol names.

* An optional field whose presence the code asks for is an `Option` with a name ending in `?`, and
  the accessor without the `?` gives the schema's default for an absent one.
* Any other optional field holds what the code reads of it, the default when it is not set.
* Ids and times are integers. A venue volume counts hundredths of a unit and is never negative.
-/

namespace NautilusCtrader

/-- A double the venue sent, as the code reads it: the decimal its shortest form writes, or one of
the values `math.isfinite` refuses. -/
inductive Double
  | finite (value : ℚ)
  | infinite (negative : Bool)
  | nan
deriving DecidableEq, Repr

instance : Inhabited Double := ⟨.finite 0⟩

inductive ProtoOATradeSide
  | buy | sell
deriving DecidableEq, Repr, Inhabited

inductive ProtoOAOrderType
  | market | limit | stop | stopLossTakeProfit | marketRange | stopLimit
deriving DecidableEq, Repr, Inhabited

inductive ProtoOAOrderStatus
  | accepted | filled | rejected | expired | cancelled
deriving DecidableEq, Repr, Inhabited

inductive ProtoOATimeInForce
  | goodTillDate | goodTillCancel | immediateOrCancel | fillOrKill | marketOnOpen
deriving DecidableEq, Repr

/-- `ProtoOATimeInForce.Name`. -/
def ProtoOATimeInForce.name : ProtoOATimeInForce → String
  | .goodTillDate => "GOOD_TILL_DATE"
  | .goodTillCancel => "GOOD_TILL_CANCEL"
  | .immediateOrCancel => "IMMEDIATE_OR_CANCEL"
  | .fillOrKill => "FILL_OR_KILL"
  | .marketOnOpen => "MARKET_ON_OPEN"

inductive ProtoOAOrderTriggerMethod
  | trade | opposite | doubleTrade | doubleOpposite
deriving DecidableEq, Repr, Inhabited

inductive ProtoOAPositionStatus
  | open | closed | created | error
deriving DecidableEq, Repr, Inhabited

inductive ProtoOAExecutionType
  | orderAccepted | orderFilled | orderReplaced | orderCancelled | orderExpired | orderRejected
  | orderCancelRejected | swap | depositWithdraw | orderPartialFill | bonusDepositWithdraw
deriving DecidableEq, Repr, Inhabited

structure ProtoOATradeData where
  symbolId : ℤ
  volume : ℕ
  tradeSide : ProtoOATradeSide
  openTimestamp? : Option ℤ := none
  label : String := ""
  comment : String := ""
  guaranteedStopLoss : Bool := false
deriving DecidableEq, Repr, Inhabited

structure ProtoOAOrder where
  orderId : ℤ
  /-- Required by the schema, so every order has it. -/
  tradeData : ProtoOATradeData
  orderType : ProtoOAOrderType
  orderStatus : ProtoOAOrderStatus := .accepted
  expirationTimestamp? : Option ℤ := none
  executedVolume? : Option ℕ := none
  utcLastUpdateTimestamp? : Option ℤ := none
  closingOrder : Bool := false
  limitPrice? : Option Double := none
  stopPrice? : Option Double := none
  timeInForce? : Option ProtoOATimeInForce := none
  positionId? : Option ℤ := none
  isStopOut : Bool := false
  slippageInPoints? : Option ℤ := none
  stopTriggerMethod : ProtoOAOrderTriggerMethod := .trade
  stopLoss? : Option Double := none
  takeProfit? : Option Double := none
  relativeStopLoss? : Option ℤ := none
  relativeTakeProfit? : Option ℤ := none
  trailingStopLoss : Bool := false
deriving DecidableEq, Repr, Inhabited

def ProtoOAOrder.utcLastUpdateTimestamp (order : ProtoOAOrder) : ℤ :=
  order.utcLastUpdateTimestamp?.getD 0

def ProtoOAOrder.positionId (order : ProtoOAOrder) : ℤ := order.positionId?.getD 0

structure ProtoOAPosition where
  positionId : ℤ
  tradeData : ProtoOATradeData
  positionStatus : ProtoOAPositionStatus
  price : Double := .finite 0
  stopLoss? : Option Double := none
  takeProfit? : Option Double := none
  utcLastUpdateTimestamp : ℤ := 0
  guaranteedStopLoss : Bool := false
  stopLossTriggerMethod : ProtoOAOrderTriggerMethod := .trade
  trailingStopLoss : Bool := false
deriving DecidableEq, Repr, Inhabited

structure ProtoOAClosePositionDetail where
  grossProfit : ℤ
  swap : ℤ
  commission : ℤ
  balance : ℤ
  balanceVersion? : Option ℤ := none
  moneyDigits? : Option ℕ := none
  pnlConversionFee : ℤ := 0
deriving DecidableEq, Repr

/-- One that closed something has a closing detail, which only the balance history reads. -/
structure ProtoOADeal where
  dealId : ℤ
  orderId : ℤ
  positionId : ℤ
  filledVolume : ℕ
  symbolId : ℤ
  executionTimestamp : ℤ
  executionPrice : Double := .finite 0
  tradeSide : ProtoOATradeSide
  commission : ℤ := 0
  moneyDigits? : Option ℕ := none
  closePositionDetail? : Option ProtoOAClosePositionDetail := none
deriving DecidableEq, Repr

/-- The deal a message without one reads as. -/
instance : Inhabited ProtoOADeal :=
  ⟨{ dealId := 0, orderId := 0, positionId := 0, filledVolume := 0, symbolId := 0,
     executionTimestamp := 0, tradeSide := .buy }⟩

structure ProtoOAExecutionEvent where
  executionType : ProtoOAExecutionType
  position? : Option ProtoOAPosition := none
  order? : Option ProtoOAOrder := none
  deal? : Option ProtoOADeal := none
  errorCode : String := ""
  isServerEvent : Bool := false
deriving DecidableEq, Repr

def ProtoOAExecutionEvent.deal (event : ProtoOAExecutionEvent) : ProtoOADeal :=
  event.deal?.getD default

structure ProtoOATrailingSLChangedEvent where
  positionId : ℤ
  orderId : ℤ
  stopPrice : Double
  utcLastUpdateTimestamp : ℤ
deriving DecidableEq, Repr

/-- The levels of a position as they should stand. -/
structure ProtoOAAmendPositionSLTPReq where
  positionId : ℤ
  stopLoss? : Option Double := none
  takeProfit? : Option Double := none
  guaranteedStopLoss? : Option Bool := none
  trailingStopLoss? : Option Bool := none
  stopLossTriggerMethod? : Option ProtoOAOrderTriggerMethod := none
deriving DecidableEq, Repr

/-- A pending order as it should stand. -/
structure ProtoOAAmendOrderReq where
  orderId : ℤ
  volume : ℕ
  limitPrice? : Option Double := none
  stopPrice? : Option Double := none
  expirationTimestamp? : Option ℤ := none
  stopLoss? : Option Double := none
  takeProfit? : Option Double := none
  slippageInPoints? : Option ℤ := none
  relativeStopLoss? : Option ℤ := none
  relativeTakeProfit? : Option ℤ := none
  guaranteedStopLoss? : Option Bool := none
  trailingStopLoss? : Option Bool := none
  stopTriggerMethod? : Option ProtoOAOrderTriggerMethod := none
deriving DecidableEq, Repr

structure ProtoOAReconcileRes where
  position : List ProtoOAPosition := []
  order : List ProtoOAOrder := []
deriving DecidableEq, Repr

/-! ## Balance history -/

/-- Only a deposit by its type is told from the others. -/
inductive ProtoOAChangeBalanceType
  | balanceDeposit | other (number : ℕ)
deriving DecidableEq, Repr

structure ProtoOADepositWithdraw where
  operationType : ProtoOAChangeBalanceType
  balanceHistoryId : ℤ
  balance : ℤ
  delta : ℤ
  changeBalanceTimestamp : ℤ
  balanceVersion? : Option ℤ := none
  moneyDigits? : Option ℕ := none
deriving DecidableEq, Repr

structure ProtoOATrader where
  balance : ℤ
  balanceVersion? : Option ℤ := none
  registrationTimestamp? : Option ℤ := none
  moneyDigits? : Option ℕ := none
  depositAssetId : ℤ := 0
deriving DecidableEq, Repr

def ProtoOATrader.moneyDigits (trader : ProtoOATrader) : ℕ := trader.moneyDigits?.getD 0

end NautilusCtrader
