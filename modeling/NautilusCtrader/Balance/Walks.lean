import NautilusCtrader.BalanceHistory
import NautilusCtrader.History

/-!
# The history a checkpoint's walk reads

`changeOfDeal` and `changeOfCashFlow` read a balance change from a message. A `Walk` gathers the
changes of the windows read back toward a checkpoint, and `Walk.value` makes the checkpoint's value of
them.
-/

namespace NautilusCtrader

open Common

namespace BalanceHistory

/-! ## The changes of messages -/

/-- `MissingField.field`. -/
inductive MissingField
  | balanceVersion | moneyDigits
deriving DecidableEq, Repr

/-- `_required`, for the field `field`. -/
def required {α : Type} (field : MissingField) : Option α → Except MissingField α
  | some value => .ok value
  | none => .error field

/-- `change_of_deal`: the change a closing deal made, or `none` for a deal that closed nothing. -/
def changeOfDeal (deal : ProtoOADeal) : Except MissingField (Option BalanceChange) :=
  match deal.closePositionDetail? with
  | none => .ok none
  | some detail => do
    let version ← required .balanceVersion detail.balanceVersion?
    let moneyDigits ← required .moneyDigits detail.moneyDigits?
    return some {
      tsMs := deal.executionTimestamp
      version
      balance := detail.balance
      delta := some (detail.grossProfit + detail.swap + detail.commission + detail.pnlConversionFee)
      moneyDigits
      cashFlow := false
      deposit := none }

/-- `change_of_cash_flow`: the change a cash-flow operation made. -/
def changeOfCashFlow (operation : ProtoOADepositWithdraw) : Except MissingField BalanceChange := do
  let version ← required .balanceVersion operation.balanceVersion?
  let moneyDigits ← required .moneyDigits operation.moneyDigits?
  return {
    tsMs := operation.changeBalanceTimestamp
    version
    balance := operation.balance
    delta := some operation.delta
    moneyDigits
    cashFlow := true
    deposit := some (operation.operationType = .balanceDeposit) }

/-- An item of the account's history. -/
inductive Item
  | deal (deal : ProtoOADeal)
  | cashFlow (operation : ProtoOADepositWithdraw)
deriving DecidableEq, Repr

/-- The key a walk holds an item's change under: its kind and its id. -/
def Item.key : Item → Bool × ℤ
  | .deal closing => (false, closing.dealId)
  | .cashFlow operation => (true, operation.balanceHistoryId)

def Item.tsMs : Item → ℤ
  | .deal closing => closing.executionTimestamp
  | .cashFlow operation => operation.changeBalanceTimestamp

/-- The change an item states. -/
def Item.change? : Item → Except MissingField (Option BalanceChange)
  | .deal closing => changeOfDeal closing
  | .cashFlow operation => (changeOfCashFlow operation).map some

/-! ## Windows -/

/-- `WEEK_MS`. -/
def weekMs : ℤ := 604800000

/-- The loop of `weekly_windows`, for `fuel` windows at most. -/
def windowsFrom (toMs : ℤ) : ℕ → ℤ → List History.Window
  | 0, _ => []
  | fuel + 1, start =>
    if start < toMs then ⟨start, min (start + weekMs) toMs⟩ :: windowsFrom toMs fuel (min (start + weekMs) toMs)
    else []

/-- `weekly_windows`: the times from `fromMs` to `toMs` in windows of a week at most, oldest first. -/
def weeklyWindows (fromMs toMs : ℤ) : List History.Window :=
  windowsFrom toMs (((toMs - fromMs) / weekMs).toNat + 1) fromMs

/-! ## A walk -/

/-- `START_WINDOWS`. -/
def startWindows : ℕ := 8

/-- `MAX_WINDOWS`. -/
def maxWindows : ℕ := 156

/-- `GRACE_MS`. -/
def graceMs : ℤ := 30000

/-- `_Walk`: the history read back toward checkpoint `tMs`, from `coveredFromMs` to `upperMs`. -/
structure Walk where
  tMs : ℤ
  upperMs : ℤ
  coveredFromMs : ℤ
  windows : ℕ := 0
  changes : Dict (Bool × ℤ) BalanceChange := Dict.empty
  settled : Bool := false
  failure : Option Reason := none
deriving DecidableEq

/-- `_registration`. -/
def registration (trader : ProtoOATrader) : Option ℤ := trader.registrationTimestamp?

/-- `_newer`. -/
def newer (first second : ProtoOATrader) : ProtoOATrader :=
  if first.balanceVersion?.getD (-1) ≤ second.balanceVersion?.getD (-1) then second else first

namespace Walk

variable (walk : Walk)

/-- A field missing from an item makes the whole walk fail. -/
def missing : MissingField → Walk
  | .balanceVersion => { walk with failure := some .noChain }
  | .moneyDigits => { walk with failure := some .mixedScales }

/-- The changes of items one after another, as far as none lacks a field. -/
def gather (walk : Walk) : List Item → Walk
  | [] => walk
  | item :: rest =>
    match item.change? with
    | .error field => walk.missing field
    | .ok none => gather walk rest
    | .ok (some change) => gather { walk with changes := walk.changes.set item.key change } rest

/-- The rest of `_read` once both lists of a window are read. -/
def read (deals : List ProtoOADeal) (operations : List ProtoOADepositWithdraw) : Walk :=
  walk.gather (deals.map .deal ++ operations.map .cashFlow)

/-- `_read` gives up behind a deal list that did not end. -/
def incomplete : Walk := { walk with failure := some .incomplete }

/-- Whether `_walk_back` reads another window. -/
def goesBack (limit : ℕ) : Bool :=
  !walk.settled && walk.failure.isNone && decide (walk.windows < limit)

/-- The next window back. -/
def windowBack : History.Window := ⟨max 0 (walk.coveredFromMs - weekMs), walk.coveredFromMs⟩

/-- The rest of a turn of `_walk_back` behind a read of the window from `start`. -/
def wentBack (start : ℤ) (trader : ProtoOATrader) : Walk :=
  let walk := { walk with coveredFromMs := start, windows := walk.windows + 1 }
  if walk.failure.isSome then walk
  else
    let found := balanceAt walk.tMs walk.changes.values walk.coveredFromMs (registration trader)
      ⟨0, 0, trader.moneyDigits⟩ (maxWindows ≤ walk.windows)
    { walk with settled := found ≠ .needEarlier }

/-- The newest version read, -1 without any. -/
def seen : ℤ := (walk.changes.values.map BalanceChange.version).max?.getD (-1)

/-- Whether `_top_up` reads the history since the walk began. -/
def toppedUp (trader : ProtoOATrader) : Bool :=
  walk.settled && walk.failure.isNone && trader.balanceVersion?.any (walk.seen < ·)

/-- `_value`; `none` where its assertion fails. -/
def value (trader : ProtoOATrader) : Option CheckpointValue :=
  let unavailable (reason : Reason) : CheckpointValue :=
    ⟨.unavailable, some walk.tMs, none, some reason, none, trader.moneyDigits?⟩
  match walk.failure, trader.balanceVersion?, trader.moneyDigits? with
  | some reason, _, _ => some (unavailable reason)
  | none, none, _ => some (unavailable .noChain)
  | none, some _, none => some (unavailable .mixedScales)
  | none, some version, some digits =>
    match balanceAt walk.tMs walk.changes.values walk.coveredFromMs (registration trader)
        ⟨trader.balance, version, digits⟩ (!walk.settled || decide (maxWindows ≤ walk.windows)) with
    | .value value => some value
    | .needEarlier => none

/-- The value of a walk that a request or the rebuild failed for. -/
def requestFailed (digits : Option ℕ) : CheckpointValue :=
  ⟨.unavailable, some walk.tMs, none, some .requestFailed, none, digits⟩

end Walk

/-- `_with_deposit`: the value with the first deposit the forward walk found. -/
def withDeposit (found : Option BalanceChange) (value : CheckpointValue) (registrationMs : Option ℤ) :
    CheckpointValue :=
  if registrationMs.isNone || value.reason = some .mixedScales then value
  else
    match found with
    | none => { value with firstDeposit := none }
    | some deposit =>
      if some deposit.moneyDigits ≠ value.moneyDigits then { value with firstDeposit := none }
      else { value with firstDeposit := some deposit.balance }

end BalanceHistory

end NautilusCtrader
