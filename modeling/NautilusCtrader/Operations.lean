import NautilusCtrader.Common.Dict
import NautilusCtrader.VenueRecords

/-!
# What the node has asked of the broker and is still waiting on

The execution client keeps it; the venue model and reconciliation read it to tell the node's own
changes from a trader's.
-/

namespace NautilusCtrader

open Common

/-- A close in flight: its position, its venue volume, and its anchor in broker ms. -/
structure CloseInFlight where
  positionId : ℤ
  volume : ℕ
  anchorMs : ℤ
deriving DecidableEq, Repr

/-- Whether an order of `volume` on `positionId`, created at `createdMs`, can be the close's. -/
def CloseInFlight.fits (close : CloseInFlight) (positionId : ℤ) (volume : ℕ) (createdMs : ℤ) : Bool :=
  close.positionId = positionId && close.volume = volume &&
    -- Created before the node last heard from the broker: somebody else's.
    (close.anchorMs < 0 || close.anchorMs < createdMs)

/-- The node's level amends and closes the broker has not answered yet. -/
structure OperationsInFlight where
  amends : Dict ℤ ℕ := Dict.empty
  /-- The levels of the amends whose answers were lost, oldest first, by position. -/
  lostAmends : Dict ℤ (List Levels) := Dict.empty
  /-- The closes by client order id. -/
  closes : Dict String CloseInFlight := Dict.empty
  /-- The broker order each close's own answer named, by client order id. -/
  answers : Dict String ℤ := Dict.empty
deriving DecidableEq

namespace OperationsInFlight

def amending (ops : OperationsInFlight) (positionId : ℤ) : Bool := ops.amends.contains positionId

/-- Whether `levels` are the oldest lost amend's, which is then forgotten; any other levels forget
them all. -/
def lateAmend (ops : OperationsInFlight) (positionId : ℤ) (levels : Levels) :
    OperationsInFlight × Bool :=
  let popped := ops.lostAmends.erase positionId
  match (ops.lostAmends.get? positionId).getD [] with
  | [] => ({ ops with lostAmends := popped }, false)
  | expected :: rest =>
    if expected ≠ levels then ({ ops with lostAmends := popped }, false)
    else if rest = [] then ({ ops with lostAmends := popped }, true)
    else ({ ops with lostAmends := popped.set positionId rest }, true)

/-- Record a close sent when the newest broker time the node had seen was `anchorMs`; `-1`: no bound. -/
def beginClose (ops : OperationsInFlight) (clientOrderId : String) (positionId : ℤ) (volume : ℕ)
    (anchorMs : ℤ) : OperationsInFlight :=
  { ops with closes := ops.closes.set clientOrderId ⟨positionId, volume, anchorMs⟩ }

/-- The close's own answer named broker order `orderId`: that order is the close's. -/
def answered (ops : OperationsInFlight) (clientOrderId : String) (orderId : ℤ) :
    OperationsInFlight :=
  if ops.closes.contains clientOrderId then
    { ops with answers := ops.answers.set clientOrderId orderId }
  else ops

/-- The close that the closing order `orderId` carries out: the one its answer named, else the first
unanswered one it fits. -/
def closing (ops : OperationsInFlight) (positionId : ℤ) (volume : ℕ) (createdMs orderId : ℤ) :
    Option String :=
  let named := ops.answers.entries.find? fun entry => entry.2 = orderId
  let fitting := ops.closes.entries.find? fun entry =>
    !ops.answers.contains entry.1 && entry.2.fits positionId volume createdMs
  (named.map Prod.fst).or (fitting.map Prod.fst)

end OperationsInFlight

end NautilusCtrader
