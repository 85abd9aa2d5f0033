import NautilusCtrader.Common.Lifecycle
import NautilusCtrader.LegIds
import NautilusCtrader.VenueBook.Runs

/-!
# What one call can do to a position's legs

A leg is told of under a `LegKey`: the node's by its client order id, a foreign one by its venue order
id. `Move` lists everything a handler can do to the legs of a position, each with what it tells. Every
handler is a chain of moves, and every invariant about legs is derived from the moves alone.

An `Act` names a move. The acts that bring a leg to life or fill one are loud: a chain `Moves may` has
only quiet acts and those that `may` allows, so that a handler's lemma also says when it can do what.
-/

namespace NautilusCtrader

open Common

/-- Which leg a record is about. -/
inductive LegKey
  | node (clientOrderId : String)
  | foreign (venueOrderId : String)
deriving DecidableEq, Repr

/-- The leg a record is about, if it is about one. -/
def Record.leg? : Record → Option LegKey
  | .orderEvent event =>
    match event.venueOrderId, event.clientOrderId with
    | some venueOrderId, some clientOrderId =>
      if isLegId venueOrderId then some (.node clientOrderId) else none
    | some venueOrderId, none => if isLegId venueOrderId then some (.foreign venueOrderId) else none
    | none, clientOrderId => clientOrderId.map .node
  | .externalOrder order =>
    if isLegId order.venueOrderId then some (.foreign order.venueOrderId) else none
  | _ => none

/-- What a record tells of its order. -/
def Record.news : Record → Option (News ℚ)
  | .orderEvent event =>
    some (match event.kind with
      | .accepted => .accepted (event.quantity.getD 0)
      | .updated => .updated (event.quantity.getD 0)
      | .filled => .filled ((event.fill.map Fill.units).getD 0)
      | .canceled => .canceled
      | .expired => .canceled
      | .rejected => .rejected)
  | .externalOrder order => some (.opened order.units)
  | _ => none

/-- What `records` tell of one leg, in order. -/
def newsOf (key : LegKey) (records : List Record) : List (News ℚ) :=
  (records.filter fun record => record.leg? = some key).filterMap Record.news

/-- `records` tell nothing of any leg. -/
structure Legless (records : List Record) : Prop where
  leg?_eq_none : ∀ record ∈ records, record.leg? = none

/-- What can happen to a living leg. -/
inductive LegChange
  | accept (quantity : ℕ)
  | update (quantity : ℕ)
  | fill (volume : ℕ)
  | cancel
  | reject
deriving DecidableEq, Repr

namespace LegChange

/-- How a change is told. -/
def news : LegChange → News ℚ
  | accept quantity => .accepted (volumeToUnits quantity)
  | update quantity => .updated (volumeToUnits quantity)
  | fill volume => .filled (volumeToUnits volume)
  | cancel => .canceled
  | reject => .rejected

def isFill : LegChange → Bool
  | fill _ => true
  | _ => false

end LegChange

/-- The node's leg after a change. -/
def Leg.after (leg : Leg) : LegChange → Leg
  | .accept quantity => { leg with accepted := true, quantity }
  | .update quantity => { leg with quantity }
  | .fill volume =>
    { leg with filled := leg.filled + volume, alive := leg.filled + volume < leg.quantity }
  | .cancel => { leg with alive := false }
  | .reject => { leg with alive := false }

/-- The changes a living leg of the node's can go through. -/
def Leg.Allows (leg : Leg) : LegChange → Prop
  | .accept quantity => leg.accepted = false ∧ leg.filled ≤ quantity
  | .update quantity => leg.accepted = true ∧ leg.filled ≤ quantity
  | .fill _ => True
  | .cancel => True
  | .reject => leg.accepted = false

/-- A foreign leg after a change. -/
def ForeignLeg.after (leg : ForeignLeg) : LegChange → ForeignLeg
  | .accept _ => leg
  | .update quantity => { leg with quantity }
  | .fill volume =>
    { leg with filled := leg.filled + volume, alive := leg.filled + volume < leg.quantity }
  | .cancel => { leg with alive := false }
  | .reject => leg

/-- The changes a living foreign leg can go through: a fill never exceeds its quantity. -/
def ForeignLeg.Allows (leg : ForeignLeg) : LegChange → Prop
  | .update quantity => leg.filled ≤ quantity
  | .fill volume => leg.filled + volume ≤ leg.quantity
  | .cancel => True
  | _ => False

/-- The name of a move. -/
inductive Act
  | other
  | take (order : ProtoOAOrder)
  | takeEnded (order : ProtoOAOrder)
  | endSilently
  | node (level : Level) (leg : Leg) (change : LegChange)
  | openForeign (entryOrderId : ℤ) (level : Level)
  | foreign (level : Level) (leg : ForeignLeg) (change : LegChange)

/-- Whether a move neither takes an entry, opens a leg nor fills one. -/
def Act.quiet : Act → Bool
  | .other | .endSilently => true
  | .node _ _ change => !change.isFill
  | .foreign _ _ change => !change.isFill
  | .take _ | .takeEnded _ | .openForeign _ _ => false

open VenueBook

/-- The protective order a position holds is not retired. -/
def Current (p : Position) : Prop :=
  ∀ orderId, p.protectiveOrderId = some orderId → orderId ∉ p.retiredProtectiveIds

/-- The parts of a position that decide its legs are the same, and its protective order is current. -/
structure SameLegs (p q : Position) : Prop where
  positionId : q.positionId = p.positionId
  entryOrderId : q.entryOrderId = p.entryOrderId
  entryClientOrderId : q.entryClientOrderId = p.entryClientOrderId
  legs : q.legs = p.legs
  foreignLegs : q.foreignLegs = p.foreignLegs
  current : Current p → Current q

/-- `record` introduces the foreign leg `leg` of the position `p`. -/
def Opens (p : Position) (leg : ForeignLeg) (record : Record) : Prop :=
  ∃ order, record = .externalOrder order ∧ order.venueOrderId = leg.venueOrderId ∧
    order.venuePositionId = some (toString p.positionId) ∧
    order.units = volumeToUnits leg.quantity

/-- One thing a handler does to a position, and what it tells. -/
inductive Move : Position → Act → List Record → Position → Prop
  /-- Anything that leaves the entry and the legs alone. -/
  | other {p q : Position} {told : List Record} (hsame : SameLegs p q) (htold : Legless told) :
      Move p .other told q
  /-- The entry is learnt, and the legs its record names wait for their levels. -/
  | take {p : Position} {told : List Record} (order : ProtoOAOrder) (hentry : p.entryOrderId = none)
      (htold : Legless told) : Move p (.take order) told (adopt p order false ∅).1
  /-- An entry that has ended is learnt again: its legs are not live. -/
  | takeEnded {p : Position} {told : List Record} (order : ProtoOAOrder)
      (hentry : p.entryOrderId = none) (htold : Legless told) :
      Move p (.takeEnded order) told (endLegs (adopt p order false ∅).1)
  | endSilently {p : Position} : Move p .endSilently [] (endLegs p)
  | node {p : Position} {level : Level} {leg : Leg} {record : Record} (change : LegChange)
      (hleg : p.legs.get? level = some leg) (halive : leg.alive) (hallows : leg.Allows change)
      (hkey : record.leg? = some (.node leg.clientOrderId))
      (hnews : record.news = some change.news) :
      Move p (.node level leg change) [record]
        { p with legs := p.legs.set level (leg.after change) }
  /-- A level of a foreign position with no living leg gets one, of a generation not yet used. -/
  | openForeign {p : Position} {entryOrderId : ℤ} {level : Level} {leg : ForeignLeg}
      {record : Record} (hentry : p.entryOrderId = some entryOrderId)
      (hclient : p.entryClientOrderId = none)
      (hnone : (p.foreignLegs.get? level).filter ForeignLeg.alive = none)
      (hid : leg.venueOrderId = legVenueOrderId entryOrderId level leg.generation)
      (hgeneration : ∀ last, p.foreignLegs.get? level = some last → last.generation < leg.generation)
      (halive : leg.alive) (hfilled : leg.filled = 0)
      (hopens : Opens p leg record) :
      Move p (.openForeign entryOrderId level) [record]
        { p with foreignLegs := p.foreignLegs.set level leg }
  | foreign {p : Position} {level : Level} {leg : ForeignLeg} {record : Record} (change : LegChange)
      (hleg : p.foreignLegs.get? level = some leg) (halive : leg.alive) (hallows : leg.Allows change)
      (hkey : isLegId leg.venueOrderId → record.leg? = some (.foreign leg.venueOrderId))
      (hnews : record.news = some change.news) :
      Move p (.foreign level leg change) [record]
        { p with foreignLegs := p.foreignLegs.set level (leg.after change) }

/-- A chain of moves whose loud ones `may` allows, and everything it tells. -/
inductive Moves (may : Act → Prop) : Position → List Record → Position → Prop
  | refl (p : Position) : Moves may p [] p
  | cons {p q r : Position} {act : Act} {told later : List Record} (hmove : Move p act told q)
      (hmay : act.quiet = true ∨ may act) (hrest : Moves may q later r) :
      Moves may p (told ++ later) r

namespace Moves

variable {may : Act → Prop} {p q r : Position} {told later : List Record}

/-- Two chains of moves are one. -/
theorem trans (h : Moves may p told q) (h' : Moves may q later r) : Moves may p (told ++ later) r := by
  induction h with
  | refl p => exact h'
  | cons hmove hmay _ ih =>
    rw [List.append_assoc]
    exact .cons hmove hmay (ih h')

/-- One move is a chain. -/
theorem single {act : Act} (hmove : Move p act told q) (hmay : act.quiet = true ∨ may act) :
    Moves may p told q := by
  rw [← List.append_nil told]
  exact .cons hmove hmay (.refl q)

/-- Moves that fewer acts allow are allowed by more. -/
theorem mono {may' : Act → Prop} (h : Moves may p told q) (hmay : ∀ act, may act → may' act) :
    Moves may' p told q := by
  induction h with
  | refl p => exact .refl p
  | cons hmove hact _ ih => exact .cons hmove (hact.imp_right (hmay _)) ih

/-- Changing nothing about the legs, and telling nothing of them. -/
theorem of_same (hsame : SameLegs p q) (htold : Legless told) : Moves may p told q :=
  single (.other hsame htold) (.inl rfl)

/-- Telling something that is about no leg. -/
theorem tell (htold : Legless told) : Moves may p told p := of_same ⟨rfl, rfl, rfl, rfl, rfl, id⟩ htold

end Moves

end NautilusCtrader
