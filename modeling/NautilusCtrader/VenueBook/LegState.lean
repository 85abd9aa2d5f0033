import NautilusCtrader.VenueBook.Calls

/-!
# What always holds of a position's legs

`Sound` is the invariant of a position's legs: whose they are, how they are named, and that a living
leg is never filled beyond its quantity; with it goes that the protective order held is not retired. Every move keeps it, so every position of a reachable book has
it.
-/

namespace NautilusCtrader

open Common OrderRecord

namespace VenueBook

/-- The invariant of a position's legs. -/
structure Sound (p : Position) : Prop where
  unlearnt : p.entryOrderId = none → p.entryClientOrderId = none
  nodeLegs : p.entryClientOrderId = none → p.legs = {}
  foreignLegs : p.entryClientOrderId ≠ none → ∀ level, p.foreignLegs.get? level = none
  foreignId : ∀ level leg, p.foreignLegs.get? level = some leg →
    ∃ entryOrderId, p.entryOrderId = some entryOrderId ∧
      leg.venueOrderId = legVenueOrderId entryOrderId level leg.generation
  waiting : ∀ level leg, p.legs.get? level = some leg → leg.alive → leg.accepted = false →
    leg.quantity = 0 ∧ leg.filled = 0
  covered : ∀ level leg, p.legs.get? level = some leg → leg.alive → leg.filled ≤ leg.quantity
  coveredForeign : ∀ level leg, p.foreignLegs.get? level = some leg → leg.alive →
    leg.filled ≤ leg.quantity
  current : Current p

/-- Before its entry is learnt a position has no legs. -/
theorem Sound.no_legs {p : Position} (h : Sound p) (hentry : p.entryOrderId = none) :
    p.legs = {} ∧ ∀ level, p.foreignLegs.get? level = none := by
  refine ⟨h.nodeLegs (h.unlearnt hentry), fun level => ?_⟩
  cases hleg : p.foreignLegs.get? level with
  | none => rfl
  | some leg =>
    obtain ⟨entryOrderId, hid, -⟩ := h.foreignId level leg hleg
    rw [hentry] at hid
    cases hid

/-- Without legs there is none at a level. -/
theorem get?_no_legs (level : Level) : ({} : ByLevel Leg).get? level = none := by
  cases level <;> rfl

/-- Where no protective order was retired, the one held is current. -/
theorem current_of_unretired {p : Position} (h : p.retiredProtectiveIds = ∅) : Current p := by
  intro orderId _
  rw [h]
  exact Finset.notMem_empty orderId

/-- A blank position is sound. -/
theorem sound_of_blank {positionId : ℤ} {p : Position} (h : Blank positionId p) : Sound p where
  unlearnt _ := h.entryClientOrderId
  nodeLegs _ := h.legs
  foreignLegs _ level := by rw [h.foreignLegs]; rfl
  foreignId level leg hleg := by rw [h.foreignLegs] at hleg; cases hleg
  waiting level leg hleg := by rw [h.legs, get?_no_legs] at hleg; cases hleg
  covered level leg hleg := by rw [h.legs, get?_no_legs] at hleg; cases hleg
  coveredForeign level leg hleg := by rw [h.foreignLegs] at hleg; cases hleg
  current := current_of_unretired h.retired

/-- Soundness is read off the legs. -/
theorem Sound.congr {p q : Position} (h : Sound p) (hsame : SameLegs p q) : Sound q := by
  obtain ⟨-, hentry, hclient, hlegs, hforeign, hcurrent⟩ := hsame
  constructor
  · rw [hentry, hclient]; exact h.unlearnt
  · rw [hclient, hlegs]; exact h.nodeLegs
  · rw [hclient, hforeign]; exact h.foreignLegs
  · rw [hentry, hforeign]; exact h.foreignId
  · rw [hlegs]; exact h.waiting
  · rw [hlegs]; exact h.covered
  · rw [hforeign]; exact h.coveredForeign
  · exact hcurrent h.current

/-! ## Taking an entry -/

/-- The id a record gives the leg of a level. -/
def idOf (ids : LegIds) : Level → Option String
  | .stopLoss => ids.stopLoss
  | .takeProfit => ids.takeProfit

/-- A leg that is taken has the client order id it was recorded under. -/
theorem adoptedLeg_clientOrderId (p : Position) (restored : Bool) (waiting : Finset String)
    (level : Level) (clientOrderId : String) :
    (adoptedLeg p restored waiting level clientOrderId).clientOrderId = clientOrderId := by
  unfold adoptedLeg
  split
  · rfl
  · split <;> rfl

/-- A taken entry's legs are those its record names, each as `_adopt` gives it. -/
theorem adopt_leg {p : Position} {entry : ProtoOAOrder} {restored : Bool} {waiting : Finset String}
    {level : Level} {leg : Leg} (hp : p.legs = {})
    (h : (adopt p entry restored waiting).1.legs.get? level = some leg) :
    ∃ entryId ids, parseLabel entry.tradeData.label = some entryId ∧
      parseComment entry.tradeData.comment = some ids ∧ idOf ids level = some leg.clientOrderId ∧
      leg = adoptedLeg p restored waiting level leg.clientOrderId := by
  unfold adopt at h
  dsimp only at h
  split at h
  · rw [hp, get?_no_legs] at h
    cases h
  case h_2 entryId hlabel =>
    split at h
    · rw [hp, get?_no_legs] at h
      cases h
    case h_2 ids hcomment =>
      refine ⟨entryId, ids, hlabel, hcomment, ?_⟩
      rw [hp] at h
      cases hs : ids.stopLoss <;> cases ht : ids.takeProfit <;> cases level <;>
        simp [hs, ht, ByLevel.set] at h <;> subst h <;>
        simp only [idOf, hs, ht, adoptedLeg_clientOrderId, true_and] <;> rfl

/-- A leg just taken has no fills, and a quantity only once accepted. -/
theorem adoptedLeg_unfilled (p : Position) (restored : Bool) (waiting : Finset String)
    (level : Level) (clientOrderId : String) :
    (adoptedLeg p restored waiting level clientOrderId).filled = 0 ∧
      ((adoptedLeg p restored waiting level clientOrderId).accepted = false →
        (adoptedLeg p restored waiting level clientOrderId).quantity = 0) := by
  unfold adoptedLeg
  split
  · exact ⟨rfl, fun _ => rfl⟩
  · split
    · exact ⟨rfl, fun h => by cases h⟩
    · exact ⟨rfl, fun _ => rfl⟩

/-- Taking an entry leaves the levels current. -/
theorem current_adopt {p : Position} {entry : ProtoOAOrder} {restored : Bool}
    {waiting : Finset String} (h : Current p) : Current (adopt p entry restored waiting).1 := by
  unfold adopt
  dsimp only
  split
  · exact h
  · split <;> exact h

/-- A position without an entry may take one. -/
theorem sound_adopt {p : Position} {entry : ProtoOAOrder} {restored : Bool}
    {waiting : Finset String} (h : Sound p) (hentry : p.entryOrderId = none) :
    Sound (adopt p entry restored waiting).1 := by
  obtain ⟨-, hforeign, hid, hclient⟩ := adopt_entry p entry restored waiting
  obtain ⟨hlegs, hnone⟩ := h.no_legs hentry
  rw [h.unlearnt hentry, Option.or_none] at hclient
  have hadopted : ∀ level leg, (adopt p entry restored waiting).1.legs.get? level = some leg →
      leg.filled = 0 ∧ (leg.accepted = false → leg.quantity = 0) := by
    intro level leg hleg
    obtain ⟨-, -, -, -, -, hadopt⟩ := adopt_leg hlegs hleg
    rw [hadopt]
    exact adoptedLeg_unfilled ..
  constructor
  · intro hnot
    rw [hid] at hnot
    cases hnot
  · intro hlabel
    rw [hclient] at hlabel
    refine ByLevel.ext_get? fun level => ?_
    rw [get?_no_legs]
    cases hleg : (adopt p entry restored waiting).1.legs.get? level with
    | none => rfl
    | some leg =>
      obtain ⟨entryId, ids, hsome, -⟩ := adopt_leg hlegs hleg
      rw [hlabel] at hsome
      cases hsome
  · intro _ level
    rw [hforeign]
    exact hnone level
  · intro level leg hleg
    rw [hforeign, hnone] at hleg
    cases hleg
  · intro level leg hleg _ haccepted
    obtain ⟨hfilled, hquantity⟩ := hadopted level leg hleg
    exact ⟨hquantity haccepted, hfilled⟩
  · intro level leg hleg _
    rw [(hadopted level leg hleg).1]
    exact Nat.zero_le _
  · intro level leg hleg
    rw [hforeign, hnone] at hleg
    cases hleg
  · exact current_adopt h.current

/-- After `endLegs` no leg of the node's lives. -/
theorem endLegs_dead {p : Position} {level : Level} {leg : Leg}
    (h : (endLegs p).legs.get? level = some leg) : leg.alive = false := by
  unfold endLegs at h
  cases level
  · obtain ⟨a, -, rfl⟩ := Option.map_eq_some_iff.mp h
    rfl
  · obtain ⟨a, -, rfl⟩ := Option.map_eq_some_iff.mp h
    rfl

/-- Its legs may end. -/
theorem sound_endLegs {p : Position} (h : Sound p) : Sound (endLegs p) where
  unlearnt := h.unlearnt
  nodeLegs hclient := by
    show ByLevel.mk _ _ = _
    rw [h.nodeLegs hclient]
    rfl
  foreignLegs := h.foreignLegs
  foreignId := h.foreignId
  waiting level leg hleg halive := by
    rw [endLegs_dead hleg] at halive
    cases halive
  covered level leg hleg halive := by
    rw [endLegs_dead hleg] at halive
    cases halive
  coveredForeign := h.coveredForeign
  current := h.current

/-! ## The moves -/

/-- A living leg after a change it allows is as it must be. -/
theorem leg_after {leg : Leg} {change : LegChange} (hallows : leg.Allows change)
    (hwaiting : leg.accepted = false → leg.quantity = 0 ∧ leg.filled = 0)
    (hcovered : leg.filled ≤ leg.quantity) (halive : (leg.after change).alive) :
    ((leg.after change).accepted = false →
      (leg.after change).quantity = 0 ∧ (leg.after change).filled = 0) ∧
    (leg.after change).filled ≤ (leg.after change).quantity := by
  cases change with
  | accept quantity =>
    refine ⟨fun h => ?_, hallows.2⟩
    cases (h : true = false)
  | update quantity =>
    refine ⟨fun h => ?_, hallows.2⟩
    cases (hallows.1 : leg.accepted = true).symm.trans (h : leg.accepted = false)
  | fill volume =>
    have hlt : leg.filled + volume < leg.quantity := by simpa [Leg.after] using halive
    refine ⟨fun h => ?_, hlt.le⟩
    have := hwaiting h
    omega
  | cancel => cases halive
  | reject => cases halive

/-- A foreign position's level gets a leg of its name that is not filled beyond its quantity. -/
theorem Sound.setForeign {p : Position} {entryOrderId : ℤ} {level : Level} {leg : ForeignLeg}
    (h : Sound p) (hentry : p.entryOrderId = some entryOrderId)
    (hclient : p.entryClientOrderId = none)
    (hid : leg.venueOrderId = legVenueOrderId entryOrderId level leg.generation)
    (hcovered : leg.alive → leg.filled ≤ leg.quantity) :
    Sound { p with foreignLegs := p.foreignLegs.set level leg } := by
  have hget : ∀ l x, (p.foreignLegs.set level leg).get? l = some x →
      (l = level ∧ x = leg) ∨ p.foreignLegs.get? l = some x := by
    intro l x hx
    rcases Dict.get?_set_eq_some.mp hx with ⟨hl, hleg⟩ | ⟨-, hold⟩
    · exact .inl ⟨hl.symm, hleg.symm⟩
    · exact .inr hold
  refine ⟨h.unlearnt, h.nodeLegs, fun hnot => absurd hclient hnot, ?_, h.waiting, h.covered, ?_,
    h.current⟩
  · intro l x hx
    rcases hget l x hx with ⟨rfl, rfl⟩ | hold
    · exact ⟨entryOrderId, hentry, hid⟩
    · exact h.foreignId l x hold
  · intro l x hx hxalive
    rcases hget l x hx with ⟨rfl, rfl⟩ | hold
    · exact hcovered hxalive
    · exact h.coveredForeign l x hold hxalive

/-- A move keeps a position sound. -/
theorem sound_move {p q : Position} {act : Act} {told : List Record} (h : Sound p)
    (hmove : Move p act told q) : Sound q := by
  cases hmove with
  | other hsame htold => exact h.congr hsame
  | take order hentry htold => exact sound_adopt h hentry
  | takeEnded order hentry htold => exact sound_endLegs (sound_adopt h hentry)
  | endSilently => exact sound_endLegs h
  | @node level leg record change hleg halive hallows hkey hnews =>
    -- a leg after the move is the one that changed, or one from before
    have hget : ∀ l x, (p.legs.set level (leg.after change)).get? l = some x →
        (l = level ∧ x = leg.after change) ∨ p.legs.get? l = some x := by
      intro l x hx
      rw [ByLevel.get?_set] at hx
      split at hx
      case isTrue hl => exact .inl ⟨hl.symm, (Option.some.inj hx).symm⟩
      case isFalse => exact .inr hx
    refine ⟨h.unlearnt, fun hclient => ?_, h.foreignLegs, h.foreignId, ?_, ?_, h.coveredForeign,
      h.current⟩
    · rw [h.nodeLegs hclient, get?_no_legs] at hleg
      cases hleg
    · intro l x hx hxalive
      rcases hget l x hx with ⟨rfl, rfl⟩ | hold
      · exact (leg_after hallows (h.waiting _ leg hleg halive) (h.covered _ leg hleg halive)
          hxalive).1
      · exact h.waiting l x hold hxalive
    · intro l x hx hxalive
      rcases hget l x hx with ⟨rfl, rfl⟩ | hold
      · exact (leg_after hallows (h.waiting _ leg hleg halive) (h.covered _ leg hleg halive)
          hxalive).2
      · exact h.covered l x hold hxalive
  | @openForeign entryOrderId level leg record hentry hclient hnone hid hgeneration halive hfilled
      hopens =>
    exact h.setForeign hentry hclient hid fun _ => hfilled ▸ Nat.zero_le _
  | @foreign level leg record change hleg halive hallows hkey hnews =>
    obtain ⟨entryOrderId, hentry, hid⟩ := h.foreignId level leg hleg
    have hsame : (leg.after change).venueOrderId = leg.venueOrderId ∧
        (leg.after change).generation = leg.generation := by
      cases change <;> exact ⟨rfl, rfl⟩
    have hclient : p.entryClientOrderId = none := by
      by_contra hnot
      rw [h.foreignLegs hnot] at hleg
      cases hleg
    refine h.setForeign hentry hclient (by rw [hsame.1, hsame.2, hid]) fun hxalive => ?_
    cases change with
    | accept quantity => exact hallows.elim
    | update quantity => exact hallows
    | fill volume => exact hallows
    | cancel => cases hxalive
    | reject => exact hallows.elim

/-- So do several. -/
theorem sound_moves {may : Act → Prop} {p q : Position} {told : List Record} (h : Sound p)
    (hmoves : Moves may p told q) : Sound q := by
  induction hmoves with
  | refl p => exact h
  | cons hmove _ _ ih => exact ih (sound_move h hmove)

/-! ## The book -/

/-- Every position the book holds is sound, and held under its own id. -/
def AllSound (b : Book) : Prop :=
  ∀ positionId p, b.positions.get? positionId = some p → Sound p ∧ p.positionId = positionId

/-- A position that is found or made is sound. -/
theorem Found.sound {b : Book} (hb : AllSound b) {positionId : ℤ} {p : Position}
    (hp : Found b positionId p) : Sound p ∧ p.positionId = positionId := by
  rcases hp with hp | ⟨-, hblank⟩
  · exact hb positionId p hp
  · exact ⟨sound_of_blank hblank, hblank.positionId⟩

/-- A move leaves the position's id. -/
theorem move_positionId {p q : Position} {act : Act} {told : List Record}
    (hmove : Move p act told q) : q.positionId = p.positionId := by
  cases hmove with
  | other hsame htold => exact hsame.positionId
  | take order hentry htold => exact (adopt_entry ..).1
  | takeEnded order hentry htold => exact (adopt_entry ..).1
  | endSilently => rfl
  | node => rfl
  | openForeign => rfl
  | foreign => rfl

/-- So do several. -/
theorem moves_positionId {may : Act → Prop} {p q : Position} {told : List Record}
    (hmoves : Moves may p told q) : q.positionId = p.positionId := by
  induction hmoves with
  | refl p => rfl
  | cons hmove _ _ ih => exact ih.trans (move_positionId hmove)

/-- Every call keeps all positions sound. -/
theorem allSound_perform {b : Book} (hb : AllSound b) (operation : Operation) :
    AllSound (perform b operation).1 := by
  intro x p hx
  cases perform_changes b operation with
  | idle hsame htold => exact hb x p (hsame x ▸ hx)
  | @moved positionId p' q moved hp hmoves hq hothers htold =>
    by_cases hid : x = positionId
    · subst hid
      obtain rfl : q = p := by rw [hq] at hx; exact Option.some.inj hx
      obtain ⟨hsound, hown⟩ := hp.sound hb
      exact ⟨sound_moves hsound hmoves, (moves_positionId hmoves).trans hown⟩
    · exact hb x p (hothers x hid ▸ hx)
  | @dropped positionId p' q moved hp hmoves hq hothers htold =>
    by_cases hid : x = positionId
    · subst hid
      rw [hq] at hx
      cases hx
    · exact hb x p (hothers x hid ▸ hx)
  | passing hp hmoves hsame htold => exact hb x p (hsame x ▸ hx)

/-! ## Loading -/

/-- A position as `load` builds it before it opens foreign legs. -/
structure Listed (positionId : ℤ) (p : Position) : Prop where
  sound : Sound p
  positionId : p.positionId = positionId
  foreignLegs : p.foreignLegs = Dict.empty
  unfilled : ∀ level leg, p.legs.get? level = some leg → leg.filled = 0
  retired : p.retiredProtectiveIds = ∅

/-- Every position of a book being loaded is as `load` builds it. -/
def AllListed (b : Book) : Prop :=
  ∀ positionId p, b.positions.get? positionId = some p → Listed positionId p

/-- A blank position may be listed. -/
theorem listed_of_blank {positionId : ℤ} {p : Position} (h : Blank positionId p) :
    Listed positionId p where
  sound := sound_of_blank h
  positionId := h.positionId
  foreignLegs := h.foreignLegs
  unfilled level leg hleg := by rw [h.legs, get?_no_legs] at hleg; cases hleg
  retired := h.retired

/-- Taking an entry retires no protective order. -/
theorem adopt_retired {p : Position} {entry : ProtoOAOrder} {restored : Bool}
    {waiting : Finset String} :
    (adopt p entry restored waiting).1.retiredProtectiveIds = p.retiredProtectiveIds := by
  unfold adopt
  split
  · rfl
  · split <;> rfl

/-- A listed position may take its entry. -/
theorem listed_adopt {positionId : ℤ} {p : Position} {entry : ProtoOAOrder} {restored : Bool}
    {waiting : Finset String} (h : Blank positionId p) :
    Listed positionId (adopt p entry restored waiting).1 := by
  obtain ⟨hid, hforeign, -, -⟩ := adopt_entry p entry restored waiting
  refine ⟨sound_adopt (sound_of_blank h) h.entryOrderId, hid.trans h.positionId,
    hforeign.trans h.foreignLegs, fun level leg hleg => ?_, adopt_retired.trans h.retired⟩
  obtain ⟨-, -, -, -, -, hadopt⟩ := adopt_leg h.legs hleg
  rw [hadopt]
  exact (adoptedLeg_unfilled ..).1

/-- It may be restored. -/
theorem listed_restorePosition {waiting : Finset String} {orders : List ProtoOAOrder}
    {levels : Levels} {positionId : ℤ} {p : Position} (h : Blank positionId p) :
    Listed positionId (restorePosition waiting orders levels p).1 := by
  have hblank : Blank positionId { p with levels } :=
    ⟨h.positionId, h.entryOrderId, h.entryClientOrderId, h.legs, h.foreignLegs, h.retired⟩
  have hwait : ∀ adopted : Position × List Record, Listed positionId adopted.1 →
      Listed positionId (if waits adopted.1 then
        ({ adopted.1 with awaitingProtection := true },
          adopted.2 ++ [.awaitProtection adopted.1.positionId])
      else adopted).1 := by
    intro adopted h
    split
    · exact ⟨h.sound.congr ⟨rfl, rfl, rfl, rfl, rfl, id⟩, h.positionId, h.foreignLegs, h.unfilled,
        h.retired⟩
    · exact h
  unfold restorePosition
  refine hwait _ ?_
  split
  · exact listed_of_blank hblank
  · exact listed_adopt hblank

/-- A position that is listed first is blank. -/
theorem blank_listedPosition (state : ProtoOAPosition) :
    Blank state.positionId (listedPosition state) := ⟨rfl, rfl, rfl, rfl, rfl, rfl⟩

/-- A listed position is put in the book. -/
theorem allListed_set {b : Book} {positionId : ℤ} {p : Position} (hb : AllListed b)
    (hp : Listed positionId p) :
    AllListed { b with positions := b.positions.set positionId p } :=
  Dict.forall_set hb hp

/-- The positions of a snapshot are listed. -/
theorem allListed_loadPositions (env : Env) (waiting : Finset String)
    (orders : ℤ → List ProtoOAOrder) (states : List ProtoOAPosition) {b : Book} (hb : AllListed b) :
    AllListed (loadPositions env waiting orders states b).1 := by
  induction states generalizing b with
  | nil => exact hb
  | cons state rest ih =>
    unfold loadPositions
    dsimp only
    split
    · exact allListed_set hb (listed_of_blank (blank_listedPosition state))
    · exact ih (allListed_set hb (listed_restorePosition (blank_listedPosition state)))

/-- A listed position takes its protective order. -/
theorem listed_listProtective {positionId : ℤ} {p : Position} (h : Listed positionId p)
    (order : ProtoOAOrder) : Listed positionId (listProtective order p) := by
  have hget : ∀ level leg, (listProtective order p).legs.get? level = some leg →
      ∃ old, p.legs.get? level = some old ∧
        leg = if old.accepted then { old with quantity := remainingOf order } else old := by
    intro level leg hleg
    cases level <;> obtain ⟨old, hold, hsized⟩ := Option.map_eq_some_iff.mp hleg <;>
      exact ⟨old, hold, hsized.symm⟩
  have hunfilled : ∀ level leg, (listProtective order p).legs.get? level = some leg →
      leg.filled = 0 := by
    intro level leg hleg
    obtain ⟨old, hold, rfl⟩ := hget level leg hleg
    split
    · exact h.unfilled level old hold
    · exact h.unfilled level old hold
  have hnone : ∀ level, (listProtective order p).foreignLegs.get? level = none := fun level => by
    show p.foreignLegs.get? level = none
    rw [h.foreignLegs]
    rfl
  refine ⟨⟨h.sound.unlearnt, fun hclient => ?_, fun _ => hnone, ?_, ?_, ?_, ?_,
    current_of_unretired h.retired⟩, h.positionId, h.foreignLegs, hunfilled, h.retired⟩
  · show ByLevel.mk (p.legs.stopLoss.map _) (p.legs.takeProfit.map _) = _
    rw [h.sound.nodeLegs hclient]
    rfl
  · intro level leg hleg
    rw [hnone] at hleg
    cases hleg
  · intro level leg hleg halive haccepted
    obtain ⟨old, hold, rfl⟩ := hget level leg hleg
    by_cases hacc : old.accepted
    · rw [if_pos hacc] at haccepted
      cases haccepted.symm.trans hacc
    · rw [if_neg hacc] at halive haccepted ⊢
      exact h.sound.waiting level old hold halive haccepted
  · intro level leg hleg _
    rw [hunfilled level leg hleg]
    exact Nat.zero_le _
  · intro level leg hleg
    rw [hnone] at hleg
    cases hleg

/-- An order of a snapshot leaves positions listed. -/
theorem allListed_loadOrder {env : Env} {b : Book} (hb : AllListed b) (order : ProtoOAOrder) :
    AllListed (loadOrder env b order) := by
  unfold loadOrder
  split
  · split
    · exact hb
    case h_2 p hp => exact allListed_set hb (listed_listProtective (hb _ p hp) order)
  · dsimp only
    split
    · exact hb
    · split <;> exact hb

/-- So do all of them. -/
theorem allListed_loadOrders {env : Env} (orders : List ProtoOAOrder) {b : Book}
    (hb : AllListed b) : AllListed (orders.foldl (loadOrder env) b) := by
  induction orders generalizing b with
  | nil => exact hb
  | cons order rest ih => exact ih (allListed_loadOrder hb order)

/-- What opening legs on a foreign position keeps. -/
structure OpenedLegs (p q : Position) : Prop where
  sound : Sound q
  positionId : q.positionId = p.positionId
  entryOrderId : q.entryOrderId = p.entryOrderId
  entryClientOrderId : q.entryClientOrderId = none

/-- One more foreign leg is opened. -/
theorem OpenedLegs.openLeg {p q : Position} {entryOrderId : ℤ} (h : OpenedLegs p q)
    (hentry : p.entryOrderId = some entryOrderId) (heldClosed : Finset String) (level : Level) :
    OpenedLegs p { q with
      foreignLegs :=
        q.foreignLegs.set level (ForeignLegs.openLeg heldClosed entryOrderId q level) } :=
  ⟨h.sound.setForeign (h.entryOrderId.trans hentry) h.entryClientOrderId rfl
    fun _ => Nat.zero_le _, h.positionId, h.entryOrderId, h.entryClientOrderId⟩

/-- The foreign legs of a position are opened. -/
theorem openedLegs_openLegs {p : Position} (h : Sound p) (hclient : p.entryClientOrderId = none)
    (heldClosed : Finset String) : OpenedLegs p (ForeignLegs.openLegs heldClosed p).1 := by
  have hrefl : OpenedLegs p p := ⟨h, rfl, rfl, hclient⟩
  unfold ForeignLegs.openLegs
  split
  case h_1 =>
    unfold ForeignLegs.entryUnknown
    split
    · exact hrefl
    · exact ⟨h.congr ⟨rfl, rfl, rfl, rfl, rfl, id⟩, rfl, rfl, hclient⟩
  case h_2 entryOrderId hentry =>
    have hlevel : ∀ q level, OpenedLegs p q → OpenedLegs p
        (if (q.levels.get? level).isSome &&
            !((q.foreignLegs.get? level).map ForeignLeg.alive).getD false then
          ({ q with
              foreignLegs :=
                q.foreignLegs.set level (ForeignLegs.openLeg heldClosed entryOrderId q level) },
            ([] : List Record))
        else (q, [])).1 := by
      intro q level hq
      split
      · exact hq.openLeg hentry heldClosed level
      · exact hq
    exact hlevel _ .takeProfit (hlevel p .stopLoss hrefl)

/-- A listed position is sound once its foreign legs are opened. -/
theorem sound_loadForeignLegs {positionId : ℤ} {p : Position} (h : Listed positionId p)
    (heldClosed : Finset String) : Sound (loadForeignLegs heldClosed p).1 ∧
      (loadForeignLegs heldClosed p).1.positionId = positionId := by
  unfold loadForeignLegs
  split
  case isTrue hopens =>
    have hclient : p.entryClientOrderId = none := by
      simp only [Position.ours, Bool.and_eq_true, Bool.not_eq_true'] at hopens
      simpa using hopens.1
    have hopened := openedLegs_openLegs h.sound hclient heldClosed
    exact ⟨hopened.sound, hopened.positionId.trans h.positionId⟩
  case isFalse => exact ⟨h.sound, h.positionId⟩

/-- What holds of all entries holds of those put over them. -/
theorem get?_foldl_set {positions : Dict ℤ Position} {entries : List (ℤ × Position)}
    {P : ℤ → Position → Prop} (hpositions : ∀ x p, positions.get? x = some p → P x p)
    (hentries : ∀ entry ∈ entries, P entry.1 entry.2) (x : ℤ) (p : Position)
    (hp : (entries.foldl (fun positions entry => positions.set entry.1 entry.2) positions).get? x =
      some p) : P x p := by
  induction entries generalizing positions with
  | nil => exact hpositions x p hp
  | cons entry rest ih =>
    refine ih ?_ (fun e he => hentries e (by simp [he])) hp
    exact Dict.forall_set hpositions (hentries entry (by simp))

/-- A load leaves all positions sound. -/
theorem allSound_load {b : Book} (hb : AllSound b) (env : Env) (snapshot : ProtoOAReconcileRes)
    (orders : ℤ → List ProtoOAOrder) (keepGone : Bool) (readMs : ℤ) (waiting : Finset String) :
    AllSound (load env b snapshot orders keepGone readMs waiting).1 := by
  have hstart : AllListed { b with
      positions := Dict.empty, unloadedOrders := Dict.empty, reported := ∅
      openOrders := Dict.empty
      kept := ((gonePositions b snapshot keepGone).map Prod.fst).toFinset, keptMs := readMs
      unconfirmed := ∅ } := fun x p hp => by cases hp
  have hloaded := allListed_loadPositions env (waiting \ settledLegs b) orders
    snapshot.position hstart
  unfold load
  dsimp only
  split
  case h_1 => exact fun x p hp => ⟨(hloaded x p hp).sound, (hloaded x p hp).positionId⟩
  case h_2 =>
    refine get?_foldl_set (P := fun x p => Sound p ∧ p.positionId = x) (fun x p hp => ?_)
      fun entry hentry => ?_
    · rw [Dict.get?_mapAccum] at hp
      obtain ⟨q, hq, rfl⟩ := Option.map_eq_some_iff.mp hp
      exact sound_loadForeignLegs (allListed_loadOrders snapshot.order hloaded x q hq) _
    · exact hb _ _ (Dict.get?_eq_some.mpr (List.mem_filter.mp hentry).1)

/-- Every position of a reachable book is sound. -/
theorem Reachable.allSound {b : Book} (hb : Reachable b) : AllSound b := by
  induction hb with
  | new => exact fun x p hp => by cases hp
  | operation operation _ ih => exact allSound_perform ih operation
  | load env snapshot orders keepGone readMs waiting _ ih =>
    exact allSound_load ih env snapshot orders keepGone readMs waiting

end VenueBook

end NautilusCtrader
