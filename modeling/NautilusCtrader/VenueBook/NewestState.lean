import NautilusCtrader.VenueBook.HeldState
import NautilusCtrader.VenueBook.NewestLevels

/-!
# A position's held state is its newest

`_sync` takes a position's state unless it is older than the one held, so the book is a machine that
takes the newest of the states offered to it. An event offers its state if it is handled and its
handling reaches `_sync`; the state held after a run is the newest one stated just if the event that
states it offers it.
-/

namespace NautilusCtrader

open Common

namespace VenueBook

/-! ## What the book holds and what calls offer -/

/-- What the book holds of a position's state, before its first the one it is created with. -/
def heldIn (b : Book) (positionId : ℤ) : HeldState :=
  ((b.positions.get? positionId).map Position.held).getD {}

/-- The state of a position a call brings to `_sync`. -/
def offered (positionId : ℤ) (b : Book) : Operation → Option HeldState
  | .apply env _ event => event.order?.bind fun order =>
    if order.positionId? = some positionId ∧ Handles b event order ∧ reachesSync env b event order then
      event.position?.map stateOf
    else none
  | _ => none

/-- An event of the position carries its state. -/
def StatesPosition (positionId : ℤ) : Operation → Prop
  | .apply _ _ event =>
    ∀ order ∈ event.order?, order.positionId? = some positionId → event.position?.isSome
  | _ => True

instance (positionId : ℤ) (operation : Operation) : Decidable (StatesPosition positionId operation) :=
  match operation with
  | .apply _ _ event => inferInstanceAs (Decidable (∀ order ∈ event.order?,
      order.positionId? = some positionId → event.position?.isSome))
  | .trailingStopMoved .. => inferInstanceAs (Decidable True)
  | .entryFound .. => inferInstanceAs (Decidable True)
  | .cancelLeg .. => inferInstanceAs (Decidable True)
  | .rejectLegs .. => inferInstanceAs (Decidable True)
  | .matchClose .. => inferInstanceAs (Decidable True)
  | .endKeep .. => inferInstanceAs (Decidable True)
  | .closedInReconciliation .. => inferInstanceAs (Decidable True)

/-- A call leaves the position in the book. -/
def KeepsPosition (positionId : ℤ) (b : Book) (operation : Operation) : Prop :=
  (b.positions.get? positionId).isSome ∨ (offered positionId b operation).isSome →
    ((perform b operation).1.positions.get? positionId).isSome

instance (positionId : ℤ) (b : Book) (operation : Operation) :
    Decidable (KeepsPosition positionId b operation) := inferInstanceAs (Decidable (_ → _))

/-! ## One call -/

section

variable {x : ℤ} {b b' : Book}

/-- What a book holds of a position is what the position does. -/
theorem heldIn_of_get? {p : Position} (hp : b.positions.get? x = some p) : heldIn b x = p.held := by
  unfold heldIn
  rw [hp]
  rfl

/-- Of a position it does not have it holds nothing. -/
theorem heldIn_of_none (hnone : b.positions.get? x = none) : heldIn b x = {} := by
  unfold heldIn
  rw [hnone]
  rfl

/-- It is read off the position. -/
theorem heldIn_congr (h : b'.positions.get? x = b.positions.get? x) : heldIn b' x = heldIn b x := by
  unfold heldIn
  rw [h]

/-- A change of what is not held leaves it. -/
theorem heldIn_onPosition (positionId : ℤ) {change : Position → Position × List Record}
    (hchange : ∀ p, (change p).1.held = p.held) (b : Book) (x : ℤ) :
    heldIn (onPosition b positionId change).1 x = heldIn b x := by
  unfold onPosition
  split
  · rfl
  · rename_i p hp
    by_cases hx : positionId = x
    · subst hx
      rw [heldIn_of_get? hp]
      exact (heldIn_of_get? (Dict.get?_set_self ..)).trans (hchange p)
    · exact heldIn_congr (Dict.get?_set_of_ne _ _ hx)

/-- An entry that is found leaves it. -/
theorem held_foundEntry (heldClosed : Finset String) (orders : List ProtoOAOrder) (p : Position) :
    (foundEntry heldClosed orders p).1.held = p.held := by
  unfold foundEntry
  split
  · dsimp only
    split
    · exact held_adopt ..
    · exact (held_of_outline (outline_foreignChanges ..)).trans (held_adopt ..)
  · rfl

/-- So does a cancelled leg. -/
theorem held_canceledLeg (level : Level) (ts : ℤ) (p : Position) :
    (canceledLeg level ts p).1.held = p.held := by
  unfold canceledLeg
  split
  · rfl
  · split <;> rfl

/-- So does a trailing stop. -/
theorem heldIn_trailing (env : Env) (event : ProtoOATrailingSLChangedEvent) (b : Book) (x : ℤ) :
    heldIn (trailingStopMoved env b event).1 x = heldIn b x := by
  unfold trailingStopMoved
  split
  · rfl
  · rename_i p hp
    dsimp only
    split
    · rfl
    · split
      · rfl
      · split
        · rfl
        · split
          · rfl
          · split
            · rfl
            · rename_i stopLoss _
              by_cases hx : event.positionId = x
              · subst hx
                rw [heldIn_of_get? hp]
                have htrail : (trail stopLoss event.utcLastUpdateTimestamp p).held = p.held := rfl
                refine (heldIn_of_get? (Dict.get?_set_self ..)).trans (Eq.trans ?_ htrail)
                split
                · exact held_of_outline (outline_levelChanges ..)
                · exact held_of_outline (outline_foreignChanges ..)
              · exact heldIn_congr (Dict.get?_set_of_ne _ _ hx)

variable {env : Env} {ops : Operations} {event : ProtoOAExecutionEvent} {order : ProtoOAOrder}
  {state : ProtoOAPosition}

/-- The position an event's handling starts from holds what the book does. -/
theorem held_positionFor (hid : order.positionId? = some x) (b : Book)
    (event : ProtoOAExecutionEvent) :
    (positionFor b event order).position.held = heldIn b x := by
  rcases positionFor_cases b event order with ⟨hnone, -⟩ | ⟨y, p, hy, hp, h⟩ | ⟨y, hy, hnone, h⟩
  · rw [hid] at hnone
    cases hnone
  · obtain rfl := Option.some.inj (hid.symm.trans hy)
    rw [h]
    exact (heldIn_of_get? hp).symm
  · obtain rfl := Option.some.inj (hid.symm.trans hy)
    rw [h]
    exact (heldIn_of_none hnone).symm

/-- An event of another position leaves a position as it is. -/
theorem get?_handle_other (hid : order.positionId? ≠ some x) (env : Env) (ops : Operations)
    (b : Book) (event : ProtoOAExecutionEvent) :
    (handle env ops b event order).1.positions.get? x = b.positions.get? x := by
  have hplaced {g : Focus} (hplace : SamePlace (positionFor b event order) g) :
      g.finish.positions.get? x = b.positions.get? x := by
    cases hy : order.positionId? with
    | none =>
      have hf : positionFor b event order = ⟨b, newPosition event order, none⟩ := by
        simp only [positionFor, hy]
      rw [hf] at hplace
      rcases hplace with ⟨hstored, hpositions⟩ | ⟨_, hstored, -, -⟩
      · simp only [Focus.finish, hstored, hpositions]
      · cases hstored
    | some y =>
      have hne : x ≠ y := fun heq => hid (by rw [hy, heq])
      obtain ⟨hstored, hothers, -⟩ := positionFor_placed b event hy
      rw [get?_finish_other hstored hplace hne, hothers x hne]
  unfold handle
  split
  · show (trackUnloaded event order b).positions.get? x = _
    rw [(trackUnloaded_orders event order b).2]
    split
    · exact hplaced (.inl (sync_place event order _))
    · rfl
  · rename_i precision _
    dsimp only
    rcases does_handleLoaded env ops b event order precision with heq | hdoes
    · rw [heq]
      rfl
    · exact hplaced hdoes.place

/-- An event of the position that carries its state, on the book before the event is marked. -/
theorem heldIn_handle (hid : order.positionId? = some x) (hstate : event.position? = some state)
    (hkept : (b.positions.get? x).isSome ∨ reachesSync env b event order = true →
      ((handle env ops b event order).1.positions.get? x).isSome) :
    heldIn (handle env ops b event order).1 x =
      if reachesSync env b event order then afterState (heldIn b x) state else heldIn b x := by
  have hstart := held_positionFor hid b event
  obtain ⟨hstored, -, -⟩ := positionFor_placed b event hid
  unfold handle at hkept ⊢
  cases hprecision : env.pricePrecision order.tradeData.symbolId with
  | none =>
    have hreaches : reachesSync env b event order = true := by
      unfold reachesSync
      rw [hprecision]
    rw [if_pos hreaches, ← hstart, ← held_sync hstate order]
    refine heldIn_of_get? ?_
    show (trackUnloaded event order b).positions.get? x = _
    rw [(trackUnloaded_orders event order b).2, hstate, Option.isSome_some, Bool.true_or, if_pos rfl]
    simp only [Focus.finish, (sync_place event order _).1, hstored, Dict.get?_set_self]
  | some precision =>
    rw [hprecision] at hkept
    dsimp only at hkept ⊢
    have hheld := held_handleLoaded (b := b) hstate hprecision ops
    rw [hstart] at hheld
    rw [← hheld]
    rcases does_handleLoaded env ops b event order precision with heq | hdoes
    · rw [heq]
      exact hstart.symm
    · cases hq : (handleLoaded env ops b event order precision).focus.finish.positions.get? x with
      | some q =>
        rw [heldIn_of_get? hq, get?_finish_self hstored hdoes.place hq]
      | none =>
        -- What a call drops it did not hold before, and did not bring to `_sync`.
        rw [hq] at hkept
        have hnone : b.positions.get? x = none := by
          by_contra hsome
          exact Bool.false_ne_true (hkept (.inl (Option.isSome_iff_ne_none.mpr hsome)))
        have hreaches : reachesSync env b event order = false := by
          by_contra hreaches
          exact Bool.false_ne_true (hkept (.inr (by simpa using hreaches)))
        rw [heldIn_of_none hq, hheld, hreaches, if_neg Bool.false_ne_true, heldIn_of_none hnone]

/-- A call takes the newer of the state held and the one it offers. -/
theorem heldIn_perform {operation : Operation} (hstates : StatesPosition x operation)
    (hkept : KeepsPosition x b operation) :
    heldIn (perform b operation).1 x =
      newer HeldState.updatedMs (heldIn b x) (offered x b operation) := by
  cases operation with
  | apply env ops event =>
    show heldIn (apply env ops b event).1 x = _
    -- a handled event offers its state if it reaches `_sync`
    by_cases hany : ∃ order, Handles b event order
    · obtain ⟨order, hhandles⟩ := hany
      have hmarked : (apply env ops b event).1.positions = (handle env ops b event order).1.positions := by
        rw [apply_of_handles hhandles]
        split
        · rfl
        · exact markApplied_positions ..
      rw [heldIn_congr (congrArg (·.get? x) hmarked)]
      have hoffer : offered x b (.apply env ops event) =
          if order.positionId? = some x ∧ Handles b event order ∧ reachesSync env b event order then
            event.position?.map stateOf
          else none := by
        unfold offered
        dsimp only
        rw [hhandles.1]
        rfl
      by_cases hid : order.positionId? = some x
      · obtain ⟨state, hstate⟩ := Option.isSome_iff_exists.mp (hstates order hhandles.1 hid)
        have hwhen : offered x b (.apply env ops event) =
            if reachesSync env b event order then some (stateOf state) else none := by
          rw [hoffer, hstate]
          by_cases hreaches : reachesSync env b event order = true
          · rw [if_pos ⟨hid, hhandles, hreaches⟩, if_pos hreaches]
            rfl
          · rw [if_neg fun h => hreaches h.2.2, if_neg hreaches]
        have hkept' : (b.positions.get? x).isSome ∨ reachesSync env b event order = true →
            ((handle env ops b event order).1.positions.get? x).isSome := by
          intro h
          rw [← hmarked]
          refine hkept (h.imp_right fun hreaches => ?_)
          rw [hwhen, if_pos hreaches]
          rfl
        rw [heldIn_handle hid hstate hkept', hwhen]
        split
        · rfl
        · rfl
      · rw [hoffer, if_neg fun h => hid h.1]
        exact heldIn_congr (get?_handle_other hid env ops b event)
    · have hoffer : offered x b (.apply env ops event) = none := by
        unfold offered
        dsimp only
        cases event.order? with
        | none => rfl
        | some order => exact if_neg fun h => hany ⟨order, h.2.1⟩
      rw [apply_of_not_handles fun order h => hany ⟨order, h⟩, hoffer]
      rfl
  | trailingStopMoved env event => exact heldIn_trailing env event b x
  | entryFound env positionId orders => exact heldIn_onPosition positionId (held_foundEntry _ orders) b x
  | cancelLeg positionId level ts => exact heldIn_onPosition positionId (held_canceledLeg level ts) b x
  | rejectLegs positionId reason ts =>
    exact heldIn_onPosition positionId (fun p => held_of_outline (outline_overLegs ..)) b x
  | matchClose orderId positionId closeId =>
    show heldIn (matchClose b orderId positionId closeId) x = _
    unfold matchClose
    split
    · rfl
    · rfl
  | endKeep positionId => rfl
  | closedInReconciliation positionIds => rfl

end

/-! ## A run -/

/-- What a call states of the position. -/
def stated (positionId : ℤ) : Operation → Option ProtoOAPosition
  | .apply _ _ event => event.order?.bind fun order =>
    if order.positionId? = some positionId then event.position? else none
  | _ => none

/-- The book holds `state` as the position's newest. -/
def HoldsState (b : Book) (positionId : ℤ) (state : ProtoOAPosition) : Prop :=
  (b.positions.get? positionId).map Position.held = some (stateOf state)

instance (b : Book) (positionId : ℤ) (state : ProtoOAPosition) :
    Decidable (HoldsState b positionId state) := inferInstanceAs (Decidable (_ = _))

/-- The position has the volume, the status and the terms of `state`. -/
def ShowsState (b : Book) (positionId : ℤ) (state : ProtoOAPosition) : Prop :=
  ∃ p, b.positions.get? positionId = some p ∧ p.volume = state.tradeData.volume ∧
    p.isOpen = decide (state.positionStatus = .open) ∧ p.terms = some (termsOf state)

/-- A state that is held is shown. -/
theorem HoldsState.shows {b : Book} {x : ℤ} {state : ProtoOAPosition} (h : HoldsState b x state) :
    ShowsState b x state := by
  obtain ⟨p, hp, hheld⟩ := Option.map_eq_some_iff.mp h
  exact ⟨p, hp, congrArg HeldState.volume hheld, congrArg HeldState.isOpen hheld,
    congrArg HeldState.terms hheld⟩

/-- A state is held just if it is what the book holds. -/
theorem holdsState_iff {b : Book} {x : ℤ} {state : ProtoOAPosition} :
    heldIn b x = stateOf state ↔ HoldsState b x state := by
  unfold HoldsState
  cases hp : b.positions.get? x with
  | none =>
    rw [heldIn_of_none hp]
    refine ⟨fun h => ?_, fun h => ?_⟩
    · cases congrArg HeldState.terms h
    · cases h
  | some p =>
    rw [heldIn_of_get? hp, Option.map_some, Option.some.injEq]

/-- What is offered is a state that was stated. -/
theorem stated_of_offered {x : ℤ} {b : Book} {operation : Operation} {held : HeldState}
    (h : offered x b operation = some held) :
    ∃ state, stated x operation = some state ∧ held = stateOf state := by
  cases operation with
  | apply env ops event =>
    unfold offered at h
    dsimp only at h
    obtain ⟨order, horder, hoffer⟩ := Option.bind_eq_some_iff.mp h
    split at hoffer
    · rename_i hall
      obtain ⟨state, hstate, rfl⟩ := Option.map_eq_some_iff.mp hoffer
      refine ⟨state, ?_, rfl⟩
      show (event.order?.bind _) = _
      rw [horder, Option.bind_some, if_pos hall.1, hstate]
    · cases hoffer
  | trailingStopMoved env event => cases h
  | entryFound env positionId orders => cases h
  | cancelLeg positionId level ts => cases h
  | rejectLegs positionId reason ts => cases h
  | matchClose orderId positionId closeId => cases h
  | endKeep positionId => cases h
  | closedInReconciliation positionIds => cases h

/-- The book takes the newest state offered, over calls whose events carry one and that keep the
position. -/
theorem newest_book (x : ℤ) : Newest machine
    (fun b operation => StatesPosition x operation ∧ KeepsPosition x b operation)
    HeldState.updatedMs (heldIn · x) (offered x) where
  step _ _ h := heldIn_perform h.1 h.2

/-- **A position's held state is its newest.** In a run between two loads whose calls keep the
position and whose events of it each carry its state, with one event's state newer than all others:
the book ends with that state just if it held it at the start, or held no newer one and that event is
handled and reaches `_sync`. Then the position has the state's volume, status and terms. -/
theorem newest_state_iff {b : Book} {x : ℤ} {before later : List Operation} {env : Env}
    {ops : Operations} {event : ProtoOAExecutionEvent} {order : ProtoOAOrder} {state : ProtoOAPosition}
    (horder : event.order? = some order) (hid : order.positionId? = some x)
    (hstate : event.position? = some state)
    (hstates : ∀ operation ∈ before ++ .apply env ops event :: later, StatesPosition x operation)
    (hnewest : ∀ operation ∈ before ++ later, ∀ other ∈ stated x operation,
      other.utcLastUpdateTimestamp < state.utcLastUpdateTimestamp)
    (hkept : machine.Always (KeepsPosition x) b (before ++ .apply env ops event :: later)) :
    (HoldsState (machine.after b (before ++ .apply env ops event :: later)) x state ↔
      HoldsState b x state ∨ (heldIn b x).updatedMs ≤ state.utcLastUpdateTimestamp ∧
        Handles (machine.after b before) event order ∧
        reachesSync env (machine.after b before) event order = true) ∧
      (HoldsState (machine.after b (before ++ .apply env ops event :: later)) x state →
        ShowsState (machine.after b (before ++ .apply env ops event :: later)) x state) := by
  refine ⟨?_, HoldsState.shows⟩
  have hcarries : machine.Always (fun _ operation => StatesPosition x operation) b
      (before ++ .apply env ops event :: later) :=
    Machine.always_of_forall (fun operation hmem _ => hstates operation hmem) b
  -- every other event states something older
  have hbelow (operations : List Operation) (hsub : ∀ operation ∈ operations,
      operation ∈ before ++ later) (c : Book) :
      Newest.Below machine HeldState.updatedMs (offered x) (stateOf state).updatedMs c operations := by
    refine Machine.always_of_forall (fun operation hmem d held hheld => ?_) c
    obtain ⟨other, hother, rfl⟩ := stated_of_offered hheld
    exact hnewest operation (hsub operation hmem) other hother
  have hoffer : offered x (machine.after b before) (.apply env ops event) =
      if Handles (machine.after b before) event order ∧
        reachesSync env (machine.after b before) event order = true then some (stateOf state)
      else none := by
    unfold offered
    dsimp only
    rw [horder, Option.bind_some, hstate]
    exact if_congr (and_iff_right hid) rfl rfl
  rw [← holdsState_iff, ← holdsState_iff]
  refine ((newest_book x).holds_iff (hcarries.and hkept) (hbelow before (fun _ h => List.mem_append_left _ h) b)
    (hbelow later (fun _ h => List.mem_append_right _ h) _) fun other hother => ?_).trans ?_
  · rw [hoffer] at hother
    split at hother
    · exact (Option.some.inj hother).symm
    · cases hother
  · rw [hoffer]
    refine or_congr_right (and_congr_right fun _ => ?_)
    split
    · rename_i hall
      exact iff_of_true rfl hall
    · rename_i hnot
      exact iff_of_false (fun h => by cases h) hnot

/-! ## Two protective orders of one position -/

section

open Sample

/-- The state of position 10 once its volume was halved, at 400. -/
def halved : ProtoOAPosition := position 400 .open 500

def fillFirst : Operation := .apply env {} (entryFill entry)

/-- The protective order accepted at `ts`, under its id or another. -/
def acceptedAt (ts : ℤ) (orderId : ℤ := 2) : Operation :=
  .apply env {} (event .orderAccepted
    { protective ts (some (.finite 90)) none with orderId } (position ts .open))

/-- The protective order made to follow the halved volume. -/
def replacement : ProtoOAExecutionEvent :=
  event .orderReplaced (protective 400 (some (.finite 90)) none 500) halved

/-- The state of a replaced order is held over an older acceptance. -/
theorem replaced_state_held :
    HoldsState (machine.after {} ([fillFirst] ++ .apply env {} replacement :: [acceptedAt 200])) 10
      halved := by
  refine (newest_state_iff rfl rfl rfl ?_ ?_ ?_).1.mpr ?_
  · decide +kernel
  · decide +kernel
  · decide +kernel
  · decide +kernel

/-- A late acceptance of an older protective order takes the place of the newer one, whose next event
is passed over with the position's state. -/
theorem retired_order_loses_state : ¬ ∀ b, Reachable b → ∀ (x : ℤ) (before later : List Operation)
    (env : Env) (ops : Operations) (event : ProtoOAExecutionEvent) (order : ProtoOAOrder)
    (state : ProtoOAPosition), event.order? = some order → order.positionId? = some x →
    event.position? = some state →
    (∀ operation ∈ before ++ .apply env ops event :: later, StatesPosition x operation) →
    (∀ operation ∈ before ++ later, ∀ other ∈ stated x operation,
      other.utcLastUpdateTimestamp < state.utcLastUpdateTimestamp) →
    machine.Always (KeepsPosition x) b (before ++ .apply env ops event :: later) →
    (heldIn b x).updatedMs ≤ state.utcLastUpdateTimestamp →
    ShowsState (machine.after b (before ++ .apply env ops event :: later)) x state := by
  intro h
  obtain ⟨p, hp, hvolume, -⟩ := h {} .new 10 [fillFirst, acceptedAt 200, acceptedAt 180 5] [] env {}
    replacement _ halved rfl rfl rfl (by decide +kernel) (by decide +kernel) (by decide +kernel)
    (by decide +kernel)
  have hheld : ((machine.after {} ([fillFirst, acceptedAt 200, acceptedAt 180 5] ++
      [.apply env {} replacement])).positions.get? 10).map Position.volume = some 1000 := by
    decide +kernel
  rw [hp, Option.map_some, hvolume] at hheld
  exact absurd hheld (by decide)

end

end VenueBook

end NautilusCtrader
