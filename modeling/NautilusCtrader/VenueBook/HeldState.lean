import NautilusCtrader.Common.Newest
import NautilusCtrader.VenueBook.ClosedPosition

/-!
# The state of a position an event leaves

What a handler leaves of a position's own state (its volume, whether it is open, its terms and the time
they are of) is what `_sync` makes of it. On a few paths a handler returns or raises before `_sync`, and
leaves the state as it was: `reachesSync` says when an event's handling gets there.
-/

namespace NautilusCtrader

open Common

/-- What a position holds of the last state taken, as `_sync` writes it. -/
structure HeldState where
  volume : ℕ := 0
  isOpen : Bool := false
  terms : Option LevelTerms := none
  updatedMs : ℤ := -1
deriving DecidableEq

def Position.held (p : Position) : HeldState where
  volume := p.volume
  isOpen := p.isOpen
  terms := p.terms
  updatedMs := p.updatedMs

/-- What is held of the venue's state is part of a position's outline. -/
theorem held_of_outline {p q : Position} (h : q.outline = p.outline) : q.held = p.held := by
  show q.outline.held = p.outline.held
  rw [h]

namespace VenueBook

/-- The state a message gives a position. -/
def stateOf (state : ProtoOAPosition) : HeldState where
  volume := state.tradeData.volume
  isOpen := state.positionStatus = .open
  terms := some (termsOf state)
  updatedMs := state.utcLastUpdateTimestamp

/-! ## Rules that leave it alone -/

/-- A close leaves it. -/
theorem held_closedBy (deal : ProtoOADeal) (p : Position) : (closedBy deal p).1.held = p.held := by
  let cleared : Position := { p with protectiveOrderId := none, levels := {} }
  have hcancelled : (cancelLegs deal.executionTimestamp cleared).1.held = cleared.held :=
    held_of_outline (outline_overLegs ..)
  exact hcancelled

/-- Taking an entry leaves it. -/
theorem held_adopt (p : Position) (entry : ProtoOAOrder) (restored : Bool)
    (waiting : Finset String) : (adopt p entry restored waiting).1.held = p.held := by
  unfold adopt
  dsimp only
  split
  · rfl
  · split <;> rfl

/-- So does learning one. -/
theorem held_learn (order : ProtoOAOrder) (learnt ended : Bool) (p : Position) :
    (learn order learnt ended p).1.held = p.held := by
  have hadopted : (if learnt then adopt p order false ∅ else (p, [])).1.held = p.held := by
    split
    · exact held_adopt ..
    · rfl
  unfold learn
  dsimp only
  split
  · exact hadopted
  · exact hadopted

/-- So does a fill of the entry. -/
theorem held_entryFilled (order : ProtoOAOrder) (fill : Fill) (p : Position) :
    (entryFilled order fill p).1.held = p.held := by
  have hfollowed (q : Position) : (followProtection fill q).1.held = q.held := by
    unfold followProtection
    split
    · exact held_of_outline (outline_levelChanges ..)
    · rfl
  refine Eq.trans ?_ (hfollowed { p with entryAccepted := true })
  show (awaitLevels _).1.held = _
  unfold awaitLevels
  split <;> rfl

/-- So does the end of its legs. -/
theorem held_endEntryLegs (ended : OrderEventKind) (order : ProtoOAOrder) (p : Position) :
    (endEntryLegs ended order p).1.held = p.held := by
  unfold endEntryLegs
  split
  · exact held_of_outline (outline_overLegs ..)
  · rfl

/-! ## Handlers that leave it alone -/

/-- So do two handlers of which the second does. -/
theorem held_andThen {h : Handled} {next : Focus → Handled} {held : HeldState}
    (hh : h.focus.position.held = held)
    (hnext : ∀ g : Focus, (next g).focus.position.held = g.position.held) :
    (h.andThen next).focus.position.held = held := by
  rcases Handled.andThen_focus h next with heq | heq
  · rw [heq, hh]
  · rw [heq, hnext, hh]

/-- The end of a position leaves it. -/
theorem held_endIfClosed (event : ProtoOAExecutionEvent) (asked : Bool) (f : Focus) :
    (endIfClosed event asked f).focus.position.held = f.position.held := by
  unfold endIfClosed
  split
  · exact held_closedBy ..
  · rfl

/-- An event of the entry leaves it. -/
theorem held_entryEvent (env : Env) (event : ProtoOAExecutionEvent) (order : ProtoOAOrder)
    (precision : ℕ) (f : Focus) :
    (entryEvent env event order precision f).focus.position.held = f.position.held := by
  unfold entryEvent
  dsimp only
  split
  · split <;> rfl
  · split
    · split
      · rfl
      · exact held_entryFilled order _ _
    · split
      · rfl
      · rename_i ended _
        split
        · show (dropEntry order _).position.held = _
          rw [(dropEntry_does order _).2.2]
          exact held_endEntryLegs ..
        · exact held_endEntryLegs ..

/-- So does an opening by somebody else. -/
theorem held_openedExternal (env : Env) (event : ProtoOAExecutionEvent) (order : ProtoOAOrder)
    (precision : ℕ) (learnt : Bool) (f : Focus) :
    (openedExternal env event order precision learnt f).focus.position.held = f.position.held := by
  refine held_andThen ?_ fun g => ?_
  · rw [externalEvent_position]
  · dsimp only [Focus.tell]
    split
    · exact held_of_outline (outline_foreignChanges ..)
    · rfl

/-- So does what an opening event tells. -/
theorem held_openingRecords (env : Env) (event : ProtoOAExecutionEvent) (order : ProtoOAOrder)
    (precision : ℕ) (learnt : Bool) (f : Focus) :
    (openingRecords env event order precision learnt f).focus.position.held = f.position.held := by
  unfold openingRecords
  split
  · exact held_entryEvent ..
  · exact held_openedExternal ..

/-- So does a close of the node. -/
theorem held_nodeClose (env : Env) (event : ProtoOAExecutionEvent) (order : ProtoOAOrder)
    (closeId : String) (precision : ℕ) (f : Focus) :
    (nodeClose env event order closeId precision f).focus.position.held = f.position.held := by
  unfold nodeClose
  dsimp only
  split
  · rfl
  · split
    · split <;> rfl
    · split <;> rfl

/-- So does what a closing event tells. -/
theorem held_closingRecords (env : Env) (event : ProtoOAExecutionEvent) (order : ProtoOAOrder)
    (precision : ℕ) (closeId : Option String) (f : Focus) :
    (closingRecords env event order precision closeId f).focus.position.held = f.position.held := by
  unfold closingRecords
  split
  · exact held_nodeClose ..
  · refine held_andThen ?_ fun _ => rfl
    rw [externalEvent_position]

/-- So does a level that was hit. -/
theorem held_takeTrigger (order : ProtoOAOrder) (deal : ProtoOADeal) (fill : Fill)
    (level : Option Level) (levels : Levels) (f : Focus) :
    (takeTrigger order deal fill level levels f).focus.position.held = f.position.held := by
  unfold takeTrigger
  dsimp only
  split
  · rfl
  · rfl
  · split <;> rfl

/-! ## Handlers that reach `_sync` -/

/-- The state a position holds once `state` was offered: `state`, unless it is older. -/
def afterState (held : HeldState) (state : ProtoOAPosition) : HeldState :=
  newer HeldState.updatedMs held (some (stateOf state))

variable {event : ProtoOAExecutionEvent} {order : ProtoOAOrder} {state : ProtoOAPosition}

/-- A sync takes the state of an event, if it is newer. -/
theorem held_sync (hstate : event.position? = some state) (order : ProtoOAOrder) (f : Focus) :
    (sync event order f).position.held = afterState f.position.held state := by
  unfold sync
  rw [hstate]
  show (syncState f.position state).held = _
  unfold syncState
  dsimp only
  by_cases hold : state.utcLastUpdateTimestamp < f.position.updatedMs
  · rw [if_pos hold]
    exact (if_pos hold).symm
  · rw [if_neg hold]
    exact (if_neg hold).symm

/-- So does an opening event. -/
theorem held_openingOn (hstate : event.position? = some state) (env : Env) (precision : ℕ)
    (f : Focus) : (openingOn env event order precision f).focus.position.held =
      afterState f.position.held state := by
  have hopened (learnt : Bool) : (opened event order learnt f).focus.position.held =
      afterState f.position.held state := by
    rw [← held_learn order learnt (order.orderId ∈ f.book.endedEntries) f.position]
    refine Eq.trans ?_ (held_sync hstate order { f with
      position := (learn order learnt (order.orderId ∈ f.book.endedEntries) f.position).1 })
    show (stampFill ..).held = _
    unfold stampFill
    split <;> rfl
  unfold openingOn
  dsimp only
  refine held_andThen (held_andThen (hopened _) fun g => held_openingRecords ..) fun g => ?_
  exact held_andThen rfl fun k => held_endIfClosed ..

/-- So does a closing event. -/
theorem held_closingOn (hstate : event.position? = some state) (env : Env) (ops : Operations)
    (precision : ℕ) (f : Focus) :
    (closingOn env ops event order precision f).focus.position.held =
      afterState f.position.held state := by
  unfold closingOn
  dsimp only
  refine held_andThen (held_andThen ?_ fun g => held_closingRecords ..) fun g => held_endIfClosed ..
  show (matchClosing ops event order (sync event order f)).1.position.held = _
  rw [(matchClosing_does ops event order (sync event order f)).2.1]
  exact held_sync hstate order f

/-- Whether `_protective` gets to `_sync` on a position. -/
def protectiveSyncs (env : Env) (event : ProtoOAExecutionEvent) (order : ProtoOAOrder)
    (precision : ℕ) (p : Position) : Bool :=
  if isFill event.executionType then
    (fillOf event.deal precision env.moneyDigits).isOk && (levelsOf order precision).isOk
  else if order.orderId ∈ p.retiredProtectiveIds then false
  else if event.executionType ≠ .orderAccepted && p.protectiveOrderId.isSome &&
      p.protectiveOrderId ≠ some order.orderId then false
  else if event.executionType = .orderAccepted || event.executionType = .orderReplaced then
    (levelsOf order precision).isOk
  else event.executionType = .orderCancelled

/-- A protective event takes it just if it syncs. -/
theorem held_protectiveOn (hstate : event.position? = some state) (env : Env) (ops : Operations)
    (precision : ℕ) (f : Focus) :
    (protectiveOn env ops event order precision f).focus.position.held =
      if protectiveSyncs env event order precision f.position then
        afterState f.position.held state
      else f.position.held := by
  have hchanged (oldLevels : Levels) (q : Position) (hq : q.held = f.position.held) :
      (protectiveChanged env ops event order oldLevels { f with position := q }).focus.position.held =
        afterState f.position.held state := by
    rw [held_of_outline (outline_protectiveChanged ..), held_sync hstate]
    exact congrArg (afterState · state) hq
  have htriggered (g : Focus) (hg : g.position.held = f.position.held) :
      (triggered env event order precision g).focus.position.held =
        if (fillOf event.deal precision env.moneyDigits).isOk && (levelsOf order precision).isOk then
          afterState f.position.held state
        else f.position.held := by
    unfold triggered
    cases fillOf event.deal precision env.moneyDigits with
    | error failure => exact hg
    | ok fill =>
      cases levelsOf order precision with
      | error failure => exact hg
      | ok stated =>
        refine held_andThen (held_andThen ?_ fun k => held_takeTrigger ..)
          fun k => held_endIfClosed ..
        rw [← hg]
        exact held_sync hstate order g
  unfold protectiveOn protectiveSyncs
  dsimp only
  by_cases hfill : isFill event.executionType = true
  · rw [if_pos hfill, if_pos hfill]
    exact htriggered f rfl
  · rw [if_neg hfill, if_neg hfill]
    by_cases hretired : order.orderId ∈ f.position.retiredProtectiveIds
    · rw [if_pos hretired, if_pos (decide_eq_true hretired)]
      rfl
    · rw [if_neg hretired, if_neg (by simpa using hretired)]
      split
      · rfl
      · split
        · split
          · rename_i failure hlevels
            rw [hlevels]
            rfl
          · rename_i stated hlevels
            rw [hlevels]
            exact hchanged f.position.levels (setProtective order stated f.position) rfl
        · by_cases hcancelled : event.executionType = .orderCancelled
          · rw [if_pos hcancelled, if_pos (decide_eq_true hcancelled)]
            exact hchanged f.position.levels (cancelProtective order f.position) rfl
          · rw [if_neg hcancelled, if_neg (by simpa using hcancelled)]
            rfl

/-- Whether the handling of an event that carries its position's state gets to `_sync`. -/
def reachesSync (env : Env) (b : Book) (event : ProtoOAExecutionEvent) (order : ProtoOAOrder) : Bool :=
  match env.pricePrecision order.tradeData.symbolId with
  | none => true
  | some precision =>
    if order.orderType = .stopLossTakeProfit then
      protectiveSyncs env event order precision (positionFor b event order).position
    else order.closingOrder || order.orderId ∉ b.endedEntries || isFill event.executionType

/-- What an event's handling on a loaded symbol leaves of its position's state. -/
theorem held_handleLoaded {env : Env} {b : Book} {precision : ℕ}
    (hstate : event.position? = some state)
    (hprecision : env.pricePrecision order.tradeData.symbolId = some precision) (ops : Operations) :
    (handleLoaded env ops b event order precision).focus.position.held =
      if reachesSync env b event order then
        afterState (positionFor b event order).position.held state
      else (positionFor b event order).position.held := by
  have hreached : reachesSync env b event order =
      if order.orderType = .stopLossTakeProfit then
        protectiveSyncs env event order precision (positionFor b event order).position
      else order.closingOrder || order.orderId ∉ b.endedEntries || isFill event.executionType := by
    unfold reachesSync
    rw [hprecision]
  rw [hreached]
  unfold handleLoaded
  dsimp only
  by_cases htype : order.orderType = .stopLossTakeProfit
  · rw [if_pos htype, if_pos htype]
    exact held_protectiveOn hstate env ops precision _
  · rw [if_neg htype, if_neg htype]
    by_cases hclosing : order.closingOrder = true
    · rw [if_pos hclosing, hclosing]
      exact held_closingOn hstate env ops precision _
    · rw [if_neg hclosing]
      rw [Bool.not_eq_true] at hclosing
      rw [hclosing]
      by_cases hended : order.orderId ∈ b.endedEntries ∧ !isFill event.executionType
      · rw [if_pos hended]
        obtain ⟨hin, hfill⟩ := hended
        rw [Bool.not_eq_true'] at hfill
        simp [hin, hfill]
      · rw [if_neg hended]
        have hreaches : (false || decide (order.orderId ∉ b.endedEntries) ||
            isFill event.executionType) = true := by
          rw [Bool.false_or, Bool.or_eq_true, decide_eq_true_eq]
          by_contra hneither
          rw [not_or, not_not, Bool.not_eq_true] at hneither
          exact hended ⟨hneither.1, by rw [hneither.2]; rfl⟩
        rw [if_pos hreaches]
        exact held_openingOn hstate env precision _

end VenueBook

end NautilusCtrader
