import NautilusCtrader.VenueBook.LegNames

/-!
# What an event makes of a position's own state

Only `_sync` opens, closes or resizes a position, so after every handler a position is open just if it
was after `_sync`. A fill that leaves its position not open ends every leg of it.
-/

namespace NautilusCtrader

open Common

/-- The state of a position that `_sync` reads and writes is the same. -/
structure SameState (p q : Position) : Prop where
  isOpen : q.isOpen = p.isOpen
  volume : q.volume = p.volume
  updatedMs : q.updatedMs = p.updatedMs

/-- A position has its own venue state. -/
theorem SameState.refl (p : Position) : SameState p p := ⟨rfl, rfl, rfl⟩

/-- The same venue state carries from position to position. -/
theorem SameState.trans {p q r : Position} (h : SameState p q) (h' : SameState q r) :
    SameState p r :=
  ⟨h'.isOpen.trans h.isOpen, h'.volume.trans h.volume, h'.updatedMs.trans h.updatedMs⟩

/-- A position without its legs: what the rules about legs leave alone. -/
def Position.outline (p : Position) : Position :=
  { p with legs := {}, foreignLegs := Dict.empty, entryUnknownTold := false }

/-- Positions of one outline have the same venue state. -/
theorem SameState.of_outline {p q : Position} (h : q.outline = p.outline) : SameState p q where
  isOpen := show q.outline.isOpen = p.outline.isOpen from h ▸ rfl
  volume := show q.outline.volume = p.outline.volume from h ▸ rfl
  updatedMs := show q.outline.updatedMs = p.outline.updatedMs from h ▸ rfl

/-! ## Loops -/

/-- A pass over the levels leaves the outline when each of its steps does. -/
theorem outline_overLevels {f : Position → Level → Position × List Record}
    (hf : ∀ p level, (f p level).1.outline = p.outline) (p : Position) :
    (p.overLevels f).1.outline = p.outline :=
  (hf _ .takeProfit).trans (hf p .stopLoss)

/-- One step of a loop over the node's legs. -/
def legStep (f : Level → Leg → Leg × List Record) (p : Position) (level : Level) :
    Position × List Record :=
  match p.legs.get? level with
  | none => (p, [])
  | some leg => ({ p with legs := p.legs.set level (f level leg).1 }, (f level leg).2)

/-- A pass over the legs is one over the levels. -/
theorem overLegs_eq (f : Level → Leg → Leg × List Record) (p : Position) :
    p.overLegs f = p.overLevels (legStep f) := rfl

/-- A pass over the legs leaves the outline. -/
theorem outline_overLegs (f : Level → Leg → Leg × List Record) (p : Position) :
    (p.overLegs f).1.outline = p.outline := by
  rw [overLegs_eq]
  refine outline_overLevels (fun p level => ?_) p
  unfold legStep
  split <;> rfl

/-- The step of a level changes the leg of that level alone. -/
theorem legs_legStep (f : Level → Leg → Leg × List Record) (p : Position) (level x : Level) :
    (legStep f p level).1.legs.get? x =
      if level = x then (p.legs.get? x).map fun leg => (f x leg).1 else p.legs.get? x := by
  unfold legStep
  split
  case h_1 hnone =>
    split
    case isTrue hl => rw [← hl, hnone]; rfl
    case isFalse => rfl
  case h_2 leg hleg =>
    rw [ByLevel.get?_set]
    split
    case isTrue hl => rw [← hl, hleg]; rfl
    case isFalse => rfl

/-- What a loop over the node's legs makes of them. -/
theorem legs_overLegs (f : Level → Leg → Leg × List Record) (p : Position) (level : Level) :
    (p.overLegs f).1.legs.get? level = (p.legs.get? level).map fun leg => (f level leg).1 := by
  show (legStep f (legStep f p .stopLoss).1 .takeProfit).1.legs.get? level = _
  rw [legs_legStep, legs_legStep]
  cases level <;> rfl

/-- A pass over the legs leaves the foreign ones. -/
theorem foreignLegs_overLegs (f : Level → Leg → Leg × List Record) (p : Position) :
    (p.overLegs f).1.foreignLegs = p.foreignLegs := by
  have hstep : ∀ (q : Position) level, (legStep f q level).1.foreignLegs = q.foreignLegs := by
    intro q level
    unfold legStep
    split <;> rfl
  exact (hstep _ .takeProfit).trans (hstep p .stopLoss)

namespace VenueBook

/-! ## Rules that leave the state alone -/

/-- Following the change of a level leaves the outline. -/
theorem outline_levelChange (oldLevels : Levels) (manual : Bool) (ts : ℤ) (p : Position)
    (level : Level) : (levelChange oldLevels manual ts p level).1.outline = p.outline := by
  unfold levelChange
  dsimp only
  split
  · rfl
  · split
    · rfl
    · split
      · split <;> rfl
      · split
        · rfl
        · split <;> rfl

/-- So does following those of both. -/
theorem outline_levelChanges (oldLevels : Levels) (manual : Bool) (ts : ℤ) (p : Position) :
    (levelChanges oldLevels manual ts p).1.outline = p.outline := by
  have hresized : ∀ q, (resizeLegs ts q).1.outline = q.outline := fun q => outline_overLegs _ q
  exact (hresized _).trans (outline_overLevels (outline_levelChange oldLevels manual ts) p)

/-- Following a level of a foreign leg leaves the outline. -/
theorem outline_foreignChange (heldClosed : Finset String) (entryOrderId : ℤ) (oldLevels : Levels)
    (ts : ℤ) (p : Position) (level : Level) :
    (ForeignLegs.levelChange heldClosed entryOrderId oldLevels ts p level).1.outline =
      p.outline := by
  unfold ForeignLegs.levelChange
  split
  · rfl
  · rfl
  · split <;> rfl
  · rfl

/-- So does following both levels. -/
theorem outline_foreignChanges (heldClosed : Finset String) (oldLevels : Levels) (ts : ℤ)
    (p : Position) :
    (ForeignLegs.levelChanges heldClosed oldLevels ts p).1.outline = p.outline := by
  unfold ForeignLegs.levelChanges
  split
  · unfold ForeignLegs.entryUnknown
    split <;> rfl
  · exact outline_overLevels (outline_foreignChange heldClosed _ oldLevels ts) p

/-- Ending the legs after a close leaves the venue state. -/
theorem sameState_closedBy (deal : ProtoOADeal) (p : Position) :
    SameState p (closedBy deal p).1 := by
  have hcleared : SameState p { p with protectiveOrderId := none, levels := {} } := ⟨rfl, rfl, rfl⟩
  have hcancelled : SameState { p with protectiveOrderId := none, levels := {} }
      (cancelLegs deal.executionTimestamp { p with protectiveOrderId := none, levels := {} }).1 :=
    .of_outline (outline_overLegs ..)
  exact (hcleared.trans hcancelled).trans ⟨rfl, rfl, rfl⟩

/-- Adopting an entry leaves the venue state. -/
theorem sameState_adopt (p : Position) (entry : ProtoOAOrder) (restored : Bool)
    (waiting : Finset String) : SameState p (adopt p entry restored waiting).1 := by
  unfold adopt
  dsimp only
  split
  · exact ⟨rfl, rfl, rfl⟩
  · split <;> exact ⟨rfl, rfl, rfl⟩

/-- So does learning one from its event. -/
theorem sameState_learn (order : ProtoOAOrder) (learnt ended : Bool) (p : Position) :
    SameState p (learn order learnt ended p).1 := by
  have hadopted : SameState p (if learnt then adopt p order false ∅ else (p, [])).1 := by
    split
    · exact sameState_adopt ..
    · exact .refl p
  unfold learn
  dsimp only
  split
  · exact hadopted.trans ⟨rfl, rfl, rfl⟩
  · exact hadopted

/-- `_sync` only looks at the state it writes. -/
theorem sameState_sync (event : ProtoOAExecutionEvent) (order : ProtoOAOrder) (f : Focus)
    {q : Position} (h : SameState f.position q) :
    SameState (sync event order f).position (sync event order { f with position := q }).position := by
  unfold sync
  split
  case h_1 state _ =>
    unfold syncState
    dsimp only
    rw [h.updatedMs]
    split
    · exact ⟨h.isOpen, h.volume, rfl⟩
    · exact ⟨rfl, rfl, rfl⟩
  case h_2 =>
    split
    · exact h
    case h_2 deal _ =>
      dsimp only
      split
      · exact h
      · unfold syncDeal
        simp only [h.isOpen, h.volume]
        split
        · exact ⟨rfl, rfl, h.updatedMs⟩
        · split
          · exact ⟨rfl, rfl, h.updatedMs⟩
          · exact h

/-! ## Handlers that leave the state alone -/

/-- When the whole is told, both parts ran and the first told its records. -/
theorem Handled.andThen_of_ok {h : Handled} {next : Focus → Handled} {told : List Record}
    (hok : (h.andThen next).records = .ok told) :
    (h.andThen next).focus = (next h.focus).focus ∧ ∃ first, h.records = .ok first := by
  obtain ⟨first, -, hfirst, -, -⟩ := told_andThen hok
  refine ⟨?_, first, hfirst⟩
  unfold Handled.andThen
  rw [hfirst]

/-- What two parts leave is what the first left, or the second after it. -/
theorem Handled.andThen_focus (h : Handled) (next : Focus → Handled) :
    (h.andThen next).focus = h.focus ∨ (h.andThen next).focus = (next h.focus).focus := by
  unfold Handled.andThen
  split
  · exact .inl rfl
  · exact .inr rfl

/-- Two parts that tell their records tell them one after the other. -/
theorem Handled.andThen_ok {h : Handled} {next : Focus → Handled} {told later : List Record}
    (hok : h.records = .ok told) (hnext : (next h.focus).records = .ok later) :
    (h.andThen next).records = .ok (told ++ later) := by
  unfold Handled.andThen
  rw [hok]
  simp only [hnext]
  rfl

/-- A handler that leaves the state of its position alone, and drops only one that is not open. -/
structure Keeps (f : Focus) (h : Handled) : Prop where
  same : SameState f.position h.focus.position
  place : h.focus.stored = f.stored ∨ h.focus.position.isOpen = false

/-- Two parts that each keep the state keep it together. -/
theorem Keeps.andThen {f : Focus} {h : Handled} {next : Focus → Handled} (hh : Keeps f h)
    (hnext : Keeps h.focus (next h.focus)) : Keeps f (h.andThen next) := by
  unfold Handled.andThen
  split
  · exact ⟨hh.same, hh.place⟩
  · refine ⟨hh.same.trans hnext.same, ?_⟩
    rcases hnext.place with hstored | hclosed
    · refine hh.place.imp hstored.trans fun hclosed => ?_
      exact hnext.same.isOpen.trans hclosed
    · exact .inr hclosed

/-- Ending what a closed position leaves keeps its state. -/
theorem keeps_endIfClosed (event : ProtoOAExecutionEvent) (asked : Bool) (f : Focus) :
    Keeps f (endIfClosed event asked f) := by
  unfold endIfClosed
  split
  · exact ⟨sameState_closedBy .., .inl rfl⟩
  · exact ⟨.refl _, .inl rfl⟩

/-- A fill of the entry leaves the venue state. -/
theorem sameState_entryFilled (order : ProtoOAOrder) (fill : Fill) (p : Position) :
    SameState p (entryFilled order fill p).1 := by
  have hfollowed : SameState p (followProtection fill { p with entryAccepted := true }).1 := by
    unfold followProtection
    have haccepted : SameState p { p with entryAccepted := true } := ⟨rfl, rfl, rfl⟩
    split
    · exact haccepted.trans (.of_outline (outline_levelChanges ..))
    · exact haccepted
  refine hfollowed.trans ?_
  show SameState _ (awaitLevels _).1
  unfold awaitLevels
  split <;> exact ⟨rfl, rfl, rfl⟩

/-- So does ending the legs of an entry. -/
theorem sameState_endEntryLegs (ended : OrderEventKind) (order : ProtoOAOrder) (p : Position) :
    SameState p (endEntryLegs ended order p).1 := by
  unfold endEntryLegs
  split
  · exact .of_outline (outline_overLegs ..)
  · exact .refl p

/-- An event of the node's own entry keeps the state. -/
theorem keeps_entryEvent (env : Env) (event : ProtoOAExecutionEvent) (order : ProtoOAOrder)
    (precision : ℕ) (f : Focus) : Keeps f (entryEvent env event order precision f) := by
  unfold entryEvent
  dsimp only
  split
  · split
    · exact ⟨.refl _, .inl rfl⟩
    · exact ⟨⟨rfl, rfl, rfl⟩, .inl rfl⟩
  · split
    · split
      · exact ⟨.refl _, .inl rfl⟩
      · exact ⟨sameState_entryFilled order _ _, .inl rfl⟩
    · split
      · exact ⟨.refl _, .inl rfl⟩
      case h_2 ended _ =>
        have hsame := sameState_endEntryLegs ended order f.position
        split
        case isTrue hnever =>
          simp only [Bool.and_eq_true, Bool.not_eq_true'] at hnever
          have hposition : (dropEntry order
              { f with position := (endEntryLegs ended order f.position).1 }).position =
              (endEntryLegs ended order f.position).1 := (dropEntry_does order _).2.2
          refine ⟨?_, .inr ?_⟩
          · show SameState _ (dropEntry order _).position
            rw [hposition]
            exact hsame
          · show (dropEntry order _).position.isOpen = false
            rw [hposition, hsame.isOpen]
            exact hnever.2
        case isFalse => exact ⟨hsame, .inl rfl⟩

/-- An event of another's entry keeps it too. -/
theorem keeps_openedExternal (env : Env) (event : ProtoOAExecutionEvent) (order : ProtoOAOrder)
    (precision : ℕ) (learnt : Bool) (f : Focus) :
    Keeps f (openedExternal env event order precision learnt f) := by
  have hposition := externalEvent_position env event order precision false f
  refine Keeps.andThen ⟨by rw [hposition]; exact .refl _, .inl (externalEvent_stored ..)⟩
    ⟨?_, .inl rfl⟩
  dsimp only [Focus.tell]
  split
  · exact .of_outline (outline_foreignChanges ..)
  · exact .refl _

/-- Whoever's the entry is, its records keep the state. -/
theorem keeps_openingRecords (env : Env) (event : ProtoOAExecutionEvent) (order : ProtoOAOrder)
    (precision : ℕ) (learnt : Bool) (f : Focus) :
    Keeps f (openingRecords env event order precision learnt f) := by
  unfold openingRecords
  split
  · exact keeps_entryEvent ..
  · exact keeps_openedExternal ..

/-- So does what follows an opening. -/
theorem keeps_openedTail (event : ProtoOAExecutionEvent) (order : ProtoOAOrder) (f : Focus) :
    Keeps f (openedTail event order f) :=
  Keeps.andThen ⟨.refl _, .inl rfl⟩ (keeps_endIfClosed ..)

/-- An opening leaves the state the event synced. -/
theorem sameState_opened (event : ProtoOAExecutionEvent) (order : ProtoOAOrder) (learnt : Bool)
    (f : Focus) : SameState (sync event order f).position
      (opened event order learnt f).focus.position := by
  refine (sameState_sync event order f
    (sameState_learn order learnt (order.orderId ∈ f.book.endedEntries) f.position)).trans ?_
  show SameState _ (stampFill ..)
  unfold stampFill
  split <;> exact ⟨rfl, rfl, rfl⟩

/-- What an opening order's event makes of its position is what `_sync` makes of it. -/
theorem sameState_openingOn (env : Env) (event : ProtoOAExecutionEvent) (order : ProtoOAOrder)
    (precision : ℕ) (f : Focus) :
    let done := (openingOn env event order precision f).focus
    SameState (sync event order f).position done.position ∧
      (done.stored = f.stored ∨ done.position.isOpen = false) := by
  intro done
  have hopened : Keeps (opened event order (takesEntry event order f.position) f).focus
      (opened event order (takesEntry event order f.position) f) := ⟨.refl _, .inl rfl⟩
  have hrest := Keeps.andThen (Keeps.andThen hopened
    (keeps_openingRecords env event order precision (takesEntry event order f.position) _))
    (keeps_openedTail event order _)
  refine ⟨(sameState_opened ..).trans hrest.same, hrest.place.imp_left fun hstored => ?_⟩
  exact hstored.trans (sync_place event order _).1

/-- A new state of the protective order is read, and the legs follow it. -/
theorem protectiveOn_of_states {env : Env} {ops : Operations} {event : ProtoOAExecutionEvent}
    {order : ProtoOAOrder} {precision : ℕ} {f : Focus}
    (hstate : statesLevels event order f.position) :
    protectiveOn env ops event order precision f =
      match levelsOf order precision with
      | .error failure =>
        { f with position := takeProtective order f.position }.raise failure
      | .ok stated =>
        protectiveChanged env ops event order f.position.levels
          { f with position := setProtective order stated f.position } := by
  simp only [statesLevels, Bool.and_eq_true, Bool.not_eq_true', decide_eq_true_eq,
    Bool.or_eq_true] at hstate
  obtain ⟨⟨hretired, hfill⟩, hkind⟩ := hstate
  have hcurrent : ¬ (event.executionType ≠ .orderAccepted ∧ f.position.protectiveOrderId.isSome ∧
      f.position.protectiveOrderId ≠ some order.orderId) := by
    rintro ⟨hkind', hsome, hne⟩
    rcases hkind with hkind | ⟨-, hnone | hid⟩
    · exact hkind' hkind
    · simp [Option.isNone_iff_eq_none.mp hnone] at hsome
    · exact hne hid
  have hkinds : event.executionType = .orderAccepted ∨ event.executionType = .orderReplaced :=
    hkind.imp_right (·.1)
  unfold protectiveOn
  dsimp only
  rw [hfill, decide_eq_false hretired]
  rw [if_neg (by simp), if_neg (by simp), if_neg (by simpa using hcurrent)]
  exact if_pos (by simpa using hkinds)

/-- A new state of the protective order is taken, and the legs follow it. -/
theorem protectiveOn_states {env : Env} {ops : Operations} {event : ProtoOAExecutionEvent}
    {order : ProtoOAOrder} {precision : ℕ} {f : Focus} {stated : Levels}
    (hstate : statesLevels event order f.position) (hstated : levelsOf order precision = .ok stated) :
    protectiveOn env ops event order precision f =
      protectiveChanged env ops event order f.position.levels
        { f with position := setProtective order stated f.position } := by
  rw [protectiveOn_of_states hstate, hstated]

/-- The legs' changes at the end of a protective order's event leave the rest of the position as
`_sync` made it. -/
theorem outline_protectiveChanged (env : Env) (ops : Operations) (event : ProtoOAExecutionEvent)
    (order : ProtoOAOrder) (oldLevels : Levels) (f : Focus) :
    (protectiveChanged env ops event order oldLevels f).focus.position.outline =
      (sync event order f).position.outline := by
  show (ite _ _ _ : Position × List Record).1.outline = _
  split
  · exact outline_levelChanges ..
  · exact outline_foreignChanges ..

/-- The same for a new state of the protective order's levels. -/
theorem sameState_protectiveOn {env : Env} {ops : Operations} {event : ProtoOAExecutionEvent}
    {order : ProtoOAOrder} {precision : ℕ} {f : Focus} {stated : Levels}
    (hstate : statesLevels event order f.position) (hstated : levelsOf order precision = .ok stated) :
    SameState (sync event order f).position
        (protectiveOn env ops event order precision f).focus.position ∧
      (protectiveOn env ops event order precision f).focus.stored = f.stored := by
  have hset : SameState f.position (setProtective order stated f.position) := ⟨rfl, rfl, rfl⟩
  rw [protectiveOn_states hstate hstated]
  exact ⟨(sameState_sync event order f hset).trans (.of_outline (outline_protectiveChanged ..)),
    (sync_place event order _).1⟩

/-! ## Handlers that drop no position -/

/-- Two parts that each leave where the position is stored leave it together. -/
theorem stored_andThen {f : Focus} {h : Handled} {next : Focus → Handled}
    (hh : h.focus.stored = f.stored) (hnext : ∀ g, (next g).focus.stored = g.stored) :
    (h.andThen next).focus.stored = f.stored := by
  rcases Handled.andThen_focus h next with heq | heq
  · rw [heq, hh]
  · rw [heq, hnext, hh]

/-- Ending what a closed position leaves does not store it anew. -/
theorem stored_endIfClosed (event : ProtoOAExecutionEvent) (asked : Bool) (f : Focus) :
    (endIfClosed event asked f).focus.stored = f.stored := by
  unfold endIfClosed
  split <;> rfl

/-- Nor does taking a trigger's fill. -/
theorem stored_takeTrigger (order : ProtoOAOrder) (deal : ProtoOADeal) (fill : Fill)
    (level : Option Level) (levels : Levels) (f : Focus) :
    (takeTrigger order deal fill level levels f).focus.stored = f.stored := by
  unfold takeTrigger
  dsimp only
  split
  · rfl
  · rfl
  · split <;> rfl

/-- Nor does a triggered level. -/
theorem stored_triggered (env : Env) (event : ProtoOAExecutionEvent) (order : ProtoOAOrder)
    (precision : ℕ) (f : Focus) : (triggered env event order precision f).focus.stored = f.stored := by
  unfold triggered
  split
  · rfl
  · split
    · rfl
    · exact stored_andThen (stored_andThen (sync_place event order f).1 fun g =>
        stored_takeTrigger ..) fun g => stored_endIfClosed ..

/-- Nor does an event of a protective order. -/
theorem stored_protectiveOn (env : Env) (ops : Operations) (event : ProtoOAExecutionEvent)
    (order : ProtoOAOrder) (precision : ℕ) (f : Focus) :
    (protectiveOn env ops event order precision f).focus.stored = f.stored := by
  have hchanged : ∀ oldLevels g,
      (protectiveChanged env ops event order oldLevels g).focus.stored = g.stored :=
    fun _ g => (sync_place event order g).1
  unfold protectiveOn
  dsimp only
  split
  · refine stored_andThen ?_ fun g => stored_triggered ..
    rfl
  · split
    · rfl
    · split
      · rfl
      · split
        · split
          · rfl
          · exact hchanged _ _
        · split
          · exact hchanged _ _
          · rfl

/-- Nor does one of a closing order. -/
theorem stored_closingOn (env : Env) (ops : Operations) (event : ProtoOAExecutionEvent)
    (order : ProtoOAOrder) (precision : ℕ) (f : Focus) :
    (closingOn env ops event order precision f).focus.stored = f.stored := by
  have hnode : ∀ closeId g, (nodeClose env event order closeId precision g).focus.stored =
      g.stored := by
    intro closeId g
    unfold nodeClose
    dsimp only
    split
    · rfl
    · split
      · split <;> rfl
      · split <;> rfl
  have hrecords : ∀ closeId g,
      (closingRecords env event order precision closeId g).focus.stored = g.stored := by
    intro closeId g
    unfold closingRecords
    split
    · exact hnode ..
    · exact stored_andThen (externalEvent_stored ..) fun _ => rfl
  refine stored_andThen (stored_andThen ?_ fun g => hrecords _ g) fun g => stored_endIfClosed ..
  exact (matchClosing_does ops event order _).2.2.1.trans (sync_place event order f).1

/-- A handler drops only a position that is not open. -/
theorem stored_handleLoaded (env : Env) (ops : Operations) (b : Book)
    (event : ProtoOAExecutionEvent) (order : ProtoOAOrder) (precision : ℕ) :
    handleLoaded env ops b event order precision =
        ⟨⟨b, (positionFor b event order).position, none⟩, .ok []⟩ ∨
      (handleLoaded env ops b event order precision).focus.stored =
        (positionFor b event order).stored ∨
      (handleLoaded env ops b event order precision).focus.position.isOpen = false := by
  unfold handleLoaded
  dsimp only
  split
  · exact .inr (.inl (stored_protectiveOn ..))
  · split
    · exact .inr (.inl (stored_closingOn ..))
    · split
      · exact .inl rfl
      · exact .inr (sameState_openingOn ..).2

end VenueBook

end NautilusCtrader
