import NautilusCtrader.VenueBook.Runs

/-!
# Each deal is reported once

A fill can leave through the entry, a raise, a close or a trigger. `Reports` says what a handler
reports unless it raises: `eventFills`, the one fill of a fill event and nothing for any other. Each
handler has one lemma for it, built from the handlers it calls.

The two ways `apply` refuses a repeat agree on fills: `SeenFillsApplied` says that the key of a fill
event is only ever marked together with its deal.
-/

namespace NautilusCtrader

open Common

namespace VenueBook

/-! ## What a handler reports -/

/-- The fills an event stands for, on a symbol with `precision`. -/
def eventFills (env : Env) (event : ProtoOAExecutionEvent) (precision : ℕ) :
    Except Failure (List Fill) :=
  if isFill event.executionType then (fillOf event.deal precision env.moneyDigits).map ([·])
  else .ok []

/-- What `h` reports unless it raises: the fills `expected`. -/
structure Reports (expected : Except Failure (List Fill)) (h : Handled) : Prop where
  fills_eq : ∀ told, h.records = .ok told → expected = .ok (fillsOf told)

/-- `h` reports no fill. -/
abbrev Silent (h : Handled) : Prop := Reports (.ok []) h

/-- What is told reports its own fills. -/
theorem reports_tell {f : Focus} {told : List Record} {expected : Except Failure (List Fill)} :
    Reports expected (f.tell told) ↔ expected = .ok (fillsOf told) := by
  constructor
  · intro h
    exact h.fills_eq told rfl
  · intro h
    constructor
    rintro _ ⟨⟩
    exact h

/-- What tells no fill is silent. -/
theorem silent_tell {f : Focus} {told : List Record} (h : fillsOf told = []) :
    Silent (f.tell told) :=
  reports_tell.mpr (by rw [h])

/-- What raises reports nothing that is not expected. -/
theorem reports_raise {f : Focus} {failure : Failure} {expected : Except Failure (List Fill)} :
    Reports expected (f.raise failure) := by
  constructor
  rintro _ ⟨⟩

/-- A silent handler followed by one that reports. -/
theorem Silent.andThen {h : Handled} {next : Focus → Handled}
    {expected : Except Failure (List Fill)} (hh : Silent h) (hnext : ∀ f, Reports expected (next f)) :
    Reports expected (h.andThen next) := by
  constructor
  intro told htold
  obtain ⟨first, second, hr, hn, rfl⟩ := told_andThen htold
  have hfirst : fillsOf first = [] := by simpa using (hh.fills_eq first hr).symm
  rw [fillsOf_append, hfirst, List.nil_append]
  exact (hnext h.focus).fills_eq second hn

/-- A handler that reports followed by a silent one. -/
theorem Reports.andThen {h : Handled} {next : Focus → Handled}
    {expected : Except Failure (List Fill)} (hh : Reports expected h)
    (hnext : ∀ f, Silent (next f)) : Reports expected (h.andThen next) := by
  constructor
  intro told htold
  obtain ⟨first, second, hr, hn, rfl⟩ := told_andThen htold
  have hsecond : fillsOf second = [] := by simpa using ((hnext h.focus).fills_eq second hn).symm
  rw [fillsOf_append, hsecond, List.append_nil]
  exact hh.fills_eq first hr

/-- A handler that first reads the deal reports what the deal is. -/
theorem reports_of_fillOf {env : Env} {event : ProtoOAExecutionEvent} {precision : ℕ} {f : Focus}
    {next : Fill → Handled} (hfill : isFill event.executionType)
    (hnext : ∀ fill, Reports (.ok [fill]) (next fill)) :
    Reports (eventFills env event precision)
      (match fillOf event.deal precision env.moneyDigits with
        | .error failure => f.raise failure
        | .ok fill => next fill) := by
  unfold eventFills
  rw [if_pos hfill]
  cases fillOf event.deal precision env.moneyDigits with
  | error failure => exact reports_raise
  | ok fill => exact hnext fill

/-- An event that is no fill has none. -/
theorem eventFills_of_not_fill {env : Env} {event : ProtoOAExecutionEvent} {precision : ℕ}
    (h : isFill event.executionType = false) : eventFills env event precision = .ok [] := by
  simp [eventFills, h]

/-! ## The records of the parts -/

@[simp] theorem fills_legEvent (kind : OrderEventKind) (p : Position) (level : Level) (leg : Leg)
    (ts : ℤ) (quantity price : Option ℚ) (fill : Option Fill) :
    (legEvent kind p level leg ts quantity price fill).fills = fill.toList := rfl

@[simp] theorem fills_activity (kind : ActivityKind) (p : Position) (action : Action) (ts : ℤ)
    (units : Option ℚ) : (activity kind p action ts units).fills = [] := rfl

@[simp] theorem fills_notice (notice : Notice) : (Record.notice notice).fills = [] := rfl

@[simp] theorem fills_awaitProtection (positionId : ℤ) :
    (Record.awaitProtection positionId).fills = [] := rfl

@[simp] theorem fills_entryUnknown (positionId : ℤ) : (Record.entryUnknown positionId).fills = [] :=
  rfl

@[simp] theorem fills_orderFilled (order : ProtoOAOrder) (clientOrderId : Option String)
    (fill : Fill) : (orderFilled order clientOrderId fill).fills = [fill] := rfl

@[simp] theorem fills_orderNews (kind : OrderEventKind) (order : ProtoOAOrder)
    (clientOrderId reason : Option String) :
    (orderNews kind order clientOrderId reason).fills = [] := rfl

@[simp] theorem fills_orderUpdated (order : ProtoOAOrder) (prices : Levels) (ts : ℤ) :
    (orderUpdated order prices ts).fills = [] := rfl

@[simp] theorem fills_externalOrder (order : ProtoOAOrder) (reduceOnly : Bool) (fills : List Fill)
    (kind : ExternalType) (prices : Levels) :
    (Record.externalOrder (externalReport order reduceOnly fills kind prices)).fills = fills := rfl

@[simp] theorem fills_resized (leg : ForeignLeg) (ts : ℤ) :
    (ForeignLegs.resized leg ts).fills = [] := rfl

@[simp] theorem fills_moved (leg : ForeignLeg) (level : Level) (price : ℚ) (ts : ℤ) :
    (ForeignLegs.moved leg level price ts).fills = [] := rfl

@[simp] theorem fills_canceled (leg : ForeignLeg) (ts : ℤ) :
    (ForeignLegs.canceled leg ts).fills = [] := rfl

@[simp] theorem fills_unnamedClose (p : Position) (deal : ProtoOADeal) :
    (unnamedClose p deal).fills = [] := rfl

/-- The fills on a condition. -/
theorem fillsOf_ite (c : Prop) [Decidable c] (rs rs' : List Record) :
    fillsOf (if c then rs else rs') = if c then fillsOf rs else fillsOf rs' := apply_ite ..

/-- Levels without fills have none together. -/
theorem fillsOf_overLevels {f : Position → Level → Position × List Record}
    (hf : ∀ p level, fillsOf (f p level).2 = []) (p : Position) : fillsOf (p.overLevels f).2 = [] := by
  simp [Position.overLevels, hf]

/-- Legs without fills have none together. -/
theorem fillsOf_overLegs {f : Level → Leg → Leg × List Record}
    (hf : ∀ level leg, fillsOf (f level leg).2 = []) (p : Position) :
    fillsOf (p.overLegs f).2 = [] := by
  refine fillsOf_overLevels (fun p level => ?_) p
  dsimp only
  split
  · rfl
  · exact hf level _

/-- Entries without fills have none together. -/
theorem fillsOf_mapAccum {κ α : Type} [DecidableEq κ] {f : κ → α → α × List Record}
    (hf : ∀ k a, fillsOf (f k a).2 = []) (d : Dict κ α) : fillsOf (d.mapAccum f).2 = [] := by
  rw [Dict.mapAccum_emitted]
  induction d.entries with
  | nil => rfl
  | cons e rest ih => rw [List.flatMap_cons, fillsOf_append, hf, ih, List.append_nil]

/-- A level that changes fills nothing. -/
theorem fillsOf_levelChange (oldLevels : Levels) (manual : Bool) (ts : ℤ) (p : Position)
    (level : Level) : fillsOf (levelChange oldLevels manual ts p level).2 = [] := by
  unfold levelChange
  dsimp only
  split
  · split <;> simp
  · split
    · rfl
    · split
      · split <;> split <;> simp
      · split
        · split <;> simp
        · split <;> split <;> simp

/-- Nor do both. -/
theorem fillsOf_levelChanges (oldLevels : Levels) (manual : Bool) (ts : ℤ) (p : Position) :
    fillsOf (levelChanges oldLevels manual ts p).2 = [] := by
  have hsized : ∀ p, fillsOf (resizeLegs ts p).2 = [] := fun p =>
    fillsOf_overLegs (fun level leg => by dsimp only; split <;> simp) p
  simp [levelChanges, fillsOf_overLevels (fillsOf_levelChange oldLevels manual ts), hsized]

/-- Nor does an unknown entry. -/
theorem fillsOf_entryUnknown (p : Position) : fillsOf (ForeignLegs.entryUnknown p).2 = [] := by
  unfold ForeignLegs.entryUnknown
  split <;> simp

/-- Nor does a foreign level that changes. -/
theorem fillsOf_foreignLevelChange (heldClosed : Finset String) (entryOrderId : ℤ)
    (oldLevels : Levels) (ts : ℤ) (p : Position) (level : Level) :
    fillsOf (ForeignLegs.levelChange heldClosed entryOrderId oldLevels ts p level).2 = [] := by
  unfold ForeignLegs.levelChange
  split
  · rfl
  · simp
  · split <;> simp
  · rfl

/-- Nor do both. -/
theorem fillsOf_foreignLevelChanges (heldClosed : Finset String) (oldLevels : Levels) (ts : ℤ)
    (p : Position) : fillsOf (ForeignLegs.levelChanges heldClosed oldLevels ts p).2 = [] := by
  unfold ForeignLegs.levelChanges
  split
  · exact fillsOf_entryUnknown p
  · have hsized : ∀ p, fillsOf (ForeignLegs.resizeLegs ts p).2 = [] := fun p =>
      fillsOf_mapAccum (fun _ leg => by dsimp only; split <;> simp) p.foreignLegs
    simp [fillsOf_overLevels (fillsOf_foreignLevelChange heldClosed _ oldLevels ts), hsized]

/-- Cancelled legs fill nothing. -/
theorem fillsOf_cancelLegs (ts : ℤ) (p : Position) : fillsOf (cancelLegs ts p).2 = [] :=
  fillsOf_overLegs (fun level leg => by split <;> simp) p

/-- Nor does a close, of itself. -/
theorem fillsOf_closedBy (deal : ProtoOADeal) (p : Position) : fillsOf (closedBy deal p).2 = [] := by
  have hforeign : ∀ ts p, fillsOf (ForeignLegs.cancelAll ts p).2 = [] := fun ts p =>
    fillsOf_mapAccum (fun _ leg => by split <;> simp) p.foreignLegs
  simp [closedBy, fillsOf_cancelLegs, hforeign]

/-- Taking an entry fills nothing. -/
theorem fillsOf_adopt (p : Position) (entry : ProtoOAOrder) (restored : Bool)
    (waiting : Finset String) : fillsOf (adopt p entry restored waiting).2 = [] := by
  unfold adopt
  dsimp only
  split
  · rfl
  · split <;> simp

/-- A foreign leg is filled once. -/
theorem fillsOf_foreignFilled (leg : ForeignLeg) (volume : ℕ) (fill : Fill) :
    fillsOf (ForeignLegs.filled leg volume fill).2 = [fill] := by
  unfold ForeignLegs.filled
  simp only [fillsOf_append, fillsOf_ite, fillsOf_cons, fills_resized, fillsOf_nil, List.append_nil,
    ite_self, List.nil_append]
  rfl

/-! ## The handlers -/

/-- An external report has the fills it is given. -/
theorem reportExternal_reports (order : ProtoOAOrder) (precision : ℕ) (reduceOnly : Bool)
    (fills : List Fill) (f : Focus) :
    Reports (.ok fills) (reportExternal order precision reduceOnly fills f) := by
  unfold reportExternal
  dsimp only
  split
  · exact reports_raise
  · exact reports_tell.mpr (by simp)

/-- An external event reports its fills. -/
theorem externalEvent_reports (env : Env) (event : ProtoOAExecutionEvent) (order : ProtoOAOrder)
    (precision : ℕ) (reduceOnly : Bool) (f : Focus) :
    Reports (eventFills env event precision)
      (externalEvent env event order precision reduceOnly f) := by
  unfold externalEvent
  dsimp only
  split
  case isTrue haccepted =>
    rw [eventFills_of_not_fill (by simp [isFill, haccepted])]
    split
    · exact silent_tell rfl
    · exact reportExternal_reports ..
  case isFalse =>
    split
    case isTrue hfill =>
      refine reports_of_fillOf hfill fun fill => ?_
      split
      · exact reports_tell.mpr (by simp)
      · exact reportExternal_reports ..
    case isFalse hfill =>
      rw [eventFills_of_not_fill (by simpa using hfill)]
      split
      · exact silent_tell rfl
      · split
        · split
          · exact silent_tell rfl
          · split
            · exact reports_raise
            · exact silent_tell (by simp)
        · split
          · exact silent_tell (by simp)
          · exact silent_tell rfl

/-- Following an entry's protection fills nothing. -/
theorem fillsOf_followProtection (fill : Fill) (p : Position) :
    fillsOf (followProtection fill p).2 = [] := by
  unfold followProtection
  split
  · exact fillsOf_levelChanges ..
  · rfl

/-- Nor does waiting for levels. -/
theorem fillsOf_awaitLevels (p : Position) : fillsOf (awaitLevels p).2 = [] := by
  unfold awaitLevels
  split <;> simp

/-- An entry is filled once. -/
theorem fillsOf_entryFilled (order : ProtoOAOrder) (fill : Fill) (p : Position) :
    fillsOf (entryFilled order fill p).2 = [fill] := by
  have htold : fillsOf (if p.entryAccepted then []
      else [orderNews .accepted order p.entryClientOrderId]) = [] := by
    split <;> simp
  unfold entryFilled
  simp only [fillsOf_append, fillsOf_cons, htold, fills_orderFilled, fillsOf_followProtection,
    fillsOf_awaitLevels, List.append_nil, List.nil_append]

/-- An event of an entry reports its fills. -/
theorem entryEvent_reports (env : Env) (event : ProtoOAExecutionEvent) (order : ProtoOAOrder)
    (precision : ℕ) (f : Focus) :
    Reports (eventFills env event precision) (entryEvent env event order precision f) := by
  unfold entryEvent
  dsimp only
  split
  case isTrue haccepted =>
    rw [eventFills_of_not_fill (by simp [isFill, haccepted])]
    split
    · exact silent_tell rfl
    · exact silent_tell (by simp)
  case isFalse =>
    split
    case isTrue hfill =>
      refine reports_of_fillOf hfill fun fill => ?_
      exact reports_tell.mpr (by rw [fillsOf_entryFilled])
    case isFalse hfill =>
      rw [eventFills_of_not_fill (by simpa using hfill)]
      split
      · exact silent_tell rfl
      · refine silent_tell ?_
        rw [fillsOf_cons, fills_orderNews, List.nil_append]
        unfold endEntryLegs
        split
        · exact fillsOf_cancelLegs ..
        · rfl

/-- Learning an entry fills nothing. -/
theorem fillsOf_learn (order : ProtoOAOrder) (learnt ended : Bool) (p : Position) :
    fillsOf (learn order learnt ended p).2 = [] := by
  unfold learn
  cases learnt <;> cases ended <;> simp [fillsOf_adopt]

/-- Opening a position is silent. -/
theorem opened_silent (event : ProtoOAExecutionEvent) (order : ProtoOAOrder) (learnt : Bool)
    (f : Focus) : Silent (opened event order learnt f) := by
  refine silent_tell ?_
  rw [fillsOf_append, fillsOf_learn]
  unfold unnamedReduction
  simp only [fillsOf_ite, fillsOf_cons, fills_unnamedClose, fillsOf_nil, List.append_nil, ite_self]

/-- An opening by somebody else reports its fills. -/
theorem openedExternal_reports (env : Env) (event : ProtoOAExecutionEvent) (order : ProtoOAOrder)
    (precision : ℕ) (learnt : Bool) (f : Focus) :
    Reports (eventFills env event precision)
      (openedExternal env event order precision learnt f) := by
  refine Reports.andThen (externalEvent_reports ..) fun f => silent_tell ?_
  rw [fillsOf_append]
  have hchanged : fillsOf (if learnt && !f.position.levels.isEmpty then
      ForeignLegs.levelChanges env.heldClosed {} order.utcLastUpdateTimestamp f.position
      else (f.position, [])).2 = [] := by
    split
    · exact fillsOf_foreignLevelChanges ..
    · rfl
  rw [hchanged]
  split <;> simp

/-- The end of a position is silent. -/
theorem endIfClosed_silent (event : ProtoOAExecutionEvent) (asked : Bool) (f : Focus) :
    Silent (endIfClosed event asked f) := by
  unfold endIfClosed
  split
  · exact silent_tell (fillsOf_closedBy ..)
  · exact silent_tell rfl

/-- So is what follows its opening. -/
theorem openedTail_silent (event : ProtoOAExecutionEvent) (order : ProtoOAOrder) (f : Focus) :
    Silent (openedTail event order f) := by
  refine Silent.andThen (silent_tell ?_) fun f => endIfClosed_silent ..
  unfold stopOutActivity
  split <;> simp

/-- An opening event reports its fills. -/
theorem openingOn_reports (env : Env) (event : ProtoOAExecutionEvent) (order : ProtoOAOrder)
    (precision : ℕ) (f : Focus) :
    Reports (eventFills env event precision) (openingOn env event order precision f) := by
  refine Reports.andThen (Silent.andThen (opened_silent ..) fun f => ?_) (openedTail_silent event order)
  unfold openingRecords
  split
  · exact entryEvent_reports ..
  · exact openedExternal_reports ..

/-- A level that was hit reports the fill. -/
theorem takeTrigger_reports (order : ProtoOAOrder) (deal : ProtoOADeal) (fill : Fill)
    (level : Option Level) (levels : Levels) (f : Focus) :
    Reports (.ok [fill]) (takeTrigger order deal fill level levels f) := by
  unfold takeTrigger
  dsimp only
  split
  · exact reports_tell.mpr (by simp)
  · exact reports_tell.mpr (by rw [fillsOf_foreignFilled])
  · split <;> exact reports_tell.mpr (by simp)

/-- Finding the level fills nothing. -/
theorem triggeredLevel_fills (p : Position) (levels : Levels) (fillPrice : ℚ) :
    fillsOf (triggeredLevel p levels fillPrice).2 = [] := by
  unfold triggeredLevel
  split
  · rfl
  · simp [fillsOf]

/-- A triggered protective order reports its fill. -/
theorem triggered_reports (env : Env) (event : ProtoOAExecutionEvent) (order : ProtoOAOrder)
    (precision : ℕ) (f : Focus) (hfill : isFill event.executionType) :
    Reports (eventFills env event precision) (triggered env event order precision f) := by
  refine reports_of_fillOf hfill fun fill => ?_
  split
  · exact reports_raise
  · refine Reports.andThen (Silent.andThen (silent_tell ?_) fun f => takeTrigger_reports ..)
      (endIfClosed_silent event true)
    exact triggeredLevel_fills ..

/-- Levels that change are silent. -/
theorem protectiveChanged_silent (env : Env) (ops : Operations) (event : ProtoOAExecutionEvent)
    (order : ProtoOAOrder) (oldLevels : Levels) (f : Focus) :
    Silent (protectiveChanged env ops event order oldLevels f) := by
  refine silent_tell ?_
  split
  · exact fillsOf_levelChanges ..
  · exact fillsOf_foreignLevelChanges ..

/-- A protective event reports its fills. -/
theorem protectiveOn_reports (env : Env) (ops : Operations) (event : ProtoOAExecutionEvent)
    (order : ProtoOAOrder) (precision : ℕ) (f : Focus) :
    Reports (eventFills env event precision) (protectiveOn env ops event order precision f) := by
  unfold protectiveOn
  dsimp only
  split
  case isTrue hfill =>
    refine Silent.andThen (silent_tell ?_) fun f => triggered_reports _ _ _ _ _ hfill
    split <;> rfl
  case isFalse hfill =>
    rw [eventFills_of_not_fill (by simpa using hfill)]
    split
    · exact silent_tell rfl
    · split
      · exact silent_tell rfl
      · split
        · split
          · exact reports_raise
          · exact protectiveChanged_silent ..
        · split
          · exact protectiveChanged_silent ..
          · exact silent_tell rfl

/-- A close of the node reports its fills. -/
theorem nodeClose_reports (env : Env) (event : ProtoOAExecutionEvent) (order : ProtoOAOrder)
    (closeId : String) (precision : ℕ) (f : Focus) :
    Reports (eventFills env event precision) (nodeClose env event order closeId precision f) := by
  have haccepted : fillsOf (if order.orderId ∈ f.book.closesAccepted then []
      else [orderNews .accepted order (some closeId)]) = [] := by
    split <;> simp
  unfold nodeClose
  dsimp only
  split
  case isTrue hkind =>
    rw [eventFills_of_not_fill (by simp [isFill, hkind])]
    exact silent_tell haccepted
  case isFalse =>
    split
    case isTrue hfill =>
      refine reports_of_fillOf hfill fun fill => ?_
      exact reports_tell.mpr (by simp [haccepted])
    case isFalse hfill =>
      rw [eventFills_of_not_fill (by simpa using hfill)]
      split
      · exact silent_tell (by simp)
      · exact silent_tell rfl

/-- The activity of a close fills nothing. -/
theorem fillsOf_closeActivity (event : ProtoOAExecutionEvent) (order : ProtoOAOrder)
    (p : Position) : fillsOf (closeActivity event order p) = [] := by
  unfold closeActivity
  dsimp only
  split
  · simp
  · split <;> simp

/-- What a closing event tells reports its fills. -/
theorem closingRecords_reports (env : Env) (event : ProtoOAExecutionEvent) (order : ProtoOAOrder)
    (precision : ℕ) (closeId : Option String) (f : Focus) :
    Reports (eventFills env event precision)
      (closingRecords env event order precision closeId f) := by
  unfold closingRecords
  split
  · exact nodeClose_reports ..
  · refine Reports.andThen (externalEvent_reports ..) fun f => silent_tell ?_
    split
    · exact fillsOf_closeActivity ..
    · rfl

/-- A closing event reports its fills. -/
theorem closingOn_reports (env : Env) (ops : Operations) (event : ProtoOAExecutionEvent)
    (order : ProtoOAOrder) (precision : ℕ) (f : Focus) :
    Reports (eventFills env event precision) (closingOn env ops event order precision f) := by
  refine Reports.andThen (Silent.andThen (silent_tell ?_) fun f => closingRecords_reports ..)
    (endIfClosed_silent event _)
  split <;> simp

/-- Whatever route an event of a loaded symbol takes, it reports its deal's fill, once. -/
theorem handleLoaded_reports (env : Env) (ops : Operations) (b : Book)
    (event : ProtoOAExecutionEvent) (order : ProtoOAOrder) (precision : ℕ) :
    Reports (eventFills env event precision) (handleLoaded env ops b event order precision) := by
  unfold handleLoaded
  dsimp only
  split
  · exact protectiveOn_reports ..
  · split
    · exact closingOn_reports ..
    · split
      case isTrue hended =>
        rw [eventFills_of_not_fill (by simpa using hended.2)]
        exact silent_tell (f := ⟨b, _, none⟩) rfl
      case isFalse => exact openingOn_reports ..

end VenueBook

end NautilusCtrader
