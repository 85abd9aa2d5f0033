import NautilusCtrader.VenueBook.PositionState

/-!
# A position a fill has closed

A fill that leaves its position not open leaves it bare, with no living leg. It stays bare, and no leg
is opened for it, over every run whose events do not revive it (`closed_stays_bare`). `Revives` says
which do: a state of its protective order on a position the node did not open, and an entry learnt
late.
-/

namespace NautilusCtrader

open Common OrderRecord

/-- No leg of the position lives. -/
structure Bare (p : Position) : Prop where
  legs : ∀ level leg, p.legs.get? level = some leg → leg.alive = false
  foreignLegs : ∀ level leg, p.foreignLegs.get? level = some leg → leg.alive = false

/-- A position is bare just if it has no live leg. -/
theorem bare_iff {p : Position} : Bare p ↔ VenueBook.hasLiveLeg p = false := by
  simp only [VenueBook.hasLiveLeg, Bool.or_eq_false_iff, List.any_eq_false, Bool.not_eq_true,
    ByLevel.mem_values, Dict.mem_values]
  constructor
  · rintro ⟨hlegs, hforeign⟩
    refine ⟨?_, ?_⟩
    · rintro leg ⟨level, h⟩
      exact hlegs level leg h
    · rintro leg ⟨level, h⟩
      exact hforeign level leg h
  · rintro ⟨hlegs, hforeign⟩
    exact ⟨fun level leg h => hlegs leg ⟨level, h⟩, fun level leg h => hforeign leg ⟨level, h⟩⟩

instance (p : Position) : Decidable (Bare p) := decidable_of_iff _ bare_iff.symm

/-- `record` opens a leg for the position. -/
def OpensLegOf (positionId : ℤ) (record : Record) : Prop :=
  ∃ order, record = .externalOrder order ∧ isLegId order.venueOrderId ∧
    order.venuePositionId = some (toString positionId)

namespace VenueBook

/-! ## Fills -/

/-- No leg is alive after they are cancelled. -/
theorem legs_cancelLegs (ts : ℤ) (p : Position) (level : Level) (leg : Leg)
    (hleg : (cancelLegs ts p).1.legs.get? level = some leg) : leg.alive = false := by
  unfold cancelLegs at hleg
  rw [legs_overLegs] at hleg
  obtain ⟨old, -, rfl⟩ := Option.map_eq_some_iff.mp hleg
  split
  · rfl
  case isFalse h => simpa using h

/-- A position that is closed is bare. -/
theorem bare_closedBy (deal : ProtoOADeal) (p : Position) : Bare (closedBy deal p).1 where
  legs := legs_cancelLegs deal.executionTimestamp { p with protectiveOrderId := none, levels := {} }
  foreignLegs level leg hleg := by
    unfold closedBy ForeignLegs.cancelAll at hleg
    rw [Dict.get?_mapAccum] at hleg
    obtain ⟨old, -, rfl⟩ := Option.map_eq_some_iff.mp hleg
    split
    · rfl
    case isFalse h => simpa using h

/-- A handler after which its position is open or bare. -/
structure Closes (h : Handled) : Prop where
  bare : h.focus.position.isOpen = false → Bare h.focus.position

/-- The end of a position leaves it open or bare. -/
theorem closes_endIfClosed (event : ProtoOAExecutionEvent) (f : Focus) :
    Closes (endIfClosed event true f) := by
  unfold endIfClosed
  split
  case isTrue => exact ⟨fun _ => bare_closedBy ..⟩
  case isFalse hopen => exact ⟨fun h => absurd h (by simpa [Focus.tell] using hopen)⟩

/-- So does what follows a fill of its entry. -/
theorem closes_openedTail {event : ProtoOAExecutionEvent} (hfill : isFill event.executionType)
    (order : ProtoOAOrder) (f : Focus) : Closes (openedTail event order f) := by
  have hend : Closes (endIfClosed event (hasLegs f.position) f) := by
    cases hlegs : hasLegs f.position with
    | true => exact closes_endIfClosed event f
    | false =>
      simp only [hasLegs, Bool.or_eq_false_iff, Bool.not_eq_eq_eq_not, Bool.not_false,
        ByLevel.isEmpty, Bool.and_eq_true, Option.isNone_iff_eq_none, decide_eq_false_iff_not,
        ne_eq, not_not] at hlegs
      obtain ⟨⟨hs, ht⟩, hforeign⟩ := hlegs
      refine ⟨fun _ => ⟨fun level leg hleg => ?_, fun level leg hleg => ?_⟩⟩
      · cases level
        · exact absurd hleg (by simp [endIfClosed, Focus.tell, hs])
        · exact absurd hleg (by simp [endIfClosed, Focus.tell, ht])
      · rw [Dict.get?_eq_some] at hleg
        exact absurd hleg (by simp [endIfClosed, Focus.tell, hforeign])
  obtain ⟨hfocus, -⟩ := Handled.andThen_of_ok (openedTail_ok event order f).choose_spec
  refine ⟨?_⟩
  rw [openedTail, hfocus, hfill, Bool.true_and]
  exact hend.bare

/-- A fill of a loaded symbol that is applied leaves its position open or bare. -/
theorem closes_handleLoaded {env : Env} {ops : Operations} {b : Book}
    {event : ProtoOAExecutionEvent} {order : ProtoOAOrder} {precision : ℕ} {told : List Record}
    (hfill : isFill event.executionType)
    (hok : (handleLoaded env ops b event order precision).records = .ok told) :
    Closes (handleLoaded env ops b event order precision) := by
  have hlast : ∀ {h : Handled} {next : Focus → Handled} {told : List Record},
      (h.andThen next).records = .ok told → (∀ f, Closes (next f)) → Closes (h.andThen next) := by
    intro h next told hok hnext
    refine ⟨?_⟩
    rw [(Handled.andThen_of_ok hok).1]
    exact (hnext _).bare
  have htriggered : ∀ f, (∃ told, (triggered env event order precision f).records = .ok told) →
      Closes (triggered env event order precision f) := by
    rintro f ⟨told, htold⟩
    unfold triggered at htold ⊢
    split at htold
    case h_1 => cases htold
    case h_2 fill _ =>
      split at htold
      case h_1 => cases htold
      case h_2 stated _ =>
        exact hlast htold fun g => closes_endIfClosed event g
  unfold handleLoaded at hok ⊢
  dsimp only at hok ⊢
  split at hok
  case isTrue hprotective =>
    rw [if_pos hprotective]
    unfold protectiveOn at hok ⊢
    simp only [hfill, if_true] at hok ⊢
    have hfocus := (Handled.andThen_of_ok hok).1
    refine ⟨?_⟩
    rw [hfocus]
    refine (htriggered _ ?_).bare
    obtain ⟨-, told, -, hrecords, -⟩ := told_andThen hok
    exact ⟨told, hrecords⟩
  case isFalse hprotective =>
    rw [if_neg hprotective]
    split at hok
    case isTrue hclosing =>
      rw [if_pos hclosing]
      unfold closingOn at hok ⊢
      simp only [hfill] at hok ⊢
      exact hlast hok fun g => closes_endIfClosed event g
    case isFalse hclosing =>
      rw [if_neg hclosing]
      have hnews : ¬ (order.orderId ∈ b.endedEntries ∧ (!isFill event.executionType) = true) := by
        simp [hfill]
      rw [if_neg hnews] at hok ⊢
      exact hlast hok fun g => closes_openedTail hfill order g

/-! ## Moves -/

/-- A record that opens a leg is about that leg. -/
theorem leg?_of_opensLegOf {positionId : ℤ} {record : Record} (h : OpensLegOf positionId record) :
    record.leg? ≠ none := by
  obtain ⟨order, rfl, hleg, -⟩ := h
  simp [Record.leg?, hleg]

/-- Records about no leg open none. -/
theorem not_opens_of_legless {told : List Record} (htold : Legless told) (positionId : ℤ) :
    ∀ record ∈ told, ¬ OpensLegOf positionId record :=
  fun record hrecord h => leg?_of_opensLegOf h (htold.leg?_eq_none record hrecord)

/-- Only the move that opens a foreign leg tells so, and of its own position. -/
theorem opens_of_move {p q : Position} {act : Act} {told : List Record}
    (hmove : Move p act told q) {positionId : ℤ} {record : Record} (hrecord : record ∈ told)
    (h : OpensLegOf positionId record) :
    p.positionId = positionId ∧ ∃ entryOrderId level, act = .openForeign entryOrderId level := by
  have hleg := leg?_of_opensLegOf h
  cases hmove with
  | other _ htold => exact absurd (htold.leg?_eq_none record hrecord) hleg
  | take _ _ htold => exact absurd (htold.leg?_eq_none record hrecord) hleg
  | takeEnded _ _ htold => exact absurd (htold.leg?_eq_none record hrecord) hleg
  | endSilently => cases hrecord
  | node change _ _ _ hkey =>
    obtain rfl := List.mem_singleton.mp hrecord
    obtain ⟨order, rfl, hid, -⟩ := h
    simp [Record.leg?, hid] at hkey
  | openForeign _ _ _ _ _ _ _ hopens =>
    obtain rfl := List.mem_singleton.mp hrecord
    obtain ⟨order, rfl, -, hplace⟩ := h
    obtain ⟨order', heq, -, hplace', -⟩ := hopens
    cases heq
    rw [hplace', Option.some.injEq, Int.toString_eq_repr, Int.toString_eq_repr] at hplace
    exact ⟨intRepr_injective (congrArg String.toList hplace), _, _, rfl⟩
  | @foreign level leg record' change hleg' _ hallows hkey hnews =>
    obtain rfl := List.mem_singleton.mp hrecord
    obtain ⟨order, rfl, -⟩ := h
    cases change <;> simp [Record.news, LegChange.news] at hnews

/-- A leg is opened by a move on its own position. -/
theorem opens_of_moves {may : Act → Prop} {p q : Position} {told : List Record}
    (hmoves : Moves may p told q) {positionId : ℤ} {record : Record} (hrecord : record ∈ told)
    (h : OpensLegOf positionId record) :
    p.positionId = positionId ∧ ∃ entryOrderId level, may (.openForeign entryOrderId level) := by
  induction hmoves with
  | refl p => cases hrecord
  | @cons p q r act told later hmove hmay _ ih =>
    rcases List.mem_append.mp hrecord with hrecord | hrecord
    · obtain ⟨hplace, entryOrderId, level, rfl⟩ := opens_of_move hmove hrecord h
      exact ⟨hplace, entryOrderId, level, hmay.resolve_left (by simp [Act.quiet])⟩
    · obtain ⟨hplace, hopen⟩ := ih hrecord
      exact ⟨(move_positionId hmove).symm.trans hplace, hopen⟩

/-- The moves that give a bare position no living leg. -/
def KeepsBare : Act → Prop
  | .openForeign _ _ => False
  | .take order => ∀ clientOrderId, LegName.leg clientOrderId ∉ namesOf order false
  | _ => True

/-- A move that opens nothing keeps a position bare. -/
theorem bare_move {p q : Position} {act : Act} {told : List Record} (hp : Sound p) (hbare : Bare p)
    (hmove : Move p act told q) (hact : KeepsBare act) : Bare q := by
  have hadopt : ∀ order, (adopt p order false ∅).1.foreignLegs = p.foreignLegs :=
    fun order => (adopt_entry ..).2.1
  cases hmove with
  | other hsame _ =>
    exact ⟨by rw [hsame.legs]; exact hbare.legs, by rw [hsame.foreignLegs]; exact hbare.foreignLegs⟩
  | take order hentry _ =>
    refine ⟨fun level leg hleg => ?_, by rw [hadopt]; exact hbare.foreignLegs⟩
    obtain ⟨entryId, ids, hlabel, hcomment, hid, -⟩ := adopt_leg (hp.no_legs hentry).1 hleg
    refine absurd ?_ (hact leg.clientOrderId)
    simp only [namesOf, hlabel, hcomment, Bool.false_eq_true, if_false]
    cases level
    · exact List.mem_append_left _ (List.mem_map_of_mem (Option.mem_toList.mpr hid))
    · exact List.mem_append_right _ (List.mem_map_of_mem (Option.mem_toList.mpr hid))
  | takeEnded order hentry _ =>
    exact ⟨fun level leg hleg => endLegs_dead hleg, by
      show ∀ level leg, (adopt p order false ∅).1.foreignLegs.get? level = some leg → _
      rw [hadopt]
      exact hbare.foreignLegs⟩
  | endSilently => exact ⟨fun level leg hleg => endLegs_dead hleg, hbare.foreignLegs⟩
  | node change hleg halive =>
    rw [hbare.legs _ _ hleg] at halive
    cases halive
  | openForeign => exact hact.elim
  | foreign change hleg halive =>
    rw [hbare.foreignLegs _ _ hleg] at halive
    cases halive

/-- A quiet act opens nothing. -/
theorem keepsBare_of_quiet {act : Act} (h : act.quiet) : KeepsBare act := by
  cases act with
  | take order => cases h
  | openForeign entryOrderId level => cases h
  | _ => trivial

/-- Moves that open nothing keep it bare. -/
theorem bare_moves {may : Act → Prop} {p q : Position} {told : List Record} (hp : Sound p)
    (hbare : Bare p) (hmoves : Moves may p told q) (hmay : ∀ act, may act → KeepsBare act) :
    Bare q := by
  induction hmoves with
  | refl p => exact hbare
  | cons hmove hact _ ih =>
    exact ih (sound_move hp hmove)
      (bare_move hp hbare hmove (hact.elim keepsBare_of_quiet (hmay _)))

/-! ## Events that revive a closed position -/

/-- Whether a protective order's state opens legs on a position the node did not open. -/
def statesForeignLevels (event : ProtoOAExecutionEvent) (order : ProtoOAOrder) (precision : ℕ)
    (p : Position) : Bool :=
  statesLevels event order p && !p.ours && p.entryOrderId.isSome &&
    match levelsOf order precision with
    | .ok stated => !stated.isEmpty
    | .error _ => false

/-- Whether the event that makes an order the entry also ends the legs of its record: a fill ends them
with the position, a rejection or the end of an entry without volume cancels them. -/
def endsTaken (env : Env) (event : ProtoOAExecutionEvent) (order : ProtoOAOrder) (precision : ℕ)
    (f : Focus) : Bool :=
  if isFill event.executionType then
    match fillOf event.deal precision env.moneyDigits with
    | .ok _ => true
    | .error _ => false
  else
    match endedEventKind event.executionType with
    | some ended => ended = .rejected || (sync event order f).position.volume = 0
    | none => false

/-- Whether an opening order's event, learnt as the entry, brings legs that stay, or opens some. -/
def learnsLegs (env : Env) (b : Book) (event : ProtoOAExecutionEvent) (order : ProtoOAOrder)
    (precision : ℕ) (f : Focus) : Bool :=
  takesEntry event order f.position &&
    (order.orderId ∉ b.endedEntries || isFill event.executionType) &&
    match parseLabel order.tradeData.label with
    | none => !f.position.levels.isEmpty
    | some _ => namesOf order (order.orderId ∈ b.endedEntries) ≠ [] &&
        !endsTaken env event order precision f

/-- Whether an event gives the position living legs, or opens legs for it, though it stays not open. -/
def revives (env : Env) (b : Book) (event : ProtoOAExecutionEvent) (positionId : ℤ) : Bool :=
  match event.order? with
  | none => false
  | some order =>
    match env.pricePrecision order.tradeData.symbolId with
    | none => false
    | some precision =>
      let f := positionFor b event order
      Handles b event order && order.positionId? = some positionId &&
        !(sync event order f).position.isOpen &&
        if order.orderType = .stopLossTakeProfit then
          statesForeignLevels event order precision f.position
        else !order.closingOrder && learnsLegs env b event order precision f

/-- A node's order learnt as the entry makes the position the node's. -/
theorem opened_ours {event : ProtoOAExecutionEvent} {order : ProtoOAOrder} {f : Focus}
    (htakes : takesEntry event order f.position)
    (hlabel : (parseLabel order.tradeData.label).isSome) :
    let p := (opened event order (takesEntry event order f.position) f).focus.position
    (p.ours && p.entryOrderId = some order.orderId) = true := by
  obtain ⟨entryId, hlabel⟩ := Option.isSome_iff_exists.mp hlabel
  simp only [htakes, opened_entry, Position.ours, opened_client, hlabel]
  rfl

/-- An entry that ends as it is taken brings no living leg. -/
theorem bare_openingOn_ended {env : Env} {event : ProtoOAExecutionEvent} {order : ProtoOAOrder}
    {precision : ℕ} {f : Focus} (hbare : Bare f.position) (htakes : takesEntry event order f.position)
    (hlabel : (parseLabel order.tradeData.label).isSome) (hfill : isFill event.executionType = false)
    (hends : endsTaken env event order precision f) :
    Bare (openingOn env event order precision f).focus.position := by
  simp only [endsTaken, hfill, Bool.false_eq_true, if_false] at hends
  split at hends
  case h_2 => cases hends
  case h_1 ended hended =>
    have hnews : event.executionType ≠ .orderAccepted := by
      intro h
      rw [h] at hended
      cases hended
    let g := (opened event order (takesEntry event order f.position) f).focus
    have hforeign : g.position.foreignLegs = f.position.foreignLegs := by
      show (stampFill ..).foreignLegs = _
      rw [(stampFill_legs ..).foreignLegs, (sync_legs ..).foreignLegs, htakes]
      unfold learn
      dsimp only
      split <;> exact (adopt_entry ..).2.1
    have hcancelled : endEntryLegs ended order g.position =
        cancelLegs order.utcLastUpdateTimestamp g.position := by
      have hvolume : g.position.volume = (sync event order f).position.volume :=
        (sameState_opened event order _ f).volume
      unfold endEntryLegs
      rw [if_pos (by simpa [hvolume] using hends)]
    -- whoever's the entry is, its legs end with it
    have hdead : Bare (cancelLegs order.utcLastUpdateTimestamp g.position).1 := by
      refine ⟨legs_cancelLegs _ _, ?_⟩
      unfold cancelLegs
      rw [foreignLegs_overLegs, hforeign]
      exact hbare.foreignLegs
    have hrecords : Bare (openingRecords env event order precision
        (takesEntry event order f.position) g).focus.position := by
      unfold openingRecords
      rw [if_pos (opened_ours htakes hlabel)]
      unfold entryEvent
      simp only [if_neg hnews, hfill, hended, Bool.false_eq_true, if_false, hcancelled]
      split
      · show Bare (dropEntry order _).position
        rw [(dropEntry_does order _).2.2]
        exact hdead
      · exact hdead
    have htail : ∀ h : Focus, (openedTail event order h).focus.position = h.position := by
      intro h
      simp only [openedTail, endIfClosed, hfill, Bool.false_and]
      rfl
    have hfirst : Bare ((opened event order (takesEntry event order f.position) f).andThen
        (openingRecords env event order precision (takesEntry event order f.position))).focus.position :=
      hrecords
    unfold openingOn
    rcases Handled.andThen_focus ((opened event order (takesEntry event order f.position) f).andThen
      (openingRecords env event order precision (takesEntry event order f.position)))
      (openedTail event order) with h | h
    · rw [h]
      exact hfirst
    · rw [h, htail]
      exact hfirst

/-- A fill that can be read does not raise as the node's entry. -/
theorem openingOn_ok {env : Env} {event : ProtoOAExecutionEvent} {order : ProtoOAOrder}
    {precision : ℕ} {f : Focus} (htakes : takesEntry event order f.position)
    (hlabel : (parseLabel order.tradeData.label).isSome) (hfill : isFill event.executionType)
    (hends : endsTaken env event order precision f) :
    ∃ told, (openingOn env event order precision f).records = .ok told := by
  simp only [endsTaken, hfill, if_true] at hends
  split at hends
  case h_2 => cases hends
  case h_1 fill hread =>
    have hnews : event.executionType ≠ .orderAccepted := by
      intro h
      rw [h] at hfill
      cases hfill
    let g := (opened event order (takesEntry event order f.position) f).focus
    have hrecords : ∃ told, (openingRecords env event order precision
        (takesEntry event order f.position) g).records = .ok told := by
      unfold openingRecords
      rw [if_pos (opened_ours htakes hlabel)]
      unfold entryEvent
      simp only [if_neg hnews, hfill, if_true, hread]
      exact ⟨_, rfl⟩
    obtain ⟨told, htold⟩ := hrecords
    obtain ⟨later, hlater⟩ := openedTail_ok event order (openingRecords env event order precision
      (takesEntry event order f.position) g).focus
    exact ⟨_, Handled.andThen_ok (Handled.andThen_ok rfl htold) hlater⟩

/-! ## One event -/

/-- The position, if the book holds it, is not open. -/
def ShutIn (b : Book) (positionId : ℤ) : Prop :=
  ∀ p, b.positions.get? positionId = some p → p.isOpen = false

instance (b : Book) (positionId : ℤ) : Decidable (ShutIn b positionId) :=
  inferInstanceAs (Decidable (∀ p ∈ b.positions.get? positionId, p.isOpen = false))

/-- The position, if the book holds it, has no living leg. -/
def BareIn (b : Book) (positionId : ℤ) : Prop :=
  ∀ p, b.positions.get? positionId = some p → Bare p

instance (b : Book) (positionId : ℤ) : Decidable (BareIn b positionId) :=
  inferInstanceAs (Decidable (∀ p ∈ b.positions.get? positionId, Bare p))

/-- A blank position is bare. -/
theorem bare_of_blank {positionId : ℤ} {p : Position} (h : Blank positionId p) : Bare p where
  legs level leg hleg := by rw [h.legs, get?_no_legs] at hleg; cases hleg
  foreignLegs level leg hleg := by rw [h.foreignLegs] at hleg; cases hleg

/-- A call that opens no leg and takes none leaves every bare position bare. -/
theorem bare_changes {may : Act → Prop} {b b' : Book} {told : List Record} {positionId : ℤ}
    (hb : AllSound b) (hbare : BareIn b positionId) (hchanges : Changes may b b' told)
    (hmay : ∀ act, may act → KeepsBare act) :
    BareIn b' positionId ∧ ∀ record ∈ told, ¬ OpensLegOf positionId record := by
  have hopens : ∀ {p q : Position} {moved : List Record}, Moves may p moved q →
      Tells told moved → ∀ record ∈ told, ¬ OpensLegOf positionId record := by
    rintro p q moved hmoves (rfl | ⟨rfl, -⟩) record hrecord h
    · obtain ⟨-, e, level, hact⟩ := opens_of_moves hmoves hrecord h
      exact hmay _ hact
    · cases hrecord
  have hmoved : ∀ {x : ℤ} {p q : Position} {moved : List Record}, Found b x p →
      Moves may p moved q → x = positionId → Bare q := by
    rintro x p q moved hp hmoves rfl
    refine bare_moves (hp.sound hb).1 ?_ hmoves hmay
    rcases hp with hp | ⟨-, hblank⟩
    · exact hbare p hp
    · exact bare_of_blank hblank
  cases hchanges with
  | idle hsame htold => exact ⟨fun p hp => hbare p (hsame _ ▸ hp), not_opens_of_legless htold _⟩
  | @moved x p q moved hp hmoves hq hothers htold =>
    refine ⟨fun r hr => ?_, hopens hmoves htold⟩
    by_cases hx : x = positionId
    · subst hx
      rw [hq, Option.some.injEq] at hr
      exact hr ▸ hmoved hp hmoves rfl
    · exact hbare r (hothers _ (Ne.symm hx) ▸ hr)
  | @dropped x p q moved hp hmoves hq hothers htold =>
    refine ⟨fun r hr => ?_, hopens hmoves htold⟩
    by_cases hx : x = positionId
    · subst hx
      rw [hq] at hr
      cases hr
    · exact hbare r (hothers _ (Ne.symm hx) ▸ hr)
  | passing hp hmoves hsame htold =>
    exact ⟨fun r hr => hbare r (hsame _ ▸ hr), hopens hmoves htold⟩

/-- The position an event finds is sound, and under the id the event's order names. -/
theorem positionFor_sound {b : Book} (hb : AllSound b) (event : ProtoOAExecutionEvent)
    (order : ProtoOAOrder) : Sound (positionFor b event order).position ∧
      (positionFor b event order).position.positionId = order.positionId := by
  have hblank := blank_newPosition event order
  rcases positionFor_cases b event order with ⟨-, h⟩ | ⟨x, p, hx, hp, h⟩ | ⟨x, hx, -, h⟩ <;> rw [h]
  · exact ⟨sound_of_blank hblank, hblank.positionId⟩
  · obtain ⟨hsound, hid⟩ := hb x p hp
    exact ⟨hsound, by rw [hid, ProtoOAOrder.positionId, hx]; rfl⟩
  · exact ⟨sound_of_blank hblank, hblank.positionId⟩

/-- An event of a loaded symbol that leaves its position not open, and does not revive it, leaves a
bare position bare and opens no leg for it. -/
theorem bare_handleLoaded {env : Env} {ops : Operations} {b : Book} {event : ProtoOAExecutionEvent}
    {order : ProtoOAOrder} {precision : ℕ} {positionId : ℤ} (hb : AllSound b)
    (hhandles : Handles b event order) (hid : order.positionId? = some positionId)
    (hprecision : env.pricePrecision order.tradeData.symbolId = some precision)
    (hbare : Bare (positionFor b event order).position)
    (hshut : (handleLoaded env ops b event order precision).focus.position.isOpen = false)
    (hsafe : revives env b event positionId = false)
    (hnews : order.orderType ≠ .stopLossTakeProfit → order.closingOrder = false →
      order.orderId ∈ b.endedEntries → isFill event.executionType = true)
    (hdoes : Does (EventMay env b event order precision (positionFor b event order).position)
      (positionFor b event order) (handleLoaded env ops b event order precision)) :
    Bare (handleLoaded env ops b event order precision).focus.position ∧
      ∀ entryOrderId level, ¬ EventMay env b event order precision
        (positionFor b event order).position (.openForeign entryOrderId level) := by
  have hsound := (positionFor_sound hb event order).1
  -- What `revives` says once the event's own facts are put in.
  have hsafe' : (sync event order (positionFor b event order)).position.isOpen = false →
      (if order.orderType = .stopLossTakeProfit then
        statesForeignLevels event order precision (positionFor b event order).position
      else !order.closingOrder &&
        learnsLegs env b event order precision (positionFor b event order)) = false := by
    intro hsync
    simpa only [revives, hhandles.1, hprecision, hid, hhandles, hsync, decide_true, Bool.true_and,
      Bool.not_false] using hsafe
  have hended : order.orderType ≠ .stopLossTakeProfit → order.closingOrder = false →
      (order.orderId ∉ b.endedEntries || isFill event.executionType) = true := by
    intro hprotective hclosing
    by_cases h : order.orderId ∈ b.endedEntries
    · simp [hnews hprotective hclosing h]
    · simp [h]
  have hroute : order.orderType ≠ .stopLossTakeProfit → order.closingOrder = false →
      handleLoaded env ops b event order precision =
        openingOn env event order precision (positionFor b event order) := by
    intro hprotective hclosing
    have hnot : ¬ (order.orderId ∈ b.endedEntries ∧ (!isFill event.executionType) = true) := by
      rintro ⟨h, hfill⟩
      simp [hnews hprotective hclosing h] at hfill
    simp only [handleLoaded, if_neg hprotective, hclosing, Bool.false_eq_true, if_false, if_neg hnot]
  have hopening : order.orderType ≠ .stopLossTakeProfit → order.closingOrder = false →
      learnsLegs env b event order precision (positionFor b event order) = false := by
    intro hprotective hclosing
    rw [hroute hprotective hclosing] at hshut
    have hsync := hsafe' ((sameState_openingOn ..).1.isOpen.symm.trans hshut)
    simpa [if_neg hprotective, hclosing] using hsync
  have hno : ∀ entryOrderId level, ¬ EventMay env b event order precision
      (positionFor b event order).position (.openForeign entryOrderId level) := by
    intro entryOrderId level hact
    cases hact with
    | openTaken hprotective hclosing htakes hlabel hlevel =>
      have hlearns := hopening hprotective hclosing
      have hlevels : (positionFor b event order).position.levels.isEmpty = false := by
        cases level <;> simp_all [ByLevel.isEmpty, Option.isSome_iff_ne_none]
      rw [learnsLegs, htakes, hended hprotective hclosing, hlabel] at hlearns
      simp [hlevels] at hlearns
    | @openProtective stated e l hprotective hstate hstated hours hentry hlevel =>
      have heq : handleLoaded env ops b event order precision =
          protectiveOn env ops event order precision (positionFor b event order) := by
        simp only [handleLoaded, if_pos hprotective]
      rw [heq] at hshut
      have hsync := hsafe' ((sameState_protectiveOn hstate hstated).1.isOpen.symm.trans hshut)
      have hlevels : stated.isEmpty = false := by
        cases level <;> simp_all [ByLevel.isEmpty, Option.isSome_iff_ne_none]
      simp [if_pos hprotective, statesForeignLevels, hstate, hours, hentry, hstated, hlevels] at hsync
  refine ⟨?_, hno⟩
  by_cases hfilled : isFill event.executionType ∧
      ∃ told, (handleLoaded env ops b event order precision).records = .ok told
  · obtain ⟨hfill, told, htold⟩ := hfilled
    exact (closes_handleLoaded hfill htold).bare hshut
  by_cases hends : order.orderType ≠ .stopLossTakeProfit ∧ order.closingOrder = false ∧
      takesEntry event order (positionFor b event order).position ∧
      (parseLabel order.tradeData.label).isSome ∧
      endsTaken env event order precision (positionFor b event order)
  · obtain ⟨hprotective, hclosing, htakes, hlabel, hends⟩ := hends
    have heq := hroute hprotective hclosing
    rw [heq]
    cases hfill : isFill event.executionType with
    | true => exact absurd ⟨hfill, heq ▸ openingOn_ok htakes hlabel hfill hends⟩ hfilled
    | false => exact bare_openingOn_ended hbare htakes hlabel hfill hends
  · obtain ⟨-, -, told, hmoves, -⟩ := hdoes
    refine bare_moves hsound hbare hmoves fun act hact => ?_
    cases act with
    | openForeign entryOrderId level => exact hno _ _ hact
    | take taken =>
      intro clientOrderId hname
      cases hact with
      | take hprotective hclosing htakes hnotEnded =>
        have hlearns := hopening hprotective hclosing
        cases hlabel : parseLabel order.tradeData.label with
        | none => simp [namesOf, hlabel] at hname
        | some entryId =>
          rw [learnsLegs, htakes, hended hprotective hclosing, hlabel,
            decide_eq_false hnotEnded] at hlearns
          simp only [Bool.true_and, Bool.and_eq_false_iff, decide_eq_false_iff_not, ne_eq, not_not,
            Bool.not_eq_false'] at hlearns
          rcases hlearns with hnone | hkills
          · rw [hnone] at hname
            cases hname
          · exact hends ⟨hprotective, hclosing, htakes, by simp [hlabel], hkills⟩
    | _ => trivial

/-- The position an event's order names is held, or new, and the others are as before. -/
theorem positionFor_placed (b : Book) (event : ProtoOAExecutionEvent) {order : ProtoOAOrder} {x : ℤ}
    (hid : order.positionId? = some x) : (positionFor b event order).stored = some x ∧
      (∀ y, y ≠ x →
        (positionFor b event order).book.positions.get? y = b.positions.get? y) ∧
      (b.positions.get? x = some (positionFor b event order).position ∨
        Blank x (positionFor b event order).position) := by
  rcases positionFor_cases b event order with ⟨hnone, -⟩ | ⟨y, p, hy, hp, h⟩ | ⟨y, hy, -, h⟩
  · rw [hid] at hnone
    cases hnone
  · obtain rfl := Option.some.inj (hid.symm.trans hy)
    rw [h]
    exact ⟨rfl, fun _ _ => rfl, .inl hp⟩
  · obtain rfl := Option.some.inj (hid.symm.trans hy)
    rw [h]
    refine ⟨rfl, fun z hz => Dict.get?_set_of_ne _ _ (Ne.symm hz), .inr ?_⟩
    have hblank := blank_newPosition event order
    rwa [ProtoOAOrder.positionId, hid] at hblank

/-- Another position is found as before. -/
theorem get?_finish_other {f g : Focus} {x y : ℤ} (hstored : f.stored = some x)
    (hplace : SamePlace f g) (hy : y ≠ x) :
    g.finish.positions.get? y = f.book.positions.get? y := by
  rcases hplace with ⟨hs, hpositions⟩ | ⟨z, hz, hnone, hpositions⟩
  · rw [hstored] at hs
    simp only [Focus.finish, hs, hpositions, Dict.get?_set_of_ne _ _ (Ne.symm hy)]
  · obtain rfl := Option.some.inj (hstored.symm.trans hz)
    simp only [Focus.finish, hnone, hpositions, Dict.get?_erase, if_neg hy]

/-- The handler's own is found as it left it. -/
theorem get?_finish_self {f g : Focus} {x : ℤ} {q : Position} (hstored : f.stored = some x)
    (hplace : SamePlace f g) (hq : g.finish.positions.get? x = some q) : q = g.position := by
  rcases hplace with ⟨hs, hpositions⟩ | ⟨z, hz, hnone, hpositions⟩
  · rw [hstored] at hs
    simp only [Focus.finish, hs, Dict.get?_set_self, Option.some.injEq] at hq
    exact hq.symm
  · obtain rfl := Option.some.inj (hstored.symm.trans hz)
    simp only [Focus.finish, hnone, hpositions, Dict.get?_erase_self] at hq
    cases hq

/-- The same for the book: what a call does to a position that was bare and is not open after it. -/
theorem bare_handle {env : Env} {ops : Operations} {b : Book} {event : ProtoOAExecutionEvent}
    {order : ProtoOAOrder} {positionId : ℤ} (hb : AllSound b) (hhandles : Handles b event order)
    (hbare : BareIn b positionId) (hshut : ShutIn (handle env ops b event order).1 positionId)
    (hsafe : revives env b event positionId = false) :
    BareIn (handle env ops b event order).1 positionId ∧
      ∀ record ∈ recordsOf (handle env ops b event order).2, ¬ OpensLegOf positionId record := by
  cases hprecision : env.pricePrecision order.tradeData.symbolId with
  | none =>
    refine bare_changes hb hbare (changes_handle env ops b event order) ?_
    rintro act ⟨precision, hsome, -⟩
    rw [hprecision] at hsome
    cases hsome
  | some precision =>
    have hdone : handle env ops b event order =
        ((handleLoaded env ops b event order precision).focus.finish,
          (handleLoaded env ops b event order precision).records) := by
      unfold handle
      rw [hprecision]
    rw [hdone] at hshut ⊢
    have hnothing : handleLoaded env ops b event order precision =
          ⟨⟨b, (positionFor b event order).position, none⟩, .ok []⟩ →
        BareIn (handleLoaded env ops b event order precision).focus.finish positionId ∧
          ∀ record ∈ recordsOf (handleLoaded env ops b event order precision).records,
            ¬ OpensLegOf positionId record := by
      intro h
      rw [h]
      exact ⟨hbare, fun record hrecord => by cases hrecord⟩
    by_cases hnews : order.orderType ≠ .stopLossTakeProfit → order.closingOrder = false →
        order.orderId ∈ b.endedEntries → isFill event.executionType = true
    swap
    · push Not at hnews
      obtain ⟨hprotective, hclosing, hended, hfill⟩ := hnews
      refine hnothing ?_
      simp [handleLoaded, hprotective, hclosing, hended, hfill]
    by_cases hany : handleLoaded env ops b event order precision =
        ⟨⟨b, (positionFor b event order).position, none⟩, .ok []⟩
    · exact hnothing hany
    have hdoes := (does_handleLoaded env ops b event order precision).resolve_left hany
    obtain ⟨-, hplace, told, hmoves, htold⟩ := id hdoes
    have hopens : ∀ record ∈ recordsOf (handleLoaded env ops b event order precision).records,
        OpensLegOf positionId record →
          (positionFor b event order).position.positionId = positionId ∧
            ∃ entryOrderId level, EventMay env b event order precision
              (positionFor b event order).position (.openForeign entryOrderId level) := by
      intro record hrecord h
      rcases tells_recordsOf htold with heq | ⟨hnil, -⟩
      · exact opens_of_moves hmoves (heq ▸ hrecord) h
      · rw [hnil] at hrecord
        cases hrecord
    cases hid : order.positionId? with
    | none =>
      -- An order without a position: the book keeps none, and no level stands.
      have hf : positionFor b event order = ⟨b, newPosition event order, none⟩ := by
        simp only [positionFor, hid]
      rw [hf] at hplace hopens
      refine ⟨fun q hq => hbare q ?_, fun record hrecord hopen => ?_⟩
      · rcases hplace with ⟨hstored, hpositions⟩ | ⟨_, hstored, -, -⟩
        · simpa only [Focus.finish, hstored, hpositions] using hq
        · cases hstored
      · obtain ⟨-, e, level, hact⟩ := hopens record hrecord hopen
        cases hact with
        | openTaken _ _ _ _ hlevel => cases level <;> cases hlevel
        | openProtective _ _ _ _ hentry => cases hentry
    | some x =>
      obtain ⟨hstored, hothers, hfound⟩ := positionFor_placed b event hid
      have hplaceId : (positionFor b event order).position.positionId = x := by
        rw [(positionFor_sound hb event order).2, ProtoOAOrder.positionId, hid]
        rfl
      by_cases hx : x = positionId
      swap
      · refine ⟨fun q hq => hbare q ?_, fun record hrecord hopen => ?_⟩
        · rw [get?_finish_other hstored hplace (Ne.symm hx), hothers _ (Ne.symm hx)] at hq
          exact hq
        · exact hx (hplaceId.symm.trans (hopens record hrecord hopen).1)
      subst hx
      have hp : Bare (positionFor b event order).position := by
        rcases hfound with hp | hblank
        · exact hbare _ hp
        · exact bare_of_blank hblank
      have hfinal : (handleLoaded env ops b event order precision).focus.position.isOpen = false := by
        refine (stored_handleLoaded env ops b event order precision).resolve_left hany |>.elim
          (fun hkept => hshut _ ?_) id
        rw [hstored] at hkept
        simp only [Focus.finish, hkept, Dict.get?_set_self]
      obtain ⟨hq, hno⟩ := bare_handleLoaded hb hhandles hid hprecision hp hfinal hsafe hnews hdoes
      refine ⟨fun q hget => ?_, fun record hrecord hopen => ?_⟩
      · rw [get?_finish_self hstored hplace hget]
        exact hq
      · obtain ⟨-, e, level, hact⟩ := hopens record hrecord hopen
        exact hno e level hact

/-- An event that revives nothing leaves a position bare that it finds or makes closed. -/
theorem bare_apply {env : Env} {ops : Operations} {b : Book} {event : ProtoOAExecutionEvent}
    {positionId : ℤ} (hb : AllSound b) (hbare : BareIn b positionId)
    (hshut : ShutIn (apply env ops b event).1 positionId)
    (hsafe : revives env b event positionId = false) :
    BareIn (apply env ops b event).1 positionId ∧
      ∀ record ∈ recordsOf (apply env ops b event).2, ¬ OpensLegOf positionId record := by
  rcases apply_cases env ops b event with ⟨order, h⟩ | h
  · have hhandle : ∀ {b' : Book}, b'.positions = (handle env ops b event order).1.positions →
        ShutIn b' positionId → BareIn b' positionId ∧
          ∀ record ∈ recordsOf (handle env ops b event order).2, ¬ OpensLegOf positionId record := by
      intro b' hpositions hshut'
      have hshut : ShutIn (handle env ops b event order).1 positionId :=
        fun p hp => hshut' p (by rw [hpositions]; exact hp)
      obtain ⟨hbare', hopens⟩ := bare_handle hb h hbare hshut hsafe
      exact ⟨fun p hp => hbare' p (by rw [← hpositions]; exact hp), hopens⟩
    rw [apply_of_handles h] at hshut ⊢
    split at hshut
    case h_1 failure herror =>
      have := hhandle rfl hshut
      rwa [herror] at this
    case h_2 records hok =>
      have := hhandle (markApplied_positions ..) hshut
      rwa [hok] at this
  · rw [h]
    exact ⟨hbare, fun record hrecord => by cases hrecord⟩

/-! ## A run -/

/-- One call of `apply`, with the environment and the answers it finds. -/
structure Call where
  env : Env
  ops : Operations
  event : ProtoOAExecutionEvent

def Call.operation (call : Call) : Operation := .apply call.env call.ops call.event

/-- The book after `calls`. -/
def appliedTo (b : Book) (calls : List Call) : Book := machine.after b (calls.map Call.operation)

/-- `call` applies a fill that leaves the position not open. -/
structure ShutBy (b : Book) (call : Call) (positionId : ℤ) : Prop where
  handles : ∃ order, Handles b call.event order ∧ order.positionId? = some positionId
  fill : isFill call.event.executionType
  applied : (apply call.env call.ops b call.event).2 =
    .ok (recordsOf (apply call.env call.ops b call.event).2)
  shut : ShutIn (appliedTo b [call]) positionId

/-- Whether the node has loaded the symbol of the event's order. -/
def symbolLoaded (call : Call) : Bool :=
  (call.event.order?.bind fun order => call.env.pricePrecision order.tradeData.symbolId).isSome

/-- An operation that does not revive the position. -/
def Spares (positionId : ℤ) (b : Book) : Operation → Prop
  | .apply env _ event => revives env b event positionId = false
  | _ => True

instance (positionId : ℤ) (b : Book) (operation : Operation) :
    Decidable (Spares positionId b operation) :=
  match operation with
  | .apply env _ event => inferInstanceAs (Decidable (revives env b event positionId = false))
  | .trailingStopMoved .. => inferInstanceAs (Decidable True)
  | .entryFound .. => inferInstanceAs (Decidable True)
  | .cancelLeg .. => inferInstanceAs (Decidable True)
  | .rejectLegs .. => inferInstanceAs (Decidable True)
  | .matchClose .. => inferInstanceAs (Decidable True)
  | .endKeep .. => inferInstanceAs (Decidable True)
  | .closedInReconciliation .. => inferInstanceAs (Decidable True)

/-- The fill that shuts a position leaves it bare, where the node has loaded its symbol. -/
theorem bare_of_shutBy {b : Book} (hb : AllSound b) {call : Call} {positionId : ℤ}
    (h : ShutBy b call positionId) (hlegs : symbolLoaded call ∨ BareIn b positionId) :
    BareIn (appliedTo b [call]) positionId := by
  obtain ⟨order, hhandles, hid⟩ := h.handles
  obtain ⟨hstored, -⟩ := positionFor_placed b call.event hid
  have hsplit : (∃ told, (handle call.env call.ops b call.event order).2 = .ok told) ∧
      (appliedTo b [call]).positions = (handle call.env call.ops b call.event order).1.positions := by
    have happlied := h.applied
    show _ ∧ (apply call.env call.ops b call.event).1.positions = _
    rw [apply_of_handles hhandles] at happlied ⊢
    split at happlied
    case h_1 => cases happlied
    case h_2 records hok =>
      rw [hok]
      exact ⟨⟨records, rfl⟩, markApplied_positions ..⟩
  obtain ⟨⟨told, hok⟩, hpositions⟩ := hsplit
  cases hprecision : call.env.pricePrecision order.tradeData.symbolId with
  | none =>
    have hbare : BareIn b positionId := by
      refine hlegs.resolve_left ?_
      simp [symbolLoaded, hhandles.1, hprecision]
    refine fun p hp => (bare_changes hb hbare (changes_handle call.env call.ops b call.event order)
      ?_).1 p (hpositions ▸ hp)
    rintro act ⟨precision, hsome, -⟩
    rw [hprecision] at hsome
    cases hsome
  | some precision =>
    have hdone : handle call.env call.ops b call.event order =
        ((handleLoaded call.env call.ops b call.event order precision).focus.finish,
          (handleLoaded call.env call.ops b call.event order precision).records) := by
      unfold handle
      rw [hprecision]
    intro p hp
    have hget : (handleLoaded call.env call.ops b call.event order precision).focus.finish.positions.get?
        positionId = some p := by
      rw [hpositions, hdone] at hp
      exact hp
    rw [hdone] at hok
    have hp' : p = (handleLoaded call.env call.ops b call.event order precision).focus.position := by
      rcases does_handleLoaded call.env call.ops b call.event order precision with hnothing | hdoes
      · rw [hnothing] at hget ⊢
        replace hget : b.positions.get? positionId = some p := hget
        simp only [positionFor, hid, hget]
      · exact get?_finish_self hstored hdoes.place hget
    rw [hp']
    exact (closes_handleLoaded h.fill hok).bare (hp' ▸ h.shut p hp)

/-- A bare position that is not open stays bare over every run that spares it, and no leg is opened for
it. -/
theorem bare_run {b : Book} (hb : AllSound b) {positionId : ℤ} (hbare : BareIn b positionId)
    (calls : List Call) (hstill : ∀ mid, mid <+: calls → ShutIn (appliedTo b mid) positionId)
    (hspares : machine.Always (Spares positionId) b (calls.map Call.operation)) :
    BareIn (appliedTo b calls) positionId ∧
      ∀ record ∈ machine.told b (calls.map Call.operation), ¬ OpensLegOf positionId record := by
  induction calls generalizing b with
  | nil => exact ⟨hbare, fun record hrecord => by cases hrecord⟩
  | cons call rest ih =>
    have hshut : ShutIn (apply call.env call.ops b call.event).1 positionId :=
      hstill [call] (List.prefix_append [call] rest)
    obtain ⟨hbare', hopens⟩ := bare_apply hb hbare hshut hspares.1
    have hb' : AllSound (apply call.env call.ops b call.event).1 :=
      allSound_perform hb call.operation
    obtain ⟨hafter, hlater⟩ := ih hb' hbare'
      (fun mid hmid => hstill (call :: mid) (List.cons_prefix_cons.mpr ⟨rfl, hmid⟩)) hspares.2
    refine ⟨hafter, fun record hrecord => ?_⟩
    rcases List.mem_append.mp hrecord with hrecord | hrecord
    · exact hopens record hrecord
    · exact hlater record hrecord

/-- Once a fill has left a position not open, it has no living leg while it is not open, and no leg is
opened for it, in every run of events that spares it. -/
theorem closed_stays_bare {b : Book} (hb : Reachable b) {call : Call} {positionId : ℤ}
    (hshut : ShutBy b call positionId) (hlegs : symbolLoaded call ∨ BareIn b positionId)
    (later : List Call)
    (hstill : ∀ mid, mid <+: later → ShutIn (appliedTo b (call :: mid)) positionId)
    (hspares : machine.Always (Spares positionId) (appliedTo b [call])
      (later.map Call.operation)) :
    BareIn (appliedTo b (call :: later)) positionId ∧
      ∀ record ∈ machine.told (appliedTo b [call]) (later.map Call.operation),
        ¬ OpensLegOf positionId record :=
  bare_run (hb.after [call.operation]).allSound (bare_of_shutBy hb.allSound hshut hlegs) later
    hstill hspares

end VenueBook

namespace Sample

open VenueBook

/-- A trader's position with both levels. -/
def foreignOpen : Book := appliedTo {} [⟨env, {}, entryFill entry⟩,
  ⟨env, {}, protectiveEvent .orderAccepted 200 (some (.finite 90)) (some (.finite 120))⟩]

def close : Call := ⟨env, {}, closingFill⟩

/-- The protective order's event as it came before the close, at `ts`. -/
def late (kind : ProtoOAExecutionType) (ts : ℤ) : Call :=
  ⟨env, {}, protectiveEvent kind ts (some (.finite 91)) (some (.finite 120))⟩

end Sample

namespace VenueBook

/-- A closed position whose protective order is cancelled late. -/
theorem cancelled_position_stays_bare :
    BareIn (appliedTo Sample.foreignOpen [Sample.close, Sample.late .orderCancelled 505]) 10 :=
  (closed_stays_bare ((Reachable.new).after _)
    ⟨⟨Sample.closing, by decide +kernel, rfl⟩, rfl, by decide +kernel, by decide +kernel⟩
    (.inl rfl) [Sample.late .orderCancelled 505]
    (fun mid hmid => by
      rcases List.prefix_cons_iff.mp hmid with rfl | ⟨rest, rfl, hrest⟩
      · decide +kernel
      · obtain rfl := List.prefix_nil.mp hrest
        decide +kernel)
    (by decide +kernel)).1

/-- A state of the protective order made before the close and applied after it opens its legs again. -/
theorem late_protective_revives : ¬ ∀ b, Reachable b → ∀ (call : Call) (positionId : ℤ),
    ShutBy b call positionId → ∀ later : List Call,
    (∀ mid, mid <+: later → ShutIn (appliedTo b (call :: mid)) positionId) →
    BareIn (appliedTo b (call :: later)) positionId ∧
      ∀ record ∈ machine.told (appliedTo b [call]) (later.map Call.operation),
        ¬ OpensLegOf positionId record := by
  intro h
  have hbare := (h Sample.foreignOpen ((Reachable.new).after _) Sample.close 10
    ⟨⟨Sample.closing, by decide +kernel, rfl⟩, rfl, by decide +kernel, by decide +kernel⟩
    [Sample.late .orderReplaced 400] fun mid hmid => by
      rcases List.prefix_cons_iff.mp hmid with rfl | ⟨rest, rfl, hrest⟩
      · decide +kernel
      · obtain rfl := List.prefix_nil.mp hrest
        decide +kernel).1
  exact absurd hbare (by decide +kernel)

end VenueBook

end NautilusCtrader
