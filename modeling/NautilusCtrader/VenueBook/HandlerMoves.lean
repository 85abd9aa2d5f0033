import NautilusCtrader.VenueBook.LegMoves

/-!
# Every handler is a chain of moves

A handler works on a focus, and may raise or drop its position, so its lemma says `Does may f h`. The
last one, `does_handleLoaded`, says for each route of an event which loud moves it can make.
-/

namespace NautilusCtrader

open Common OrderRecord VenueBook

variable {may : Act → Prop}

/-! ## What the handlers of a position do -/

namespace VenueBook

/-- Without a protective order the levels are current. -/
theorem current_of_none {p : Position} (h : p.protectiveOrderId = none) : Current p := by
  intro orderId hheld
  rw [h] at hheld
  cases hheld

/-- A protective order taken for the current one is not retired. -/
theorem current_takeProtective {order : ProtoOAOrder} {p : Position}
    (hretired : order.orderId ∉ p.retiredProtectiveIds) : Current (takeProtective order p) := by
  rintro orderId ⟨⟩
  unfold takeProtective
  dsimp only
  split
  case h_1 current hheld =>
    split
    case isTrue hne => simpa [hretired] using fun h => hne h.symm
    case isFalse => exact hretired
  case h_2 => exact hretired

/-- A close cancels the legs. -/
theorem moves_closedBy (deal : ProtoOADeal) (p : Position) :
    Moves may p (closedBy deal p).2 (closedBy deal p).1 := by
  have hcleared : Moves may p [] { p with protectiveOrderId := none, levels := {} } :=
    .of_same ⟨rfl, rfl, rfl, rfl, rfl, fun _ => current_of_none rfl⟩ .nil
  exact hcleared.trans ((moves_cancelLegs ..).trans (ForeignLegs.moves_cancelAll ..))

/-- An entry's protection is followed. -/
theorem moves_followProtection (fill : Fill) (p : Position) :
    Moves may p (followProtection fill p).2 (followProtection fill p).1 := by
  unfold followProtection
  split
  · exact moves_levelChanges ..
  · exact .refl p

/-- Levels are waited for. -/
theorem moves_awaitLevels (p : Position) : Moves may p (awaitLevels p).2 (awaitLevels p).1 := by
  unfold awaitLevels
  split
  · exact .of_same ⟨rfl, rfl, rfl, rfl, rfl, id⟩ (.single rfl)
  · exact .refl p

/-- An entry is filled. -/
theorem moves_entryFilled (order : ProtoOAOrder) (fill : Fill) (p : Position) :
    Moves may p (entryFilled order fill p).2 (entryFilled order fill p).1 := by
  have haccepted : Legless (if p.entryAccepted then []
      else [orderNews .accepted order p.entryClientOrderId]) := .ite .nil (.single (leg?_orderNews ..))
  have hentry : Moves may p ((if p.entryAccepted then []
      else [orderNews .accepted order p.entryClientOrderId]) ++
        [orderFilled order p.entryClientOrderId fill]) { p with entryAccepted := true } :=
    .of_same ⟨rfl, rfl, rfl, rfl, rfl, id⟩ (haccepted.append (.single (leg?_orderFilled ..)))
  have hmoves := hentry.trans ((moves_followProtection fill _).trans (moves_awaitLevels _))
  unfold entryFilled
  simpa only [List.append_assoc, List.cons_append, List.nil_append] using hmoves

/-- A sync with the venue's state leaves the legs. -/
theorem syncState_legs (p : Position) (state : ProtoOAPosition) : SameLegs p (syncState p state) := by
  unfold syncState
  dsimp only
  split <;> exact ⟨rfl, rfl, rfl, rfl, rfl, id⟩

/-- So does one with a deal. -/
theorem syncDeal_legs (p : Position) (deal : ProtoOADeal) (closing : Bool) :
    SameLegs p (syncDeal p deal closing) := by
  unfold syncDeal
  split
  · exact ⟨rfl, rfl, rfl, rfl, rfl, id⟩
  · split <;> exact ⟨rfl, rfl, rfl, rfl, rfl, id⟩

end VenueBook

/-! ## What the handlers of a focus do -/

/-- The parts of the book only `apply` itself changes. -/
structure SameMarks (b b' : Book) : Prop where
  seen : b'.seen = b.seen
  appliedDeals : b'.appliedDeals = b.appliedDeals
  kept : b'.kept = b.kept
  keptMs : b'.keptMs = b.keptMs
  unconfirmed : b'.unconfirmed = b.unconfirmed
  closedInReconciliation : b'.closedInReconciliation = b.closedInReconciliation

/-- A book has its own marks. -/
theorem SameMarks.refl (b : Book) : SameMarks b b := ⟨rfl, rfl, rfl, rfl, rfl, rfl⟩

/-- What leaves the marks twice leaves them. -/
theorem SameMarks.trans {b b' b'' : Book} (h : SameMarks b b') (h' : SameMarks b' b'') :
    SameMarks b b'' :=
  ⟨h'.seen.trans h.seen, h'.appliedDeals.trans h.appliedDeals, h'.kept.trans h.kept,
    h'.keptMs.trans h.keptMs, h'.unconfirmed.trans h.unconfirmed,
    h'.closedInReconciliation.trans h.closedInReconciliation⟩

/-- The book's own positions stay, unless the handler's position is dropped. -/
def SamePlace (f g : Focus) : Prop :=
  (g.stored = f.stored ∧ g.book.positions = f.book.positions) ∨
    ∃ positionId, f.stored = some positionId ∧ g.stored = none ∧
      g.book.positions = f.book.positions.erase positionId

/-- A position is in its own place. -/
theorem SamePlace.refl (f : Focus) : SamePlace f f := .inl ⟨rfl, rfl⟩

/-- What leaves the place twice leaves it. -/
theorem SamePlace.trans {f g k : Focus} (h : SamePlace f g) (h' : SamePlace g k) : SamePlace f k := by
  rcases h with ⟨hs, hp⟩ | ⟨positionId, hs, hnone, hp⟩
  · rcases h' with ⟨hs', hp'⟩ | ⟨positionId, hs', hnone', hp'⟩
    · exact .inl ⟨hs'.trans hs, hp'.trans hp⟩
    · exact .inr ⟨positionId, hs ▸ hs', hnone', hp ▸ hp'⟩
  · rcases h' with ⟨hs', hp'⟩ | ⟨positionId', hs', -, -⟩
    · exact .inr ⟨positionId, hs, hs'.trans hnone, hp'.trans hp⟩
    · rw [hnone] at hs'
      cases hs'

/-- What a handler did: a chain of moves on the position, whose records it tells. What is lost when
it raises is about no leg. -/
structure Does (may : Act → Prop) (f : Focus) (h : Handled) : Prop where
  marks : SameMarks f.book h.focus.book
  place : SamePlace f h.focus
  moves : ∃ told, Moves may f.position told h.focus.position ∧
    (h.records = .ok told ∨ (∃ failure, h.records = .error failure) ∧ Legless told)

namespace Does

variable {f g : Focus} {h : Handled} {next : Focus → Handled}

/-- A handler tells its moves. -/
theorem of_tell {told : List Record} (hmarks : SameMarks f.book g.book) (hplace : SamePlace f g)
    (hmoves : Moves may f.position told g.position) : Does may f (g.tell told) :=
  ⟨hmarks, hplace, told, hmoves, .inl rfl⟩

/-- A handler that raises loses nothing about a leg. -/
theorem of_raise {told : List Record} {failure : Failure} (hmarks : SameMarks f.book g.book)
    (hplace : SamePlace f g) (hmoves : Moves may f.position told g.position)
    (htold : Legless told) : Does may f (g.raise failure) :=
  ⟨hmarks, hplace, told, hmoves, .inr ⟨⟨failure, rfl⟩, htold⟩⟩

/-- Working on the position alone. -/
theorem of_moves {changed : Position × List Record}
    (hmoves : Moves may f.position changed.2 changed.1) :
    Does may f ({ f with position := changed.1 }.tell changed.2) :=
  of_tell (.refl _) (.inl ⟨rfl, rfl⟩) hmoves

/-- A handler tells of no leg. -/
theorem tell {told : List Record} (htold : Legless told) : Does may f (f.tell told) :=
  of_tell (.refl _) (.refl _) (.tell htold)

/-- A handler raises at once. -/
theorem raise {failure : Failure} : Does may f (f.raise failure) :=
  of_raise (.refl _) (.refl _) (.refl _) .nil

/-- A change of the focus that touches no leg, then a handler. -/
theorem prepend (hmarks : SameMarks f.book g.book) (hplace : SamePlace f g)
    (hmoves : Moves may f.position [] g.position) (hh : Does may g h) : Does may f h := by
  obtain ⟨hmarks', hplace', told, hmoves', htold⟩ := hh
  exact ⟨hmarks.trans hmarks', hplace.trans hplace', told, hmoves.trans hmoves', htold⟩

/-- A handler that tells of no leg, then any other. -/
theorem andThen (hh : Does may f h) (hquiet : ∀ told, h.records = .ok told → Legless told)
    (hnext : Does may h.focus (next h.focus)) : Does may f (h.andThen next) := by
  obtain ⟨hmarks, hplace, told, hmoves, htold⟩ := hh
  unfold Handled.andThen
  rcases htold with hok | ⟨⟨failure, herror⟩, hlegless⟩
  · obtain ⟨hmarks', hplace', told', hmoves', htold'⟩ := hnext
    rw [hok]
    refine ⟨hmarks.trans hmarks', hplace.trans hplace', told ++ told', hmoves.trans hmoves', ?_⟩
    rcases htold' with hok' | ⟨⟨failure, herror⟩, hlegless⟩
    · exact .inl (by simp only [hok']; rfl)
    · exact .inr ⟨⟨failure, by simp only [herror]; rfl⟩, (hquiet told hok).append hlegless⟩
  · rw [herror]
    exact of_raise hmarks hplace hmoves hlegless

/-- Any handler, then one that never raises. -/
theorem andThen_ok (hh : Does may f h) (hok : ∃ told, (next h.focus).records = .ok told)
    (hnext : Does may h.focus (next h.focus)) : Does may f (h.andThen next) := by
  obtain ⟨hmarks, hplace, told, hmoves, htold⟩ := hh
  unfold Handled.andThen
  rcases htold with htold | ⟨⟨failure, herror⟩, hlegless⟩
  · obtain ⟨hmarks', hplace', told', hmoves', htold'⟩ := hnext
    obtain ⟨told'', hok⟩ := hok
    rcases htold' with hok' | ⟨⟨failure, herror⟩, -⟩
    · rw [htold]
      exact ⟨hmarks.trans hmarks', hplace.trans hplace', told ++ told', hmoves.trans hmoves',
        .inl (by simp only [hok']; rfl)⟩
    · rw [hok] at herror
      cases herror
  · rw [herror]
    exact of_raise hmarks hplace hmoves hlegless

end Does

namespace VenueBook

/-- A sync leaves the marks. -/
theorem sync_marks (event : ProtoOAExecutionEvent) (order : ProtoOAOrder) (f : Focus) :
    SameMarks f.book (sync event order f).book := by
  unfold sync
  split
  · exact .refl _
  · split
    · exact .refl _
    · dsimp only
      split <;> exact ⟨rfl, rfl, rfl, rfl, rfl, rfl⟩

/-- It leaves the positions. -/
theorem sync_place (event : ProtoOAExecutionEvent) (order : ProtoOAOrder) (f : Focus) :
    (sync event order f).stored = f.stored ∧
      (sync event order f).book.positions = f.book.positions := by
  unfold sync
  split
  · exact ⟨rfl, rfl⟩
  · split
    · exact ⟨rfl, rfl⟩
    · dsimp only
      split <;> exact ⟨rfl, rfl⟩

/-- `_sync` leaves the entry and the legs alone. -/
theorem sync_legs (event : ProtoOAExecutionEvent) (order : ProtoOAOrder) (f : Focus) :
    SameLegs f.position (sync event order f).position := by
  unfold sync
  split
  · exact syncState_legs ..
  · split
    · exact ⟨rfl, rfl, rfl, rfl, rfl, id⟩
    · dsimp only
      split
      · exact ⟨rfl, rfl, rfl, rfl, rfl, id⟩
      · exact syncDeal_legs ..

/-- It moves no leg. -/
theorem moves_sync (event : ProtoOAExecutionEvent) (order : ProtoOAOrder) (f : Focus) :
    Moves may f.position [] (sync event order f).position := .of_same (sync_legs ..) .nil

/-- A handler run on a focus just synced. -/
theorem does_sync (event : ProtoOAExecutionEvent) (order : ProtoOAOrder) {f : Focus} {h : Handled}
    (hh : Does may (sync event order f) h) : Does may f h :=
  .prepend (sync_marks ..) (.inl (sync_place ..)) (moves_sync ..) hh

/-- The end of a position cancels its legs. -/
theorem does_endIfClosed (event : ProtoOAExecutionEvent) (asked : Bool) (f : Focus) :
    Does may f (endIfClosed event asked f) := by
  unfold endIfClosed
  split
  · exact .of_moves (moves_closedBy ..)
  · exact .tell .nil

/-- It does not raise. -/
theorem endIfClosed_ok (event : ProtoOAExecutionEvent) (asked : Bool) (f : Focus) :
    ∃ told, (endIfClosed event asked f).records = .ok told := by
  unfold endIfClosed
  split <;> exact ⟨_, rfl⟩

/-- Keeping an open order leaves marks and positions. -/
theorem keepOpenOrder_marks (event : ProtoOAExecutionEvent) (order : ProtoOAOrder) (known : Bool)
    (b : Book) : SameMarks b (keepOpenOrder event order known b).1 ∧
      (keepOpenOrder event order known b).1.positions = b.positions := by
  have hrefl : SameMarks b b ∧ b.positions = b.positions := ⟨.refl b, rfl⟩
  have hopen : ∀ openOrders, SameMarks b { b with openOrders := openOrders } ∧
      ({ b with openOrders := openOrders } : Book).positions = b.positions :=
    fun _ => ⟨⟨rfl, rfl, rfl, rfl, rfl, rfl⟩, rfl⟩
  unfold keepOpenOrder
  dsimp only
  split
  · exact hrefl
  · split
    · exact hopen _
    · split
      · exact hopen _
      · split
        · split
          · exact hrefl
          · split
            · exact hopen _
            · exact hrefl
        · exact hrefl

/-- A handler that changes the book's orders only and tells of no leg. -/
theorem does_orders {f g : Focus} {told : List Record} (hmarks : SameMarks f.book g.book)
    (hposition : g.position = f.position) (hstored : g.stored = f.stored)
    (hpositions : g.book.positions = f.book.positions) (htold : Legless told) :
    Does may f (g.tell told) :=
  .of_tell hmarks (.inl ⟨hstored, hpositions⟩) (by rw [hposition]; exact .tell htold)

/-- An external report moves no leg. -/
theorem does_reportExternal (order : ProtoOAOrder) (precision : ℕ) (reduceOnly : Bool)
    (fills : List Fill) (f : Focus) :
    Does may f (reportExternal order precision reduceOnly fills f) := by
  unfold reportExternal
  dsimp only
  split
  · exact .of_raise ⟨rfl, rfl, rfl, rfl, rfl, rfl⟩ (.inl ⟨rfl, rfl⟩) (.refl _) .nil
  · exact does_orders ⟨rfl, rfl, rfl, rfl, rfl, rfl⟩ rfl rfl rfl (.single (leg?_externalReport ..))

/-- Nor does an external event. -/
theorem does_externalEvent (env : Env) (event : ProtoOAExecutionEvent) (order : ProtoOAOrder)
    (precision : ℕ) (reduceOnly : Bool) (f : Focus) :
    Does may f (externalEvent env event order precision reduceOnly f) := by
  obtain ⟨hmarks, hpositions⟩ :=
    keepOpenOrder_marks event order (order.orderId ∈ f.book.reported) f.book
  unfold externalEvent
  dsimp only
  refine .prepend (g := { f with
    book := (keepOpenOrder event order (order.orderId ∈ f.book.reported) f.book).1 }) hmarks
    (.inl ⟨rfl, hpositions⟩) (.refl _) ?_
  split
  · split
    · exact .tell .nil
    · exact does_reportExternal ..
  · split
    · split
      · exact .raise
      · split
        · exact .tell (.single (leg?_orderFilled ..))
        · exact does_reportExternal ..
    · split
      · exact .tell .nil
      · split
        · split
          · exact .tell .nil
          · split
            · exact .raise
            · exact .tell (.single (leg?_orderUpdated ..))
        · split
          · exact .tell (.single (leg?_orderNews ..))
          · exact .tell .nil

/-! ## Opening orders -/

/-- An entry is dropped. -/
theorem dropEntry_does (order : ProtoOAOrder) (f : Focus) :
    SameMarks f.book (dropEntry order f).book ∧ SamePlace f (dropEntry order f) ∧
      (dropEntry order f).position = f.position := by
  unfold dropEntry
  dsimp only
  split
  case h_1 positionId hstored =>
    exact ⟨⟨rfl, rfl, rfl, rfl, rfl, rfl⟩, .inr ⟨positionId, hstored, rfl, rfl⟩, rfl⟩
  case h_2 => exact ⟨⟨rfl, rfl, rfl, rfl, rfl, rfl⟩, .inl ⟨rfl, rfl⟩, rfl⟩

/-- The legs of an entry that ended end with it. -/
theorem moves_endEntryLegs (ended : OrderEventKind) (order : ProtoOAOrder) (p : Position) :
    Moves may p (endEntryLegs ended order p).2 (endEntryLegs ended order p).1 := by
  unfold endEntryLegs
  split
  · exact moves_cancelLegs ..
  · exact .refl p

/-- An event of an entry. -/
theorem does_entryEvent (env : Env) (event : ProtoOAExecutionEvent) (order : ProtoOAOrder)
    (precision : ℕ) (f : Focus) : Does may f (entryEvent env event order precision f) := by
  unfold entryEvent
  dsimp only
  split
  · split
    · exact .tell .nil
    · exact .of_tell (.refl _) (.inl ⟨rfl, rfl⟩)
        (.of_same ⟨rfl, rfl, rfl, rfl, rfl, id⟩ (.single (leg?_orderNews ..)))
  · split
    · split
      · exact .raise
      · exact .of_moves (moves_entryFilled ..)
    · split
      · exact .tell .nil
      case h_2 ended _ =>
        have hnews : Moves may f.position
            [orderNews ended order f.position.entryClientOrderId (reasonOf event)] f.position :=
          .tell (.single (leg?_orderNews ..))
        have hmoves := hnews.trans (moves_endEntryLegs ended order f.position)
        split
        · obtain ⟨hmarks, hplace, hposition⟩ :=
            dropEntry_does order { f with position := (endEntryLegs ended order f.position).1 }
          exact .of_tell hmarks hplace (by rw [hposition]; exact hmoves)
        · exact .of_tell (.refl _) (.inl ⟨rfl, rfl⟩) hmoves

/-- A position takes its entry, and keeps its id and foreign legs. -/
theorem adopt_entry (p : Position) (entry : ProtoOAOrder) (restored : Bool)
    (waiting : Finset String) :
    (adopt p entry restored waiting).1.positionId = p.positionId ∧
      (adopt p entry restored waiting).1.foreignLegs = p.foreignLegs ∧
      (adopt p entry restored waiting).1.entryOrderId = some entry.orderId ∧
      (adopt p entry restored waiting).1.entryClientOrderId =
        (parseLabel entry.tradeData.label).or p.entryClientOrderId := by
  unfold adopt
  dsimp only
  split
  case h_1 hlabel => rw [hlabel]; exact ⟨rfl, rfl, rfl, rfl⟩
  case h_2 entryId hlabel =>
    rw [hlabel]
    split <;> exact ⟨rfl, rfl, rfl, rfl⟩

/-- `_adopt` does not touch the levels. -/
theorem adopt_levels (p : Position) (entry : ProtoOAOrder) (restored : Bool)
    (waiting : Finset String) : (adopt p entry restored waiting).1.levels = p.levels ∧
      (adopt p entry restored waiting).1.entryOrderId = some entry.orderId := by
  unfold adopt
  dsimp only
  split
  · exact ⟨rfl, rfl⟩
  · split <;> exact ⟨rfl, rfl⟩

/-- Taking an entry is about no leg. -/
theorem legless_adopt (p : Position) (entry : ProtoOAOrder) (restored : Bool)
    (waiting : Finset String) : Legless (adopt p entry restored waiting).2 := by
  unfold adopt
  dsimp only
  split
  · exact .nil
  · split
    · exact .single rfl
    · exact .nil

/-- Nor is learning one. -/
theorem legless_learn (order : ProtoOAOrder) (learnt ended : Bool) (p : Position) :
    Legless (learn order learnt ended p).2 := by
  refine .append ?_ (.ite (.single rfl) .nil)
  split
  · exact legless_adopt ..
  · exact .nil

/-- An entry is learnt where none was known. -/
theorem moves_learn {order : ProtoOAOrder} {learnt ended : Bool} {p : Position}
    (hentry : learnt → p.entryOrderId = none) (htake : learnt → ended = false → may (.take order))
    (htakeEnded : learnt → ended = true → may (.takeEnded order)) :
    Moves may p (learn order learnt ended p).2 (learn order learnt ended p).1 := by
  have htold := legless_learn order learnt ended p
  unfold learn at htold ⊢
  cases learnt with
  | false =>
    cases ended with
    | false => exact .refl p
    | true => exact (Moves.single .endSilently (.inl rfl)).trans (.tell htold)
  | true =>
    cases ended with
    | false => exact .single (.take order (hentry rfl) htold) (.inr (htake rfl rfl))
    | true => exact .single (.takeEnded order (hentry rfl) htold) (.inr (htakeEnded rfl rfl))

/-- Learning it leaves the levels. -/
theorem learn_levels (order : ProtoOAOrder) (learnt ended : Bool) (p : Position) :
    (learn order learnt ended p).1.levels = p.levels := by
  unfold learn
  cases learnt <;> cases ended
  · rfl
  · rfl
  · exact (adopt_levels ..).1
  · exact (adopt_levels ..).1

/-- The entry that is learnt is the order. -/
theorem learn_entry {order : ProtoOAOrder} {ended : Bool} {p : Position} :
    (learn order true ended p).1.entryOrderId = some order.orderId := by
  unfold learn
  cases ended <;> exact (adopt_levels ..).2

/-- A position's state and its deals tell neither its levels nor when its entry filled. -/
theorem sync_keeps (event : ProtoOAExecutionEvent) (order : ProtoOAOrder) (f : Focus) :
    (sync event order f).position.levels = f.position.levels ∧
      (sync event order f).position.entryFilledMs = f.position.entryFilledMs := by
  unfold sync
  split
  · unfold syncState
    dsimp only
    split <;> exact ⟨rfl, rfl⟩
  · split
    · exact ⟨rfl, rfl⟩
    · dsimp only
      split
      · exact ⟨rfl, rfl⟩
      · unfold syncDeal
        split
        · exact ⟨rfl, rfl⟩
        · split <;> exact ⟨rfl, rfl⟩

/-- A sync leaves the levels. -/
theorem sync_levels (event : ProtoOAExecutionEvent) (order : ProtoOAOrder) (f : Focus) :
    (sync event order f).position.levels = f.position.levels :=
  (sync_keeps event order f).1

/-- Stamping a fill leaves the legs. -/
theorem stampFill_legs (event : ProtoOAExecutionEvent) (order : ProtoOAOrder) (wasOpen : Bool)
    (p : Position) : SameLegs p (stampFill event order wasOpen p) := by
  unfold stampFill
  split <;> exact ⟨rfl, rfl, rfl, rfl, rfl, id⟩

/-- It leaves the levels. -/
theorem stampFill_levels (event : ProtoOAExecutionEvent) (order : ProtoOAOrder) (wasOpen : Bool)
    (p : Position) : (stampFill event order wasOpen p).levels = p.levels := by
  unfold stampFill
  split <;> rfl

/-- The client order id that is learnt is the label's. -/
theorem learn_client (order : ProtoOAOrder) (ended : Bool) (p : Position) :
    (learn order true ended p).1.entryClientOrderId =
      (parseLabel order.tradeData.label).or p.entryClientOrderId := by
  unfold learn
  cases ended <;> exact (adopt_entry ..).2.2.2

/-- So is that of a position that is opened. -/
theorem opened_client (event : ProtoOAExecutionEvent) (order : ProtoOAOrder) (f : Focus) :
    (opened event order true f).focus.position.entryClientOrderId =
      (parseLabel order.tradeData.label).or f.position.entryClientOrderId := by
  show (stampFill ..).entryClientOrderId = _
  rw [(stampFill_legs ..).entryClientOrderId, (sync_legs ..).entryClientOrderId, learn_client]

/-- Opening a position is about no leg. -/
theorem legless_opened (event : ProtoOAExecutionEvent) (order : ProtoOAOrder) (learnt : Bool)
    (f : Focus) (told : List Record) (h : (opened event order learnt f).records = .ok told) :
    Legless told := by
  cases h
  exact (legless_learn ..).append (.ite (.single (leg?_unnamedClose ..)) .nil)

/-- A position is opened. -/
theorem does_opened {event : ProtoOAExecutionEvent} {order : ProtoOAOrder} {learnt : Bool}
    {f : Focus} (hentry : learnt → f.position.entryOrderId = none)
    (htake : learnt → order.orderId ∉ f.book.endedEntries → may (.take order))
    (htakeEnded : learnt → order.orderId ∈ f.book.endedEntries → may (.takeEnded order)) :
    Does may f (opened event order learnt f) := by
  have hlearn : Moves may f.position
      (learn order learnt (order.orderId ∈ f.book.endedEntries) f.position).2
      (learn order learnt (order.orderId ∈ f.book.endedEntries) f.position).1 :=
    moves_learn hentry (fun h hended => htake h (by simpa using hended))
      (fun h hended => htakeEnded h (by simpa using hended))
  let g : Focus := { f with
    position := (learn order learnt (order.orderId ∈ f.book.endedEntries) f.position).1 }
  have hstamp : Moves may (sync event order g).position
      (unnamedReduction event order g.position
        (stampFill event order g.position.isOpen (sync event order g).position))
      (stampFill event order g.position.isOpen (sync event order g).position) :=
    .of_same (stampFill_legs ..) (.ite (.single (leg?_unnamedClose ..)) .nil)
  exact .of_tell (sync_marks event order g) (.inl (sync_place event order g))
    (hlearn.trans ((moves_sync event order g).trans hstamp))

/-- The levels of a position whose opening order is being handled stay as they were. -/
theorem opened_levels (event : ProtoOAExecutionEvent) (order : ProtoOAOrder) (learnt : Bool)
    (f : Focus) : (opened event order learnt f).focus.position.levels = f.position.levels := by
  show (stampFill ..).levels = _
  rw [stampFill_levels, sync_levels, learn_levels]

/-- Its entry is the order. -/
theorem opened_entry (event : ProtoOAExecutionEvent) (order : ProtoOAOrder) (f : Focus) :
    (opened event order true f).focus.position.entryOrderId = some order.orderId := by
  show (stampFill ..).entryOrderId = _
  rw [(stampFill_legs ..).entryOrderId, (sync_legs ..).entryOrderId, learn_entry]

/-- A report of an external order leaves the position alone. -/
theorem externalEvent_keeps (env : Env) (event : ProtoOAExecutionEvent) (order : ProtoOAOrder)
    (precision : ℕ) (reduceOnly : Bool) (f : Focus) :
    (externalEvent env event order precision reduceOnly f).focus.position = f.position ∧
      (externalEvent env event order precision reduceOnly f).focus.stored = f.stored := by
  have hreport : ∀ fills g, (reportExternal order precision reduceOnly fills g).focus.position =
      g.position ∧ (reportExternal order precision reduceOnly fills g).focus.stored = g.stored := by
    intro fills g
    unfold reportExternal
    dsimp only
    split <;> exact ⟨rfl, rfl⟩
  unfold externalEvent
  dsimp only
  split
  · split
    · exact ⟨rfl, rfl⟩
    · exact hreport ..
  · split
    · split
      · exact ⟨rfl, rfl⟩
      · split
        · exact ⟨rfl, rfl⟩
        · exact hreport ..
    · split
      · exact ⟨rfl, rfl⟩
      · split
        · split
          · exact ⟨rfl, rfl⟩
          · split <;> exact ⟨rfl, rfl⟩
        · split <;> exact ⟨rfl, rfl⟩

/-- An external event leaves the position. -/
theorem externalEvent_position (env : Env) (event : ProtoOAExecutionEvent) (order : ProtoOAOrder)
    (precision : ℕ) (reduceOnly : Bool) (f : Focus) :
    (externalEvent env event order precision reduceOnly f).focus.position = f.position :=
  (externalEvent_keeps env event order precision reduceOnly f).1

/-- It leaves it stored. -/
theorem externalEvent_stored (env : Env) (event : ProtoOAExecutionEvent) (order : ProtoOAOrder)
    (precision : ℕ) (reduceOnly : Bool) (f : Focus) :
    (externalEvent env event order precision reduceOnly f).focus.stored = f.stored :=
  (externalEvent_keeps env event order precision reduceOnly f).2

/-- An opening by somebody else opens foreign legs. -/
theorem does_openedExternal {env : Env} {event : ProtoOAExecutionEvent} {order : ProtoOAOrder}
    {precision : ℕ} {learnt : Bool} {f : Focus} (hours : learnt → f.position.ours = false)
    (hmay : learnt → ∀ entryOrderId level, f.position.entryOrderId = some entryOrderId →
      (f.position.levels.get? level).isSome → may (.openForeign entryOrderId level)) :
    Does may f (openedExternal env event order precision learnt f) := by
  refine .andThen_ok (does_externalEvent ..) ⟨_, rfl⟩ ?_
  have hposition := externalEvent_position env event order precision false f
  have hraised : ∀ p : Position, Legless (if isFill event.executionType && p.ours &&
      !event.isServerEvent && !order.isStopOut then [activity .manualChange p .opened
        event.deal.executionTimestamp (some (volumeToUnits event.deal.filledVolume))] else []) :=
    fun p => .ite (.single rfl) .nil
  refine .of_tell (.refl _) (.inl ⟨rfl, rfl⟩) ((Moves.tell (hraised _)).trans ?_)
  rw [hposition]
  split
  case isTrue hlearnt =>
    exact ForeignLegs.moves_levelChanges (hours (by simp_all)) (hmay (by simp_all))
  case isFalse => exact .refl _

/-- What an opening event tells. -/
theorem does_openingRecords {env : Env} {event : ProtoOAExecutionEvent} {order : ProtoOAOrder}
    {precision : ℕ} {learnt : Bool} {f : Focus}
    (hentry : learnt → f.position.entryOrderId = some order.orderId)
    (hmay : learnt → f.position.ours = false → ∀ entryOrderId level,
      f.position.entryOrderId = some entryOrderId → (f.position.levels.get? level).isSome →
      may (.openForeign entryOrderId level)) :
    Does may f (openingRecords env event order precision learnt f) := by
  unfold openingRecords
  split
  case isTrue => exact does_entryEvent ..
  case isFalse hexternal =>
    have hours : learnt → f.position.ours = false := fun hlearnt => by
      simpa [hentry hlearnt] using hexternal
    exact does_openedExternal hours fun hlearnt => hmay hlearnt (hours hlearnt)

/-- What follows an opening. -/
theorem does_openedTail (event : ProtoOAExecutionEvent) (order : ProtoOAOrder) (f : Focus) :
    Does may f (openedTail event order f) :=
  .andThen_ok (.tell (.ite (.single rfl) .nil)) (endIfClosed_ok ..) (does_endIfClosed ..)

/-- It does not raise. -/
theorem openedTail_ok (event : ProtoOAExecutionEvent) (order : ProtoOAOrder) (f : Focus) :
    ∃ told, (openedTail event order f).records = .ok told := by
  obtain ⟨told, htold⟩ :=
    endIfClosed_ok event (isFill event.executionType && hasLegs f.position) f
  refine ⟨stopOutActivity event order f.position ++ told, ?_⟩
  show Except.map _ (endIfClosed event (isFill event.executionType && hasLegs f.position) f).records
    = _
  rw [htold]
  rfl

/-- An opening event. -/
theorem does_openingOn {env : Env} {event : ProtoOAExecutionEvent} {order : ProtoOAOrder}
    {precision : ℕ} {f : Focus}
    (htake : takesEntry event order f.position → order.orderId ∉ f.book.endedEntries →
      may (.take order))
    (htakeEnded : takesEntry event order f.position → order.orderId ∈ f.book.endedEntries →
      may (.takeEnded order))
    (hopen : takesEntry event order f.position → parseLabel order.tradeData.label = none →
      ∀ level, (f.position.levels.get? level).isSome → may (.openForeign order.orderId level)) :
    Does may f (openingOn env event order precision f) := by
  have hentry : takesEntry event order f.position → f.position.entryOrderId = none := by
    intro h
    simp only [takesEntry, Bool.and_eq_true, Option.isNone_iff_eq_none] at h
    exact h.1
  refine .andThen_ok (.andThen (does_opened hentry htake htakeEnded) (legless_opened event order _ f)
    (does_openingRecords (fun hlearnt => ?_) fun hlearnt hours entryOrderId level hid hlevel => ?_))
    (openedTail_ok ..) (does_openedTail ..)
  · rw [hlearnt]
    exact opened_entry ..
  · rw [hlearnt, opened_entry, Option.some.injEq] at hid
    rw [opened_levels] at hlevel
    rw [Position.ours, hlearnt, opened_client, Option.isSome_eq_false_iff, Option.isNone_iff_eq_none,
      Option.or_eq_none_iff] at hours
    exact hid ▸ hopen hlearnt hours.1 level hlevel

/-! ## Protective orders -/

/-- Finding the level that was hit is about no leg. -/
theorem legless_triggeredLevel (p : Position) (levels : Levels) (fillPrice : ℚ) :
    Legless (triggeredLevel p levels fillPrice).2 := by
  unfold triggeredLevel
  split
  · exact .single rfl
  · refine ⟨fun record hmem => ?_⟩
    obtain ⟨notice, -, rfl⟩ := List.mem_map.mp hmem
    rfl

/-- A level that was hit is taken off its position. -/
theorem does_takeTrigger {order : ProtoOAOrder} {deal : ProtoOADeal} {fill : Fill}
    {level : Option Level} {levels : Levels} {f : Focus}
    (hunits : fill.units = volumeToUnits deal.filledVolume)
    (hnode : ∀ l leg, level = some l → f.position.legs.get? l = some leg → f.position.ours →
      leg.alive → may (.node l leg (.fill deal.filledVolume)))
    (hforeign : ∀ l leg, may (.foreign l leg (.fill deal.filledVolume))) :
    Does may f (takeTrigger order deal fill level levels f) := by
  unfold takeTrigger
  dsimp only
  split
  case h_1 l leg hfound =>
    obtain ⟨l', hlevel, hleg⟩ := Option.bind_eq_some_iff.mp hfound
    obtain ⟨leg', hfilter, hpair⟩ := Option.map_eq_some_iff.mp hleg
    cases hpair
    rw [Option.filter_eq_some_iff, Bool.and_eq_true] at hfilter
    obtain ⟨hget, hours, halive⟩ := hfilter
    refine .of_tell (.refl _) (.inl ⟨rfl, rfl⟩) (.single (.node (.fill deal.filledVolume) hget halive
      trivial (leg?_legEvent ..) ?_) (.inr (hnode l leg hlevel hget hours halive)))
    simp [legEvent, Record.news, LegChange.news, hunits]
  case h_2 l leg _ hfound =>
    obtain ⟨l', hlevel, hleg⟩ := Option.bind_eq_some_iff.mp hfound
    obtain ⟨leg', hfilter, hpair⟩ := Option.map_eq_some_iff.mp hleg
    cases hpair
    rw [Option.filter_eq_some_iff, Bool.and_eq_true] at hfilter
    exact .of_tell (.refl _) (.inl ⟨rfl, rfl⟩)
      (ForeignLegs.moves_filled hfilter.1 hfilter.2.2 hunits fun leg => hforeign l leg)
  case h_3 =>
    split
    · exact .tell (.single (leg?_orderFilled ..))
    · exact does_orders ⟨rfl, rfl, rfl, rfl, rfl, rfl⟩ rfl rfl rfl
        (.single (leg?_externalReport ..))

/-- It does not raise. -/
theorem takeTrigger_ok (order : ProtoOAOrder) (deal : ProtoOADeal) (fill : Fill)
    (level : Option Level) (levels : Levels) (f : Focus) :
    ∃ told, (takeTrigger order deal fill level levels f).records = .ok told := by
  unfold takeTrigger
  dsimp only
  split
  · exact ⟨_, rfl⟩
  · exact ⟨_, rfl⟩
  · split <;> exact ⟨_, rfl⟩

/-- A fill has its deal's units. -/
theorem units_of_fillOf {deal : ProtoOADeal} {precision : ℕ} {digits : Option ℕ} {fill : Fill}
    (h : fillOf deal precision digits = .ok fill) : fill.units = volumeToUnits deal.filledVolume := by
  unfold fillOf at h
  split at h
  · cases h
  · split at h
    · cases h
    · cases h
      rfl

/-- The level a protective order's fill triggers on the position `p`. -/
def hitLevel (env : Env) (event : ProtoOAExecutionEvent) (order : ProtoOAOrder) (precision : ℕ)
    (p : Position) : Option Level :=
  match fillOf event.deal precision env.moneyDigits, levelsOf order precision with
  | .ok fill, .ok stated =>
    (triggeredLevel p (if stated.isEmpty then p.levels else stated) fill.price).1
  | _, _ => none

/-- A triggered protective order. -/
theorem does_triggered {env : Env} {event : ProtoOAExecutionEvent} {order : ProtoOAOrder}
    {precision : ℕ} {f : Focus}
    (hnode : ∀ l leg, hitLevel env event order precision f.position = some l →
      f.position.legs.get? l = some leg → f.position.ours → leg.alive →
      may (.node l leg (.fill event.deal.filledVolume)))
    (hforeign : ∀ l leg, may (.foreign l leg (.fill event.deal.filledVolume))) :
    Does may f (triggered env event order precision f) := by
  unfold triggered
  split
  case h_1 => exact .raise
  case h_2 fill hfill =>
    split
    case h_1 => exact .raise
    case h_2 stated hstated =>
      have hsame := sync_legs event order f
      refine .andThen_ok (does_sync event order (.andThen_ok ?_ (takeTrigger_ok ..) (does_takeTrigger
        (units_of_fillOf hfill) (fun l leg hlevel hget hours halive => ?_) hforeign)))
        (endIfClosed_ok ..) (does_endIfClosed ..)
      · exact .of_tell (.refl _) (.inl ⟨rfl, rfl⟩)
          (.of_same ⟨rfl, rfl, rfl, rfl, rfl, id⟩ (legless_triggeredLevel ..))
      · refine hnode l leg ?_ (hsame.legs ▸ hget) ?_ halive
        · simp only [hitLevel, hfill, hstated]
          exact hlevel
        · unfold Position.ours at hours ⊢
          exact hsame.entryClientOrderId ▸ hours

/-- A protective order that changes moves the levels. -/
theorem does_protectiveChanged {env : Env} {ops : Operations} {event : ProtoOAExecutionEvent}
    {order : ProtoOAOrder} {oldLevels : Levels} {f : Focus}
    (hmay : f.position.ours = false → ∀ entryOrderId level,
      f.position.entryOrderId = some entryOrderId → (f.position.levels.get? level).isSome →
      may (.openForeign entryOrderId level)) :
    Does may f (protectiveChanged env ops event order oldLevels f) := by
  have hsame := sync_legs event order f
  have hlevels := sync_levels event order f
  refine does_sync event order (.of_moves ?_)
  split
  case isTrue => exact moves_levelChanges ..
  case isFalse hours =>
    have hforeign : f.position.ours = false := by
      unfold Position.ours at hours ⊢
      rw [hsame.entryClientOrderId] at hours
      simpa using hours
    exact ForeignLegs.moves_levelChanges (by simpa using hours) fun entryOrderId level hid hlevel =>
      hmay hforeign entryOrderId level (hsame.entryOrderId ▸ hid) (hlevels ▸ hlevel)

/-- A level that is there afterwards was stated. -/
theorem isSome_levelsAfter {order : ProtoOAOrder} {stated : Levels} {p : Position} {level : Level}
    (h : ((levelsAfter order stated p).get? level).isSome) : (stated.get? level).isSome := by
  unfold levelsAfter at h
  split at h
  case isTrue hkept =>
    cases level with
    | stopLoss => simp_all
    | takeProfit => exact h
  case isFalse => exact h

/-- Whether `_protective` takes an event as a new state of the protective order's levels. -/
def statesLevels (event : ProtoOAExecutionEvent) (order : ProtoOAOrder) (p : Position) : Bool :=
  order.orderId ∉ p.retiredProtectiveIds && !isFill event.executionType &&
    (event.executionType = .orderAccepted ||
      event.executionType = .orderReplaced &&
        (p.protectiveOrderId.isNone || p.protectiveOrderId = some order.orderId))

/-- A protective event. -/
theorem does_protectiveOn {env : Env} {ops : Operations} {event : ProtoOAExecutionEvent}
    {order : ProtoOAOrder} {precision : ℕ} {f : Focus}
    (hnode : isFill event.executionType → ∀ l leg,
      hitLevel env event order precision f.position = some l →
      f.position.legs.get? l = some leg → f.position.ours → leg.alive →
      may (.node l leg (.fill event.deal.filledVolume)))
    (hforeign : isFill event.executionType → ∀ l leg,
      may (.foreign l leg (.fill event.deal.filledVolume)))
    (hopen : ∀ stated entryOrderId level, statesLevels event order f.position →
      levelsOf order precision = .ok stated → f.position.ours = false →
      f.position.entryOrderId = some entryOrderId → (stated.get? level).isSome →
      may (.openForeign entryOrderId level)) :
    Does may f (protectiveOn env ops event order precision f) := by
  unfold protectiveOn
  dsimp only
  split
  case isTrue hfill =>
    have hnotice : Legless (if order.orderId ∈ f.position.retiredProtectiveIds then
        [.notice (.retiredProtectiveFilled order.orderId)] else []) := .ite (.single rfl) .nil
    refine .andThen (.tell (by simpa using hnotice)) (fun told htold => ?_)
      (does_triggered (hnode hfill) (hforeign hfill))
    cases htold
    simpa using hnotice
  case isFalse hfill =>
    split
    case isTrue => exact .tell .nil
    case isFalse hretired =>
      split
      case isTrue => exact .tell .nil
      case isFalse hlate =>
        split
        case isTrue hkind =>
          split
          case h_1 =>
            exact .of_raise (.refl _) (.inl ⟨rfl, rfl⟩) (.of_same ⟨rfl, rfl, rfl, rfl, rfl, fun _ =>
              current_takeProtective (by simpa using hretired)⟩ .nil) .nil
          case h_2 stated hstated =>
            refine .prepend (g := { f with position := setProtective order stated f.position })
              (.refl _) (.inl ⟨rfl, rfl⟩) (.of_same ⟨rfl, rfl, rfl, rfl, rfl, fun _ =>
                current_takeProtective (by simpa using hretired)⟩ .nil)
              (does_protectiveChanged fun hours entryOrderId level hentry hlevel => ?_)
            refine hopen stated entryOrderId level ?_ hstated hours hentry (isSome_levelsAfter hlevel)
            -- The order's id is current: not retired, and no newer one is held.
            have hcurrent : event.executionType = .orderAccepted ∨
                event.executionType = .orderReplaced ∧ (f.position.protectiveOrderId = none ∨
                  f.position.protectiveOrderId = some order.orderId) := by
              simp only [Bool.or_eq_true, decide_eq_true_eq] at hkind
              refine hkind.imp_right fun hreplaced => ⟨hreplaced, ?_⟩
              simp only [hreplaced, Bool.and_eq_true, decide_eq_true_eq, not_and, not_not] at hlate
              cases hheld : f.position.protectiveOrderId with
              | none => exact .inl rfl
              | some held => exact .inr (hheld ▸ hlate ⟨by simp, by simp [hheld]⟩)
            simpa [statesLevels, hfill, hcurrent] using hretired
        case isFalse =>
          split
          · refine .prepend (g := { f with position := cancelProtective order f.position })
              (.refl _) (.inl ⟨rfl, rfl⟩)
              (.of_same ⟨rfl, rfl, rfl, rfl, rfl, fun _ => current_of_none rfl⟩ .nil)
              (does_protectiveChanged fun _ _ level _ hlevel => ?_)
            cases level <;> cases hlevel
          · exact .tell .nil

/-! ## Closing orders -/

/-- A closing order is matched to a close. -/
theorem matchClosing_does (ops : Operations) (event : ProtoOAExecutionEvent) (order : ProtoOAOrder)
    (f : Focus) : SameMarks f.book (matchClosing ops event order f).1.book ∧
      (matchClosing ops event order f).1.position = f.position ∧
      (matchClosing ops event order f).1.stored = f.stored ∧
      (matchClosing ops event order f).1.book.positions = f.book.positions := by
  unfold matchClosing
  split
  · exact ⟨.refl _, rfl, rfl, rfl⟩
  · split
    · split
      · split
        · exact ⟨.refl _, rfl, rfl, rfl⟩
        · exact ⟨⟨rfl, rfl, rfl, rfl, rfl, rfl⟩, rfl, rfl, rfl⟩
      · exact ⟨.refl _, rfl, rfl, rfl⟩
    · exact ⟨.refl _, rfl, rfl, rfl⟩

/-- A close of the node. -/
theorem does_nodeClose (env : Env) (event : ProtoOAExecutionEvent) (order : ProtoOAOrder)
    (closeId : String) (precision : ℕ) (f : Focus) :
    Does may f (nodeClose env event order closeId precision f) := by
  have haccepted : Legless (if order.orderId ∈ f.book.closesAccepted then []
      else [orderNews .accepted order (some closeId)]) := .ite .nil (.single (leg?_orderNews ..))
  unfold nodeClose
  dsimp only
  split
  · exact does_orders ⟨rfl, rfl, rfl, rfl, rfl, rfl⟩ rfl rfl rfl haccepted
  · split
    · split
      · exact .raise
      · exact does_orders ⟨rfl, rfl, rfl, rfl, rfl, rfl⟩ rfl rfl rfl
          (haccepted.append (.single (leg?_orderFilled ..)))
    · split
      · exact .tell (.single (leg?_orderNews ..))
      · exact .tell .nil

/-- The activity of a close is about no leg. -/
theorem legless_closeActivity (event : ProtoOAExecutionEvent) (order : ProtoOAOrder)
    (p : Position) : Legless (closeActivity event order p) := by
  unfold closeActivity
  dsimp only
  split
  · exact .single rfl
  · exact .ite (.single rfl) .nil

/-- What a closing event tells. -/
theorem does_closingRecords (env : Env) (event : ProtoOAExecutionEvent) (order : ProtoOAOrder)
    (precision : ℕ) (closeId : Option String) (f : Focus) :
    Does may f (closingRecords env event order precision closeId f) := by
  unfold closingRecords
  split
  · exact does_nodeClose ..
  · exact .andThen_ok (does_externalEvent ..) ⟨_, rfl⟩ (.tell (.ite (legless_closeActivity ..) .nil))

/-- A closing event. -/
theorem does_closingOn (env : Env) (ops : Operations) (event : ProtoOAExecutionEvent)
    (order : ProtoOAOrder) (precision : ℕ) (f : Focus) :
    Does may f (closingOn env ops event order precision f) := by
  obtain ⟨hmarks, hposition, hstored, hpositions⟩ :=
    matchClosing_does ops event order (sync event order f)
  have hunnamed : ∀ p : Position, Legless (if isFill event.executionType && event.isServerEvent &&
      !order.isStopOut then [unnamedClose p event.deal] else []) :=
    fun p => .ite (.single (leg?_unnamedClose ..)) .nil
  refine .andThen_ok (does_sync event order (.andThen (does_orders hmarks hposition hstored hpositions
    (hunnamed _)) (fun told htold => ?_) (does_closingRecords ..))) (endIfClosed_ok ..)
    (does_endIfClosed ..)
  cases htold
  exact hunnamed _

/-! ## Events on a loaded symbol -/

/-- The loud moves an event on a loaded symbol can make, by its route: `p` is its position before. -/
inductive EventMay (env : Env) (b : Book) (event : ProtoOAExecutionEvent) (order : ProtoOAOrder)
    (precision : ℕ) (p : Position) : Act → Prop
  | take (hprotective : order.orderType ≠ .stopLossTakeProfit) (hclosing : order.closingOrder = false)
      (htakes : takesEntry event order p) (hended : order.orderId ∉ b.endedEntries) :
      EventMay env b event order precision p (.take order)
  | takeEnded (hprotective : order.orderType ≠ .stopLossTakeProfit)
      (hclosing : order.closingOrder = false) (htakes : takesEntry event order p)
      (hended : order.orderId ∈ b.endedEntries) (hfill : isFill event.executionType) :
      EventMay env b event order precision p (.takeEnded order)
  | openTaken {level : Level} (hprotective : order.orderType ≠ .stopLossTakeProfit)
      (hclosing : order.closingOrder = false) (htakes : takesEntry event order p)
      (hlabel : parseLabel order.tradeData.label = none) (hlevel : (p.levels.get? level).isSome) :
      EventMay env b event order precision p (.openForeign order.orderId level)
  | openProtective {stated : Levels} {entryOrderId : ℤ} {level : Level}
      (hprotective : order.orderType = .stopLossTakeProfit) (hstate : statesLevels event order p)
      (hstated : levelsOf order precision = .ok stated) (hours : p.ours = false)
      (hentry : p.entryOrderId = some entryOrderId) (hlevel : (stated.get? level).isSome) :
      EventMay env b event order precision p (.openForeign entryOrderId level)
  | fillNode {level : Level} {leg : Leg} (hprotective : order.orderType = .stopLossTakeProfit)
      (hfill : isFill event.executionType)
      (hhit : hitLevel env event order precision p = some level)
      (hget : p.legs.get? level = some leg) (hours : p.ours) (halive : leg.alive) :
      EventMay env b event order precision p (.node level leg (.fill event.deal.filledVolume))
  | fillForeign {level : Level} {leg : ForeignLeg}
      (hprotective : order.orderType = .stopLossTakeProfit) (hfill : isFill event.executionType) :
      EventMay env b event order precision p (.foreign level leg (.fill event.deal.filledVolume))

/-- The three ways an event finds its position: one the book holds, a new one it will hold, or one of
its own that is not kept. -/
theorem positionFor_cases (b : Book) (event : ProtoOAExecutionEvent) (order : ProtoOAOrder) :
    (order.positionId? = none ∧ positionFor b event order = ⟨b, newPosition event order, none⟩) ∨
    (∃ positionId p, order.positionId? = some positionId ∧ b.positions.get? positionId = some p ∧
      positionFor b event order = ⟨b, p, some positionId⟩) ∨
    ∃ positionId, order.positionId? = some positionId ∧ b.positions.get? positionId = none ∧
      positionFor b event order =
        ⟨{ b with positions := b.positions.set positionId (newPosition event order) },
          newPosition event order, some positionId⟩ := by
  unfold positionFor
  split
  case h_1 hnone => exact .inl ⟨hnone, rfl⟩
  case h_2 positionId hid =>
    split
    case h_1 p hp => exact .inr (.inl ⟨positionId, p, hid, hp, rfl⟩)
    case h_2 hp => exact .inr (.inr ⟨positionId, hid, hp, rfl⟩)

/-- Finding the position leaves the marks. -/
theorem positionFor_marks (b : Book) (event : ProtoOAExecutionEvent) (order : ProtoOAOrder) :
    SameMarks b (positionFor b event order).book ∧
      (positionFor b event order).book.endedEntries = b.endedEntries := by
  rcases positionFor_cases b event order with ⟨-, h⟩ | ⟨_, _, -, -, h⟩ | ⟨_, -, -, h⟩ <;>
    rw [h] <;> exact ⟨⟨rfl, rfl, rfl, rfl, rfl, rfl⟩, rfl⟩

/-- Whatever route an event of a loaded symbol takes, it makes the moves of that route, or is an ended
entry's news and does nothing. -/
theorem does_handleLoaded (env : Env) (ops : Operations) (b : Book) (event : ProtoOAExecutionEvent)
    (order : ProtoOAOrder) (precision : ℕ) :
    handleLoaded env ops b event order precision =
        ⟨⟨b, (positionFor b event order).position, none⟩, .ok []⟩ ∨
      Does (EventMay env b event order precision (positionFor b event order).position)
        (positionFor b event order) (handleLoaded env ops b event order precision) := by
  have hended := (positionFor_marks b event order).2
  unfold handleLoaded
  dsimp only
  split
  case isTrue hprotective =>
    exact .inr (does_protectiveOn
      (fun hfill l leg hhit hget hours halive => .fillNode hprotective hfill hhit hget hours halive)
      (fun hfill l leg => .fillForeign hprotective hfill)
      (fun stated entryOrderId level hstate hstated hours hentry hlevel =>
        .openProtective hprotective hstate hstated hours hentry hlevel))
  case isFalse hprotective =>
    split
    case isTrue => exact .inr (does_closingOn ..)
    case isFalse hclosing =>
      rw [Bool.not_eq_true] at hclosing
      split
      case isTrue => exact .inl rfl
      case isFalse hnews =>
        refine .inr (does_openingOn (fun htakes hnot => ?_) (fun htakes hmem => ?_)
          (fun htakes hlabel level hlevel => .openTaken hprotective hclosing htakes hlabel hlevel))
        · exact .take hprotective hclosing htakes (hended ▸ hnot)
        · refine .takeEnded hprotective hclosing htakes (hended ▸ hmem) ?_
          by_contra hfill
          exact hnews ⟨hended ▸ hmem, by simpa using hfill⟩

end VenueBook

end NautilusCtrader
