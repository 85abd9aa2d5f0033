import NautilusCtrader.VenueBook.HandlerMoves

/-!
# What one call does to the book

A call changes at most one position, by a chain of moves, and tells what the moves tell.
`perform_changes` says it once for every operation, with the loud moves each operation can make, and
the invariants over runs start from it.
-/

namespace NautilusCtrader

open Common

namespace VenueBook

/-! ## Changes of the positions -/

/-- A position just made, with neither entry nor legs. -/
structure Blank (positionId : ℤ) (p : Position) : Prop where
  positionId : p.positionId = positionId
  entryOrderId : p.entryOrderId = none
  entryClientOrderId : p.entryClientOrderId = none
  legs : p.legs = {}
  foreignLegs : p.foreignLegs = Dict.empty
  retired : p.retiredProtectiveIds = ∅

/-- The position a call works on: the one held under `positionId`, or a new one. -/
def Found (b : Book) (positionId : ℤ) (p : Position) : Prop :=
  b.positions.get? positionId = some p ∨ b.positions.get? positionId = none ∧ Blank positionId p

/-- `told` is all of `moved`, or nothing where a call raised and `moved` is about no leg. -/
def Tells (told moved : List Record) : Prop := told = moved ∨ told = [] ∧ Legless moved

/-- What a call does to the positions: nothing; moves on one of them, which it may drop; or moves on
a position that is not kept. -/
inductive Changes (may : Act → Prop) (b b' : Book) (told : List Record) : Prop
  | idle (hsame : ∀ x, b'.positions.get? x = b.positions.get? x) (htold : Legless told)
  | moved {positionId : ℤ} {p q : Position} {moved : List Record} (hp : Found b positionId p)
      (hmoves : Moves may p moved q) (hq : b'.positions.get? positionId = some q)
      (hothers : ∀ x, x ≠ positionId → b'.positions.get? x = b.positions.get? x)
      (htold : Tells told moved)
  | dropped {positionId : ℤ} {p q : Position} {moved : List Record} (hp : Found b positionId p)
      (hmoves : Moves may p moved q) (hq : b'.positions.get? positionId = none)
      (hothers : ∀ x, x ≠ positionId → b'.positions.get? x = b.positions.get? x)
      (htold : Tells told moved)
  | passing {positionId : ℤ} {p q : Position} {moved : List Record} (hp : Blank positionId p)
      (hmoves : Moves may p moved q) (hsame : ∀ x, b'.positions.get? x = b.positions.get? x)
      (htold : Tells told moved)

/-- Changes that fewer acts allow are allowed by more. -/
theorem Changes.mono {may may' : Act → Prop} {b b' : Book} {told : List Record}
    (h : Changes may b b' told) (hmay : ∀ act, may act → may' act) : Changes may' b b' told := by
  cases h with
  | idle hsame htold => exact .idle hsame htold
  | moved hp hmoves hq hothers htold => exact .moved hp (hmoves.mono hmay) hq hothers htold
  | dropped hp hmoves hq hothers htold => exact .dropped hp (hmoves.mono hmay) hq hothers htold
  | passing hp hmoves hsame htold => exact .passing hp (hmoves.mono hmay) hsame htold

/-- Only the positions of the book after matter. -/
theorem Changes.congr {may : Act → Prop} {b b' b'' : Book} {told : List Record}
    (h : Changes may b b' told) (hpositions : b''.positions = b'.positions) :
    Changes may b b'' told := by
  cases h with
  | idle hsame htold => exact .idle (by rwa [hpositions]) htold
  | moved hp hmoves hq hothers htold =>
    exact .moved hp hmoves (by rwa [hpositions]) (by rwa [hpositions]) htold
  | dropped hp hmoves hq hothers htold =>
    exact .dropped hp hmoves (by rwa [hpositions]) (by rwa [hpositions]) htold
  | passing hp hmoves hsame htold => exact .passing hp hmoves (by rwa [hpositions]) htold

/-- A call tells its moves, or raises with nothing told of a leg. -/
theorem tells_recordsOf {records : Except Failure (List Record)} {moved : List Record}
    (h : records = .ok moved ∨ (∃ failure, records = .error failure) ∧ Legless moved) :
    Tells (recordsOf records) moved := by
  rcases h with h | ⟨⟨failure, h⟩, hlegless⟩
  · exact .inl (by rw [h]; rfl)
  · exact .inr ⟨by rw [h]; rfl, hlegless⟩

/-- A position just made is blank. -/
theorem blank_newPosition (event : ProtoOAExecutionEvent) (order : ProtoOAOrder) :
    Blank order.positionId (newPosition event order) :=
  ⟨rfl, rfl, rfl, rfl, rfl, rfl⟩

/-- A handler run on an event's position, the position then put back. -/
theorem changes_of_does {may : Act → Prop} {b : Book} {event : ProtoOAExecutionEvent}
    {order : ProtoOAOrder} {h : Handled} (hdoes : Does may (positionFor b event order) h) :
    Changes may b h.focus.finish (recordsOf h.records) := by
  obtain ⟨-, hplace, moved, hmoves, htold⟩ := hdoes
  replace htold := tells_recordsOf htold
  rcases positionFor_cases b event order with ⟨hid, hf⟩ | ⟨positionId, p, hid, hp, hf⟩ |
    ⟨positionId, hid, hp, hf⟩ <;> rw [hf] at hplace hmoves
  · rcases hplace with ⟨hstored, hpositions⟩ | ⟨_, hstored, -, -⟩
    · refine .passing (blank_newPosition event order) hmoves (fun x => ?_) htold
      simp only [Focus.finish, hstored, hpositions]
    · cases hstored
  · rcases hplace with ⟨hstored, hpositions⟩ | ⟨id, hstored, hnone, hpositions⟩
    · refine .moved (.inl hp) hmoves ?_ (fun x hx => ?_) htold
      · simp only [Focus.finish, hstored, Dict.get?_set_self]
      · simp only [Focus.finish, hstored, hpositions, Dict.get?_set_of_ne _ _ (Ne.symm hx)]
    · cases hstored
      refine .dropped (.inl hp) hmoves ?_ (fun x hx => ?_) htold
      · simp only [Focus.finish, hnone, hpositions, Dict.get?_erase_self]
      · simp only [Focus.finish, hnone, hpositions, Dict.get?_erase, if_neg hx]
  · have hblank : Found b positionId (newPosition event order) := by
      have := blank_newPosition event order
      rw [ProtoOAOrder.positionId, hid] at this
      exact .inr ⟨hp, this⟩
    rcases hplace with ⟨hstored, hpositions⟩ | ⟨id, hstored, hnone, hpositions⟩
    · refine .moved hblank hmoves ?_ (fun x hx => ?_) htold
      · simp only [Focus.finish, hstored, Dict.get?_set_self]
      · simp only [Focus.finish, hstored, hpositions, Dict.get?_set_of_ne _ _ (Ne.symm hx)]
    · cases hstored
      refine .dropped hblank hmoves ?_ (fun x hx => ?_) htold
      · simp only [Focus.finish, hnone, hpositions, Dict.get?_erase_self]
      · simp only [Focus.finish, hnone, hpositions, Dict.get?_erase, if_neg hx,
          Dict.get?_set_of_ne _ _ (Ne.symm hx)]

/-- Putting the position back leaves the marks. -/
theorem finish_marks (f : Focus) : SameMarks f.book f.finish := by
  unfold Focus.finish
  split <;> exact ⟨rfl, rfl, rfl, rfl, rfl, rfl⟩

/-! ## Events -/

/-- An activity on an unloaded symbol is about no leg. -/
theorem legless_unloadedActivity (event : ProtoOAExecutionEvent) (order : ProtoOAOrder) :
    Legless (unloadedActivity event order) := by
  unfold unloadedActivity
  dsimp only
  split
  · exact .single rfl
  · split
    · split
      · exact .single rfl
      · exact .nil
    · split
      · exact .single rfl
      · exact .single rfl
      · exact .single rfl
      · exact .single rfl
      · exact .nil

/-- An order of an unloaded symbol is held or forgotten. -/
theorem trackUnloaded_orders (event : ProtoOAExecutionEvent) (order : ProtoOAOrder) (b : Book) :
    let synced := if event.position?.isSome || isFill event.executionType then
      (sync event order (positionFor b event order)).finish else b
    SameMarks synced (trackUnloaded event order b) ∧
      (trackUnloaded event order b).positions = synced.positions := by
  intro synced
  unfold trackUnloaded
  dsimp only
  split
  · exact ⟨.refl _, rfl⟩
  · split
    · exact ⟨⟨rfl, rfl, rfl, rfl, rfl, rfl⟩, rfl⟩
    · split
      · exact ⟨⟨rfl, rfl, rfl, rfl, rfl, rfl⟩, rfl⟩
      · split
        · exact ⟨⟨rfl, rfl, rfl, rfl, rfl, rfl⟩, rfl⟩
        · exact ⟨.refl _, rfl⟩

/-- Handling an event marks nothing yet. -/
theorem handle_marks (env : Env) (ops : Operations) (b : Book) (event : ProtoOAExecutionEvent)
    (order : ProtoOAOrder) : SameMarks b (handle env ops b event order).1 := by
  unfold handle
  split
  · refine SameMarks.trans ?_ (trackUnloaded_orders event order b).1
    split
    · exact (positionFor_marks b event order).1.trans
        ((sync_marks event order _).trans (finish_marks _))
    · exact .refl b
  case h_2 precision _ =>
    dsimp only
    rcases does_handleLoaded env ops b event order precision with h | h
    · rw [h]
      exact .refl b
    · exact (positionFor_marks b event order).1.trans (h.marks.trans (finish_marks _))

/-- Handling an event changes positions as its kind may. -/
theorem changes_handle (env : Env) (ops : Operations) (b : Book) (event : ProtoOAExecutionEvent)
    (order : ProtoOAOrder) :
    Changes (fun act => ∃ precision, env.pricePrecision order.tradeData.symbolId = some precision ∧
        EventMay env b event order precision (positionFor b event order).position act)
      b (handle env ops b event order).1 (recordsOf (handle env ops b event order).2) := by
  unfold handle
  split
  case h_1 =>
    have htold := legless_unloadedActivity event order
    refine Changes.congr ?_ (trackUnloaded_orders event order b).2
    split
    · have hsync : Does (fun _ => False) (positionFor b event order)
          ((sync event order (positionFor b event order)).tell (unloadedActivity event order)) :=
        does_sync event order (.tell htold)
      exact (changes_of_does hsync).mono fun _ h => h.elim
    · exact .idle (fun _ => rfl) htold
  case h_2 precision hprecision =>
    dsimp only
    rcases does_handleLoaded env ops b event order precision with h | h
    · rw [h]
      exact .idle (fun _ => rfl) .nil
    · exact (changes_of_does h).mono fun act hact => ⟨precision, hprecision, hact⟩

/-- Marking a deal leaves positions and events seen. -/
theorem markDeal_marks (event : ProtoOAExecutionEvent) (b : Book) :
    (markDeal event b).positions = b.positions ∧ (markDeal event b).seen = b.seen ∧
      (markDeal event b).closedInReconciliation = b.closedInReconciliation := by
  unfold markDeal
  split
  · split <;> exact ⟨rfl, rfl, rfl⟩
  · exact ⟨rfl, rfl, rfl⟩

/-- Letting a kept order go leaves them too. -/
theorem releaseKeep_marks (event : ProtoOAExecutionEvent) (order : ProtoOAOrder) (b : Book) :
    (releaseKeep event order b).positions = b.positions ∧
      (releaseKeep event order b).seen = b.seen ∧
      (releaseKeep event order b).appliedDeals = b.appliedDeals ∧
      (releaseKeep event order b).closedInReconciliation = b.closedInReconciliation := by
  unfold releaseKeep
  dsimp only
  split
  · split
    · split <;> exact ⟨rfl, rfl, rfl, rfl⟩
    · exact ⟨rfl, rfl, rfl, rfl⟩
  · exact ⟨rfl, rfl, rfl, rfl⟩

/-- Marking an event leaves the positions. -/
theorem markApplied_positions (event : ProtoOAExecutionEvent) (order : ProtoOAOrder) (b : Book) :
    (markApplied event order b).positions = b.positions :=
  (releaseKeep_marks ..).1.trans (markDeal_marks ..).1

/-- Whether `apply` goes on to handle an event of `order`. -/
def Handles (b : Book) (event : ProtoOAExecutionEvent) (order : ProtoOAOrder) : Prop :=
  event.order? = some order ∧ order.positionId ∉ b.closedInReconciliation ∧
    repeated b event order = false

instance (b : Book) (event : ProtoOAExecutionEvent) (order : ProtoOAOrder) :
    Decidable (Handles b event order) := inferInstanceAs (Decidable (_ ∧ _))

/-- `apply` on an event it handles. -/
theorem apply_of_handles {env : Env} {ops : Operations} {b : Book} {event : ProtoOAExecutionEvent}
    {order : ProtoOAOrder} (h : Handles b event order) :
    apply env ops b event =
      match (handle env ops b event order).2 with
      | .error failure => ((handle env ops b event order).1, .error failure)
      | .ok records => (markApplied event order (handle env ops b event order).1, .ok records) := by
  obtain ⟨horder, hopen, hnew⟩ := h
  unfold apply
  rw [horder]
  simp only [if_neg hopen, hnew]
  rfl

/-- `apply` on any other event does nothing. -/
theorem apply_of_not_handles {env : Env} {ops : Operations} {b : Book}
    {event : ProtoOAExecutionEvent} (h : ∀ order, ¬ Handles b event order) :
    apply env ops b event = (b, .ok []) := by
  unfold apply
  split
  · rfl
  case h_2 order horder =>
    split
    · rfl
    case isFalse hopen =>
      split
      · rfl
      case isFalse hnew => exact absurd ⟨horder, hopen, by simpa using hnew⟩ (h order)

/-- An event is handled, or nothing is done about it. -/
theorem apply_cases (env : Env) (ops : Operations) (b : Book) (event : ProtoOAExecutionEvent) :
    (∃ order, Handles b event order) ∨ apply env ops b event = (b, .ok []) := by
  by_cases h : ∃ order, Handles b event order
  · exact .inl h
  · exact .inr (apply_of_not_handles fun order ho => h ⟨order, ho⟩)

/-! ## All operations -/

/-- The loud moves an operation can make on the book `b`. -/
inductive OpMay (b : Book) : Operation → Act → Prop
  | event {env : Env} {ops : Operations} {event : ProtoOAExecutionEvent} {order : ProtoOAOrder}
      {precision : ℕ} {act : Act} (hhandles : Handles b event order)
      (hprecision : env.pricePrecision order.tradeData.symbolId = some precision)
      (hact : EventMay env b event order precision (positionFor b event order).position act) :
      OpMay b (.apply env ops event) act
  | trailed {env : Env} {event : ProtoOATrailingSLChangedEvent} {p : Position} {entryOrderId : ℤ}
      {level : Level} (hp : b.positions.get? event.positionId = some p)
      (hprotective : p.protectiveOrderId = some event.orderId) (hours : p.ours = false)
      (hentry : p.entryOrderId = some entryOrderId) :
      OpMay b (.trailingStopMoved env event) (.openForeign entryOrderId level)
  | found {env : Env} {positionId : ℤ} {orders : List ProtoOAOrder} {p : Position}
      {entry : ProtoOAOrder} (hp : b.positions.get? positionId = some p)
      (hnone : p.entryOrderId = none) (hentry : entryOf orders = some entry) :
      OpMay b (.entryFound env positionId orders) (.take entry)
  | foundOpen {env : Env} {positionId : ℤ} {orders : List ProtoOAOrder} {p : Position}
      {entry : ProtoOAOrder} {level : Level} (hp : b.positions.get? positionId = some p)
      (hnone : p.entryOrderId = none) (hentry : entryOf orders = some entry)
      (hlevel : (p.levels.get? level).isSome) :
      OpMay b (.entryFound env positionId orders) (.openForeign entry.orderId level)

/-- Moves on a position the book holds. -/
theorem changes_set {may : Act → Prop} {b b' : Book} {positionId : ℤ} {p : Position}
    {changed : Position × List Record} (hp : b.positions.get? positionId = some p)
    (hmoves : Moves may p changed.2 changed.1)
    (hb' : b'.positions = b.positions.set positionId changed.1) : Changes may b b' changed.2 := by
  refine .moved (.inl hp) hmoves ?_ (fun x hx => ?_) (.inl rfl)
  · rw [hb', Dict.get?_set_self]
  · rw [hb', Dict.get?_set_of_ne _ _ (Ne.symm hx)]

/-- A change of one position. -/
theorem changes_onPosition {may : Act → Prop} {b : Book} {positionId : ℤ}
    {change : Position → Position × List Record}
    (h : ∀ p, b.positions.get? positionId = some p → Moves may p (change p).2 (change p).1) :
    Changes may b (onPosition b positionId change).1 (onPosition b positionId change).2 := by
  unfold onPosition
  split
  case h_1 => exact .idle (fun _ => rfl) .nil
  case h_2 p hp => exact changes_set hp (h p hp) rfl

/-- A trailing stop moves. -/
theorem changes_trailingStopMoved (env : Env) (b : Book) (event : ProtoOATrailingSLChangedEvent) :
    Changes (OpMay b (.trailingStopMoved env event)) b (trailingStopMoved env b event).1
      (recordsOf (trailingStopMoved env b event).2) := by
  have hidle : ∀ b' : Book, b'.positions = b.positions →
      Changes (OpMay b (.trailingStopMoved env event)) b b' [] :=
    fun b' h => .idle (fun x => by rw [h]) .nil
  unfold trailingStopMoved
  split
  case h_1 => exact hidle _ rfl
  case h_2 p hp =>
    dsimp only
    split
    · exact hidle _ rfl
    · split
      · exact hidle _ rfl
      · split
        · exact hidle _ rfl
        case isFalse hcurrent =>
          split
          · exact hidle _ rfl
          · split
            · exact hidle _ rfl
            case h_2 stopLoss _ =>
              refine changes_set hp ?_ rfl
              have htrail : Moves (OpMay b (.trailingStopMoved env event)) p []
                  (trail stopLoss event.utcLastUpdateTimestamp p) :=
                .of_same ⟨rfl, rfl, rfl, rfl, rfl, id⟩ .nil
              refine htrail.trans ?_
              split
              · exact moves_levelChanges ..
              case isFalse hours =>
                have hforeign : p.ours = false := by simpa using hours
                exact ForeignLegs.moves_levelChanges hforeign fun entryOrderId level hentry _ =>
                  .trailed hp (not_not.mp hcurrent).symm hforeign hentry

/-- A position's entry is found in its history. -/
theorem moves_foundEntry {may : Act → Prop} {heldClosed : Finset String}
    {orders : List ProtoOAOrder} {p : Position}
    (htake : ∀ entry, p.entryOrderId = none → entryOf orders = some entry → may (.take entry))
    (hopen : ∀ entry level, p.entryOrderId = none → entryOf orders = some entry →
      (p.levels.get? level).isSome → may (.openForeign entry.orderId level)) :
    Moves may p (foundEntry heldClosed orders p).2 (foundEntry heldClosed orders p).1 := by
  unfold foundEntry
  split
  case h_1 entry hnone hentry =>
    have hlevels := (adopt_levels p entry false ∅).1
    have htaken : Moves may p (adopt p entry false ∅).2 (adopt p entry false ∅).1 :=
      .single (.take entry hnone (legless_adopt ..)) (.inr (htake entry hnone hentry))
    dsimp only
    split
    · exact htaken
    case isFalse hours =>
      refine htaken.trans (ForeignLegs.moves_levelChanges (by simpa using hours)
        fun entryOrderId level hid hlevel => ?_)
      rw [(adopt_levels p entry false ∅).2, Option.some.injEq] at hid
      exact hid ▸ hopen entry level hnone hentry (hlevels ▸ hlevel)
  case h_2 => exact .refl p

/-- A leg is cancelled. -/
theorem moves_canceledLeg {may : Act → Prop} (level : Level) (ts : ℤ) (p : Position) :
    Moves may p (canceledLeg level ts p).2 (canceledLeg level ts p).1 := by
  unfold canceledLeg
  split
  · exact .refl p
  case h_2 leg hleg =>
    split
    · exact .refl p
    case isFalse h =>
      simp only [Bool.or_eq_true, Bool.not_eq_true', not_or, Bool.not_eq_false] at h
      exact .single (.node .cancel hleg h.1 trivial (leg?_legEvent ..) rfl) (.inl rfl)

/-- The legs are rejected. -/
theorem moves_rejectedLegs {may : Act → Prop} (reason : String) (ts : ℤ) (p : Position) :
    Moves may p (rejectedLegs reason ts p).2 (rejectedLegs reason ts p).1 := by
  unfold rejectedLegs
  -- The ids a rejection carries are those of `_leg_event`.
  have hkey : ∀ level (leg : Leg), (Record.orderEvent {
      kind := .rejected, venueOrderId := legId p level, clientOrderId := some leg.clientOrderId
      tsMs := ts, reason := some reason }).leg? = some (.node leg.clientOrderId) :=
    fun level leg => leg?_legEvent .rejected p level leg ts none none none
  refine moves_overLegs (fun level leg => ?_) p
  split
  case isTrue h =>
    simp only [Bool.and_eq_true, Bool.not_eq_true'] at h
    exact .inr ⟨.reject, _, rfl, h.1, h.2, rfl, hkey level leg, rfl⟩
  case isFalse => exact .inl rfl

/-- One call changes at most one position, by moves the call can make. -/
theorem perform_changes (b : Book) (operation : Operation) :
    Changes (OpMay b operation) b (perform b operation).1 (recordsOf (perform b operation).2) := by
  cases operation with
  | apply env ops event =>
    show Changes _ b (apply env ops b event).1 (recordsOf (apply env ops b event).2)
    rcases apply_cases env ops b event with ⟨order, h⟩ | h
    · have hchanges : Changes (OpMay b (.apply env ops event)) b
          (handle env ops b event order).1 (recordsOf (handle env ops b event order).2) :=
        (changes_handle env ops b event order).mono fun act ⟨precision, hprecision, hact⟩ =>
          .event h hprecision hact
      rw [apply_of_handles h]
      split
      case h_1 failure herror =>
        rw [herror] at hchanges
        exact hchanges
      case h_2 records hok =>
        rw [hok] at hchanges
        exact hchanges.congr (markApplied_positions ..)
    · rw [h]
      exact .idle (fun _ => rfl) .nil
  | trailingStopMoved env event => exact changes_trailingStopMoved env b event
  | entryFound env positionId orders =>
    refine changes_onPosition fun p hp => moves_foundEntry (fun entry hnone hentry => ?_)
      (fun entry level hnone hentry hlevel => ?_)
    · exact .found hp hnone hentry
    · exact .foundOpen hp hnone hentry hlevel
  | cancelLeg positionId level ts => exact changes_onPosition fun p _ => moves_canceledLeg level ts p
  | rejectLegs positionId reason ts =>
    exact changes_onPosition fun p _ => moves_rejectedLegs reason ts p
  | matchClose orderId positionId closeId =>
    refine .idle (fun x => ?_) .nil
    show (matchClose b orderId positionId closeId).positions.get? x = _
    unfold matchClose
    split <;> rfl
  | endKeep positionId => exact .idle (fun _ => rfl) .nil
  | closedInReconciliation positionIds => exact .idle (fun _ => rfl) .nil

end VenueBook

end NautilusCtrader
