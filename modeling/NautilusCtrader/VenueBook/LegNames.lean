import NautilusCtrader.VenueBook.LegState

/-!
# The names legs are given

An entry taken as a position's names the legs it brings: the node's by the ids of its record, foreign
ones after the entry itself. `takenBy` is what one call takes so, and `namesTaken` what a run takes. An
order of no position is taken and forgotten again, so it counts only where it can tell of its legs.
-/

namespace NautilusCtrader

open Common OrderRecord

/-- What names legs: a leg's own client order id, or the foreign entry its legs are named after. -/
inductive LegName
  | leg (clientOrderId : String)
  | entry (orderId : ℤ)
deriving DecidableEq, Repr

namespace VenueBook

/-! ## Names -/

/-- The names `order` takes as an entry. The node's legs of an entry that `ended` are not live. -/
def namesOf (order : ProtoOAOrder) (ended : Bool) : List LegName :=
  match parseLabel order.tradeData.label with
  | none => [.entry order.orderId]
  | some _ =>
    if ended then []
    else
      match parseComment order.tradeData.comment with
      | none => []
      | some ids => ids.stopLoss.toList.map .leg ++ ids.takeProfit.toList.map .leg

/-- Whether an event of an order that names no position can tell of legs. -/
def tellsUnplaced (event : ProtoOAExecutionEvent) : Bool :=
  isFill event.executionType || (endedEventKind event.executionType).isSome

/-- Whether `apply` takes an event's order as the entry of its position. -/
def appliesEntry (env : Env) (b : Book) (event : ProtoOAExecutionEvent) (order : ProtoOAOrder) :
    Bool :=
  order.positionId ∉ b.closedInReconciliation && !repeated b event order &&
    (env.pricePrecision order.tradeData.symbolId).isSome &&
    order.orderType ≠ .stopLossTakeProfit && !order.closingOrder &&
    takesEntry event order (positionFor b event order).position &&
    (order.positionId?.isSome || tellsUnplaced event)

/-- The names a call takes. -/
def takenBy (b : Book) : Operation → List LegName
  | .apply env _ event =>
    match event.order? with
    | none => []
    | some order =>
      if appliesEntry env b event order then namesOf order (order.orderId ∈ b.endedEntries) else []
  | .entryFound _ positionId orders =>
    match b.positions.get? positionId, entryOf orders with
    | some p, some entry => if p.entryOrderId.isNone then namesOf entry false else []
    | _, _ => []
  | _ => []

/-- The names a run from `b` takes, in order. -/
def namesTaken (b : Book) : List Operation → List LegName
  | [] => []
  | operation :: rest => takenBy b operation ++ namesTaken (perform b operation).1 rest

/-- The names of a position's legs: those of the node's that live, or its foreign entry. -/
def namesHeld (p : Position) : List LegName :=
  ((p.legs.values.filter Leg.alive).map fun leg => .leg leg.clientOrderId) ++
    if p.ours then [] else p.entryOrderId.toList.map .entry

/-- The names of all legs the book holds. -/
def heldNames (b : Book) : List LegName := b.positions.values.flatMap namesHeld

/-- A run in which no name is given twice: neither taken anew while or after it was in use, nor held
twice at the start. -/
def NamesDistinct (b : Book) (operations : List Operation) : Prop :=
  (heldNames b ++ namesTaken b operations).Nodup

instance (b : Book) (operations : List Operation) : Decidable (NamesDistinct b operations) :=
  inferInstanceAs (Decidable (List.Nodup _))

end VenueBook

open VenueBook

/-- The names a move takes. -/
def Act.names : Act → List LegName
  | .take order => namesOf order false
  | .takeEnded order => namesOf order true
  | _ => []

/-- A quiet act names nothing. -/
theorem Act.names_of_quiet {act : Act} (h : act.quiet) : act.names = [] := by
  cases act with
  | take order => cases h
  | takeEnded order => cases h
  | _ => rfl

namespace VenueBook

/-! ## An order of no position -/

/-- A handler that tells of no leg. -/
structure Hush (h : Handled) : Prop where
  legless : ∀ told, h.records = .ok told → Legless told

/-- Records about no leg are hushed. -/
theorem Hush.tell {f : Focus} {records : List Record} (h : Legless records) :
    Hush (f.tell records) := by
  refine ⟨fun told htold => ?_⟩
  cases htold
  exact h

/-- To raise is to hush. -/
theorem Hush.raise {f : Focus} {failure : Failure} : Hush (f.raise failure) :=
  ⟨fun _ htold => by cases htold⟩

/-- Two handlers that hush. -/
theorem Hush.andThen {h : Handled} {next : Focus → Handled} (hh : Hush h)
    (hnext : Hush (next h.focus)) : Hush (h.andThen next) := by
  refine ⟨fun told htold => ?_⟩
  obtain ⟨first, later, hrecords, hlater, rfl⟩ := told_andThen htold
  exact (hh.legless first hrecords).append (hnext.legless later hlater)

/-- An external event says nothing of a leg. -/
theorem hush_externalEvent (env : Env) (event : ProtoOAExecutionEvent) (order : ProtoOAOrder)
    (precision : ℕ) (reduceOnly : Bool) (f : Focus) :
    Hush (externalEvent env event order precision reduceOnly f) := by
  have hreport : ∀ fills g, Hush (reportExternal order precision reduceOnly fills g) := by
    intro fills g
    unfold reportExternal
    dsimp only
    split
    · exact .raise
    · exact .tell (.single (leg?_externalReport ..))
  unfold externalEvent
  dsimp only
  split
  · split
    · exact .tell .nil
    · exact hreport ..
  · split
    · split
      · exact .raise
      · split
        · exact .tell (.single (leg?_orderFilled ..))
        · exact hreport ..
    · split
      · exact .tell .nil
      · split
        · split
          · exact .tell .nil
          · split
            · exact .raise
            · exact .tell (.single (leg?_orderUpdated ..))
        · split
          · exact .tell (.single (leg?_orderNews ..))
          · exact .tell .nil

/-- An opening order's event that neither fills nor ends it tells of no leg where no level stands. -/
theorem hush_openingOn {event : ProtoOAExecutionEvent} (hevent : tellsUnplaced event = false)
    (env : Env) (order : ProtoOAOrder) (precision : ℕ) {f : Focus}
    (hlevels : f.position.levels.isEmpty) : Hush (openingOn env event order precision f) := by
  simp only [tellsUnplaced, Bool.or_eq_false_iff, Option.isSome_eq_false_iff,
    Option.isNone_iff_eq_none] at hevent
  obtain ⟨hfill, hended⟩ := hevent
  have hentry : ∀ g, Hush (entryEvent env event order precision g) := by
    intro g
    unfold entryEvent
    dsimp only
    split
    · split
      · exact .tell .nil
      · exact .tell (.single (leg?_orderNews ..))
    · rw [hfill, hended]
      exact .tell .nil
  have hexternal : ∀ learnt (g : Focus), g.position.levels.isEmpty →
      Hush (openedExternal env event order precision learnt g) := by
    intro learnt g hg
    refine (hush_externalEvent ..).andThen (.tell ?_)
    rw [externalEvent_position]
    simp only [hfill, hg, Bool.false_and, Bool.not_true, Bool.and_false]
    exact .nil
  refine Hush.andThen (Hush.andThen ⟨legless_opened event order _ f⟩ ?_) ?_
  · unfold openingRecords
    split
    · exact hentry _
    · exact hexternal _ _ (by rw [opened_levels]; exact hlevels)
  · unfold openedTail endIfClosed stopOutActivity
    simp only [hfill, Bool.false_and]
    exact .andThen (.tell .nil) (.tell .nil)

/-- An order of no position, whose event neither fills nor ends it, tells of no leg. -/
theorem idle_unplaced {env : Env} {ops : Operations} {b : Book} {event : ProtoOAExecutionEvent}
    {order : ProtoOAOrder} {precision : ℕ} (hevent : tellsUnplaced event = false)
    (hunplaced : order.positionId? = none) (hprotective : order.orderType ≠ .stopLossTakeProfit)
    (hclosing : order.closingOrder = false)
    (hprecision : env.pricePrecision order.tradeData.symbolId = some precision) :
    (∀ x, (handle env ops b event order).1.positions.get? x = b.positions.get? x) ∧
      Legless (recordsOf (handle env ops b event order).2) := by
  have hf : positionFor b event order = ⟨b, newPosition event order, none⟩ := by
    unfold positionFor
    rw [hunplaced]
  have hlegless : ∀ {records : Except Failure (List Record)},
      (∀ told, records = .ok told → Legless told) → Legless (recordsOf records) := by
    intro records h
    cases records with
    | error failure => exact .nil
    | ok told => exact h told rfl
  unfold handle
  rw [hprecision]
  dsimp only
  rcases does_handleLoaded env ops b event order precision with h | ⟨-, hplace, -⟩
  · rw [h]
    exact ⟨fun _ => rfl, .nil⟩
  · rw [hf] at hplace
    refine ⟨fun x => ?_, hlegless ?_⟩
    · rcases hplace with ⟨hstored, hpositions⟩ | ⟨_, hstored, -, -⟩
      · simp only [Focus.finish, hstored, hpositions]
      · cases hstored
    · unfold handleLoaded
      rw [hf]
      simp only [if_neg hprotective, hclosing, Bool.false_eq_true, if_false]
      split
      · exact fun told htold => by cases htold; exact .nil
      · exact (hush_openingOn hevent env order precision rfl).legless

/-! ## What a call takes -/

/-- The moves of an operation, with the names they take. -/
def NamedMay (b : Book) (operation : Operation) (act : Act) : Prop :=
  OpMay b operation act ∧ act.names.Sublist (takenBy b operation)

/-- An event applies its order as an entry just if the position takes it. -/
theorem appliesEntry_iff {env : Env} {b : Book} {event : ProtoOAExecutionEvent}
    {order : ProtoOAOrder} {precision : ℕ} (hhandles : Handles b event order)
    (hprecision : env.pricePrecision order.tradeData.symbolId = some precision)
    (hprotective : order.orderType ≠ .stopLossTakeProfit) (hclosing : order.closingOrder = false)
    (htakes : takesEntry event order (positionFor b event order).position)
    (hplaced : order.positionId? ≠ none ∨ tellsUnplaced event) :
    appliesEntry env b event order := by
  obtain ⟨-, hopen, hnew⟩ := hhandles
  have hplace : (order.positionId?.isSome || tellsUnplaced event) = true := by
    rcases hplaced with h | h
    · rw [Option.isSome_iff_ne_none.mpr h]
      rfl
    · rw [h, Bool.or_true]
  simp [appliesEntry, hopen, hnew, hprecision, hprotective, hclosing, htakes, hplace]

/-- A call's moves take no names but those of the call. -/
theorem named_of_opMay {b : Book} {operation : Operation} {act : Act}
    (h : OpMay b operation act)
    (hplaced : ∀ env ops event order, operation = .apply env ops event →
      event.order? = some order → order.orderType ≠ .stopLossTakeProfit →
      order.closingOrder = false → order.positionId? ≠ none ∨ tellsUnplaced event) :
    NamedMay b operation act := by
  refine ⟨h, ?_⟩
  cases h with
  | @event env ops event order precision act hhandles hprecision hact =>
    cases hact with
    | take hprotective hclosing htakes hended =>
      have happlies := appliesEntry_iff hhandles hprecision hprotective hclosing htakes
        (hplaced env ops event order rfl hhandles.1 hprotective hclosing)
      simp only [takenBy, hhandles.1, if_pos happlies, Act.names, decide_eq_false hended]
      exact List.Sublist.refl _
    | takeEnded hprotective hclosing htakes hended =>
      have happlies := appliesEntry_iff hhandles hprecision hprotective hclosing htakes
        (hplaced env ops event order rfl hhandles.1 hprotective hclosing)
      simp only [takenBy, hhandles.1, if_pos happlies, Act.names, decide_eq_true hended]
      exact List.Sublist.refl _
    | _ => exact List.nil_sublist _
  | found hp hnone hentry =>
    simp only [takenBy, hp, hentry, hnone, Act.names]
    exact List.Sublist.refl _
  | trailed => exact List.nil_sublist _
  | foundOpen => exact List.nil_sublist _

/-- `perform_changes`, with the names taken. -/
theorem perform_named (b : Book) (operation : Operation) :
    Changes (NamedMay b operation) b (perform b operation).1
      (recordsOf (perform b operation).2) := by
  by_cases hplaced : ∀ env ops event order, operation = .apply env ops event →
      event.order? = some order → order.orderType ≠ .stopLossTakeProfit →
      order.closingOrder = false → order.positionId? ≠ none ∨ tellsUnplaced event
  · exact (perform_changes b operation).mono fun act hact => named_of_opMay hact hplaced
  · push Not at hplaced
    obtain ⟨env, ops, event, order, rfl, horder, hprotective, hclosing, hunplaced, hevent⟩ := hplaced
    rw [ne_eq, Bool.not_eq_true] at hevent
    show Changes _ b (apply env ops b event).1 (recordsOf (apply env ops b event).2)
    rcases apply_cases env ops b event with ⟨order', h⟩ | h
    · obtain rfl : order' = order := by
        have := h.1.symm.trans horder
        exact Option.some.inj this
      have hhandle : Changes (NamedMay b (.apply env ops event)) b (handle env ops b event order').1
          (recordsOf (handle env ops b event order').2) := by
        cases hprecision : env.pricePrecision order'.tradeData.symbolId with
        | none =>
          refine (changes_handle env ops b event order').mono fun act ⟨precision, hsome, _⟩ => ?_
          rw [hprecision] at hsome
          cases hsome
        | some precision =>
          obtain ⟨hsame, htold⟩ := idle_unplaced hevent hunplaced hprotective
            hclosing hprecision
          exact .idle hsame htold
      rw [apply_of_handles h]
      split
      case h_1 failure herror =>
        rw [herror] at hhandle
        exact hhandle
      case h_2 records hok =>
        rw [hok] at hhandle
        exact hhandle.congr (markApplied_positions ..)
    · rw [h]
      exact .idle (fun _ => rfl) .nil

end VenueBook

end NautilusCtrader
