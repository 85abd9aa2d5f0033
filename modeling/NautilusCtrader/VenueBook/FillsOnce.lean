import NautilusCtrader.VenueBook.Calls
import NautilusCtrader.VenueBook.Fills

/-!
# A deal fills once, over any history

`apply` refuses a repeat by the event's key or by its deal. `SeenFillsApplied` ties the two: the key of
a fill event is only ever marked together with its deal. So the first event that fills a deal is
handled, and no later event fills it again.
-/

namespace NautilusCtrader

open Common

namespace VenueBook

/-- The key of a fill event is marked only together with its deal. -/
def SeenFillsApplied (b : Book) : Prop :=
  ∀ orderId kind dealId, SeenKey.deal orderId kind dealId ∈ b.seen → isFill kind →
    dealId ∈ b.appliedDeals

/-- What a call keeps of the marks: nothing seen is forgotten, and no fill is marked seen alone. -/
structure MarksGrow (b b' : Book) : Prop where
  applied : b.appliedDeals ⊆ b'.appliedDeals
  seen : ∀ orderId kind dealId, SeenKey.deal orderId kind dealId ∈ b'.seen → isFill kind →
    SeenKey.deal orderId kind dealId ∈ b.seen ∨ dealId ∈ b'.appliedDeals

/-- Marks that stay have grown. -/
theorem MarksGrow.of_same {b b' : Book} (hseen : b'.seen = b.seen)
    (happlied : b'.appliedDeals = b.appliedDeals) : MarksGrow b b' where
  applied := by rw [happlied]
  seen := by
    rw [hseen]
    exact fun _ _ _ h _ => .inl h

/-- Fills that were seen stay applied while the marks grow. -/
theorem MarksGrow.keeps {b b' : Book} (h : MarksGrow b b') (hb : SeenFillsApplied b) :
    SeenFillsApplied b' := by
  intro orderId kind dealId hseen hfill
  rcases h.seen orderId kind dealId hseen hfill with hold | hnew
  · exact h.applied (hb orderId kind dealId hold hfill)
  · exact hnew

/-- Marking a deal applies it. -/
theorem markDeal_applied (event : ProtoOAExecutionEvent) (b : Book) :
    (markDeal event b).seen = b.seen ∧ b.appliedDeals ⊆ (markDeal event b).appliedDeals ∧
      ∀ deal, event.deal? = some deal → isFill event.executionType →
        deal.dealId ∈ (markDeal event b).appliedDeals := by
  unfold markDeal
  split
  case h_1 deal hdeal =>
    split
    case isTrue hfill =>
      refine ⟨rfl, Finset.subset_insert _ _, fun deal' hdeal' _ => ?_⟩
      rw [hdeal, Option.some.injEq] at hdeal'
      exact hdeal' ▸ Finset.mem_insert_self _ _
    case isFalse hfill => exact ⟨rfl, subset_rfl, fun _ _ h => absurd h hfill⟩
  case h_2 hnone => exact ⟨rfl, subset_rfl, fun _ h => by rw [hnone] at h; cases h⟩

/-- Marking an event handled marks its deal if it is a fill. -/
theorem markApplied_grow (event : ProtoOAExecutionEvent) (order : ProtoOAOrder) (b : Book) :
    MarksGrow b (markApplied event order b) ∧
      ∀ deal, event.deal? = some deal → isFill event.executionType →
        deal.dealId ∈ (markApplied event order b).appliedDeals := by
  obtain ⟨-, hseen, happlied, -⟩ := releaseKeep_marks event order
    (markDeal event { b with seen := insert (keyOf event order) b.seen })
  obtain ⟨hseen', hgrow, hdeal⟩ :=
    markDeal_applied event { b with seen := insert (keyOf event order) b.seen }
  refine ⟨⟨?_, fun orderId kind dealId hmem hfill => ?_⟩, fun deal h hfill => ?_⟩
  · exact happlied ▸ hgrow
  · rw [markApplied, hseen, hseen', Finset.mem_insert] at hmem
    refine hmem.symm.imp_right fun hkey => ?_
    unfold keyOf at hkey
    cases hd : event.deal? with
    | none => simp [hd] at hkey
    | some deal =>
      simp only [hd, SeenKey.deal.injEq] at hkey
      rw [markApplied, happlied, hkey.2.2]
      exact hdeal deal hd (hkey.2.1 ▸ hfill)
  · rw [markApplied, happlied]
    exact hdeal deal h hfill

/-- An event grows the marks. -/
theorem apply_grow (env : Env) (ops : Operations) (b : Book) (event : ProtoOAExecutionEvent) :
    MarksGrow b (apply env ops b event).1 := by
  rcases apply_cases env ops b event with ⟨order, h⟩ | h
  · have hmarks := handle_marks env ops b event order
    rw [apply_of_handles h]
    split
    · exact .of_same hmarks.seen hmarks.appliedDeals
    · obtain ⟨⟨happlied, hseen⟩, -⟩ := markApplied_grow event order (handle env ops b event order).1
      exact ⟨hmarks.appliedDeals ▸ happlied, hmarks.seen ▸ hseen⟩
  · rw [h]
    exact .of_same rfl rfl

/-- A trailing stop leaves them. -/
theorem trailingStopMoved_grow (env : Env) (b : Book) (event : ProtoOATrailingSLChangedEvent) :
    MarksGrow b (trailingStopMoved env b event).1 := by
  -- A trailing move's key names no deal.
  have hmarked : ∀ b' : Book, b'.appliedDeals = b.appliedDeals →
      b'.seen = insert (SeenKey.trailing event.orderId event.utcLastUpdateTimestamp event.stopPrice)
        b.seen → MarksGrow b b' := by
    intro b' happlied hseen
    refine ⟨by rw [happlied], fun _ _ _ hmem _ => .inl ?_⟩
    rw [hseen, Finset.mem_insert] at hmem
    exact hmem.resolve_left (by simp)
  unfold trailingStopMoved
  split
  · exact .of_same rfl rfl
  · dsimp only
    split
    · exact .of_same rfl rfl
    · split
      · exact .of_same rfl rfl
      · split
        · exact .of_same rfl rfl
        · split
          · exact hmarked _ rfl rfl
          · split
            · exact .of_same rfl rfl
            · exact hmarked _ rfl rfl

/-- So does a change of one position. -/
theorem onPosition_marks (b : Book) (positionId : ℤ) (change : Position → Position × List Record) :
    (onPosition b positionId change).1.seen = b.seen ∧
      (onPosition b positionId change).1.appliedDeals = b.appliedDeals := by
  unfold onPosition
  split <;> exact ⟨rfl, rfl⟩

/-- Every call grows them. -/
theorem perform_grow (b : Book) (operation : Operation) :
    MarksGrow b (perform b operation).1 := by
  cases operation with
  | apply env ops event => exact apply_grow env ops b event
  | trailingStopMoved env event => exact trailingStopMoved_grow env b event
  | entryFound env positionId orders =>
    obtain ⟨hseen, happlied⟩ := onPosition_marks b positionId (foundEntry env.heldClosed orders)
    exact .of_same hseen happlied
  | cancelLeg positionId level ts =>
    obtain ⟨hseen, happlied⟩ := onPosition_marks b positionId (canceledLeg level ts)
    exact .of_same hseen happlied
  | rejectLegs positionId reason ts =>
    obtain ⟨hseen, happlied⟩ := onPosition_marks b positionId (rejectedLegs reason ts)
    exact .of_same hseen happlied
  | matchClose orderId positionId closeId =>
    show MarksGrow b (matchClose b orderId positionId closeId)
    unfold matchClose
    split <;> exact .of_same rfl rfl
  | endKeep positionId => exact .of_same rfl rfl
  | closedInReconciliation positionIds => exact .of_same rfl rfl

/-! ## Loads forget no mark -/

/-- Loaded positions leave the marks. -/
theorem loadPositions_marks (env : Env) (waiting : Finset String)
    (orders : ℤ → List ProtoOAOrder) (states : List ProtoOAPosition) (b : Book) :
    (loadPositions env waiting orders states b).1.seen = b.seen ∧
      (loadPositions env waiting orders states b).1.appliedDeals = b.appliedDeals := by
  induction states generalizing b with
  | nil => exact ⟨rfl, rfl⟩
  | cons state rest ih =>
    unfold loadPositions
    dsimp only
    split
    · exact ⟨rfl, rfl⟩
    · exact ih _

/-- So do loaded orders. -/
theorem loadOrders_marks (env : Env) (orders : List ProtoOAOrder) (b : Book) :
    (orders.foldl (loadOrder env) b).seen = b.seen ∧
      (orders.foldl (loadOrder env) b).appliedDeals = b.appliedDeals := by
  induction orders generalizing b with
  | nil => exact ⟨rfl, rfl⟩
  | cons order rest ih =>
    have hone : (loadOrder env b order).seen = b.seen ∧
        (loadOrder env b order).appliedDeals = b.appliedDeals := by
      unfold loadOrder
      split
      · split <;> exact ⟨rfl, rfl⟩
      · dsimp only
        split
        · exact ⟨rfl, rfl⟩
        · split <;> exact ⟨rfl, rfl⟩
    rw [List.foldl_cons]
    exact ⟨(ih _).1.trans hone.1, (ih _).2.trans hone.2⟩

/-- So does the whole load. -/
theorem load_marks (env : Env) (b : Book) (snapshot : ProtoOAReconcileRes)
    (orders : ℤ → List ProtoOAOrder) (keepGone : Bool) (readMs : ℤ) (waiting : Finset String) :
    (load env b snapshot orders keepGone readMs waiting).1.seen = b.seen ∧
      (load env b snapshot orders keepGone readMs waiting).1.appliedDeals = b.appliedDeals := by
  unfold load
  dsimp only
  split
  · exact loadPositions_marks ..
  · exact ⟨(loadOrders_marks ..).1.trans (loadPositions_marks ..).1,
      (loadOrders_marks ..).2.trans (loadPositions_marks ..).2⟩

/-- In no reachable book is a fill marked seen without its deal. -/
theorem Reachable.seenFillsApplied {b : Book} (hb : Reachable b) : SeenFillsApplied b := by
  induction hb with
  | new =>
    intro _ _ _ h
    simp at h
  | operation op _ ih => exact (perform_grow _ op).keeps ih
  | load env snapshot orders keepGone readMs waiting _ ih =>
    obtain ⟨hseen, happlied⟩ := load_marks env _ snapshot orders keepGone readMs waiting
    exact (MarksGrow.of_same hseen happlied).keeps ih

/-! ## The first event of a deal, and the later ones -/

/-- An event that is handled reports its fills, or is on an unloaded symbol. -/
theorem handle_reports {env : Env} {ops : Operations} {b : Book} {event : ProtoOAExecutionEvent}
    {order : ProtoOAOrder} {told : List Record}
    (h : (handle env ops b event order).2 = .ok told) :
    (∃ precision, eventFills env event precision = .ok (fillsOf told)) ∨ fillsOf told = [] := by
  unfold handle at h
  split at h
  · cases h
    right
    unfold unloadedActivity
    dsimp only
    split
    · rfl
    · split
      · split <;> rfl
      · split <;> rfl
  case h_2 precision _ =>
    exact .inl ⟨precision, (handleLoaded_reports env ops b event order precision).fills_eq told h⟩

/-- An event of a deal already applied reports no fill. -/
theorem fills_of_applied {env : Env} {ops : Operations} {b : Book} {event : ProtoOAExecutionEvent}
    {deal : ProtoOADeal} (hdeal : event.deal? = some deal) (happlied : deal.dealId ∈ b.appliedDeals) :
    fillsOf (recordsOf (apply env ops b event).2) = [] := by
  rcases apply_cases env ops b event with ⟨order, h⟩ | h
  · have hnot : isFill event.executionType = false := by
      have hnew := h.2.2
      simp only [repeated, hdeal, Option.map_some, Option.getD_some, Bool.or_eq_false_iff] at hnew
      simpa [happlied] using hnew.2
    rw [apply_of_handles h]
    split
    · rfl
    case h_2 told hok =>
      rcases handle_reports hok with ⟨precision, hfills⟩ | hnone
      · rw [eventFills_of_not_fill hnot] at hfills
        simpa [recordsOf] using hfills.symm
      · exact hnone
  · rw [h]
    rfl

/-- A fill event of a deal not yet applied is no repeat. -/
theorem repeated_of_new {b : Book} (hb : SeenFillsApplied b) {event : ProtoOAExecutionEvent}
    {order : ProtoOAOrder} {deal : ProtoOADeal} (hdeal : event.deal? = some deal)
    (hfill : isFill event.executionType) (hnew : deal.dealId ∉ b.appliedDeals) :
    repeated b event order = false := by
  have hkey : SeenKey.deal order.orderId event.executionType deal.dealId ∉ b.seen :=
    fun h => hnew (hb _ _ _ h hfill)
  simp [repeated, holdsKey, keyOf, hdeal, hkey, hnew]

/-- Marking a fill event marks its deal. -/
theorem applied_of_apply_ok {env : Env} {ops : Operations} {b : Book}
    {event : ProtoOAExecutionEvent} {order : ProtoOAOrder} {deal : ProtoOADeal} {told : List Record}
    (h : Handles b event order) (hdeal : event.deal? = some deal) (hfill : isFill event.executionType)
    (hok : (apply env ops b event).2 = .ok told) :
    deal.dealId ∈ (apply env ops b event).1.appliedDeals := by
  rw [apply_of_handles h] at hok ⊢
  split at hok
  · cases hok
  case h_2 records hrecords =>
    exact (markApplied_grow event order _).2 deal hdeal hfill

/-- Over any history of the book, the first fill event of a deal that is handled without raising
reports one fill, the deal's, and no later event that carries the deal reports any. -/
theorem deal_fills_once {b : Book} (hb : Reachable b) (before : List Operation) {env : Env}
    {ops : Operations} {event : ProtoOAExecutionEvent} {order : ProtoOAOrder} {deal : ProtoOADeal}
    {precision : ℕ} {told : List Record} (hfill : isFill event.executionType)
    (horder : event.order? = some order) (hdeal : event.deal? = some deal)
    (hloaded : env.pricePrecision order.tradeData.symbolId = some precision)
    (hopen : order.positionId ∉ (machine.after b before).closedInReconciliation)
    (hfirst : dealApplied (machine.after b before) deal.dealId = false)
    (hok : (apply env ops (machine.after b before) event).2 = .ok told) :
    (∃ fill, fillsOf told = [fill] ∧ fill.tradeId = toString deal.dealId ∧
      fill.side = sideOf deal.tradeSide ∧ fill.units = volumeToUnits deal.filledVolume ∧
      priceOf deal.executionPrice precision = .ok fill.price) ∧
    ∀ (between : List Operation) (env' : Env) (ops' : Operations) (event' : ProtoOAExecutionEvent)
      (deal' : ProtoOADeal), event'.deal? = some deal' → deal'.dealId = deal.dealId →
      fillsOf (recordsOf (apply env' ops'
        (machine.after b (before ++ .apply env ops event :: between)) event').2) = [] := by
  have hreach := hb.after before
  have hnew : deal.dealId ∉ (machine.after b before).appliedDeals := by
    simpa [dealApplied] using hfirst
  have hhandles : Handles (machine.after b before) event order :=
    ⟨horder, hopen, repeated_of_new hreach.seenFillsApplied hdeal hfill hnew⟩
  constructor
  · have hrecords : (handle env ops (machine.after b before) event order).2 = .ok told := by
      rw [apply_of_handles hhandles] at hok
      split at hok
      · cases hok
      case h_2 hrecords => rw [hrecords]; exact hok
    unfold handle at hrecords
    rw [hloaded] at hrecords
    -- what any handler of a fill reports is the deal's fill
    have hreports := (handleLoaded_reports env ops _ event order precision).fills_eq told hrecords
    unfold eventFills at hreports
    rw [if_pos hfill, ProtoOAExecutionEvent.deal, hdeal, Option.getD_some] at hreports
    unfold fillOf at hreports
    split at hreports
    · cases hreports
    case h_2 price hprice =>
      split at hreports
      · cases hreports
      · exact ⟨_, (Except.ok.inj hreports).symm, rfl, rfl, rfl, hprice⟩
  · intro between env' ops' event' deal' hdeal' hsame
    rw [Machine.after_append, Machine.after_cons]
    -- a deal that was applied stays so up to the next load
    refine fills_of_applied hdeal' ?_
    have happlied := applied_of_apply_ok hhandles hdeal hfill hok
    have hkept : ∀ s, deal.dealId ∈ s.appliedDeals →
        deal.dealId ∈ (machine.after s between).appliedDeals := fun s hs =>
      Machine.after_invariant (I := fun s => deal.dealId ∈ s.appliedDeals)
        (fun s operation h => (perform_grow s operation).applied h) hs between
    exact hsame ▸ hkept _ happlied

/-- The deal of an entry. -/
theorem entry_deal_fills_once :
    (∃ fill, fillsOf (recordsOf (apply Sample.env {} {} (Sample.entryFill Sample.entry)).2) = [fill] ∧
      fill.tradeId = "1" ∧ fill.side = .buy ∧ fill.units = 10 ∧
      priceOf (.finite 100) 2 = .ok fill.price) ∧
    fillsOf (recordsOf (apply Sample.env {} (machine.after {}
      [.apply Sample.env {} (Sample.entryFill Sample.entry)])
      (Sample.entryFill Sample.entry)).2) = [] := by
  have hok : (apply Sample.env {} {} (Sample.entryFill Sample.entry)).2 =
      .ok (recordsOf (apply Sample.env {} {} (Sample.entryFill Sample.entry)).2) := by
    decide +kernel
  obtain ⟨⟨fill, hfills, hid, hside, hunits, hprice⟩, hlater⟩ :=
    deal_fills_once Reachable.new [] rfl (rfl : _ = some Sample.entry)
      (rfl : _ = some (Sample.deal 1 Sample.entry 150)) (rfl : _ = some 2) (by decide) (by decide) hok
  refine ⟨⟨fill, hfills, hid.trans (by decide +kernel), hside, hunits.trans (by decide +kernel),
    hprice⟩, ?_⟩
  exact hlater [] Sample.env {} (Sample.entryFill Sample.entry) (Sample.deal 1 Sample.entry 150)
    rfl rfl

end VenueBook

end NautilusCtrader
