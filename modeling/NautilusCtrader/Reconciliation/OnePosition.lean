import NautilusCtrader.Operations
import NautilusCtrader.Reconciliation.ReportOrder

/-!
# One position's own pass

A query of one position makes its reports from its own lists alone. They are those the whole pass
makes if no other position's order wants a close in flight that one of its own wants: all that the
rest of the pass leaves to a position is which closes are claimed.
-/

namespace NautilusCtrader

open Common VenueBook OrderRecord

namespace Reconciliation

/-! ## Closes wanted -/

/-- The close in flight a closing order is given, if nobody has it. -/
def Closes.wanted (closes : Closes) (order : ProtoOAOrder) : Option String :=
  if order.closingOrder && order.orderType ≠ .stopLossTakeProfit && !order.isStopOut &&
      (closes.known.get? order.orderId).isNone then
    closes.closing order.positionId order.tradeData.volume (createdOf order) order.orderId
  else none

/-- The claimed closes agree on those of `own`. -/
def Agree (own : Set String) (claimed claimed' : Finset String) : Prop :=
  ∀ id ∈ own, id ∈ claimed ↔ id ∈ claimed'

section Agreeing

variable {own : Set String} {claimed claimed' : Finset String} {closes : Closes}

/-- Claims agree with themselves. -/
theorem Agree.refl (own : Set String) (claimed : Finset String) : Agree own claimed claimed :=
  fun _ _ => Iff.rfl

/-- Agreement passes on. -/
theorem Agree.trans {middle : Finset String} (h : Agree own claimed middle)
    (h' : Agree own middle claimed') : Agree own claimed claimed' :=
  fun id hid => (h id hid).trans (h' id hid)

/-- A further claim on both sides leaves them in agreement. -/
theorem Agree.insert (h : Agree own claimed claimed') (id : String) :
    Agree own (insert id claimed) (insert id claimed') := by
  intro other hother
  rw [Finset.mem_insert, Finset.mem_insert, h other hother]

/-- A close that is none of `own` may be claimed. -/
theorem Agree.claim {id : String} (hid : id ∉ own) (claimed : Finset String) :
    Agree own (Insert.insert id claimed) claimed := by
  intro other hother
  rw [Finset.mem_insert]
  exact ⟨fun h => h.resolve_left fun heq => hid (heq ▸ hother), .inr⟩

/-- An order is told a known close, or no close, or claims the one it wants. -/
theorem closeId_cases (closes : Closes) {order : ProtoOAOrder} (hclosing : order.closingOrder = true)
    (htype : order.orderType ≠ .stopLossTakeProfit) (ask : Bool) :
    (∃ close, ∀ claimed, closeId closes claimed order ask = (close, claimed)) ∨
    ∃ id, closes.wanted order = some id ∧ ∀ claimed, closeId closes claimed order ask =
      if id ∈ claimed then (none, claimed) else (some id, insert id claimed) := by
  cases hknown : closes.known.get? order.orderId with
  | some close =>
    refine .inl ⟨some close, fun claimed => ?_⟩
    unfold closeId
    rw [hknown]
  | none =>
    by_cases hask : (ask && !order.isStopOut) = true
    · have hstop : order.isStopOut = false := by
        rw [Bool.and_eq_true, Bool.not_eq_true'] at hask
        exact hask.2
      have hwanted : closes.wanted order = closes.closing order.positionId order.tradeData.volume
          (createdOf order) order.orderId := by
        unfold Closes.wanted
        rw [if_pos (by simp [hclosing, htype, hstop, hknown])]
      cases hfound : closes.closing order.positionId order.tradeData.volume (createdOf order)
          order.orderId with
      | none =>
        refine .inl ⟨none, fun claimed => ?_⟩
        unfold closeId
        rw [hknown]
        dsimp only
        rw [if_pos hask, hfound]
      | some id =>
        refine .inr ⟨id, hwanted.trans hfound, fun claimed => ?_⟩
        unfold closeId
        rw [hknown]
        dsimp only
        rw [if_pos hask, hfound]
    · refine .inl ⟨none, fun claimed => ?_⟩
      unfold closeId
      rw [hknown]
      dsimp only
      rw [if_neg hask]

/-- An order that wants only closes of `own` is told the same by sets that agree on them. -/
theorem closeId_agree {order : ProtoOAOrder} (hclosing : order.closingOrder = true)
    (htype : order.orderType ≠ .stopLossTakeProfit) (ask : Bool)
    (hwanted : ∀ id, closes.wanted order = some id → id ∈ own) (h : Agree own claimed claimed') :
    (closeId closes claimed' order ask).1 = (closeId closes claimed order ask).1 ∧
      Agree own (closeId closes claimed order ask).2 (closeId closes claimed' order ask).2 := by
  rcases closeId_cases closes hclosing htype ask with ⟨close, hclose⟩ | ⟨id, hid, hclose⟩
  · rw [hclose, hclose]
    exact ⟨rfl, h⟩
  · have hsame := h id (hwanted id hid)
    rw [hclose, hclose]
    by_cases hin : id ∈ claimed
    · rw [if_pos hin, if_pos (hsame.mp hin)]
      exact ⟨rfl, h⟩
    · rw [if_neg hin, if_neg fun hin' => hin (hsame.mpr hin')]
      exact ⟨rfl, h.insert id⟩

/-- An order that wants no close of `own` leaves them as they are. -/
theorem closeId_apart {order : ProtoOAOrder} (hclosing : order.closingOrder = true)
    (htype : order.orderType ≠ .stopLossTakeProfit) (ask : Bool)
    (hwanted : ∀ id, closes.wanted order = some id → id ∉ own) (claimed : Finset String) :
    Agree own (closeId closes claimed order ask).2 claimed := by
  rcases closeId_cases closes hclosing htype ask with ⟨close, hclose⟩ | ⟨id, hid, hclose⟩
  · rw [hclose]
    exact .refl own claimed
  · rw [hclose]
    by_cases hin : id ∈ claimed
    · rw [if_pos hin]
      exact .refl own claimed
    · rw [if_neg hin]
      exact .claim (hwanted id hid) claimed

end Agreeing

/-! ## One position's reports -/

namespace Taken

variable {t : Taken} {own : Set String} {closes : Closes} {inWindow inWindow' : Finset String}
  {claimed claimed' : Finset String}

/-- A closing order is one of the position's, with fills or recent. -/
theorem mem_closingOrders {order : ProtoOAOrder} (h : order ∈ t.closingOrders) :
    order ∈ t.orders ∧ order.closingOrder = true ∧ order.orderType ≠ .stopLossTakeProfit ∧
      (t.fills order.orderId).isEmpty = false := by
  obtain ⟨hmem, hkind⟩ := List.mem_filter.mp (mem_sortOn.mp h)
  rw [Bool.and_eq_true, Bool.and_eq_true, Bool.not_eq_true'] at hkind
  exact ⟨hmem, hkind.1.1, of_decide_eq_true hkind.1.2, hkind.2⟩

/-- The closes are reported alike where the claims on them agree. -/
theorem closeReports_agree (hrecent : ∀ order ∈ t.closingOrders,
      t.recent inWindow' order = t.recent inWindow order)
    (hwanted : ∀ order ∈ t.closingOrders, ∀ id, closes.wanted order = some id → id ∈ own)
    (h : Agree own claimed claimed') {reports : List ReportedOrder} {after : Finset String}
    (hmade : t.closeReports closes inWindow claimed = .ok (reports, after)) :
    ∃ after', t.closeReports closes inWindow' claimed' = .ok (reports, after') ∧
      Agree own after after' := by
  have hstep : ∀ order ∈ t.closingOrders, true = true → ∀ middle middle' report after,
      Agree own middle middle' → t.closeReport closes inWindow middle order = .ok (report, after) →
      ∃ after', t.closeReport closes inWindow' middle' order = .ok (report, after') ∧
        Agree own after after' := by
    intro order horder _ middle middle' report after hmiddle hreport
    obtain ⟨-, hclosing, htype, -⟩ := mem_closingOrders horder
    obtain ⟨hclose, hafter⟩ := closeId_agree hclosing htype (t.recent inWindow order)
      (hwanted order horder) hmiddle
    unfold closeReport at hreport ⊢
    dsimp only at hreport ⊢
    obtain ⟨made, horderReport, hreport⟩ := bind_eq_ok.mp hreport
    cases hreport
    rw [hrecent order horder]
    refine ⟨_, bind_eq_ok.mpr ⟨report, ?_, rfl⟩, hafter⟩
    rw [hclose]
    exact horderReport
  have hnone : ∀ order ∈ t.closingOrders, true = false → ∀ middle middle' report after,
      Agree own middle middle' → t.closeReport closes inWindow middle order = .ok (report, after) →
      False ∧ Agree own after middle' := fun _ _ hfalse => absurd hfalse Bool.false_ne_true.symm
  obtain ⟨reports', after', hmade', hafter, hkeeps⟩ := accumulate_filter hstep hnone h hmade
  have hsame := hkeeps _ (fun report => [report]) fun _ hfalse => hfalse.elim
  rw [List.flatMap_singleton', List.flatMap_singleton'] at hsame
  rw [List.filter_true, ← hsame] at hmade'
  exact ⟨after', hmade', hafter⟩

/-- Closes of others are not claimed. -/
theorem closeReports_apart
    (hwanted : ∀ order ∈ t.closingOrders, ∀ id, closes.wanted order = some id → id ∉ own)
    {made : List ReportedOrder × Finset String}
    (hmade : t.closeReports closes inWindow claimed = .ok made) : Agree own made.2 claimed := by
  refine accumulate_keeps (P := fun after => Agree own after claimed) ?_ (.refl own claimed) hmade
  intro order horder middle report after hmiddle hreport
  obtain ⟨-, hclosing, htype, -⟩ := mem_closingOrders horder
  unfold closeReport at hreport
  obtain ⟨report', -, hreport⟩ := bind_eq_ok.mp hreport
  cases hreport
  exact (closeId_apart hclosing htype _ (hwanted order horder) middle).trans hmiddle

/-- The closes are all that a position's reports take of the window and of the claimed ones. -/
theorem reports_closes {venue : Option ProtoOAPosition} {live : Option ProtoOAOrder}
    {held : HeldOrders} {made : List ReportedOrder × List Notice × Finset String}
    (h : t.reports venue live closes inWindow held claimed = .ok made) :
    ∃ closing, t.closeReports closes inWindow claimed = .ok closing ∧ made.2.2 = closing.2 ∧
      (∀ report ∈ closing.1, report ∈ made.1) ∧ ∀ inWindow' claimed' after',
        t.closeReports closes inWindow' claimed' = .ok (closing.1, after') →
        t.reports venue live closes inWindow' held claimed' = .ok (made.1, made.2.1, after') := by
  obtain ⟨entry, raised, closing, found, foreign, legs, hentry, hraised, hclosing, hfound, hforeign,
    hlegs, rfl⟩ := reports_eq_ok.mp h
  refine ⟨closing, hclosing, rfl, ?_, ?_⟩
  · intro report hreport
    simp [hreport]
  · intro inWindow' claimed' after' hclosing'
    exact reports_eq_ok.mpr ⟨entry, raised, (closing.1, after'), found, foreign, legs, hentry, hraised,
      hclosing', hfound, hforeign, hlegs, rfl⟩

/-- Where the position's deals are all in the window, every close of it is recent. -/
theorem recent_of_take {positionId : ℤ} {entry : ProtoOAOrder} {found : PositionHistory}
    {precision : ℕ} {moneyDigits : Option ℕ}
    (ht : take positionId entry found precision moneyDigits = .ok t)
    (hdeals : ∀ deal ∈ found.deals, toString deal.dealId ∈ inWindow) :
    ∀ order ∈ t.closingOrders, t.recent inWindow order = true := by
  intro order horder
  obtain ⟨-, -, -, hfills⟩ := mem_closingOrders horder
  unfold recent
  obtain ⟨fill, hfill⟩ := List.exists_mem_of_ne_nil _ (List.isEmpty_eq_false_iff.mp hfills)
  obtain ⟨deal, hdeal, -, htrade⟩ := (fills_of_take ht order.orderId fill.tradeId).mp ⟨fill, hfill, rfl⟩
  exact List.any_eq_true.mpr ⟨fill, hfill, decide_eq_true (htrade ▸ hdeals deal hdeal)⟩

/-- A report under a leg's id that names the position. -/
def IsLeg (t : Taken) (report : ReportedOrder) : Prop :=
  isLegId report.venueOrderId = true ∧ report.venuePositionId = some (toString t.positionId)

/-- A report of a leg is a leg's. -/
theorem OfLeg.isLeg {level : Level} {report : ReportedOrder} (h : t.OfLeg level report) :
    t.IsLeg report := by
  obtain ⟨⟨generation, hid⟩, hposition⟩ := h
  exact ⟨hid ▸ isLegId_legVenueOrderId _ _ _, hposition⟩

/-- So is one of a leg that is gone. -/
theorem goneLeg_isLeg {venue : Option ProtoOAPosition} {live : Option ProtoOAOrder}
    {listed : List String} {venueOrderId : String} {reports : List ReportedOrder}
    (h : t.goneLeg venue live listed venueOrderId = .ok reports) :
    ∀ report ∈ reports, t.IsLeg report := by
  intro report hreport
  rcases goneLeg_id h with rfl | ⟨made, rfl, -, hid, hposition⟩
  · exact absurd hreport List.not_mem_nil
  obtain rfl := List.mem_singleton.mp hreport
  unfold goneLeg at h
  split at h
  · cases h
  · rename_i hparse
    exact ⟨hid ▸ isLegId_of_parse hparse, hposition⟩

/-- So are those of foreign legs. -/
theorem foreignLegs_isLeg {legFills : Level → List Fill} {venue : Option ProtoOAPosition}
    {live : Option ProtoOAOrder} {held : HeldOrders} {reports : List ReportedOrder}
    (h : t.foreignLegs legFills venue live held = .ok reports) :
    ∀ report ∈ reports, t.IsLeg report := by
  obtain ⟨standing, levels, gone, hlevels, hgone, rfl⟩ := foreignLegs_parts h
  intro report hreport
  rcases List.mem_append.mp hreport with hlevel | hleft
  · refine forall_flatten (fun level made hmade report hin => ?_) hlevels report hlevel
    rcases foreignLevel_ofLeg hmade with rfl | ⟨leg, rfl, hleg⟩
    · exact absurd hin List.not_mem_nil
    · exact List.mem_singleton.mp hin ▸ hleg.isLeg
  · exact forall_flatten (fun _ _ hmade => goneLeg_isLeg hmade) hgone report hleft

/-- Each report of a position is of an order of its lists, a closing one with a deal, or of one of its
legs. -/
theorem reports_each {orders : List ProtoOAOrder} (hreads : t.Reads orders)
    {venue : Option ProtoOAPosition} {live : Option ProtoOAOrder} {held : HeldOrders}
    {made : List ReportedOrder × List Notice × Finset String}
    (h : t.reports venue live closes inWindow held claimed = .ok made) :
    ∀ report ∈ made.1, (∃ order ∈ orders, OfOrder order report ∧ (order.closingOrder = true →
      order.orderType ≠ .stopLossTakeProfit → order ∈ t.closingOrders)) ∨ t.IsLeg report := by
  obtain ⟨entry, raised, closing, found, foreign, legs, hentry, hraised, hclosing, hfound, hforeign,
    hlegs, rfl⟩ := reports_eq_ok.mp h
  let Of (report : ReportedOrder) : Prop := ∃ order ∈ orders, OfOrder order report ∧
    (order.closingOrder = true → order.orderType ≠ .stopLossTakeProfit → order ∈ t.closingOrders)
  have hopens {order : ProtoOAOrder} {report : ReportedOrder} (horder : order ∈ openingOrders orders)
      (hof : OfOrder order report) : Of report := by
    obtain ⟨hlisted, hopening, -⟩ := mem_openingOrders horder
    refine ⟨order, hlisted, hof, fun hclosing => ?_⟩
    rw [hopening] at hclosing
    cases hclosing
  have hentryOrder : Of entry :=
    hopens (mem_openingOrders_of_entryOf hreads.entry) (entryReport_ofOrder hentry).1
  have hraisedOrder : ∀ report ∈ raised, Of report := by
    intro report hreport
    obtain ⟨order, horder, hmade⟩ := exists_of_mapM hraised report hreport
    exact hopens (hreads.raises.subset horder) (orderReport_ofOrder hmade).1
  have hclosingOrder : ∀ report ∈ closing.1, Of report := by
    intro report hreport
    obtain ⟨order, horder, before, after, hmade⟩ :=
      exists_of_forall₂ (forall₂_of_accumulate hclosing) report hreport
    unfold closeReport at hmade
    obtain ⟨made, hmade', hmade⟩ := bind_eq_ok.mp hmade
    cases hmade
    exact ⟨order, hreads.perm.mem_iff.mp (mem_closingOrders horder).1, (orderReport_ofOrder hmade').1,
      fun _ _ => horder⟩
  have hexternalOrder : ∀ report ∈ found.external, Of report := by
    intro report hreport
    obtain ⟨protective, hsub, hall⟩ := triggers_ofOrder hfound
    obtain ⟨order, horder, hof⟩ := exists_of_forall₂ hall report hreport
    have hlisted := hsub.subset horder
    rw [hreads.protective] at hlisted
    obtain ⟨hin, htype⟩ := List.mem_filter.mp hlisted
    exact ⟨order, hreads.perm.mem_iff.mp hin, hof, fun _ hne => absurd (of_decide_eq_true htype) hne⟩
  -- the parts the reports are made up of
  have hassembled {foreign legs : List ReportedOrder} (hforeign : ∀ report ∈ foreign, t.IsLeg report)
      (hlegs : t.legIds.1.items.mapM (t.nodeLeg t.legIds.1 found.legFills venue live) = .ok legs) :
      ∀ report ∈ entry :: raised ++ closing.1 ++ foreign ++ legs ++ found.external,
        Of report ∨ t.IsLeg report := by
    intro report hreport
    simp only [List.mem_append, List.mem_cons] at hreport
    rcases hreport with ((((rfl | hin) | hin) | hin) | hin) | hin
    · exact .inl hentryOrder
    · exact .inl (hraisedOrder report hin)
    · exact .inl (hclosingOrder report hin)
    · exact .inr (hforeign report hin)
    · obtain ⟨level, hleg⟩ := (nodeLegs_ofLeg hlegs).2 report hin
      exact .inr hleg.isLeg
    · exact .inl (hexternalOrder report hin)
  split at hforeign
  · exact hassembled (foreignLegs_isLeg hforeign) hlegs
  · cases hforeign
    exact hassembled (fun report hreport => absurd hreport List.not_mem_nil) hlegs

end Taken

/-! ## The position among the inputs -/

namespace Inputs

variable (inputs : Inputs)

/-- An order listed for a position, in its own lists or in the snapshot. -/
def OrderOf (positionId : ℤ) (order : ProtoOAOrder) : Prop :=
  (∃ found, inputs.histories.get? positionId = some found ∧ order ∈ found.orders) ∨
    order ∈ inputs.snapshot.order ∧ order.positionId = positionId

/-- No other position's order wants a close in flight that one of the position's orders wants. -/
def Uncontested (positionId : ℤ) : Prop :=
  ∀ otherId ≠ positionId, ∀ order other, inputs.OrderOf positionId order →
    inputs.OrderOf otherId other → ∀ id, inputs.closes.wanted order = some id →
      inputs.closes.wanted other ≠ some id

/-- The position's lists are `found`, their deals are all in the window, and they are its own: a deal
of it is on its entry's symbol, and no other position's lists have an order of it. -/
structure Whole (positionId : ℤ) (found : PositionHistory) : Prop where
  lists : inputs.histories.get? positionId = some found
  deals : ∀ deal ∈ found.deals, deal ∈ inputs.windowDeals
  symbol : ∀ entry, entryOf found.orders = some entry → ∀ deal ∈ inputs.windowDeals,
    deal.positionId = positionId → deal.symbolId = entry.tradeData.symbolId
  orders : ∀ otherId ≠ positionId, ∀ history, inputs.histories.get? otherId = some history →
    ∀ order ∈ history.orders, order.positionId? ≠ some positionId ∧
      ∀ listed ∈ inputs.snapshot.order, listed.positionId = positionId → order.orderId ≠ listed.orderId

/-- What `one_position` reconciles. -/
def alone (positionId : ℤ) (found : PositionHistory) : Inputs :=
  { inputs with
    snapshot := {
      position := inputs.snapshot.position.filter fun position => position.positionId = positionId
      order := inputs.snapshot.order.filter fun order => order.positionId = positionId }
    histories := Dict.empty.set positionId found
    windowDeals := found.deals }

/-- The closes in flight that the position's orders want. -/
def wants (positionId : ℤ) : Set String :=
  {id | ∃ order, inputs.OrderOf positionId order ∧ inputs.closes.wanted order = some id}

variable {inputs} {positionId : ℤ} {found : PositionHistory}

/-- The position alone has its history only. -/
theorem get?_histories_alone (otherId : ℤ) : (inputs.alone positionId found).histories.get? otherId =
    if positionId = otherId then some found else none :=
  Dict.get?_set _ _ _ _

/-- It is open as among the others. -/
theorem openPositions_alone : (inputs.alone positionId found).openPositions.get? positionId =
    inputs.openPositions.get? positionId :=
  (Dict.get?_foldl_set_filter (fun _ _ hkey => decide_eq_true hkey) rfl).symm

/-- Its protective order is live as among them. -/
theorem liveProtective_alone : (inputs.alone positionId found).liveProtective.get? positionId =
    inputs.liveProtective.get? positionId := by
  unfold liveProtective alone
  dsimp only
  rw [List.filter_comm]
  exact (Dict.get?_foldl_set_filter (fun _ _ hkey => decide_eq_true hkey) rfl).symm

/-- The position the snapshot holds under an id has that id. -/
theorem openPositions_id {otherId : ℤ} {position : ProtoOAPosition}
    (h : inputs.openPositions.get? otherId = some position) : position.positionId = otherId := by
  rcases Dict.get?_foldl_set_eq_some h with hempty | ⟨found, -, hkey, rfl⟩
  · cases hempty
  · exact hkey

/-- The symbols as the snapshot's, filled up from the deals and then from the positions' lists. -/
theorem symbols_eq (inputs : Inputs) : inputs.symbols =
    inputs.histories.entries.foldl (fun found history =>
      (symbolOf history.2).elim found (found.setDefault history.1))
        (inputs.windowDeals.foldl (fun found deal =>
          (some deal.symbolId).elim found (found.setDefault deal.positionId))
            (inputs.snapshot.position.foldl (fun found position =>
              found.set position.positionId position.tradeData.symbolId) Dict.empty)) := by
  unfold symbols
  dsimp only
  congr 1
  funext found history
  cases symbolOf history.2 <;> rfl

/-- A position with an entry is on the symbol the snapshot states, else on its entry's. -/
theorem symbols_get? {entry : ProtoOAOrder} (hlists : inputs.histories.get? positionId = some found)
    (hentry : entryOf found.orders = some entry) (hdeals : ∀ deal ∈ inputs.windowDeals,
      deal.positionId = positionId → deal.symbolId = entry.tradeData.symbolId) :
    inputs.symbols.get? positionId = some (((inputs.snapshot.position.foldl (fun found position =>
      found.set position.positionId position.tradeData.symbolId) Dict.empty).get? positionId).getD
        entry.tradeData.symbolId) := by
  have hsymbol : symbolOf found = some entry.tradeData.symbolId := by
    unfold symbolOf
    rw [hentry]
  have hown : ∀ history ∈ inputs.histories.entries, history.1 = positionId →
      ∀ symbolId, symbolOf history.2 = some symbolId → symbolId = entry.tradeData.symbolId := by
    rintro ⟨otherId, history⟩ hmem rfl symbolId hfound
    obtain rfl : history = found :=
      Option.some.inj ((Dict.get?_eq_some.mpr hmem).symm.trans hlists)
    exact Option.some.inj (hfound.symm.trans hsymbol)
  generalize hlisted : inputs.snapshot.position.foldl (fun found position =>
    found.set position.positionId position.tradeData.symbolId) Dict.empty = listed
  have hsymbols : inputs.symbols = inputs.histories.entries.foldl (fun found history =>
      (symbolOf history.2).elim found (found.setDefault history.1))
        (inputs.windowDeals.foldl (fun found deal =>
          (some deal.symbolId).elim found (found.setDefault deal.positionId)) listed) := by
    rw [← hlisted]
    exact symbols_eq inputs
  have hsome : (inputs.symbols.get? positionId).isSome = true := by
    rw [hsymbols]
    refine Dict.isSome_foldl_setDefault (.inr ⟨(positionId, found), ?_, rfl, ?_⟩)
    · exact Dict.get?_eq_some.mp hlists
    · rw [hsymbol]
      rfl
  have hvalue : (inputs.symbols.get? positionId).getD entry.tradeData.symbolId =
      (listed.get? positionId).getD entry.tradeData.symbolId := by
    rw [hsymbols, Dict.getD_foldl_setDefault hown]
    refine Dict.getD_foldl_setDefault fun deal hdeal hkey symbolId hstated => ?_
    exact (Option.some.inj hstated).symm.trans (hdeals deal hdeal hkey)
  obtain ⟨symbolId, hget⟩ := Option.isSome_iff_exists.mp hsome
  rw [hget, Option.getD_some] at hvalue
  rw [hget, hvalue]

/-- Its symbol is the same. -/
theorem symbols_alone (h : inputs.Whole positionId found) {entry : ProtoOAOrder}
    (hentry : entryOf found.orders = some entry) :
    (inputs.alone positionId found).symbols.get? positionId = inputs.symbols.get? positionId := by
  have halone : (inputs.alone positionId found).histories.get? positionId = some found := by
    rw [get?_histories_alone, if_pos rfl]
  rw [symbols_get? h.lists hentry (h.symbol entry hentry), symbols_get? halone hentry
    fun deal hdeal => h.symbol entry hentry deal (h.deals deal hdeal)]
  congr 2
  exact (Dict.get?_foldl_set_filter (fun _ _ hkey => decide_eq_true hkey) rfl).symm

end Inputs

/-! ## One position of either pass -/

section Alone

variable {inputs : Inputs} {positionId : ℤ} {found : PositionHistory} {claimed claimed' : Finset String}

/-- The pass over the position alone makes of it what the whole pass does, if the claimed closes agree
on those the position's orders want. -/
theorem takenOutcome_alone (h : inputs.Whole positionId found) {entry : ProtoOAOrder} {digits : ℕ}
    {t : Taken} (ht : take positionId entry found digits inputs.moneyDigits = .ok t)
    (hagree : Agree (inputs.wants positionId) claimed claimed') {venue : Option ProtoOAPosition}
    {made : Outcome} {after : Finset String}
    (hmade : takenOutcome inputs claimed t found venue = .ok (made, after)) :
    ∃ after', takenOutcome (inputs.alone positionId found) claimed' t found venue = .ok (made, after') ∧
      Agree (inputs.wants positionId) after after' := by
  obtain ⟨-, horders⟩ := take_lists ht
  have hposition : t.positionId = positionId := by
    unfold take at ht
    dsimp only at ht
    obtain ⟨dealFills, -, ht⟩ := bind_eq_ok.mp ht
    cases ht
    rfl
  -- nothing read of the inputs differs on the orders of the position
  have hrecent : ∀ order ∈ t.closingOrders, t.recent (inputs.alone positionId found).inWindow order =
      t.recent inputs.inWindow order := by
    intro order horder
    rw [Taken.recent_of_take ht (fun deal hdeal => ?_) order horder,
      Taken.recent_of_take ht (fun deal hdeal => ?_) order horder]
    · exact List.mem_toFinset.mpr (List.mem_map_of_mem (h.deals deal hdeal))
    · exact List.mem_toFinset.mpr (List.mem_map_of_mem hdeal)
  have hwanted : ∀ order ∈ t.closingOrders, ∀ id, inputs.closes.wanted order = some id →
      id ∈ inputs.wants positionId := by
    intro order horder id hid
    have hlisted := horders.mem_iff.mp (Taken.mem_closingOrders horder).1
    exact ⟨order, .inl ⟨found, h.lists, hlisted⟩, hid⟩
  unfold takenOutcome at hmade
  obtain ⟨reports, hreports, hmade⟩ := bind_eq_ok.mp hmade
  obtain ⟨closing, hclosing, hafter, -, hsame⟩ := Taken.reports_closes hreports
  obtain ⟨after', hclosing', hagree'⟩ :=
    Taken.closeReports_agree hrecent hwanted hagree hclosing
  have hreports' : t.reports venue ((inputs.alone positionId found).liveProtective.get? t.positionId)
      (inputs.alone positionId found).closes (inputs.alone positionId found).inWindow
      (inputs.alone positionId found).held claimed' = .ok (reports.1, reports.2.1, after') := by
    rw [hposition] at hsame ⊢
    rw [Inputs.liveProtective_alone]
    exact hsame _ _ _ hclosing'
  have hcloses : Agree (inputs.wants positionId) reports.2.2 after' := by rwa [hafter]
  dsimp only at hmade
  -- with the same reports both passes make the same of the snapshot's state
  cases venue with
  | none =>
    obtain ⟨positions, hpositions, hmade⟩ := bind_eq_ok.mp hmade
    cases hmade
    refine ⟨after', ?_, hcloses⟩
    unfold takenOutcome
    exact bind_eq_ok.mpr ⟨_, hreports', bind_eq_ok.mpr ⟨positions, hpositions, rfl⟩⟩
  | some position =>
    obtain ⟨positions, hpositions, hmade⟩ := bind_eq_ok.mp hmade
    cases hmade
    refine ⟨after', ?_, hcloses⟩
    unfold takenOutcome
    exact bind_eq_ok.mpr ⟨_, hreports', bind_eq_ok.mpr ⟨positions, hpositions, rfl⟩⟩

/-- What is made of the position alone is what is made of it among the others. -/
theorem positionOutcome_alone (h : inputs.Whole positionId found)
    (hentry : (entryOf found.orders).isSome = true)
    (hagree : Agree (inputs.wants positionId) claimed claimed') {made : Outcome}
    {after : Finset String} (hmade : positionOutcome inputs claimed positionId = .ok (made, after)) :
    ∃ after', positionOutcome (inputs.alone positionId found) claimed' positionId = .ok (made, after') ∧
      Agree (inputs.wants positionId) after after' := by
  obtain ⟨entry, hentry⟩ := Option.isSome_iff_exists.mp hentry
  have hprecision : (inputs.alone positionId found).precision = inputs.precision := rfl
  unfold positionOutcome at hmade ⊢
  rw [Inputs.symbols_alone h hentry, hprecision, Inputs.get?_histories_alone, if_pos rfl]
  rw [h.lists] at hmade
  cases hdigits : (inputs.symbols.get? positionId).bind inputs.precision with
  | none =>
    rw [hdigits] at hmade
    cases hmade
    exact ⟨claimed', rfl, hagree⟩
  | some digits =>
    rw [hdigits] at hmade
    dsimp only at hmade ⊢
    rw [hentry] at hmade ⊢
    dsimp only at hmade ⊢
    unfold entryOutcome at hmade ⊢
    rw [Inputs.openPositions_alone]
    dsimp only at hmade ⊢
    obtain ⟨t, ht, hmade⟩ := bind_eq_ok.mp hmade
    by_cases hfilled : t.entryFills.isEmpty = true
    · rw [if_pos hfilled] at hmade
      cases hvenue : inputs.openPositions.get? positionId with
      | none =>
        rw [hvenue] at hmade
        cases hmade
        refine ⟨claimed', bind_eq_ok.mpr ⟨t, ht, ?_⟩, hagree⟩
        rw [if_pos hfilled]
        rfl
      | some position =>
        rw [hvenue] at hmade
        obtain ⟨report, hreport, hmade⟩ := bind_eq_ok.mp hmade
        cases hmade
        refine ⟨claimed', bind_eq_ok.mpr ⟨t, ht, ?_⟩, hagree⟩
        rw [if_pos hfilled]
        exact bind_eq_ok.mpr ⟨report, hreport, rfl⟩
    · rw [if_neg hfilled] at hmade
      split at hmade
      · rename_i hclosed
        obtain ⟨after', halone, hafter⟩ := takenOutcome_alone h ht hagree hmade
        refine ⟨after', bind_eq_ok.mpr ⟨t, ht, ?_⟩, hafter⟩
        rw [if_neg hfilled, if_pos hclosed]
        exact halone
      · rename_i hclosed
        split at hmade
        · rename_i hmissing
          cases hmade
          refine ⟨claimed', bind_eq_ok.mpr ⟨t, ht, ?_⟩, hagree⟩
          rw [if_neg hfilled, if_neg hclosed, if_pos hmissing]
          rfl
        · rename_i hstands
          obtain ⟨after', halone, hafter⟩ := takenOutcome_alone h ht hagree hmade
          refine ⟨after', bind_eq_ok.mpr ⟨t, ht, ?_⟩, hafter⟩
          rw [if_neg hfilled, if_neg hclosed, if_neg hstands]
          exact halone

/-- An outcome that says nothing of the position and reports none of its orders in the snapshot. -/
structure Outcome.Apart (inputs : Inputs) (positionId : ℤ) (made : Outcome) : Prop where
  names : ∀ item ∈ made.keyed, item.2.venuePositionId ≠ some (toString positionId)
  ids : ∀ item ∈ made.keyed, ∀ listed ∈ inputs.snapshot.order, listed.positionId = positionId →
    item.2.venueOrderId ≠ toString listed.orderId
  positions : ∀ report ∈ made.positions, report.venuePositionId ≠ toString positionId

/-- A position report is of the position the snapshot holds, and only made where an entry is listed. -/
theorem positionOutcome_positions {otherId : ℤ} {made : Outcome} {after : Finset String}
    (h : positionOutcome inputs claimed otherId = .ok (made, after)) :
    ∀ report ∈ made.positions, report.venuePositionId = toString otherId ∧
      ∃ found, inputs.histories.get? otherId = some found ∧ (entryOf found.orders).isSome = true := by
  intro report hreport
  have hpositionReport {position : ProtoOAPosition} {digits : ℕ} {units : Option ℚ}
      {made : ReportedPosition} (hmade : positionReport position digits units = .ok made) :
      made.venuePositionId = toString position.positionId := by
    unfold positionReport at hmade
    obtain ⟨price, -, hmade⟩ := bind_eq_ok.mp hmade
    cases hmade
    rfl
  -- a position report is made of the snapshot's state alone
  have htaken {t : Taken} {found : PositionHistory} {venue : Option ProtoOAPosition}
      (hvenue : ∀ position, venue = some position → position.positionId = otherId)
      (h : takenOutcome inputs claimed t found venue = .ok (made, after)) :
      report.venuePositionId = toString otherId := by
    unfold takenOutcome at h
    obtain ⟨reports, -, h⟩ := bind_eq_ok.mp h
    dsimp only at h
    cases venue with
    | none =>
      obtain ⟨positions, hpositions, h⟩ := bind_eq_ok.mp h
      cases hpositions
      cases h
      exact absurd hreport List.not_mem_nil
    | some position =>
      obtain ⟨positions, hpositions, h⟩ := bind_eq_ok.mp h
      cases h
      generalize hread : positionReport position t.precision _ = read at hpositions
      cases read with
      | error failure => cases hpositions
      | ok read =>
        cases hpositions
        rw [List.mem_singleton.mp hreport, hpositionReport hread, hvenue position rfl]
  unfold positionOutcome at h
  split at h
  · cases h
    exact absurd hreport List.not_mem_nil
  split at h
  · cases h
    exact absurd hreport List.not_mem_nil
  rename_i found hfound
  split at h
  · cases h
    exact absurd hreport List.not_mem_nil
  rename_i entry hentry
  refine ⟨?_, found, hfound, by rw [hentry]; rfl⟩
  have hvenue : ∀ position, inputs.openPositions.get? otherId = some position →
      position.positionId = otherId := fun position => Inputs.openPositions_id
  unfold entryOutcome at h
  dsimp only at h
  obtain ⟨t, -, h⟩ := bind_eq_ok.mp h
  split at h
  · split at h
    · cases h
      exact absurd hreport List.not_mem_nil
    · rename_i position hposition
      obtain ⟨read, hread, h⟩ := bind_eq_ok.mp h
      cases h
      rw [List.mem_singleton.mp hreport, hpositionReport hread, hvenue position hposition]
  · split at h
    · exact htaken (fun position hnone => absurd hnone (Option.some_ne_none position).symm) h
    · split at h
      · cases h
        exact absurd hreport List.not_mem_nil
      · exact htaken hvenue h

/-- Another position says nothing of this one and claims no close that this one's orders want. -/
theorem positionOutcome_apart (h : inputs.Whole positionId found)
    (huncontested : inputs.Uncontested positionId) {otherId : ℤ} (hne : otherId ≠ positionId)
    {made : Outcome} {after : Finset String}
    (hmade : positionOutcome inputs claimed otherId = .ok (made, after)) :
    made.Apart inputs positionId ∧ Agree (inputs.wants positionId) after claimed := by
  have hpositions : ∀ report ∈ made.positions, report.venuePositionId ≠ toString positionId := by
    intro report hreport heq
    exact hne (toString_injective ((positionOutcome_positions hmade report hreport).1.symm.trans heq))
  rcases positionOutcome_cases hmade with
    ⟨hkeyed, rfl⟩ | ⟨history, entry, digits, t, venue, reports, ⟨hhistory, hentry, -⟩, ht, hreports,
      hkeyed, rfl⟩
  · refine ⟨⟨?_, ?_, hpositions⟩, .refl _ _⟩
    · rw [hkeyed]
      exact fun item hitem => absurd hitem List.not_mem_nil
    · rw [hkeyed]
      exact fun item hitem => absurd hitem List.not_mem_nil
  obtain ⟨hreads, hposition⟩ := take_reads hentry ht
  have heach := Taken.reports_each hreads hreports
  refine ⟨⟨fun item hitem hnames => ?_, fun item hitem listed hlisted hlistedId hid => ?_, hpositions⟩, ?_⟩
  · rw [hkeyed] at hitem
    rcases heach item.2 (mem_of_mem_keyedReports hitem) with ⟨order, horder, hof, -⟩ | ⟨-, hleg⟩
    · rw [hof.2] at hnames
      obtain ⟨named, hnamed, heq⟩ := Option.map_eq_some_iff.mp hnames
      rw [toString_injective heq] at hnamed
      exact (h.orders otherId hne history hhistory order horder).1 hnamed
    · rw [hleg, hposition] at hnames
      exact hne (toString_injective (Option.some.inj hnames))
  · rw [hkeyed] at hitem
    rcases heach item.2 (mem_of_mem_keyedReports hitem) with ⟨order, horder, hof, -⟩ | ⟨hleg, -⟩
    · exact (h.orders otherId hne history hhistory order horder).2 listed hlisted hlistedId
        (toString_injective (hof.1.symm.trans hid))
    · rw [hid, isLegId_orderId] at hleg
      cases hleg
  · obtain ⟨closing, hclosing, hafter, -⟩ := Taken.reports_closes hreports
    rw [hafter]
    refine Taken.closeReports_apart (fun order horder id hid hwant => ?_) hclosing
    obtain ⟨mine, hmine, hmineId⟩ := hwant
    have hother : inputs.OrderOf otherId order :=
      .inl ⟨history, hhistory, hreads.perm.mem_iff.mp (Taken.mem_closingOrders horder).1⟩
    exact huncontested otherId hne mine order hmine hother id hmineId hid

/-- Of the position itself nothing is said where no entry is listed. -/
theorem positionOutcome_noEntry (h : inputs.histories.get? positionId = some found)
    (hentry : entryOf found.orders = none) {made : Outcome} {after : Finset String}
    (hmade : positionOutcome inputs claimed positionId = .ok (made, after)) :
    made.Apart inputs positionId ∧ after = claimed := by
  have hpositions : ∀ report ∈ made.positions, report.venuePositionId ≠ toString positionId := by
    intro report hreport
    obtain ⟨-, found', hfound', hsome⟩ := positionOutcome_positions hmade report hreport
    obtain rfl := Option.some.inj (h.symm.trans hfound')
    rw [hentry] at hsome
    cases hsome
  rcases positionOutcome_cases hmade with ⟨hkeyed, hafter⟩ | ⟨found', entry, _, _, _, _, ⟨hfound', hsome, -⟩, -⟩
  · refine ⟨⟨?_, ?_, hpositions⟩, hafter⟩
    · rw [hkeyed]
      exact fun item hitem => absurd hitem List.not_mem_nil
    · rw [hkeyed]
      exact fun item hitem => absurd hitem List.not_mem_nil
  · obtain rfl := Option.some.inj (h.symm.trans hfound')
    rw [hentry] at hsome
    cases hsome

/-- The pass over the position alone never fails at another one, and makes nothing of it. -/
theorem positionOutcome_alone_other {otherId : ℤ}
    (h : otherId ≠ positionId ∨ entryOf found.orders = none) (claimed : Finset String) :
    ∃ made, positionOutcome (inputs.alone positionId found) claimed otherId = .ok (made, claimed) ∧
      made.Apart inputs positionId := by
  have hnothing (notices : List Notice) : Outcome.Apart inputs positionId { notices } :=
    ⟨fun _ hitem => absurd hitem List.not_mem_nil, fun _ hitem => absurd hitem List.not_mem_nil,
      fun _ hreport => absurd hreport List.not_mem_nil⟩
  unfold positionOutcome
  rw [Inputs.get?_histories_alone]
  cases ((inputs.alone positionId found).symbols.get? otherId).bind
      (inputs.alone positionId found).precision with
  | none => exact ⟨{}, rfl, hnothing []⟩
  | some digits =>
    by_cases hsame : positionId = otherId
    · rw [if_pos hsame]
      dsimp only
      rw [h.resolve_left fun hne => hne hsame.symm]
      exact ⟨_, rfl, hnothing _⟩
    · rw [if_neg hsame]
      exact ⟨_, rfl, hnothing _⟩

/-! ## The snapshot's orders -/

/-- What the second loop makes of an order of the position is the same in either pass. -/
theorem listedOrder_alone {order : ProtoOAOrder} (hmem : order ∈ inputs.snapshot.order)
    (hposition : order.positionId = positionId) {reported reported' : List String}
    (hreported : toString order.orderId ∈ reported ↔ toString order.orderId ∈ reported')
    (hagree : Agree (inputs.wants positionId) claimed claimed')
    {made : List (SortKey × ReportedOrder)} {after : Finset String}
    (hmade : listedOrder inputs reported claimed order = .ok (made, after)) :
    ∃ after', listedOrder (inputs.alone positionId found) reported' claimed' order = .ok (made, after') ∧
      Agree (inputs.wants positionId) after after' := by
  have hprecision : (inputs.alone positionId found).precision = inputs.precision := rfl
  have hcloses : (inputs.alone positionId found).closes = inputs.closes := rfl
  unfold listedOrder at hmade ⊢
  rw [hprecision, hcloses, ← decide_eq_decide.mpr hreported]
  by_cases hskip : (order.orderType = .stopLossTakeProfit || toString order.orderId ∈ reported) = true
  · rw [if_pos hskip] at hmade ⊢
    cases hmade
    exact ⟨claimed', rfl, hagree⟩
  rw [if_neg hskip] at hmade ⊢
  have htype : order.orderType ≠ .stopLossTakeProfit := by
    intro htype
    simp [htype] at hskip
  cases hdigits : inputs.precision order.tradeData.symbolId with
  | none =>
    rw [hdigits] at hmade
    cases hmade
    exact ⟨claimed', rfl, hagree⟩
  | some digits =>
    rw [hdigits] at hmade
    dsimp only at hmade ⊢
    by_cases hclosing : order.closingOrder = true
    · rw [if_pos hclosing] at hmade ⊢
      have hwanted : ∀ id, inputs.closes.wanted order = some id → id ∈ inputs.wants positionId :=
        fun id hid => ⟨order, .inr ⟨hmem, hposition⟩, hid⟩
      obtain ⟨hclose, hafter⟩ := closeId_agree hclosing htype true hwanted hagree
      obtain ⟨report, hreport, hmade⟩ := bind_eq_ok.mp hmade
      cases hmade
      refine ⟨_, bind_eq_ok.mpr ⟨report, ?_, rfl⟩, hafter⟩
      rw [hclose]
      exact hreport
    · rw [if_neg hclosing] at hmade ⊢
      obtain ⟨report, hreport, hmade⟩ := bind_eq_ok.mp hmade
      cases hmade
      refine ⟨claimed', ?_, hagree⟩
      exact bind_eq_ok.mpr ⟨report, hreport, rfl⟩

/-- An order of another position names this one nowhere, and claims no close that this one's want. -/
theorem listedOrder_apart (huncontested : inputs.Uncontested positionId) {order : ProtoOAOrder}
    (hmem : order ∈ inputs.snapshot.order) (hposition : order.positionId ≠ positionId)
    {reported : List String} {made : List (SortKey × ReportedOrder)} {after : Finset String}
    (hmade : listedOrder inputs reported claimed order = .ok (made, after)) :
    (∀ item ∈ made, item.2.venuePositionId ≠ some (toString positionId)) ∧
      Agree (inputs.wants positionId) after claimed := by
  refine ⟨fun item hitem hnames => ?_, ?_⟩
  · rcases listedOrder_cases hmade with rfl | ⟨report, rfl, hof, -⟩
    · cases hitem
    · rw [List.mem_singleton.mp hitem, hof.2] at hnames
      obtain ⟨named, hnamed, heq⟩ := Option.map_eq_some_iff.mp hnames
      refine hposition ?_
      rw [← toString_injective heq]
      unfold ProtoOAOrder.positionId
      rw [hnamed, Option.getD_some]
  unfold listedOrder at hmade
  split at hmade
  · cases hmade
    exact .refl _ _
  rename_i hskip
  have htype : order.orderType ≠ .stopLossTakeProfit := by
    intro htype
    simp [htype] at hskip
  split at hmade
  · cases hmade
    exact .refl _ _
  dsimp only at hmade
  obtain ⟨report, -, hmade⟩ := bind_eq_ok.mp hmade
  cases hmade
  by_cases hclosing : order.closingOrder = true
  · rw [if_pos hclosing]
    refine closeId_apart hclosing htype true (fun id hid hwant => ?_) claimed
    obtain ⟨mine, hmine, hmineId⟩ := hwant
    exact huncontested order.positionId hposition mine order hmine (.inr ⟨hmem, rfl⟩) id hmineId hid
  · rw [if_neg hclosing]
    exact .refl _ _

/-! ## The two passes -/

/-- The reports of a pass that name a position. -/
def ordersOf (positionId : ℤ) (result : Reconciliation) : List ReportedOrder :=
  result.orders.filter fun report => report.venuePositionId = some (toString positionId)

/-- The position reports of a pass that name a position. -/
def positionsOf (positionId : ℤ) (result : Reconciliation) : List ReportedPosition :=
  result.positions.filter fun report => report.venuePositionId = toString positionId

/-- The reports with their places that name a position. -/
def keyedOf (positionId : ℤ) (keyed : List (SortKey × ReportedOrder)) :
    List (SortKey × ReportedOrder) :=
  keyed.filter fun item => item.2.venuePositionId = some (toString positionId)

/-- Sorting commutes with picking a position's orders. -/
theorem ordersOf_sorted (positionId : ℤ) (keyed : List (SortKey × ReportedOrder)) :
    ((sortOn Prod.fst keyed).map Prod.snd).filter
        (fun report => report.venuePositionId = some (toString positionId)) =
      (sortOn Prod.fst (keyedOf positionId keyed)).map Prod.snd := by
  rw [List.filter_map, keyedOf, ← filter_sortOn_comm]
  rfl

/-- A position's reports are picked from two parts. -/
theorem keyedOf_append (positionId : ℤ) (keyed keyed' : List (SortKey × ReportedOrder)) :
    keyedOf positionId (keyed ++ keyed') = keyedOf positionId keyed ++ keyedOf positionId keyed' :=
  List.filter_append ..

/-- The first loop of either pass takes the position if its lists have an entry. -/
theorem filter_symbols (h : inputs.Whole positionId found) {mine : ℤ → Bool}
    (hmine : ∀ otherId, mine otherId = true ↔
      otherId = positionId ∧ (entryOf found.orders).isSome = true) :
    (sortOn id (inputs.alone positionId found).symbols.keys).filter mine =
      (sortOn id inputs.symbols.keys).filter mine := by
  rw [filter_sortOn_comm, filter_sortOn_comm]
  refine sortOn_eq_of_perm ?_ fun _ _ _ _ heq => heq
  refine (List.perm_ext_iff_of_nodup (((inputs.alone positionId found).symbols.nodup).filter _)
    (inputs.symbols.nodup.filter _)).mpr fun otherId => ?_
  rw [List.mem_filter, List.mem_filter, and_congr_left_iff]
  intro hother
  obtain ⟨rfl, hentry⟩ := (hmine otherId).mp hother
  obtain ⟨entry, hentry⟩ := Option.isSome_iff_exists.mp hentry
  have hkeys {symbols : Dict ℤ ℤ} {symbolId : ℤ} (hget : symbols.get? otherId = some symbolId) :
      otherId ∈ symbols.keys :=
    List.mem_map.mpr ⟨_, Dict.get?_eq_some.mp hget, rfl⟩
  have hfull := Inputs.symbols_get? h.lists hentry (h.symbol entry hentry)
  exact iff_of_true (hkeys ((Inputs.symbols_alone h hentry).trans hfull)) (hkeys hfull)

/-- The first loop over the position alone makes of it what the whole pass's loop makes, and nothing of
the others. -/
theorem takenLoop_alone (h : inputs.Whole positionId found)
    (huncontested : inputs.Uncontested positionId) {taken : List Outcome} {after : Finset String}
    (htaken : accumulate (positionOutcome inputs) inputs.claimedBefore
      (sortOn id inputs.symbols.keys) = .ok (taken, after)) :
    ∃ taken' after', accumulate (positionOutcome (inputs.alone positionId found))
        (inputs.alone positionId found).claimedBefore
        (sortOn id (inputs.alone positionId found).symbols.keys) = .ok (taken', after') ∧
      Agree (inputs.wants positionId) after after' ∧
      ∀ (γ : Type) (out : Outcome → List γ), (∀ made, made.Apart inputs positionId → out made = []) →
        taken.flatMap out = taken'.flatMap out := by
  obtain ⟨mine, hmine⟩ : ∃ mine : ℤ → Bool, ∀ otherId, mine otherId = true ↔
      otherId = positionId ∧ (entryOf found.orders).isSome = true :=
    ⟨fun otherId => otherId = positionId && (entryOf found.orders).isSome, fun otherId => by
      rw [Bool.and_eq_true, decide_eq_true_eq]⟩
  have hother {otherId : ℤ} (hfalse : mine otherId = false) :
      otherId ≠ positionId ∨ entryOf found.orders = none := by
    by_contra hboth
    rw [not_or, not_not, ← ne_eq, ← Option.isSome_iff_ne_none] at hboth
    rw [(hmine otherId).mpr hboth] at hfalse
    cases hfalse
  have hposition : ∀ otherId ∈ sortOn id inputs.symbols.keys, mine otherId = true →
      ∀ claimed claimed' made after, Agree (inputs.wants positionId) claimed claimed' →
        positionOutcome inputs claimed otherId = .ok (made, after) →
        ∃ after', positionOutcome (inputs.alone positionId found) claimed' otherId =
          .ok (made, after') ∧ Agree (inputs.wants positionId) after after' := by
    intro otherId _ htrue claimed claimed' made after hagree hmade
    obtain ⟨rfl, hentry⟩ := (hmine otherId).mp htrue
    exact positionOutcome_alone h hentry hagree hmade
  have hrest : ∀ otherId ∈ sortOn id inputs.symbols.keys, mine otherId = false →
      ∀ claimed claimed' made after, Agree (inputs.wants positionId) claimed claimed' →
        positionOutcome inputs claimed otherId = .ok (made, after) →
        made.Apart inputs positionId ∧ Agree (inputs.wants positionId) after claimed' := by
    intro otherId _ hfalse claimed claimed' made after hagree hmade
    by_cases hne : otherId = positionId
    · subst hne
      obtain ⟨hapart, rfl⟩ := positionOutcome_noEntry h.lists
        ((hother hfalse).resolve_left fun hne => hne rfl) hmade
      exact ⟨hapart, hagree⟩
    · obtain ⟨hapart, hafter⟩ := positionOutcome_apart h huncontested hne hmade
      exact ⟨hapart, hafter.trans hagree⟩
  obtain ⟨one, after', hone, hagree, hkeeps⟩ :=
    accumulate_filter hposition hrest (.refl (inputs.wants positionId) inputs.claimedBefore) htaken
  rw [← filter_symbols h hmine] at hone
  obtain ⟨taken', htaken', hkeeps'⟩ := accumulate_of_filter
    (fun otherId _ hfalse claimed => positionOutcome_alone_other (hother hfalse) claimed) hone
  exact ⟨taken', after', htaken', hagree, fun γ out hout =>
    (hkeeps γ out hout).trans (hkeeps' γ out hout).symm⟩

/-- Where all the deals of a position are in the window and no other position's order competes for the
closes in flight its own want, the pass over the position alone gives for it what the whole pass does. -/
theorem onePosition_eq (inputs : Inputs) (positionId : ℤ) (found : PositionHistory)
    (h : inputs.Whole positionId found) (huncontested : inputs.Uncontested positionId)
    (result : Reconciliation) (hresult : reconcile inputs = .ok result) :
    ∃ alone, onePosition inputs positionId found = .ok alone ∧
      ordersOf positionId alone = ordersOf positionId result ∧
      positionsOf positionId alone = positionsOf positionId result := by
  unfold reconcile at hresult
  dsimp only at hresult
  obtain ⟨⟨taken, afterTaken⟩, htaken, hresult⟩ := bind_eq_ok.mp hresult
  obtain ⟨⟨listed, afterListed⟩, hlisted, hresult⟩ := bind_eq_ok.mp hresult
  cases hresult
  obtain ⟨taken', afterTaken', htaken', hagree, hsame⟩ := takenLoop_alone h huncontested htaken
  have hkeyed : keyedOf positionId (taken.flatMap Outcome.keyed) =
      keyedOf positionId (taken'.flatMap Outcome.keyed) := by
    unfold keyedOf
    rw [List.filter_flatMap, List.filter_flatMap]
    refine hsame _ _ fun made hapart => ?_
    exact List.filter_eq_nil_iff.mpr fun item hitem => by simpa using hapart.names item hitem
  have hpositions : (taken.flatMap Outcome.positions).filter
        (fun report => report.venuePositionId = toString positionId) =
      (taken'.flatMap Outcome.positions).filter
        (fun report => report.venuePositionId = toString positionId) := by
    rw [List.filter_flatMap, List.filter_flatMap]
    refine hsame _ _ fun made hapart => ?_
    exact List.filter_eq_nil_iff.mpr fun report hreport => by
      simpa using hapart.positions report hreport
  -- Whether an order of the position was reported is asked of the position's own reports only.
  have hreported : ∀ order ∈ inputs.snapshot.order, order.positionId = positionId →
      (toString order.orderId ∈ (taken.flatMap Outcome.keyed).map (fun item => item.2.venueOrderId) ↔
        toString order.orderId ∈
          (taken'.flatMap Outcome.keyed).map fun item => item.2.venueOrderId) := by
    intro order horder hposition
    have hfound : (taken.flatMap Outcome.keyed).filter
          (fun item => item.2.venueOrderId = toString order.orderId) =
        (taken'.flatMap Outcome.keyed).filter
          (fun item => item.2.venueOrderId = toString order.orderId) := by
      rw [List.filter_flatMap, List.filter_flatMap]
      refine hsame _ _ fun made hapart => ?_
      exact List.filter_eq_nil_iff.mpr fun item hitem => by
        simpa using hapart.ids item hitem order horder hposition
    have hmem (keyed : List (SortKey × ReportedOrder)) :
        toString order.orderId ∈ keyed.map (fun item => item.2.venueOrderId) ↔
          keyed.filter (fun item => item.2.venueOrderId = toString order.orderId) ≠ [] := by
      rw [ne_eq, List.filter_eq_nil_iff, List.mem_map]
      simp only [decide_eq_true_eq, not_forall, not_not, exists_prop]
    rw [hmem, hmem, hfound]
  have hmine : ∀ order ∈ inputs.snapshot.order, decide (order.positionId = positionId) = true →
      ∀ claimed claimed' made after, Agree (inputs.wants positionId) claimed claimed' →
        listedOrder inputs ((taken.flatMap Outcome.keyed).map fun item => item.2.venueOrderId) claimed
          order = .ok (made, after) →
        ∃ after', listedOrder (inputs.alone positionId found)
          ((taken'.flatMap Outcome.keyed).map fun item => item.2.venueOrderId) claimed' order =
            .ok (made, after') ∧ Agree (inputs.wants positionId) after after' := by
    intro order horder hposition claimed claimed' made after hclaimed hmade
    have hposition := of_decide_eq_true hposition
    exact listedOrder_alone horder hposition (hreported order horder hposition) hclaimed hmade
  have hother : ∀ order ∈ inputs.snapshot.order, decide (order.positionId = positionId) = false →
      ∀ claimed claimed' made after, Agree (inputs.wants positionId) claimed claimed' →
        listedOrder inputs ((taken.flatMap Outcome.keyed).map fun item => item.2.venueOrderId) claimed
          order = .ok (made, after) →
        (∀ item ∈ made, item.2.venuePositionId ≠ some (toString positionId)) ∧
          Agree (inputs.wants positionId) after claimed' := by
    intro order horder hposition claimed claimed' made after hclaimed hmade
    obtain ⟨hnames, hafter⟩ :=
      listedOrder_apart huncontested horder (of_decide_eq_false hposition) hmade
    exact ⟨hnames, hafter.trans hclaimed⟩
  obtain ⟨listed', afterListed', hlisted', -, hkeeps⟩ :=
    accumulate_filter hmine hother hagree hlisted
  have hpending : keyedOf positionId listed.flatten = keyedOf positionId listed'.flatten := by
    unfold keyedOf
    rw [List.filter_flatten, List.filter_flatten, ← List.flatMap_def, ← List.flatMap_def]
    refine hkeeps _ _ fun made hnames => ?_
    exact List.filter_eq_nil_iff.mpr fun item hitem => by simpa using hnames item hitem
  refine ⟨_, bind_eq_ok.mpr ⟨_, htaken', bind_eq_ok.mpr ⟨_, hlisted', rfl⟩⟩, ?_, hpositions.symm⟩
  unfold ordersOf
  dsimp only
  rw [ordersOf_sorted, ordersOf_sorted, keyedOf_append, keyedOf_append, hkeyed, hpending]

end Alone

/-- The position's close is in flight, and another position has only its entry. -/
def closedBeside : Inputs where
  snapshot := { position := [], order := [] }
  histories := (Dict.empty.set 20 { orders := [{ Sample.entry with orderId := 11, positionId? := some 20 }]
                                    deals := [] }).set 10
    { orders := [Sample.entry, Sample.closing]
      deals := [Sample.deal 1 Sample.entry 150, Sample.deal 3 Sample.closing 510] }
  windowDeals := [Sample.deal 1 Sample.entry 150, Sample.deal 3 Sample.closing 510]
  precision := fun _ => some 2
  closes := { closing := (OperationsInFlight.beginClose {} "C-1" 10 1000 (-1)).closing }
  moneyDigits := some 2

/-- The closed position is read whole. -/
theorem closedBeside_whole : closedBeside.Whole 10
    { orders := [Sample.entry, Sample.closing]
      deals := [Sample.deal 1 Sample.entry 150, Sample.deal 3 Sample.closing 510] } ∧
    closedBeside.Uncontested 10 := by
  have hother : ∀ otherId ≠ 10, ∀ history, closedBeside.histories.get? otherId = some history →
      ∀ order ∈ history.orders, order.closingOrder = false ∧ order.positionId? = some 20 := by
    intro otherId hne history hhistory order horder
    unfold closedBeside at hhistory
    dsimp only at hhistory
    rw [Dict.get?_set_of_ne _ _ hne.symm] at hhistory
    rcases Dict.get?_set_eq_some.mp hhistory with ⟨-, rfl⟩ | ⟨-, hnone⟩
    · rw [List.mem_singleton.mp horder]
      exact ⟨rfl, rfl⟩
    · cases hnone
  refine ⟨⟨Dict.get?_set_self _ _ _, fun _ hdeal => hdeal, fun entry hentry deal hdeal _ => ?_,
    fun otherId hne history hhistory order horder => ⟨?_, fun _ hlisted => ?_⟩⟩, ?_⟩
  · obtain rfl : Sample.entry = entry := Option.some.inj hentry
    rcases List.mem_cons.mp hdeal with rfl | hlast
    · rfl
    · rw [List.mem_singleton.mp hlast]
      rfl
  · rw [(hother otherId hne history hhistory order horder).2]
    decide
  · exact absurd hlisted List.not_mem_nil
  · intro otherId hne order other _ hothers id _ hwanted
    rcases hothers with ⟨history, hhistory, hin⟩ | ⟨hin, -⟩
    · unfold Closes.wanted at hwanted
      rw [(hother otherId hne history hhistory other hin).1] at hwanted
      cases hwanted
    · exact absurd hin List.not_mem_nil

/-- It is reported alone as beside the other. -/
theorem closedBeside_eq : ∃ result, reconcile closedBeside = .ok result ∧
    ∃ alone, onePosition closedBeside 10
        { orders := [Sample.entry, Sample.closing]
          deals := [Sample.deal 1 Sample.entry 150, Sample.deal 3 Sample.closing 510] } = .ok alone ∧
      ordersOf 10 alone = ordersOf 10 result ∧ positionsOf 10 alone = positionsOf 10 result := by
  obtain ⟨result, hresult⟩ := exists_of_isOk
    (by decide +kernel : (reconcile closedBeside).isOk = true)
  obtain ⟨hwhole, huncontested⟩ := closedBeside_whole
  exact ⟨result, hresult, onePosition_eq closedBeside 10 _ hwhole huncontested result hresult⟩

end Reconciliation

end NautilusCtrader
