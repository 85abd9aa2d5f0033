import NautilusCtrader.Operations
import NautilusCtrader.Reconciliation.OnePosition

/-!
# Closes in flight that nothing tells apart

The search for the close that a closing order carries out (`closing`) returns the first one in flight that
the order fits, also where an earlier order of the pass has claimed it. Of several closes of one volume on
one position only the first is ever found, so that all are matched only where there is one at most
(`closes_matched_iff`).
-/

namespace NautilusCtrader

open Common VenueBook OrderRecord

/-! ## The search -/

namespace OperationsInFlight

variable {ops : OperationsInFlight} {id : String} {positionId createdMs orderId : ℤ} {volume : ℕ}

/-- An unanswered close is found for an order it fits. -/
theorem fits_of_closing (h : ops.closing positionId volume createdMs orderId = some id)
    (hanswer : ops.answers.get? id = none) :
    ∃ close, (ops.closes.entries.find? fun entry =>
        !ops.answers.contains entry.1 && entry.2.fits positionId volume createdMs) = some (id, close) ∧
      close.fits positionId volume createdMs = true := by
  unfold closing at h
  dsimp only at h
  rcases Option.or_eq_some_iff.mp h with hnamed | ⟨-, hfitting⟩
  · obtain ⟨⟨named, answer⟩, hfound, rfl⟩ := Option.map_eq_some_iff.mp hnamed
    have hanswered := Dict.get?_eq_some.mpr (List.mem_of_find?_eq_some hfound)
    rw [hanswer] at hanswered
    cases hanswered
  · obtain ⟨⟨found, close⟩, hfound, rfl⟩ := Option.map_eq_some_iff.mp hfitting
    have hfits := List.find?_some hfound
    rw [Bool.and_eq_true] at hfits
    exact ⟨close, hfound, hfits.2⟩

/-- Of two elements that are first for one of two tests each and pass the other's, one is not before the
other. -/
theorem find?_agree {α : Type} {p q : α → Bool} {xs : List α} {a b : α} (ha : xs.find? p = some a)
    (hb : xs.find? q = some b) (hqa : q a = true) (hpb : p b = true) : a = b := by
  induction xs with
  | nil => cases ha
  | cons x xs ih =>
    rw [List.find?_cons] at ha hb
    by_cases hp : p x = true
    · simp only [hp] at ha
      obtain rfl : x = a := Option.some.inj ha
      simp only [hqa] at hb
      exact Option.some.inj hb
    · by_cases hq : q x = true
      · simp only [hq] at hb
        obtain rfl : x = b := Option.some.inj hb
        exact absurd hpb hp
      · simp only [hp, hq] at ha hb
        exact ih ha hb

/-- Two orders that fit two unanswered closes are not found one of them each. -/
theorem closing_agree {id' : String} {createdMs' orderId' : ℤ}
    (h : ops.closing positionId volume createdMs orderId = some id)
    (h' : ops.closing positionId volume createdMs' orderId' = some id')
    (hanswer : ops.answers.get? id = none) (hanswer' : ops.answers.get? id' = none)
    (hfits : ∀ close, ops.closes.get? id = some close → close.fits positionId volume createdMs' = true)
    (hfits' : ∀ close, ops.closes.get? id' = some close → close.fits positionId volume createdMs = true) :
    id = id' := by
  obtain ⟨close, hfound, -⟩ := fits_of_closing h hanswer
  obtain ⟨close', hfound', -⟩ := fits_of_closing h' hanswer'
  have hget := Dict.get?_eq_some.mpr (List.mem_of_find?_eq_some hfound)
  have hget' := Dict.get?_eq_some.mpr (List.mem_of_find?_eq_some hfound')
  refine (Prod.mk.inj (find?_agree hfound hfound' ?_ ?_)).1
  · simp [Dict.contains, hanswer, hfits close hget]
  · simp [Dict.contains, hanswer', hfits' close' hget']

end OperationsInFlight

namespace Reconciliation

/-! ## What one position's closing orders are given -/

section Given

variable {closes : Closes} {claimed : Finset String} {order : ProtoOAOrder} {id : String}

/-- An order claims the close it wants, if it asks. -/
theorem mem_closeId (hclosing : order.closingOrder = true) (htype : order.orderType ≠ .stopLossTakeProfit)
    (ask : Bool) : id ∈ (closeId closes claimed order ask).2 ↔
      id ∈ claimed ∨ ask = true ∧ closes.wanted order = some id := by
  unfold closeId Closes.wanted
  cases hknown : closes.known.get? order.orderId with
  | some known => simp
  | none =>
    by_cases hasks : (ask && !order.isStopOut) = true
    · have hboth := hasks
      rw [Bool.and_eq_true, Bool.not_eq_true'] at hboth
      simp only [hclosing, htype, hboth.1, hboth.2, Bool.not_false, Bool.and_self, if_true, ne_eq,
        not_false_eq_true, decide_true, Option.isNone_none, true_and]
      cases closes.closing order.positionId order.tradeData.volume (createdOf order) order.orderId with
      | none => simp
      | some candidate =>
        dsimp only
        by_cases hin : candidate ∈ claimed
        · rw [if_pos hin, Option.some.injEq]
          constructor
          · exact .inl
          · rintro (hold | rfl)
            · exact hold
            · exact hin
        · rw [if_neg hin, Finset.mem_insert, Option.some.injEq, eq_comm, or_comm]
    · dsimp only
      rw [if_neg hasks]
      have hnone : ¬ (ask = true ∧ order.isStopOut = false) := by
        rintro ⟨hask, hstop⟩
        simp [hask, hstop] at hasks
      constructor
      · exact .inl
      · rintro (hold | ⟨hask, hwanted⟩)
        · exact hold
        · have hstop : order.isStopOut = true := by
            rw [← Bool.not_eq_false]
            exact fun hstop => hnone ⟨hask, hstop⟩
          simp [hstop] at hwanted

/-- An order that asks is given the close it wants, unless it is claimed. -/
theorem closeId_wanted (hclosing : order.closingOrder = true)
    (htype : order.orderType ≠ .stopLossTakeProfit) (hknown : closes.known.get? order.orderId = none)
    (hstop : order.isStopOut = false) : (closeId closes claimed order true).1 = some id ↔
      closes.wanted order = some id ∧ id ∉ claimed := by
  unfold closeId Closes.wanted
  simp only [hknown, hclosing, htype, hstop, Bool.not_false, Bool.and_self, if_true, ne_eq,
    not_false_eq_true, decide_true, Option.isNone_none]
  cases closes.closing order.positionId order.tradeData.volume (createdOf order) order.orderId with
  | none => simp
  | some candidate =>
    dsimp only
    rw [Option.some.injEq]
    by_cases hin : candidate ∈ claimed
    · rw [if_pos hin]
      constructor
      · intro hnone
        cases hnone
      · rintro ⟨rfl, hnew⟩
        exact absurd hin hnew
    · rw [if_neg hin, Option.some.injEq]
      constructor
      · rintro rfl
        exact ⟨rfl, hin⟩
      · exact And.left

end Given

namespace Taken

variable {t : Taken} {closes : Closes} {inWindow claimed claimed' : Finset String}
  {order : ProtoOAOrder}

/-- The closes claimed once some closing orders were reported. -/
theorem mem_claimed {orders : List ProtoOAOrder} {reports : List ReportedOrder}
    (hkind : ∀ other ∈ orders, other.closingOrder = true ∧ other.orderType ≠ .stopLossTakeProfit)
    (h : accumulate (t.closeReport closes inWindow) claimed orders = .ok (reports, claimed')) (id : String) :
    id ∈ claimed' ↔ id ∈ claimed ∨
      ∃ other ∈ orders, t.recent inWindow other = true ∧ closes.wanted other = some id := by
  refine accumulate_adds (P := fun claimed => id ∈ claimed) ?_ h
  intro other hother before report after hreport
  obtain ⟨hclosing, htype⟩ := hkind other hother
  unfold closeReport at hreport
  obtain ⟨made, -, hreport⟩ := bind_eq_ok.mp hreport
  cases hreport
  exact mem_closeId hclosing htype _

/-- `other` is a later one than `order`: it was updated later, or has the higher id. -/
def Later (order other : ProtoOAOrder) : Prop :=
  order.utcLastUpdateTimestamp < other.utcLastUpdateTimestamp ∨
    order.utcLastUpdateTimestamp = other.utcLastUpdateTimestamp ∧ order.orderId < other.orderId

instance (order other : ProtoOAOrder) : Decidable (Later order other) :=
  inferInstanceAs (Decidable (_ ∨ _ ∧ _))

/-- The closing orders that are reported before one of them are the later ones. -/
theorem closingOrders_split (hnodup : (t.orders.map ProtoOAOrder.orderId).Nodup)
    (horder : order ∈ t.closingOrders) : ∃ before after, t.closingOrders = before ++ order :: after ∧
      ∀ other, other ∈ before ↔ other ∈ t.closingOrders ∧ Later order other := by
  obtain ⟨before, after, hsplit⟩ := List.append_of_mem horder
  have hsorted : t.closingOrders.Pairwise fun a b =>
      toLex (OrderDual.toDual a.utcLastUpdateTimestamp, OrderDual.toDual a.orderId) ≤
        toLex (OrderDual.toDual b.utcLastUpdateTimestamp, OrderDual.toDual b.orderId) :=
    sortOn_pairwise _ _
  have hids : (t.closingOrders.map ProtoOAOrder.orderId).Nodup :=
    ((sortOn_perm _ _).map _).nodup_iff.mpr (hnodup.sublist (List.filter_sublist.map _))
  -- the list is sorted by time and id, the newest first
  have hnotAfter {a b : ProtoOAOrder}
      (hle : toLex (OrderDual.toDual a.utcLastUpdateTimestamp, OrderDual.toDual a.orderId) ≤
        toLex (OrderDual.toDual b.utcLastUpdateTimestamp, OrderDual.toDual b.orderId)) :
      ¬ Later a b := by
    rw [Prod.Lex.toLex_le_toLex] at hle
    unfold Later
    rcases hle with hlt | ⟨heq, hle⟩
    · have hlt : b.utcLastUpdateTimestamp < a.utcLastUpdateTimestamp := hlt
      omega
    · have heq : a.utcLastUpdateTimestamp = b.utcLastUpdateTimestamp := heq
      have hle : b.orderId ≤ a.orderId := hle
      omega
  rw [hsplit] at hsorted hids
  obtain ⟨-, hrest, hbefore⟩ := List.pairwise_append.mp hsorted
  rw [List.map_append, List.nodup_append, List.map_cons] at hids
  refine ⟨before, after, hsplit, fun other => ⟨fun hother => ⟨?_, ?_⟩, ?_⟩⟩
  · rw [hsplit]
    exact List.mem_append_left _ hother
  · have hle := hbefore other hother order List.mem_cons_self
    have hne : other.orderId ≠ order.orderId :=
      hids.2.2 _ (List.mem_map_of_mem hother) _ List.mem_cons_self
    rw [Prod.Lex.toLex_le_toLex] at hle
    unfold Later
    rcases hle with hlt | ⟨heq, hle⟩
    · exact .inl hlt
    · have heq : other.utcLastUpdateTimestamp = order.utcLastUpdateTimestamp := heq
      have hle : order.orderId ≤ other.orderId := hle
      omega
  · rintro ⟨hother, hlater⟩
    rw [hsplit, List.mem_append, List.mem_cons] at hother
    rcases hother with hother | rfl | hother
    · exact hother
    · unfold Later at hlater
      omega
    · exact absurd hlater (hnotAfter ((List.pairwise_cons.mp hrest).1 other hother))

/-- A closing order's report, made when the later ones have claimed what they want. -/
theorem closeReport_given (hnodup : (t.orders.map ProtoOAOrder.orderId).Nodup)
    (horder : order ∈ t.closingOrders) {made : List ReportedOrder × Finset String}
    (h : t.closeReports closes inWindow claimed = .ok made) : ∃ middle,
      (∃ report ∈ made.1, report.venueOrderId = toString order.orderId ∧
        report.clientOrderId = (closeId closes middle order (t.recent inWindow order)).1) ∧
      ∀ id, id ∈ middle ↔ id ∈ claimed ∨ ∃ other ∈ t.closingOrders, Later order other ∧
        t.recent inWindow other = true ∧ closes.wanted other = some id := by
  obtain ⟨before, after, hsplit, hbefore⟩ := closingOrders_split hnodup horder
  unfold closeReports at h
  rw [hsplit] at h
  obtain ⟨first, middle, rest, hfirst, hrest, hreports⟩ := accumulate_append_eq_ok.mp h
  obtain ⟨report, next, last, hreport, -, rfl⟩ := accumulate_cons_eq_ok.mp hrest
  unfold closeReport at hreport
  obtain ⟨found, hfound, hreport⟩ := bind_eq_ok.mp hreport
  cases hreport
  obtain ⟨hclient, hvenue⟩ := orderReport_ids hfound
  refine ⟨middle, ⟨_, ?_, hvenue, hclient⟩, fun id => ?_⟩
  · rw [hreports]
    exact List.mem_append_right _ List.mem_cons_self
  · have hkind : ∀ other ∈ before, other.closingOrder = true ∧
        other.orderType ≠ .stopLossTakeProfit := by
      intro other hother
      obtain ⟨-, hclosing, htype, -⟩ := mem_closingOrders ((hbefore other).mp hother).1
      exact ⟨hclosing, htype⟩
    rw [mem_claimed hkind hfirst]
    simp only [hbefore, and_assoc]

end Taken

/-! ## The whole pass -/

namespace Inputs

variable (inputs : Inputs)

/-- A position's lists hold its own orders. -/
def OwnOrders : Prop :=
  ∀ positionId found, inputs.histories.get? positionId = some found → ∀ order ∈ found.orders,
    order.positionId = positionId

/-- An order of these lists has a deal in the window. -/
def Recent (found : PositionHistory) (order : ProtoOAOrder) : Prop :=
  ∃ deal ∈ found.deals, deal.orderId = order.orderId ∧ toString deal.dealId ∈ inputs.inWindow

end Inputs

variable {inputs : Inputs} {positionId : ℤ} {found : PositionHistory} {entry : ProtoOAOrder}

/-- An order is recent as the inputs say. -/
theorem recent_iff {digits : ℕ} {t : Taken}
    (ht : take positionId entry found digits inputs.moneyDigits = .ok t) (order : ProtoOAOrder) :
    t.recent inputs.inWindow order = true ↔ inputs.Recent found order := by
  unfold Taken.recent Inputs.Recent
  rw [List.any_eq_true]
  constructor
  · rintro ⟨fill, hfill, hin⟩
    obtain ⟨deal, hdeal, hid, htrade⟩ := (Taken.fills_of_take ht order.orderId fill.tradeId).mp ⟨fill, hfill, rfl⟩
    exact ⟨deal, hdeal, hid, htrade ▸ of_decide_eq_true hin⟩
  · rintro ⟨deal, hdeal, hid, hin⟩
    obtain ⟨fill, hfill, htrade⟩ := (Taken.fills_of_take ht order.orderId _).mpr ⟨deal, hdeal, hid, rfl⟩
    exact ⟨fill, hfill, decide_eq_true (htrade ▸ hin)⟩

/-- The closing orders with a deal. -/
theorem mem_closingOrders_iff {digits : ℕ} {t : Taken}
    (ht : take positionId entry found digits inputs.moneyDigits = .ok t) {order : ProtoOAOrder} :
    order ∈ t.closingOrders ↔ order ∈ found.orders ∧ order.closingOrder = true ∧
      order.orderType ≠ .stopLossTakeProfit ∧ ∃ deal ∈ found.deals, deal.orderId = order.orderId := by
  constructor
  · intro horder
    obtain ⟨hin, hclosing, htype, hfills⟩ := Taken.mem_closingOrders horder
    refine ⟨(take_lists ht).2.mem_iff.mp hin, hclosing, htype, ?_⟩
    obtain ⟨fill, hfill⟩ := List.exists_mem_of_ne_nil _ (List.isEmpty_eq_false_iff.mp hfills)
    obtain ⟨deal, hdeal, hid, -⟩ := (Taken.fills_of_take ht order.orderId fill.tradeId).mp ⟨fill, hfill, rfl⟩
    exact ⟨deal, hdeal, hid⟩
  · rintro ⟨hin, hclosing, htype, deal, hdeal, hid⟩
    obtain ⟨fill, hfill, -⟩ := (Taken.fills_of_take ht order.orderId _).mpr ⟨deal, hdeal, hid, rfl⟩
    refine mem_sortOn.mpr (List.mem_filter.mpr ⟨(take_lists ht).2.mem_iff.mpr hin, ?_⟩)
    have hfills : (t.fills order.orderId).isEmpty = false :=
      List.isEmpty_eq_false_iff.mpr (List.ne_nil_of_mem hfill)
    simp [hclosing, htype, hfills]

/-- The first loop comes to every position it takes. -/
theorem Inputs.Takes.mem_keys (h : inputs.Takes positionId found entry) :
    positionId ∈ sortOn id inputs.symbols.keys := by
  have hloaded := h.loaded
  rw [mem_sortOn]
  cases hsymbol : inputs.symbols.get? positionId with
  | none =>
    rw [hsymbol] at hloaded
    cases hloaded
  | some symbolId => exact List.mem_map.mpr ⟨_, Dict.get?_eq_some.mp hsymbol, rfl⟩

/-- What the pass makes of a position it takes. -/
theorem Inputs.Takes.reports (h : inputs.Takes positionId found entry) {claimed claimed' : Finset String}
    {made : Outcome} (hmade : positionOutcome inputs claimed positionId = .ok (made, claimed')) :
    ∃ digits t venue live reports, take positionId entry found digits inputs.moneyDigits = .ok t ∧
      t.reports venue live inputs.closes inputs.inWindow inputs.held claimed = .ok reports ∧
      made.keyed = keyedReports reports.1 ∧ claimed' = reports.2.2 := by
  obtain ⟨digits, hdigits⟩ := Option.isSome_iff_exists.mp h.loaded
  unfold positionOutcome at hmade
  rw [hdigits] at hmade
  dsimp only at hmade
  rw [h.lists] at hmade
  dsimp only at hmade
  rw [h.opened] at hmade
  unfold entryOutcome at hmade
  dsimp only at hmade
  obtain ⟨t, ht, hmade⟩ := bind_eq_ok.mp hmade
  have hfilled : ¬ t.entryFills.isEmpty = true := by
    obtain ⟨deal, hdeal, hid⟩ := h.filled
    obtain ⟨fill, hfill, -⟩ := (Taken.fills_of_take ht entry.orderId _).mpr ⟨deal, hdeal, hid, rfl⟩
    rw [← (take_lists ht).1] at hfill
    rw [List.isEmpty_iff]
    exact List.ne_nil_of_mem hfill
  rw [if_neg hfilled] at hmade
  have htaken {venue : Option ProtoOAPosition}
      (hmade : takenOutcome inputs claimed t found venue = .ok (made, claimed')) :
      ∃ digits t venue live reports, take positionId entry found digits inputs.moneyDigits = .ok t ∧
        t.reports venue live inputs.closes inputs.inWindow inputs.held claimed = .ok reports ∧
        made.keyed = keyedReports reports.1 ∧ claimed' = reports.2.2 := by
    unfold takenOutcome at hmade
    obtain ⟨reports, hreports, hmade⟩ := bind_eq_ok.mp hmade
    dsimp only at hmade
    split at hmade
    all_goals
      obtain ⟨positions, -, hmade⟩ := bind_eq_ok.mp hmade
      cases hmade
      exact ⟨digits, t, _, _, reports, ht, hreports, rfl, rfl⟩
  split at hmade
  · exact htaken hmade
  · split at hmade
    · rename_i hgone
      rw [Bool.and_eq_true, decide_eq_true_eq, Option.isNone_iff_eq_none] at hgone
      exact absurd (h.stands hgone.1) (not_le.mpr hgone.2)
    · exact htaken hmade

/-- The pass makes nothing of a position it does not take, and its reports of one it takes. -/
theorem positionOutcome_takes {claimed claimed' : Finset String} {made : Outcome}
    (h : positionOutcome inputs claimed positionId = .ok (made, claimed')) :
    (made.keyed = [] ∧ claimed' = claimed ∧ ∀ found entry, ¬ inputs.Takes positionId found entry) ∨
      ∃ found entry digits t venue live reports, inputs.Takes positionId found entry ∧
        take positionId entry found digits inputs.moneyDigits = .ok t ∧
        t.reports venue live inputs.closes inputs.inWindow inputs.held claimed = .ok reports ∧
        made.keyed = keyedReports reports.1 ∧ claimed' = reports.2.2 := by
  by_cases htakes : ∃ found entry, inputs.Takes positionId found entry
  · obtain ⟨found, entry, htakes⟩ := htakes
    obtain ⟨digits, t, venue, live, reports, hmade⟩ := htakes.reports h
    exact .inr ⟨found, entry, digits, t, venue, live, reports, htakes, hmade⟩
  · rcases positionOutcome_cases h with ⟨hkeyed, hsame⟩ | ⟨found, entry, -, -, -, -, hmade, -⟩
    · exact .inl ⟨hkeyed, hsame, fun found entry hmade => htakes ⟨found, entry, hmade⟩⟩
    · exact absurd ⟨found, entry, hmade⟩ htakes

/-- Closes in flight that nothing tells apart: of one volume on one position, unanswered, and not matched
to an order before. -/
structure Inputs.InFlight (inputs : Inputs) (ops : OperationsInFlight) (positionId : ℤ) (volume : ℕ)
    (ids : List String) : Prop where
  searched : inputs.closes.closing = ops.closing
  sent : ∀ id ∈ ids, ∃ anchorMs, ops.closes.get? id = some ⟨positionId, volume, anchorMs⟩
  unanswered : ∀ id ∈ ids, ops.answers.get? id = none
  unmatched : ∀ id ∈ ids, id ∉ inputs.closes.known.values

/-- Closing orders of these lists each of which could be any of the closes: of their volume, created after
their anchors, with a deal in the window, not the broker's own, and not matched before. -/
structure Inputs.CouldBe (inputs : Inputs) (ops : OperationsInFlight) (found : PositionHistory)
    (volume : ℕ) (ids : List String) (orders : List ProtoOAOrder) : Prop where
  nodup : orders.Nodup
  listed : ∀ order ∈ orders, order ∈ found.orders
  closing : ∀ order ∈ orders, order.closingOrder = true ∧ order.orderType ≠ .stopLossTakeProfit
  volume : ∀ order ∈ orders, order.tradeData.volume = volume
  created : ∀ order ∈ orders, ∀ id ∈ ids, ∀ close, ops.closes.get? id = some close →
    close.anchorMs < createdOf order
  recent : ∀ order ∈ orders, inputs.Recent found order
  notStopOut : ∀ order ∈ orders, order.isStopOut = false
  unmatched : ∀ order ∈ orders, inputs.closes.known.get? order.orderId = none

/-- Each of the orders is reported under one of the closes' ids, each under another. -/
def AllMatched (result : Reconciliation) (ids : List String) (orders : List ProtoOAOrder) : Prop :=
  ∃ given : ProtoOAOrder → String,
    (∀ order ∈ orders, given order ∈ ids ∧ ∃ report ∈ result.orders,
      report.venueOrderId = toString order.orderId ∧ report.clientOrderId = some (given order)) ∧
    ∀ order ∈ orders, ∀ order' ∈ orders, given order = given order' → order = order'

section Matching

variable {ops : OperationsInFlight} {volume : ℕ} {ids : List String} {orders : List ProtoOAOrder}

/-- Only a closing order wants a close, unless it is the broker's own or was matched before. -/
theorem kind_of_wanted {closes : Closes} {order : ProtoOAOrder} {id : String}
    (h : closes.wanted order = some id) : order.closingOrder = true ∧
      order.orderType ≠ .stopLossTakeProfit ∧ order.isStopOut = false ∧
      closes.known.get? order.orderId = none := by
  unfold Closes.wanted at h
  split at h
  · rename_i hkind
    simp only [Bool.and_eq_true, decide_eq_true_eq, Bool.not_eq_true', Option.isNone_iff_eq_none] at hkind
    exact ⟨hkind.1.1.1, hkind.1.1.2, hkind.1.2, hkind.2⟩
  · cases h

/-- What an order wants is offered by the search. -/
theorem closing_of_wanted {closes : Closes} {order : ProtoOAOrder} {id : String}
    (h : closes.wanted order = some id) : closes.closing order.positionId order.tradeData.volume
      (createdOf order) order.orderId = some id := by
  unfold Closes.wanted at h
  split at h
  · exact h
  · cases h

/-- An order that wants one of the closes is the position's. -/
theorem position_of_wanted (h : inputs.InFlight ops positionId volume ids) {order : ProtoOAOrder}
    {id : String} (hid : id ∈ ids) (hwanted : inputs.closes.wanted order = some id) :
    order.positionId = positionId := by
  have hclosing := closing_of_wanted hwanted
  rw [h.searched] at hclosing
  obtain ⟨close, hfound, hfits⟩ := OperationsInFlight.fits_of_closing hclosing (h.unanswered id hid)
  obtain ⟨anchorMs, hsent⟩ := h.sent id hid
  have hget := Dict.get?_eq_some.mpr (List.mem_of_find?_eq_some hfound)
  rw [hsent, Option.some.injEq] at hget
  rw [← hget] at hfits
  simp only [CloseInFlight.fits, Bool.and_eq_true, decide_eq_true_eq] at hfits
  exact hfits.1.1.symm

/-- Another position claims none of the closes. -/
theorem unclaimed_positionOutcome (hown : inputs.OwnOrders)
    (h : inputs.InFlight ops positionId volume ids) {otherId : ℤ} (hne : otherId ≠ positionId)
    {claimed claimed' : Finset String} {made : Outcome}
    (hmade : positionOutcome inputs claimed otherId = .ok (made, claimed'))
    (hclaimed : ∀ id ∈ ids, id ∉ claimed) : ∀ id ∈ ids, id ∉ claimed' := by
  rcases positionOutcome_cases hmade with
    ⟨-, rfl⟩ | ⟨history, entry, digits, t, venue, reports, htakes, ht, hreports, -, rfl⟩
  · exact hclaimed
  · obtain ⟨closing, hclosing, hafter, -⟩ := Taken.reports_closes hreports
    have hagree : Agree {id | id ∈ ids} closing.2 claimed := by
      refine Taken.closeReports_apart (fun order horder id hwanted hid => hne ?_) hclosing
      have hin := (take_lists ht).2.mem_iff.mp (Taken.mem_closingOrders horder).1
      exact (hown otherId history htakes.lists order hin).symm.trans (position_of_wanted h hid hwanted)
    intro id hid
    rw [hafter, hagree id hid]
    exact hclaimed id hid

/-- How the pass reports a closing order of the position: under the close it wants, unless that was
claimed for a later one. -/
theorem report_of_takes (hlists : inputs.ListsOnce) (hown : inputs.OwnOrders)
    (h : inputs.InFlight ops positionId volume ids) (htakes : inputs.Takes positionId found entry)
    {result : Reconciliation} (hresult : reconcile inputs = .ok result) {order : ProtoOAOrder}
    (horder : order ∈ found.orders) (hclosing : order.closingOrder = true)
    (htype : order.orderType ≠ .stopLossTakeProfit) (hrecent : inputs.Recent found order) :
    ∃ middle, (∃ report ∈ result.orders, report.venueOrderId = toString order.orderId ∧
        report.clientOrderId = (closeId inputs.closes middle order true).1) ∧
      ∀ id ∈ ids, id ∈ middle ↔ ∃ other ∈ found.orders, Taken.Later order other ∧
        inputs.Recent found other ∧ inputs.closes.wanted other = some id := by
  unfold reconcile at hresult
  dsimp only at hresult
  obtain ⟨taken, htaken, hresult⟩ := bind_eq_ok.mp hresult
  obtain ⟨listed, -, hresult⟩ := bind_eq_ok.mp hresult
  cases hresult
  -- The claims made when the loop comes to the position.
  obtain ⟨before, after, hsplit⟩ := List.append_of_mem htakes.mem_keys
  have hnodup : (before ++ positionId :: after).Nodup := by
    rw [← hsplit]
    exact (sortOn_perm _ _).nodup_iff.mpr inputs.symbols.nodup
  rw [hsplit] at htaken
  obtain ⟨first, claimed, rest, hfirst, hrest, hmade⟩ := accumulate_append_eq_ok.mp htaken
  obtain ⟨made, claimed', last, hposition, -, rfl⟩ := accumulate_cons_eq_ok.mp hrest
  have hclaimed : ∀ id ∈ ids, id ∉ claimed := by
    refine accumulate_keeps (P := fun claimed => ∀ id ∈ ids, id ∉ claimed) ?_ ?_ hfirst
    · intro otherId hother claimed made claimed' hbefore hmade
      have hne : otherId ≠ positionId := by
        rintro rfl
        exact (List.nodup_append.mp hnodup).2.2 _ hother _ List.mem_cons_self rfl
      exact unclaimed_positionOutcome hown h hne hmade hbefore
    · intro id hid hin
      exact h.unmatched id hid (List.mem_toFinset.mp hin)
  obtain ⟨digits, t, venue, live, reports, ht, hreports, hkeyed, -⟩ := htakes.reports hposition
  obtain ⟨closing, hcloses, -, hreported, -⟩ := Taken.reports_closes hreports
  have hids : (t.orders.map ProtoOAOrder.orderId).Nodup :=
    ((take_lists ht).2.map _).nodup_iff.mpr (hlists.history positionId found htakes.lists)
  have hasks : t.recent inputs.inWindow order = true := (recent_iff ht order).mpr hrecent
  obtain ⟨deal, hdeal, hof, -⟩ := hrecent
  have hclosed : order ∈ t.closingOrders :=
    (mem_closingOrders_iff ht).mpr ⟨horder, hclosing, htype, deal, hdeal, hof⟩
  obtain ⟨middle, ⟨report, hreport, hvenue, hclient⟩, hmiddle⟩ :=
    Taken.closeReport_given hids hclosed hcloses
  refine ⟨middle, ⟨report, ?_, hvenue, ?_⟩, fun id hid => ?_⟩
  · have hmem : report ∈ made.keyed.map Prod.snd := by
      rw [hkeyed, map_keyedReports]
      exact hreported report hreport
    obtain ⟨item, hitem, rfl⟩ := List.mem_map.mp hmem
    refine List.mem_map_of_mem (mem_sortOn.mpr (List.mem_append_left _ ?_))
    refine List.mem_flatMap.mpr ⟨made, ?_, hitem⟩
    rw [hmade]
    exact List.mem_append_right _ List.mem_cons_self
  · rwa [hasks] at hclient
  · rw [hmiddle id, or_iff_right (hclaimed id hid)]
    constructor
    · rintro ⟨other, hother, hlater, hrecent, hwanted⟩
      exact ⟨other, ((mem_closingOrders_iff ht).mp hother).1, hlater, (recent_iff ht other).mp hrecent,
        hwanted⟩
    · rintro ⟨other, hother, hlater, hrecent, hwanted⟩
      refine ⟨other, (mem_closingOrders_iff ht).mpr ⟨hother, ?_⟩, hlater, (recent_iff ht other).mpr hrecent,
        hwanted⟩
      obtain ⟨deal, hdeal, hof, -⟩ := hrecent
      obtain ⟨hcloses, hkind, -⟩ := kind_of_wanted hwanted
      exact ⟨hcloses, hkind, deal, hdeal, hof⟩

/-- Closes in flight of one volume on one position are all matched to as many closing orders, each of which
could be any of them, just if there is one at most, the search finds it for its order, and for no later
order that asks. -/
theorem closes_matched_iff (inputs : Inputs) (hlists : inputs.ListsOnce) (hown : inputs.OwnOrders)
    (hheld : HeldOnce inputs.held) (ops : OperationsInFlight) (positionId : ℤ) (found : PositionHistory)
    (entry : ProtoOAOrder) (htakes : inputs.Takes positionId found entry) (volume : ℕ) (ids : List String)
    (hflight : inputs.InFlight ops positionId volume ids) (orders : List ProtoOAOrder)
    (hcould : inputs.CouldBe ops found volume ids orders) (result : Reconciliation)
    (hresult : reconcile inputs = .ok result) :
    AllMatched result ids orders ↔ orders.length ≤ 1 ∧ ∀ order ∈ orders, ∃ id ∈ ids,
      inputs.closes.wanted order = some id ∧ ∀ other ∈ found.orders, Taken.Later order other →
        inputs.Recent found other → inputs.closes.wanted other ≠ some id := by
  have hids := orders_nodup hlists hheld hresult
  have hone : orders.length ≤ 1 ↔ ∀ order ∈ orders, ∀ other ∈ orders, order = other := by
    rw [← List.toFinset_card_of_nodup hcould.nodup, Finset.card_le_one]
    simp only [List.mem_toFinset]
  -- What an order's report says of it.
  have hreported (order : ProtoOAOrder) (horder : order ∈ orders) :
      ∃ report ∈ result.orders, report.venueOrderId = toString order.orderId ∧
        ∀ id ∈ ids, report.clientOrderId = some id ↔ inputs.closes.wanted order = some id ∧
          ∀ other ∈ found.orders, Taken.Later order other → inputs.Recent found other →
            inputs.closes.wanted other ≠ some id := by
    obtain ⟨hclosing, htype⟩ := hcould.closing order horder
    obtain ⟨middle, ⟨report, hreport, hvenue, hclient⟩, hmiddle⟩ := report_of_takes hlists hown hflight
      htakes hresult (hcould.listed order horder) hclosing htype (hcould.recent order horder)
    refine ⟨report, hreport, hvenue, fun id hid => ?_⟩
    rw [hclient, closeId_wanted hclosing htype (hcould.unmatched order horder)
      (hcould.notStopOut order horder), hmiddle id hid]
    apply and_congr_right
    intro _
    push Not
    rfl
  have hgiven {order : ProtoOAOrder} (horder : order ∈ orders) {id : String} (hid : id ∈ ids)
      {report : ReportedOrder} (hreport : report ∈ result.orders)
      (hvenue : report.venueOrderId = toString order.orderId) (hclient : report.clientOrderId = some id) :
      inputs.closes.wanted order = some id ∧ ∀ other ∈ found.orders, Taken.Later order other →
        inputs.Recent found other → inputs.closes.wanted other ≠ some id := by
    obtain ⟨made, hmade, hmadeId, hshown⟩ := hreported order horder
    obtain rfl : report = made :=
      List.inj_on_of_nodup_map hids hreport hmade (hvenue.trans hmadeId.symm)
    exact (hshown id hid).mp hclient
  constructor
  · rintro ⟨given, hmatched, hdistinct⟩
    have hwants : ∀ order ∈ orders, inputs.closes.wanted order = some (given order) := by
      intro order horder
      obtain ⟨hid, report, hreport, hvenue, hclient⟩ := hmatched order horder
      exact (hgiven horder hid hreport hvenue hclient).1
    refine ⟨?_, fun order horder => ?_⟩
    · -- Two orders of them would want the same close, the first in flight.
      rw [hone]
      intro order horder other hother
      have hfits {x y : ProtoOAOrder} (hx : x ∈ orders) (hy : y ∈ orders) (close : CloseInFlight)
          (hclose : ops.closes.get? (given x) = some close) :
          close.fits positionId volume (createdOf y) = true := by
        have hin := (hmatched x hx).1
        have hcreated := hcould.created y hy (given x) hin close hclose
        obtain ⟨anchorMs, hsent⟩ := hflight.sent (given x) hin
        rw [hsent, Option.some.injEq] at hclose
        rw [← hclose] at hcreated ⊢
        simp [CloseInFlight.fits, hcreated]
      have hclosing (x : ProtoOAOrder) (hx : x ∈ orders) :
          ops.closing positionId volume (createdOf x) x.orderId = some (given x) := by
        have hwanted := hwants x hx
        have hfound := closing_of_wanted hwanted
        rwa [hflight.searched, position_of_wanted hflight (hmatched x hx).1 hwanted,
          hcould.volume x hx] at hfound
      apply hdistinct order horder other hother
      exact OperationsInFlight.closing_agree (hclosing order horder) (hclosing other hother)
        (hflight.unanswered _ (hmatched order horder).1) (hflight.unanswered _ (hmatched other hother).1)
        (hfits horder hother) (hfits hother horder)
    · obtain ⟨hid, report, hreport, hvenue, hclient⟩ := hmatched order horder
      exact ⟨given order, hid, hgiven horder hid hreport hvenue hclient⟩
  · rintro ⟨hfew, hall⟩
    refine ⟨fun order => (inputs.closes.wanted order).getD "", fun order horder => ?_, ?_⟩
    · obtain ⟨id, hid, hwanted, hfree⟩ := hall order horder
      obtain ⟨report, hreport, hvenue, hshown⟩ := hreported order horder
      dsimp only
      rw [hwanted, Option.getD_some]
      exact ⟨hid, report, hreport, hvenue, (hshown id hid).mpr ⟨hwanted, hfree⟩⟩
    · intro order horder other hother _
      exact hone.mp hfew order horder other hother

end Matching

/-- A closing order of half the sample's position. -/
def halfClose (orderId ms : ℤ) : ProtoOAOrder :=
  { Sample.closing with
    orderId, utcLastUpdateTimestamp? := some ms
    tradeData := { Sample.closing.tradeData with volume := 500, openTimestamp? := some ms } }

/-- The sample's position with these closing orders, each filled. -/
def closedBy (orders : List ProtoOAOrder) : PositionHistory where
  orders := Sample.entry :: orders
  deals := Sample.deal 1 Sample.entry 150 :: orders.map fun order =>
    Sample.deal order.orderId order order.utcLastUpdateTimestamp order.tradeData.volume

/-- Closes of half the position in flight, each sent at 450. -/
def sent (ids : List String) : OperationsInFlight :=
  ids.foldl (fun ops id => ops.beginClose id 10 500 450) {}

def inFlight (ids : List String) (orders : List ProtoOAOrder) : Inputs where
  snapshot := { position := [Sample.position 400 .open], order := [] }
  histories := Dict.empty.set 10 (closedBy orders)
  windowDeals := (closedBy orders).deals
  precision := fun _ => some 2
  closes := { closing := (sent ids).closing }
  moneyDigits := some 2

/-- The pass reads one position's history. -/
theorem inFlight_history (ids : List String) (orders : List ProtoOAOrder) {positionId : ℤ}
    {found : PositionHistory} (h : (inFlight ids orders).histories.get? positionId = some found) :
    positionId = 10 ∧ found = closedBy orders := by
  unfold inFlight at h
  dsimp only at h
  rcases Dict.get?_set_eq_some.mp h with ⟨heq, hfound⟩ | ⟨-, hnone⟩
  · exact ⟨heq.symm, hfound.symm⟩
  · cases hnone

/-- Its lists repeat nothing, and are the position's own. -/
theorem inFlight_lists (ids : List String) (orders : List ProtoOAOrder)
    (hnodup : ((closedBy orders).orders.map ProtoOAOrder.orderId).Nodup)
    (hown : ∀ order ∈ orders, order.positionId = 10) :
    (inFlight ids orders).ListsOnce ∧ (inFlight ids orders).OwnOrders ∧
      HeldOnce (inFlight ids orders).held := by
  refine ⟨⟨List.nodup_nil, ?_, ?_⟩, ?_, ?_⟩
  · intro positionId found hfound
    rw [(inFlight_history ids orders hfound).2]
    exact hnodup
  · intro positionId positionId' found found' order order' hfound hfound' _ _ _
    rw [(inFlight_history ids orders hfound).1, (inFlight_history ids orders hfound').1]
  · intro positionId found hfound order horder
    obtain ⟨rfl, rfl⟩ := inFlight_history ids orders hfound
    rcases List.mem_cons.mp horder with rfl | horder
    · rfl
    · exact hown order horder
  · constructor
    · intro entryOrderId
      exact List.nodup_nil
    · intro entryOrderId id hid
      cases hid

/-- The orders fit the closes sent. -/
theorem inFlight_closes (ids : List String) (orders : List ProtoOAOrder) (hnodup : orders.Nodup)
    (hids : ∀ id ∈ ids, (sent ids).closes.get? id = some ⟨10, 500, 450⟩ ∧
      (sent ids).answers.get? id = none)
    (horders : ∀ order ∈ orders, order.closingOrder = true ∧ order.orderType ≠ .stopLossTakeProfit ∧
      order.tradeData.volume = 500 ∧ 450 < createdOf order ∧ order.isStopOut = false) :
    (inFlight ids orders).InFlight (sent ids) 10 500 ids ∧
      (inFlight ids orders).CouldBe (sent ids) (closedBy orders) 500 ids orders := by
  refine ⟨⟨rfl, fun id hid => ⟨450, (hids id hid).1⟩, fun id hid => (hids id hid).2, ?_⟩, hnodup,
    fun order horder => List.mem_cons_of_mem _ horder, ?_, ?_, ?_, ?_, ?_, ?_⟩
  · intro id _ hin
    cases hin
  · exact fun order horder => ⟨(horders order horder).1, (horders order horder).2.1⟩
  · exact fun order horder => (horders order horder).2.2.1
  · intro order horder id hid close hclose
    rw [(hids id hid).1, Option.some.injEq] at hclose
    rw [← hclose]
    exact (horders order horder).2.2.2.1
  · intro order horder
    have hdeal : Sample.deal order.orderId order order.utcLastUpdateTimestamp order.tradeData.volume ∈
        (closedBy orders).deals := List.mem_cons_of_mem _ (List.mem_map_of_mem horder)
    refine ⟨_, hdeal, rfl, List.mem_toFinset.mpr ?_⟩
    exact List.mem_map_of_mem hdeal
  · exact fun order horder => (horders order horder).2.2.2.2
  · intro order horder
    rfl

/-- One close in flight is matched. -/
theorem one_close_matched : ∃ result, reconcile (inFlight ["C-1"] [halfClose 3 510]) = .ok result ∧
    AllMatched result ["C-1"] [halfClose 3 510] := by
  obtain ⟨result, hresult⟩ := exists_of_isOk
    (by decide +kernel : (reconcile (inFlight ["C-1"] [halfClose 3 510])).isOk = true)
  obtain ⟨hlists, hown, hheld⟩ := inFlight_lists ["C-1"] [halfClose 3 510]
    (by decide +kernel) (by decide +kernel)
  obtain ⟨hflight, hcould⟩ := inFlight_closes ["C-1"] [halfClose 3 510]
    (by decide +kernel) (by decide +kernel) (by decide +kernel)
  refine ⟨result, hresult, (closes_matched_iff _ hlists hown hheld (sent ["C-1"]) 10
    (closedBy [halfClose 3 510]) Sample.entry ⟨Dict.get?_set_self _ _ _, by decide +kernel,
      by decide +kernel, ⟨Sample.deal 1 Sample.entry 150, by decide +kernel, by decide +kernel⟩,
      by decide +kernel⟩ 500 ["C-1"] hflight [halfClose 3 510] hcould result hresult).mpr ⟨?_, ?_⟩⟩
  · exact le_refl 1
  · intro order horder
    obtain rfl := List.mem_singleton.mp horder
    refine ⟨"C-1", List.mem_cons_self, by decide +kernel, ?_⟩
    have hlast : ∀ other ∈ (closedBy [halfClose 3 510]).orders,
        ¬ Taken.Later (halfClose 3 510) other := by decide +kernel
    exact fun other hother hlater => absurd hlater (hlast other hother)

/-- Of two closes in flight only the first is found, for the later order, and the other order is reported
without one. -/
theorem two_closes_unmatched : ¬ ∀ inputs : Inputs, inputs.ListsOnce → inputs.OwnOrders →
    HeldOnce inputs.held → ∀ ops positionId found entry, inputs.Takes positionId found entry →
      ∀ volume ids, inputs.InFlight ops positionId volume ids → ids.Nodup →
        ∀ orders, inputs.CouldBe ops found volume ids orders → orders.length = ids.length →
          ∀ result, reconcile inputs = .ok result → AllMatched result ids orders := by
  intro hall
  have hreported : (reconcile (inFlight ["C-1", "C-2"] [halfClose 3 510, halfClose 4 520])).map
      (fun result => result.orders.map fun report => (report.venueOrderId, report.clientOrderId)) =
      .ok [("1", none), ("3", none), ("4", some "C-1")] := by decide +kernel
  obtain ⟨result, hresult⟩ := exists_of_isOk (by decide +kernel :
    (reconcile (inFlight ["C-1", "C-2"] [halfClose 3 510, halfClose 4 520])).isOk = true)
  rw [hresult] at hreported
  replace hreported := Except.ok.inj hreported
  dsimp only at hreported
  obtain ⟨hlists, hown, hheld⟩ := inFlight_lists ["C-1", "C-2"]
    [halfClose 3 510, halfClose 4 520] (by decide +kernel) (by decide +kernel)
  obtain ⟨hflight, hcould⟩ := inFlight_closes ["C-1", "C-2"]
    [halfClose 3 510, halfClose 4 520] (by decide +kernel) (by decide +kernel)
    (by decide +kernel)
  obtain ⟨given, hmatched, -⟩ := hall _ hlists hown hheld (sent ["C-1", "C-2"]) 10
    (closedBy [halfClose 3 510, halfClose 4 520]) Sample.entry ⟨Dict.get?_set_self _ _ _,
      by decide +kernel, by decide +kernel,
      ⟨Sample.deal 1 Sample.entry 150, by decide +kernel, by decide +kernel⟩, by decide +kernel⟩ 500
    ["C-1", "C-2"] hflight (by decide) [halfClose 3 510, halfClose 4 520] hcould rfl result hresult
  obtain ⟨-, report, hreport, hvenue, hclient⟩ := hmatched (halfClose 3 510) List.mem_cons_self
  have hpair := List.mem_map_of_mem (f := fun report : ReportedOrder =>
    (report.venueOrderId, report.clientOrderId)) hreport
  rw [hreported, hvenue, hclient] at hpair
  have hid : toString (halfClose 3 510).orderId = "3" := by decide +kernel
  rw [hid] at hpair
  simp at hpair

end Reconciliation

end NautilusCtrader
