import NautilusCtrader.Reconciliation.ClosesInFlight

/-!
# The order of the broker's lists

A pass sorts what it reads of the positions, so the order of the lists does not show in what it makes of
them. The orders that no position reported are offered to the closes in flight as the snapshot lists them:
where two of them want one close, the first of the two is given it (`order_free_iff`).
-/

namespace NautilusCtrader

open Common VenueBook OrderRecord

namespace Reconciliation

/-! ## One position's lists -/

/-- A position's lists in another order. -/
structure SameLists (found found' : PositionHistory) : Prop where
  orders : found.orders.Perm found'.orders
  deals : found.deals.Perm found'.deals
  complete : found'.complete = found.complete

/-- Lists are the same as themselves. -/
theorem SameLists.rel_refl (lists : Option PositionHistory) : Option.Rel SameLists lists lists := by
  cases lists with
  | none => exact .none
  | some found => exact .some ⟨.refl _, .refl _, rfl⟩

/-- No two orders and no two deals of a position's lists share an id. -/
structure ListedOnce (found : PositionHistory) : Prop where
  orders : (found.orders.map ProtoOAOrder.orderId).Nodup
  deals : (found.deals.map ProtoOADeal.dealId).Nodup

section Lists

variable {found found' : PositionHistory}

/-- Orders of distinct ids sort alike in any order, if the key has the id. -/
theorem sortOn_orders {β : Type} [LinearOrder β] {key : ProtoOAOrder → β} {orders orders' : List ProtoOAOrder}
    (hp : orders.Perm orders') (hnodup : (orders.map ProtoOAOrder.orderId).Nodup)
    (hkey : ∀ a b, key a = key b → a.orderId = b.orderId) : sortOn key orders = sortOn key orders' :=
  sortOn_eq_of_perm hp fun a ha b hb heq => List.inj_on_of_nodup_map hnodup ha hb (hkey a b heq)

/-- The opening orders do not depend on the order of the list. -/
theorem openingOrders_perm {orders orders' : List ProtoOAOrder} (hp : orders.Perm orders')
    (hnodup : (orders.map ProtoOAOrder.orderId).Nodup) : openingOrders orders = openingOrders orders' := by
  refine sortOn_orders (hp.filter _) (hnodup.sublist (List.filter_sublist.map _)) fun a b heq => ?_
  exact congrArg Prod.snd (congrArg ofLex heq)

/-- Nor does the entry. -/
theorem entryOf_perm {orders orders' : List ProtoOAOrder} (hp : orders.Perm orders')
    (hnodup : (orders.map ProtoOAOrder.orderId).Nodup) : entryOf orders = entryOf orders' := by
  unfold entryOf
  rw [openingOrders_perm hp hnodup]

/-- A position is taken alike whatever the order of its lists. -/
theorem take_perm (h : SameLists found found') (honce : ListedOnce found) (positionId : ℤ)
    (entry : ProtoOAOrder) (precision : ℕ) (moneyDigits : Option ℕ) :
    take positionId entry found precision moneyDigits = take positionId entry found' precision moneyDigits := by
  have hdeals : sortDeals found.deals = sortDeals found'.deals := by
    refine sortOn_eq_of_perm h.deals fun a ha b hb heq => ?_
    exact List.inj_on_of_nodup_map honce.deals ha hb (congrArg Prod.snd (congrArg ofLex heq))
  have horders : sortOn ProtoOAOrder.orderId found.orders = sortOn ProtoOAOrder.orderId found'.orders :=
    sortOn_orders h.orders honce.orders fun _ _ heq => heq
  unfold take
  rw [hdeals, horders, openingOrders_perm h.orders honce.orders]

/-- Nor does the volume left open. -/
theorem openVolume_perm (h : SameLists found found') (honce : ListedOnce found) :
    openVolume found = openVolume found' := by
  unfold openVolume
  rw [entryOf_perm h.orders honce.orders]
  cases entryOf found'.orders with
  | none => rfl
  | some entry => exact (h.deals.map _).sum_eq

/-- The symbol read off a position's lists, of whose deals it has one. -/
theorem symbolOf_perm (h : SameLists found found') (honce : ListedOnce found)
    (hsymbol : ∀ deal ∈ found.deals, ∀ other ∈ found.deals, deal.symbolId = other.symbolId) :
    symbolOf found = symbolOf found' := by
  unfold symbolOf
  rw [entryOf_perm h.orders honce.orders]
  cases entryOf found'.orders with
  | some entry => rfl
  | none =>
    have hperm := h.deals
    dsimp only
    cases hdeals : found.deals with
    | nil =>
      rw [hdeals] at hperm
      rw [List.nil_perm.mp hperm]
    | cons deal rest =>
      cases hdeals' : found'.deals with
      | nil =>
        rw [hdeals'] at hperm
        rw [List.perm_nil.mp hperm] at hdeals
        cases hdeals
      | cons other others =>
        have hfirst : deal ∈ found.deals := hdeals ▸ List.mem_cons_self
        have hsecond : other ∈ found.deals := hperm.mem_iff.mpr (hdeals' ▸ List.mem_cons_self)
        rw [List.head?_cons, List.head?_cons, Option.map_some, Option.map_some,
          hsymbol deal hfirst other hsecond]

end Lists

/-! ## The first loop -/

namespace Inputs

/-- The same inputs, with the broker's lists in another order. -/
structure Permuted (inputs inputs' : Inputs) : Prop where
  positions : inputs.snapshot.position.Perm inputs'.snapshot.position
  orders : inputs.snapshot.order.Perm inputs'.snapshot.order
  histories : ∀ positionId,
    Option.Rel SameLists (inputs.histories.get? positionId) (inputs'.histories.get? positionId)
  windowDeals : inputs.windowDeals.Perm inputs'.windowDeals
  precision : inputs'.precision = inputs.precision
  closes : inputs'.closes = inputs.closes
  held : inputs'.held = inputs.held
  moneyDigits : inputs'.moneyDigits = inputs.moneyDigits

/-- Positions, orders and deals have ids of their own, and one id is one order's; a position has one
protective order at most in the snapshot, and one symbol. -/
structure Distinct (inputs : Inputs) : Prop where
  positions : (inputs.snapshot.position.map ProtoOAPosition.positionId).Nodup
  orders : (inputs.snapshot.order.map ProtoOAOrder.orderId).Nodup
  lists : ∀ positionId found, inputs.histories.get? positionId = some found → ListedOnce found
  kind : ∀ order ∈ inputs.snapshot.order, ∀ positionId found,
    inputs.histories.get? positionId = some found → ∀ listed ∈ found.orders,
      listed.orderId = order.orderId →
        listed.closingOrder = order.closingOrder ∧ listed.orderType = order.orderType
  protective : ∀ order ∈ inputs.snapshot.order, ∀ other ∈ inputs.snapshot.order,
    order.orderType = .stopLossTakeProfit → other.orderType = .stopLossTakeProfit →
      order.positionId = other.positionId → order = other
  windowSymbol : ∀ deal ∈ inputs.windowDeals, ∀ other ∈ inputs.windowDeals,
    deal.positionId = other.positionId → deal.symbolId = other.symbolId
  listSymbol : ∀ positionId found, inputs.histories.get? positionId = some found →
    ∀ deal ∈ found.deals, ∀ other ∈ found.deals, deal.symbolId = other.symbolId

variable {inputs inputs' : Inputs}

/-- Nor do the open positions. -/
theorem openPositions_perm (h : inputs.Permuted inputs') (hd : inputs.Distinct) (positionId : ℤ) :
    inputs.openPositions.get? positionId = inputs'.openPositions.get? positionId :=
  Dict.get?_foldl_set_perm h.positions
    (fun _ hx _ hy heq => List.inj_on_of_nodup_map hd.positions hx hy heq) rfl

/-- Nor do the live protective orders. -/
theorem liveProtective_perm (h : inputs.Permuted inputs') (hd : inputs.Distinct) (positionId : ℤ) :
    inputs.liveProtective.get? positionId = inputs'.liveProtective.get? positionId := by
  refine Dict.get?_foldl_set_perm (h.orders.filter _) (fun x hx y hy heq => ?_) rfl
  obtain ⟨hx, hxtype⟩ := List.mem_filter.mp hx
  obtain ⟨hy, hytype⟩ := List.mem_filter.mp hy
  exact hd.protective x hx y hy (of_decide_eq_true hxtype) (of_decide_eq_true hytype) heq

/-- Nor do the positions' symbols. -/
theorem symbols_perm (h : inputs.Permuted inputs') (hd : inputs.Distinct) (positionId : ℤ) :
    inputs.symbols.get? positionId = inputs'.symbols.get? positionId := by
  have hsymbols (otherId : ℤ) : (inputs.histories.get? otherId).map symbolOf =
      (inputs'.histories.get? otherId).map symbolOf := by
    have hsame := h.histories otherId
    cases hfound : inputs.histories.get? otherId with
    | none =>
      rw [hfound] at hsame
      generalize inputs'.histories.get? otherId = found' at hsame
      cases hsame
      rfl
    | some found =>
      rw [hfound] at hsame
      generalize inputs'.histories.get? otherId = found' at hsame
      cases hsame with
      | some hsame =>
        rw [Option.map_some, Option.map_some, symbolOf_perm hsame (hd.lists otherId found hfound)
          (hd.listSymbol otherId found hfound)]
  have hmapped (inputs : Inputs) (found : Dict ℤ ℤ) :
      inputs.histories.entries.foldl (fun found history =>
        (symbolOf history.2).elim found (found.setDefault history.1)) found =
      (inputs.histories.entries.map fun entry => (entry.1, symbolOf entry.2)).foldl
        (fun found entry => entry.2.elim found (found.setDefault entry.1)) found := by
    rw [List.foldl_map]
  rw [symbols_eq, symbols_eq, hmapped, hmapped]
  refine Dict.get?_foldl_setDefault_perm (Dict.map_entries_perm hsymbols) ?_ ?_
  · -- A position has lists once.
    intro x hx y hy heq
    obtain ⟨entry, hentry, rfl⟩ := List.mem_map.mp hx
    obtain ⟨other, hother, rfl⟩ := List.mem_map.mp hy
    rw [List.inj_on_of_nodup_map inputs.histories.nodup hentry hother heq]
  · refine Dict.get?_foldl_setDefault_perm h.windowDeals (fun deal hdeal other hother heq => ?_) ?_
    · rw [hd.windowSymbol deal hdeal other hother heq]
    · refine Dict.get?_foldl_set_perm h.positions (fun x hx y hy heq => ?_) rfl
      rw [List.inj_on_of_nodup_map hd.positions hx hy heq]

/-- Nor does what lies in the window. -/
theorem inWindow_perm (h : inputs.Permuted inputs') : inputs.inWindow = inputs'.inWindow :=
  List.toFinset_eq_of_perm _ _ (h.windowDeals.map _)

end Inputs

section FirstLoop

variable {inputs inputs' : Inputs}

/-- Nor does what is made of a position with its entry. -/
theorem entryOutcome_perm (h : inputs.Permuted inputs') (hd : inputs.Distinct) {found found' : PositionHistory}
    (hsame : SameLists found found') (honce : ListedOnce found) (claimed : Finset String) (positionId : ℤ)
    (digits : ℕ) (entry : ProtoOAOrder) : entryOutcome inputs' claimed positionId digits found' entry =
      entryOutcome inputs claimed positionId digits found entry := by
  unfold entryOutcome takenOutcome
  simp only [← Inputs.openPositions_perm h hd, ← take_perm hsame honce, ← openVolume_perm hsame honce,
    ← Inputs.liveProtective_perm h hd, ← Inputs.inWindow_perm h, hsame.complete, h.closes, h.held, h.moneyDigits]

/-- What one position comes to does not depend on the order of the lists. -/
theorem positionOutcome_perm (h : inputs.Permuted inputs') (hd : inputs.Distinct) :
    positionOutcome inputs' = positionOutcome inputs := by
  funext claimed positionId
  unfold positionOutcome
  rw [← Inputs.symbols_perm h hd, h.precision]
  cases (inputs.symbols.get? positionId).bind inputs.precision with
  | none => rfl
  | some digits =>
    have hsame := h.histories positionId
    dsimp only
    cases hfound : inputs.histories.get? positionId with
    | none =>
      rw [hfound] at hsame
      generalize inputs'.histories.get? positionId = found' at hsame
      cases hsame
      rfl
    | some found =>
      rw [hfound] at hsame
      generalize inputs'.histories.get? positionId = found' at hsame
      cases hsame with
      | some hsame =>
        have honce := hd.lists positionId found hfound
        dsimp only
        rw [← entryOf_perm hsame.orders honce.orders]
        cases entryOf found.orders with
        | none => rfl
        | some entry => exact entryOutcome_perm h hd hsame honce claimed positionId digits entry

/-- The positions come in the same order. -/
theorem keys_perm (h : inputs.Permuted inputs') (hd : inputs.Distinct) :
    sortOn id inputs'.symbols.keys = sortOn id inputs.symbols.keys :=
  sortOn_eq_of_perm (Dict.keys_perm fun positionId => (Inputs.symbols_perm h hd positionId).symm)
    fun _ _ _ _ heq => heq

end FirstLoop

/-! ## The orders no position reported -/

namespace Inputs

variable (inputs : Inputs)

/-- A position taken lists the order and a deal of it. -/
def Dealt (orderId : ℤ) : Prop :=
  ∃ positionId found entry, inputs.Takes positionId found entry ∧
    (∃ order ∈ found.orders, order.orderId = orderId) ∧ ∃ deal ∈ found.deals, deal.orderId = orderId

/-- A close matched before, or that a position's close with a deal in the window wants. -/
def Claimed (id : String) : Prop :=
  id ∈ inputs.closes.known.values ∨ ∃ positionId found entry, inputs.Takes positionId found entry ∧
    ∃ order ∈ found.orders, inputs.Recent found order ∧ inputs.closes.wanted order = some id

/-- An order of the snapshot on a loaded symbol that no position reports. -/
structure Left (order : ProtoOAOrder) : Prop where
  listed : order ∈ inputs.snapshot.order
  loaded : (inputs.precision order.tradeData.symbolId).isSome = true
  undealt : ¬ inputs.Dealt order.orderId

/-- Two such orders want one close that no position's order claims. -/
def Contested : Prop :=
  ∃ order other id, inputs.Left order ∧ inputs.Left other ∧ order.orderId ≠ other.orderId ∧
    inputs.closes.wanted order = some id ∧ inputs.closes.wanted other = some id ∧ ¬ inputs.Claimed id

end Inputs

section SecondLoop

variable {inputs : Inputs} {claimed claimed' middle after : Finset String} {taken : List Outcome}
  {reported : List String} {order : ProtoOAOrder}

/-- What the pass claims at one position. -/
theorem claimed_positionOutcome {positionId : ℤ} {made : Outcome}
    (h : positionOutcome inputs claimed positionId = .ok (made, claimed')) (close : String) :
    close ∈ claimed' ↔ close ∈ claimed ∨ ∃ found entry, inputs.Takes positionId found entry ∧
      ∃ order ∈ found.orders, inputs.Recent found order ∧ inputs.closes.wanted order = some close := by
  rcases positionOutcome_takes h with
    ⟨-, rfl, hnone⟩ | ⟨found, entry, digits, t, venue, live, reports, htakes, ht, hreports, -, rfl⟩
  · constructor
    · exact .inl
    · rintro (hin | ⟨found, entry, htakes, -⟩)
      · exact hin
      · exact absurd htakes (hnone found entry)
  · obtain ⟨closing, hclosing, hafter, -⟩ := Taken.reports_closes hreports
    have hkind : ∀ order ∈ t.closingOrders, order.closingOrder = true ∧
        order.orderType ≠ .stopLossTakeProfit := by
      intro order horder
      obtain ⟨-, hcloses, htype, -⟩ := Taken.mem_closingOrders horder
      exact ⟨hcloses, htype⟩
    rw [hafter, Taken.mem_claimed hkind hclosing]
    apply or_congr_right
    constructor
    · rintro ⟨order, horder, hrecent, hwanted⟩
      exact ⟨found, entry, htakes, order, ((mem_closingOrders_iff ht).mp horder).1,
        (recent_iff ht order).mp hrecent, hwanted⟩
    · rintro ⟨found', entry', htakes', order, horder, hrecent, hwanted⟩
      obtain rfl := Option.some.inj (htakes.lists.symm.trans htakes'.lists)
      obtain ⟨hcloses, htype, -⟩ := kind_of_wanted hwanted
      have hrecent' := hrecent
      obtain ⟨deal, hdeal, hof, -⟩ := hrecent'
      exact ⟨order, (mem_closingOrders_iff ht).mpr ⟨horder, hcloses, htype, deal, hdeal, hof⟩,
        (recent_iff ht order).mpr hrecent, hwanted⟩

/-- What is claimed once the positions were reported. -/
theorem claimed_iff (htaken : accumulate (positionOutcome inputs) inputs.claimedBefore
    (sortOn id inputs.symbols.keys) = .ok (taken, middle)) (close : String) :
    close ∈ middle ↔ inputs.Claimed close := by
  have hadds : ∀ positionId ∈ sortOn id inputs.symbols.keys, ∀ claimed made claimed',
      positionOutcome inputs claimed positionId = .ok (made, claimed') →
      (close ∈ claimed' ↔ close ∈ claimed ∨ ∃ found entry, inputs.Takes positionId found entry ∧
        ∃ order ∈ found.orders, inputs.Recent found order ∧ inputs.closes.wanted order = some close) :=
    fun _ _ _ _ _ hmade => claimed_positionOutcome hmade close
  rw [accumulate_adds (P := fun claimed => close ∈ claimed) hadds htaken]
  refine or_congr List.mem_toFinset ?_
  constructor
  · rintro ⟨positionId, -, hwanted⟩
    exact ⟨positionId, hwanted⟩
  · rintro ⟨positionId, found, entry, htakes, hwanted⟩
    exact ⟨positionId, htakes.mem_keys, found, entry, htakes, hwanted⟩

/-- A closing order of the snapshot is reported with a position just if one has a deal of it. -/
theorem reported_iff (hd : inputs.Distinct) (htaken : accumulate (positionOutcome inputs) claimed
      (sortOn id inputs.symbols.keys) = .ok (taken, middle)) (hlisted : order ∈ inputs.snapshot.order)
    (hcloses : order.closingOrder = true) (htype : order.orderType ≠ .stopLossTakeProfit) :
    toString order.orderId ∈ (taken.flatMap Outcome.keyed).map (fun item => item.2.venueOrderId) ↔
      inputs.Dealt order.orderId := by
  constructor
  · intro hin
    obtain ⟨item, hitem, hid⟩ := List.mem_map.mp hin
    obtain ⟨made, hmade, hitem⟩ := List.mem_flatMap.mp hitem
    obtain ⟨positionId, -, before, after, houtcome⟩ :=
      exists_of_forall₂ (forall₂_of_accumulate htaken) made hmade
    rcases positionOutcome_takes houtcome with
      ⟨hnone, -⟩ | ⟨found, entry, digits, t, venue, live, reports, htakes, ht, hreports, hkeyed, -⟩
    · rw [hnone] at hitem
      cases hitem
    rw [hkeyed] at hitem
    have hreads := (take_reads htakes.opened ht).1
    rcases Taken.reports_each hreads hreports item.2 (mem_of_mem_keyedReports hitem) with
      ⟨listed, hin, hof, hclosing⟩ | ⟨hleg, -⟩
    · -- a report under the order's id is of the order, not of a leg
      have hsame : listed.orderId = order.orderId := toString_injective (hof.1.symm.trans hid)
      obtain ⟨hkind, hkindType⟩ := hd.kind order hlisted positionId found htakes.lists listed hin hsame
      have hclosed := hclosing (hkind.trans hcloses) (hkindType ▸ htype)
      obtain ⟨-, -, -, deal, hdeal, hof⟩ := (mem_closingOrders_iff ht).mp hclosed
      exact ⟨positionId, found, entry, htakes, ⟨listed, hin, hsame⟩, deal, hdeal, hof.trans hsame⟩
    · rw [hid, isLegId_orderId] at hleg
      cases hleg
  · rintro ⟨positionId, found, entry, htakes, ⟨listed, hin, hsame⟩, deal, hdeal, hof⟩
    obtain ⟨made, hmade, before, after, houtcome⟩ :=
      exists_of_forall₂ (forall₂_of_accumulate htaken).flip positionId htakes.mem_keys
    obtain ⟨digits, t, venue, live, reports, ht, hreports, hkeyed, -⟩ := htakes.reports houtcome
    obtain ⟨hkind, hkindType⟩ := hd.kind order hlisted positionId found htakes.lists listed hin hsame
    -- and a closing order with a deal is among those taken
    have hclosed : listed ∈ t.closingOrders := (mem_closingOrders_iff ht).mpr
      ⟨hin, hkind.trans hcloses, hkindType ▸ htype, deal, hdeal, hof.trans hsame.symm⟩
    obtain ⟨closing, hclosing, -, hall, -⟩ := Taken.reports_closes hreports
    obtain ⟨report, hreport, before, after, hgiven⟩ :=
      exists_of_forall₂ (forall₂_of_accumulate hclosing).flip listed hclosed
    unfold Taken.closeReport at hgiven
    obtain ⟨given, hmadeReport, hgiven⟩ := bind_eq_ok.mp hgiven
    cases hgiven
    have hmem : report ∈ made.keyed.map Prod.snd := by
      rw [hkeyed, map_keyedReports]
      exact hall report hreport
    obtain ⟨item, hitem, rfl⟩ := List.mem_map.mp hmem
    refine List.mem_map.mpr ⟨item, List.mem_flatMap.mpr ⟨made, hmade, hitem⟩, ?_⟩
    rw [(orderReport_ids hmadeReport).2, hsame]

/-- What the second loop makes of one order. -/
theorem listedOrder_made {made : List (SortKey × ReportedOrder)}
    (h : listedOrder inputs reported claimed order = .ok (made, after)) :
    (made = [] ∧ after = claimed ∧ ¬ (toString order.orderId ∉ reported ∧
      (inputs.precision order.tradeData.symbolId).isSome = true ∧ order.orderType ≠ .stopLossTakeProfit)) ∨
    (toString order.orderId ∉ reported ∧
      (inputs.precision order.tradeData.symbolId).isSome = true ∧ order.orderType ≠ .stopLossTakeProfit ∧
      ∃ report, made = [(sortKey report, report)] ∧ report.venueOrderId = toString order.orderId ∧
        (order.closingOrder = true → report.clientOrderId = (closeId inputs.closes claimed order true).1 ∧
          after = (closeId inputs.closes claimed order true).2) ∧
        (order.closingOrder = false → after = claimed)) := by
  unfold listedOrder at h
  split at h
  · rename_i hskip
    rw [Bool.or_eq_true, decide_eq_true_eq, decide_eq_true_eq] at hskip
    cases h
    refine .inl ⟨rfl, rfl, ?_⟩
    rintro ⟨hnew, -, htype⟩
    exact hskip.elim htype hnew
  rename_i hnew
  rw [Bool.or_eq_true, not_or, decide_eq_true_eq, decide_eq_true_eq] at hnew
  split at h
  · rename_i hdigits
    cases h
    refine .inl ⟨rfl, rfl, ?_⟩
    rintro ⟨-, hloaded, -⟩
    rw [hdigits] at hloaded
    cases hloaded
  · rename_i digits hdigits
    obtain ⟨report, hreport, h⟩ := bind_eq_ok.mp h
    obtain ⟨hclient, hvenue⟩ := orderReport_ids hreport
    cases h
    refine .inr ⟨hnew.2, (by rw [hdigits]; rfl), hnew.1, report, rfl, hvenue, fun hclosing => ?_, fun hopening => ?_⟩
    · rw [if_pos hclosing] at hclient ⊢
      exact ⟨hclient, rfl⟩
    · rw [if_neg (by simp [hopening])]

/-- Of what is claimed, the second loop reads at an order whether the close it wants is. -/
theorem listedOrder_same (h : toString order.orderId ∉ reported →
      (inputs.precision order.tradeData.symbolId).isSome = true →
      ∀ close, inputs.closes.wanted order = some close → (close ∈ claimed ↔ close ∈ claimed')) :
    (listedOrder inputs reported claimed order).map Prod.fst =
      (listedOrder inputs reported claimed' order).map Prod.fst := by
  unfold listedOrder
  by_cases hskip : (order.orderType = .stopLossTakeProfit || toString order.orderId ∈ reported) = true
  · rw [if_pos hskip, if_pos hskip]
    rfl
  rw [if_neg hskip, if_neg hskip]
  rw [Bool.or_eq_true, not_or, decide_eq_true_eq, decide_eq_true_eq] at hskip
  cases hdigits : inputs.precision order.tradeData.symbolId with
  | none => rfl
  | some digits =>
    dsimp only
    by_cases hclosing : order.closingOrder = true
    · have hagree : Agree {close | inputs.closes.wanted order = some close} claimed claimed' :=
        fun close hwanted => h hskip.2 (by rw [hdigits]; rfl) close hwanted
      have hsame := (closeId_agree hclosing hskip.1 true (fun close hwanted => hwanted) hagree).1
      rw [if_pos hclosing, if_pos hclosing, hsame]
      cases unfilledOrder order digits (closeId inputs.closes claimed order true).1 <;> rfl
    · rw [if_neg hclosing, if_neg hclosing]
      cases unfilledOrder order digits (parseLabel order.tradeData.label) <;> rfl

end SecondLoop

/-! ## The whole pass -/

section Pass

variable {inputs inputs' : Inputs} {claimed middle after : Finset String} {taken : List Outcome}
  {order : ProtoOAOrder} {close : String}

/-- The ids under which the positions' orders are reported. -/
def reportedIds (taken : List Outcome) : List String :=
  (taken.flatMap Outcome.keyed).map fun item => item.2.venueOrderId

/-- The second loop comes to an order that is left. -/
theorem left_of_listed (hd : inputs.Distinct) (htaken : accumulate (positionOutcome inputs) claimed
      (sortOn id inputs.symbols.keys) = .ok (taken, middle)) (hlisted : order ∈ inputs.snapshot.order)
    (hwanted : inputs.closes.wanted order = some close) :
    inputs.Left order ↔ toString order.orderId ∉ reportedIds taken ∧
      (inputs.precision order.tradeData.symbolId).isSome = true := by
  obtain ⟨hcloses, htype, -⟩ := kind_of_wanted hwanted
  have hreported := reported_iff hd htaken hlisted hcloses htype
  constructor
  · intro hleft
    exact ⟨fun hin => hleft.undealt (hreported.mp hin), hleft.loaded⟩
  · rintro ⟨hnew, hloaded⟩
    exact ⟨hlisted, hloaded, fun hdealt => hnew (hreported.mpr hdealt)⟩

/-- Where no close is contested, the second loop makes the same of the snapshot's orders in any order. -/
theorem listed_perm (hd : inputs.Distinct) (hfree : ¬ inputs.Contested)
    (htaken : accumulate (positionOutcome inputs) inputs.claimedBefore (sortOn id inputs.symbols.keys) =
      .ok (taken, middle)) {listed : List (List (SortKey × ReportedOrder))}
    (hlisted : accumulate (listedOrder inputs (reportedIds taken)) middle inputs.snapshot.order =
      .ok (listed, after)) {orders : List ProtoOAOrder} (hp : inputs.snapshot.order.Perm orders) :
    ∃ listed' after', accumulate (listedOrder inputs (reportedIds taken)) middle orders =
      .ok (listed', after') ∧ listed.Perm listed' := by
  -- The orders before have claimed nothing that an order may still be given.
  let Same (order : ProtoOAOrder) (claimed : Finset String) : Prop :=
    toString order.orderId ∉ reportedIds taken →
      (inputs.precision order.tradeData.symbolId).isSome = true →
      ∀ close, inputs.closes.wanted order = some close → (close ∈ claimed ↔ close ∈ middle)
  have hstep {order other : ProtoOAOrder} (horder : order ∈ inputs.snapshot.order)
      (hother : other ∈ inputs.snapshot.order) (hne : order.orderId ≠ other.orderId) (claimed : Finset String)
      (made : List (SortKey × ReportedOrder)) (claimed' : Finset String) (_ : Same order claimed)
      (hsame : Same other claimed)
      (hmade : listedOrder inputs (reportedIds taken) claimed order = .ok (made, claimed')) :
      Same other claimed' := by
    intro hnew hloaded close hwanted
    have hbefore := hsame hnew hloaded close hwanted
    rcases listedOrder_made hmade with
      ⟨-, rfl, -⟩ | ⟨hnew', hloaded', htype, report, -, -, hclosing, hopening⟩
    · exact hbefore
    by_cases hcloses : order.closingOrder = true
    · rw [(hclosing hcloses).2, mem_closeId hcloses htype]
      by_cases hclose : inputs.closes.wanted order = some close
      · -- Both want the close, so a position has claimed it.
        have hclaimed : close ∈ middle := by
          rw [claimed_iff htaken]
          by_contra hunclaimed
          exact hfree ⟨order, other, close, (left_of_listed hd htaken horder hclose).mpr ⟨hnew', hloaded'⟩,
            (left_of_listed hd htaken hother hwanted).mpr ⟨hnew, hloaded⟩, hne, hclose, hwanted, hunclaimed⟩
        exact iff_of_true (.inl (hbefore.mpr hclaimed)) hclaimed
      · rw [or_iff_left fun hasks => hclose hasks.2]
        exact hbefore
    · rw [hopening (eq_false_of_ne_true hcloses)]
      exact hbefore
  have hloop {orders : List ProtoOAOrder} (hp : orders.Perm inputs.snapshot.order)
      (listed : List (List (SortKey × ReportedOrder))) :
      (∃ after, accumulate (listedOrder inputs (reportedIds taken)) middle orders = .ok (listed, after)) ↔
        orders.mapM (fun order => (listedOrder inputs (reportedIds taken) middle order).map Prod.fst) =
          .ok listed := by
    have hsame : ∀ order ∈ orders, ∀ claimed, Same order claimed →
        (listedOrder inputs (reportedIds taken) claimed order).map Prod.fst =
          (listedOrder inputs (reportedIds taken) middle order).map Prod.fst :=
      fun order _ claimed hsame => listedOrder_same hsame
    refine accumulate_eq_mapM hsame ?_ (fun order _ _ _ close _ => Iff.rfl) listed
    have hids : (orders.map ProtoOAOrder.orderId).Nodup := (hp.map _).nodup_iff.mpr hd.orders
    refine (List.pairwise_map.mp hids).imp_of_mem fun {order other} horder hother hne => ?_
    exact hstep (hp.mem_iff.mp horder) (hp.mem_iff.mp hother) hne
  have hmapped := (hloop (List.Perm.refl _) listed).mp ⟨after, hlisted⟩
  obtain ⟨listed', hlisted', hperm⟩ := mapM_perm hp.symm hmapped
  obtain ⟨after', hafter⟩ := (hloop hp.symm listed').mpr hlisted'
  exact ⟨listed', after', hafter, hperm.symm⟩

/-- Where no close is contested, a pass makes the same of the lists in any order. -/
theorem reconcile_perm (h : inputs.Permuted inputs') (hd : inputs.Distinct) (hfree : ¬ inputs.Contested)
    {result : Reconciliation} (hresult : reconcile inputs = .ok result) : reconcile inputs' = .ok result := by
  unfold reconcile at hresult ⊢
  dsimp only at hresult ⊢
  obtain ⟨⟨taken, middle⟩, htaken, hresult⟩ := bind_eq_ok.mp hresult
  obtain ⟨⟨listed, after⟩, hlisted, hresult⟩ := bind_eq_ok.mp hresult
  cases hresult
  have hclaimed : inputs'.claimedBefore = inputs.claimedBefore := by
    unfold Inputs.claimedBefore
    rw [h.closes]
  have hlistedOrder : listedOrder inputs' = listedOrder inputs := by
    unfold listedOrder
    rw [h.precision, h.closes]
  obtain ⟨listed', after', hlisted', hperm⟩ := listed_perm hd hfree htaken hlisted h.orders
  rw [positionOutcome_perm h hd, keys_perm h hd, hclaimed, hlistedOrder]
  refine bind_eq_ok.mpr ⟨(taken, middle), htaken, bind_eq_ok.mpr ⟨(listed', after'), hlisted', ?_⟩⟩
  rw [pure_eq_ok]
  congr 2
  refine (sortOn_append_congr hperm.flatten fun item hitem other hother hkey => ?_).symm
  refine List.inj_on_of_nodup_map (listed_nodup hd.orders hlisted) hitem hother ?_
  -- The last part of a place is the id.
  rw [(listed_pending hlisted item hitem).1, (listed_pending hlisted other hother).1] at hkey
  exact congrArg (fun key : SortKey => (ofLex (ofLex (ofLex key).2).2).2) hkey

/-- The inputs with one order of the snapshot first. -/
def Inputs.first (inputs : Inputs) (order : ProtoOAOrder) : Inputs :=
  { inputs with snapshot :=
      { inputs.snapshot with order := order :: inputs.snapshot.order.erase order } }

/-- An order may be listed first. -/
theorem first_permuted (hlisted : order ∈ inputs.snapshot.order) :
    inputs.Permuted (inputs.first order) where
  positions := .refl _
  orders := List.perm_cons_erase hlisted
  histories _ := SameLists.rel_refl _
  windowDeals := .refl _
  precision := rfl
  closes := rfl
  held := rfl
  moneyDigits := rfl

/-- The first of the snapshot's orders is given the close it wants, and no other order is. -/
theorem first_given (hd : inputs.Distinct) (hleft : inputs.Left order)
    (hwanted : inputs.closes.wanted order = some close) (hunclaimed : ¬ inputs.Claimed close)
    {result : Reconciliation} (hresult : reconcile (inputs.first order) = .ok result) :
    (∃ report ∈ result.orders, report.venueOrderId = toString order.orderId ∧
      report.clientOrderId = some close) ∧
    ∀ other, inputs.Left other → other.orderId ≠ order.orderId → inputs.closes.wanted other = some close →
      ∀ report ∈ result.orders, report.venueOrderId = toString other.orderId →
        report.clientOrderId ≠ some close := by
  have hperm := first_permuted hleft.listed
  unfold reconcile at hresult
  dsimp only at hresult
  obtain ⟨⟨taken, middle⟩, htaken, hresult⟩ := bind_eq_ok.mp hresult
  obtain ⟨⟨listed, after⟩, hlisted, hresult⟩ := bind_eq_ok.mp hresult
  cases hresult
  rw [positionOutcome_perm hperm hd, keys_perm hperm hd] at htaken
  have hlistedOrder : listedOrder (inputs.first order) = listedOrder inputs := rfl
  rw [hlistedOrder] at hlisted
  have hmiddle : close ∉ middle := fun hin => hunclaimed ((claimed_iff htaken close).mp hin)
  obtain ⟨made, next, rest, hmade, hrest, rfl⟩ := accumulate_cons_eq_ok.mp hlisted
  obtain ⟨hcloses, htype, hstop, hknown⟩ := kind_of_wanted hwanted
  have hnew := (left_of_listed hd htaken hleft.listed hwanted).mp hleft
  rcases listedOrder_made hmade with ⟨-, -, hskipped⟩ | ⟨-, -, -, report, rfl, hvenue, hclosing, -⟩
  · exact absurd ⟨hnew.1, hnew.2, htype⟩ hskipped
  obtain ⟨hclient, rfl⟩ := hclosing hcloses
  have hgiven : report.clientOrderId = some close :=
    hclient.trans ((closeId_wanted hcloses htype hknown hstop).mpr ⟨hwanted, hmiddle⟩)
  refine ⟨⟨report, ?_, hvenue, hgiven⟩, fun other hother hne hwants found hfound hid hsame => ?_⟩
  · have hin : (sortKey report, report) ∈ ([(sortKey report, report)] :: rest).flatten :=
      List.mem_append_left _ List.mem_cons_self
    exact List.mem_map_of_mem (mem_sortOn.mpr (List.mem_append_right _ hin))
  obtain ⟨item, hitem, rfl⟩ := List.mem_map.mp hfound
  rcases List.mem_append.mp (mem_sortOn.mp hitem) with hkeyed | hlater
  · have hin : item.2.venueOrderId ∈ reportedIds taken :=
      List.mem_map_of_mem (f := fun item : SortKey × ReportedOrder => item.2.venueOrderId) hkeyed
    rw [hid] at hin
    exact ((left_of_listed hd htaken hother.listed hwants).mp hother).1 hin
  rcases List.mem_append.mp hlater with hfirst | hlater
  · rw [List.mem_singleton.mp hfirst] at hid
    exact hne (toString_injective (hid.symm.trans hvenue))
  -- The close stays claimed through the rest of the loop.
  have hkeeps : ∀ next ∈ inputs.snapshot.order.erase order, ∀ claimed made after, close ∈ claimed →
      listedOrder inputs (reportedIds taken) claimed next = .ok (made, after) → close ∈ after := by
    intro next _ claimed made after hin hmade
    rcases listedOrder_made hmade with ⟨-, rfl, -⟩ | ⟨-, -, htype, report, -, -, hclosing, hopening⟩
    · exact hin
    by_cases hcloses : next.closingOrder = true
    · rw [(hclosing hcloses).2, mem_closeId hcloses htype]
      exact .inl hin
    · rwa [hopening (eq_false_of_ne_true hcloses)]
  have hclaimed : close ∈ (closeId inputs.closes middle order true).2 :=
    (mem_closeId hcloses htype true).mpr (.inr ⟨rfl, hwanted⟩)
  obtain ⟨made, hmade, hitem⟩ := List.mem_flatten.mp hlater
  obtain ⟨next, hnext, before, after, hbefore, hmade⟩ :=
    exists_of_forall₂ (forall₂_of_accumulate_keeps hkeeps hclaimed hrest) made hmade
  rcases listedOrder_made hmade with ⟨rfl, -⟩ | ⟨-, -, -, report', rfl, hvenue', hclosing', -⟩
  · cases hitem
  rw [List.mem_singleton.mp hitem] at hid hsame
  obtain rfl : next = other := List.inj_on_of_nodup_map hd.orders (List.mem_of_mem_erase hnext)
    hother.listed (toString_injective (hvenue'.symm.trans hid))
  obtain ⟨hcloses', htype', hstop', hknown'⟩ := kind_of_wanted hwants
  rw [(hclosing' hcloses').1, closeId_wanted hcloses' htype' hknown' hstop'] at hsame
  exact hsame.2 hbefore

/-- A pass makes the same of the broker's lists in any order, just if no two of the snapshot's orders that
no position reports want one close that is not claimed otherwise. -/
theorem order_free_iff (inputs : Inputs) (hd : inputs.Distinct) (result : Reconciliation)
    (hresult : reconcile inputs = .ok result) :
    (∀ inputs', inputs.Permuted inputs' → reconcile inputs' = .ok result) ↔ ¬ inputs.Contested := by
  constructor
  · rintro hfree ⟨order, other, close, hleft, hother, hne, hwanted, hwants, hunclaimed⟩
    obtain ⟨-, hnone⟩ := first_given hd hleft hwanted hunclaimed (hfree _ (first_permuted hleft.listed))
    obtain ⟨⟨report, hreport, hid, hgiven⟩, -⟩ :=
      first_given hd hother hwants hunclaimed (hfree _ (first_permuted hother.listed))
    exact hnone other hother hne.symm hwants report hreport hid hgiven
  · intro huncontested inputs' hpermuted
    exact reconcile_perm hpermuted hd huncontested hresult

end Pass

/-- A closing order of half the sample's position that waits to be filled. -/
def waitingClose (orderId ms : ℤ) : ProtoOAOrder :=
  { halfClose orderId ms with orderStatus := .accepted }

/-- The sample's position beside closing orders that wait, with one close in flight. -/
def waiting (orders : List ProtoOAOrder) : Inputs :=
  { inFlight ["C-1"] [] with snapshot := { position := [Sample.position 400 .open], order := orders } }

/-- The waiting orders are listed once. -/
theorem waiting_distinct (orders : List ProtoOAOrder)
    (hnodup : (orders.map ProtoOAOrder.orderId).Nodup)
    (horders : ∀ order ∈ orders, order.orderType ≠ .stopLossTakeProfit ∧ order.orderId ≠ 1) :
    (waiting orders).Distinct where
  positions := List.nodup_singleton _
  orders := hnodup
  lists positionId found hfound := by
    rw [(inFlight_history ["C-1"] [] hfound).2]
    exact ⟨List.nodup_singleton _, List.nodup_singleton _⟩
  kind order horder positionId found hfound listed hlisted hsame := by
    rw [(inFlight_history ["C-1"] [] hfound).2] at hlisted
    rw [List.mem_singleton.mp hlisted] at hsame
    exact absurd hsame.symm (horders order horder).2
  protective order horder _ _ htype := absurd htype (horders order horder).1
  windowSymbol deal hdeal other hother _ := by
    rw [List.mem_singleton.mp hdeal, List.mem_singleton.mp hother]
  listSymbol positionId found hfound deal hdeal other hother := by
    rw [(inFlight_history ["C-1"] [] hfound).2] at hdeal hother
    rw [List.mem_singleton.mp hdeal, List.mem_singleton.mp hother]

/-- One order that waits is given the close in flight. -/
theorem one_waiting_free : ∃ result, reconcile (waiting [waitingClose 3 510]) = .ok result ∧
    ∀ inputs', (waiting [waitingClose 3 510]).Permuted inputs' → reconcile inputs' = .ok result := by
  obtain ⟨result, hresult⟩ := exists_of_isOk
    (by decide +kernel : (reconcile (waiting [waitingClose 3 510])).isOk = true)
  refine ⟨result, hresult, (order_free_iff _ (waiting_distinct _ (by decide) (by decide)) result
    hresult).mpr ?_⟩
  rintro ⟨order, other, close, hleft, hother, hne, -⟩
  rw [List.mem_singleton.mp hleft.listed, List.mem_singleton.mp hother.listed] at hne
  exact hne rfl

/-- Of two orders that wait and want the one close in flight, the first listed is given it. -/
theorem two_waiting_contested : ¬ ∀ inputs : Inputs, inputs.Distinct → ∀ result,
    reconcile inputs = .ok result → ∀ inputs', inputs.Permuted inputs' → reconcile inputs' = .ok result := by
  intro hall
  have hfirst : (reconcile (waiting [waitingClose 3 510, waitingClose 4 520])).map
      (fun result => result.orders.map fun report => (report.venueOrderId, report.clientOrderId)) =
      .ok [("1", none), ("3", some "C-1"), ("4", none)] := by decide +kernel
  have hsecond : (reconcile (waiting [waitingClose 4 520, waitingClose 3 510])).map
      (fun result => result.orders.map fun report => (report.venueOrderId, report.clientOrderId)) =
      .ok [("1", none), ("3", none), ("4", some "C-1")] := by decide +kernel
  obtain ⟨result, hresult⟩ := exists_of_isOk
    (by decide +kernel : (reconcile (waiting [waitingClose 3 510, waitingClose 4 520])).isOk = true)
  have hswapped : (waiting [waitingClose 3 510, waitingClose 4 520]).Permuted
      (waiting [waitingClose 4 520, waitingClose 3 510]) :=
    ⟨.refl _, List.Perm.swap _ _ _, fun _ => SameLists.rel_refl _, .refl _, rfl, rfl, rfl, rfl⟩
  have hsame := hall _ (waiting_distinct _ (by decide) (by decide)) result hresult _ hswapped
  rw [hresult] at hfirst
  rw [hsame, hfirst] at hsecond
  cases hsecond

end Reconciliation

end NautilusCtrader
