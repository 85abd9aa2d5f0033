import NautilusCtrader.LegIds
import NautilusCtrader.Reconciliation.CloseIds

/-!
# The ids and the order of the reports

A report is of a broker order, under the order's own id, or of a leg, under an id made of its
position's entry. A position's reports have ids of their own and sort after its entry. The orders of
the snapshot that no position reported carry no fill, and have their place by their own time.
-/

namespace NautilusCtrader

open Common VenueBook OrderRecord

namespace Reconciliation

/-! ## One report -/

/-- A report of a broker order, naming the position the order names. -/
def OfOrder (order : ProtoOAOrder) (report : ReportedOrder) : Prop :=
  report.venueOrderId = toString order.orderId ∧
    report.venuePositionId = order.positionId?.map toString

/-- A report of a leg of a position, of some generation. -/
def Taken.OfLeg (t : Taken) (level : Level) (report : ReportedOrder) : Prop :=
  (∃ generation, report.venueOrderId = legVenueOrderId t.entry.orderId level generation) ∧
    report.venuePositionId = some (toString t.positionId)

/-- An order's report is of the order, with its fills. -/
theorem orderReport_ofOrder {order : ProtoOAOrder} {precision : ℕ} {fills : List Fill}
    {clientOrderId : Option String} {reduceOnly : Bool} {kind : ExternalType} {report : ReportedOrder}
    (h : orderReport order precision fills clientOrderId reduceOnly kind = .ok report) :
    OfOrder order report ∧ report.fills = fills ∧ report.reduceOnly = reduceOnly := by
  unfold orderReport at h
  obtain ⟨prices, -, h⟩ := bind_eq_ok.mp h
  obtain ⟨average, -, h⟩ := bind_eq_ok.mp h
  cases h
  exact ⟨⟨rfl, rfl⟩, rfl, rfl⟩

/-- Broker orders' ids are read back from their text. -/
theorem toString_injective {m n : ℤ} (h : toString m = toString n) : m = n := by
  rw [Int.toString_eq_repr, Int.toString_eq_repr] at h
  exact intRepr_injective (congrArg String.toList h)

/-- No leg's id is a broker order's. -/
theorem legVenueOrderId_ne_toString (entryOrderId orderId : ℤ) (level : Level) (generation : ℕ+) :
    legVenueOrderId entryOrderId level generation ≠ toString orderId := by
  intro heq
  have hleg := isLegId_legVenueOrderId entryOrderId level generation
  rw [heq, isLegId_orderId] at hleg
  cases hleg

/-! ## Distinct ids -/

/-- Reports one by one of the orders of a list have ids of their own if the orders do. -/
theorem nodup_ids_of_orders {orders : List ProtoOAOrder} {reports : List ReportedOrder}
    (h : List.Forall₂ OfOrder orders reports) (hnodup : (orders.map ProtoOAOrder.orderId).Nodup) :
    (reports.map ReportedOrder.venueOrderId).Nodup := by
  have hids : reports.map ReportedOrder.venueOrderId =
      (orders.map ProtoOAOrder.orderId).map toString := by
    clear hnodup
    induction h with
    | nil => rfl
    | cons hfirst _ ih =>
      rw [List.map_cons, List.map_cons, List.map_cons, ih, hfirst.1]
  rw [hids]
  exact hnodup.map fun _ _ => toString_injective

/-- Two stretches of a list of distinct ids, told apart by a property of the orders. -/
theorem nodup_append_of_kind {orders xs ys : List ProtoOAOrder} (kind : ProtoOAOrder → Bool)
    (hnodup : (orders.map ProtoOAOrder.orderId).Nodup) (hxs : xs ⊆ orders) (hys : ys ⊆ orders)
    (hfirst : ∀ order ∈ xs, kind order = true) (hsecond : ∀ order ∈ ys, kind order = false)
    (hx : (xs.map ProtoOAOrder.orderId).Nodup) (hy : (ys.map ProtoOAOrder.orderId).Nodup) :
    ((xs ++ ys).map ProtoOAOrder.orderId).Nodup := by
  rw [List.map_append]
  refine List.nodup_append.mpr ⟨hx, hy, fun id hid id' hid' heq => ?_⟩
  obtain ⟨order, horder, rfl⟩ := List.mem_map.mp hid
  obtain ⟨order', horder', rfl⟩ := List.mem_map.mp hid'
  obtain rfl := List.inj_on_of_nodup_map hnodup (hxs horder) (hys horder') heq
  have hkind := hfirst order horder
  rw [hsecond order horder'] at hkind
  cases hkind

/-- What a loop that collects lists makes of keys that each list keeps to. -/
theorem flatten_sublist_of_mapM {α β κ : Type} {f : α → Except Failure (List β)} {key : α → κ}
    {keyOf : β → κ} {xs : List α} {ys : List (List β)}
    (hf : ∀ x y, f x = .ok y → (y.map keyOf).Sublist [key x]) (h : xs.mapM f = .ok ys) :
    (ys.flatten.map keyOf).Sublist (xs.map key) := by
  have hall := mapM_eq_ok.mp h
  clear h
  induction hall with
  | nil => exact List.Sublist.refl _
  | cons hfirst _ ih =>
    rw [List.flatten_cons, List.map_append, List.map_cons]
    exact (hf _ _ hfirst).append ih

/-! ## The orders of a position -/

/-- An opening order is one of the orders, and neither closing nor protective. -/
theorem mem_openingOrders {orders : List ProtoOAOrder} {order : ProtoOAOrder}
    (h : order ∈ openingOrders orders) :
    order ∈ orders ∧ order.closingOrder = false ∧ order.orderType ≠ .stopLossTakeProfit := by
  obtain ⟨hmem, hkind⟩ := List.mem_filter.mp (mem_sortOn.mp h)
  exact ⟨hmem, by simpa using hkind⟩

/-- What taking a position reads of its lists. -/
structure Taken.Reads (t : Taken) (orders : List ProtoOAOrder) : Prop where
  entry : entryOf orders = some t.entry
  perm : t.orders.Perm orders
  raises : t.raises.Sublist (openingOrders orders)
  raisesNe : ∀ order ∈ t.raises, order.orderId ≠ t.entry.orderId
  protective : t.protective = t.orders.filter fun order => order.orderType = .stopLossTakeProfit

/-- A position that is taken reads its own orders. -/
theorem take_reads {positionId : ℤ} {entry : ProtoOAOrder} {found : PositionHistory} {precision : ℕ}
    {moneyDigits : Option ℕ} {t : Taken} (hentry : entryOf found.orders = some entry)
    (h : take positionId entry found precision moneyDigits = .ok t) :
    t.Reads found.orders ∧ t.positionId = positionId := by
  unfold take at h
  dsimp only at h
  obtain ⟨dealFills, -, h⟩ := bind_eq_ok.mp h
  cases h
  refine ⟨⟨hentry, sortOn_perm _ _, List.filter_sublist, fun order horder => ?_, rfl⟩, rfl⟩
  have hkept := (List.mem_filter.mp horder).2
  rw [Bool.and_eq_true] at hkept
  exact of_decide_eq_true hkept.1

namespace Taken

variable {t : Taken}

/-- The entry and the raises, the closes and the protective orders have ids of their own. -/
theorem Reads.nodup {orders external : List ProtoOAOrder} (h : t.Reads orders)
    (hnodup : (orders.map ProtoOAOrder.orderId).Nodup) (hexternal : external.Sublist t.protective) :
    ((t.entry :: t.raises ++ (t.closingOrders ++ external)).map ProtoOAOrder.orderId).Nodup ∧
      ∀ order ∈ t.entry :: t.raises ++ (t.closingOrders ++ external), order ∈ t.orders := by
  have hown : (t.orders.map ProtoOAOrder.orderId).Nodup := (h.perm.map _).nodup_iff.mpr hnodup
  have hprotective : ∀ order ∈ external, order ∈ t.orders ∧ order.orderType = .stopLossTakeProfit := by
    intro order horder
    have hmem := hexternal.subset horder
    rw [h.protective, List.mem_filter] at hmem
    exact ⟨hmem.1, of_decide_eq_true hmem.2⟩
  have hclosing : ∀ order ∈ t.closingOrders, order ∈ t.orders ∧ order.closingOrder = true ∧
      order.orderType ≠ .stopLossTakeProfit := by
    intro order horder
    obtain ⟨hmem, hkind⟩ := List.mem_filter.mp (mem_sortOn.mp horder)
    rw [Bool.and_eq_true, Bool.and_eq_true] at hkind
    exact ⟨hmem, hkind.1.1, of_decide_eq_true hkind.1.2⟩
  have hopening : ∀ order ∈ t.entry :: t.raises, order ∈ t.orders ∧ order.closingOrder = false ∧
      order.orderType ≠ .stopLossTakeProfit := by
    intro order horder
    have hmem : order ∈ openingOrders orders := by
      rcases List.mem_cons.mp horder with rfl | hraise
      · exact mem_openingOrders_of_entryOf h.entry
      · exact h.raises.subset hraise
    obtain ⟨hlisted, hkind⟩ := mem_openingOrders hmem
    exact ⟨h.perm.mem_iff.mpr hlisted, hkind⟩
  have hraises : ((t.entry :: t.raises).map ProtoOAOrder.orderId).Nodup := by
    rw [List.map_cons, List.nodup_cons]
    refine ⟨fun hin => ?_, ?_⟩
    · obtain ⟨order, horder, heq⟩ := List.mem_map.mp hin
      exact h.raisesNe order horder heq
    · have hsorted : ((openingOrders orders).map ProtoOAOrder.orderId).Nodup :=
        ((sortOn_perm _ _).map _).nodup_iff.mpr (hnodup.sublist (List.filter_sublist.map _))
      exact hsorted.sublist (h.raises.map _)
  have hcloses : (t.closingOrders.map ProtoOAOrder.orderId).Nodup :=
    ((sortOn_perm _ _).map _).nodup_iff.mpr (hown.sublist (List.filter_sublist.map _))
  have hprotectiveIds : (external.map ProtoOAOrder.orderId).Nodup := by
    have hsub : external.Sublist t.orders := by
      rw [h.protective] at hexternal
      exact hexternal.trans List.filter_sublist
    exact hown.sublist (hsub.map _)
  -- What closes is told from what is protective by its type, and both from what opens.
  have hends := nodup_append_of_kind (fun order => order.orderType ≠ .stopLossTakeProfit) hown
    (fun order horder => (hclosing order horder).1) (fun order horder => (hprotective order horder).1)
    (fun order horder => decide_eq_true (hclosing order horder).2.2)
    (fun order horder => by simp [(hprotective order horder).2]) hcloses hprotectiveIds
  have hsubset : ∀ order ∈ t.closingOrders ++ external, order ∈ t.orders := by
    intro order horder
    rcases List.mem_append.mp horder with hclose | hother
    · exact (hclosing order hclose).1
    · exact (hprotective order hother).1
  refine ⟨nodup_append_of_kind
    (fun order => !order.closingOrder && order.orderType ≠ .stopLossTakeProfit) hown
    (fun order horder => (hopening order horder).1) hsubset
    (fun order horder => by simp [(hopening order horder).2.1, (hopening order horder).2.2])
    (fun order horder => ?_) hraises hends, fun order horder => ?_⟩
  · rcases List.mem_append.mp horder with hclose | hother
    · simp [(hclosing order hclose).2.1]
    · simp [(hprotective order hother).2]
  · rcases List.mem_append.mp horder with hopen | hend
    · exact (hopening order hopen).1
    · exact hsubset order hend

/-! ## Legs -/

/-- A leg's report is of the leg. -/
theorem leg_ofLeg {level : Level} {legId entryId : Option String} {linked : List String}
    {fills : List Fill} {venue : Option ProtoOAPosition} {live : Option ProtoOAOrder}
    {venueOrderId : String} {found : Option ProtoOAOrder × Levels} {report : ReportedOrder}
    (h : t.leg level legId entryId linked fills venue live venueOrderId found = .ok report) :
    report.venueOrderId = venueOrderId ∧ report.venuePositionId = some (toString t.positionId) := by
  unfold leg at h
  obtain ⟨average, -, h⟩ := bind_eq_ok.mp h
  cases h
  exact ⟨rfl, rfl⟩

/-- The id chosen for a foreign leg is one of its level. -/
theorem generationFrom_id (level : Level) (fills : List Fill) (held : HeldOrders) (stands : Bool)
    (fuel : ℕ) (first : ℕ+) (taken : Finset String) :
    ∃ generation, (t.generationFrom level fills held stands fuel first taken).1 =
      legVenueOrderId t.entry.orderId level generation := by
  induction fuel generalizing first taken with
  | zero =>
    unfold generationFrom
    dsimp only
    split <;> exact ⟨first, rfl⟩
  | succ fuel ih =>
    unfold generationFrom
    dsimp only
    split
    · exact ⟨first, rfl⟩
    · exact ih _ _

/-- A level of a foreign position is reported as one leg of it at most. -/
theorem foreignLevel_ofLeg {legFills : Level → List Fill} {venue : Option ProtoOAPosition}
    {live : Option ProtoOAOrder} {held : HeldOrders}
    {standing : Option (Option ProtoOAOrder × Levels)} {level : Level} {reports : List ReportedOrder}
    (h : t.foreignLevel legFills venue live held standing level = .ok reports) :
    reports = [] ∨ ∃ report, reports = [report] ∧ t.OfLeg level report := by
  unfold foreignLevel at h
  dsimp only at h
  split at h
  all_goals
    obtain ⟨found, -, h⟩ := bind_eq_ok.mp h
    split at h
    · cases h
      exact .inl rfl
    · obtain ⟨report, hleg, h⟩ := bind_eq_ok.mp h
      rw [pure_eq_ok] at h
      split at h
      · exact .inl h.symm
      · obtain ⟨hid, hposition⟩ := leg_ofLeg hleg
        obtain ⟨generation, hchosen⟩ := generationFrom_id (t := t) level (legFills level) held
          (venue.isSome && (found.2.get? level).isSome) held.closed.card firstGeneration ∅
        exact .inr ⟨report, h.symm, ⟨generation, hid.trans hchosen⟩, hposition⟩

/-- A leg that is gone keeps the id Nautilus holds it under, which no other leg of the position has. -/
theorem goneLeg_id {venue : Option ProtoOAPosition} {live : Option ProtoOAOrder}
    {listed : List String} {venueOrderId : String} {reports : List ReportedOrder}
    (h : t.goneLeg venue live listed venueOrderId = .ok reports) :
    reports = [] ∨ ∃ report, reports = [report] ∧ venueOrderId ∉ listed ∧
      report.venueOrderId = venueOrderId ∧
      report.venuePositionId = some (toString t.positionId) := by
  unfold goneLeg at h
  split at h
  · cases h
    exact .inl rfl
  · split at h
    · cases h
      exact .inl rfl
    · rename_i hnew
      obtain ⟨found, -, h⟩ := bind_eq_ok.mp h
      obtain ⟨gone, hleg, h⟩ := bind_eq_ok.mp h
      cases h
      obtain ⟨hid, hposition⟩ := leg_ofLeg hleg
      exact .inr ⟨_, rfl, hnew, hid, hposition⟩

end Taken

/-- Nautilus holds a leg once, among the legs of its entry. -/
structure HeldOnce (held : HeldOrders) : Prop where
  nodup : ∀ entryOrderId, (held.openLegs entryOrderId).Nodup
  legs : ∀ entryOrderId, ∀ venueOrderId ∈ held.openLegs entryOrderId,
    ∃ level generation, venueOrderId = legVenueOrderId entryOrderId level generation

namespace Taken

variable {t : Taken}

/-- A foreign position's legs have ids of their own. -/
theorem foreignLegs_ofLeg {legFills : Level → List Fill} {venue : Option ProtoOAPosition}
    {live : Option ProtoOAOrder} {held : HeldOrders} (hheld : HeldOnce held)
    {reports : List ReportedOrder} (h : t.foreignLegs legFills venue live held = .ok reports) :
    (reports.map ReportedOrder.venueOrderId).Nodup ∧ ∀ report ∈ reports, ∃ level, t.OfLeg level report := by
  obtain ⟨standing, levels, gone, hlevels, hgone, rfl⟩ := foreignLegs_parts h
  have hofLevel : ∀ report ∈ levels.flatten, ∃ level, t.OfLeg level report := by
    refine forall_flatten (fun level reports hmade report hreport => ?_) hlevels
    rcases foreignLevel_ofLeg hmade with rfl | ⟨made, rfl, hleg⟩
    · cases hreport
    · rw [List.mem_singleton.mp hreport]
      exact ⟨level, hleg⟩
  have hofGone : ∀ report ∈ gone.flatten,
      report.venueOrderId ∉ levels.flatten.map ReportedOrder.venueOrderId ∧
        ∃ level, t.OfLeg level report := by
    intro report hreport
    obtain ⟨made, hmade, hreport⟩ := List.mem_flatten.mp hreport
    obtain ⟨venueOrderId, hopen, hgoneLeg⟩ := exists_of_mapM hgone made hmade
    rcases goneLeg_id hgoneLeg with rfl | ⟨found, rfl, hnew, hid, hposition⟩
    · cases hreport
    · rw [List.mem_singleton.mp hreport, hid]
      obtain ⟨level, generation, hleg⟩ := hheld.legs _ venueOrderId (mem_sortOn.mp hopen)
      exact ⟨hnew, level, ⟨generation, hid.trans hleg⟩, hposition⟩
  -- One leg at most for each of the two levels, and legs of different levels differ.
  have hlevelIds : (levels.flatten.map ReportedOrder.venueOrderId).Nodup := by
    obtain ⟨first, rest, hfirst, hrest, rfl⟩ := List.forall₂_cons_left_iff.mp (mapM_eq_ok.mp hlevels)
    obtain ⟨second, last, hsecond, hlast, rfl⟩ := List.forall₂_cons_left_iff.mp hrest
    obtain rfl := List.forall₂_nil_left_iff.mp hlast
    rcases foreignLevel_ofLeg hfirst with rfl | ⟨stop, rfl, ⟨generation, hstop⟩, -⟩
    · rcases foreignLevel_ofLeg hsecond with rfl | ⟨target, rfl, -⟩
      · exact List.nodup_nil
      · exact List.nodup_singleton _
    · rcases foreignLevel_ofLeg hsecond with rfl | ⟨target, rfl, ⟨generation', htarget⟩, -⟩
      · exact List.nodup_singleton _
      · refine List.nodup_cons.mpr ⟨fun hin => ?_, List.nodup_singleton _⟩
        have hsame := hstop.symm.trans ((List.mem_singleton.mp hin).trans htarget)
        cases (legVenueOrderId_injective hsame).2.1
  have hgoneIds : (gone.flatten.map ReportedOrder.venueOrderId).Nodup := by
    have hone : ∀ venueOrderId reports, t.goneLeg venue live
        (levels.flatten.map ReportedOrder.venueOrderId) venueOrderId = .ok reports →
        (reports.map ReportedOrder.venueOrderId).Sublist [id venueOrderId] := by
      intro venueOrderId reports hmade
      rcases goneLeg_id hmade with rfl | ⟨found, rfl, -, hid, -⟩
      · exact List.nil_sublist _
      · rw [List.map_singleton, hid]
        exact List.Sublist.refl _
    have hsub := flatten_sublist_of_mapM hone hgone
    rw [List.map_id] at hsub
    exact ((sortOn_perm _ _).nodup_iff.mpr (hheld.nodup t.entry.orderId)).sublist hsub
  refine ⟨?_, fun report hreport => ?_⟩
  · rw [List.map_append]
    refine List.nodup_append.mpr ⟨hlevelIds, hgoneIds, fun id hid id' hid' heq => ?_⟩
    obtain ⟨report, hreport, rfl⟩ := List.mem_map.mp hid'
    exact (hofGone report hreport).1 (heq ▸ hid)
  · rcases List.mem_append.mp hreport with hlevel | hleft
    · exact hofLevel report hlevel
    · exact (hofGone report hleft).2

/-- The node's legs have ids of their own. -/
theorem nodeLegs_ofLeg {legs : ByLevel String} {legFills : Level → List Fill}
    {venue : Option ProtoOAPosition} {live : Option ProtoOAOrder} {reports : List ReportedOrder}
    (h : legs.items.mapM (t.nodeLeg legs legFills venue live) = .ok reports) :
    (reports.map ReportedOrder.venueOrderId).Nodup ∧ ∀ report ∈ reports, ∃ level, t.OfLeg level report := by
  have hone : ∀ named report, t.nodeLeg legs legFills venue live named = .ok report →
      report.venueOrderId = legVenueOrderId t.entry.orderId named.1 ∧
        report.venuePositionId = some (toString t.positionId) := by
    intro named report hmade
    unfold nodeLeg at hmade
    dsimp only at hmade
    obtain ⟨found, -, hmade⟩ := bind_eq_ok.mp hmade
    exact leg_ofLeg hmade
  have hids : reports.map ReportedOrder.venueOrderId =
      (legs.items.map Prod.fst).map (legVenueOrderId t.entry.orderId ·) := by
    have hall := mapM_eq_ok.mp h
    clear h
    generalize legs.items = items at hall ⊢
    induction hall with
    | nil => rfl
    | cons hfirst _ ih =>
      rw [List.map_cons, List.map_cons, List.map_cons, ih, (hone _ _ hfirst).1]
  have hlevels : (legs.items.map Prod.fst).Nodup := by
    unfold ByLevel.items Level.all
    cases hstop : legs.get? .stopLoss <;> cases htarget : legs.get? .takeProfit <;>
      simp [hstop, htarget]
  refine ⟨?_, fun report hreport => ?_⟩
  · rw [hids]
    exact hlevels.map fun level level' heq => (legVenueOrderId_injective heq).2.1
  · obtain ⟨named, -, hmade⟩ := exists_of_mapM h report hreport
    obtain ⟨hid, hposition⟩ := hone named report hmade
    exact ⟨named.1, ⟨_, hid⟩, hposition⟩

/-! ## The protective orders' deals that no leg takes -/

/-- A triggered order has one report at most, which is of it. -/
theorem triggersOf_ofOrder {withLegs : Level → Bool} {order : ProtoOAOrder} {found : Triggers}
    (h : t.triggersOf withLegs order = .ok found) :
    found.external = [] ∨ ∃ report, found.external = [report] ∧ OfOrder order report := by
  unfold triggersOf at h
  dsimp only at h
  split at h
  · cases h
    exact .inl rfl
  obtain ⟨levels, -, h⟩ := bind_eq_ok.mp h
  split at h
  · obtain ⟨external, hexternal, h⟩ := bind_eq_ok.mp h
    cases hexternal
    cases h
    exact .inl rfl
  · obtain ⟨external, hexternal, h⟩ := bind_eq_ok.mp h
    cases h
    generalize hmade : orderReport order t.precision _ none true _ = made at hexternal
    cases made with
    | error failure => cases hexternal
    | ok made =>
      cases hexternal
      exact .inr ⟨made, rfl, (orderReport_ofOrder hmade).1⟩

/-- Each of these reports is of a protective order of its own. -/
theorem triggers_ofOrder {withLegs : Level → Bool} {found : Triggers}
    (h : t.triggers withLegs = .ok found) :
    ∃ orders, orders.Sublist t.protective ∧ List.Forall₂ OfOrder orders found.external := by
  unfold triggers at h
  obtain ⟨parts, hparts, h⟩ := bind_eq_ok.mp h
  cases h
  rw [foldl_add_external, List.nil_append]
  have hall := mapM_eq_ok.mp hparts
  clear hparts h
  generalize t.protective = protective at hall ⊢
  induction hall with
  | nil => exact ⟨[], List.Sublist.refl _, .nil⟩
  | cons hfirst _ ih =>
    obtain ⟨orders, hsub, hrest⟩ := ih
    rw [List.flatMap_cons]
    rcases triggersOf_ofOrder hfirst with hnone | ⟨report, hone, hreport⟩
    · rw [hnone]
      exact ⟨orders, hsub.cons _, hrest⟩
    · rw [hone]
      exact ⟨_ :: orders, hsub.cons_cons _, .cons hreport hrest⟩

/-! ## All reports of a position -/

/-- The entry's report is of the entry. -/
theorem entryReport_ofOrder {report : ReportedOrder} (h : t.entryReport = .ok report) :
    OfOrder t.entry report ∧ report.reduceOnly = false := by
  unfold entryReport at h
  obtain ⟨made, hmade, h⟩ := bind_eq_ok.mp h
  obtain ⟨hof, -, hreduce⟩ := orderReport_ofOrder hmade
  rw [pure_eq_ok] at h
  rw [← h]
  split
  · exact ⟨hof, hreduce⟩
  · exact ⟨hof, hreduce⟩

/-- How a position's reports are laid out: its entry's first, each with an id of its own, and each of
an order of its lists or of one of its legs. -/
structure Laid (t : Taken) (reports : List ReportedOrder) : Prop where
  entryFirst : ∃ entry rest, reports = entry :: rest ∧ OfOrder t.entry entry ∧ entry.reduceOnly = false
  nodup : (reports.map ReportedOrder.venueOrderId).Nodup
  each : ∀ report ∈ reports, (∃ order ∈ t.orders, OfOrder order report) ∨ ∃ level, t.OfLeg level report

/-- A position's reports are laid in order, the entry's first. -/
theorem reports_laid {orders : List ProtoOAOrder} (hreads : t.Reads orders)
    (hnodup : (orders.map ProtoOAOrder.orderId).Nodup) {venue : Option ProtoOAPosition}
    {live : Option ProtoOAOrder} {closes : Closes} {inWindow : Finset String} {held : HeldOrders}
    (hheld : HeldOnce held) {claimed : Finset String}
    {made : List ReportedOrder × List Notice × Finset String}
    (h : t.reports venue live closes inWindow held claimed = .ok made) : t.Laid made.1 := by
  obtain ⟨entry, raised, closing, found, foreign, legs, hentry, hraised, hclosing, hfound, hforeign,
    hlegs, rfl⟩ := reports_eq_ok.mp h
  obtain ⟨hentryOf, hreduce⟩ := entryReport_ofOrder hentry
  have hraises : List.Forall₂ OfOrder t.raises raised :=
    (mapM_eq_ok.mp hraised).imp fun _ _ hmade => (orderReport_ofOrder hmade).1
  have hcloses : List.Forall₂ OfOrder t.closingOrders closing.1 := by
    refine (forall₂_of_accumulate hclosing).imp fun order report hmade => ?_
    obtain ⟨before, after, hmade⟩ := hmade
    unfold closeReport at hmade
    obtain ⟨report', hreport, hmade⟩ := bind_eq_ok.mp hmade
    cases hmade
    exact (orderReport_ofOrder hreport).1
  obtain ⟨protective, hsub, hexternal⟩ := triggers_ofOrder hfound
  obtain ⟨hids, hlisted⟩ := hreads.nodup hnodup hsub
  have hall : List.Forall₂ OfOrder (t.entry :: t.raises ++ (t.closingOrders ++ protective))
      (entry :: raised ++ (closing.1 ++ found.external)) :=
    List.rel_append (.cons hentryOf hraises) (List.rel_append hcloses hexternal)
  have horderIds := nodup_ids_of_orders hall hids
  have hofOrder : ∀ report ∈ entry :: raised ++ (closing.1 ++ found.external),
      ∃ order ∈ t.orders, OfOrder order report := by
    intro report hreport
    obtain ⟨order, horder, hof⟩ := exists_of_forall₂ hall report hreport
    exact ⟨order, hlisted order horder, hof⟩
  have hassembled {foreign legs : List ReportedOrder}
      (hlegIds : ((foreign ++ legs).map ReportedOrder.venueOrderId).Nodup)
      (hofLeg : ∀ report ∈ foreign ++ legs, ∃ level, t.OfLeg level report) :
      t.Laid (entry :: raised ++ closing.1 ++ foreign ++ legs ++ found.external) := by
    have hperm : (entry :: raised ++ closing.1 ++ foreign ++ legs ++ found.external).Perm
        ((entry :: raised ++ (closing.1 ++ found.external)) ++ (foreign ++ legs)) := by
      have hswap : ((foreign ++ legs) ++ found.external).Perm (found.external ++ (foreign ++ legs)) :=
        List.perm_append_comm
      simpa [List.append_assoc] using hswap.append_left (entry :: raised ++ closing.1)
    refine ⟨⟨entry, _, rfl, hentryOf, hreduce⟩, ?_, fun report hreport => ?_⟩
    · rw [(hperm.map ReportedOrder.venueOrderId).nodup_iff, List.map_append]
      refine List.nodup_append.mpr ⟨horderIds, hlegIds, fun id hid id' hid' heq => ?_⟩
      obtain ⟨report, hreport, rfl⟩ := List.mem_map.mp hid
      obtain ⟨leg, hleg, rfl⟩ := List.mem_map.mp hid'
      obtain ⟨order, -, hof⟩ := hofOrder report hreport
      obtain ⟨level, ⟨generation, hlegId⟩, -⟩ := hofLeg leg hleg
      exact legVenueOrderId_ne_toString _ _ _ _ (hlegId.symm.trans (heq.symm.trans hof.1))
    · rcases List.mem_append.mp (hperm.mem_iff.mp hreport) with horder | hleg
      · exact .inl (hofOrder report horder)
      · exact .inr (hofLeg report hleg)
  obtain ⟨hlegIds, hofLeg⟩ := nodeLegs_ofLeg hlegs
  split at hforeign
  · rename_i hlabel
    -- A foreign position's entry names no leg.
    have hnone : legs = [] := by
      have hitems : t.legIds.1.items = [] := by
        have hnamed : parseLabel t.entry.tradeData.label = none := by simpa using hlabel
        unfold legIds
        rw [hnamed]
        rfl
      rw [hitems] at hlegs
      cases hlegs
      rfl
    obtain ⟨hforeignIds, hofForeign⟩ := foreignLegs_ofLeg hheld hforeign
    subst hnone
    exact hassembled (by rwa [List.append_nil]) (by rwa [List.append_nil])
  · cases hforeign
    exact hassembled hlegIds hofLeg

end Taken

/-! ## The places of a position's reports -/

/-- The time a report goes by: that of its first fill, or its own. -/
def placeMs (report : ReportedOrder) : ℤ := (ofLex (sortKey report)).1

/-- A position's entry sorts strictly before its other reports, by its own time. -/
theorem lt_of_mem_keyedReports {entry : ReportedOrder} {rest : List ReportedOrder}
    (hreduce : entry.reduceOnly = false) {item : SortKey × ReportedOrder}
    (h : item ∈ keyedReports (entry :: rest)) :
    (item.2 = entry ∧ (ofLex item.1).1 = placeMs entry) ∨
      ∀ first ∈ keyedReports (entry :: rest), first.2.venueOrderId = entry.venueOrderId →
        ((entry :: rest).map ReportedOrder.venueOrderId).Nodup → first.1 < item.1 := by
  have hfirst : max ((entry.fills.head?.map Fill.tsMs).getD entry.tsMs) (placeMs entry) =
      placeMs entry := max_eq_right (le_max_left _ _)
  rw [keyedReports] at h ⊢
  rcases List.mem_cons.mp h with rfl | hrest
  · exact .inl ⟨rfl, hfirst⟩
  right
  intro first hmem hid hnodup
  obtain ⟨report, hreport, rfl⟩ := List.mem_map.mp hrest
  rcases List.mem_cons.mp hmem with rfl | hother
  · refine Prod.Lex.toLex_lt_toLex.mpr ?_
    have hle : placeMs entry ≤
        max ((report.fills.head?.map Fill.tsMs).getD report.tsMs) (placeMs entry) := le_max_right _ _
    rcases hle.lt_or_eq with hlt | heq
    · exact .inl (hfirst.trans_lt hlt)
    · refine .inr ⟨hfirst.trans heq, Prod.Lex.toLex_lt_toLex.mpr ?_⟩
      dsimp only
      rw [hreduce]
      cases report.reduceOnly with
      | true => exact .inl Bool.false_lt_true
      | false => exact .inr ⟨rfl, Prod.Lex.toLex_lt_toLex.mpr (.inl Bool.false_lt_true)⟩
  · obtain ⟨report', hreport', rfl⟩ := List.mem_map.mp hother
    rw [List.map_cons, List.nodup_cons] at hnodup
    exact absurd (List.mem_map.mpr ⟨report', hreport', hid⟩) hnodup.1

/-! ## The whole pass -/

namespace Inputs

variable (inputs : Inputs)

/-- An order in a position's own lists names no other position. -/
def OwnLists : Prop :=
  ∀ positionId found order, inputs.histories.get? positionId = some found → order ∈ found.orders →
    ∀ named, order.positionId? = some named → named = positionId

/-- The ids a position's reports can have: its orders' own, and its legs'. -/
def HasId (positionId : ℤ) (id : String) : Prop :=
  ∃ found, inputs.histories.get? positionId = some found ∧ ∃ order ∈ found.orders,
    id = toString order.orderId ∨ ∃ level generation, id = legVenueOrderId order.orderId level generation

/-- A report of one of the snapshot's orders as it stands, with no fill. -/
def Pending (report : ReportedOrder) : Prop :=
  report.fills = [] ∧ ∃ order ∈ inputs.snapshot.order, OfOrder order report

/-- No report that names a position comes before the report of the position's entry, unless it is
`excused` from it. -/
def EntriesFirst (excused : ReportedOrder → ReportedOrder → Prop) (orders : List ReportedOrder) :
    Prop :=
  orders.Pairwise fun earlier later => ∀ positionId found entry,
    inputs.histories.get? positionId = some found → entryOf found.orders = some entry →
    later.venueOrderId = toString entry.orderId →
    earlier.venuePositionId = some (toString positionId) → excused earlier later

end Inputs

variable {inputs : Inputs}

/-- No id is of two positions. -/
theorem eq_of_hasId (hlists : inputs.ListsOnce) {positionId positionId' : ℤ} {id : String}
    (h : inputs.HasId positionId id) (h' : inputs.HasId positionId' id) : positionId = positionId' := by
  obtain ⟨found, hfound, order, horder, hid⟩ := h
  obtain ⟨found', hfound', order', horder', hid'⟩ := h'
  refine hlists.histories _ _ _ _ order order' hfound hfound' horder horder' ?_
  rcases hid with hid | ⟨level, generation, hid⟩
  · rcases hid' with hid' | ⟨level', generation', hid'⟩
    · exact toString_injective (hid.symm.trans hid')
    · exact absurd (hid'.symm.trans hid) (legVenueOrderId_ne_toString _ _ _ _)
  · rcases hid' with hid' | ⟨level', generation', hid'⟩
    · exact absurd (hid.symm.trans hid') (legVenueOrderId_ne_toString _ _ _ _)
    · exact (legVenueOrderId_injective (hid.symm.trans hid')).1

/-- The reports of one position, laid out by its own lists. -/
structure Block (inputs : Inputs) (positionId : ℤ) (found : PositionHistory) (t : Taken)
    (reports : List ReportedOrder) : Prop where
  lists : inputs.histories.get? positionId = some found
  reads : t.Reads found.orders
  position : t.positionId = positionId
  laid : Taken.Laid t reports

namespace Block

variable {positionId : ℤ} {found : PositionHistory} {t : Taken} {reports : List ReportedOrder}

/-- A report's id is one of its position's. -/
theorem hasId (h : Block inputs positionId found t reports) {report : ReportedOrder}
    (hreport : report ∈ reports) : inputs.HasId positionId report.venueOrderId := by
  rcases h.laid.each report hreport with ⟨order, horder, hof⟩ | ⟨level, ⟨generation, hleg⟩, -⟩
  · exact ⟨found, h.lists, order, h.reads.perm.mem_iff.mp horder, .inl hof.1⟩
  · exact ⟨found, h.lists, t.entry, mem_of_entryOf h.reads.entry, .inr ⟨level, generation, hleg⟩⟩

/-- Its reports name no other position. -/
theorem names (h : Block inputs positionId found t reports) (hown : inputs.OwnLists)
    {report : ReportedOrder} (hreport : report ∈ reports) {named : ℤ}
    (hnames : report.venuePositionId = some (toString named)) : named = positionId := by
  rcases h.laid.each report hreport with ⟨order, horder, hof⟩ | ⟨level, -, hleg⟩
  · rw [hof.2] at hnames
    obtain ⟨stated, hstated, heq⟩ := Option.map_eq_some_iff.mp hnames
    rw [← toString_injective heq]
    exact hown positionId found order h.lists (h.reads.perm.mem_iff.mp horder) stated hstated
  · rw [hleg] at hnames
    rw [← h.position]
    exact (toString_injective (Option.some.inj hnames)).symm

/-- Its entry's report comes strictly before its others, by its own time. -/
theorem places (h : Block inputs positionId found t reports) {entry : ProtoOAOrder}
    (hentry : entryOf found.orders = some entry) :
    (∃ first ∈ keyedReports reports, first.2.venueOrderId = toString entry.orderId) ∧
    ∀ first ∈ keyedReports reports, first.2.venueOrderId = toString entry.orderId →
      (ofLex first.1).1 = placeMs first.2 ∧
      ∀ other ∈ keyedReports reports, other.2.venueOrderId ≠ toString entry.orderId →
        first.1 < other.1 := by
  obtain rfl : t.entry = entry := Option.some.inj (h.reads.entry.symm.trans hentry)
  obtain ⟨report, rest, rfl, hof, hreduce⟩ := h.laid.entryFirst
  have hfirst : ∀ first ∈ keyedReports (report :: rest), first.2.venueOrderId =
      toString t.entry.orderId → ∀ other ∈ keyedReports (report :: rest),
        (other.2 = report ∧ (ofLex other.1).1 = placeMs report) ∨ first.1 < other.1 := by
    intro first hmem hid other hother
    refine (lt_of_mem_keyedReports hreduce hother).imp_right fun hlater => ?_
    exact hlater first hmem (hid.trans hof.1.symm) h.laid.nodup
  refine ⟨⟨_, List.mem_cons_self, hof.1⟩, fun first hmem hid => ⟨?_, fun other hother hne => ?_⟩⟩
  · rcases hfirst first hmem hid first hmem with ⟨heq, hplace⟩ | hlt
    · rw [heq]
      exact hplace
    · exact absurd hlt (lt_irrefl _)
  · rcases hfirst first hmem hid other hother with ⟨heq, -⟩ | hlt
    · exact absurd (heq ▸ hof.1) hne
    · exact hlt

end Block

/-- A report with its key is one of the reports. -/
theorem mem_of_mem_keyedReports {reports : List ReportedOrder} {item : SortKey × ReportedOrder}
    (h : item ∈ keyedReports reports) : item.2 ∈ reports := by
  rw [← map_keyedReports reports]
  exact List.mem_map_of_mem h

/-- What one position of the first loop reports is nothing, or is laid out by its own lists. -/
theorem positionOutcome_block (hlists : inputs.ListsOnce) (hheld : HeldOnce inputs.held)
    {claimed claimed' : Finset String} {positionId : ℤ} {made : Outcome}
    (h : positionOutcome inputs claimed positionId = .ok (made, claimed')) :
    made.keyed = [] ∨ ∃ found t reports, Block inputs positionId found t reports ∧
      made.keyed = keyedReports reports := by
  rcases positionOutcome_cases h with
    ⟨hkeyed, -⟩ | ⟨found, entry, digits, t, venue, made, htakes, ht, hreports, hkeyed, -⟩
  · exact .inl hkeyed
  · obtain ⟨hreads, hposition⟩ := take_reads htakes.opened ht
    have hlaid := Taken.reports_laid hreads (hlists.history positionId found htakes.lists) hheld hreports
    exact .inr ⟨found, t, made.1, ⟨htakes.lists, hreads, hposition, hlaid⟩, hkeyed⟩

/-- The ids of what one position reports are its own, and distinct. -/
theorem positionOutcome_ids (hlists : inputs.ListsOnce) (hheld : HeldOnce inputs.held)
    {claimed claimed' : Finset String} {positionId : ℤ} {made : Outcome}
    (h : positionOutcome inputs claimed positionId = .ok (made, claimed')) :
    (made.keyed.map fun item => item.2.venueOrderId).Nodup ∧
      ∀ id ∈ made.keyed.map fun item => item.2.venueOrderId, inputs.HasId positionId id := by
  rcases positionOutcome_block hlists hheld h with hkeyed | ⟨found, t, reports, hblock, hkeyed⟩
  · rw [hkeyed]
    exact ⟨List.nodup_nil, fun id hid => absurd hid List.not_mem_nil⟩
  rw [hkeyed]
  refine ⟨?_, fun id hid => ?_⟩
  · have hnodup := hblock.laid.nodup
    rwa [← map_keyedReports reports, List.map_map] at hnodup
  · obtain ⟨item, hitem, rfl⟩ := List.mem_map.mp hid
    exact hblock.hasId (mem_of_mem_keyedReports hitem)

/-- An order of the second loop is reported as it stands, or not at all. -/
theorem listedOrder_cases {reported : List String} {claimed claimed' : Finset String}
    {order : ProtoOAOrder} {made : List (SortKey × ReportedOrder)}
    (h : listedOrder inputs reported claimed order = .ok (made, claimed')) :
    made = [] ∨ ∃ report, made = [(sortKey report, report)] ∧ OfOrder order report ∧
      report.fills = [] ∧ toString order.orderId ∉ reported := by
  unfold listedOrder at h
  split at h
  · exact .inl (Prod.mk.inj (Except.ok.inj h)).1.symm
  rename_i hnew
  rw [Bool.or_eq_true, not_or, decide_eq_true_eq, decide_eq_true_eq] at hnew
  split at h
  · exact .inl (Prod.mk.inj (Except.ok.inj h)).1.symm
  · dsimp only at h
    obtain ⟨report, hreport, h⟩ := bind_eq_ok.mp h
    obtain ⟨hof, hfills, -⟩ := orderReport_ofOrder hreport
    cases h
    exact .inr ⟨report, rfl, hof, hfills, hnew.2⟩

/-- Keys each of which has one owner are distinct if the owners share none. -/
theorem nodup_flatMap_of_owned {α β κ : Type} (Owns : α → κ → Prop) {keys : β → List κ} {xs : List α}
    {ys : List β}
    (h : List.Forall₂ (fun x y => (keys y).Nodup ∧ ∀ k ∈ keys y, Owns x k) xs ys)
    (hxs : xs.Pairwise fun x x' => ∀ k, Owns x k → ¬ Owns x' k) : (ys.flatMap keys).Nodup := by
  induction h with
  | nil => exact List.nodup_nil
  | cons hfirst hrest ih =>
    obtain ⟨hdisjoint, hothers⟩ := List.pairwise_cons.mp hxs
    rw [List.flatMap_cons]
    refine List.nodup_append.mpr ⟨hfirst.1, ih hothers, fun k hk k' hk' heq => ?_⟩
    obtain ⟨y, hy, hk'⟩ := List.mem_flatMap.mp hk'
    obtain ⟨x, hx, howned⟩ := exists_of_forall₂ hrest y hy
    exact hdisjoint x hx k (hfirst.2 k hk) (heq ▸ howned.2 k' hk')

section Pass

variable {claimed middle after : Finset String} {reported : List String} {taken : List Outcome}
  {listed : List (List (SortKey × ReportedOrder))}

/-- What the second loop reports stands as the snapshot has it, and no position reported it. -/
theorem listed_pending
    (hlisted : accumulate (listedOrder inputs reported) claimed inputs.snapshot.order = .ok (listed, after)) :
    ∀ item ∈ listed.flatten, item.1 = sortKey item.2 ∧ inputs.Pending item.2 ∧
      item.2.venueOrderId ∉ reported := by
  intro item hitem
  obtain ⟨made, hmade, hitem⟩ := List.mem_flatten.mp hitem
  obtain ⟨order, horder, before, after, hreport⟩ :=
    exists_of_forall₂ (forall₂_of_accumulate hlisted) made hmade
  rcases listedOrder_cases hreport with rfl | ⟨report, rfl, hof, hfills, hnew⟩
  · cases hitem
  · rw [List.mem_singleton.mp hitem]
    exact ⟨rfl, ⟨hfills, order, horder, hof⟩, by rwa [hof.1]⟩

/-- What the second loop reports has ids of its own. -/
theorem listed_nodup (hnodup : (inputs.snapshot.order.map ProtoOAOrder.orderId).Nodup)
    (hlisted : accumulate (listedOrder inputs reported) claimed inputs.snapshot.order = .ok (listed, after)) :
    (listed.flatten.map fun item => item.2.venueOrderId).Nodup := by
  rw [← List.flatMap_id, List.map_flatMap]
  refine nodup_flatMap_of_owned (fun order id => id = toString order.orderId)
    ((forall₂_of_accumulate hlisted).imp fun order made hmade => ?_)
    ((List.pairwise_map.mp hnodup).imp fun hne id hid hid' => hne (toString_injective (hid.symm.trans hid')))
  obtain ⟨before, after, hmade⟩ := hmade
  rcases listedOrder_cases hmade with rfl | ⟨report, rfl, hof, -⟩
  · exact ⟨List.nodup_nil, fun id hid => absurd hid List.not_mem_nil⟩
  · exact ⟨List.nodup_singleton _, fun id hid => (List.mem_singleton.mp hid).trans hof.1⟩

/-- No two reports of the two loops share an id. -/
theorem ids_nodup (hlists : inputs.ListsOnce) (hheld : HeldOnce inputs.held)
    (htaken : accumulate (positionOutcome inputs) claimed (sortOn id inputs.symbols.keys) =
      .ok (taken, middle))
    (hlisted : accumulate
      (listedOrder inputs ((taken.flatMap Outcome.keyed).map fun item => item.2.venueOrderId)) middle
      inputs.snapshot.order = .ok (listed, after)) :
    ((taken.flatMap Outcome.keyed ++ listed.flatten).map fun item => item.2.venueOrderId).Nodup := by
  have hkeyedIds : ((taken.flatMap Outcome.keyed).map fun item => item.2.venueOrderId).Nodup := by
    have hids : (sortOn id inputs.symbols.keys).Nodup :=
      (sortOn_perm _ _).nodup_iff.mpr inputs.symbols.nodup
    rw [List.map_flatMap]
    refine nodup_flatMap_of_owned inputs.HasId
      ((forall₂_of_accumulate htaken).imp fun positionId made hmade => ?_)
      (hids.imp fun hne id hid hid' => hne (eq_of_hasId hlists hid hid'))
    obtain ⟨before, after, hmade⟩ := hmade
    exact positionOutcome_ids hlists hheld hmade
  rw [List.map_append]
  refine List.nodup_append.mpr ⟨hkeyedIds, listed_nodup hlists.snapshot hlisted, fun id hid id' hid' heq => ?_⟩
  obtain ⟨item, hitem, rfl⟩ := List.mem_map.mp hid'
  exact (listed_pending hlisted item hitem).2.2 (heq ▸ hid)

end Pass

/-- No two reports of a pass share an id. -/
theorem orders_nodup (hlists : inputs.ListsOnce) (hheld : HeldOnce inputs.held) {result : Reconciliation}
    (h : reconcile inputs = .ok result) : (result.orders.map ReportedOrder.venueOrderId).Nodup := by
  unfold reconcile at h
  dsimp only at h
  obtain ⟨taken, htaken, h⟩ := bind_eq_ok.mp h
  obtain ⟨listed, hlisted, h⟩ := bind_eq_ok.mp h
  cases h
  have hperm := sortOn_perm Prod.fst (taken.1.flatMap Outcome.keyed ++ listed.1.flatten)
  rw [List.map_map]
  exact (hperm.map _).nodup_iff.mpr (ids_nodup hlists hheld htaken hlisted)

/-- Where each order is listed once, each position's lists name it alone, and Nautilus holds each leg
once, no two reports of a pass share an id, and none that names a position comes before the report of
its entry, but one of an order with no fill that the snapshot dates no later than the entry. -/
theorem reports_unique_ordered (inputs : Inputs) (hlists : inputs.ListsOnce)
    (hown : inputs.OwnLists) (hheld : HeldOnce inputs.held) (result : Reconciliation)
    (h : reconcile inputs = .ok result) :
    (result.orders.map ReportedOrder.venueOrderId).Nodup ∧
      inputs.EntriesFirst (fun earlier later =>
        inputs.Pending earlier ∧ placeMs earlier ≤ placeMs later) result.orders := by
  unfold reconcile at h
  dsimp only at h
  obtain ⟨taken, htaken, h⟩ := bind_eq_ok.mp h
  obtain ⟨listed, hlisted, h⟩ := bind_eq_ok.mp h
  cases h
  have houtcomes := forall₂_of_accumulate htaken
  have hpending := listed_pending hlisted
  have hallIds := ids_nodup hlists hheld htaken hlisted
  -- Of which position an item is, if the first loop reported it.
  have hposition : ∀ item ∈ taken.1.flatMap Outcome.keyed, ∃ positionId found t reports,
      Block inputs positionId found t reports ∧ item ∈ keyedReports reports ∧
      ∀ other ∈ keyedReports reports, other ∈ taken.1.flatMap Outcome.keyed := by
    intro item hitem
    obtain ⟨made, hmade, hitem⟩ := List.mem_flatMap.mp hitem
    obtain ⟨positionId, -, before, after, houtcome⟩ := exists_of_forall₂ houtcomes made hmade
    rcases positionOutcome_block hlists hheld houtcome with hkeyed | ⟨found, t, reports, hblock, hkeyed⟩
    · rw [hkeyed] at hitem
      cases hitem
    · exact ⟨positionId, found, t, reports, hblock, hkeyed ▸ hitem, fun other hother =>
        List.mem_flatMap.mpr ⟨made, hmade, hkeyed ▸ hother⟩⟩
  have hperm := sortOn_perm Prod.fst (taken.1.flatMap Outcome.keyed ++ listed.1.flatten)
  have hsorted := sortOn_pairwise Prod.fst (taken.1.flatMap Outcome.keyed ++ listed.1.flatten)
  have hids : ((sortOn Prod.fst (taken.1.flatMap Outcome.keyed ++ listed.1.flatten)).map
      fun item => item.2.venueOrderId).Nodup := (hperm.map _).nodup_iff.mpr hallIds
  refine ⟨by rwa [List.map_map], ?_⟩
  unfold Inputs.EntriesFirst
  rw [List.pairwise_map]
  refine (hsorted.and (List.pairwise_map.mp hids)).imp_of_mem fun {earlier later} hearlier hlater hboth => ?_
  intro positionId found entry hfound hentry hid hnames
  obtain ⟨hle, hne⟩ := hboth
  have hlater := hperm.mem_iff.mp hlater
  rcases List.mem_append.mp (hperm.mem_iff.mp hearlier) with hfirst | hsecond
  · -- Its position has the entry's report too, which is the later one and sorts before it.
    exfalso
    obtain ⟨positionId', found', t, reports, hblock, hitem, hall⟩ := hposition earlier hfirst
    obtain rfl := hblock.names hown (mem_of_mem_keyedReports hitem) hnames
    obtain rfl := Option.some.inj (hfound.symm.trans hblock.lists)
    obtain ⟨⟨first, hmem, hfirstId⟩, hplaces⟩ := hblock.places hentry
    have hkeyed := hall first hmem
    obtain rfl : first = later := List.inj_on_of_nodup_map hallIds (List.mem_append_left _ hkeyed)
      hlater (hfirstId.trans hid.symm)
    exact absurd hle ((hplaces first hmem hid).2 earlier hitem (hid ▸ hne)).not_ge
  · obtain ⟨hkey, hpend, -⟩ := hpending earlier hsecond
    refine ⟨hpend, ?_⟩
    have hms := Prod.Lex.monotone_fst _ _ hle
    rw [hkey] at hms
    refine hms.trans ?_
    rcases List.mem_append.mp hlater with hlast | hlast
    · obtain ⟨positionId', found', t, reports, hblock, hitem, -⟩ := hposition later hlast
      have hmine : inputs.HasId positionId later.2.venueOrderId :=
        ⟨found, hfound, entry, mem_of_entryOf hentry, .inl hid⟩
      obtain rfl := eq_of_hasId hlists hmine (hblock.hasId (mem_of_mem_keyedReports hitem))
      obtain rfl := Option.some.inj (hfound.symm.trans hblock.lists)
      exact (((hblock.places hentry).2 later hitem hid).1).le
    · rw [(hpending later hlast).1]
      exact le_rfl

/-- A pending order that names the position, its last update left out. -/
def undated : ProtoOAOrder where
  orderId := 20
  tradeData := { symbolId := 1, volume := 1000, tradeSide := .buy }
  orderType := .limit
  limitPrice? := some (.finite 90)
  positionId? := some 10

/-- The position stands open by its own lists, and the snapshot has the pending order beside it. -/
def undatedInputs : Inputs where
  snapshot := { position := [Sample.position 150 .open], order := [Sample.entry, undated] }
  histories := Dict.empty.set 10 { orders := [Sample.entry], deals := [Sample.deal 1 Sample.entry 150] }
  precision := fun _ => some 2
  moneyDigits := some 2

/-- The undated orders are listed once, under their own positions. -/
theorem undated_lists : undatedInputs.ListsOnce ∧ undatedInputs.OwnLists ∧
    HeldOnce undatedInputs.held := by
  have hhistory : ∀ positionId found, undatedInputs.histories.get? positionId = some found →
      positionId = 10 ∧ found.orders = [Sample.entry] := by
    intro positionId found hfound
    unfold undatedInputs at hfound
    dsimp only at hfound
    rcases Dict.get?_set_eq_some.mp hfound with ⟨heq, rfl⟩ | ⟨-, hnone⟩
    · exact ⟨heq.symm, rfl⟩
    · cases hnone
  refine ⟨⟨by decide, fun positionId found hfound => ?_, ?_⟩, ?_,
    ⟨fun _ => List.nodup_nil, fun _ _ hin => absurd hin List.not_mem_nil⟩⟩
  · rw [(hhistory positionId found hfound).2]
    exact List.nodup_singleton _
  · intro positionId positionId' found found' order order' hfound hfound' _ _ _
    rw [(hhistory positionId found hfound).1, (hhistory positionId' found' hfound').1]
  · intro positionId found order hfound horder named hnamed
    obtain ⟨rfl, horders⟩ := hhistory positionId found hfound
    rw [horders, List.mem_singleton] at horder
    subst horder
    exact (Option.some.inj hnamed).symm

/-- They are reported in order. -/
theorem undated_ordered : ∃ result, reconcile undatedInputs = .ok result ∧
    (result.orders.map ReportedOrder.venueOrderId).Nodup ∧
      undatedInputs.EntriesFirst (fun earlier later =>
        undatedInputs.Pending earlier ∧ placeMs earlier ≤ placeMs later) result.orders := by
  obtain ⟨result, hresult⟩ := exists_of_isOk
    (by decide +kernel : (reconcile undatedInputs).isOk = true)
  obtain ⟨hlists, hown, hheld⟩ := undated_lists
  exact ⟨result, hresult, reports_unique_ordered undatedInputs hlists hown hheld result hresult⟩

/-- The pending order has no time of its own, so it comes before the entry of the position it names. -/
theorem pending_before_entry : ¬ ∀ inputs : Inputs, inputs.ListsOnce → inputs.OwnLists →
    HeldOnce inputs.held → ∀ result, reconcile inputs = .ok result →
      (result.orders.map ReportedOrder.venueOrderId).Nodup ∧
        inputs.EntriesFirst (fun _ _ => False) result.orders := by
  intro hall
  obtain ⟨result, hresult⟩ := exists_of_isOk
    (by decide +kernel : (reconcile undatedInputs).isOk = true)
  have hreported : (reconcile undatedInputs).map (fun result => result.orders.map fun report =>
      (report.venueOrderId, report.venuePositionId)) =
      .ok [("20", some "10"), ("1", some "10")] := by decide +kernel
  rw [hresult] at hreported
  obtain ⟨pending, rest, horders, hpending, hrest⟩ :=
    List.map_eq_cons_iff.mp (Except.ok.inj hreported)
  obtain ⟨entry, last, rfl, hentry, -⟩ := List.map_eq_cons_iff.mp hrest
  obtain ⟨hlists, hown, hheld⟩ := undated_lists
  have hfirst := (hall undatedInputs hlists hown hheld result hresult).2
  rw [horders] at hfirst
  exact (List.pairwise_cons.mp hfirst).1 entry List.mem_cons_self 10 _ Sample.entry
    (Dict.get?_set_self _ _ _) (by decide +kernel) (congrArg Prod.fst hentry)
    (congrArg Prod.snd hpending)

end Reconciliation

end NautilusCtrader
