import NautilusCtrader.Reconciliation.Reconcile
import NautilusCtrader.VenueBook.MatchedCloses

/-!
# One close id, one broker order

A pass gives a closing order the close it is matched to, or claims one for it that nobody has. `Given`
says what some pairs of a closing order and its close took, and `Named` how the reports carry them.
-/

namespace NautilusCtrader

open Common VenueBook OrderRecord

namespace Reconciliation

/-! ## Closes given out -/

/-- The closes given to closing orders while the claimed ones went from `before` to `after`. -/
structure Given (known : Dict ℤ String) (before after : Finset String) (named : List (ℤ × String)) :
    Prop where
  mono : before ⊆ after
  claimed : ∀ pair ∈ named, known.get? pair.1 = some pair.2 ∨ pair.2 ∉ before ∧ pair.2 ∈ after
  nodup : (named.map Prod.snd).Nodup

/-- No close is matched to two orders. -/
def OneOrder (known : Dict ℤ String) : Prop :=
  ∀ orderId orderId' closeId, known.get? orderId = some closeId →
    known.get? orderId' = some closeId → orderId = orderId'

variable {known : Dict ℤ String} {before middle after : Finset String}
  {named named' : List (ℤ × String)}

/-- Closes are given to some orders, and then to others. -/
theorem Given.append (hone : OneOrder known) (hknown : ∀ closeId ∈ known.values, closeId ∈ before)
    (h : Given known before middle named) (h' : Given known middle after named')
    (horders : ∀ pair ∈ named, ∀ pair' ∈ named', pair.1 ≠ pair'.1) :
    Given known before after (named ++ named') where
  mono := h.mono.trans h'.mono
  claimed pair hpair := by
    rcases List.mem_append.mp hpair with hfirst | hsecond
    · exact (h.claimed pair hfirst).imp_right fun hnew => ⟨hnew.1, h'.mono hnew.2⟩
    · exact (h'.claimed pair hsecond).imp_right fun hnew => ⟨fun hold => hnew.1 (h.mono hold), hnew.2⟩
  nodup := by
    have hvalue {orderId : ℤ} {closeId : String} (hget : known.get? orderId = some closeId) :
        closeId ∈ before := hknown closeId (Dict.mem_values.mpr ⟨orderId, hget⟩)
    rw [List.map_append]
    refine List.nodup_append.mpr ⟨h.nodup, h'.nodup, fun closeId hfirst closeId' hsecond heq => ?_⟩
    obtain ⟨pair, hpair, rfl⟩ := List.mem_map.mp hfirst
    obtain ⟨pair', hpair', rfl⟩ := List.mem_map.mp hsecond
    rcases h.claimed pair hpair with hget | ⟨hnew, hclaimed⟩
    · rcases h'.claimed pair' hpair' with hget' | ⟨hnew', -⟩
      · exact horders pair hpair pair' hpair' (hone _ _ _ hget (heq ▸ hget'))
      · exact hnew' (h.mono (heq ▸ hvalue hget))
    · rcases h'.claimed pair' hpair' with hget' | ⟨hnew', -⟩
      · exact hnew (heq ▸ hvalue hget')
      · exact hnew' (heq ▸ hclaimed)

/-- No close is given. -/
theorem Given.nil (known : Dict ℤ String) (claimed : Finset String) : Given known claimed claimed [] :=
  ⟨Finset.Subset.refl _, nofun, List.nodup_nil⟩

/-- What `_close_id` gives an order. -/
theorem given_closeId {closes : Closes} {claimed : Finset String} (order : ProtoOAOrder) (ask : Bool) :
    Given closes.known claimed (closeId closes claimed order ask).2
      ((closeId closes claimed order ask).1.toList.map fun found => (order.orderId, found)) := by
  unfold closeId
  split
  · rename_i found hknown
    refine ⟨Finset.Subset.refl _, fun pair hpair => .inl ?_, List.nodup_singleton _⟩
    rw [List.mem_singleton.mp hpair]
    exact hknown
  · split
    · split
      · rename_i candidate _
        split
        · exact .nil _ _
        · rename_i hunclaimed
          refine ⟨Finset.subset_insert _ _, fun pair hpair => .inr ?_, List.nodup_singleton _⟩
          rw [List.mem_singleton.mp hpair]
          exact ⟨hunclaimed, Finset.mem_insert_self _ _⟩
      · exact .nil _ _
    · exact .nil _ _

/-! ## Reports that carry them -/

/-- The reports under an id of Nautilus. -/
def carrying (id : String) (reports : List ReportedOrder) : ℕ :=
  reports.countP fun report => report.clientOrderId = some id

/-- The reports that carry an id add up. -/
theorem carrying_append (id : String) (reports reports' : List ReportedOrder) :
    carrying id (reports ++ reports') = carrying id reports + carrying id reports' :=
  List.countP_append

/-- An id that no report has is carried by none. -/
theorem carrying_eq_zero {id : String} {reports : List ReportedOrder}
    (h : ∀ report ∈ reports, report.clientOrderId ≠ some id) : carrying id reports = 0 :=
  List.countP_eq_zero.mpr fun report hreport => by simpa using h report hreport

/-- The reports carry the closes given to the orders of `within`, and other ids only of records. -/
structure Named (known : Dict ℤ String) (recorded : String → Prop) (before after : Finset String)
    (within : ℤ → Prop) (reports : List ReportedOrder) (named : List (ℤ × String)) : Prop where
  given : Given known before after named
  within : ∀ pair ∈ named, within pair.1
  reported : ∀ pair ∈ named, toString pair.1 ∈ reports.map ReportedOrder.venueOrderId
  carried : ∀ id, ¬ recorded id → carrying id reports ≤ (named.map Prod.snd).count id

variable {recorded : String → Prop} {within within' : ℤ → Prop}
  {reports reports' : List ReportedOrder}

/-- Reports of some orders, and then of others. -/
theorem Named.append (hone : OneOrder known) (hknown : ∀ closeId ∈ known.values, closeId ∈ before)
    (h : Named known recorded before middle within reports named)
    (h' : Named known recorded middle after within' reports' named')
    (hdisjoint : ∀ orderId, within orderId → ¬ within' orderId) :
    Named known recorded before after (fun orderId => within orderId ∨ within' orderId)
      (reports ++ reports') (named ++ named') where
  given := h.given.append hone hknown h'.given fun pair hpair pair' hpair' heq =>
    hdisjoint pair.1 (h.within pair hpair) (heq ▸ h'.within pair' hpair')
  within pair hpair :=
    (List.mem_append.mp hpair).imp (h.within pair) (h'.within pair)
  reported pair hpair := by
    rw [List.map_append, List.mem_append]
    exact (List.mem_append.mp hpair).imp (h.reported pair) (h'.reported pair)
  carried id hid := by
    have hfirst := h.carried id hid
    have hsecond := h'.carried id hid
    rw [carrying_append, List.map_append, List.count_append]
    omega

/-- Reports under no id but those of records. -/
theorem Named.unnamed (claimed : Finset String) (within : ℤ → Prop)
    (h : ∀ report ∈ reports, ∀ id, report.clientOrderId = some id → recorded id) :
    Named known recorded claimed claimed within reports [] where
  given := .nil known claimed
  within := nofun
  reported := nofun
  carried id hid := by
    have hnone : carrying id reports = 0 :=
      carrying_eq_zero fun report hreport hcarries => hid (h report hreport id hcarries)
    omega

/-- The orders may be among more. -/
theorem Named.mono (h : Named known recorded before after within reports named)
    (hwithin : ∀ pair ∈ named, within' pair.1) :
    Named known recorded before after within' reports named :=
  ⟨h.given, hwithin, h.reported, h.carried⟩

/-- The reports in another order. -/
theorem Named.perm (h : Named known recorded before after within reports named)
    (hperm : reports.Perm reports') : Named known recorded before after within reports' named where
  given := h.given
  within := h.within
  reported pair hpair := (hperm.map _).mem_iff.mp (h.reported pair hpair)
  carried id hid := by
    have hcount : carrying id reports' = carrying id reports := hperm.symm.countP_eq _
    rw [hcount]
    exact h.carried id hid

/-- A loop whose elements are given closes for orders of their own. -/
theorem named_accumulate {α β : Type} {f : Finset String → α → Except Failure (β × Finset String)}
    {own : α → ℤ → Prop} {reportsOf : β → List ReportedOrder} (hone : OneOrder known) {xs : List α}
    (hf : ∀ x ∈ xs, ∀ claimed y claimed', f claimed x = .ok (y, claimed') →
      (∀ closeId ∈ known.values, closeId ∈ claimed) →
      ∃ named, Named known recorded claimed claimed' (own x) (reportsOf y) named)
    (hown : xs.Pairwise fun x x' => ∀ orderId, own x orderId → ¬ own x' orderId)
    {ys : List β} (hknown : ∀ closeId ∈ known.values, closeId ∈ before)
    (h : accumulate f before xs = .ok (ys, after)) :
    ∃ named, Named known recorded before after (fun orderId => ∃ x ∈ xs, own x orderId)
      (ys.flatMap reportsOf) named := by
  induction xs generalizing before ys with
  | nil =>
    cases h
    exact ⟨[], .unnamed _ _ fun report hreport => absurd hreport List.not_mem_nil⟩
  | cons x xs ih =>
    obtain ⟨y, claimed, ys', hy, hys, rfl⟩ := accumulate_cons_eq_ok.mp h
    obtain ⟨hfirst, hrest⟩ := List.pairwise_cons.mp hown
    obtain ⟨named, hnamed⟩ := hf x List.mem_cons_self before y claimed hy hknown
    obtain ⟨named', hnamed'⟩ := ih (fun x' hx' => hf x' (List.mem_cons_of_mem x hx')) hrest
      (fun closeId hvalue => hnamed.given.mono (hknown closeId hvalue)) hys
    have happended := hnamed.append hone hknown hnamed' fun orderId hmine hother => by
      obtain ⟨x', hx', hown'⟩ := hother
      exact hfirst x' hx' orderId hmine hown'
    refine ⟨named ++ named', happended.mono fun pair hpair => ?_⟩
    rcases happended.within pair hpair with hmine | ⟨x', hx', hother⟩
    · exact ⟨x, List.mem_cons_self, hmine⟩
    · exact ⟨x', List.mem_cons_of_mem x hx', hother⟩

/-! ## One report -/

/-- An order's report has the client order id it is given, and the order's own id. -/
theorem orderReport_ids {order : ProtoOAOrder} {precision : ℕ} {fills : List Fill}
    {clientOrderId : Option String} {reduceOnly : Bool} {kind : ExternalType} {report : ReportedOrder}
    (h : orderReport order precision fills clientOrderId reduceOnly kind = .ok report) :
    report.clientOrderId = clientOrderId ∧ report.venueOrderId = toString order.orderId := by
  unfold orderReport at h
  obtain ⟨prices, -, h⟩ := bind_eq_ok.mp h
  obtain ⟨average, -, h⟩ := bind_eq_ok.mp h
  cases h
  exact ⟨rfl, rfl⟩

/-- The report of a closing order carries the close it is given. -/
theorem named_report {closes : Closes} {claimed : Finset String} (order : ProtoOAOrder) (ask : Bool)
    {report : ReportedOrder} {within : ℤ → Prop} (hwithin : within order.orderId)
    (hclient : report.clientOrderId = (closeId closes claimed order ask).1)
    (hvenue : report.venueOrderId = toString order.orderId) :
    Named closes.known recorded claimed (closeId closes claimed order ask).2 within [report]
      ((closeId closes claimed order ask).1.toList.map fun found => (order.orderId, found)) := by
  have hgiven : Given closes.known claimed (closeId closes claimed order ask).2
      ((closeId closes claimed order ask).1.toList.map fun found => (order.orderId, found)) :=
    given_closeId order ask
  generalize (closeId closes claimed order ask).1 = close at hclient hgiven ⊢
  refine ⟨hgiven, fun pair hpair => ?_, fun pair hpair => ?_, fun id _ => ?_⟩
  · obtain ⟨found, -, rfl⟩ := List.mem_map.mp hpair
    exact hwithin
  · obtain ⟨found, -, rfl⟩ := List.mem_map.mp hpair
    exact List.mem_singleton.mpr hvenue.symm
  · cases close with
    | none => exact (carrying_eq_zero (by simp [hclient])).le
    | some found => simp [carrying, hclient, List.countP_cons, List.count_cons]

namespace Taken

variable {t : Taken}

/-- A leg's report has the leg's id. -/
theorem leg_clientOrderId {level : Level} {legId entryId : Option String} {linked : List String}
    {fills : List Fill} {venue : Option ProtoOAPosition} {live : Option ProtoOAOrder}
    {venueOrderId : String} {found : Option ProtoOAOrder × Levels} {report : ReportedOrder}
    (h : t.leg level legId entryId linked fills venue live venueOrderId found = .ok report) :
    report.clientOrderId = legId := by
  unfold leg at h
  obtain ⟨average, -, h⟩ := bind_eq_ok.mp h
  cases h
  rfl

/-- A foreign level's reports name no order of the node. -/
theorem foreignLevel_unnamed {legFills : Level → List Fill} {venue : Option ProtoOAPosition}
    {live : Option ProtoOAOrder} {held : HeldOrders}
    {standing : Option (Option ProtoOAOrder × Levels)} {level : Level} {reports : List ReportedOrder}
    (h : t.foreignLevel legFills venue live held standing level = .ok reports) :
    ∀ report ∈ reports, report.clientOrderId = none := by
  unfold foreignLevel at h
  dsimp only at h
  split at h
  all_goals
    obtain ⟨found, -, h⟩ := bind_eq_ok.mp h
    split at h
    · cases h
      exact fun report hreport => absurd hreport List.not_mem_nil
    · obtain ⟨report, hleg, h⟩ := bind_eq_ok.mp h
      rw [pure_eq_ok] at h
      intro other hother
      rw [← h] at hother
      split at hother
      · exact absurd hother List.not_mem_nil
      · rw [List.mem_singleton.mp hother]
        exact leg_clientOrderId hleg

/-- Nor do those of a leg that is gone. -/
theorem goneLeg_unnamed {venue : Option ProtoOAPosition} {live : Option ProtoOAOrder}
    {listed : List String} {venueOrderId : String} {reports : List ReportedOrder}
    (h : t.goneLeg venue live listed venueOrderId = .ok reports) :
    ∀ report ∈ reports, report.clientOrderId = none := by
  unfold goneLeg at h
  split at h
  · cases h
    exact fun report hreport => absurd hreport List.not_mem_nil
  · split at h
    · cases h
      exact fun report hreport => absurd hreport List.not_mem_nil
    · obtain ⟨found, -, h⟩ := bind_eq_ok.mp h
      obtain ⟨gone, hleg, h⟩ := bind_eq_ok.mp h
      cases h
      intro report hreport
      have hclient : gone.clientOrderId = none := leg_clientOrderId hleg
      rw [List.mem_singleton.mp hreport]
      exact hclient

/-- What a loop that collects lists makes of a fact about each of them. -/
theorem forall_flatten {α β : Type} {f : α → Except Failure (List β)} {P : β → Prop} {xs : List α}
    {ys : List (List β)} (hf : ∀ x y, f x = .ok y → ∀ b ∈ y, P b) (h : xs.mapM f = .ok ys) :
    ∀ b ∈ ys.flatten, P b := by
  intro b hb
  obtain ⟨y, hy, hb⟩ := List.mem_flatten.mp hb
  obtain ⟨x, -, hmade⟩ := exists_of_mapM h y hy
  exact hf x y hmade b hb

/-- The legs of a foreign position: those of its levels, then those the lists no longer have. -/
theorem foreignLegs_parts {legFills : Level → List Fill} {venue : Option ProtoOAPosition}
    {live : Option ProtoOAOrder} {held : HeldOrders} {reports : List ReportedOrder}
    (h : t.foreignLegs legFills venue live held = .ok reports) : ∃ standing levels gone,
      Level.all.mapM (t.foreignLevel legFills venue live held standing) = .ok levels ∧
      (sortOn id (held.openLegs t.entry.orderId)).mapM (t.goneLeg venue live
        (levels.flatten.map ReportedOrder.venueOrderId)) = .ok gone ∧
      reports = levels.flatten ++ gone.flatten := by
  unfold foreignLegs at h
  dsimp only at h
  split at h
  all_goals
    obtain ⟨standing, -, h⟩ := bind_eq_ok.mp h
    obtain ⟨levels, hlevels, h⟩ := bind_eq_ok.mp h
    obtain ⟨gone, hgone, h⟩ := bind_eq_ok.mp h
    cases h
    exact ⟨standing, levels, gone, hlevels, hgone, rfl⟩

/-- Nor do those of foreign legs. -/
theorem foreignLegs_unnamed {legFills : Level → List Fill} {venue : Option ProtoOAPosition}
    {live : Option ProtoOAOrder} {held : HeldOrders} {reports : List ReportedOrder}
    (h : t.foreignLegs legFills venue live held = .ok reports) :
    ∀ report ∈ reports, report.clientOrderId = none := by
  obtain ⟨standing, levels, gone, hlevels, hgone, rfl⟩ := foreignLegs_parts h
  intro report hreport
  rcases List.mem_append.mp hreport with hlevel | hleft
  · exact forall_flatten (fun _ _ hok => foreignLevel_unnamed hok) hlevels report hlevel
  · exact forall_flatten (fun _ _ hok => goneLeg_unnamed hok) hgone report hleft

/-- Nor do those of a triggered order. -/
theorem triggersOf_unnamed {withLegs : Level → Bool} {order : ProtoOAOrder} {found : Triggers}
    (h : t.triggersOf withLegs order = .ok found) :
    ∀ report ∈ found.external, report.clientOrderId = none := by
  unfold triggersOf at h
  dsimp only at h
  split at h
  · cases h
    exact fun report hreport => absurd hreport List.not_mem_nil
  · obtain ⟨levels, -, h⟩ := bind_eq_ok.mp h
    split at h
    · obtain ⟨external, hexternal, h⟩ := bind_eq_ok.mp h
      cases hexternal
      cases h
      exact fun report hreport => absurd hreport List.not_mem_nil
    · obtain ⟨external, hexternal, h⟩ := bind_eq_ok.mp h
      cases h
      intro report hreport
      generalize hmade : orderReport order t.precision _ none true _ = made at hexternal
      cases made with
      | error failure => cases hexternal
      | ok made =>
        cases hexternal
        rw [List.mem_singleton.mp hreport]
        exact (orderReport_ids hmade).1

/-- The external reports of several triggers add up. -/
theorem foldl_add_external (parts : List Triggers) (first : Triggers) :
    (parts.foldl Triggers.add first).external = first.external ++ parts.flatMap Triggers.external := by
  induction parts generalizing first with
  | nil => exact (List.append_nil _).symm
  | cons part rest ih =>
    rw [List.foldl_cons, ih, List.flatMap_cons, ← List.append_assoc]
    rfl

/-- The reports of the protective orders' deals that no leg takes carry no id. -/
theorem triggers_unnamed {withLegs : Level → Bool} {found : Triggers}
    (h : t.triggers withLegs = .ok found) : ∀ report ∈ found.external, report.clientOrderId = none := by
  unfold triggers at h
  obtain ⟨parts, hparts, h⟩ := bind_eq_ok.mp h
  cases h
  intro report hreport
  rw [foldl_add_external, List.nil_append] at hreport
  obtain ⟨part, hpart, hreport⟩ := List.mem_flatMap.mp hreport
  obtain ⟨order, -, hmade⟩ := exists_of_mapM hparts part hpart
  exact triggersOf_unnamed hmade report hreport

/-- The position's reports carry the closes given to its own closing orders. -/
theorem reports_named {closes : Closes} (hone : OneOrder closes.known)
    {venue : Option ProtoOAPosition} {live : Option ProtoOAOrder} {inWindow : Finset String}
    {held : HeldOrders} {claimed : Finset String}
    {made : List ReportedOrder × List Notice × Finset String}
    (hknown : ∀ closeId ∈ closes.known.values, closeId ∈ claimed)
    (hlabel : ∀ id, parseLabel t.entry.tradeData.label = some id → recorded id)
    (hlegs : ∀ level id, t.legIds.1.get? level = some id → recorded id)
    (horders : (t.orders.map ProtoOAOrder.orderId).Nodup)
    (h : t.reports venue live closes inWindow held claimed = .ok made) :
    ∃ named, Named closes.known recorded claimed made.2.2
      (fun orderId => ∃ order ∈ t.orders, order.orderId = orderId) made.1 named := by
  obtain ⟨entry, raised, closing, found, foreign, legs, hentry, hraised, hclosing, hfound, hforeign,
    hnodeLegs, rfl⟩ := reports_eq_ok.mp h
  -- The reports that carry no close.
  have hentryId : entry.clientOrderId = parseLabel t.entry.tradeData.label := by
    unfold entryReport at hentry
    obtain ⟨report, hreport, hentry⟩ := bind_eq_ok.mp hentry
    have hclient := (orderReport_ids hreport).1
    rw [pure_eq_ok] at hentry
    rw [← hentry]
    split
    · exact hclient
    · exact hclient
  have hraisedIds : ∀ report ∈ raised, report.clientOrderId = none := by
    intro report hreport
    obtain ⟨order, -, hmade⟩ := exists_of_mapM hraised report hreport
    exact (orderReport_ids hmade).1
  have hexternal := triggers_unnamed hfound
  have hlegIds : ∀ legs, t.legIds.1.items.mapM (t.nodeLeg t.legIds.1 found.legFills venue live) =
      .ok legs → ∀ report ∈ legs, ∀ id, report.clientOrderId = some id → recorded id := by
    intro legs hmade report hreport id hid
    obtain ⟨⟨level, legId⟩, hitem, hleg⟩ := exists_of_mapM hmade report hreport
    unfold nodeLeg at hleg
    dsimp only at hleg
    obtain ⟨source, -, hleg⟩ := bind_eq_ok.mp hleg
    rw [leg_clientOrderId hleg] at hid
    exact hlegs level id (hid ▸ ByLevel.mem_items.mp hitem)
  -- The closing orders, each with its own close.
  have hperm : t.closingOrders.Perm (t.orders.filter fun order =>
      order.closingOrder && order.orderType ≠ .stopLossTakeProfit &&
        !(t.fills order.orderId).isEmpty) := sortOn_perm _ _
  have hnodup : (t.closingOrders.map ProtoOAOrder.orderId).Nodup :=
    (hperm.map _).nodup_iff.mpr (horders.sublist (List.filter_sublist.map _))
  have hgiven : ∃ named, Named closes.known recorded claimed closing.2
      (fun orderId => ∃ order ∈ t.closingOrders, order.orderId = orderId)
      (closing.1.flatMap fun report => [report]) named := by
    refine named_accumulate hone (fun order _ claimed report claimed' hmade _ => ?_) ?_ hknown hclosing
    · unfold closeReport at hmade
      obtain ⟨report', hreport, hmade⟩ := bind_eq_ok.mp hmade
      cases hmade
      obtain ⟨hclient, hvenue⟩ := orderReport_ids hreport
      exact ⟨_, named_report order (t.recent inWindow order) rfl hclient hvenue⟩
    · exact (List.pairwise_map.mp hnodup).imp fun hne orderId hmine hother =>
        hne (hmine.trans hother.symm)
  obtain ⟨named, hnamed⟩ := hgiven
  have hclosingNamed : Named closes.known recorded claimed closing.2
      (fun orderId => ∃ order ∈ t.orders, order.orderId = orderId) closing.1 named := by
    rw [List.flatMap_singleton'] at hnamed
    refine hnamed.mono fun pair hpair => ?_
    obtain ⟨order, horder, heq⟩ := hnamed.within pair hpair
    exact ⟨order, (List.mem_filter.mp (hperm.mem_iff.mp horder)).1, heq⟩
  -- The three stretches together.
  have hfirst : Named closes.known recorded claimed claimed (fun _ => False) (entry :: raised) [] := by
    refine .unnamed claimed _ fun report hreport id hid => ?_
    rcases List.mem_cons.mp hreport with rfl | hraise
    · exact hlabel id (hentryId ▸ hid)
    · exact absurd (hid.symm.trans (hraisedIds report hraise)) (Option.some_ne_none id)
  have hstretches (foreign legs : List ReportedOrder)
      (hforeign : ∀ report ∈ foreign, report.clientOrderId = none)
      (hlegs : ∀ report ∈ legs, ∀ id, report.clientOrderId = some id → recorded id) :
      ∃ named, Named closes.known recorded claimed closing.2
        (fun orderId => ∃ order ∈ t.orders, order.orderId = orderId)
        (entry :: raised ++ closing.1 ++ foreign ++ legs ++ found.external) named := by
    have hlast : Named closes.known recorded closing.2 closing.2 (fun _ => False)
        (foreign ++ legs ++ found.external) [] := by
      refine .unnamed closing.2 _ fun report hreport id hid => ?_
      rw [List.mem_append, List.mem_append] at hreport
      rcases hreport with (hmem | hmem) | hmem
      · exact absurd (hid.symm.trans (hforeign report hmem)) (Option.some_ne_none id)
      · exact hlegs report hmem id hid
      · exact absurd (hid.symm.trans (hexternal report hmem)) (Option.some_ne_none id)
    have hmiddle := hfirst.append hone hknown hclosingNamed fun _ hnone => hnone.elim
    have hall := hmiddle.append hone hknown hlast fun _ _ hnone => hnone.elim
    rw [← List.append_assoc, ← List.append_assoc] at hall
    exact ⟨_, hall.mono fun pair hpair =>
      (hall.within pair hpair).elim (fun hor => hor.elim False.elim id) False.elim⟩
  split at hforeign
  · exact hstretches foreign legs (foreignLegs_unnamed hforeign) (hlegIds legs hnodeLegs)
  · cases hforeign
    exact hstretches [] legs (fun report hreport => absurd hreport List.not_mem_nil)
      (hlegIds legs hnodeLegs)

end Taken

/-! ## The whole pass -/

namespace Inputs

variable (inputs : Inputs)

/-- An order the pass reads: the snapshot's, or one of a position's own. -/
def Lists (order : ProtoOAOrder) : Prop :=
  order ∈ inputs.snapshot.order ∨
    ∃ positionId found, inputs.histories.get? positionId = some found ∧ order ∈ found.orders

/-- An id that the record of an order names, as an entry's or as a leg's: no close's. -/
def Recorded (id : String) : Prop :=
  ∃ order, inputs.Lists order ∧ (parseLabel order.tradeData.label = some id ∨
    ∃ ids, parseComment order.tradeData.comment = some ids ∧
      (ids.stopLoss = some id ∨ ids.takeProfit = some id))

/-- The broker lists each order once, and in one position's lists. -/
structure ListsOnce : Prop where
  snapshot : (inputs.snapshot.order.map ProtoOAOrder.orderId).Nodup
  history : ∀ positionId found, inputs.histories.get? positionId = some found →
    (found.orders.map ProtoOAOrder.orderId).Nodup
  histories : ∀ positionId positionId' found found' order order',
    inputs.histories.get? positionId = some found → inputs.histories.get? positionId' = some found' →
    order ∈ found.orders → order' ∈ found'.orders → order.orderId = order'.orderId →
    positionId = positionId'

/-- The pass takes the position, with the lists `found` and their `entry`: its symbol is loaded, its entry
filled, and the snapshot holds it if its lists leave it open. -/
structure Takes (positionId : ℤ) (found : PositionHistory) (entry : ProtoOAOrder) : Prop where
  lists : inputs.histories.get? positionId = some found
  opened : entryOf found.orders = some entry
  loaded : ((inputs.symbols.get? positionId).bind inputs.precision).isSome = true
  filled : ∃ deal ∈ found.deals, deal.orderId = entry.orderId
  stands : inputs.openPositions.get? positionId = none → openVolume found ≤ 0

/-- The orders of a position's own lists. -/
def Own (positionId orderId : ℤ) : Prop :=
  ∃ found, inputs.histories.get? positionId = some found ∧
    ∃ order ∈ found.orders, order.orderId = orderId

end Inputs

variable {inputs : Inputs}

/-- The entry is an opening order. -/
theorem mem_openingOrders_of_entryOf {orders : List ProtoOAOrder} {entry : ProtoOAOrder}
    (h : entryOf orders = some entry) : entry ∈ openingOrders orders := by
  unfold entryOf at h
  dsimp only at h
  rcases Option.or_eq_some_iff.mp h with hnamed | ⟨-, hfirst⟩
  · exact List.mem_of_find?_eq_some hnamed
  · exact List.mem_of_mem_head? hfirst

/-- The entry is among the orders. -/
theorem mem_of_entryOf {orders : List ProtoOAOrder} {entry : ProtoOAOrder}
    (h : entryOf orders = some entry) : entry ∈ orders :=
  (List.mem_filter.mp (mem_sortOn.mp (mem_openingOrders_of_entryOf h))).1

/-- The reports with their keys are the reports. -/
theorem map_keyedReports (reports : List ReportedOrder) :
    (keyedReports reports).map Prod.snd = reports := by
  cases reports with
  | nil => rfl
  | cons entry rest =>
    rw [keyedReports, List.map_cons, List.map_map]
    exact congrArg _ (List.map_id rest)

/-- A position that is taken has its entry and all its orders. -/
theorem take_lists {positionId : ℤ} {entry : ProtoOAOrder} {found : PositionHistory} {precision : ℕ}
    {moneyDigits : Option ℕ} {t : Taken} (h : take positionId entry found precision moneyDigits = .ok t) :
    t.entry = entry ∧ t.orders.Perm found.orders := by
  unfold take at h
  dsimp only at h
  obtain ⟨dealFills, -, h⟩ := bind_eq_ok.mp h
  cases h
  exact ⟨rfl, sortOn_perm _ _⟩

/-- A fill has its deal's id. -/
theorem Taken.tradeId_of_fillOf {deal : ProtoOADeal} {precision : ℕ} {digits : Option ℕ} {fill : Fill}
    (h : fillOf deal precision digits = .ok fill) : fill.tradeId = toString deal.dealId := by
  unfold fillOf at h
  split at h
  · cases h
  · split at h
    · cases h
    · cases h
      rfl

/-- The fills of an order are those of its deals. -/
theorem Taken.fills_of_take {positionId : ℤ} {entry : ProtoOAOrder} {found : PositionHistory}
    {precision : ℕ} {moneyDigits : Option ℕ} {t : Taken}
    (ht : take positionId entry found precision moneyDigits = .ok t) (orderId : ℤ) (tradeId : String) :
    (∃ fill ∈ t.fills orderId, fill.tradeId = tradeId) ↔
      ∃ deal ∈ found.deals, deal.orderId = orderId ∧ toString deal.dealId = tradeId := by
  unfold take at ht
  dsimp only at ht
  obtain ⟨dealFills, hdealFills, ht⟩ := bind_eq_ok.mp ht
  cases ht
  have hpair {deal : ProtoOADeal} {pair : ProtoOADeal × Fill}
      (hmade : (fillOf deal precision moneyDigits).map (deal, ·) = .ok pair) :
      pair.1 = deal ∧ pair.2.tradeId = toString deal.dealId := by
    cases hread : fillOf deal precision moneyDigits with
    | error failure =>
      rw [hread] at hmade
      cases hmade
    | ok fill =>
      rw [hread] at hmade
      cases hmade
      exact ⟨rfl, Taken.tradeId_of_fillOf hread⟩
  constructor
  · rintro ⟨fill, hfill, rfl⟩
    obtain ⟨pair, hin, rfl⟩ := List.mem_map.mp hfill
    obtain ⟨hin, hid⟩ := List.mem_filter.mp hin
    obtain ⟨deal, hdeal, hmade⟩ := exists_of_mapM hdealFills pair hin
    obtain ⟨rfl, htrade⟩ := hpair hmade
    exact ⟨pair.1, mem_sortOn.mp hdeal, of_decide_eq_true hid, htrade.symm⟩
  · rintro ⟨deal, hdeal, hid, rfl⟩
    obtain ⟨pair, hin, hmade⟩ := made_of_mapM hdealFills deal (mem_sortOn.mpr hdeal)
    obtain ⟨rfl, htrade⟩ := hpair hmade
    exact ⟨pair.2, List.mem_map_of_mem (List.mem_filter.mpr ⟨hin, decide_eq_true hid⟩), htrade⟩

/-- What one position comes to has no order reports, or those of the position taken with its own
lists. -/
theorem positionOutcome_cases {claimed claimed' : Finset String} {positionId : ℤ} {made : Outcome}
    (h : positionOutcome inputs claimed positionId = .ok (made, claimed')) :
    (made.keyed = [] ∧ claimed' = claimed) ∨
      ∃ found entry digits t venue reports,
        inputs.Takes positionId found entry ∧
        take positionId entry found digits inputs.moneyDigits = .ok t ∧
        t.reports venue (inputs.liveProtective.get? t.positionId) inputs.closes inputs.inWindow
          inputs.held claimed = .ok reports ∧
        made.keyed = keyedReports reports.1 ∧ claimed' = reports.2.2 := by
  have hnothing {positions : List ReportedPosition} {notices : List Notice}
      (h : ({ positions, notices } : Outcome) = made ∧ claimed = claimed') :
      made.keyed = [] ∧ claimed' = claimed := ⟨by rw [← h.1], h.2.symm⟩
  -- without precision, lists or an entry nothing is made
  unfold positionOutcome at h
  split at h
  · exact .inl (hnothing (Prod.mk.inj (Except.ok.inj h)))
  rename_i digits hdigits
  split at h
  · exact .inl (hnothing (Prod.mk.inj (Except.ok.inj h)))
  rename_i found hfound
  split at h
  · exact .inl (hnothing (Prod.mk.inj (Except.ok.inj h)))
  rename_i entry hentry
  unfold entryOutcome at h
  dsimp only at h
  obtain ⟨t, ht, h⟩ := bind_eq_ok.mp h
  -- an entry without a fill makes a notice at most
  by_cases hfilled : t.entryFills.isEmpty = true
  · rw [if_pos hfilled] at h
    split at h
    · exact .inl (hnothing (Prod.mk.inj (Except.ok.inj h)))
    · obtain ⟨report, -, h⟩ := bind_eq_ok.mp h
      exact .inl (hnothing (Prod.mk.inj (Except.ok.inj h)))
  rw [if_neg hfilled] at h
  -- else the position is taken, with or without the state of the snapshot
  have htaken (venue : Option ProtoOAPosition)
      (h : takenOutcome inputs claimed t found venue = .ok (made, claimed')) :
      ∃ reports, t.reports venue (inputs.liveProtective.get? t.positionId) inputs.closes
          inputs.inWindow inputs.held claimed = .ok reports ∧
        made.keyed = keyedReports reports.1 ∧ claimed' = reports.2.2 := by
    unfold takenOutcome at h
    obtain ⟨reports, hreports, h⟩ := bind_eq_ok.mp h
    refine ⟨reports, hreports, ?_⟩
    dsimp only at h
    split at h
    all_goals
      obtain ⟨positions, -, h⟩ := bind_eq_ok.mp h
      cases h
      exact ⟨rfl, rfl⟩
  have hloaded : ((inputs.symbols.get? positionId).bind inputs.precision).isSome = true := by
    rw [hdigits]
    rfl
  have hdeal : ∃ deal ∈ found.deals, deal.orderId = entry.orderId := by
    obtain ⟨fill, hfill⟩ := List.exists_mem_of_ne_nil _ (mt List.isEmpty_iff.mpr hfilled)
    rw [Taken.entryFills, (take_lists ht).1] at hfill
    obtain ⟨deal, hdeal, hid, -⟩ := (Taken.fills_of_take ht entry.orderId fill.tradeId).mp ⟨fill, hfill, rfl⟩
    exact ⟨deal, hdeal, hid⟩
  split at h
  · rename_i hclosed
    rw [Bool.and_eq_true, Bool.and_eq_true] at hclosed
    obtain ⟨reports, hmade⟩ := htaken none h
    refine .inr ⟨found, entry, digits, t, none, reports, ⟨hfound, hentry, hloaded, hdeal, ?_⟩, ht, hmade⟩
    intro hnone
    rw [hnone] at hclosed
    cases hclosed.1.1
  · split at h
    · exact .inl (hnothing (Prod.mk.inj (Except.ok.inj h)))
    · rename_i hstands
      obtain ⟨reports, hmade⟩ := htaken _ h
      refine .inr ⟨found, entry, digits, t, _, reports, ⟨hfound, hentry, hloaded, hdeal, ?_⟩, ht, hmade⟩
      intro hnone
      rw [hnone] at hstands
      simpa using hstands

/-- The reports of one position carry the closes given to its own orders. -/
theorem named_positionOutcome (hone : OneOrder inputs.closes.known) (hlists : inputs.ListsOnce)
    {claimed claimed' : Finset String} {positionId : ℤ} {made : Outcome}
    (hknown : ∀ closeId ∈ inputs.closes.known.values, closeId ∈ claimed)
    (h : positionOutcome inputs claimed positionId = .ok (made, claimed')) :
    ∃ named, Named inputs.closes.known inputs.Recorded claimed claimed' (inputs.Own positionId)
      (made.keyed.map Prod.snd) named := by
  rcases positionOutcome_cases h with
    ⟨hkeyed, rfl⟩ | ⟨found, entry, digits, t, venue, reports, htakes, ht, hreports, hkeyed, rfl⟩
  · rw [hkeyed]
    exact ⟨[], .unnamed _ _ fun report hreport => absurd hreport List.not_mem_nil⟩
  obtain ⟨htentry, htorders⟩ := take_lists ht
  have hread : inputs.Lists entry := .inr ⟨positionId, found, htakes.lists, mem_of_entryOf htakes.opened⟩
  have hentryNamed (id : String) (hid : parseLabel t.entry.tradeData.label = some id) :
      inputs.Recorded id := ⟨entry, hread, .inl (htentry ▸ hid)⟩
  have hlegsNamed (level : Level) (id : String) (hid : t.legIds.1.get? level = some id) :
      inputs.Recorded id := by
    unfold Taken.legIds at hid
    split at hid
    · cases level <;> cases hid
    · split at hid
      · cases level <;> cases hid
      · rename_i ids hcomment
        refine ⟨entry, hread, .inr ⟨ids, htentry ▸ hcomment, ?_⟩⟩
        cases level with
        | stopLoss => exact .inl hid
        | takeProfit => exact .inr hid
  obtain ⟨named, hnamed⟩ := Taken.reports_named hone hknown hentryNamed hlegsNamed
    ((htorders.map _).nodup_iff.mpr (hlists.history positionId found htakes.lists)) hreports
  rw [hkeyed, map_keyedReports]
  refine ⟨named, hnamed.mono fun pair hpair => ?_⟩
  obtain ⟨order, horder, heq⟩ := hnamed.within pair hpair
  exact ⟨found, htakes.lists, order, htorders.mem_iff.mp horder, heq⟩

/-- The report of a listed order carries the close it is given. -/
theorem named_listedOrder {reported : List String} {claimed claimed' : Finset String}
    {order : ProtoOAOrder} {made : List (SortKey × ReportedOrder)} (hlisted : inputs.Lists order)
    (h : listedOrder inputs reported claimed order = .ok (made, claimed')) :
    ∃ named, Named inputs.closes.known inputs.Recorded claimed claimed'
      (fun orderId => order.orderId = orderId ∧ toString orderId ∉ reported)
      (made.map Prod.snd) named := by
  have hnothing (h : ([] : List (SortKey × ReportedOrder)) = made ∧ claimed = claimed') :
      ∃ named, Named inputs.closes.known inputs.Recorded claimed claimed'
        (fun orderId => order.orderId = orderId ∧ toString orderId ∉ reported)
        (made.map Prod.snd) named := by
    obtain ⟨rfl, rfl⟩ := h
    exact ⟨[], .unnamed _ _ fun report hreport => absurd hreport List.not_mem_nil⟩
  unfold listedOrder at h
  split at h
  · exact hnothing (Prod.mk.inj (Except.ok.inj h))
  · rename_i hnew
    rw [Bool.or_eq_true, not_or, decide_eq_true_eq, decide_eq_true_eq] at hnew
    split at h
    · exact hnothing (Prod.mk.inj (Except.ok.inj h))
    · dsimp only at h
      obtain ⟨report, hreport, h⟩ := bind_eq_ok.mp h
      obtain ⟨hclient, hvenue⟩ := orderReport_ids hreport
      cases h
      by_cases hclosing : order.closingOrder = true
      · rw [if_pos hclosing] at hclient ⊢
        exact ⟨_, named_report order true ⟨rfl, hnew.2⟩ hclient hvenue⟩
      · rw [if_neg hclosing] at hclient ⊢
        refine ⟨[], .unnamed _ _ fun report' hmem id hid => ?_⟩
        obtain rfl := List.mem_singleton.mp hmem
        exact ⟨order, hlisted, .inl (hclient.symm.trans hid)⟩

/-- No two reports of a pass carry one close id of the node. -/
theorem reconcile_carries (hone : OneOrder inputs.closes.known) (hlists : inputs.ListsOnce)
    {result : Reconciliation} (h : reconcile inputs = .ok result) {closeId : String}
    (hclose : ¬ inputs.Recorded closeId) : carrying closeId result.orders ≤ 1 := by
  unfold reconcile at h
  dsimp only at h
  obtain ⟨taken, htaken, h⟩ := bind_eq_ok.mp h
  obtain ⟨listed, hlisted, h⟩ := bind_eq_ok.mp h
  cases h
  have hknown : ∀ closeId ∈ inputs.closes.known.values, closeId ∈ inputs.claimedBefore :=
    fun closeId hvalue => List.mem_toFinset.mpr hvalue
  have hids : (sortOn id inputs.symbols.keys).Nodup :=
    (sortOn_perm _ _).nodup_iff.mpr inputs.symbols.nodup
  have hfirst : ∃ named, Named inputs.closes.known inputs.Recorded inputs.claimedBefore taken.2
      (fun orderId => ∃ positionId ∈ sortOn id inputs.symbols.keys, inputs.Own positionId orderId)
      (taken.1.flatMap fun made => made.keyed.map Prod.snd) named := by
    refine named_accumulate hone (fun positionId _ claimed made claimed' hmade hclaimed =>
      named_positionOutcome hone hlists hclaimed hmade) ?_ hknown htaken
    refine hids.imp fun hne orderId hmine hother => hne ?_
    obtain ⟨found, hfound, order, horder, heq⟩ := hmine
    obtain ⟨found', hfound', order', horder', heq'⟩ := hother
    exact hlists.histories _ _ found found' order order' hfound hfound' horder horder'
      (heq.trans heq'.symm)
  obtain ⟨named, hnamed⟩ := hfirst
  have hsecond : ∃ named, Named inputs.closes.known inputs.Recorded taken.2 listed.2
      (fun orderId => ∃ order ∈ inputs.snapshot.order, order.orderId = orderId ∧
        toString orderId ∉ (taken.1.flatMap Outcome.keyed).map fun item => item.2.venueOrderId)
      (listed.1.flatMap fun made => made.map Prod.snd) named := by
    refine named_accumulate hone (fun order horder claimed made claimed' hmade _ =>
      named_listedOrder (.inl horder) hmade) ?_
      (fun closeId hvalue => hnamed.given.mono (hknown closeId hvalue)) hlisted
    exact (List.pairwise_map.mp hlists.snapshot).imp fun hne orderId hmine hother =>
      hne (hmine.1.trans hother.1.symm)
  obtain ⟨named', hnamed'⟩ := hsecond
  have hkeyed : (taken.1.flatMap fun made => made.keyed.map Prod.snd) =
      (taken.1.flatMap Outcome.keyed).map Prod.snd := (List.map_flatMap ..).symm
  -- What a position reported is not listed again.
  have hlistedOnce : ∀ pair ∈ named, toString pair.1 ∈
      (taken.1.flatMap Outcome.keyed).map fun item => item.2.venueOrderId := by
    intro pair hpair
    have hreported := hnamed.reported pair hpair
    rw [hkeyed, List.map_map] at hreported
    exact hreported
  have hfirst : Named inputs.closes.known inputs.Recorded inputs.claimedBefore taken.2
      (fun orderId => toString orderId ∈
        (taken.1.flatMap Outcome.keyed).map fun item => item.2.venueOrderId)
      (taken.1.flatMap fun made => made.keyed.map Prod.snd) named := hnamed.mono hlistedOnce
  have hall := hfirst.append hone hknown hnamed' fun orderId hmine hother => by
    obtain ⟨order, -, -, hnew⟩ := hother
    exact hnew hmine
  have hperm : ((taken.1.flatMap fun made => made.keyed.map Prod.snd) ++
      listed.1.flatMap fun made => made.map Prod.snd).Perm
        ((sortOn Prod.fst (taken.1.flatMap Outcome.keyed ++ listed.1.flatten)).map Prod.snd) := by
    have hflat : (listed.1.flatMap fun made => made.map Prod.snd) = listed.1.flatten.map Prod.snd := by
      rw [List.flatMap_def, List.map_flatten]
    rw [hkeyed, hflat, ← List.map_append]
    exact ((sortOn_perm _ _).map _).symm
  have hresult := hall.perm hperm
  have hcarried := hresult.carried closeId hclose
  have honce := List.nodup_iff_count_le_one.mp hresult.given.nodup closeId
  exact hcarried.trans honce

/-- In every book that is reached, a close id names one broker order, whose position is recorded; and
given such closes, no two reports of a pass carry one close id. -/
theorem close_ids_once :
    (∀ b, Reachable b → OneOrder b.closes ∧
      ∀ orderId closeId, b.closes.get? orderId = some closeId →
        ∃ positionId, b.closePositions.get? orderId = some positionId) ∧
    ∀ inputs : Inputs, OneOrder inputs.closes.known → inputs.ListsOnce →
      ∀ result, reconcile inputs = .ok result →
        ∀ closeId, ¬ inputs.Recorded closeId → carrying closeId result.orders ≤ 1 := by
  refine ⟨fun b hb => ?_, fun inputs hone hlists result hresult closeId hclose => ?_⟩
  · have hmatched := hb.matched
    exact ⟨hmatched.injective, hmatched.recorded⟩
  · exact reconcile_carries hone hlists hresult hclose

/-- The book after a close of the sample's position was matched to the closing order 3. -/
def matchedBook : Book :=
  (perform (perform {} (.apply Sample.env {} (Sample.entryFill Sample.entry))).1
    (.matchClose 3 10 "C-1")).1

/-- The book with the matched close is reached. -/
theorem reachable_matchedBook : Reachable matchedBook := .operation _ (.operation _ .new)

/-- The position with that closing order and another one, which wait. -/
def matchedPass : Inputs where
  snapshot := { position := [Sample.position 400 .open]
                order := [Sample.closing, { Sample.closing with orderId := 4 }] }
  histories := Dict.empty.set 10 { orders := [Sample.entry], deals := [Sample.deal 1 Sample.entry 150] }
  windowDeals := [Sample.deal 1 Sample.entry 150]
  precision := fun _ => some 2
  closes := { known := matchedBook.closes }
  moneyDigits := some 2

/-- The pass reads one position's history. -/
theorem matchedPass_history {positionId : ℤ} {found : PositionHistory}
    (h : matchedPass.histories.get? positionId = some found) :
    positionId = 10 ∧ found.orders = [Sample.entry] := by
  unfold matchedPass at h
  rcases Dict.get?_set_eq_some.mp h with ⟨heq, hfound⟩ | ⟨-, hnone⟩
  · rw [← hfound]
    exact ⟨heq.symm, rfl⟩
  · cases hnone

/-- Its lists repeat nothing. -/
theorem matchedPass_lists : matchedPass.ListsOnce where
  snapshot := by decide
  history positionId found hfound := by
    rw [(matchedPass_history hfound).2]
    exact List.nodup_singleton _
  histories positionId positionId' found found' order order' hfound hfound' _ _ _ := by
    rw [(matchedPass_history hfound).1, (matchedPass_history hfound').1]

/-- Nobody's record names the close. -/
theorem matchedPass_unrecorded : ¬ matchedPass.Recorded "C-1" := by
  have hblank : ∀ order, matchedPass.Lists order →
      order.tradeData.label = "" ∧ order.tradeData.comment = "" := by
    rintro order (hsnapshot | ⟨positionId, found, hfound, horder⟩)
    · have hall : ∀ other ∈ matchedPass.snapshot.order,
          other.tradeData.label = "" ∧ other.tradeData.comment = "" := by decide
      exact hall order hsnapshot
    · rw [(matchedPass_history hfound).2] at horder
      rw [List.mem_singleton.mp horder]
      exact ⟨rfl, rfl⟩
  have hlabel : parseLabel "" = none := by decide +kernel
  have hcomment : parseComment "" = none := by decide +kernel
  rintro ⟨order, hlists, hnamed⟩
  obtain ⟨hnoLabel, hnoComment⟩ := hblank order hlists
  rw [hnoLabel, hnoComment, hlabel, hcomment] at hnamed
  rcases hnamed with hnamed | ⟨ids, hnamed, -⟩ <;> cases hnamed

/-- The pass reports the one order under the close it is matched to. -/
theorem close_ids_once_matched : OneOrder matchedBook.closes ∧
    ∃ result, reconcile matchedPass = .ok result ∧ carrying "C-1" result.orders ≤ 1 := by
  obtain ⟨result, hresult⟩ := exists_of_isOk
    (by decide +kernel : (reconcile matchedPass).isOk = true)
  have hone := (close_ids_once.1 matchedBook reachable_matchedBook).1
  exact ⟨hone, result, hresult, close_ids_once.2 matchedPass hone matchedPass_lists result hresult "C-1"
    matchedPass_unrecorded⟩

end Reconciliation

end NautilusCtrader
