import NautilusCtrader.VenueBook.BookRule
import NautilusCtrader.VenueBook.ClosedPosition
import NautilusCtrader.VenueBook.LegLifecycle

/-!
# Which orders records report as standing

A record can leave an order standing in Nautilus: a report whose fills do not cover it, its acceptance,
or an update. Beside the legs, whose ids no broker order has, an event reports only its own order so,
and only where Nautilus does not hold the order, was not told of its acceptance, or is told of a state
taken as the newest.
-/

namespace NautilusCtrader

open Common

/-- The venue order id of the order a record leaves standing. -/
def Record.standing? : Record → Option String
  | .externalOrder order =>
    if (order.fills.map Fill.units).sum < order.units then some order.venueOrderId else none
  | .orderEvent event =>
    if event.kind = .accepted ∨ event.kind = .updated then event.venueOrderId else none
  | _ => none

/-- Beside legs, `told` leaves no order standing but `order`, and that only if `allowed`. -/
structure Stands (allowed : Prop) (order : ProtoOAOrder) (told : List Record) : Prop where
  only : ∀ record ∈ told, ∀ id, record.standing? = some id → ¬ isLegId id →
    allowed ∧ id = toString order.orderId

section

variable {allowed allowed' : Prop} {order : ProtoOAOrder} {told later : List Record}

/-- Nothing told leaves no order standing. -/
theorem Stands.nil : Stands allowed order [] := ⟨fun _ h => absurd h List.not_mem_nil⟩

/-- Records told one after the other leave the order standing if either did. -/
theorem Stands.append (h : Stands allowed order told) (h' : Stands allowed order later) :
    Stands allowed order (told ++ later) := by
  refine ⟨fun record hrecord => ?_⟩
  rcases List.mem_append.mp hrecord with hmem | hmem
  · exact h.only record hmem
  · exact h'.only record hmem

/-- What one condition allows, a weaker one allows. -/
theorem Stands.mono (h : Stands allowed order told) (himp : allowed → allowed') :
    Stands allowed' order told :=
  ⟨fun record hrecord id hid hleg => (h.only record hrecord id hid hleg).imp_left himp⟩

/-- A choice leaves the order standing as its branches do. -/
theorem Stands.ite {c : Prop} [Decidable c] (h : c → Stands allowed order told)
    (h' : ¬ c → Stands allowed order later) : Stands allowed order (if c then told else later) := by
  split
  · exact h ‹c›
  · exact h' ‹¬ c›

/-- A record that leaves nothing standing. -/
theorem Stands.none {record : Record} (h : record.standing? = .none) :
    Stands allowed order [record] := by
  refine ⟨fun record' hrecord id hid => ?_⟩
  obtain rfl := List.mem_singleton.mp hrecord
  rw [h] at hid
  cases hid

/-- The first record and the rest leave it standing together. -/
theorem Stands.cons {record : Record} (h : Stands allowed order [record])
    (h' : Stands allowed order told) : Stands allowed order (record :: told) := h.append h'

/-- A record about a leg. -/
theorem Stands.leg {record : Record} (h : ∀ id, record.standing? = some id → isLegId id) :
    Stands allowed order [record] := by
  refine ⟨fun record' hrecord id hid hleg => ?_⟩
  obtain rfl := List.mem_singleton.mp hrecord
  exact absurd (h id hid) hleg

end

namespace VenueBook

section

variable {allowed : Prop} {order : ProtoOAOrder}

/-! ## The legs -/

/-- An event of a leg leaves no order standing. -/
theorem stands_legEvent (kind : OrderEventKind) (p : Position) (level : Level) (leg : Leg) (ts : ℤ)
    (quantity price : Option ℚ) (fill : Option Fill) :
    Stands allowed order [legEvent kind p level leg ts quantity price fill] := by
  refine .leg fun id hid => ?_
  unfold Record.standing? legEvent legId at hid
  dsimp only at hid
  split at hid
  · obtain ⟨entryOrderId, -, rfl⟩ := Option.map_eq_some_iff.mp hid
    exact isLegId_legVenueOrderId ..
  · cases hid

/-- A pass over the levels leaves none that its steps do not. -/
theorem stands_overLevels {I : Position → Prop} {f : Position → Level → Position × List Record}
    (hI : ∀ p level, I p → I (f p level).1) (hf : ∀ p level, I p → Stands allowed order (f p level).2)
    {p : Position} (hp : I p) : Stands allowed order (p.overLevels f).2 :=
  (hf p .stopLoss hp).append (hf _ .takeProfit (hI p .stopLoss hp))

/-- A pass over the legs leaves none that its steps do not. -/
theorem stands_overLegs {f : Level → Leg → Leg × List Record}
    (hf : ∀ level leg, Stands allowed order (f level leg).2) (p : Position) :
    Stands allowed order (p.overLegs f).2 := by
  refine stands_overLevels (I := fun _ => True) (fun _ _ _ => trivial) (fun p level _ => ?_) trivial
  dsimp only
  split
  · exact .nil
  · exact hf level _

/-- Following the change of a level leaves none. -/
theorem stands_levelChange (oldLevels : Levels) (manual : Bool) (ts : ℤ) (p : Position)
    (level : Level) : Stands allowed order (levelChange oldLevels manual ts p level).2 := by
  have hsaid (action : Action) : Stands allowed order
      (if manual then [activity .manualChange p action ts] else []) :=
    .ite (fun _ => .none rfl) fun _ => .nil
  unfold levelChange
  dsimp only
  split
  · exact (stands_legEvent ..).cons (hsaid _)
  · split
    · exact .nil
    · split
      · split
        · exact (stands_legEvent ..).cons (hsaid _)
        · exact hsaid _
      · split
        · exact hsaid _
        · split
          · exact (stands_legEvent ..).cons (hsaid _)
          · exact hsaid _

/-- Nor does following those of both. -/
theorem stands_levelChanges (oldLevels : Levels) (manual : Bool) (ts : ℤ) (p : Position) :
    Stands allowed order (levelChanges oldLevels manual ts p).2 := by
  refine .append (stands_overLevels (I := fun _ => True) (fun _ _ _ => trivial)
    (fun p level _ => stands_levelChange ..) trivial) (stands_overLegs (fun level leg => ?_) _)
  dsimp only
  split
  · exact stands_legEvent ..
  · exact .nil

/-- An end leaves nothing standing. -/
theorem stands_cancelLegs (ts : ℤ) (p : Position) : Stands allowed order (cancelLegs ts p).2 := by
  refine stands_overLegs (fun level leg => ?_) p
  split
  · exact .none rfl
  · exact .nil

/-- Going through a dict leaves none that its entries do not. -/
theorem stands_mapAccum {f : Level → ForeignLeg → ForeignLeg × List Record} {d : Dict Level ForeignLeg}
    (hf : ∀ level leg, d.get? level = some leg → Stands allowed order (f level leg).2) :
    Stands allowed order (d.mapAccum f).2 := by
  rw [Dict.mapAccum_emitted]
  refine ⟨fun record hrecord => ?_⟩
  obtain ⟨entry, hentry, hmem⟩ := List.mem_flatMap.mp hrecord
  exact (hf entry.1 entry.2 (Dict.get?_eq_some.mpr hentry)).only record hmem

/-- Ending the legs after a close leaves none. -/
theorem stands_closedBy (deal : ProtoOADeal) (p : Position) :
    Stands allowed order (closedBy deal p).2 := by
  refine (stands_cancelLegs ..).append (stands_mapAccum fun level leg _ => ?_)
  split
  · exact .none rfl
  · exact .nil

/-- The foreign legs of a position have leg ids. -/
def NamedAsLegs (p : Position) : Prop :=
  ∀ level leg, p.foreignLegs.get? level = some leg → isLegId leg.venueOrderId = true

/-- The foreign legs of a sound position go by leg ids. -/
theorem namedAsLegs_of_sound {p : Position} (hp : Sound p) : NamedAsLegs p := by
  intro level leg hleg
  obtain ⟨entryOrderId, -, hid⟩ := hp.foreignId level leg hleg
  rw [hid]
  exact isLegId_legVenueOrderId ..

/-- Positions with the same foreign legs name them alike. -/
theorem NamedAsLegs.congr {p q : Position} (h : NamedAsLegs p) (hsame : q.foreignLegs = p.foreignLegs) :
    NamedAsLegs q := by
  unfold NamedAsLegs
  rwa [hsame]

/-- A foreign leg set under a leg id is named as one. -/
theorem NamedAsLegs.set {p : Position} (h : NamedAsLegs p) {level : Level} {leg : ForeignLeg}
    (hleg : isLegId leg.venueOrderId = true) :
    NamedAsLegs { p with foreignLegs := p.foreignLegs.set level leg } := by
  intro level' leg' hget
  by_cases hlevel : level = level'
  · subst hlevel
    rw [Dict.get?_set_self, Option.some.injEq] at hget
    exact hget ▸ hleg
  · rw [Dict.get?_set_of_ne _ _ hlevel] at hget
    exact h level' leg' hget

/-- An event of a foreign leg leaves no order standing. -/
theorem stands_foreignUpdate {leg : ForeignLeg} (hleg : isLegId leg.venueOrderId = true)
    {event : OrderEvent} (hid : event.venueOrderId = some leg.venueOrderId) :
    Stands allowed order [.orderEvent event] := by
  refine .leg fun id hstanding => ?_
  unfold Record.standing? at hstanding
  dsimp only at hstanding
  split at hstanding
  · rw [hid, Option.some.injEq] at hstanding
    exact hstanding ▸ hleg
  · cases hstanding

/-- Following a level keeps the foreign legs named as legs. -/
theorem namedAsLegs_foreignChange (heldClosed : Finset String) (entryOrderId : ℤ)
    (oldLevels : Levels) (ts : ℤ) {p : Position} (hp : NamedAsLegs p) (level : Level) :
    NamedAsLegs (ForeignLegs.levelChange heldClosed entryOrderId oldLevels ts p level).1 := by
  unfold ForeignLegs.levelChange
  split
  · exact hp.set (isLegId_legVenueOrderId ..)
  · rename_i leg _ hlive
    rw [Option.filter_eq_some_iff] at hlive
    exact hp.set (hp level leg hlive.1)
  · rename_i price leg _ hlive
    rw [Option.filter_eq_some_iff] at hlive
    split
    · exact hp
    · exact hp.set (hp level leg hlive.1)
  · exact hp

/-- And leaves no order standing. -/
theorem stands_foreignChange (heldClosed : Finset String) (entryOrderId : ℤ) (oldLevels : Levels)
    (ts : ℤ) {p : Position} (hp : NamedAsLegs p) (level : Level) :
    Stands allowed order
      (ForeignLegs.levelChange heldClosed entryOrderId oldLevels ts p level).2 := by
  unfold ForeignLegs.levelChange
  split
  · refine .leg fun id hid => ?_
    unfold Record.standing? at hid
    dsimp only at hid
    split at hid
    · cases hid
      exact isLegId_legVenueOrderId ..
    · cases hid
  · exact .none rfl
  · rename_i price leg _ hlive
    rw [Option.filter_eq_some_iff] at hlive
    split
    · exact .nil
    · exact stands_foreignUpdate (hp level leg hlive.1) rfl
  · exact .nil

/-- Nor does following both levels. -/
theorem stands_foreignChanges (heldClosed : Finset String) (oldLevels : Levels) (ts : ℤ)
    {p : Position} (hp : NamedAsLegs p) :
    Stands allowed order (ForeignLegs.levelChanges heldClosed oldLevels ts p).2 := by
  unfold ForeignLegs.levelChanges
  split
  · unfold ForeignLegs.entryUnknown
    split
    · exact .nil
    · exact .none rfl
  · rename_i entryOrderId _
    have hnamed (q : Position) (level : Level) (hq : NamedAsLegs q) :
        NamedAsLegs (ForeignLegs.levelChange heldClosed entryOrderId oldLevels ts q level).1 :=
      namedAsLegs_foreignChange heldClosed entryOrderId oldLevels ts hq level
    refine .append (stands_overLevels hnamed (fun q level hq =>
      stands_foreignChange heldClosed entryOrderId oldLevels ts hq level) hp)
      (stands_mapAccum fun level leg hleg => ?_)
    dsimp only
    split
    · exact stands_foreignUpdate (hnamed _ _ (hnamed _ _ hp) level leg hleg) rfl
    · exact .nil

/-- Nor does a fill of a foreign leg. -/
theorem stands_filled {leg : ForeignLeg} (hleg : isLegId leg.venueOrderId = true) (volume : ℕ)
    (fill : Fill) : Stands allowed order (ForeignLegs.filled leg volume fill).2 := by
  unfold ForeignLegs.filled
  dsimp only
  refine .append (.ite (fun _ => ?_) fun _ => .nil) (.none rfl)
  exact stands_foreignUpdate hleg (by split <;> rfl)

/-- Nor does adopting an entry. -/
theorem stands_adopt (p : Position) (entry : ProtoOAOrder) (restored : Bool)
    (waiting : Finset String) : Stands allowed order (adopt p entry restored waiting).2 := by
  unfold adopt
  dsimp only
  split
  · exact .nil
  · split
    · exact .none rfl
    · exact .nil

end

/-! ## The handlers -/

/-- The same for what a handler tells, unless it raises. -/
def StandsHandled (allowed : Prop) (order : ProtoOAOrder) (h : Handled) : Prop :=
  Stands allowed order (recordsOf h.records)

section

variable {allowed : Prop} {order : ProtoOAOrder}

/-- Two parts leave the order standing only if one of them does. -/
theorem stands_andThen {h : Handled} {next : Focus → Handled}
    (hh : StandsHandled allowed order h) (hnext : StandsHandled allowed order (next h.focus)) :
    StandsHandled allowed order (h.andThen next) := by
  unfold StandsHandled at hh hnext ⊢
  unfold Handled.andThen
  cases hrecords : h.records with
  | error failure => exact .nil
  | ok told =>
    rw [hrecords] at hh
    show Stands allowed order (recordsOf (Except.map (told ++ ·) (next h.focus).records))
    cases hdone : (next h.focus).records with
    | error failure => exact .nil
    | ok later =>
      rw [hdone] at hnext
      exact Stands.append hh hnext

/-- Ending what a closed position leaves leaves none. -/
theorem stands_endIfClosed (event : ProtoOAExecutionEvent) (asked : Bool) (f : Focus) :
    StandsHandled allowed order (endIfClosed event asked f) := by
  unfold endIfClosed StandsHandled
  split
  · exact stands_closedBy ..
  · exact .nil

end

section

variable {event : ProtoOAExecutionEvent} {order : ProtoOAOrder}

/-- An order's report that its fills do not cover. -/
theorem stands_externalReport {reduceOnly : Bool} {fills : List Fill} {kind : ExternalType}
    {prices : Levels} {allowed : Prop}
    (h : (fills.map Fill.units).sum < volumeToUnits order.tradeData.volume → allowed) :
    Stands allowed order [.externalOrder (externalReport order reduceOnly fills kind prices)] := by
  refine ⟨fun record hrecord id hid _ => ?_⟩
  obtain rfl := List.mem_singleton.mp hrecord
  unfold Record.standing? at hid
  dsimp only at hid
  split at hid
  · rename_i huncovered
    cases hid
    exact ⟨h huncovered, rfl⟩
  · cases hid

/-- An event under the order's own id. -/
theorem stands_orderEvent {allowed : Prop} (h : allowed) {e : OrderEvent}
    (hid : e.venueOrderId = some (toString order.orderId)) :
    Stands allowed order [.orderEvent e] := by
  refine ⟨fun record hrecord id hstanding _ => ?_⟩
  obtain rfl := List.mem_singleton.mp hrecord
  unfold Record.standing? at hstanding
  dsimp only at hstanding
  split at hstanding
  · rw [hid, Option.some.injEq] at hstanding
    exact ⟨h, hstanding.symm⟩
  · cases hstanding

/-- A reported order stands unless its fills make up its volume. -/
theorem stands_reportExternal {allowed : Prop} {precision : ℕ} {reduceOnly : Bool}
    {fills : List Fill} {f : Focus}
    (h : (fills.map Fill.units).sum < volumeToUnits order.tradeData.volume → allowed) :
    StandsHandled allowed order (reportExternal order precision reduceOnly fills f) := by
  unfold reportExternal StandsHandled
  dsimp only
  split
  · exact .nil
  · exact stands_externalReport h

/-- Whether an event of an order Nautilus knows only from reports leaves it standing: one Nautilus does
not know, unless a fill covers it, or a new state, unless a newer one is held or the order ended. -/
def StandsExternal (event : ProtoOAExecutionEvent) (order : ProtoOAOrder) (b : Book) : Prop :=
  (order.orderId ∉ b.reported ∧ (event.executionType = .orderAccepted ∨
    isFill event.executionType ∧ event.deal.filledVolume < order.tradeData.volume)) ∨
  (event.executionType = .orderReplaced ∧ (isPending order.orderType →
    (keepOpenOrder event order (order.orderId ∈ b.reported) b).2 = true))

/-- An external event leaves its order standing when `StandsExternal` says so. -/
theorem stands_externalEvent (env : Env) (precision : ℕ) (reduceOnly : Bool) (f : Focus) :
    StandsHandled (StandsExternal event order f.book) order
      (externalEvent env event order precision reduceOnly f) := by
  unfold externalEvent
  dsimp only
  split
  · rename_i haccepted
    split
    · exact Stands.nil
    · rename_i hunknown
      rw [decide_eq_true_eq] at hunknown
      exact stands_reportExternal fun _ => .inl ⟨hunknown, .inl haccepted⟩
  · split
    · rename_i hfill
      split
      · exact Stands.nil
      · rename_i fill hfillOf
        split
        · exact Stands.none rfl
        · rename_i hunknown
          rw [decide_eq_true_eq] at hunknown
          refine stands_reportExternal fun huncovered => .inl ⟨hunknown, .inr ⟨hfill, ?_⟩⟩
          rw [List.map_singleton, List.sum_singleton, units_of_fillOf hfillOf] at huncovered
          by_contra hcovered
          exact absurd huncovered (not_lt.mpr (volumeToUnits_le.mpr (not_lt.mp hcovered)))
    · split
      · exact Stands.nil
      · split
        · rename_i hreplaced
          split
          · exact Stands.nil
          · rename_i hnewest
            split
            · exact Stands.nil
            · refine stands_orderEvent (.inr ⟨hreplaced, fun hpending => ?_⟩) rfl
              simpa [hpending] using hnewest
        · split
          · exact Stands.none (by
              rename_i ended hended
              cases hkind : event.executionType <;> rw [hkind] at hended <;> cases hended <;> rfl)
          · exact Stands.nil

/-- Following a fill's protection leaves none. -/
theorem stands_followProtection {allowed : Prop} (fill : Fill) (p : Position) :
    Stands allowed order (followProtection fill p).2 := by
  unfold followProtection
  split
  · exact stands_levelChanges ..
  · exact .nil

/-- An own entry is left standing by its first acceptance, or by a fill before one. -/
theorem stands_entryEvent (env : Env) (precision : ℕ) (f : Focus) :
    StandsHandled (f.position.entryAccepted = false ∧
      (event.executionType = .orderAccepted ∨ isFill event.executionType)) order
      (entryEvent env event order precision f) := by
  unfold entryEvent
  dsimp only
  split
  · rename_i haccepted
    split
    · exact Stands.nil
    · rename_i hnew
      rw [Bool.not_eq_true] at hnew
      exact stands_orderEvent ⟨hnew, .inl haccepted⟩ rfl
  · split
    · rename_i hfill
      split
      · exact Stands.nil
      · rename_i fill _
        refine Stands.append (Stands.append (Stands.ite (fun _ => .nil) fun hnew => ?_)
          (Stands.cons (.none rfl) (stands_followProtection ..))) ?_
        · rw [Bool.not_eq_true] at hnew
          exact stands_orderEvent ⟨hnew, .inr hfill⟩ rfl
        · unfold awaitLevels
          split
          · exact .none rfl
          · exact .nil
    · split
      · exact Stands.nil
      · rename_i ended hended
        refine Stands.cons (.none ?_) ?_
        · cases hkind : event.executionType <;> rw [hkind] at hended <;> cases hended <;> rfl
        · unfold endEntryLegs
          split
          · exact stands_cancelLegs ..
          · exact .nil

/-- So is a close of the node's. -/
theorem stands_nodeClose (env : Env) (closeId : String) (precision : ℕ) (f : Focus) :
    StandsHandled (order.orderId ∉ f.book.closesAccepted ∧
      (event.executionType = .orderAccepted ∨ isFill event.executionType)) order
      (nodeClose env event order closeId precision f) := by
  have haccepted (h : event.executionType = .orderAccepted ∨ isFill event.executionType) :
      Stands (order.orderId ∉ f.book.closesAccepted ∧
        (event.executionType = .orderAccepted ∨ isFill event.executionType)) order
        (if order.orderId ∈ f.book.closesAccepted then []
          else [orderNews .accepted order (some closeId)]) :=
    .ite (fun _ => .nil) fun hnew => stands_orderEvent ⟨hnew, h⟩ rfl
  unfold nodeClose
  dsimp only
  split
  · rename_i hkind
    exact haccepted (.inl hkind)
  · split
    · rename_i hfill
      split
      · exact Stands.nil
      · exact Stands.append (haccepted (.inr hfill)) (.none rfl)
    · split
      · rename_i ended hended
        refine Stands.none ?_
        cases hkind : event.executionType <;> rw [hkind] at hended <;> cases hended <;> rfl
      · exact Stands.nil

end

/-! ## The routes of an opening or closing order -/

/-- How the book takes an event of an order that is not protective, on a loaded symbol: as one of an
order it knows from reports, as one of the node's own entry or close, or not at all. -/
inductive Route
  | external | own | passed
deriving DecidableEq

/-- The route of an event. -/
def routeOf (ops : Operations) (b : Book) (event : ProtoOAExecutionEvent) (order : ProtoOAOrder) :
    Route :=
  let f := positionFor b event order
  if order.closingOrder then
    if (matchClosing ops event order (sync event order f)).2.isNone then .external else .own
  else if order.orderId ∈ b.endedEntries ∧ !isFill event.executionType then .passed
  else
    let p := (opened event order (takesEntry event order f.position) f).focus.position
    if p.ours && p.entryOrderId = some order.orderId then .own else .external

/-- Whether Nautilus was told that the node's own order was accepted. -/
def acceptanceTold (b : Book) (event : ProtoOAExecutionEvent) (order : ProtoOAOrder) : Bool :=
  let f := positionFor b event order
  if order.closingOrder then order.orderId ∈ b.closesAccepted
  else (opened event order (takesEntry event order f.position) f).focus.position.entryAccepted

/-- Whether an event leaves its order standing. -/
def LeavesStanding (ops : Operations) (b : Book) (event : ProtoOAExecutionEvent)
    (order : ProtoOAOrder) : Prop :=
  match routeOf ops b event order with
  | .external => StandsExternal event order b
  | .own => acceptanceTold b event order = false ∧
      (event.executionType = .orderAccepted ∨ isFill event.executionType)
  | .passed => False

section

variable {event : ProtoOAExecutionEvent} {order : ProtoOAOrder}

/-- Books with the same orders leave the same external ones standing. -/
theorem standsExternal_congr {b b' : Book} (hsame : SameOrders b b') :
    StandsExternal event order b' → StandsExternal event order b := by
  have htaken : (keepOpenOrder event order (order.orderId ∈ b'.reported) b').2 =
      (keepOpenOrder event order (order.orderId ∈ b.reported) b).2 := by
    unfold keepOpenOrder
    rw [hsame.reported, hsame.openOrders]
    dsimp only
    repeat' split
    all_goals rfl
  unfold StandsExternal
  rw [htaken, hsame.reported]
  exact id

/-- An opening event leaves its order standing when `LeavesStanding` says so. -/
theorem stands_openingOn {env : Env} {ops : Operations} {b : Book} (hb : AllSound b)
    (hclosing : order.closingOrder = false)
    (hroute : ¬ (order.orderId ∈ b.endedEntries ∧ !isFill event.executionType)) (precision : ℕ) :
    StandsHandled (LeavesStanding ops b event order) order
      (openingOn env event order precision (positionFor b event order)) := by
  have hsound := (positionFor_sound hb event order).1
  have hsame : SameOrders b (opened event order
      (takesEntry event order (positionFor b event order).position)
      (positionFor b event order)).focus.book :=
    (positionFor_sameOrders b event order).trans (opened_sameOrders ..)
  have hroute' : routeOf ops b event order =
      if (opened event order (takesEntry event order (positionFor b event order).position)
          (positionFor b event order)).focus.position.ours &&
        (opened event order (takesEntry event order (positionFor b event order).position)
          (positionFor b event order)).focus.position.entryOrderId = some order.orderId
      then .own else .external := by
    unfold routeOf
    dsimp only
    rw [if_neg (by rw [hclosing]; exact Bool.false_ne_true), if_neg hroute]
  have hentry : takesEntry event order (positionFor b event order).position →
      (positionFor b event order).position.entryOrderId = none := by
    intro h
    simp only [takesEntry, Bool.and_eq_true, Option.isNone_iff_eq_none] at h
    exact h.1
  -- the position stays sound through the sync, the learning and the taking
  have hopened : Does (fun _ => True) (positionFor b event order)
      (opened event order (takesEntry event order (positionFor b event order).position)
        (positionFor b event order)) :=
    does_opened hentry (fun _ _ => trivial) fun _ _ => trivial
  obtain ⟨-, -, moved, hmoves, -⟩ := hopened
  have hsound' := sound_moves hsound hmoves
  unfold openingOn
  dsimp only
  refine stands_andThen (stands_andThen ?_ ?_) ?_
  · refine Stands.append (Stands.append ?_ (.ite (fun _ => .none rfl) fun _ => .nil))
      (.ite (fun _ => .none rfl) fun _ => .nil)
    split
    · exact stands_adopt ..
    · exact .nil
  · unfold openingRecords LeavesStanding
    -- the node's own entry is told accepted or filled; another's is reported as an external order
    by_cases hown : (opened event order (takesEntry event order (positionFor b event order).position)
        (positionFor b event order)).focus.position.ours &&
      (opened event order (takesEntry event order (positionFor b event order).position)
        (positionFor b event order)).focus.position.entryOrderId = some order.orderId
    · rw [hroute', if_pos hown, if_pos hown]
      have htold : acceptanceTold b event order = (opened event order
          (takesEntry event order (positionFor b event order).position)
          (positionFor b event order)).focus.position.entryAccepted := by
        unfold acceptanceTold
        dsimp only
        rw [if_neg (by rw [hclosing]; exact Bool.false_ne_true)]
      rw [htold]
      exact stands_entryEvent ..
    · rw [hroute', if_neg hown, if_neg hown]
      show StandsHandled (StandsExternal event order b) order (openedExternal ..)
      refine stands_andThen ?_ ?_
      · exact Stands.mono (stands_externalEvent ..) (standsExternal_congr hsame)
      · refine Stands.append (.ite (fun _ => .none rfl) fun _ => .nil) ?_
        split
        · rw [externalEvent_position]
          exact stands_foreignChanges _ _ _ (namedAsLegs_of_sound hsound')
        · exact .nil
  · refine stands_andThen (Stands.ite (fun _ => .none rfl) fun _ => .nil) (stands_endIfClosed ..)

/-- Taking over an event's state accepts no close. -/
theorem sync_closesAccepted (f : Focus) :
    (sync event order f).book.closesAccepted = f.book.closesAccepted := by
  unfold sync
  split
  · rfl
  · split
    · rfl
    · dsimp only
      split <;> rfl

/-- Nor does finding its position. -/
theorem positionFor_closesAccepted (b : Book) :
    (positionFor b event order).book.closesAccepted = b.closesAccepted := by
  rcases positionFor_cases b event order with ⟨-, h⟩ | ⟨_, _, -, -, h⟩ | ⟨_, -, -, h⟩ <;> rw [h]

/-- A closing order that is not the node's is taken for no close. -/
theorem matchClosing_none {ops : Operations} {f : Focus}
    (h : (matchClosing ops event order f).2 = none) : (matchClosing ops event order f).1 = f := by
  revert h
  unfold matchClosing
  split
  · intro h
    cases h
  · split
    · split
      · split
        · intro _
          rfl
        · intro h
          cases h
      · intro _
        rfl
    · intro _
      rfl

/-- Nor does matching a closing order. -/
theorem matchClosing_accepted (ops : Operations) (f : Focus) :
    (matchClosing ops event order f).1.book.closesAccepted = f.book.closesAccepted := by
  unfold matchClosing
  split
  · rfl
  · split
    · split
      · split <;> rfl
      · rfl
    · rfl

/-- A closing event leaves its order standing when `LeavesStanding` says so. -/
theorem stands_closingOn {env : Env} {ops : Operations} {b : Book}
    (hclosing : order.closingOrder = true) (precision : ℕ) :
    StandsHandled (LeavesStanding ops b event order) order
      (closingOn env ops event order precision (positionFor b event order)) := by
  have hsynced : SameOrders b (sync event order (positionFor b event order)).book :=
    (positionFor_sameOrders b event order).trans (sync_sameOrders ..)
  have haccepted : (matchClosing ops event order (sync event order
      (positionFor b event order))).1.book.closesAccepted = b.closesAccepted := by
    rw [matchClosing_accepted, sync_closesAccepted, positionFor_closesAccepted]
  have htold : acceptanceTold b event order = decide (order.orderId ∈ b.closesAccepted) := by
    unfold acceptanceTold
    rw [if_pos hclosing]
  unfold closingOn
  dsimp only
  refine stands_andThen (stands_andThen (Stands.ite (fun _ => .none rfl) fun _ => .nil) ?_)
    (stands_endIfClosed ..)
  unfold closingRecords LeavesStanding routeOf
  rw [if_pos hclosing]
  cases hmatch : (matchClosing ops event order (sync event order (positionFor b event order))).2 with
  | some closeId =>
    show StandsHandled (acceptanceTold b event order = false ∧ _) order (nodeClose ..)
    refine Stands.mono (stands_nodeClose env closeId precision _) ?_
    rintro ⟨hnew, hkind⟩
    refine ⟨?_, hkind⟩
    rw [htold, decide_eq_false_iff_not, ← haccepted]
    exact hnew
  | none =>
    show StandsHandled (StandsExternal event order b) order (Handled.andThen _ _)
    have hunmatched : SameOrders b (matchClosing ops event order
        (sync event order (positionFor b event order))).1.book := by
      rw [matchClosing_none hmatch]
      exact hsynced
    refine stands_andThen (Stands.mono (stands_externalEvent ..) (standsExternal_congr hunmatched)) ?_
    refine Stands.ite (fun _ => ?_) fun _ => .nil
    unfold closeActivity
    dsimp only
    split
    · exact .none rfl
    · exact .ite (fun _ => .none rfl) fun _ => .nil

end

/-! ## Every call -/

section

variable {order : ProtoOAOrder}

/-- The level a trigger took leaves none. -/
theorem stands_triggeredLevel {allowed : Prop} (p : Position) (levels : Levels) (fillPrice : ℚ) :
    Stands allowed order (triggeredLevel p levels fillPrice).2 := by
  unfold triggeredLevel
  dsimp only
  split
  · exact .none rfl
  · refine ⟨fun record hrecord id hid => ?_⟩
    obtain ⟨notice, -, rfl⟩ := List.mem_map.mp hrecord
    cases hid

/-- A trigger's fill leaves only its own order. -/
theorem stands_takeTrigger (deal : ProtoOADeal) (fill : Fill) (level : Option Level)
    (levels : Levels) {f : Focus} (hf : NamedAsLegs f.position) :
    StandsHandled True order (takeTrigger order deal fill level levels f) := by
  unfold takeTrigger
  dsimp only
  split
  · exact stands_legEvent ..
  · rename_i hforeign
    obtain ⟨level', -, hlive⟩ := Option.bind_eq_some_iff.mp hforeign
    obtain ⟨leg', hfilter, heq⟩ := Option.map_eq_some_iff.mp hlive
    cases heq
    rw [Option.filter_eq_some_iff] at hfilter
    exact stands_filled (hf _ _ hfilter.1) deal.filledVolume fill
  · split
    · exact Stands.none rfl
    · exact stands_externalReport fun _ => trivial

/-- So does a changed protection. -/
theorem stands_protectiveChanged (env : Env) (ops : Operations) (event : ProtoOAExecutionEvent)
    (oldLevels : Levels) {f : Focus} (hf : NamedAsLegs f.position) :
    StandsHandled True order (protectiveChanged env ops event order oldLevels f) := by
  unfold protectiveChanged StandsHandled
  dsimp only [Focus.tell, recordsOf]
  split
  · exact stands_levelChanges ..
  · exact stands_foreignChanges _ _ _ (hf.congr (sync_legs event order f).foreignLegs)

/-- So does an event of a protective order as a whole. -/
theorem stands_protectiveOn (env : Env) (ops : Operations) (event : ProtoOAExecutionEvent)
    (precision : ℕ) {f : Focus} (hf : NamedAsLegs f.position) :
    StandsHandled True order (protectiveOn env ops event order precision f) := by
  unfold protectiveOn
  dsimp only
  split
  · refine stands_andThen (Stands.ite (fun _ => .none rfl) fun _ => .nil) ?_
    unfold triggered
    split
    · exact Stands.nil
    · split
      · exact Stands.nil
      · refine stands_andThen (stands_andThen ?_ (stands_takeTrigger _ _ _ _ ?_))
          (stands_endIfClosed ..)
        · exact stands_triggeredLevel ..
        · exact hf.congr (sync_legs event order _).foreignLegs
  · split
    · exact Stands.nil
    · split
      · exact Stands.nil
      · split
        · split
          · exact Stands.nil
          · exact stands_protectiveChanged env ops event _ (hf.congr rfl)
        · split
          · exact stands_protectiveChanged env ops event _ (hf.congr rfl)
          · exact Stands.nil

/-- Only a protective order, or one `LeavesStanding` names, is left standing by its event. -/
theorem stands_handleLoaded (env : Env) (ops : Operations) {b : Book} (hb : AllSound b)
    (event : ProtoOAExecutionEvent) (precision : ℕ) :
    StandsHandled (order.orderType = .stopLossTakeProfit ∨ LeavesStanding ops b event order) order
      (handleLoaded env ops b event order precision) := by
  have hnamed := namedAsLegs_of_sound (positionFor_sound hb event order).1
  unfold handleLoaded
  dsimp only
  split
  · rename_i hprotective
    exact Stands.mono (stands_protectiveOn env ops event precision hnamed) fun _ => .inl hprotective
  · split
    · rename_i hclosing
      exact Stands.mono (stands_closingOn hclosing precision) .inr
    · rename_i hclosing
      split
      · exact Stands.nil
      · rename_i hroute
        rw [Bool.not_eq_true] at hclosing
        exact Stands.mono (stands_openingOn hb hclosing hroute precision) .inr

/-- An event leaves standing only its own order, beside the legs, and on an unloaded symbol none. -/
theorem stands_handle (env : Env) (ops : Operations) {b : Book} (hb : AllSound b)
    (event : ProtoOAExecutionEvent) :
    Stands ((env.pricePrecision order.tradeData.symbolId).isSome ∧
        (order.orderType = .stopLossTakeProfit ∨ LeavesStanding ops b event order)) order
      (recordsOf (handle env ops b event order).2) := by
  unfold handle
  split
  · show Stands _ order (unloadedActivity event order)
    unfold unloadedActivity
    dsimp only
    split
    · exact .none rfl
    · split
      · exact .ite (fun _ => .none rfl) fun _ => .nil
      · split
        · exact .none rfl
        · exact .none rfl
        · exact .none rfl
        · exact .none rfl
        · exact .nil
  · rename_i precision hprecision
    refine Stands.mono (stands_handleLoaded env ops hb event precision) fun h => ⟨?_, h⟩
    rw [hprecision]
    rfl

end

end VenueBook

end NautilusCtrader
