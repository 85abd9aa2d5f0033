import NautilusCtrader.VenueBook.PendingOrders

/-!
# An ended order over a run

What one call does to an order: the calls that are not about it leave it as it is, and an event of it
that is `Regular` keeps `PendingKept`. After the end no such call reports the order as standing. Both
hold over any run from a reachable book by induction on its calls.
-/

namespace NautilusCtrader

open Common

namespace VenueBook

/-! ## Calls that are not about the order -/

/-- A book leaves its own order alone. -/
theorem SameOrder.refl (x : ℤ) (b : Book) : SameOrder x b b := ⟨rfl, rfl, Iff.rfl⟩

/-- An event of another order leaves an order as it is. -/
theorem sameOrder_handle {x : ℤ} (event : ProtoOAExecutionEvent) {order : ProtoOAOrder}
    (hx : x ≠ order.orderId) (env : Env) (ops : Operations) (b : Book) :
    SameOrder x b (handle env ops b event order).1 := by
  unfold handle
  split
  · obtain ⟨hopen, hreported, hother, -, -⟩ := trackUnloaded_pending event order b
    refine ⟨?_, hother x hx, ?_⟩
    · unfold openOrder
      rw [hopen]
    · rw [hreported]
  · exact rule_handleLoaded (sameOrder_rule hx) env ops b _

/-- Whether a call handles an event of the order. -/
def HandlesOrder (x : ℤ) (b : Book) : Operation → Prop
  | .apply _ _ event => ∃ order, Handles b event order ∧ order.orderId = x
  | _ => False

/-- A change of one position leaves every order. -/
theorem sameOrder_onPosition (x : ℤ) (b : Book) (positionId : ℤ)
    (change : Position → Position × List Record) : SameOrder x b (onPosition b positionId change).1 := by
  unfold onPosition
  split
  · exact .refl x b
  · exact ⟨rfl, rfl, Iff.rfl⟩

/-- So does a trailing stop. -/
theorem sameOrder_trailing (x : ℤ) (b : Book) (env : Env) (event : ProtoOATrailingSLChangedEvent) :
    SameOrder x b (trailingStopMoved env b event).1 := by
  unfold trailingStopMoved
  split
  · exact .refl x b
  · dsimp only
    split
    · exact .refl x b
    · split
      · exact .refl x b
      · split
        · exact .refl x b
        · split
          · exact ⟨rfl, rfl, Iff.rfl⟩
          · split
            · exact .refl x b
            · exact ⟨rfl, rfl, Iff.rfl⟩

/-- A call that handles no event of the order leaves it as it is. -/
theorem sameOrder_perform {x : ℤ} {b : Book} {operation : Operation}
    (h : ¬ HandlesOrder x b operation) : SameOrder x b (perform b operation).1 := by
  cases operation with
  | apply env ops event =>
    show SameOrder x b (apply env ops b event).1
    rcases apply_cases env ops b event with ⟨order, hhandles⟩ | hnothing
    · have hx : x ≠ order.orderId := fun heq => h ⟨order, hhandles, heq.symm⟩
      have hsame := sameOrder_handle event hx env ops b
      rw [apply_of_handles hhandles]
      split
      · exact hsame
      · exact hsame.trans ((markApplied_sameOrders event order _).pending.sameOrder x)
    · rw [hnothing]
      exact .refl x b
  | trailingStopMoved env event => exact sameOrder_trailing x b env event
  | entryFound env positionId orders => exact sameOrder_onPosition ..
  | cancelLeg positionId level ts => exact sameOrder_onPosition ..
  | rejectLegs positionId reason ts => exact sameOrder_onPosition ..
  | matchClose orderId positionId closeId =>
    show SameOrder x b (matchClose b orderId positionId closeId)
    unfold matchClose
    split
    · exact .refl x b
    · exact ⟨rfl, rfl, Iff.rfl⟩
  | endKeep positionId => exact ⟨rfl, rfl, Iff.rfl⟩
  | closedInReconciliation positionIds => exact ⟨rfl, rfl, Iff.rfl⟩

/-- What does not handle the order is not logged. -/
theorem after_of_not_handles {x : ℤ} {b : Book} {operation : Operation} (log : PendingLog)
    (h : ¬ HandlesOrder x b operation) : log.after x b operation = log := by
  cases operation with
  | apply env ops event =>
    unfold PendingLog.after
    dsimp only
    split
    · rfl
    · rename_i order horder
      exact if_neg fun hall => h ⟨order, hall.2.1, hall.1⟩
  | trailingStopMoved env event => rfl
  | entryFound env positionId orders => rfl
  | cancelLeg positionId level ts => rfl
  | rejectLegs positionId reason ts => rfl
  | matchClose orderId positionId closeId => rfl
  | endKeep positionId => rfl
  | closedInReconciliation positionIds => rfl

/-- What is kept of an order is read off the book's own of it. -/
theorem PendingKept.congr {x : ℤ} {s : Book × PendingLog} {b' : Book} (h : PendingKept x s)
    (hsame : SameOrder x s.1 b') : PendingKept x (b', s.2) where
  ended hended := by
    rw [hsame.openOrder, hsame.exposure]
    exact h.ended hended
  newest hstands held hheld := by
    rw [hsame.openOrder] at hheld
    exact h.newest hstands held hheld
  held hstands hmissing hreported := by
    rw [hsame.openOrder]
    exact h.held hstands hmissing (hsame.reported.mp hreported)

/-! ## An event of the order -/

section

variable {s : Book × PendingLog} {b' : Book} {event : ProtoOAExecutionEvent} {order : ProtoOAOrder}

/-- An event that does not reach the state held, and is applied. -/
theorem PendingKept.leaves (h : PendingKept order.orderId s)
    (hopen : openOrder b' order.orderId = openOrder s.1 order.orderId)
    (hreported : order.orderId ∈ b'.reported ↔ order.orderId ∈ s.1.reported)
    (hleaves : Leaves s.1 event order)
    (hexposure : (s.2.note event order).ended = true → orderExposure b' order.orderId = none) :
    PendingKept order.orderId (b', s.2.note event order) where
  ended hended := by
    refine ⟨?_, hexposure hended⟩
    show openOrder b' order.orderId = none
    rw [hopen]
    rcases Bool.or_eq_true_iff.mp hended with hbefore | hends
    · exact (h.ended hbefore).1
    · by_contra hsome
      obtain ⟨held, hheld⟩ := Option.ne_none_iff_exists'.mp hsome
      have hstands := (hleaves held hheld).1
      rw [hends] at hstands
      cases hstands
  newest hstands held hheld := by
    have hbefore := (Bool.or_eq_false_iff.mp hstands).1
    rw [hopen] at hheld
    obtain ⟨hmem, hnewest⟩ := h.newest hbefore held hheld
    refine ⟨List.mem_cons_of_mem _ hmem, fun state hstate => ?_⟩
    rcases List.mem_cons.mp hstate with rfl | hstate
    · exact (hleaves held hheld).2
    · exact hnewest state hstate
  held hstands hmissing hknown := by
    have hbefore := (Bool.or_eq_false_iff.mp hstands).1
    rw [hopen]
    exact h.held hbefore hmissing (hreported.mp hknown)

/-- On an unloaded symbol. -/
theorem PendingKept.unloaded (h : PendingKept order.orderId s)
    (htype : order.orderType ≠ .stopLossTakeProfit) (hregular : RegularUnloaded s event order) :
    PendingKept order.orderId (trackUnloaded event order s.1, s.2.note event order) := by
  obtain ⟨hopen, hreported, -, hnone, hends⟩ := trackUnloaded_pending event order s.1
  refine h.leaves ?_ ?_ hregular.1 fun hended => ?_
  · unfold openOrder
    rw [hopen]
  · rw [hreported]
  · rcases Bool.or_eq_true_iff.mp hended with hbefore | hnow
    · obtain ⟨haccepted, hreplaced⟩ := hregular.2 hbefore
      exact hnone haccepted hreplaced (h.ended hbefore).2
    · exact hends hnow htype

/-- An event on a loaded symbol whose handling leaves every order as it is. -/
theorem PendingKept.own (h : PendingKept order.orderId s) (hsame : SamePending s.1 b')
    (hleaves : Leaves s.1 event order)
    (hnone : endsOrder event.executionType = true → orderExposure s.1 order.orderId = none) :
    PendingKept order.orderId (b', s.2.note event order) := by
  have hsame' := hsame.sameOrder order.orderId
  refine h.leaves hsame'.openOrder hsame'.reported hleaves fun hended => ?_
  rw [hsame'.exposure]
  rcases Bool.or_eq_true_iff.mp hended with hbefore | hends
  · exact (h.ended hbefore).2
  · exact hnone hends

variable {env : Env} {precision : ℕ} {records : Except Failure (List Record)}

/-- An event that ends its order and is neither a fill nor of a state taken can always be told. -/
theorem readable_of_ended (hends : endsOrder event.executionType = true)
    (hfilled : event.executionType ≠ .orderFilled) (b : Book) :
    readable env event order precision b = true := by
  unfold readable takesState
  cases hkind : event.executionType <;> rw [hkind] at hends hfilled
  all_goals first
    | rfl
    | exact absurd rfl hfilled
    | exact absurd hends (by decide)

/-- Of an order known from reports: after its end, its event leaves nothing of it. -/
theorem PendingKept.externalEnded (h : PendingKept order.orderId s)
    (hpending : isPending order.orderType = true) (hended : s.2.ended = true)
    (htakes : TakesExternal env precision event order s.1 b' records)
    (hregular : RegularExternal env precision s event order) (log : PendingLog)
    (hlog : log.ended = true) : PendingKept order.orderId (b', log) := by
  obtain ⟨hnone, hexposure⟩ := h.ended hended
  unfold RegularExternal at hregular
  rw [if_pos hended] at hregular
  have hopen : openOrder b' order.orderId = none := by
    unfold openOrder
    rw [htakes.openOrders]
    rcases keepOpenOrder_cases event hpending s.1 with
      ⟨-, -, heq⟩ | ⟨hstands, -, -, hopens | ⟨held, hheld, -⟩⟩ | ⟨-, -, heq, -⟩
    · rw [heq, Dict.get?_erase_self]
    · rcases hregular hopens.2 with hknown | ⟨hfilled, -⟩
      · exact absurd hknown hopens.1
      · rw [hfilled] at hstands
        cases hstands
    · rw [hnone] at hheld
      cases hheld
    · rw [heq]
      exact hnone
  refine ⟨fun _ => ⟨hopen, ?_⟩, fun hstands => ?_, fun hstands => ?_⟩
  · unfold orderExposure
    rw [htakes.unloadedOrders]
    exact hexposure
  · rw [hlog] at hstands
    cases hstands
  · rw [hlog] at hstands
    cases hstands

/-- Of an order known from reports: before its end, its event ends it, states what is newest of it, or
leaves what is held. -/
theorem PendingKept.external (h : PendingKept order.orderId s)
    (hpending : isPending order.orderType = true) (hstands : s.2.ended = false)
    (htakes : TakesExternal env precision event order s.1 b' records)
    (hread : readable env event order precision s.1 = true → ∃ told, records = .ok told)
    (hregular : RegularExternal env precision s event order)
    (hexposure : endsOrder event.executionType = true → orderExposure s.1 order.orderId = none) :
    PendingKept order.orderId
      (b', if records.isOk = true then s.2.note event order else s.2) := by
  have hkept : openOrder b' order.orderId =
      (keepOpenOrder event order (order.orderId ∈ s.1.reported) s.1).1.openOrders.get?
        order.orderId := by
    unfold openOrder
    rw [htakes.openOrders]
  have hexposed : orderExposure b' order.orderId = orderExposure s.1 order.orderId := by
    unfold orderExposure
    rw [htakes.unloadedOrders]
  have hok (hreadable : readable env event order precision s.1 = true) : records.isOk = true := by
    obtain ⟨told, htold⟩ := hread hreadable
    rw [htold]
    rfl
  unfold RegularExternal at hregular
  rw [if_neg (by rw [hstands]; exact Bool.false_ne_true)] at hregular
  rcases keepOpenOrder_cases event hpending s.1 with
    ⟨hends, htaken, heq⟩ | ⟨hends, htaken, heq, hwhy⟩ | ⟨hends, htaken, heq, hknown⟩
  · rw [heq, Dict.get?_erase_self] at hkept
    rw [if_neg (by rw [htaken]; exact Bool.false_ne_true), if_pos hends] at hregular
    by_cases hdone : records.isOk = true
    · rw [if_pos hdone]
      have hended : (s.2.note event order).ended = true :=
        Bool.or_eq_true_iff.mpr (.inr hends)
      refine ⟨fun _ => ⟨hkept, hexposed.trans (hexposure hends)⟩, fun hopen => ?_, fun hopen => ?_⟩
      · exact absurd (hended.symm.trans hopen) (by decide)
      · exact absurd (hended.symm.trans hopen) (by decide)
    · rw [if_neg hdone]
      -- Only a fill whose amounts cannot be read is lost, and only where the order is not known.
      have hfilled : event.executionType = .orderFilled := by
        by_contra hnot
        exact hdone (hok (readable_of_ended hends hnot s.1))
      have hlost : ¬ ((openOrder s.1 order.orderId).isSome = true ∨ order.orderId ∉ s.1.reported ∧
          (fillOf event.deal precision env.moneyDigits).isOk = true) :=
        fun hwas => hdone (hok (hregular hfilled hwas))
      refine ⟨fun hended => ?_, fun _ held hheld => ?_, fun _ hmissing hreported => ?_⟩
      · exact absurd (hstands.symm.trans hended) (by decide)
      · rw [hkept] at hheld
        cases hheld
      · exfalso
        by_cases hbefore : order.orderId ∈ s.1.reported
        · exact hlost (.inl (h.held hstands hmissing hbefore))
        · refine hlost (.inr ⟨hbefore, ?_⟩)
          by_contra hunread
          rw [Bool.not_eq_true] at hunread
          have hfill : isFill event.executionType = true := by rw [hfilled]; rfl
          rw [htakes.unread hfill hunread] at hreported
          exact hbefore hreported
  · rw [heq, Dict.get?_set_self] at hkept
    rw [if_pos htaken] at hregular
    rw [if_pos (hok hregular.1)]
    have hopen : (s.2.note event order).ended = false := Bool.or_eq_false_iff.mpr ⟨hstands, hends⟩
    refine ⟨fun hended => ?_, fun _ held hheld => ?_, fun _ _ _ => ?_⟩
    · exact absurd (hopen.symm.trans hended) (by decide)
    · rw [hkept] at hheld
      cases hheld
      refine ⟨List.mem_cons_self, fun state hstate => ?_⟩
      rcases List.mem_cons.mp hstate with rfl | hstate
      · exact le_refl _
      · rcases hwhy with ⟨hnew, -⟩ | ⟨last, hlast, hnewer⟩
        · exact hregular.2 hnew state hstate
        · exact le_trans ((h.newest hstands last hlast).2 state hstate) hnewer
    · rw [hkept]
      rfl
  · rw [heq] at hkept
    rw [if_neg (by rw [htaken]; exact Bool.false_ne_true),
      if_neg (by rw [hends]; exact Bool.false_ne_true)] at hregular
    have hreported : order.orderId ∈ b'.reported ↔ order.orderId ∈ s.1.reported := by
      rcases htakes.reported with hsame | ⟨hopens, hsame⟩
      · rw [hsame]
      · rw [hsame, Finset.mem_insert]
        exact ⟨fun _ => hknown hopens, .inr⟩
    split
    · refine h.leaves hkept hreported hregular fun hended => ?_
      rcases Bool.or_eq_true_iff.mp hended with hbefore | hnow
      · exact absurd (hstands.symm.trans hbefore) (by decide)
      · exact absurd (hends.symm.trans hnow) (by decide)
    · exact h.congr ⟨hkept, hexposed, hreported⟩

end

/-- A pending order is not protective. -/
theorem ne_protective {order : ProtoOAOrder} (hpending : isPending order.orderType = true) :
    order.orderType ≠ .stopLossTakeProfit := by
  intro htype
  rw [htype] at hpending
  cases hpending

/-- A regular event of the order that is handled. -/
theorem kept_handle {s : Book × PendingLog} {env : Env} {ops : Operations}
    {event : ProtoOAExecutionEvent} {order : ProtoOAOrder} (h : PendingKept order.orderId s)
    (hregular : RegularEvent env ops s event order) :
    PendingKept order.orderId ((handle env ops s.1 event order).1,
      if (handle env ops s.1 event order).2.isOk = true then s.2.note event order else s.2) := by
  obtain ⟨hpending, hrest⟩ := hregular
  unfold handle
  cases hprecision : env.pricePrecision order.tradeData.symbolId with
  | none =>
    rw [hprecision] at hrest
    exact h.unloaded (ne_protective hpending) hrest
  | some precision =>
    rw [hprecision] at hrest
    obtain ⟨hexposure, hroute⟩ := hrest
    have hown (hleaves : Leaves s.1 event order) (hnot : routeOf ops s.1 event order ≠ .external) :
        PendingKept order.orderId
          ((handleLoaded env ops s.1 event order precision).focus.finish,
            if (handleLoaded env ops s.1 event order precision).records.isOk = true then
              s.2.note event order else s.2) := by
      have hsame := handleLoaded_own env (ne_protective hpending) hnot precision
      split
      · exact h.own hsame hleaves hexposure
      · exact h.congr (hsame.sameOrder order.orderId)
    cases hat : routeOf ops s.1 event order with
    | external =>
      rw [hat] at hroute
      obtain ⟨htakes, hread⟩ := handleLoaded_external env hpending hat precision
      by_cases hended : s.2.ended = true
      · refine h.externalEnded hpending hended htakes hroute _ ?_
        dsimp only
        split
        · exact Bool.or_eq_true_iff.mpr (.inl hended)
        · exact hended
      · rw [Bool.not_eq_true] at hended
        exact h.external hpending hended htakes hread hroute hexposure
    | own =>
      rw [hat] at hroute
      refine hown hroute.1 ?_
      rw [hat]
      exact Route.noConfusion
    | passed =>
      rw [hat] at hroute
      refine hown hroute ?_
      rw [hat]
      exact Route.noConfusion

/-- What is held of an order, a regular call keeps. -/
theorem kept_step {x : ℤ} {s : Book × PendingLog} {operation : Operation} (h : PendingKept x s)
    (hregular : Regular x s operation) : PendingKept x ((tracked x).step s operation).1 := by
  show PendingKept x ((perform s.1 operation).1, s.2.after x s.1 operation)
  by_cases hhandled : HandlesOrder x s.1 operation
  · cases operation with
    | apply env ops event =>
      obtain ⟨order, hhandles, rfl⟩ := hhandled
      have hkept := kept_handle h (hregular order hhandles.1 rfl hhandles)
      have hafter : s.2.after order.orderId s.1 (.apply env ops event) =
          if (handle env ops s.1 event order).2.isOk = true then s.2.note event order else s.2 := by
        unfold PendingLog.after
        dsimp only
        rw [hhandles.1, apply_of_handles hhandles]
        dsimp only
        cases hdone : (handle env ops s.1 event order).2 with
        | error failure => exact if_neg fun hall => Bool.false_ne_true hall.2.2
        | ok told => exact if_pos ⟨rfl, hhandles, rfl⟩
      rw [hafter]
      show PendingKept order.orderId ((apply env ops s.1 event).1, _)
      rw [apply_of_handles hhandles]
      split
      · exact hkept
      · exact hkept.congr ((markApplied_sameOrders event order _).pending.sameOrder order.orderId)
    | trailingStopMoved env event => exact hhandled.elim
    | entryFound env positionId orders => exact hhandled.elim
    | cancelLeg positionId level ts => exact hhandled.elim
    | rejectLegs positionId reason ts => exact hhandled.elim
    | matchClose orderId positionId closeId => exact hhandled.elim
    | endKeep positionId => exact hhandled.elim
    | closedInReconciliation positionIds => exact hhandled.elim
  · rw [after_of_not_handles s.2 hhandled]
    exact h.congr (sameOrder_perform hhandled)

/-! ## What is told of the order -/

/-- No record of an event of an order that ended leaves it standing. -/
theorem ended_not_standing {s : Book × PendingLog} {env : Env} {ops : Operations}
    {event : ProtoOAExecutionEvent} {order : ProtoOAOrder} (h : PendingKept order.orderId s)
    (hended : s.2.ended = true) (hregular : RegularEvent env ops s event order) :
    ¬ ((env.pricePrecision order.tradeData.symbolId).isSome ∧
      (order.orderType = .stopLossTakeProfit ∨ LeavesStanding ops s.1 event order)) := by
  obtain ⟨hpending, hrest⟩ := hregular
  rintro ⟨hloaded, hprotective | hstanding⟩
  · exact ne_protective hpending hprotective
  · obtain ⟨precision, hprecision⟩ := Option.isSome_iff_exists.mp hloaded
    rw [hprecision] at hrest
    have hroute := hrest.2
    unfold LeavesStanding at hstanding
    -- by the place the event reaches, each of which `RegularEvent` says something of
    cases hat : routeOf ops s.1 event order with
    | external =>
      rw [hat] at hroute hstanding
      unfold RegularExternal at hroute
      rw [if_pos hended] at hroute
      rcases hstanding with ⟨hnew, hkind⟩ | ⟨hreplaced, htaken⟩
      · have hopens : opensOrder event.executionType = true := by
          rcases hkind with haccepted | ⟨hfill, -⟩
          · rw [haccepted]
            rfl
          · unfold opensOrder
            rw [hfill, Bool.or_true]
        rcases hroute hopens with hknown | ⟨hfilled, hcovered⟩
        · exact hnew hknown
        · rcases hkind with haccepted | ⟨-, huncovered⟩
          · rw [hfilled] at haccepted
            cases haccepted
          · omega
      · have htook := htaken hpending
        rw [keepOpenOrder_taken hpending] at htook
        unfold takesState at htook
        rw [(h.ended hended).1, hreplaced] at htook
        simp [opensOrder, isFill] at htook
    | own =>
      rw [hat] at hroute hstanding
      have hopens : opensOrder event.executionType = true := by
        unfold opensOrder
        rcases hstanding.2 with haccepted | hfill
        · rw [haccepted]
          rfl
        · rw [hfill, Bool.or_true]
      have htold := hroute.2 hended hopens
      rw [hstanding.1] at htold
      cases htold
    | passed =>
      rw [hat] at hstanding
      exact hstanding

/-- A call beside the execution events reports no order but legs. -/
theorem stands_onPosition {allowed : Prop} {order : ProtoOAOrder} {b : Book} (hb : AllSound b)
    (positionId : ℤ) {change : Position → Position × List Record}
    (hchange : ∀ p, NamedAsLegs p → Stands allowed order (change p).2) :
    Stands allowed order (onPosition b positionId change).2 := by
  unfold onPosition
  split
  · exact .nil
  · rename_i p hp
    exact hchange p (namedAsLegs_of_sound (hb positionId p hp).1)

/-- Taking an entry leaves the foreign legs. -/
theorem adopt_foreignLegs (p : Position) (entry : ProtoOAOrder) (restored : Bool)
    (waiting : Finset String) : (adopt p entry restored waiting).1.foreignLegs = p.foreignLegs := by
  unfold adopt
  dsimp only
  split
  · rfl
  · split <;> rfl

/-- An entry that is found says nothing of another order. -/
theorem stands_foundEntry {allowed : Prop} {order : ProtoOAOrder} (heldClosed : Finset String)
    (orders : List ProtoOAOrder) {p : Position} (hp : NamedAsLegs p) :
    Stands allowed order (foundEntry heldClosed orders p).2 := by
  unfold foundEntry
  split
  · dsimp only
    split
    · exact stands_adopt ..
    · exact (stands_adopt ..).append (stands_foreignChanges _ _ _ (hp.congr (adopt_foreignLegs ..)))
  · exact .nil

/-- Nor does a trailing stop. -/
theorem stands_trailingStopMoved {allowed : Prop} {order : ProtoOAOrder} {b : Book}
    (hb : AllSound b) (env : Env) (event : ProtoOATrailingSLChangedEvent) :
    Stands allowed order (recordsOf (trailingStopMoved env b event).2) := by
  unfold trailingStopMoved
  split
  · exact .nil
  · rename_i p hp
    have hnamed : NamedAsLegs p := namedAsLegs_of_sound (hb _ p hp).1
    dsimp only
    split
    · exact .nil
    · split
      · exact .nil
      · split
        · exact .nil
        · split
          · exact .nil
          · split
            · exact .nil
            · dsimp only [recordsOf]
              split
              · exact stands_levelChanges ..
              · exact stands_foreignChanges _ _ _ (hnamed.congr rfl)

/-- Nor does a cancelled leg. -/
theorem stands_canceledLeg {allowed : Prop} {order : ProtoOAOrder} (level : Level) (ts : ℤ)
    (p : Position) : Stands allowed order (canceledLeg level ts p).2 := by
  unfold canceledLeg
  split
  · exact .nil
  · split
    · exact .nil
    · exact stands_legEvent ..

/-- Nor do rejected legs. -/
theorem stands_rejectedLegs {allowed : Prop} {order : ProtoOAOrder} (reason : String) (ts : ℤ)
    (p : Position) : Stands allowed order (rejectedLegs reason ts p).2 := by
  refine stands_overLegs (fun level leg => ?_) p
  split
  · exact .none rfl
  · exact .nil

/-- A call reports as standing no order but the one its event is of, if `apply` handles it. -/
theorem stands_perform {b : Book} (hb : AllSound b) (operation : Operation) :
    (∃ env ops event order, operation = .apply env ops event ∧ Handles b event order) ∨
      ∀ order, Stands False order (recordsOf (perform b operation).2) := by
  cases operation with
  | apply env ops event =>
    rcases apply_cases env ops b event with ⟨order, hhandles⟩ | hnothing
    · exact .inl ⟨env, ops, event, order, rfl, hhandles⟩
    · refine .inr fun order => ?_
      show Stands False order (recordsOf (apply env ops b event).2)
      rw [hnothing]
      exact .nil
  | trailingStopMoved env event => exact .inr fun _ => stands_trailingStopMoved hb env event
  | entryFound env positionId orders =>
    exact .inr fun _ => stands_onPosition hb positionId fun p hp => stands_foundEntry _ orders hp
  | cancelLeg positionId level ts =>
    exact .inr fun _ => stands_onPosition hb positionId fun p _ => stands_canceledLeg level ts p
  | rejectLegs positionId reason ts =>
    exact .inr fun _ => stands_onPosition hb positionId fun p _ => stands_rejectedLegs reason ts p
  | matchClose orderId positionId closeId => exact .inr fun _ => .nil
  | endKeep positionId => exact .inr fun _ => .nil
  | closedInReconciliation positionIds => exact .inr fun _ => .nil

/-- An event that is handled tells what its handling does. -/
theorem recordsOf_apply {b : Book} {event : ProtoOAExecutionEvent} {order : ProtoOAOrder}
    (h : Handles b event order) (env : Env) (ops : Operations) :
    recordsOf (apply env ops b event).2 = recordsOf (handle env ops b event order).2 := by
  rw [apply_of_handles h]
  split
  · rename_i failure hdone
    rw [hdone]
  · rename_i told hdone
    rw [hdone]

/-- Once an order ended, no regular call reports it as standing. -/
theorem ended_not_told {x : ℤ} {s : Book × PendingLog} (hb : AllSound s.1) (h : PendingKept x s)
    (hended : s.2.ended = true) {operation : Operation} (hregular : Regular x s operation)
    {record : Record} (hrecord : record ∈ recordsOf (perform s.1 operation).2) :
    record.standing? ≠ some (toString x) := by
  intro hstanding
  have hleg : ¬ isLegId (toString x) = true := by
    rw [isLegId_orderId]
    exact Bool.false_ne_true
  rcases stands_perform hb operation with ⟨env, ops, event, order, rfl, hhandles⟩ | hnever
  · have hmem : record ∈ recordsOf (apply env ops s.1 event).2 := hrecord
    rw [recordsOf_apply hhandles] at hmem
    obtain ⟨hallowed, hid⟩ :=
      (stands_handle env ops hb event).only record hmem _ hstanding hleg
    obtain rfl : x = order.orderId := intRepr_injective (congrArg String.toList hid)
    exact ended_not_standing h hended (hregular order hhandles.1 rfl hhandles) hallowed
  · exact ((hnever default).only record hrecord _ hstanding hleg).1

/-! ## A run -/

/-- An order that has ended stays ended in the log. -/
theorem ended_after {x : ℤ} {log : PendingLog} (hended : log.ended = true) (b : Book)
    (operation : Operation) : (log.after x b operation).ended = true := by
  by_cases hhandled : HandlesOrder x b operation
  · unfold PendingLog.after
    split
    · split
      · exact hended
      · split
        · exact Bool.or_eq_true_iff.mpr (.inl hended)
        · exact hended
    · exact hended
  · rw [after_of_not_handles log hhandled]
    exact hended

/-- What holds of an order in a state a run has reached, with the calls that follow: `PendingKept`, and
once it ended none of them reports it as standing. -/
structure StaysEnded (x : ℤ) (s : Book × PendingLog) (later : List Operation) : Prop where
  kept : PendingKept x s
  quiet : s.2.ended = true → ∀ record ∈ (tracked x).told s later, record.standing? ≠ some (toString x)

/-- The log of an order starts from the book. -/
theorem pendingKept_start (b : Book) (x : ℤ) : PendingKept x (b, PendingLog.start b x) where
  ended hended := absurd hended Bool.false_ne_true
  newest _ held hheld := by
    have hheld' : openOrder b x = some held := hheld
    unfold PendingLog.start
    dsimp only
    rw [hheld', Option.toList_some]
    refine ⟨List.mem_singleton_self held, fun state hstate => ?_⟩
    rw [List.mem_singleton.mp hstate]
  held _ hmissing hreported := by
    unfold PendingLog.start at hmissing
    dsimp only at hmissing hreported ⊢
    rw [decide_eq_true hreported, Bool.true_and, Option.isNone_eq_false_iff] at hmissing
    exact hmissing

/-- A logged step reaches what the step does. -/
theorem reachable_tracked {x : ℤ} {s : Book × PendingLog} (hs : Reachable s.1) (operation : Operation) :
    Reachable ((tracked x).step s operation).1.1 := .operation operation hs

/-- What a run keeps from the end of an order on, with everything told since. -/
structure EndedQuietly (x : ℤ) (told : List Record) (s : Book × PendingLog) : Prop where
  reachable : Reachable s.1
  kept : PendingKept x s
  ended : s.2.ended = true
  quiet : ∀ record ∈ told, record.standing? ≠ some (toString x)

/-- A regular step tells nothing more of an ended order. -/
theorem EndedQuietly.step {x : ℤ} {told : List Record} {s : Book × PendingLog} {operation : Operation}
    (h : EndedQuietly x told s) (hregular : Regular x s operation) :
    EndedQuietly x (told ++ ((tracked x).step s operation).2) ((tracked x).step s operation).1 := by
  refine ⟨reachable_tracked h.reachable operation, kept_step h.kept hregular,
    ended_after h.ended s.1 operation, fun record hrecord => ?_⟩
  rcases List.mem_append.mp hrecord with hearlier | hnow
  · exact h.quiet record hearlier
  · exact ended_not_told h.reachable.allSound h.kept h.ended hregular hnow

/-- **Pending orders that ended stay ended.** In a run of regular calls from any book a history leads
to, in every state reached: once an event that ends the order was applied, no state of it is held or
exposed and no later call reports it as standing, and until then the state held is the newest
applied. -/
theorem ended_orders_stay {b : Book} (hb : Reachable b) {x : ℤ} {operations : List Operation}
    (hregular : (tracked x).Always (Regular x) (b, .start b x) operations) (before later : List Operation)
    (hsplit : operations = before ++ later) :
    StaysEnded x ((tracked x).after (b, .start b x) before) later := by
  rw [hsplit, Machine.always_append] at hregular
  have hreached := Machine.after_invariant_of_always
    (I := fun s : Book × PendingLog => Reachable s.1 ∧ PendingKept x s)
    (fun s operation hs hop => ⟨reachable_tracked hs.1 operation, kept_step hs.2 hop⟩)
    ⟨hb, pendingKept_start b x⟩ hregular.1
  refine ⟨hreached.2, fun hended => ?_⟩
  have hstart : EndedQuietly x [] ((tracked x).after (b, .start b x) before) :=
    ⟨hreached.1, hreached.2, hended, fun _ h => absurd h List.not_mem_nil⟩
  exact (Machine.told_invariant_of_always (fun _ _ _ hs hop => hs.step hop) hstart hregular.2).quiet

/-! ## A cancelled order -/

section

open Sample

/-- A trader's pending order, at `ts`. -/
def pendingOrder (ts : ℤ) : ProtoOAOrder where
  orderId := 7
  tradeData := { symbolId := 1, volume := 1000, tradeSide := .buy, openTimestamp? := some 100 }
  orderType := .limit
  utcLastUpdateTimestamp? := some ts
  limitPrice? := some (.finite 90)

def pendingEvent (kind : ProtoOAExecutionType) (ts : ℤ) : Operation :=
  .apply env {} { executionType := kind, order? := some (pendingOrder ts) }

/-- Accepted, replaced and cancelled, and then the acceptance again. -/
def cancelledRun : List Operation :=
  [pendingEvent .orderAccepted 200, pendingEvent .orderReplaced 300, pendingEvent .orderCancelled 400,
    pendingEvent .orderAccepted 150]

/-- A cancelled order of which a later event comes. -/
theorem cancelled_order_stays_ended :
    StaysEnded 7 ((tracked 7).after ({}, .start {} 7) (cancelledRun.take 3)) (cancelledRun.drop 3) := by
  have hregular : (tracked 7).Always (Regular 7) ({}, .start {} 7) cancelledRun := by decide +kernel
  exact ended_orders_stay .new hregular _ _ rfl

/-- The events of a call are of pending orders. -/
def StatesPending : Operation → Prop
  | .apply _ _ event => ∀ order ∈ event.order?, isPending order.orderType = true
  | _ => True

instance (operation : Operation) : Decidable (StatesPending operation) :=
  match operation with
  | .apply _ _ event =>
    inferInstanceAs (Decidable (∀ order ∈ event.order?, isPending order.orderType = true))
  | .trailingStopMoved .. => inferInstanceAs (Decidable True)
  | .entryFound .. => inferInstanceAs (Decidable True)
  | .cancelLeg .. => inferInstanceAs (Decidable True)
  | .rejectLegs .. => inferInstanceAs (Decidable True)
  | .matchClose .. => inferInstanceAs (Decidable True)
  | .endKeep .. => inferInstanceAs (Decidable True)
  | .closedInReconciliation .. => inferInstanceAs (Decidable True)

/-- A cancellation applied before the acceptance of its order: the acceptance brings it back. -/
theorem late_acceptance_revives : ¬ ∀ b, Reachable b → ∀ (x : ℤ) (operations : List Operation),
    (∀ operation ∈ operations, StatesPending operation) →
    ∀ before later, operations = before ++ later →
      StaysEnded x ((tracked x).after (b, .start b x) before) later := by
  intro h
  have hall := h {} .new 7 [pendingEvent .orderCancelled 400, pendingEvent .orderAccepted 200]
    (by decide +kernel) _ [] (List.append_nil _).symm
  exact absurd (hall.kept.ended (by decide +kernel)).1 (by decide +kernel)

end

end VenueBook

end NautilusCtrader
