import NautilusCtrader.VenueBook.BookRule

/-!
# The closes the book has matched

A broker order is matched to a close of the node that no other order has, with its position, and it stays
matched.
-/

namespace NautilusCtrader

open Common

namespace VenueBook

/-- One close id names one broker order, and each order matched has its position recorded. -/
structure Matched (b : Book) : Prop where
  injective : ∀ orderId orderId' closeId, b.closes.get? orderId = some closeId →
    b.closes.get? orderId' = some closeId → orderId = orderId'
  recorded : ∀ orderId closeId, b.closes.get? orderId = some closeId →
    ∃ positionId, b.closePositions.get? orderId = some positionId

variable {b b' : Book}

/-- The matches are read off the closes. -/
theorem Matched.congr (h : Matched b) (hcloses : b'.closes = b.closes)
    (hpositions : b'.closePositions = b.closePositions) : Matched b' := by
  refine ⟨?_, ?_⟩
  · rw [hcloses]
    exact h.injective
  · rw [hcloses, hpositions]
    exact h.recorded

/-- Taking a broker order for a close that no order has. -/
theorem Matched.take (h : Matched b) {orderId positionId : ℤ} {closeId : String}
    (hcloses : b'.closes = b.closes.set orderId closeId)
    (hpositions : b'.closePositions = b.closePositions.set orderId positionId)
    (hunclaimed : closeId ∉ b.closes.values) : Matched b' := by
  have hother (other : ℤ) (hget : b.closes.get? other = some closeId) : False :=
    hunclaimed (Dict.mem_values.mpr ⟨other, hget⟩)
  refine ⟨fun first second found hfirst hsecond => ?_, fun found closeId' hfound => ?_⟩
  · rw [hcloses] at hfirst hsecond
    rcases Dict.get?_set_eq_some.mp hfirst with ⟨rfl, rfl⟩ | ⟨-, hold⟩
    · rcases Dict.get?_set_eq_some.mp hsecond with ⟨hsame, -⟩ | ⟨-, hold⟩
      · exact hsame
      · exact (hother second hold).elim
    · rcases Dict.get?_set_eq_some.mp hsecond with ⟨rfl, rfl⟩ | ⟨-, hold'⟩
      · exact (hother first hold).elim
      · exact h.injective first second found hold hold'
  · rw [hcloses] at hfound
    rw [hpositions]
    rcases Dict.get?_set_eq_some.mp hfound with ⟨rfl, -⟩ | ⟨hne, hold⟩
    · exact ⟨positionId, Dict.get?_set_self _ _ _⟩
    · obtain ⟨positionId', hat⟩ := h.recorded found closeId' hold
      exact ⟨positionId', (Dict.get?_set_of_ne _ _ hne).trans hat⟩

/-! ## One call -/

/-- Keeping an open order matches no close. -/
theorem keepOpenOrder_closes (event : ProtoOAExecutionEvent) (order : ProtoOAOrder) (known : Bool)
    (b : Book) : (keepOpenOrder event order known b).1.closes = b.closes ∧
      (keepOpenOrder event order known b).1.closePositions = b.closePositions := by
  unfold keepOpenOrder
  dsimp only
  split
  · exact ⟨rfl, rfl⟩
  · split
    · exact ⟨rfl, rfl⟩
    · split
      · exact ⟨rfl, rfl⟩
      · split
        · split
          · exact ⟨rfl, rfl⟩
          · split
            · exact ⟨rfl, rfl⟩
            · exact ⟨rfl, rfl⟩
        · exact ⟨rfl, rfl⟩

/-- Every step of an event's handling keeps the closes matched. -/
theorem matched_rule (event : ProtoOAExecutionEvent) (order : ProtoOAOrder) :
    BookRule event order (fun b b' => Matched b → Matched b') where
  trans hfirst hsecond := hsecond ∘ hfirst
  same hsame h := h.congr hsame.closes hsame.closePositions
  keeps b known h :=
    h.congr (keepOpenOrder_closes event order known b).1 (keepOpenOrder_closes event order known b).2
  reports _ h := h.congr rfl rfl
  takes _ _ _ _ hunclaimed h := h.take rfl rfl hunclaimed

/-- Nor does tracking one of an unloaded symbol. -/
theorem trackUnloaded_closes (event : ProtoOAExecutionEvent) (order : ProtoOAOrder) (b : Book) :
    (trackUnloaded event order b).closes = b.closes ∧
      (trackUnloaded event order b).closePositions = b.closePositions := by
  have hsynced : SameOrders b (if event.position?.isSome || isFill event.executionType then
      (sync event order (positionFor b event order)).finish else b) := by
    split
    · exact (positionFor_sameOrders ..).trans
        ((sync_sameOrders ..).trans (finish_sameOrders _))
    · exact .refl b
  have hsame := And.intro hsynced.closes hsynced.closePositions
  unfold trackUnloaded
  dsimp only
  split
  · exact hsame
  · split
    · exact hsame
    · split
      · exact hsame
      · split
        · exact hsame
        · exact hsame

/-- An event keeps the matches one to one. -/
theorem matched_apply (h : Matched b) (env : Env) (ops : Operations)
    (event : ProtoOAExecutionEvent) : Matched (apply env ops b event).1 := by
  have hhandled (order : ProtoOAOrder) : Matched (handle env ops b event order).1 := by
    unfold handle
    split
    · exact h.congr (trackUnloaded_closes event order b).1 (trackUnloaded_closes event order b).2
    · exact rule_handleLoaded (matched_rule event order) env ops b _ h
  unfold apply
  split
  · exact h
  · rename_i order _
    split
    · exact h
    · split
      · exact h
      · dsimp only
        split
        · exact hhandled order
        · have hmarked := markApplied_sameOrders event order (handle env ops b event order).1
          exact (hhandled order).congr hmarked.closes hmarked.closePositions

/-- So does every call. -/
theorem matched_perform (h : Matched b) (operation : Operation) :
    Matched (perform b operation).1 := by
  have hposition (positionId : ℤ) (change : Position → Position × List Record) :
      Matched (onPosition b positionId change).1 := by
    unfold onPosition
    split
    · exact h
    · exact h.congr rfl rfl
  cases operation with
  | apply env ops event => exact matched_apply h env ops event
  | trailingStopMoved env event =>
    show Matched (trailingStopMoved env b event).1
    unfold trailingStopMoved
    split
    · exact h
    · dsimp only
      split
      · exact h
      · split
        · exact h
        · split
          · exact h
          · split
            · exact h.congr rfl rfl
            · split
              · exact h
              · exact h.congr rfl rfl
  | entryFound env positionId orders => exact hposition ..
  | cancelLeg positionId level ts => exact hposition ..
  | rejectLegs positionId reason ts => exact hposition ..
  | matchClose orderId positionId closeId =>
    show Matched (matchClose b orderId positionId closeId)
    unfold matchClose
    split
    · exact h
    · rename_i hnew
      rw [Bool.or_eq_true, not_or, decide_eq_true_eq] at hnew
      exact h.take rfl rfl hnew.2
  | endKeep positionId => exact h.congr rfl rfl
  | closedInReconciliation positionIds => exact h.congr rfl rfl

/-! ## A load -/

/-- Loaded positions match no close. -/
theorem loadPositions_closes (env : Env) (waiting : Finset String) (orders : ℤ → List ProtoOAOrder)
    (states : List ProtoOAPosition) (b : Book) :
    (loadPositions env waiting orders states b).1.closes = b.closes ∧
      (loadPositions env waiting orders states b).1.closePositions = b.closePositions := by
  induction states generalizing b with
  | nil => exact ⟨rfl, rfl⟩
  | cons state rest ih =>
    unfold loadPositions
    dsimp only
    split
    · exact ⟨rfl, rfl⟩
    · exact ih _

/-- Nor do loaded orders. -/
theorem loadOrders_closes (env : Env) (orders : List ProtoOAOrder) (b : Book) :
    (orders.foldl (loadOrder env) b).closes = b.closes ∧
      (orders.foldl (loadOrder env) b).closePositions = b.closePositions := by
  have hone (b : Book) (order : ProtoOAOrder) : (loadOrder env b order).closes = b.closes ∧
      (loadOrder env b order).closePositions = b.closePositions := by
    unfold loadOrder
    split
    · split
      · exact ⟨rfl, rfl⟩
      · exact ⟨rfl, rfl⟩
    · dsimp only
      split
      · exact ⟨rfl, rfl⟩
      · split
        · exact ⟨rfl, rfl⟩
        · exact ⟨rfl, rfl⟩
  induction orders generalizing b with
  | nil => exact ⟨rfl, rfl⟩
  | cons order rest ih =>
    obtain ⟨hcloses, hpositions⟩ := ih (loadOrder env b order)
    exact ⟨hcloses.trans (hone b order).1, hpositions.trans (hone b order).2⟩

/-- A load keeps the matches. -/
theorem matched_load (h : Matched b) (env : Env) (snapshot : ProtoOAReconcileRes)
    (orders : ℤ → List ProtoOAOrder) (keepGone : Bool) (readMs : ℤ) (waiting : Finset String) :
    Matched (load env b snapshot orders keepGone readMs waiting).1 := by
  have hpositions := fun waiting b' => loadPositions_closes env waiting orders snapshot.position b'
  unfold load
  dsimp only
  split
  · exact h.congr (hpositions _ _).1 (hpositions _ _).2
  · exact h.congr ((loadOrders_closes env snapshot.order _).1.trans (hpositions _ _).1)
      ((loadOrders_closes env snapshot.order _).2.trans (hpositions _ _).2)

/-- Every reachable book has them one to one. -/
theorem Reachable.matched (hb : Reachable b) : Matched b := by
  induction hb with
  | new =>
    refine ⟨fun orderId orderId' closeId hget _ => ?_, fun orderId closeId hget => ?_⟩
    · exact absurd hget.symm (Option.some_ne_none closeId)
    · exact absurd hget.symm (Option.some_ne_none closeId)
  | operation operation _ ih => exact matched_perform ih operation
  | load env snapshot orders keepGone readMs waiting _ ih =>
    exact matched_load ih env snapshot orders keepGone readMs waiting

end VenueBook

end NautilusCtrader
