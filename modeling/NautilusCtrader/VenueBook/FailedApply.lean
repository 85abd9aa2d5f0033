import NautilusCtrader.Common.Raising
import NautilusCtrader.VenueBook.UnheldOpenings

/-!
# An event applied again after its handling raised

Both attempts take the same route. Each route has its condition for the second to leave and tell what
the only one would have, and `Replayable` is the condition of the event's own.
-/

namespace NautilusCtrader

open Common OrderRecord

namespace VenueBook

section

variable {env : Env} {ops : Operations} {event : ProtoOAExecutionEvent} {order : ProtoOAOrder}
  {precision : ℕ} {f g : Focus} {failure : Failure}

/-! ## The whole event -/

/-- Whether an order is marked first is read off those reported. -/
theorem marksFirst_congr {b b' : Book} (h : b'.reported = b.reported) :
    marksFirst env event order precision b' = marksFirst env event order precision b := by
  unfold marksFirst
  rw [h]

/-- The position is put back where it was. -/
theorem finish_get? {x : ℤ} (h : f.stored = some x) :
    f.finish.positions.get? x = some f.position := by
  unfold Focus.finish
  rw [h]
  exact Dict.get?_set_self ..

/-- An attempt that changes nothing leaves the book it found, with the event's position in it. -/
theorem positionFor_again (b : Book) (event : ProtoOAExecutionEvent) (order : ProtoOAOrder) :
    positionFor (positionFor b event order).finish event order = positionFor b event order := by
  rcases positionFor_cases b event order with ⟨hnone, h⟩ | ⟨x, p, hx, hp, h⟩ | ⟨x, hx, hp, h⟩
  · rw [h]
    exact h
  · have hsame : (positionFor b event order).finish = b := by
      rw [h]
      show { b with positions := b.positions.set x p } = b
      rw [Dict.set_get? hp]
    rw [hsame]
  · have hget : ({ b with positions := b.positions.set x (newPosition event order) } :
        Book).positions.get? x = some (newPosition event order) := Dict.get?_set_self ..
    have hsame : (positionFor b event order).finish =
        { b with positions := b.positions.set x (newPosition event order) } := by
      rw [h]
      show ({ b with positions := (b.positions.set x _).set x _ } : Book) = _
      rw [Dict.set_set]
    rw [hsame, h]
    unfold positionFor
    rw [hx]
    dsimp only
    rw [hget]

/-- An event without a position id is handled on a new position. -/
theorem positionFor_unheld {b : Book} (h : (positionFor b event order).stored = none) :
    order.positionId? = none ∧ positionFor b event order = ⟨b, newPosition event order, none⟩ := by
  rcases positionFor_cases b event order with ⟨hnone, heq⟩ | ⟨x, p, -, -, heq⟩ | ⟨x, -, -, heq⟩
  · exact ⟨hnone, heq⟩
  · rw [heq] at h
    cases h
  · rw [heq] at h
    cases h

/-- A position that is stored has the event's id. -/
theorem positionFor_held {b : Book} {x : ℤ} (h : (positionFor b event order).stored = some x) :
    order.positionId? = some x := by
  rcases positionFor_cases b event order with ⟨hnone, heq⟩ | ⟨y, p, hy, -, heq⟩ | ⟨y, hy, -, heq⟩
  · rw [heq] at h
    cases h
  · rw [heq] at h
    exact hy.trans h
  · rw [heq] at h
    exact hy.trans h

/-- A new position is not stored. -/
theorem positionFor_none {b : Book} (h : order.positionId? = none) :
    positionFor b event order = ⟨b, newPosition event order, none⟩ := by
  unfold positionFor
  rw [h]

/-- The second attempt's handling of an event: the same records, and the same book. -/
structure Again (again once : Handled) : Prop where
  records : again.records = once.records
  book : again.focus.finish = once.focus.finish

/-- What two attempts at an event that are alike have in common. -/
structure Alike (again once : Handled) : Prop where
  records : again.records = once.records
  positions : again.focus.finish.positions = once.focus.finish.positions

/-- Attempts that do the same are alike. -/
theorem Again.alike {again once : Handled} (h : Again again once) : Alike again once :=
  ⟨h.records, congrArg Book.positions h.book⟩

/-- Attempts that are alike leave the same position. -/
theorem Alike.position {again once : Handled} {x : ℤ} (h : Alike again once)
    (hagain : again.focus.stored = some x) (honce : once.focus.stored = some x) :
    again.focus.position = once.focus.position := by
  have hget : again.focus.finish.positions.get? x = once.focus.finish.positions.get? x := by
    rw [h.positions]
  rw [finish_get? hagain, finish_get? honce] at hget
  exact Option.some.inj hget

/-- Matching a close syncs no deal. -/
theorem matchClosing_deals :
    (matchClosing ops event order f).1.book.syncedDeals = f.book.syncedDeals := by
  unfold matchClosing
  split
  · rfl
  · dsimp only
    split
    · split
      · split <;> rfl
      · rfl
    · rfl

/-- Nor does what follows. -/
theorem closingBy_deals (found : Focus × Option String) :
    (closingBy env event order precision found).syncedDeals = found.1.book.syncedDeals := by
  unfold closingBy
  split
  · rfl
  · exact (reportedBy_fields ..).2.2.1

/-- The state a first attempt at a closing order took is not taken again. -/
theorem sync_closing_held
    (hraised : (closingOn env ops event order precision f).records = .error failure) :
    sync event order (closingOn env ops event order precision f).focus =
      (closingOn env ops event order precision f).focus := by
  rw [closingOn_raised hraised]
  refine sync_again (f := f) ?_ ?_
  · dsimp only
    rw [(matchClosing_does ops event order (sync event order f)).2.1]
  · dsimp only
    rw [closingBy_deals, matchClosing_deals]

/-- The state a closing order's event brings a new position is the same from the book a first attempt
left. -/
theorem sync_closing_unheld (hclosing : order.closingOrder = true)
    (hclosed : f.position.isOpen = false)
    (hraised : (closingOn env ops event order precision f).records = .error failure) :
    sync event order { f with book := (closingOn env ops event order precision f).focus.book } =
      (closingOn env ops event order precision f).focus := by
  have hleft := closingOn_raised hraised
  have hposition : (closingOn env ops event order precision f).focus.position =
      (sync event order f).position := by
    rw [hleft]
    exact (matchClosing_does ops event order (sync event order f)).2.1
  have hstored : (closingOn env ops event order precision f).focus.stored = f.stored :=
    stored_closingOn ..
  have hdeals : (closingOn env ops event order precision f).focus.book.syncedDeals =
      (sync event order f).book.syncedDeals := by
    rw [hleft]
    dsimp only
    rw [closingBy_deals, matchClosing_deals]
  generalize (closingOn env ops event order precision f).focus = g at hposition hstored hdeals
  obtain ⟨c, p, stored⟩ := g
  dsimp only at hposition hstored hdeals ⊢
  subst hposition
  subst hstored
  unfold sync at hdeals ⊢
  cases hstate : event.position? with
  | some state => rfl
  | none =>
    rw [hstate] at hdeals
    dsimp only at hdeals ⊢
    cases hdeal : event.deal? with
    | none => rfl
    | some deal =>
      rw [hdeal] at hdeals
      dsimp only at hdeals ⊢
      by_cases hskip : (!isFill event.executionType || decide (deal.dealId ∈ f.book.syncedDeals)) = true
      · rw [if_pos hskip] at hdeals ⊢
        rw [hdeals, if_pos hskip]
      · rw [if_neg hskip] at hdeals ⊢
        have hin : deal.dealId ∈ c.syncedDeals := hdeals ▸ Finset.mem_insert_self ..
        rw [decide_eq_true hin, Bool.or_true, if_pos rfl]
        unfold syncDeal
        rw [hclosing, hclosed]
        rfl

section

variable {env' : Env} {precision' : ℕ} {told : List Record} {b : Book}

/-- The second attempt at a closing order does what an attempt from the close matched does. -/
theorem closingOn_second (env' : Env) (precision' : ℕ) (hclosing : order.closingOrder = true)
    (hraised : (closingOn env ops event order precision (positionFor b event order)).records =
      .error failure) :
    ∃ k, sync event order k =
        (closingOn env ops event order precision (positionFor b event order)).focus ∧
      Again (closingOn env' ops event order precision' (positionFor
          (closingOn env ops event order precision (positionFor b event order)).focus.finish
            event order))
        (closingOn env' ops event order precision' k) := by
  have hstored : (closingOn env ops event order precision (positionFor b event order)).focus.stored =
      (positionFor b event order).stored := stored_closingOn ..
  cases hheld : (positionFor b event order).stored with
  | some x =>
    refine ⟨_, sync_closing_held hraised, ?_⟩
    rw [hheld] at hstored
    rw [positionFor_finish hheld hstored]
    obtain ⟨hbook, hrecords⟩ := finish_again
      (closingOn env' ops event order precision')
      (fun positions k => closingOn_withPositions env' ops precision' k)
      (fun k => stored_closingOn env' ops event order precision' k) hstored
    exact ⟨hrecords, hbook⟩
  | none =>
    obtain ⟨hnone, hnew⟩ := positionFor_unheld hheld
    have hclosed : (positionFor b event order).position.isOpen = false := by
      rw [hnew]
      rfl
    refine ⟨_, sync_closing_unheld hclosing hclosed hraised, ?_⟩
    rw [positionFor_none hnone]
    have hfinish : (closingOn env ops event order precision (positionFor b event order)).focus.finish =
        (closingOn env ops event order precision (positionFor b event order)).focus.book := by
      unfold Focus.finish
      rw [hstored, hheld]
    rw [hfinish]
    have hk (c : Book) : { positionFor b event order with book := c } =
        Focus.mk c (newPosition event order) none := by
      rw [hnew]
    rw [hk]
    exact ⟨rfl, rfl⟩

/-- Whether a close is the node's does not depend on the sync. -/
theorem nodesClose_sync : nodesClose ops event order (sync event order (positionFor b event order)).book
      (sync event order (positionFor b event order)).position =
    nodesClose ops event order b (positionFor b event order).position := by
  have horders := (positionFor_sameOrders b event order).trans (sync_sameOrders event order _)
  have hid : (sync event order (positionFor b event order)).position.positionId =
      (positionFor b event order).position.positionId := (sync_legs ..).positionId
  unfold nodesClose
  rw [horders.closes, horders.reported, hid]

/-- Nor does whether the order is marked first. -/
theorem marksFirst_sync : marksFirst env event order precision
      (sync event order (positionFor b event order)).book =
    marksFirst env event order precision b :=
  marksFirst_congr ((positionFor_sameOrders b event order).trans (sync_sameOrders event order _)).reported

/-- A closing event that raised is done again, if the close was the node's or already reported. -/
theorem closing_again (hclosing : order.closingOrder = true)
    (hraised : (closingOn env ops event order precision (positionFor b event order)).records =
      .error failure)
    (hkeeps : nodesClose ops event order b (positionFor b event order).position = true ∨
      marksFirst env event order precision b = false) :
    Again (closingOn env' ops event order precision' (positionFor
          (closingOn env ops event order precision (positionFor b event order)).focus.finish
            event order))
      (closingOn env' ops event order precision' (positionFor b event order)) := by
  obtain ⟨k, hk, hsecond⟩ := closingOn_second env' precision' hclosing hraised
  rw [← nodesClose_sync, ← marksFirst_sync] at hkeeps
  rw [closingOn_again hraised hk hkeeps] at hsecond
  exact hsecond

/-- Otherwise its second attempt misses the first's report. -/
theorem closing_misses (hclosing : order.closingOrder = true)
    (hraised : (closingOn env ops event order precision (positionFor b event order)).records =
      .error failure)
    (hok : (closingOn env' ops event order precision' (positionFor b event order)).records = .ok told)
    (halike : Alike (closingOn env' ops event order precision' (positionFor
          (closingOn env ops event order precision (positionFor b event order)).focus.finish
            event order))
      (closingOn env' ops event order precision' (positionFor b event order))) :
    nodesClose ops event order b (positionFor b event order).position = true ∨
      marksFirst env event order precision b = false := by
  obtain ⟨k, hk, hsecond⟩ := closingOn_second env' precision' hclosing hraised
  by_contra hspoiled
  rw [not_or, Bool.not_eq_true, Bool.not_eq_false, ← nodesClose_sync, ← marksFirst_sync] at hspoiled
  exact closingOn_misses hraised hok hk hspoiled.1 hspoiled.2
    (hsecond.records.symm.trans halike.records)

/-- The second attempt at a protective order's state, on a position the book holds. -/
theorem protectiveOn_second {x : ℤ} (hheld : (positionFor b event order).stored = some x)
    (hraised : (protectiveOn env ops event order precision (positionFor b event order)).records =
      .error failure)
    (hok : (protectiveOn env' ops event order precision' (positionFor b event order)).records =
      .ok told)
    (hfill : isFill event.executionType = false) :
    Again (protectiveOn env' ops event order precision' (positionFor
          (protectiveOn env ops event order precision (positionFor b event order)).focus.finish
            event order))
      (protectiveOn env' ops event order precision'
        (protectiveOn env ops event order precision (positionFor b event order)).focus) := by
  obtain ⟨hleft, hstates⟩ := protectiveOn_raised hraised
  rw [hfill] at hleft hstates
  rw [if_neg Bool.false_ne_true] at hleft
  have hstates := statesLevels_takeProtective (hstates rfl)
  obtain ⟨stated, hstated, -, -⟩ := protectiveOn_attempts hraised hok hfill
  have hstored := (stored_protectiveOn env ops event order precision (positionFor b event order)).trans
    hheld
  rw [positionFor_finish hheld hstored]
  generalize (protectiveOn env ops event order precision (positionFor b event order)).focus = g
    at hleft hstored ⊢
  have hposition : g.position = takeProtective order (positionFor b event order).position :=
    congrArg Focus.position hleft
  rw [← hposition] at hstates
  have hstates' : statesLevels event order
      (g.withPositions (g.book.positions.set x g.position)).position = true := hstates
  rw [protectiveOn_states hstates' hstated, protectiveOn_states hstates hstated]
  obtain ⟨hbook, hrecords⟩ := finish_again
    (fun k => protectiveChanged env' ops event order g.position.levels
      { k with position := setProtective order stated k.position })
    (fun positions k => protectiveChanged_withPositions env' ops g.position.levels
      { k with position := setProtective order stated k.position })
    (fun k => (sync_place event order _).1) hstored
  exact ⟨hrecords, hbook⟩

/-- A protective order's event is missed by no second attempt, but for a stop-loss left by a move. -/
def protectiveReplays (event : ProtoOAExecutionEvent) (order : ProtoOAOrder) (precision' : ℕ)
    (p : Position) : Prop :=
  order.positionId? = none ∨ isFill event.executionType = true ∨
    ∀ stated, levelsOf order precision' = .ok stated → dropsTrailed order stated p = false

/-- A protective event that raised is done again. -/
theorem protective_again
    (hraised : (protectiveOn env ops event order precision (positionFor b event order)).records =
      .error failure)
    (hok : (protectiveOn env' ops event order precision' (positionFor b event order)).records =
      .ok told)
    (hkeeps : protectiveReplays event order precision' (positionFor b event order).position) :
    Again (protectiveOn env' ops event order precision' (positionFor
          (protectiveOn env ops event order precision (positionFor b event order)).focus.finish
            event order))
      (protectiveOn env' ops event order precision' (positionFor b event order)) := by
  obtain ⟨hleft, -⟩ := protectiveOn_raised hraised
  by_cases hfill : isFill event.executionType = true
  · rw [if_pos hfill] at hleft
    have hsame : (protectiveOn env ops event order precision (positionFor b event order)).focus =
        positionFor b event order := hleft
    rw [hsame, positionFor_again]
    exact ⟨rfl, rfl⟩
  · cases hheld : (positionFor b event order).stored with
    | none =>
      obtain ⟨hnone, hnew⟩ := positionFor_unheld hheld
      have hfinish : (protectiveOn env ops event order precision
          (positionFor b event order)).focus.finish = b := by
        rw [hleft, hnew]
        rfl
      rw [hfinish]
      exact ⟨rfl, rfl⟩
    | some x =>
      have hsecond := protectiveOn_second hheld hraised hok (by simpa using hfill)
      have hkept := hkeeps.resolve_left (by rw [positionFor_held hheld]; exact Option.some_ne_none x)
      rw [protectiveOn_again hraised hok hkept] at hsecond
      exact hsecond

/-- Where it is not, something it told the first time is missing. -/
theorem protective_misses
    (hraised : (protectiveOn env ops event order precision (positionFor b event order)).records =
      .error failure)
    (hok : (protectiveOn env' ops event order precision' (positionFor b event order)).records =
      .ok told)
    (halike : Alike (protectiveOn env' ops event order precision' (positionFor
          (protectiveOn env ops event order precision (positionFor b event order)).focus.finish
            event order))
      (protectiveOn env' ops event order precision' (positionFor b event order))) :
    protectiveReplays event order precision' (positionFor b event order).position := by
  by_cases hfill : isFill event.executionType = true
  · exact .inr (.inl hfill)
  · cases hheld : (positionFor b event order).stored with
    | none => exact .inl (positionFor_unheld hheld).1
    | some x =>
      refine .inr (.inr fun stated hstated => ?_)
      by_contra hdrops
      rw [Bool.not_eq_false] at hdrops
      have hnot : isFill event.executionType = false := by simpa using hfill
      have hsecond := protectiveOn_second hheld hraised hok hnot
      have hstored (env : Env) (precision : ℕ) (k : Focus) :=
        stored_protectiveOn env ops event order precision k
      have hleft := (hstored env precision (positionFor b event order)).trans hheld
      refine protectiveOn_drops hraised hok hnot hstated hdrops ?_
      have hboth : Alike (protectiveOn env' ops event order precision'
          (protectiveOn env ops event order precision (positionFor b event order)).focus)
          (protectiveOn env' ops event order precision' (positionFor b event order)) :=
        ⟨hsecond.records.symm.trans halike.records,
          hsecond.alike.positions.symm.trans halike.positions⟩
      exact hboth.position ((hstored ..).trans hleft) ((hstored ..).trans hheld)

/-- What a second attempt at an opening order's event does not miss: the order's report, and what the
entry's learning and the state's taking told the first. -/
def openingReplays (env : Env) (event : ProtoOAExecutionEvent) (order : ProtoOAOrder) (precision : ℕ)
    (b : Book) (p : Position) : Prop :=
  (nodesEntry event order p = true ∨ marksFirst env event order precision b = false) ∧
    match order.positionId? with
    | none => takesDeal event b = true →
        order.isStopOut = false ∧ namesLegs event order b p = false
    | some _ => stampsAgain event order p = false ∧ tellsUnreadable event order p = false ∧
        tellsReduction event order p = false ∧
        (nodesEntry event order p = true ∨ opensLegs event order p = false)

/-- Whether the order is marked first does not depend on the opening. -/
theorem marksFirst_opened : marksFirst env event order precision
      (openedFocus event order (positionFor b event order)).book =
    marksFirst env event order precision b :=
  marksFirst_congr ((positionFor_sameOrders b event order).trans (opened_sameOrders ..)).reported

/-- The second attempt at an opening event on a position that is stored. -/
theorem openingOn_second {x : ℤ} (env' : Env) (precision' : ℕ)
    (hheld : (positionFor b event order).stored = some x)
    (hraised : (openingOn env event order precision (positionFor b event order)).records =
      .error failure) :
    Again (openingOn env' event order precision' (positionFor
          (openingOn env event order precision (positionFor b event order)).focus.finish event order))
      (openingOn env' event order precision'
        (openingOn env event order precision (positionFor b event order)).focus) := by
  obtain ⟨hstands, -⟩ := openingOn_raised hraised
  have hstored : (openingOn env event order precision (positionFor b event order)).focus.stored =
      some x := (stored_openingOn hstands).trans hheld
  rw [positionFor_finish hheld hstored]
  obtain ⟨hbook, hrecords⟩ := finish_again (openingOn env' event order precision')
    (fun positions k => openingOn_withPositions hstands env' precision' k)
    (fun k => stored_openingOn hstands) hstored
  exact ⟨hrecords, hbook⟩

/-- On a position the book does not hold, the second attempt starts from a new one. -/
theorem positionFor_unkept (hheld : (positionFor b event order).stored = none)
    (hraised : (openingOn env event order precision (positionFor b event order)).records =
      .error failure) :
    positionFor (openingOn env event order precision (positionFor b event order)).focus.finish
        event order =
      { positionFor b event order with
        book := openedBy env event order precision
          (openedFocus event order (positionFor b event order)) } := by
  obtain ⟨hstands, hleft⟩ := openingOn_raised hraised
  obtain ⟨hnone, hnew⟩ := positionFor_unheld hheld
  have hstored : (openingOn env event order precision (positionFor b event order)).focus.stored =
      none := (stored_openingOn hstands).trans hheld
  have hfinish : (openingOn env event order precision (positionFor b event order)).focus.finish =
      (openingOn env event order precision (positionFor b event order)).focus.book := by
    unfold Focus.finish
    rw [hstored]
  have hk (c : Book) : { positionFor b event order with book := c } =
      Focus.mk c (newPosition event order) none := by
    rw [hnew]
  rw [hfinish, positionFor_none hnone, hleft, hk]

/-- A new position is not held. -/
theorem unheld_newPosition (event : ProtoOAExecutionEvent) (order : ProtoOAOrder) :
    Unheld (newPosition event order) := ⟨⟨rfl, rfl, rfl⟩, rfl, rfl⟩

/-- An opening event that raised is done again. -/
theorem opening_again (hclosing : order.closingOrder = false)
    (hraised : (openingOn env event order precision (positionFor b event order)).records =
      .error failure)
    (hok : (openingOn env' event order precision' (positionFor b event order)).records = .ok told)
    (hkeeps : openingReplays env event order precision b (positionFor b event order).position) :
    Again (openingOn env' event order precision' (positionFor
          (openingOn env event order precision (positionFor b event order)).focus.finish event order))
      (openingOn env' event order precision' (positionFor b event order)) := by
  obtain ⟨hreported, hkept⟩ := hkeeps
  obtain ⟨hstands, -⟩ := openingOn_raised hraised
  rw [← marksFirst_opened] at hreported
  cases hheld : (positionFor b event order).stored with
  | some x =>
    rw [positionFor_held hheld] at hkept
    obtain ⟨hstamps, hunreadable, hreduction, hlegs⟩ := hkept
    have hsecond := openingOn_second env' precision' hheld hraised
    rw [openingOn_again hclosing hraised hstamps hunreadable hreduction
      (or_and_left.mpr ⟨hreported, hlegs⟩)] at hsecond
    exact hsecond
  | none =>
    obtain ⟨hnone, hnew⟩ := positionFor_unheld hheld
    rw [hnone] at hkept
    have hblank : Unheld (positionFor b event order).position := by
      rw [hnew]
      exact unheld_newPosition ..
    have hbook : (positionFor b event order).book = b := by
      rw [hnew]
    rw [positionFor_unkept hheld hraised]
    obtain ⟨hrecords, hleft⟩ := openingOn_unkept_again hclosing hblank hok hreported
      (by rw [hbook]; exact hkept)
    refine ⟨hrecords.trans hok.symm, ?_⟩
    have hstored (k : Focus) (hk : k.stored = none) :
        (openingOn env' event order precision' k).focus.finish =
          (openingOn env' event order precision' k).focus.book := by
      have hnothing : (openingOn env' event order precision' k).focus.stored = none :=
        (stored_openingOn hstands).trans hk
      unfold Focus.finish
      rw [hnothing]
    have hagain := hstored { positionFor b event order with
      book := openedBy env event order precision
        (openedFocus event order (positionFor b event order)) } hheld
    exact hagain.trans (hleft.trans (hstored (positionFor b event order) hheld).symm)

/-- Where it is not, its second attempt misses something. -/
theorem opening_misses (hclosing : order.closingOrder = false)
    (hraised : (openingOn env event order precision (positionFor b event order)).records =
      .error failure)
    (hok : (openingOn env' event order precision' (positionFor b event order)).records = .ok told)
    (halike : Alike (openingOn env' event order precision' (positionFor
          (openingOn env event order precision (positionFor b event order)).focus.finish event order))
      (openingOn env' event order precision' (positionFor b event order))) :
    openingReplays env event order precision b (positionFor b event order).position := by
  obtain ⟨hstands, -⟩ := openingOn_raised hraised
  unfold openingReplays
  rw [← marksFirst_opened]
  cases hheld : (positionFor b event order).stored with
  | some x =>
    have hsecond := openingOn_second env' precision' hheld hraised
    have hboth : Alike (openingOn env' event order precision'
        (openingOn env event order precision (positionFor b event order)).focus)
        (openingOn env' event order precision' (positionFor b event order)) :=
      ⟨hsecond.records.symm.trans halike.records,
        hsecond.alike.positions.symm.trans halike.positions⟩
    have hposition := hboth.position
      ((stored_openingOn hstands).trans ((stored_openingOn hstands).trans hheld))
      ((stored_openingOn hstands).trans hheld)
    obtain ⟨hstamps, hunreadable, hreduction, hkeeps⟩ := openingOn_misses hclosing hraised hok
      hposition (hboth.records.trans hok)
    rw [positionFor_held hheld]
    exact ⟨hkeeps.imp_right (·.1), hstamps, hunreadable, hreduction, hkeeps.imp_right (·.2)⟩
  | none =>
    obtain ⟨hnone, hnew⟩ := positionFor_unheld hheld
    have hblank : Unheld (positionFor b event order).position := by
      rw [hnew]
      exact unheld_newPosition ..
    have hbook : (positionFor b event order).book = b := by
      rw [hnew]
    rw [positionFor_unkept hheld hraised] at halike
    obtain ⟨hreported, htaken⟩ := openingOn_unkept_misses hclosing hblank hok
      (halike.records.trans hok)
    rw [hbook] at htaken
    rw [hnone]
    exact ⟨hreported, htaken⟩

end

/-! ## Applying the event again -/

/-- What raised is gone: the event's symbol is still loaded, and the event is applied without raising. -/
def CauseGone (env' : Env) (ops : Operations) (b : Book) (event : ProtoOAExecutionEvent) : Prop :=
  (∀ order, event.order? = some order →
    (env'.pricePrecision order.tradeData.symbolId).isSome = true) ∧
  ∃ told, (apply env' ops b event).2 = .ok told

/-- What the first attempt at an event of a loaded symbol leaves for the second to do alike. It misses
an order that the first marked as reported, the notices and legs of an entry learnt and of a state
taken, the time of the entry's fill where a later fill closed the position, the volume of a deal taken
on a position that is not kept, and a stop-loss that a trailing move left. -/
def replays (env : Env) (ops : Operations) (b : Book) (event : ProtoOAExecutionEvent)
    (order : ProtoOAOrder) (precision precision' : ℕ) : Prop :=
  let p := (positionFor b event order).position
  if order.orderType = .stopLossTakeProfit then protectiveReplays event order precision' p
  else if order.closingOrder then
    nodesClose ops event order b p = true ∨ marksFirst env event order precision b = false
  else openingReplays env event order precision b p

/-- Whether an event whose handling raised is left as it would be had it not come, once its prices can
be read. -/
def Replayable (env env' : Env) (ops : Operations) (b : Book) (event : ProtoOAExecutionEvent) : Prop :=
  ∀ order precision precision', event.order? = some order →
    env.pricePrecision order.tradeData.symbolId = some precision →
    env'.pricePrecision order.tradeData.symbolId = some precision' →
    replays env ops b event order precision precision'

section

variable {env' : Env} {precision' : ℕ} {told : List Record} {b : Book}

/-- An opening event that raises leaves the ended entries. -/
theorem finish_ended
    (hraised : (openingOn env event order precision (positionFor b event order)).records =
      .error failure) :
    (openingOn env event order precision (positionFor b event order)).focus.finish.endedEntries =
      b.endedEntries := by
  obtain ⟨-, hleft⟩ := openingOn_raised hraised
  have hfinish (g : Focus) : g.finish.endedEntries = g.book.endedEntries := by
    unfold Focus.finish
    split <;> rfl
  rw [hfinish, hleft]
  exact ((openedBy_fields ..).2.trans openedFocus_ended).trans (positionFor_marks b event order).2

/-- The route of the second attempt is the first's. -/
theorem handleLoaded_second (env' : Env) (precision' : ℕ)
    (hraised : (handleLoaded env ops b event order precision).records = .error failure) :
    let f := positionFor b event order
    (order.orderType = .stopLossTakeProfit ∧
      (protectiveOn env ops event order precision f).records = .error failure ∧
      handleLoaded env' ops b event order precision' = protectiveOn env' ops event order precision' f ∧
      handleLoaded env' ops (handleLoaded env ops b event order precision).focus.finish event order
        precision' = protectiveOn env' ops event order precision'
          (positionFor (protectiveOn env ops event order precision f).focus.finish event order)) ∨
    (order.orderType ≠ .stopLossTakeProfit ∧ order.closingOrder = true ∧
      (closingOn env ops event order precision f).records = .error failure ∧
      handleLoaded env' ops b event order precision' = closingOn env' ops event order precision' f ∧
      handleLoaded env' ops (handleLoaded env ops b event order precision).focus.finish event order
        precision' = closingOn env' ops event order precision'
          (positionFor (closingOn env ops event order precision f).focus.finish event order)) ∨
    (order.orderType ≠ .stopLossTakeProfit ∧ order.closingOrder = false ∧
      (openingOn env event order precision f).records = .error failure ∧
      handleLoaded env' ops b event order precision' = openingOn env' event order precision' f ∧
      handleLoaded env' ops (handleLoaded env ops b event order precision).focus.finish event order
        precision' = openingOn env' event order precision'
          (positionFor (openingOn env event order precision f).focus.finish event order)) := by
  dsimp only
  have hfirst : handleLoaded env ops b event order precision =
      if order.orderType = .stopLossTakeProfit then
        protectiveOn env ops event order precision (positionFor b event order)
      else if order.closingOrder then closingOn env ops event order precision (positionFor b event order)
      else if order.orderId ∈ b.endedEntries ∧ !isFill event.executionType then
        Handled.mk ⟨b, (positionFor b event order).position, none⟩ (.ok [])
      else openingOn env event order precision (positionFor b event order) := rfl
  rw [hfirst] at hraised ⊢
  by_cases hprotective : order.orderType = .stopLossTakeProfit
  · rw [if_pos hprotective] at hraised ⊢
    exact .inl ⟨hprotective, hraised, if_pos hprotective, if_pos hprotective⟩
  · rw [if_neg hprotective] at hraised ⊢
    by_cases hclosing : order.closingOrder = true
    · rw [if_pos hclosing] at hraised ⊢
      exact .inr (.inl ⟨hprotective, hclosing, hraised,
        (if_neg hprotective).trans (if_pos hclosing), (if_neg hprotective).trans (if_pos hclosing)⟩)
    · rw [if_neg hclosing] at hraised ⊢
      by_cases hended : order.orderId ∈ b.endedEntries ∧ (!isFill event.executionType) = true
      · rw [if_pos hended] at hraised
        cases hraised
      · rw [if_neg hended] at hraised ⊢
        have hended' : ¬ (order.orderId ∈ (openingOn env event order precision
            (positionFor b event order)).focus.finish.endedEntries ∧
              (!isFill event.executionType) = true) := by
          rw [finish_ended hraised]
          exact hended
        exact .inr (.inr ⟨hprotective, by simpa using hclosing, hraised,
          (if_neg hprotective).trans ((if_neg hclosing).trans (if_neg hended)),
          (if_neg hprotective).trans ((if_neg hclosing).trans (if_neg hended'))⟩)

/-- An event of a loaded symbol that raised is done again. -/
theorem handleLoaded_again
    (hraised : (handleLoaded env ops b event order precision).records = .error failure)
    (hok : (handleLoaded env' ops b event order precision').records = .ok told)
    (hkeeps : replays env ops b event order precision precision') :
    Again (handleLoaded env' ops (handleLoaded env ops b event order precision).focus.finish event order
        precision')
      (handleLoaded env' ops b event order precision') := by
  unfold replays at hkeeps
  dsimp only at hkeeps
  rcases handleLoaded_second env' precision' hraised with
    ⟨hprotective, hfirst, honce, hagain⟩ | ⟨hprotective, hclosing, hfirst, honce, hagain⟩ |
      ⟨hprotective, hclosing, hfirst, honce, hagain⟩
  · rw [if_pos hprotective] at hkeeps
    rw [honce] at hok
    rw [hagain, honce]
    exact protective_again hfirst hok hkeeps
  · rw [if_neg hprotective, if_pos hclosing] at hkeeps
    rw [hagain, honce]
    exact closing_again hclosing hfirst hkeeps
  · rw [if_neg hprotective, if_neg (by rw [hclosing]; exact Bool.false_ne_true)] at hkeeps
    rw [honce] at hok
    rw [hagain, honce]
    exact opening_again hclosing hfirst hok hkeeps

/-- Where it is not, its second attempt misses something. -/
theorem handleLoaded_misses
    (hraised : (handleLoaded env ops b event order precision).records = .error failure)
    (hok : (handleLoaded env' ops b event order precision').records = .ok told)
    (halike : Alike (handleLoaded env' ops (handleLoaded env ops b event order precision).focus.finish
        event order precision')
      (handleLoaded env' ops b event order precision')) :
    replays env ops b event order precision precision' := by
  unfold replays
  dsimp only
  rcases handleLoaded_second env' precision' hraised with
    ⟨hprotective, hfirst, honce, hagain⟩ | ⟨hprotective, hclosing, hfirst, honce, hagain⟩ |
      ⟨hprotective, hclosing, hfirst, honce, hagain⟩
  · rw [honce] at hok
    rw [hagain, honce] at halike
    rw [if_pos hprotective]
    exact protective_misses hfirst hok halike
  · rw [honce] at hok
    rw [hagain, honce] at halike
    rw [if_neg hprotective, if_pos hclosing]
    exact closing_misses hclosing hfirst hok halike
  · rw [honce] at hok
    rw [hagain, honce] at halike
    rw [if_neg hprotective, if_neg (by rw [hclosing]; exact Bool.false_ne_true)]
    exact opening_misses hclosing hfirst hok halike

/-- An event that raised is handled again. -/
theorem handles_again (h : Handles b event order) :
    Handles (handle env ops b event order).1 event order := by
  have hmarks := handle_marks env ops b event order
  obtain ⟨horder, hopen, hnew⟩ := h
  refine ⟨horder, by rw [hmarks.closedInReconciliation]; exact hopen, ?_⟩
  unfold repeated holdsKey at hnew ⊢
  rw [hmarks.seen, hmarks.appliedDeals]
  exact hnew

/-- An event whose handling raised is applied again as if it had not come just if it is
`Replayable`. -/
theorem applied_again_iff (hraised : (apply env ops b event).2 = .error failure)
    (hgone : CauseGone env' ops b event) :
    apply env' ops (apply env ops b event).1 event = apply env' ops b event ↔
      Replayable env env' ops b event := by
  obtain ⟨hloaded', told, htold⟩ := hgone
  -- an event that is passed over does not raise
  obtain ⟨order, hhandles⟩ : ∃ order, Handles b event order := by
    refine (apply_cases env ops b event).resolve_right fun hnothing => ?_
    rw [hnothing] at hraised
    cases hraised
  obtain ⟨precision', hprecision'⟩ := Option.isSome_iff_exists.mp (hloaded' order hhandles.1)
  have hhandle' (c : Book) : handle env' ops c event order =
      ((handleLoaded env' ops c event order precision').focus.finish,
        (handleLoaded env' ops c event order precision').records) := by
    unfold handle
    rw [hprecision']
  cases hprecision : env.pricePrecision order.tradeData.symbolId with
  | none =>
    have hunloaded : handle env ops b event order =
        (trackUnloaded event order b, .ok (unloadedActivity event order)) := by
      unfold handle
      rw [hprecision]
    rw [apply_of_handles hhandles, hunloaded] at hraised
    cases hraised
  | some precision =>
    have hhandle : handle env ops b event order =
        ((handleLoaded env ops b event order precision).focus.finish,
          (handleLoaded env ops b event order precision).records) := by
      unfold handle
      rw [hprecision]
    have hfirst : ∃ reason, (handleLoaded env ops b event order precision).records = .error reason := by
      rw [apply_of_handles hhandles, hhandle] at hraised
      dsimp only at hraised
      split at hraised
      · rename_i reason hreason
        exact ⟨reason, hreason⟩
      · cases hraised
    obtain ⟨reason, hreason⟩ := hfirst
    -- the first attempt leaves the book as its handler did, without the mark
    have hleft : (apply env ops b event).1 =
        (handleLoaded env ops b event order precision).focus.finish := by
      rw [apply_of_handles hhandles, hhandle]
      dsimp only
      rw [hreason]
    have honce : ∃ told, (handleLoaded env' ops b event order precision').records = .ok told := by
      rw [apply_of_handles hhandles, hhandle'] at htold
      dsimp only at htold
      split at htold
      · cases htold
      · rename_i records hrecords
        exact ⟨records, hrecords⟩
    obtain ⟨once, honce⟩ := honce
    have hagain : Handles (handleLoaded env ops b event order precision).focus.finish event order := by
      have hkept : Handles (handle env ops b event order).1 event order := handles_again hhandles
      rw [hhandle] at hkept
      exact hkept
    rw [hleft, apply_of_handles hagain, apply_of_handles hhandles, hhandle', hhandle', honce]
    dsimp only
    -- both attempts are told or neither, so the books decide
    constructor
    · intro heq order' first second horder hfirst hsecond
      obtain rfl : order = order' := Option.some.inj (hhandles.1.symm.trans horder)
      obtain rfl : precision = first := Option.some.inj (hprecision.symm.trans hfirst)
      obtain rfl : precision' = second := Option.some.inj (hprecision'.symm.trans hsecond)
      refine handleLoaded_misses hreason honce ?_
      cases hsecond : (handleLoaded env' ops (handleLoaded env ops b event order
          precision).focus.finish event order precision').records with
      | error failed =>
        rw [hsecond] at heq
        have hrecords := congrArg Prod.snd heq
        cases hrecords
      | ok records =>
        rw [hsecond] at heq
        have hrecords : records = once := Except.ok.inj (congrArg Prod.snd heq)
        have hbooks : markApplied event order (handleLoaded env' ops (handleLoaded env ops b event
            order precision).focus.finish event order precision').focus.finish =
          markApplied event order (handleLoaded env' ops b event order precision').focus.finish :=
          congrArg Prod.fst heq
        refine ⟨by rw [hsecond, honce, hrecords], ?_⟩
        rw [← markApplied_positions event order, hbooks, markApplied_positions]
    · intro hreplays
      have hall := handleLoaded_again hreason honce
        (hreplays order precision precision' hhandles.1 hprecision hprecision')
      rw [hall.records, hall.book, honce]

end

end

/-! ## A fill before the account is known -/

section

open Sample

/-- The environment before the account's money digits are known. -/
def accountless : Env := { env with moneyDigits := none }

/-- The fill of an entry, first without the account's digits. -/
theorem entry_applied_again :
    apply env {} (apply accountless {} {} (entryFill entry)).1 (entryFill entry) =
      apply env {} {} (entryFill entry) := by
  have hraised : (apply accountless {} {} (entryFill entry)).2 = .error .moneyDigitsUnknown := by
    decide +kernel
  have hgone : CauseGone env {} {} (entryFill entry) := by
    refine ⟨?_, exists_of_isOk (by decide +kernel)⟩
    rintro order ⟨⟩
    rfl
  refine (applied_again_iff hraised hgone).mpr ?_
  rintro order precision precision' ⟨⟩ hprecision hprecision'
  obtain rfl : 2 = precision := Option.some.inj hprecision
  obtain rfl : 2 = precision' := Option.some.inj hprecision'
  refine ⟨by decide +kernel, ?_⟩
  refine ⟨?_, ?_, ?_, ?_⟩
  · decide +kernel
  · decide +kernel
  · decide +kernel
  · decide +kernel

/-- The levels of a trader's position, seen before its entry. -/
def levelsFirst : Book :=
  (perform {} (.apply env {} (protectiveEvent .orderAccepted 200 (some (.finite 90)) none))).1

/-- The entry's fill raises once it is learnt, and the second attempt opens no legs for its levels. -/
theorem entry_levels_lost : ¬ ∀ b, Reachable b → ∀ (env env' : Env) (ops : Operations)
    (event : ProtoOAExecutionEvent) (failure : Failure), (apply env ops b event).2 = .error failure →
    CauseGone env' ops b event →
    apply env' ops (apply env ops b event).1 event = apply env' ops b event := by
  intro h
  have hreachable : Reachable levelsFirst := .operation _ .new
  have hgone : CauseGone env {} levelsFirst (entryFill entry) := by
    refine ⟨?_, exists_of_isOk (by decide +kernel)⟩
    rintro order ⟨⟩
    rfl
  have hsame := h levelsFirst hreachable accountless env {} (entryFill entry) .moneyDigitsUnknown
    (by decide +kernel) hgone
  exact absurd hsame (by decide +kernel)

end

end VenueBook

end NautilusCtrader
